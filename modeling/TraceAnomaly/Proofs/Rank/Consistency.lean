import TraceAnomaly.Proofs.CallStack.History
import TraceAnomaly.Proofs.CallStack.Silence
import TraceAnomaly.Proofs.Rank.Conclusion
import TraceAnomaly.Proofs.StableSort

/-! A report agrees with itself and with its frame: it lists the calls that the exits of the frame have
closed, by function and then in closing order; its numbers of anomalies are those of the labels in it;
and the functions of interest are those with an anomaly that have not been nested too deep. -/

namespace TraceAnomaly

variable {α σ : Type}

/-! ### Anomalies -/

/-- Adding a number at one key adds it to the total. -/
theorem Keyed.total_alter (m : Keyed UInt64 UInt64) (k n : UInt64) :
    (m.alter k fun old => old.getD 0 + n).values.foldl (· + ·) 0 = m.values.foldl (· + ·) 0 + n := by
  obtain ⟨l₁, l₂, hold, hnew, -⟩ := toList_split m k
  simp only [← List.sum_eq_foldl, values_eq, hold, hnew]
  cases m.get? k with
  | none => simp; ac_rfl
  | some old => simp; ac_rfl

namespace FrameReport

def tally : List CallRecord → Keyed UInt64 UInt64
  | [] => Keyed.empty
  | c :: rest =>
    if c.isAnomalous then (tally rest).alter c.function fun old => old.getD 0 + 1 else tally rest

theorem get?_tally (calls : List CallRecord) (f : UInt64) :
    (tally calls).get? f =
      let n := (calls.filter (·.function = f)).countP CallRecord.isAnomalous
      if n = 0 then none else some (UInt64.ofNat n) := by
  induction calls with
  | nil => rfl
  | cons c rest ih =>
    rw [tally, List.filter_cons]
    by_cases hc : c.isAnomalous
    · rw [if_pos hc, Keyed.get?_alter]
      by_cases hf : c.function = f
      · subst hf
        simp only [ih, if_true, decide_true, List.countP_cons_of_pos hc]
        split
        · rename_i hn
          simp [hn]
        · simp [UInt64.ofNat_add]
      · simpa [hf, Ne.symm hf] using ih
    · rw [if_neg hc, ih]
      split
      · rw [List.countP_cons_of_neg hc]
      · rfl

theorem total_tally (calls : List CallRecord) :
    (tally calls).values.foldl (· + ·) 0 = UInt64.ofNat (calls.countP CallRecord.isAnomalous) := by
  induction calls with
  | nil => rfl
  | cons c rest ih =>
    rw [tally]
    by_cases hc : c.isAnomalous
    · rw [if_pos hc, Keyed.total_alter, ih, List.countP_cons_of_pos hc, UInt64.ofNat_add]
      rfl
    · rw [if_neg hc, ih, List.countP_cons_of_neg hc]

end FrameReport

namespace Detector

variable (d : Detector α) (depth : UInt64 → ℕ)

theorem sorted_functionsOfInterest : (d.functionsOfInterest depth).Pairwise (· < ·) := by
  rw [functionsOfInterest, List.pairwise_map]
  exact (d.abnormal.ascending.filter _).imp fun h => compareOfLessAndEq_eq_lt.1 h

theorem mem_functionsOfInterest {f : UInt64} : f ∈ d.functionsOfInterest depth ↔
    ∃ n, d.abnormal.get? f = some n ∧ n ≠ 0 ∧ depth f < d.config.interestDepth.toNat := by
  simp [functionsOfInterest, Keyed.get?_eq_some_iff]

end Detector

namespace CallStacks

/-- An event closes at most one call. -/
theorem length_closedCalls_happensAll (s : CallStacks) (es : List Event) :
    (s.happensAll es).closedCalls.length ≤ (es.filterMap Event.call?).length := by
  have hone : ∀ (s : CallStacks) (e : Event),
      (s.happens e).closedCalls.length ≤ e.call?.toList.length := by
    intro s e
    cases e with
    | message e => simp [happens, History.closedCalls]
    | call e =>
      have hcall : (Event.call e).call? = some e := rfl
      cases hk : e.kind with
      | entry => simp [happens, hk]
      | exit => cases hd : s.departure e <;> simp [happens, hk, hd, hcall]
  induction es generalizing s with
  | nil => simp [happensAll, History.closedCalls]
  | cons e rest ih =>
    have hcons : (e :: rest).filterMap Event.call? = e.call?.toList ++ rest.filterMap Event.call? := by
      cases e <;> rfl
    have he := hone s e
    rw [hcons, List.length_append]
    simp only [happensAll]
    split
    · omega
    · rename_i s' c _
      have hrest := ih s'
      rw [History.closedCalls_append, List.length_append]
      omega

end CallStacks

/-! ### A report -/

namespace Rank.Ready

variable [Scalar α] {r r' : Rank α} {a : Option (Aggregator σ α)} {s s' : σ} {frame : Frame}
  {report : FrameReport} (h : r.Ready) (hr : r.conclude a s frame = (r', s', report))
include h hr

/-- The report lists the calls closed in the frame, sorted by function. -/
theorem sorted_calls : report.calls.Pairwise fun c d => c.function ≤ d.function := by
  have hwf := h.calls.labelFrame ((gather r.calls r.detector).push a s).1
  cases hr
  exact hwf.sorted_frameCalls

theorem unlabelled_calls {closings : List CallRecord}
    (hclosed : ∀ f, r.calls.closedCalls f = closings.filter (·.function = f)) :
    report.calls.map CallRecord.unlabelled =
      (closings.map CallRecord.unlabelled).mergeSort fun c d => c.function ≤ d.function := by
  refine eq_mergeSort CallRecord.function ?_ fun f => ?_
  · exact List.pairwise_map.2 (h.sorted_calls hr)
  · have hcalls := congrArg (List.map CallRecord.unlabelled) (h.filter_calls hr f)
    rw [CallStacks.map_unlabelled_labelCalls, hclosed] at hcalls
    rw [List.filter_map, List.filter_map]
    exact hcalls

theorem abnormal_eq : report.abnormal = FrameReport.tally report.calls := by
  refine Keyed.ext_get? fun f => ?_
  rw [h.get?_abnormal hr, FrameReport.get?_tally]
  rfl

theorem anomalies_eq : report.anomalies = UInt64.ofNat (report.calls.countP CallRecord.isAnomalous) := by
  rw [FrameReport.anomalies, h.abnormal_eq hr, FrameReport.total_tally]

end Rank.Ready

/-- A report that agrees with the calls closed in its frame and with itself. -/
structure FrameReport.Consistent (report : FrameReport) (closings : List CallRecord)
    (depth : UInt64 → ℕ) (interestDepth : UInt64) : Prop where
  /-- By function and then in closing order, each with a label. -/
  calls : report.calls.map CallRecord.unlabelled =
    (closings.map CallRecord.unlabelled).mergeSort fun c d => c.function ≤ d.function
  contains : ∀ f, report.abnormal.contains f ↔
    ∃ call ∈ report.calls, call.function = f ∧ call.label = .anomalous
  counts : ∀ f n, report.abnormal.get? f = some n → n.toNat = report.anomalous f
  ascending : report.functionsOfInterest.Pairwise (· < ·)
  interest : ∀ f, f ∈ report.functionsOfInterest ↔
    report.abnormal.contains f ∧ depth f < interestDepth.toNat

theorem FrameReport.anomalous_eq_zero_iff (report : FrameReport) (f : UInt64) :
    report.anomalous f = 0 ↔ ¬ ∃ call ∈ report.calls, call.function = f ∧ call.label = .anomalous := by
  simp [anomalous, List.countP_eq_zero, CallRecord.isAnomalous]

theorem Rank.Ready.consistent [Scalar α] {r r' : Rank α} {a : Option (Aggregator σ α)} {s s' : σ} {frame : Frame}
    {report : FrameReport} (h : r.Ready) (hr : r.conclude a s frame = (r', s', report))
    {closings : List CallRecord} (hclosed : ∀ f, r.calls.closedCalls f = closings.filter (·.function = f))
    (hfew : closings.length < UInt64.size) :
    report.Consistent closings r'.calls.maxDepth r.detector.config.interestDepth := by
  have hcount : ∀ f, report.anomalous f < UInt64.size := fun f => by
    have hcalls := congrArg List.length (h.filter_calls hr f)
    rw [CallStacks.length_labelCalls, hclosed] at hcalls
    have hanomalous : report.anomalous f ≤ (report.calls.filter (·.function = f)).length :=
      List.countP_le_length
    have hle := List.length_filter_le (fun c : CallRecord => c.function = f) closings
    omega
  have hcontains : ∀ f, report.abnormal.contains f ↔ report.anomalous f ≠ 0 := fun f => by
    rw [Keyed.contains, h.get?_abnormal hr]
    split <;> simp_all
  have hinterest : report.functionsOfInterest = r'.detector.functionsOfInterest r'.calls.maxDepth := by
    cases hr
    rfl
  have habnormal : report.abnormal = r'.detector.abnormal := by
    cases hr
    rfl
  refine ⟨h.unlabelled_calls hr hclosed, fun f => ?_, fun f n hn => ?_, ?_, fun f => ?_⟩
  · rw [hcontains, Ne, report.anomalous_eq_zero_iff, not_not]
  · rw [h.get?_abnormal hr] at hn
    split at hn
    · cases hn
    · rw [← Option.some.inj hn, UInt64.toNat_ofNat_of_lt' (hcount f)]
  · rw [hinterest]
    exact r'.detector.sorted_functionsOfInterest _
  · rw [hinterest, Detector.mem_functionsOfInterest, ← habnormal, h.config_eq hr, hcontains,
      h.get?_abnormal hr]
    have hpositive : report.anomalous f ≠ 0 → UInt64.ofNat (report.anomalous f) ≠ 0 := fun hf hzero => by
      have htoNat := congrArg UInt64.toNat hzero
      rw [UInt64.toNat_ofNat_of_lt' (hcount f)] at htoNat
      exact hf htoNat
    by_cases hf : report.anomalous f = 0
    · simp [hf]
    · simp [hf, hpositive hf]

end TraceAnomaly
