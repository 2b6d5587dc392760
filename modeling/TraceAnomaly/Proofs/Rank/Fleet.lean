import Mathlib.Logic.Function.Basic
import TraceAnomaly.Proofs.Rank.Conclusion

/-! Ranks that share one store in a process. Whatever the order in which they take their frames, the
store holds of every function the statistics of each report, merged one after another as the reports
came, and the number of calls labelled anomalous; nothing is lost and nothing counted twice. -/

namespace TraceAnomaly

/-- Ranks with the store that they share. -/
structure Fleet (ι : Type) where
  ranks : ι → Rank
  store : Store Float

namespace Fleet

variable {ι : Type}

/-- Ranks that have not taken any frame, and an empty store. -/
def start (number : ι → UInt64) (names : ι → FunctionTable) (config : ι → DetectorConfig) :
    Fleet ι where
  ranks i := .start (number i) (names i) (config i)
  store := .empty

variable [DecidableEq ι]

def process (w : Fleet ι) (i : ι) (f : Frame) : Fleet ι × FrameStatus :=
  let (r, s, status) := (w.ranks i).process (some .inProcess) w.store f
  ({ ranks := Function.update w.ranks i r, store := s }, status)

/-- The ranks take frames in the order of a schedule; the reports are collected as they come. -/
def processAll (w : Fleet ι) : List (ι × Frame) → Fleet ι × List FrameReport
  | [] => (w, [])
  | (i, f) :: rest =>
    let (w, status) := w.process i f
    let (final, reports) := processAll w rest
    (final, status.report?.toList ++ reports)

def callsOf (reports : List FrameReport) (f : UInt64) : List CallRecord :=
  reports.flatMap fun report => report.calls.filter (·.function = f)

/-- The statistics of a function in each report with calls of it. -/
def deltas (reports : List FrameReport) (f : UInt64) : List (PowerSums Float) :=
  (reports.filter fun report => ∃ c ∈ report.calls, c.function = f).map fun report =>
    .ofSamples (report.runtimes f)

theorem callsOf_append (reports more : List FrameReport) (f : UInt64) :
    callsOf (reports ++ more) f = callsOf reports f ++ callsOf more f :=
  List.flatMap_append

theorem callsOf_singleton (report : FrameReport) (f : UInt64) :
    callsOf [report] f = report.calls.filter (·.function = f) := by
  simp [callsOf]

theorem deltas_append (reports more : List FrameReport) (f : UInt64) :
    deltas (reports ++ more) f = deltas reports f ++ deltas more f := by
  simp [deltas]

theorem deltas_singleton (report : FrameReport) (f : UInt64) :
    deltas [report] f = if report.calls.filter (·.function = f) = [] then []
      else [.ofSamples (report.runtimes f)] := by
  have hmem : (∃ c ∈ report.calls, c.function = f) ↔ report.calls.filter (·.function = f) ≠ [] := by
    simp
  simp only [deltas, List.filter_cons, List.filter_nil, hmem, decide_eq_true_eq]
  by_cases h : report.calls.filter (·.function = f) = [] <;> simp [h]

/-- What a concluded frame does to the store, function by function. -/
theorem get?_store {q r' : Rank} {s s' : Store Float} {f : Frame} {report : FrameReport}
    (hq : q.Ready) (hr : q.conclude (some .inProcess) s f = (r', s', report)) (g : UInt64) :
    s'.get? g = if report.calls.filter (·.function = g) = [] then s.get? g
      else some ((s.value g + .ofSamples (report.runtimes g)).addAbnormal
        (UInt64.ofNat (report.anomalous g))) := by
  have hstore : s' = (s.updateAll report.batch).addAbnormalAll report.abnormal :=
    hq.view_eq (l := .inProcess) hr rfl
  rw [hstore, Store.get?_addAbnormalAll, hq.get?_abnormal hr, Store.value,
    Store.get?_updateAll, FrameReport.get?_batch]
  by_cases hg : report.calls.filter (·.function = g) = []
  · have hzero : report.anomalous g = 0 := by rw [FrameReport.anomalous, hg]; rfl
    simp [hg, hzero]
  · by_cases hn : report.anomalous g = 0
    · simp [hg, hn, PowerSums.addAbnormal_zero]
    · simp [hg, hn]

/-- The store holds these reports. -/
structure Holds (reports : List FrameReport) (w : Fleet ι) : Prop where
  calls : ∀ i, (w.ranks i).calls.WellFormed
  value : ∀ f, w.store.value f = ((deltas reports f).foldl (· + ·) PowerSums.empty).setAbnormal
    (UInt64.ofNat ((callsOf reports f).countP CallRecord.isAnomalous))
  known : ∀ f, w.store.get? f = none ↔ callsOf reports f = []

namespace Holds

variable {reports : List FrameReport} {w : Fleet ι}

omit [DecidableEq ι] in
theorem start (number : ι → UInt64) (names : ι → FunctionTable) (config : ι → DetectorConfig) :
    Holds [] (Fleet.start number names config) where
  calls i := .start (names i)
  value _ := rfl
  known _ := iff_of_true rfl rfl

theorem wellFormed_update (h : Holds reports w) (i : ι) {r' : Rank} (hr' : r'.calls.WellFormed) (j : ι) :
    (Function.update w.ranks i r' j).calls.WellFormed := by
  by_cases hj : j = i
  · subst hj
    simpa using hr'
  · simpa [Function.update_of_ne hj] using h.calls j

/-- One more report. -/
theorem report (h : Holds reports w) (i : ι) {r' : Rank} (hr' : r'.calls.WellFormed) {s' : Store Float}
    {report : FrameReport}
    (hs : ∀ g, s'.get? g = if report.calls.filter (·.function = g) = [] then w.store.get? g
      else some ((w.store.value g + .ofSamples (report.runtimes g)).addAbnormal
        (UInt64.ofNat (report.anomalous g)))) :
    Holds (reports ++ [report]) { ranks := Function.update w.ranks i r', store := s' } where
  calls := h.wellFormed_update i hr'
  value g := by
    rw [Store.value, hs g, deltas_append, deltas_singleton, callsOf_append, callsOf_singleton]
    by_cases hg : report.calls.filter (·.function = g) = []
    · simp only [hg, if_true, List.append_nil]
      exact h.value g
    · simp only [hg, if_false, Option.getD_some, List.foldl_append, List.foldl_cons, List.foldl_nil,
        List.countP_append, UInt64.ofNat_add, h.value g]
      rw [PowerSums.setAbnormal_add _ _ _ (PowerSums.setAbnormal_ofSamples _)]
      rfl
  known g := by
    rw [hs g, callsOf_append, callsOf_singleton, List.append_eq_nil_iff]
    by_cases hg : report.calls.filter (·.function = g) = []
    · simpa [hg] using h.known g
    · simp [hg]

theorem process (h : Holds reports w) (i : ι) (f : Frame) :
    Holds (reports ++ (w.process i f).2.report?.toList) (w.process i f).1 := by
  have hcalls : ((w.ranks i).process (some .inProcess) w.store f).1.calls.WellFormed :=
    Rank.wellFormed_process (h.calls i) (some .inProcess) w.store f
  rcases Rank.process_cases (w.ranks i) (some .inProcess) w.store f with
    ⟨q, r', s', report, hq_calls, hdetector, hq, hp⟩ | ⟨r', status, hp, hstatus, -, -⟩
  · have hready := Rank.Ready.of_ingested (h.calls i) hq_calls hdetector
    rw [hp] at hcalls
    simp only [Fleet.process, hp, FrameStatus.report?, Option.toList_some]
    exact h.report i hcalls (get?_store hready hq)
  · rw [hp] at hcalls
    simp only [Fleet.process, hp, FrameStatus.report?_eq_none hstatus, Option.toList_none,
      List.append_nil]
    exact ⟨h.wellFormed_update i hcalls, h.value, h.known⟩

theorem processAll (h : Holds reports w) (schedule : List (ι × Frame)) :
    Holds (reports ++ (w.processAll schedule).2) (w.processAll schedule).1 := by
  induction schedule generalizing w reports with
  | nil => simpa [Fleet.processAll] using h
  | cons e rest ih =>
    obtain ⟨i, f⟩ := e
    simpa [Fleet.processAll] using ih (h.process i f)

end Holds

/-- After any schedule the store holds of every function the statistics of each report with calls of
it, merged one after another, and the number of its calls labelled anomalous; the functions it knows
are those with a call in a report. -/
theorem store_processAll (number : ι → UInt64) (names : ι → FunctionTable) (config : ι → DetectorConfig)
    (schedule : List (ι × Frame)) (f : UInt64) :
    let run := (start number names config).processAll schedule
    run.1.store.value f = ((deltas run.2 f).foldl (· + ·) PowerSums.empty).setAbnormal
        (UInt64.ofNat ((callsOf run.2 f).countP CallRecord.isAnomalous)) ∧
      (f ∈ run.1.store.keys ↔ ∃ report ∈ run.2, ∃ c ∈ report.calls, c.function = f) := by
  intro run
  have h : Holds run.2 run.1 := by
    simpa using (Holds.start number names config).processAll schedule
  refine ⟨h.value f, ?_⟩
  have hcalls : callsOf run.2 f ≠ [] ↔ ∃ report ∈ run.2, ∃ c ∈ report.calls, c.function = f := by
    simp [callsOf, List.flatMap_eq_nil_iff]
  rw [← hcalls, Ne, ← h.known f, ← Ne, Option.ne_none_iff_exists', Keyed.mem_keys_iff]

end Fleet

end TraceAnomaly
