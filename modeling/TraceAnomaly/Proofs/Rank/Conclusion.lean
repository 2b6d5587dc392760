import TraceAnomaly.Proofs.Rank.Push

/-! What a completed frame reports, records and sends, said from the report alone. The calls in the
report are those closed in the frame with their labels; the statistics of their runtimes are the
batch that is sent; the anomalies counted are the calls labelled anomalous. -/

namespace TraceAnomaly

variable {α σ : Type} [Scalar α]

/-! ### Runtimes -/

theorem runtimesOf_append (cs ds : List CallRecord) :
    runtimesOf (α := α) (cs ++ ds) = runtimesOf cs ++ runtimesOf ds :=
  List.filterMap_append

theorem runtimesOf_labelCalls (cs : List CallRecord) (ls : List Label) :
    runtimesOf (α := α) (CallStacks.labelCalls cs ls) = runtimesOf cs := by
  fun_induction CallStacks.labelCalls cs ls with
  | case1 c cs l ls ih =>
    simp only [runtimesOf, List.filterMap_cons] at ih ⊢
    rw [ih]
  | case2 cs ls _ => rfl

namespace FrameReport

def runtimes (report : FrameReport) (f : UInt64) : List α :=
  runtimesOf (report.calls.filter (·.function = f))

/-- Adds the runtime of a call to the statistics of its function. -/
def addCall (batch : Keyed UInt64 (PowerSums α)) (c : CallRecord) : Keyed UInt64 (PowerSums α) :=
  batch.alter c.function fun old => (old.getD .empty).pushAll (runtimesOf [c])

def batch (report : FrameReport) : Keyed UInt64 (PowerSums α) :=
  report.calls.foldl addCall Keyed.empty

def anomalous (report : FrameReport) (f : UInt64) : ℕ :=
  (report.calls.filter (·.function = f)).countP CallRecord.isAnomalous

theorem get?_foldl_addCall (calls : List CallRecord) (b : Keyed UInt64 (PowerSums α)) (f : UInt64) :
    (calls.foldl addCall b).get? f = if calls.filter (·.function = f) = [] then b.get? f
      else some (((b.get? f).getD .empty).pushAll (runtimesOf (calls.filter (·.function = f)))) := by
  induction calls generalizing b with
  | nil => simp
  | cons c rest ih =>
    rw [List.foldl_cons, ih, addCall, Keyed.get?_alter]
    by_cases hc : c.function = f
    · subst hc
      have hcons := runtimesOf_append (α := α) [c] (rest.filter (·.function = c.function))
      rw [List.singleton_append] at hcons
      rw [List.filter_cons_of_pos (by simp), if_pos rfl, if_neg (List.cons_ne_nil _ _), hcons,
        PowerSums.pushAll_append]
      split
      · rename_i hrest
        rw [hrest]
        rfl
      · rfl
    · rw [List.filter_cons_of_neg (by simpa using hc), if_neg (Ne.symm hc)]

theorem get?_batch (report : FrameReport) (f : UInt64) :
    report.batch.get? f = if report.calls.filter (·.function = f) = [] then none
      else some (PowerSums.ofSamples (α := α) (report.runtimes f)) :=
  get?_foldl_addCall report.calls Keyed.empty f

end FrameReport

/-! ### Labels -/

/-- A record labelled by its runtime. -/
theorem mem_labelCalls_judged {cs : List CallRecord} (hcs : ∀ c ∈ cs, ∃ x, c.runtime = some x)
    (judge : α → Label) {r : CallRecord}
    (hr : r ∈ CallStacks.labelCalls cs ((cs.filterMap CallRecord.sample?).map fun x => judge x.runtime)) :
    ∃ x, r.runtime = some x ∧ r.label = judge (Scalar.ofNat x.toNat) := by
  induction cs with
  | nil => simp [CallStacks.labelCalls] at hr
  | cons c rest ih =>
    obtain ⟨x, hx⟩ := hcs c (by simp)
    have hs : c.sample? = some (⟨Scalar.ofNat c.entry.toNat, Scalar.ofNat x.toNat⟩ : Sample α) := by
      rw [CallRecord.sample?, hx]
      rfl
    rw [List.filterMap_cons_some hs] at hr
    rcases List.mem_cons.1 hr with rfl | hr
    · exact ⟨x, hx, rfl⟩
    · exact ih (fun c hc => hcs c (by simp [hc])) hr

theorem countP_labelCalls {cs : List CallRecord} {ls : List Label} (h : ls.length = cs.length) :
    (CallStacks.labelCalls cs ls).countP CallRecord.isAnomalous = Label.anomalies ls := by
  induction cs generalizing ls with
  | nil =>
    rw [List.length_eq_zero_iff.1 h]
    rfl
  | cons c rest ih =>
    cases ls with
    | nil => simp at h
    | cons l ls =>
      have hrest : (CallStacks.labelCalls rest ls).countP CallRecord.isAnomalous = Label.anomalies ls :=
        ih (by simpa using h)
      cases l <;> simp_all [CallStacks.labelCalls, Label.anomalies, CallRecord.isAnomalous]

namespace Rank

/-- The frame has been applied to the call stacks, and a new frame begun for the detector. -/
structure Ready (r : Rank α) : Prop where
  calls : r.calls.WellFormed
  unsent : r.detector.unsent = Keyed.empty
  merged : r.detector.merged = Keyed.empty
  abnormal : r.detector.abnormal = Keyed.empty
  pushFailed : r.detector.pushFailed = false

namespace Ready

variable {r : Rank α} (h : r.Ready)
include h

omit [Scalar α] in
theorem runtime_of_mem {f : UInt64} {c : CallRecord} (hc : c ∈ r.calls.closedCalls f) :
    ∃ x, c.runtime = some x := by
  obtain ⟨-, x, -, -, hx⟩ := h.calls.finished f c hc
  exact ⟨_, hx⟩

theorem length_samples (f : UInt64) :
    (share r.calls r.detector f).samples.length = (r.calls.closedCalls f).length := by
  refine List.filterMap_length_eq_length.2 fun c hc => ?_
  obtain ⟨x, hx⟩ := h.runtime_of_mem hc
  simp [CallRecord.sample?, hx]

theorem isEmpty_samples (f : UInt64) :
    (share r.calls r.detector f).samples.isEmpty ↔ r.calls.closedCalls f = [] := by
  rw [List.isEmpty_iff, ← List.length_eq_zero_iff, h.length_samples, List.length_eq_zero_iff]

/-- The share of a function when all runtimes have been added. -/
theorem share_gather (f : UInt64) :
    share r.calls (gather r.calls r.detector) f =
      if r.calls.closedCalls f = [] then share r.calls r.detector f
      else
        { share r.calls r.detector f with
          own := some (((r.detector.own.get? f).getD .empty).pushAll (runtimesOf (r.calls.closedCalls f)))
          unsent := some (.ofSamples (runtimesOf (r.calls.closedCalls f))) } := by
  rw [h.calls.share_gather, Share.gathered]
  by_cases hf : r.calls.closedCalls f = []
  · rw [if_pos ((h.isEmpty_samples f).2 hf), if_pos hf]
  · rw [if_neg (fun hs => hf ((h.isEmpty_samples f).1 hs)), if_neg hf, Share.runtime_samples]
    simp [share, h.unsent, PowerSums.ofSamples]

theorem get?_unsent (f : UInt64) :
    (gather r.calls r.detector).unsent.get? f = if r.calls.closedCalls f = [] then none
      else some (.ofSamples (runtimesOf (r.calls.closedCalls f))) := by
  have hf := congrArg Share.unsent (h.share_gather f)
  split at hf <;> simp_all [share, h.unsent]

theorem config_gather : (gather r.calls r.detector).config = r.detector.config := by
  have h0 := congrArg Share.config (h.share_gather 0)
  split at h0 <;> exact h0

end Ready

variable {r r' : Rank α} {a : Option (Aggregator σ α)} {s s' : σ} {frame : Frame} {report : FrameReport}

/-- What a function is judged by and what is known of it when the labelling comes to it. -/
def judged (r : Rank α) (a : Option (Aggregator σ α)) (s : σ) (f : UInt64) : Share α :=
  share r.calls ((gather r.calls r.detector).push a s).1 f

theorem share_judged (r : Rank α) (a : Option (Aggregator σ α)) (s : σ) (f : UInt64) :
    ∃ unsent merged failed, r.judged a s f =
      { share r.calls (gather r.calls r.detector) f with
        unsent := unsent, merged := merged, pushFailed := failed } :=
  Detector.share_push _ s a r.calls f

namespace Ready

variable (h : r.Ready)
include h

theorem config_judged (a : Option (Aggregator σ α)) (s : σ) (f : UInt64) :
    (r.judged a s f).config = r.detector.config := by
  obtain ⟨_, _, _, hj⟩ := r.share_judged a s f
  rw [hj]
  exact h.config_gather

theorem length_labels (a : Option (Aggregator σ α)) (s : σ) (f : UInt64) :
    (r.judged a s f).labels.length = (r.calls.closedCalls f).length := by
  rw [Share.length_labels]
  exact h.length_samples f

/-! ### The report -/

variable (hr : r.conclude a s frame = (r', s', report))
include hr

/-- At its end a frame shows, of every function, the labelled share. -/
theorem share_concluded (f : UInt64) :
    report.calls.filter (·.function = f) = (r.judged a s f).labelled.calls ∧
      report.abnormal.get? f = (r.judged a s f).labelled.abnormal ∧
      r'.detector.own.get? f = (r.judged a s f).labelled.own ∧
      r'.detector.config = (r.judged a s f).labelled.config := by
  have hshare := h.calls.share_labelFrame ((gather r.calls r.detector).push a s).1 f
  have hwf := h.calls.labelFrame ((gather r.calls r.detector).push a s).1
  cases hr
  refine ⟨(hwf.filter_frameCalls f).trans (congrArg Share.calls hshare), congrArg Share.abnormal hshare,
    congrArg Share.own hshare, congrArg Share.config hshare⟩

theorem filter_calls (f : UInt64) : report.calls.filter (·.function = f) =
    CallStacks.labelCalls (r.calls.closedCalls f) (r.judged a s f).labels :=
  (h.share_concluded hr f).1

theorem filter_calls_eq_nil_iff (f : UInt64) :
    report.calls.filter (·.function = f) = [] ↔ r.calls.closedCalls f = [] := by
  rw [h.filter_calls hr, ← List.length_eq_zero_iff, CallStacks.length_labelCalls,
    List.length_eq_zero_iff]

theorem runtimes_eq (f : UInt64) : (report.runtimes f : List α) = runtimesOf (r.calls.closedCalls f) := by
  rw [FrameReport.runtimes, h.filter_calls hr, runtimesOf_labelCalls]

/-- What is sent are the statistics of the report. -/
theorem batch_eq : report.batch = (gather r.calls r.detector).unsent := by
  refine Keyed.ext_get? fun f => ?_
  rw [FrameReport.get?_batch, h.get?_unsent, h.runtimes_eq hr]
  simp only [h.filter_calls_eq_nil_iff hr]

theorem anomalous_eq (f : UInt64) : report.anomalous f = Label.anomalies (r.judged a s f).labels := by
  rw [FrameReport.anomalous, h.filter_calls hr, countP_labelCalls (h.length_labels a s f)]

/-- The anomalies counted are the calls labelled anomalous. -/
theorem get?_abnormal (f : UInt64) : report.abnormal.get? f =
    if report.anomalous f = 0 then none else some (UInt64.ofNat (report.anomalous f)) := by
  obtain ⟨_, _, _, hj⟩ := r.share_judged a s f
  have hnone : (r.judged a s f).abnormal = none := by
    have hg := congrArg Share.abnormal (h.share_gather f)
    rw [hj]
    split at hg <;> simp_all [share, h.abnormal]
  rw [(h.share_concluded hr f).2.1, Share.labelled, ← h.anomalous_eq hr, hnone]
  simp

theorem config_eq : r'.detector.config = r.detector.config := by
  rw [(h.share_concluded hr 0).2.2.2]
  exact h.config_judged a s 0

/-- The rank's own statistics grow by the runtimes of the report. -/
theorem own_eq (f : UInt64) :
    ((r'.detector.own.get? f).getD .empty).setAbnormal 0 =
      (((r.detector.own.get? f).getD .empty).setAbnormal 0).pushAll (report.runtimes f) := by
  obtain ⟨_, _, _, hj⟩ := r.share_judged a s f
  rw [(h.share_concluded hr f).2.2.1, Share.own_labelled, hj, h.share_gather, h.runtimes_eq hr]
  split
  · rename_i hf
    rw [hf]
    rfl
  · rw [PowerSums.pushAll_setAbnormal]
    rfl

theorem wellFormed : r'.calls.WellFormed := by
  have hwf := h.calls.labelFrame ((gather r.calls r.detector).push a s).1
  cases hr
  exact hwf.releaseFrame

theorem unsent_isEmpty_iff : (gather r.calls r.detector).unsent.isEmpty ↔ report.calls = [] := by
  rw [Keyed.isEmpty_iff, ← h.batch_eq hr]
  constructor
  · intro hb
    refine List.eq_nil_iff_forall_not_mem.2 fun c hc => ?_
    have hget := report.get?_batch (α := α) c.function
    rw [hb, if_neg (List.ne_nil_of_mem (List.mem_filter.2 ⟨hc, by simp⟩))] at hget
    simp at hget
  · intro hc
    rw [FrameReport.batch, hc]
    rfl

end Ready

/-! ### Links -/

namespace Ready

variable {l : Link σ α} (h : r.Ready)
include h

/-- What the calls of a function are judged by. -/
theorem stats?_judged (l : Link σ α) (s : σ) {f : UInt64} (hf : r.calls.closedCalls f ≠ []) :
    (r.judged l.aggregator? s f).stats? =
      l.statistics r.detector.config s (gather r.calls r.detector).unsent f
        (some (((r.detector.own.get? f).getD .empty).pushAll (runtimesOf (r.calls.closedCalls f)))) := by
  have hshare := h.share_gather f
  rw [if_neg hf] at hshare
  have hown : (gather r.calls r.detector).own.get? f = _ := congrArg Share.own hshare
  have hunsent : (gather r.calls r.detector).unsent.get? f = _ := congrArg Share.unsent hshare
  have hmerged : (gather r.calls r.detector).merged.get? f = none :=
    (congrArg Share.merged hshare).trans (by simp [share, h.merged])
  have hfailed : (gather r.calls r.detector).pushFailed = false :=
    (congrArg Share.pushFailed hshare).trans h.pushFailed
  rw [judged, Detector.stats?_push _ s l r.calls hunsent hmerged hfailed, hown, h.config_gather]

variable (hr : r.conclude l.aggregator? s frame = (r', s', report))
include hr

theorem usedMerged_iff :
    report.usedMerged ↔ l.Works ∧ r.detector.config.pullGlobal ∧ report.calls ≠ [] := by
  have hused : report.usedMerged = ((gather r.calls r.detector).push l.aggregator? s).2.2 := by
    cases hr
    rfl
  rw [hused, ← h.config_gather, Detector.used_push, h.unsent_isEmpty_iff hr]

omit h hr in
/-- Under the threshold a call is anomalous just if its runtime exceeds the statistics that its
function is judged by, if there are any. -/
theorem label_iff {r r' : Rank} {l : Link σ} (h : r.Ready)
    (hr : r.conclude l.aggregator? s frame = (r', s', report))
    (hc : r.detector.config.algorithm = .streaming) {c : CallRecord} (hmem : c ∈ report.calls) :
    ∃ x, c.runtime = some x ∧ (c.label = .anomalous ↔
      ∃ S, l.statistics r.detector.config s report.batch c.function
          (some (((r.detector.own.get? c.function).getD .empty).pushAll (report.runtimes c.function))) =
            some S ∧
        SigmaThreshold.Exceeded ⟨r.detector.config.sigma, r.detector.config.minSamples⟩ S
          (Binary64.ofNat x.toNat)) := by
  have hfilter : c ∈ report.calls.filter (·.function = c.function) := by simp [hmem]
  have hclosed : r.calls.closedCalls c.function ≠ [] := fun hnil =>
    List.ne_nil_of_mem hfilter ((h.filter_calls_eq_nil_iff hr _).2 hnil)
  have hlabels : (r.judged l.aggregator? s c.function).labels =
      ((r.calls.closedCalls c.function).filterMap CallRecord.sample?).map fun x =>
        SigmaThreshold.judge ⟨r.detector.config.sigma, r.detector.config.minSamples⟩
          (r.judged l.aggregator? s c.function).stats? x.runtime := by
    rw [Share.labels, h.config_judged, Classifier.ofConfig, hc]
    exact Classifier.classify_threshold _ _ _
  rw [h.filter_calls hr, hlabels] at hfilter
  obtain ⟨x, hx, hlabel⟩ := mem_labelCalls_judged (fun c hc => h.runtime_of_mem hc) _ hfilter
  refine ⟨x, hx, ?_⟩
  rw [hlabel, SigmaThreshold.judge_eq_anomalous_iff, h.stats?_judged l s hclosed, h.batch_eq hr,
    h.runtimes_eq hr]
  rfl

/-- The store receives the statistics of the report, then its anomalies. -/
theorem view_eq {a : Aggregator σ α} {view : σ → Store α} {hs : a.Serves view}
    (hl : l = .working a view hs) :
    view s' = ((view s).updateAll report.batch).addAbnormalAll report.abnormal := by
  rw [h.batch_eq hr, ← Detector.view_push _ _ hs]
  subst hl
  cases hr
  exact Detector.view_pushAbnormal _ _ hs

end Ready

end Rank

/-! ### Processing -/

namespace FrameStatus

def report? : FrameStatus → Option FrameReport
  | completed report => some report
  | _ => none

def isCompleted (status : FrameStatus) : Bool := status.report?.isSome

@[simp] theorem isCompleted_completed (report : FrameReport) : (completed report).isCompleted := rfl

@[simp] theorem isCompleted_empty (step : UInt64) : (empty step).isCompleted = false := rfl

@[simp] theorem isCompleted_aborted (step : UInt64) (e : IngestError) :
    (aborted step e).isCompleted = false := rfl

@[simp] theorem isCompleted_skipped (step : UInt64) : (skipped step).isCompleted = false := rfl

theorem report?_eq_none {status : FrameStatus}
    (h : ∀ report, status ≠ .completed report) : status.report? = none := by
  cases status with
  | completed report => exact absurd rfl (h report)
  | empty | aborted | skipped => rfl

theorem report?_eq_some {status : FrameStatus} {report : FrameReport}
    (h : status.report? = some report) : status = .completed report := by
  cases status with
  | completed report' => exact congrArg _ (Option.some.inj h)
  | empty | aborted | skipped => exact absurd h nofun

end FrameStatus

namespace Rank

/-- The rank with a frame applied to its call stacks and begun for its detector. -/
def ingested (r : Rank α) (f : Frame) : Rank α :=
  { r with
    frames := r.frames + 1
    calls := (r.calls.beginFrame.ingest r.counts f).1
    counts := (r.calls.beginFrame.ingest r.counts f).2.1
    detector := r.detector.beginFrame }

/-- The four things that can become of a frame. -/
theorem process_outcomes (r : Rank α) (a : Option (Aggregator σ α)) (s : σ) (f : Frame) :
    r.isHalted ∧ r.process a s f = (r, s, .skipped f.step) ∨
    r.isHalted = false ∧ f.isEmpty ∧
      r.process a s f = ({ r with frames := r.frames + 1 }, s, .empty f.step) ∨
    r.isHalted = false ∧ f.isEmpty = false ∧
      (∃ e, (r.calls.beginFrame.ingest r.counts f).2.2 = .error e ∧
        r.process a s f = ({ r.ingested f with
          calls := (r.ingested f).calls.releaseFrame, abortedAt := some f.step }, s, .aborted f.step e)) ∨
    r.isHalted = false ∧ f.isEmpty = false ∧
      (r.calls.beginFrame.ingest r.counts f).2.2 = .ok () ∧
      ∃ r' s' report, (r.ingested f).conclude a s f = (r', s', report) ∧
        r.process a s f = (r', s', .completed report) := by
  cases hr : r.isHalted with
  | true => exact .inl ⟨rfl, by simp [process, hr]⟩
  | false =>
    cases hf : f.isEmpty with
    | true => exact .inr (.inl ⟨rfl, rfl, by simp [process, hr, hf]⟩)
    | false =>
      cases ho : (r.calls.beginFrame.ingest r.counts f).2.2 with
      | error e => exact .inr (.inr (.inl ⟨rfl, rfl, e, rfl, by simp [process, hr, hf, ho, ingested]⟩))
      | ok u =>
        rcases hq : (r.ingested f).conclude a s f with ⟨r', s', report⟩
        refine .inr (.inr (.inr ⟨rfl, rfl, rfl, r', s', report, rfl, ?_⟩))
        rw [ingested] at hq
        simp [process, hr, hf, ho, hq]

/-- A frame is applied to the call stacks and concluded, or there is no report and the shared state
stays as it is. -/
theorem process_cases (r : Rank α) (a : Option (Aggregator σ α)) (s : σ) (f : Frame) :
    (∃ (q r' : Rank α) (s' : σ) (report : FrameReport), q.calls = (r.calls.beginFrame.ingest r.counts f).1 ∧
      q.detector = r.detector.beginFrame ∧ q.conclude a s f = (r', s', report) ∧
      r.process a s f = (r', s', .completed report)) ∨
    ∃ (r' : Rank α) (status : FrameStatus), r.process a s f = (r', s, status) ∧ (∀ report, status ≠ .completed report) ∧
      (r'.calls = r.calls ∨ r'.calls = (r.calls.beginFrame.ingest r.counts f).1.releaseFrame) ∧
      (r'.detector = r.detector ∨ r'.detector = r.detector.beginFrame) := by
  rcases process_outcomes r a s f with
    ⟨-, h⟩ | ⟨-, -, h⟩ | ⟨-, -, e, -, h⟩ | ⟨-, -, -, r', s', report, hq, h⟩
  · exact .inr ⟨_, _, h, nofun, .inl rfl, .inl rfl⟩
  · exact .inr ⟨_, _, h, nofun, .inl rfl, .inl rfl⟩
  · exact .inr ⟨_, _, h, nofun, .inr rfl, .inr rfl⟩
  · exact .inl ⟨r.ingested f, r', s', report, rfl, rfl, hq, h⟩

omit [Scalar α] in
theorem Ready.of_ingested {q r : Rank α} {n : EventCounts} {f : Frame} (h : r.calls.WellFormed)
    (hc : q.calls = (r.calls.beginFrame.ingest n f).1) (hd : q.detector = r.detector.beginFrame) :
    q.Ready where
  calls := hc ▸ CallStacks.wellFormed_kept.ingest n f h.releaseFrame
  unsent := by rw [hd]; rfl
  merged := by rw [hd]; rfl
  abnormal := by rw [hd]; rfl
  pushFailed := by rw [hd]; rfl

theorem wellFormed_process {r : Rank α} (h : r.calls.WellFormed) (a : Option (Aggregator σ α)) (s : σ)
    (f : Frame) : (r.process a s f).1.calls.WellFormed := by
  rcases process_cases r a s f with
    ⟨q, r', s', report, hcalls, hdetector, hq, hp⟩ | ⟨r', status, hp, -, hcalls | hcalls, -⟩
  · rw [hp]
    exact (Ready.of_ingested h hcalls hdetector).wellFormed hq
  · rw [hp, hcalls]
    exact h
  · rw [hp, hcalls]
    exact (CallStacks.wellFormed_kept.ingest _ f h.releaseFrame).releaseFrame

end Rank

end TraceAnomaly
