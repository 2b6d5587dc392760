import TraceAnomaly.Proofs.Rank.Totals

/-! A rank through any number of runs. It takes frames one at a time, is told other function names in between,
and finds the shared state as others have left it. What it has counted are its answers, and what it has pushed
to a store are its reports. -/

namespace TraceAnomaly

variable {σ : Type} {a : Option (Aggregator σ)}

def reportsOf (answers : List FrameStatus) : List FrameReport := answers.filterMap FrameStatus.report?

theorem reportsOf_append (answers more : List FrameStatus) :
    reportsOf (answers ++ more) = reportsOf answers ++ reportsOf more := List.filterMap_append

theorem reportsOf_cons (answer : FrameStatus) (answers : List FrameStatus) :
    reportsOf (answer :: answers) = answer.report?.toList ++ reportsOf answers := by
  rw [reportsOf, List.filterMap_cons]
  cases answer.report? <;> rfl

def anomaliesOf (reports : List FrameReport) : UInt64 := (reports.map FrameReport.anomalies).foldl (· + ·) 0

theorem anomaliesOf_append_toList (reports : List FrameReport) (report? : Option FrameReport) :
    anomaliesOf (reports ++ report?.toList) = anomaliesOf reports + anomaliesOf report?.toList := by
  cases report? with
  | none => simp [anomaliesOf]
  | some report => simp [anomaliesOf]

/-- A store takes in what a frame has pushed: the statistics of the report, then its anomalies. -/
def Store.receive (s : Store Float) (report : FrameReport) : Store Float :=
  (s.updateAll report.batch).addAbnormalAll report.abnormal

namespace Rank

def renamed (r : Rank) (functions : FunctionTable) : Rank :=
  { r with calls := r.calls.updateFunctions functions }

/-- A rank with its answers to all frames so far. -/
inductive Answered (a : Option (Aggregator σ)) : List FrameStatus → Rank → Prop
  | start (number : UInt64) (functions : FunctionTable) (config : DetectorConfig) :
      Answered a [] (.start number functions config)
  | renamed {answers : List FrameStatus} {r : Rank} (h : Answered a answers r) (functions : FunctionTable) :
      Answered a answers (r.renamed functions)
  | process {answers : List FrameStatus} {r : Rank} (h : Answered a answers r) (s : σ) (f : Frame) :
      Answered a (answers ++ [(r.process a s f).2.2]) (r.process a s f).1

structure Tally (answers : List FrameStatus) (r : Rank) : Prop where
  calls : r.calls.WellFormed
  frames : r.frames = UInt64.ofNat (answers.countP FrameStatus.isTaken)
  anomalies : r.anomalies = anomaliesOf (reportsOf answers)
  abortedAt : answers.filterMap FrameStatus.abortedStep? = r.abortedAt.toList
  /-- A rank that is not halted never was. -/
  running : r.isHalted = false → ∀ answer ∈ answers, answer.isTaken

theorem anomalies_process (r : Rank) (a : Option (Aggregator σ)) (s : σ) (f : Frame) :
    (r.process a s f).1.anomalies =
      r.anomalies + anomaliesOf (r.process a s f).2.2.report?.toList := by
  rcases process_outcomes r a s f with
    ⟨-, hp⟩ | ⟨-, -, hp⟩ | ⟨-, -, e, -, hp⟩ | ⟨-, -, -, r', s', report, hq, hp⟩
  · simp [hp, FrameStatus.report?, anomaliesOf]
  · simp [hp, FrameStatus.report?, anomaliesOf]
  · simp [hp, FrameStatus.report?, anomaliesOf, ingested]
  · have hadded : r'.anomalies = r.anomalies + report.anomalies := by
      cases hq
      rfl
    simp [hp, FrameStatus.report?, anomaliesOf, hadded]

/-- A rank that a frame has not halted was not halted before, and has taken the frame. -/
theorem running_process {r : Rank} {s : σ} {f : Frame} (h : (r.process a s f).1.isHalted = false) :
    r.isHalted = false ∧ (r.process a s f).2.2.isTaken := by
  rcases process_outcomes r a s f with
    ⟨hr, hp⟩ | ⟨hr, -, hp⟩ | ⟨-, -, e, -, hp⟩ | ⟨hr, -, -, r', s', report, -, hp⟩
  · rw [hp, hr] at h
    cases h
  · exact ⟨hr, by rw [hp]; rfl⟩
  · rw [hp] at h
    cases h
  · exact ⟨hr, by rw [hp]; rfl⟩

namespace Tally

variable {answers : List FrameStatus} {r : Rank}

theorem process (h : Tally answers r) (s : σ) (f : Frame) :
    Tally (answers ++ [(r.process a s f).2.2]) (r.process a s f).1 := by
  obtain ⟨hframes, -, -, habortedAt⟩ := r.summary_process h.calls a s f
  refine ⟨wellFormed_process h.calls a s f, hframes.trans ?_, (r.anomalies_process a s f).trans ?_, ?_,
    fun hr => ?_⟩
  · rw [summary, h.frames, List.countP_append, List.countP_singleton, UInt64.ofNat_add]
    split <;> rfl
  · have hlast : reportsOf [(r.process a s f).2.2] = (r.process a s f).2.2.report?.toList := by
      rw [reportsOf_cons]
      exact List.append_nil _
    rw [h.anomalies, reportsOf_append, hlast, anomaliesOf_append_toList]
  · refine .trans ?_ habortedAt.symm
    rw [List.filterMap_append, h.abortedAt, summary]
    cases hs : (r.process a s f).2.2.abortedStep? <;> simp [hs]
  · obtain ⟨hbefore, htaken⟩ := running_process hr
    exact List.forall_mem_append.2 ⟨h.running hbefore, List.forall_mem_singleton.2 htaken⟩

end Tally

theorem Answered.tally {answers : List FrameStatus} {r : Rank} (h : r.Answered a answers) : Tally answers r := by
  induction h with
  | start number functions config => exact ⟨.start functions, rfl, rfl, rfl, fun _ => nofun⟩
  | renamed _ functions ih =>
    exact ⟨CallStacks.wellFormed_kept.updateFunctions _ functions ih.calls, ih.frames, ih.anomalies, ih.abortedAt,
      ih.running⟩
  | process _ s f ih => exact ih.process s f

/-! ### Frames in a row -/

/-- Takes frames while nobody else changes the shared state. -/
def answerAll (a : Option (Aggregator σ)) (r : Rank) (s : σ) : List Frame → Rank × σ × List FrameStatus
  | [] => (r, s, [])
  | f :: rest =>
    let (r, s, answer) := r.process a s f
    let (r, s, answers) := answerAll a r s rest
    (r, s, answer :: answers)

theorem length_answerAll (r : Rank) (s : σ) (frames : List Frame) :
    (r.answerAll a s frames).2.2.length = frames.length := by
  induction frames generalizing r s with
  | nil => rfl
  | cons f rest ih => exact congrArg (· + 1) (ih _ _)

theorem Answered.answerAll {answers : List FrameStatus} {r : Rank} (h : r.Answered a answers) (s : σ)
    (frames : List Frame) :
    (r.answerAll a s frames).1.Answered a (answers ++ (r.answerAll a s frames).2.2) := by
  induction frames generalizing r s answers with
  | nil => rwa [Rank.answerAll, List.append_nil]
  | cons f rest ih =>
    have hnext := ih (h.process s f) (r.process a s f).2.1
    rwa [List.append_assoc] at hnext

section Serving

variable {b : Aggregator σ} {view : σ → Store Float} (hb : b.Serves view)
include hb

/-- What is pushed to a store that answers is the report, if there is one. -/
theorem view_process {r : Rank} (h : r.calls.WellFormed) (s : σ) (f : Frame) :
    view (r.process (some b) s f).2.1 =
      (r.process (some b) s f).2.2.report?.toList.foldl Store.receive (view s) := by
  rcases process_outcomes r (some b) s f with
    ⟨-, hp⟩ | ⟨-, -, hp⟩ | ⟨-, -, e, -, hp⟩ | ⟨-, -, -, r', s', report, hq, hp⟩
  · rw [hp]
    rfl
  · rw [hp]
    rfl
  · rw [hp]
    rfl
  · have hready : (r.ingested f).Ready := .of_ingested h rfl rfl
    rw [hp]
    exact hready.view_eq (l := .working b view hb) hq rfl

theorem view_answerAll {r : Rank} (h : r.calls.WellFormed) (s : σ) (frames : List Frame) :
    view (r.answerAll (some b) s frames).2.1 =
      (reportsOf (r.answerAll (some b) s frames).2.2).foldl Store.receive (view s) := by
  induction frames generalizing r s with
  | nil => rfl
  | cons f rest ih =>
    have hnext := ih (wellFormed_process h (some b) s f) (r.process (some b) s f).2.1
    rw [view_process hb h] at hnext
    rw [answerAll, reportsOf_cons, List.foldl_append]
    exact hnext

end Serving

end Rank

end TraceAnomaly
