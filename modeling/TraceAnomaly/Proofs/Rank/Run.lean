import TraceAnomaly.Proofs.Rank.Career
import TraceAnomaly.Rank.Run

/-! Whole runs. A run reads frames until the source ends or cannot be read, a frame is aborted, or a report cannot
be written. Wherever that is, the sink has the reports of the frames that were read and completed, the rank has
counted them and its aggregator has them, and nothing behind has been read. -/

namespace TraceAnomaly

variable {σ ω : Type}

namespace Sink

/-- Writes reports one after another, whether or not they can be written. -/
def writeAll (sink : Sink ω) (reports : List FrameReport) (output : ω) : ω :=
  reports.foldl (fun output report => (sink.write report output).1) output

def Takes (sink : Sink ω) : List FrameReport → ω → Prop
  | [], _ => True
  | report :: rest, output => (sink.write report output).2 = .ok () ∧ Takes sink rest (sink.write report output).1

theorem takes_append {sink : Sink ω} {reports more : List FrameReport} {output : ω} :
    sink.Takes (reports ++ more) output ↔
      sink.Takes reports output ∧ sink.Takes more (sink.writeAll reports output) := by
  induction reports generalizing output with
  | nil => exact ⟨fun h => ⟨trivial, h⟩, And.right⟩
  | cons report rest ih => rw [List.cons_append, Takes, ih, Takes, and_assoc]; rfl

theorem writeAll_append (sink : Sink ω) (reports more : List FrameReport) (output : ω) :
    sink.writeAll (reports ++ more) output = sink.writeAll more (sink.writeAll reports output) :=
  List.foldl_append

end Sink

/-- Whether the rank can take another frame after this answer. -/
def FrameStatus.goesOn : FrameStatus → Bool
  | completed _ | empty _ => true
  | aborted .. | skipped _ => false

namespace Run

/-- Nothing in these answers ends a run: no frame is aborted, and all reports can be written. -/
structure GoesOn (sink : Sink ω) (output : ω) (answers : List FrameStatus) : Prop where
  going : ∀ answer ∈ answers, answer.goesOn
  written : sink.Takes (reportsOf answers) output

/-- How a run over `items` ends that has read these frames and given these answers: what is left of the items, and
what went wrong. -/
inductive Ends (sink : Sink ω) (output : ω) (items : List (Except ReadError Frame)) (frames : List Frame)
    (answers : List FrameStatus) : List (Except ReadError Frame) → Except RunError Unit → Prop
  /-- The source ends. -/
  | exhausted (hread : items = frames.map .ok) (h : GoesOn sink output answers) :
      Ends sink output items frames answers [] (.ok ())
  /-- What comes next cannot be read. -/
  | unreadable {e left} (hread : items = frames.map .ok ++ .error e :: left) (h : GoesOn sink output answers) :
      Ends sink output items frames answers left (.error (.reading e))
  /-- The last frame is aborted. -/
  | aborted {front step e left} (hread : items = frames.map .ok ++ left)
      (hanswers : answers = front ++ [.aborted step e]) (h : GoesOn sink output front) :
      Ends sink output items frames answers left (.ok ())
  /-- The last report cannot be written. -/
  | unwritten {front report part left} (hread : items = frames.map .ok ++ left)
      (hanswers : answers = front ++ [.completed report]) (h : GoesOn sink output front)
      (hwrite : (sink.write report (sink.writeAll (reportsOf front) output)).2 = .error part) :
      Ends sink output items frames answers left (.error (.writing report.step sink.name part))

variable {sink : Sink ω} {output : ω} {items left : List (Except ReadError Frame)} {frames : List Frame}
  {answer : FrameStatus} {answers : List FrameStatus} {verdict : Except RunError Unit}

theorem GoesOn.nil : GoesOn sink output [] := ⟨nofun, trivial⟩

theorem GoesOn.cons (hanswer : answer.goesOn) (hwrite : sink.Takes answer.report?.toList output)
    (h : GoesOn sink (sink.writeAll answer.report?.toList output) answers) :
    GoesOn sink output (answer :: answers) := by
  refine ⟨List.forall_mem_cons.2 ⟨hanswer, h.going⟩, ?_⟩
  rw [reportsOf_cons]
  exact Sink.takes_append.2 ⟨hwrite, h.written⟩

/-- A frame in front that does not end the run. -/
theorem Ends.cons {f : Frame} (hanswer : answer.goesOn) (hwrite : sink.Takes answer.report?.toList output)
    (h : Ends sink (sink.writeAll answer.report?.toList output) items frames answers left verdict) :
    Ends sink output (.ok f :: items) (f :: frames) (answer :: answers) left verdict := by
  cases h with
  | exhausted hread h => exact .exhausted (congrArg _ hread) (h.cons hanswer hwrite)
  | unreadable hread h => exact .unreadable (congrArg _ hread) (h.cons hanswer hwrite)
  | aborted hread hanswers h => exact .aborted (congrArg _ hread) (congrArg _ hanswers) (h.cons hanswer hwrite)
  | unwritten hread hanswers h hfails =>
    refine .unwritten (congrArg _ hread) (congrArg _ hanswers) (h.cons hanswer hwrite) ?_
    rwa [reportsOf_cons, Sink.writeAll_append]

theorem GoesOn.isTaken (h : GoesOn sink output answers) : ∀ answer ∈ answers, answer.isTaken := by
  intro answer hmem
  have hanswer := h.going answer hmem
  cases answer <;> first | rfl | cases hanswer

theorem GoesOn.abortedStep (h : GoesOn sink output answers) : answers.filterMap FrameStatus.abortedStep? = [] := by
  refine List.filterMap_eq_nil_iff.2 fun answer hmem => ?_
  have hanswer := h.going answer hmem
  cases answer <;> first | rfl | cases hanswer

/-- Nothing ends a run before its last answer, and the last one is that of a frame that was taken. -/
theorem Ends.exists_front (h : Ends sink output items frames answers left verdict) :
    ∃ front, GoesOn sink output front ∧
      (answers = front ∨ ∃ last : FrameStatus, answers = front ++ [last] ∧ last.isTaken) := by
  cases h with
  | exhausted _ h => exact ⟨_, h, .inl rfl⟩
  | unreadable _ h => exact ⟨_, h, .inl rfl⟩
  | aborted _ hanswers h => exact ⟨_, h, .inr ⟨_, hanswers, rfl⟩⟩
  | unwritten _ hanswers h => exact ⟨_, h, .inr ⟨_, hanswers, rfl⟩⟩

theorem Ends.isTaken (h : Ends sink output items frames answers left verdict) :
    ∀ answer ∈ answers, answer.isTaken := by
  obtain ⟨front, hfront, rfl | ⟨last, rfl, hlast⟩⟩ := h.exists_front
  · exact hfront.isTaken
  · exact List.forall_mem_append.2 ⟨hfront.isTaken, List.forall_mem_singleton.2 hlast⟩

/-- Only the last frame can have been aborted. -/
theorem Ends.abortedStep (h : Ends sink output items frames answers left verdict) :
    answers.filterMap FrameStatus.abortedStep? = (answers.getLast?.bind FrameStatus.abortedStep?).toList := by
  obtain ⟨front, hfront, rfl | ⟨last, rfl, -⟩⟩ := h.exists_front
  · have hlast : answers.getLast?.bind FrameStatus.abortedStep? = none :=
      Option.bind_eq_none_iff.2 fun answer hmem =>
        List.filterMap_eq_nil_iff.1 hfront.abortedStep answer (List.mem_of_getLast? hmem)
    rw [hfront.abortedStep, hlast]
    rfl
  · rw [List.filterMap_append, hfront.abortedStep, List.getLast?_concat]
    cases last <;> rfl

/-! ### Items -/

/-- One frame is taken, and its report written if there is one. Then the run goes on, or it ends. -/
theorem drain_step (a : Option (Aggregator σ)) (sink : Sink ω) {r : Rank} (hr : r.isHalted = false) (s : σ)
    (output : ω) (f : Frame) (rest : List (Except ReadError Frame)) :
    let p := r.process a s f
    let output' := sink.writeAll p.2.2.report?.toList output
    (p.1.isHalted = false ∧ p.2.2.goesOn ∧ sink.Takes p.2.2.report?.toList output ∧
        drain a sink r s output (.ok f :: rest) = drain a sink p.1 p.2.1 output' rest) ∨
      ∃ verdict, Ends sink output (.ok f :: rest) [f] [p.2.2] rest verdict ∧
        drain a sink r s output (.ok f :: rest) = (⟨p.1, p.2.1, output', rest⟩, verdict) := by
  rcases Rank.process_outcomes r a s f with
    ⟨hhalted, -⟩ | ⟨-, -, hp⟩ | ⟨-, -, e, -, hp⟩ | ⟨-, -, -, r', s', report, hq, hp⟩
  · rw [hr] at hhalted
    cases hhalted
  · left
    simp only [drain, hp]
    exact ⟨hr, rfl, trivial, rfl⟩
  · right
    simp only [drain, hp]
    exact ⟨_, .aborted rfl (List.nil_append _).symm .nil, rfl⟩
  · have hrunning : r'.isHalted = false := by
      cases hq
      exact hr
    simp only [hp]
    cases hwritten : (sink.write report output).2 with
    | ok u =>
      have hwrite : sink.write report output = (sink.writeAll [report] output, .ok u) := Prod.ext rfl hwritten
      left
      simp only [drain, hp, hwrite]
      exact ⟨hrunning, rfl, ⟨hwritten, trivial⟩, rfl⟩
    | error part =>
      have hwrite : sink.write report output = (sink.writeAll [report] output, .error part) :=
        Prod.ext rfl hwritten
      right
      simp only [drain, hp, hwrite]
      exact ⟨_, .unwritten rfl (List.nil_append _).symm .nil hwritten, rfl⟩

/-- A run of a rank that is not halted takes a front of the items. -/
theorem drain_ends (a : Option (Aggregator σ)) (sink : Sink ω) {r : Rank} (hr : r.isHalted = false) (s : σ)
    (output : ω) (items : List (Except ReadError Frame)) :
    let result := drain a sink r s output items
    ∃ frames,
      let p := r.answerAll a s frames
      result.1.rank = p.1 ∧ result.1.shared = p.2.1 ∧
        result.1.output = sink.writeAll (reportsOf p.2.2) output ∧
        Ends sink output items frames p.2.2 result.1.items result.2 := by
  induction items generalizing r s output with
  | nil => exact ⟨[], rfl, rfl, rfl, .exhausted rfl .nil⟩
  | cons item rest ih =>
    cases item with
    | error e => exact ⟨[], rfl, rfl, rfl, .unreadable rfl .nil⟩
    | ok f =>
      rcases drain_step a sink hr s output f rest with ⟨hrunning, hgoes, htakes, hdrain⟩ | ⟨verdict, hends, hdrain⟩
      · obtain ⟨frames, hrank, hshared, houtput, hends⟩ := ih hrunning (r.process a s f).2.1
          (sink.writeAll (r.process a s f).2.2.report?.toList output)
        rw [hdrain]
        refine ⟨f :: frames, hrank, hshared, ?_, hends.cons hgoes htakes⟩
        rw [Rank.answerAll, reportsOf_cons, Sink.writeAll_append]
        exact houtput
      · rw [hdrain]
        refine ⟨[f], rfl, rfl, ?_, hends⟩
        rw [Rank.answerAll, reportsOf_cons, Sink.writeAll_append]
        rfl

end Run

namespace Rank

/-- A run of a rank that is not halted, with any aggregator, source and sink. It takes the frames in front of the
first thing that ends it, as if they were given to the rank one by one, and nothing behind. Each report is
written once, in order, with the last one being the one that could not be written, if it ended so. If the run
ended because of the source or an aborted frame, it returns the summary; else it returns what went wrong. The
counts of the rank are those of all its answers, in this run and before. If the aggregator has a store behind it
that answers, all reports have been pushed to it, in order. -/
theorem run_delivers {a : Option (Aggregator σ)} {earlier : List FrameStatus} {r : Rank}
    (hr : r.Answered a earlier) (hrunning : r.isHalted = false) (s : σ) (source : Source) (sink : Sink ω)
    (output : ω) :
    let final := (r.run a s source sink output).1
    ∃ frames verdict,
      let p := (r.renamed source.functions).answerAll a s frames
      let answers := p.2.2
      (final.rank = p.1 ∧ final.shared = p.2.1 ∧ final.output = sink.writeAll (reportsOf answers) output ∧
        answers.length = frames.length) ∧
      Run.Ends sink output source.items frames answers final.items verdict ∧
      (r.run a s source sink output).2 = verdict.map (fun _ => final.rank.summary) ∧
      (final.rank.Answered a (earlier ++ answers) ∧
        final.rank.summary.anomalies = anomaliesOf (reportsOf (earlier ++ answers)) ∧
        final.rank.summary.frames = UInt64.ofNat (earlier.length + frames.length) ∧
        ∀ step, final.rank.summary.abortedAt = some step ↔ ∃ e, answers.getLast? = some (.aborted step e)) ∧
      ∀ (b : Aggregator σ) (view : σ → Store Float), a = some b → b.Serves view →
        view final.shared = (reportsOf answers).foldl Store.receive (view s) := by
  intro final
  obtain ⟨frames, hrank, hshared, houtput, hends⟩ :=
    Run.drain_ends a sink (r := r.renamed source.functions) hrunning s output source.items
  set p := (r.renamed source.functions).answerAll a s frames with hp
  have hanswered : p.1.Answered a (earlier ++ p.2.2) := (hr.renamed source.functions).answerAll s frames
  have hlength : p.2.2.length = frames.length := length_answerAll _ s frames
  have hbefore : ∀ answer ∈ earlier, answer.isTaken := hr.tally.running hrunning
  have hfinal : final.rank = p.1 := hrank
  refine ⟨frames, _, ⟨hrank, hshared, houtput, hlength⟩, hends, rfl, ⟨hfinal ▸ hanswered, ?_, ?_, fun step => ?_⟩,
    fun b view hb hserves => ?_⟩
  · rw [hfinal]
    exact hanswered.tally.anomalies
  · have htaken : ∀ answer ∈ earlier ++ p.2.2, answer.isTaken :=
      List.forall_mem_append.2 ⟨hbefore, hends.isTaken⟩
    rw [hfinal, summary, hanswered.tally.frames, List.countP_eq_length.2 htaken, List.length_append, hlength]
  · have hnone : earlier.filterMap FrameStatus.abortedStep? = [] := by
      have habortedAt : r.abortedAt = none := by simpa [isHalted] using hrunning
      rw [hr.tally.abortedAt, habortedAt]
      rfl
    have hlast : p.1.abortedAt = p.2.2.getLast?.bind FrameStatus.abortedStep? := by
      have hall := hanswered.tally.abortedAt
      rw [List.filterMap_append, hnone, List.nil_append, hends.abortedStep] at hall
      simpa using (congrArg List.head? hall).symm
    have hstep (answer : FrameStatus) : answer.abortedStep? = some step ↔ ∃ e, answer = .aborted step e := by
      cases answer <;> simp [FrameStatus.abortedStep?]
    rw [hfinal, summary, hlast, Option.bind_eq_some_iff]
    constructor
    · rintro ⟨answer, hanswer, haborted⟩
      obtain ⟨e, rfl⟩ := (hstep answer).1 haborted
      exact ⟨e, hanswer⟩
    · rintro ⟨e, hanswer⟩
      exact ⟨_, hanswer, rfl⟩
  · subst hb
    have hcalls : (r.renamed source.functions).calls.WellFormed := (hr.renamed source.functions).tally.calls
    exact (congrArg view hshared).trans (view_answerAll hserves hcalls s frames)

/-- Two calls with an empty frame between them, for a sink that has room for one report. The second report is
lost on its way out, but the store has the statistics of both, and the frame behind is not read. -/
theorem run_delivers_full_sink :
    let t : Thread := ⟨0, 0, 0⟩
    let frame (function step : UInt64) : Frame :=
      { step := step, calls := [⟨t, .entry, function, 0⟩, ⟨t, .exit, function, 10⟩] }
    let source : Source := { items := [.ok (frame 1 0), .ok { step := 1 }, .ok (frame 2 2), .ok (frame 3 3)] }
    let sink : Sink (List FrameReport) :=
      { name := "full"
        write := fun report reports =>
          if reports = [] then ([report], .ok ()) else (reports, .error .document) }
    let r := start 0 Keyed.empty {}
    let result := r.run (some .inProcess) Store.empty source sink []
    r.Answered (some .inProcess) [] ∧ r.isHalted = false ∧
      result.2 = .error (.writing 2 "full" .document) ∧ result.1.items = [.ok (frame 3 3)] ∧
      result.1.output.length = 1 ∧ result.1.shared.keys = [1, 2] ∧
      ∃ answers, result.1.output = sink.writeAll (reportsOf answers) [] ∧
        result.1.shared = (reportsOf answers).foldl Store.receive Store.empty ∧
        result.1.rank.summary.frames = UInt64.ofNat answers.length := by
  intro t frame source sink r result
  have hanswered : r.Answered (some .inProcess) [] := .start 0 Keyed.empty {}
  obtain ⟨frames, verdict, ⟨-, -, houtput, hlength⟩, -, -, ⟨-, -, hframes, -⟩, hstore⟩ :=
    run_delivers hanswered rfl Store.empty source sink []
  have hshared := hstore .inProcess id rfl Aggregator.inProcess_serves
  rw [List.length_nil, Nat.zero_add, ← hlength] at hframes
  rw [id_eq, id_eq] at hshared
  refine ⟨hanswered, rfl, by decide +kernel, by decide +kernel, by decide +kernel, by decide +kernel, ?_⟩
  simp only [result]
  exact ⟨_, houtput, hshared, hframes⟩

end Rank

end TraceAnomaly
