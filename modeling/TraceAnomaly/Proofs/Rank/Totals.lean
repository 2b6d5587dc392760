import Mathlib.Algebra.GroupWithZero.Nat
import TraceAnomaly.Proofs.CallStack.Conservation
import TraceAnomaly.Proofs.Rank.Consistency

/-! The course of a rank over any list of frames: what it has answered and what has happened to its
calls. The totals of the rank are those of its answers, every report agrees with its frame, and the
calls in it were opened and closed in the course of the rank. -/

namespace TraceAnomaly

variable {α σ : Type} [Scalar α]

namespace FrameStatus

/-- Whether the rank was still at work. -/
def isTaken : FrameStatus → Bool
  | skipped _ => false
  | _ => true

def abortedStep? : FrameStatus → Option UInt64
  | aborted step _ => some step
  | _ => none

end FrameStatus

namespace Rank

variable {r : Rank α} (h : r.calls.WellFormed) (a : Option (Aggregator σ α)) (s : σ) (f : Frame)
include h

/-- What a frame adds to the totals. -/
theorem summary_process :
    (r.process a s f).1.summary.frames =
        r.summary.frames + (if (r.process a s f).2.2.isTaken then 1 else 0) ∧
      (r.process a s f).1.summary.events =
        r.summary.events + (if (r.process a s f).2.2.isCompleted then UInt64.ofNat f.size else 0) ∧
      (r.process a s f).1.summary.anomalies = r.summary.anomalies +
        UInt64.ofNat ((r.process a s f).2.2.report?.toList.map
          fun report => report.calls.countP CallRecord.isAnomalous).sum ∧
      (r.process a s f).1.summary.abortedAt.toList =
        r.summary.abortedAt.toList ++ (r.process a s f).2.2.abortedStep?.toList := by
  rcases process_outcomes r a s f with
    ⟨-, hp⟩ | ⟨-, -, hp⟩ | ⟨hr, -, e, -, hp⟩ | ⟨-, -, -, r', s', report, hq, hp⟩
  · simp [hp, FrameStatus.isTaken, FrameStatus.abortedStep?, FrameStatus.report?]
  · simp [hp, summary, FrameStatus.isTaken, FrameStatus.abortedStep?, FrameStatus.report?]
  · have hnone : r.abortedAt = none := by simpa [isHalted] using hr
    simp [hp, hnone, summary, ingested, FrameStatus.isTaken, FrameStatus.abortedStep?,
      FrameStatus.report?]
  · have hready : (r.ingested f).Ready := .of_ingested h rfl rfl
    have hanomalies := hready.anomalies_eq hq
    have hnext : r'.frames = r.frames + 1 ∧ r'.events = r.events + UInt64.ofNat f.size ∧
        r'.anomalies = r.anomalies + report.anomalies ∧ r'.abortedAt = r.abortedAt := by
      cases hq
      exact ⟨rfl, rfl, rfl, rfl⟩
    simp [hp, hnext, hanomalies, summary, FrameStatus.isTaken, FrameStatus.abortedStep?,
      FrameStatus.report?]

theorem config_process : (r.process a s f).1.detector.config = r.detector.config := by
  rcases process_outcomes r a s f with
    ⟨-, hp⟩ | ⟨-, -, hp⟩ | ⟨-, -, e, -, hp⟩ | ⟨-, -, -, r', s', report, hq, hp⟩
  · rw [hp]
  · rw [hp]
  · rw [hp]
    rfl
  · have hready : (r.ingested f).Ready := .of_ingested h rfl rfl
    rw [hp]
    exact hready.config_eq hq

omit h

def happenings (r : Rank α) (a : Option (Aggregator σ α)) (s : σ) (f : Frame) : History :=
  match (r.process a s f).2.2 with
  | .completed report => r.calls.history [.beginFrame, .ingest r.counts f] ++ [.released report.calls]
  | .aborted _ _ => r.calls.history [.beginFrame, .ingest r.counts f, .releaseFrame]
  | .empty _ | .skipped _ => []

/-- What remains true of the calls and of what has happened to them is true after a frame. -/
theorem traced_process {P : History → CallStacks → Prop} (hP : CallStacks.Traced P) {H : History}
    (h : P H r.calls) : P (H ++ r.happenings a s f) (r.process a s f).1.calls := by
  rcases process_outcomes r a s f with
    ⟨-, hp⟩ | ⟨-, -, hp⟩ | ⟨-, -, e, -, hp⟩ | ⟨-, -, -, r', s', report, hq, hp⟩
  · simpa [happenings, hp] using h
  · simpa [happenings, hp] using h
  · simp only [happenings, hp]
    exact hP.performAll [.beginFrame, .ingest r.counts f, .releaseFrame] h
  · have hingested : P (H ++ r.calls.history [.beginFrame, .ingest r.counts f]) (r.ingested f).calls :=
      hP.performAll [.beginFrame, .ingest r.counts f] h
    have hlabelled := labelFrame_kept (fun c f ls h => hP.setLabels _ c f ls h)
      ((gather (r.ingested f).calls (r.ingested f).detector).push a s).1 hingested
    simp only [happenings, hp, ← List.append_assoc]
    cases hq
    exact hP.releaseFrame _ _ hlabelled

end Rank

/-- A rank with its answers to the frames so far and with what has happened to its calls. -/
structure Course (α : Type := Float) where
  rank : Rank α
  answers : List (Frame × FrameStatus) := []
  happened : History := []

namespace Course

def start (number : UInt64) (names : FunctionTable) (c : DetectorConfig) (α : Type := Float) : Course α where
  rank := .start number names c α

/-- The rank takes a frame, with the shared state as it finds it. -/
def take (a : Option (Aggregator σ α)) (p : Course α) (s : σ) (f : Frame) : Course α where
  rank := (p.rank.process a s f).1
  answers := p.answers ++ [(f, (p.rank.process a s f).2.2)]
  happened := p.happened ++ p.rank.happenings a s f

def takeAll (a : Option (Aggregator σ α)) (p : Course α) (frames : List (σ × Frame)) : Course α :=
  frames.foldl (fun p e => p.take a e.1 e.2) p

def reports (p : Course α) : List FrameReport := p.answers.filterMap (·.2.report?)

/-- The totals of a rank are those of its answers and of its calls, as 64-bit words. -/
structure Totals (p : Course α) : Prop where
  frames : p.rank.summary.frames = UInt64.ofNat (p.answers.countP (·.2.isTaken))
  events : p.rank.summary.events =
    UInt64.ofNat ((p.answers.filter (·.2.isCompleted)).map (·.1.size)).sum
  anomalies : p.rank.summary.anomalies =
    UInt64.ofNat (p.reports.map fun report => report.calls.countP CallRecord.isAnomalous).sum
  abortedAt : p.answers.filterMap (·.2.abortedStep?) = p.rank.summary.abortedAt.toList
  /-- The entries less the exits that found an open call. -/
  openCalls : p.rank.summary.openCalls + (p.happened.closedCalls.length + p.happened.discardedIds.length) =
    p.happened.openedIds.length

structure Sound (names : FunctionTable) (c : DetectorConfig) (p : Course α) : Prop where
  calls : p.rank.calls.WellFormed
  ledger : CallStacks.Ledger names p.happened p.rank.calls
  config : p.rank.detector.config = c
  totals : p.Totals

namespace Sound

variable {names : FunctionTable} {c : DetectorConfig} {p : Course α}

omit [Scalar α] in
theorem start (number : UInt64) (names : FunctionTable) (c : DetectorConfig) :
    Sound names c (.start number names c α) where
  calls := .start names
  ledger := .initial names
  config := rfl
  totals := ⟨rfl, rfl, rfl, rfl, rfl⟩

theorem take (h : Sound names c p) (a : Option (Aggregator σ α)) (s : σ) (f : Frame) :
    Sound names c (p.take a s f) := by
  have hledger := p.rank.traced_process a s f (CallStacks.Ledger.traced names) h.ledger
  obtain ⟨hframes, hevents, hanomalies, habortedAt⟩ := p.rank.summary_process h.calls a s f
  have ht := h.totals
  refine ⟨Rank.wellFormed_process h.calls a s f, hledger,
    (p.rank.config_process h.calls a s f).trans h.config, ⟨?_, ?_, ?_, ?_, hledger.size_eq⟩⟩
  · refine hframes.trans ?_
    simp only [Course.take, List.countP_append, List.countP_singleton, UInt64.ofNat_add, ht.frames]
    split <;> rfl
  · refine hevents.trans ?_
    simp only [Course.take, List.filter_append, List.map_append, List.sum_append, UInt64.ofNat_add, ht.events]
    cases hc : (p.rank.process a s f).2.2.isCompleted <;> simp [hc]
  · refine hanomalies.trans ?_
    simp only [Course.take, reports, List.filterMap_append, List.map_append, List.sum_append,
      UInt64.ofNat_add, ht.anomalies]
    cases hr : (p.rank.process a s f).2.2.report? <;> simp [hr]
  · refine .trans ?_ habortedAt.symm
    simp only [Course.take, List.filterMap_append, ht.abortedAt]
    cases hs : (p.rank.process a s f).2.2.abortedStep? <;> simp [hs]

theorem takeAll (h : Sound names c p) (a : Option (Aggregator σ α)) (frames : List (σ × Frame)) :
    Sound names c (p.takeAll a frames) := by
  induction frames generalizing p with
  | nil => exact h
  | cons e rest ih => exact ih (h.take a e.1 e.2)

end Sound

/-- After any frames, whatever the aggregator answers and whatever others have done to the shared
state, the totals of a rank are those of its answers; and if the next frame is completed, then its
report lists the calls closed in the frame, with numbers that agree with their labels, and each of
these calls was opened and closed as it says in the course of the rank. A frame has fewer calls than
there are numbers to count them. -/
theorem takeAll_consistent (a : Option (Aggregator σ)) (number : UInt64) (names : FunctionTable)
    (c : DetectorConfig) (frames : List (σ × Frame)) :
    let p := (Course.start number names c).takeAll a frames
    p.Totals ∧ ∀ s f report, f.calls.length < UInt64.size →
      (p.rank.process a s f).2.2 = .completed report →
      report.Consistent (p.rank.calls.beginFrame.happensAll f.ordered).closedCalls
        (p.take a s f).rank.calls.maxDepth c.interestDepth ∧
      ∀ call ∈ report.calls, (p.take a s f).happened.Lived names call := by
  intro p
  have h : Sound names c p := (Sound.start number names c).takeAll a frames
  refine ⟨h.totals, fun s f report hsize hf => ?_⟩
  have hledger := (h.take a s f).ledger
  rcases Rank.process_outcomes p.rank a s f with
    ⟨-, hp⟩ | ⟨-, -, hp⟩ | ⟨-, -, e, -, hp⟩ | ⟨-, -, -, r', s', report', hq, hp⟩
  · simp [hp] at hf
  · simp [hp] at hf
  · simp [hp] at hf
  · obtain rfl : report' = report := by simpa [hp] using hf
    have hready : (p.rank.ingested f).Ready := .of_ingested h.calls rfl rfl
    have hclosed : ∀ g, (p.rank.ingested f).calls.closedCalls g =
        (p.rank.calls.beginFrame.happensAll f.ordered).closedCalls.filter (·.function = g) := fun g =>
      (CallStacks.closedCalls_applyAll p.rank.calls.beginFrame p.rank.counts 0 f.ordered g).trans
        (List.nil_append _)
    have hfew := CallStacks.length_closedCalls_happensAll p.rank.calls.beginFrame f.ordered
    rw [Frame.calls_ordered] at hfew
    have hconsistent := hready.consistent hq hclosed (by omega)
    have hrank : (p.take a s f).rank = r' := by simp [take, hp]
    have hconfig : (p.rank.ingested f).detector.config = c := h.config
    have hhappened : (p.take a s f).happened = p.happened ++
        (p.rank.calls.history [.beginFrame, .ingest p.rank.counts f] ++ [.released report'.calls]) := by
      simp [take, Rank.happenings, hp]
    refine ⟨by rwa [hrank, ← hconfig], fun call hcall => hledger.lived call ?_⟩
    simp [hhappened, hcall]

/-- A call that is left open by a frame and closed by the next one, after a call that is longer than
the three before it. -/
theorem takeAll_consistent_across_frames :
    let t : Thread := ⟨0, 0, 0⟩
    let frames : List (Unit × Frame) := [((), { step := 0, calls := [⟨t, .entry, 7, 0⟩,
      ⟨t, .entry, 1, 0⟩, ⟨t, .exit, 1, 10⟩, ⟨t, .entry, 1, 20⟩, ⟨t, .exit, 1, 30⟩,
      ⟨t, .entry, 1, 40⟩, ⟨t, .exit, 1, 50⟩] }), ((), { step := 1 })]
    let last : Frame := { step := 2, calls := [
      ⟨t, .entry, 1, 60⟩, ⟨t, .exit, 1, 160⟩, ⟨t, .exit, 7, 200⟩] }
    let c : DetectorConfig := { sigma := Binary64.ofNat 1, localScope := .rank }
    let p := (start 0 Keyed.empty c).takeAll none frames
    p.rank.summary.openCalls = 1 ∧ p.rank.summary.frames = 2 ∧
      ∃ report, (p.rank.process none () last).2.2 = .completed report ∧
        report.functionsOfInterest = [1] ∧
        (∃ call ∈ report.calls, call.function = 1 ∧ call.label = .anomalous) ∧
        ∀ call ∈ report.calls, (p.take none () last).happened.Lived Keyed.empty call := by
  intro t frames last c
  have hconsistent := takeAll_consistent none 0 Keyed.empty c frames
  have hinterest : (((start 0 Keyed.empty c).takeAll none frames).rank.process none () last).2.2.report?.map
      FrameReport.functionsOfInterest = some [1] := by
    decide +kernel
  have hcounts : ((start 0 Keyed.empty c).takeAll none frames).happened.closedCalls.length = 3 ∧
      ((start 0 Keyed.empty c).takeAll none frames).happened.discardedIds.length = 0 ∧
      ((start 0 Keyed.empty c).takeAll none frames).happened.openedIds.length = 4 ∧
      ((start 0 Keyed.empty c).takeAll none frames).answers.countP (·.2.isTaken) = 2 := by
    decide +kernel
  have hsize : last.calls.length < UInt64.size := by decide
  generalize (start 0 Keyed.empty c).takeAll none frames = p at hconsistent hinterest hcounts ⊢
  obtain ⟨htotals, hnext⟩ := hconsistent
  obtain ⟨hclosed, hdiscarded, hopened, htaken⟩ := hcounts
  obtain ⟨report, hreport, hfunctions⟩ := Option.map_eq_some_iff.1 hinterest
  have hcompleted := FrameStatus.report?_eq_some hreport
  obtain ⟨hreported, hlived⟩ := hnext () last report hsize hcompleted
  have hopen := htotals.openCalls
  rw [hclosed, hdiscarded, hopened] at hopen
  obtain ⟨hanomalous, -⟩ := (hreported.interest 1).1 (by simp [hfunctions])
  exact ⟨by omega, htotals.frames.trans (congrArg _ htaken), report, hcompleted, hfunctions,
    (hreported.contains 1).1 hanomalous, hlived⟩

end Course

end TraceAnomaly
