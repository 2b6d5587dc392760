import TraceAnomaly.Proofs.CallStack.Depth
import TraceAnomaly.Proofs.Rank.Totals

/-! The depth that is kept of a function is the greatest number of calls that a call of it had around it,
and a function whose calls are nested too deep is never of interest again. -/

namespace TraceAnomaly

variable {σ : Type}

namespace Rank

/-- A function of interest has not been nested too deep, by the calls closed up to this frame. -/
theorem maxDepth_lt_of_mem_functionsOfInterest {r : Rank} {a : Option (Aggregator σ)} {s : σ} {f : Frame}
    {report : FrameReport} (hf : (r.process a s f).2.2 = .completed report) {g : UInt64}
    (hg : g ∈ report.functionsOfInterest) : (r.process a s f).1.calls.maxDepth g <
      (r.process a s f).1.detector.config.interestDepth.toNat := by
  rcases process_outcomes r a s f with
    ⟨-, hp⟩ | ⟨-, -, hp⟩ | ⟨-, -, e, -, hp⟩ | ⟨-, -, -, r', s', report', hq, hp⟩
  · simp [hp] at hf
  · simp [hp] at hf
  · simp [hp] at hf
  · obtain rfl : report' = report := by simpa [hp] using hf
    have hinterest : report'.functionsOfInterest = r'.detector.functionsOfInterest r'.calls.maxDepth := by
      cases hq
      rfl
    rw [hinterest, Detector.mem_functionsOfInterest] at hg
    obtain ⟨n, -, -, hlt⟩ := hg
    rwa [hp]

end Rank

namespace Course

theorem traced_take {P : History → CallStacks → Prop} (hP : CallStacks.Traced P) {p : Course}
    (h : P p.happened p.rank.calls) (a : Option (Aggregator σ)) (s : σ) (f : Frame) :
    P (p.take a s f).happened (p.take a s f).rank.calls :=
  p.rank.traced_process a s f hP h

theorem traced_takeAll {P : History → CallStacks → Prop} (hP : CallStacks.Traced P) {p : Course}
    (h : P p.happened p.rank.calls) (a : Option (Aggregator σ)) (frames : List (σ × Frame)) :
    P (p.takeAll a frames).happened (p.takeAll a frames).rank.calls := by
  induction frames generalizing p with
  | nil => exact h
  | cons e rest ih => exact ih (traced_take hP h a e.1 e.2)

end Course

namespace CallStacks

/-- The stacks of a history hold the calls that it has left open. The depth kept of a function is the
greatest number of calls that were open on the thread of a call of it when it was opened, among the calls
that have closed; these calls are its callers. It never gets smaller, and a function that has reached the
depth of interest is in no report from that frame on. -/
theorem maxDepth_counts_callers (names : FunctionTable) (ops : List Operation) (f : UInt64) :
    let s := (({ functions := names } : CallStacks).performAll ops).1
    let H := ({ functions := names } : CallStacks).history ops
    (∀ t, (s.stack t).map (·.id) = H.openIds t) ∧
      (∀ r ∈ H.closedCalls, ∃ n, H.ClosedUnder r n) ∧
      IsGreatest {n | n = 0 ∨ ∃ r, r.function = f ∧ H.ClosedUnder r n} (s.maxDepth f) ∧
      (∀ r ∈ s.openCalls ++ H.closedCalls, H.Made r.id r.parent) ∧
      (∀ r n, H.ClosedUnder r n → H.Ancestors r.parent n) ∧
      (H.openedIds.length < UInt64.size →
        ∀ parent m n, H.Ancestors parent m → H.Ancestors parent n → m = n) ∧
      (∀ later, s.maxDepth f ≤ (s.performAll later).1.maxDepth f) ∧
      ∀ {σ : Type} (a : Option (Aggregator σ)) (number : UInt64) (c : DetectorConfig)
        (frames : List (σ × Frame)) (shared : σ) (frame : Frame) (report : FrameReport),
        let p := (Course.start number names c).takeAll a frames
        (p.rank.process a shared frame).2.2 = .completed report →
        ∀ r n, (p.take a shared frame).happened.ClosedUnder r n → c.interestDepth.toNat ≤ n →
          r.function ∉ report.functionsOfInterest := by
  intro s H
  have h : Nests names H s := (Nests.traced names).performAll ops (.initial names)
  refine ⟨h.stack, fun r hr => h.measured.exists_closedUnder hr, h.isGreatest_maxDepth f,
    fun r hr => h.made hr, fun r n hr => h.measured.ancestors hr, fun hfew parent m n hm hn => ?_,
    fun later => maxDepth_le_performAll s later f, ?_⟩
  · have hnodup : H.openedIds.Nodup := (h.ledger.ascending hfew).imp UInt64.ne_of_lt
    exact hm.unique hnodup hn
  · intro σ a number c frames shared frame report p hreport r n hr hdeep hinterest
    have hsound : p.Sound names c := (Course.Sound.start number names c).takeAll a frames
    have hnests : Nests names (p.take a shared frame).happened (p.take a shared frame).rank.calls :=
      Course.traced_take (Nests.traced names)
        (Course.traced_takeAll (Nests.traced names) (.initial names) a frames) a shared frame
    have hle := (hnests.isGreatest_maxDepth r.function).2 (.inr ⟨r, rfl, hr⟩)
    have hlt : (p.take a shared frame).rank.calls.maxDepth r.function < c.interestDepth.toNat := by
      rw [← (hsound.take a shared frame).config]
      exact Rank.maxDepth_lt_of_mem_functionsOfInterest hreport hinterest
    omega

-- The innermost call is lost to an exit of its caller, and its depth with it.
example :
    let t : Thread := ⟨0, 0, 0⟩
    let s := (({} : CallStacks).performAll [.enter ⟨t, .entry, 1, 10⟩, .enter ⟨t, .entry, 2, 20⟩,
      .enter ⟨t, .entry, 3, 30⟩, .leave ⟨t, .exit, 2, 40⟩, .leave ⟨t, .exit, 2, 50⟩]).1
    s.maxDepth 2 = 1 ∧ s.maxDepth 3 = 0 := by decide

end CallStacks

end TraceAnomaly
