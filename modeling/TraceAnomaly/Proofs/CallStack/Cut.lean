import TraceAnomaly.Proofs.CallStack.Interleaving
import TraceAnomaly.Proofs.Trace.Cut

/-! Where a frame is cut does not matter. Events never look at the calls that wait to be released, so a
frame's end between two events changes only which calls have been released when; and on every thread
the two parts of a frame bring the same events in the same order as the whole frame. -/

namespace TraceAnomaly

/-- The start or the end of a frame. -/
def Operation.isMark : Operation → Bool
  | .beginFrame => true
  | .releaseFrame => true
  | _ => false

theorem sum_entries (es : List Event) :
    (es.map Event.entries).sum = (es.filterMap Event.call?).countP (·.kind = .entry) := by
  induction es with
  | nil => rfl
  | cons e rest ih =>
    cases e with
    | message e =>
      rw [List.filterMap_cons_none (Event.call?_message e)]
      simpa [Event.entries] using ih
    | call e =>
      rw [List.filterMap_cons_some (Event.call?_call e)]
      simp [Event.entries, List.countP_cons, ih, Nat.add_comm]

namespace CallStacks

variable (s : CallStacks)

/-! ### Accepted events -/

theorem run_append (es fs : List Event) : (s.run (es ++ fs)).1 = ((s.run es).1.run fs).1 := by
  rw [run, List.map_append, performAll_append]
  rfl

theorem run_concat (es : List Event) (e : Event) :
    (s.run (es ++ [e])).1 = ((s.run es).1.apply e).1 := by
  rw [run_append, run_cons, perform_operation]
  rfl

theorem applyAll_run {s : CallStacks} {n : EventCounts} {i : ℕ} {es : List Event}
    (h : (s.applyAll n i es).2.2.isOk) :
    (s.applyAll n i es).1 = (s.run es).1 ∧ s.happensAll es = s.runHistory es := by
  induction es generalizing s n i with
  | nil => exact ⟨rfl, rfl⟩
  | cons e rest ih =>
    rw [run_cons, runHistory_cons, perform_operation]
    simp only [applyAll, happensAll] at h ⊢
    cases hr : s.apply e with
    | mk s' outcome =>
      rw [hr] at h
      cases outcome with
      | error v => cases h
      | ok c =>
        obtain ⟨hstate, hhistory⟩ := ih h
        exact ⟨hstate, congrArg (s.happens e ++ ·) hhistory⟩

theorem ingest_run {s : CallStacks} {n : EventCounts} {f : Frame} (h : (s.ingest n f).2.2.isOk) :
    (s.ingest n f).1 = (s.run f.ordered).1 ∧ s.happensAll f.ordered = s.runHistory f.ordered :=
  applyAll_run h

/-! ### The end of a frame -/

@[simp] theorem stack_releaseFrame (t : Thread) : s.releaseFrame.stack t = s.stack t := rfl

theorem releaseFrame_leave (e : CallEvent) :
    (s.releaseFrame.leave e).1.releaseFrame = (s.leave e).1.releaseFrame ∧
      (s.releaseFrame.leave e).2 = (s.leave e).2 := by
  unfold leave
  rw [stack_releaseFrame]
  cases s.stack e.thread with
  | nil => exact ⟨rfl, rfl⟩
  | cons c outer =>
    simp only
    split_ifs <;> exact ⟨rfl, rfl⟩

/-- Whether calls wait to be released makes no difference to an event. -/
theorem releaseFrame_apply (e : Event) :
    (s.releaseFrame.apply e).1.releaseFrame = (s.apply e).1.releaseFrame ∧
      s.releaseFrame.happens e = s.happens e := by
  cases e with
  | message e =>
    refine ⟨?_, rfl⟩
    simp only [apply, attach, stack_releaseFrame]
    split <;> rfl
  | call e =>
    cases hk : e.kind with
    | entry =>
      simp only [apply, call, happens, hk]
      exact ⟨rfl, rfl⟩
    | exit =>
      obtain ⟨hstate, hreply⟩ := releaseFrame_leave s e
      simp only [apply, call, happens, departure, hk, hreply, stack_releaseFrame]
      exact ⟨hstate, trivial⟩

theorem releaseFrame_perform {op : Operation} (hop : op.isEvent) :
    (s.releaseFrame.perform op).1.releaseFrame = (s.perform op).1.releaseFrame ∧
      (s.releaseFrame.perform op).2 = (s.perform op).2 ∧
      s.releaseFrame.happenings op = s.happenings op := by
  cases op with
  | enter e => exact ⟨rfl, rfl, rfl⟩
  | leave e =>
    obtain ⟨hstate, hreply⟩ := releaseFrame_leave s e
    refine ⟨hstate, congrArg Reply.left hreply, ?_⟩
    simp only [happenings, departure, stack_releaseFrame, hreply]
  | call e =>
    obtain ⟨hstate, hhappens⟩ := releaseFrame_apply s (.call e)
    refine ⟨hstate, congrArg Reply.called ?_, hhappens⟩
    unfold call
    rw [(releaseFrame_leave s e).2]
    cases e.kind <;> rfl
  | attach e =>
    refine ⟨(releaseFrame_apply s (.message e)).1, congrArg Reply.attached ?_, rfl⟩
    unfold attach
    rw [stack_releaseFrame]
    cases s.stack e.thread <;> rfl
  | ingest | beginFrame | setLabels | releaseFrame | updateFunctions => cases hop

theorem releaseFrame_performAll {ops : List Operation} (hops : ∀ op ∈ ops, op.isEvent) :
    (s.releaseFrame.performAll ops).1.releaseFrame = (s.performAll ops).1.releaseFrame ∧
      s.releaseFrame.history ops = s.history ops := by
  induction ops generalizing s with
  | nil => exact ⟨rfl, rfl⟩
  | cons op ops ih =>
    obtain ⟨hop, hops⟩ := List.forall_mem_cons.1 hops
    obtain ⟨hstate, -, hhappens⟩ := releaseFrame_perform s hop
    obtain ⟨hrun, hhistory⟩ := ih (s.perform op).1 hops
    obtain ⟨hrun', hhistory'⟩ := ih (s.releaseFrame.perform op).1 hops
    rw [performAll_cons, performAll_cons, history_cons, history_cons]
    rw [hstate] at hrun' hhistory'
    exact ⟨hrun'.symm.trans hrun, by rw [hhappens, ← hhistory', hhistory]⟩

theorem releaseFrame_run (es : List Event) :
    (s.releaseFrame.run es).1.releaseFrame = (s.run es).1.releaseFrame ∧
      s.releaseFrame.runHistory es = s.runHistory es :=
  releaseFrame_performAll s isEvent_of_mem

theorem closedCalls_run (es : List Event) (f : UInt64) : (s.run es).1.closedCalls f =
    s.closedCalls f ++ (s.runHistory es).closedCalls.filter (·.function = f) :=
  closedCalls_performAll s isEvent_of_mem f

/-- Marks release calls, and change nothing else. -/
theorem performAll_marks {s : CallStacks} (hs : s.WellFormed) {marks : List Operation}
    (hmarks : ∀ op ∈ marks, op.isMark) :
    (s.performAll marks).1.releaseFrame = s.releaseFrame ∧
      ∀ f, (s.history marks).releasedCalls.filter (·.function = f) ++
        (s.performAll marks).1.closedCalls f = s.closedCalls f := by
  induction marks generalizing s with
  | nil => exact ⟨rfl, fun f => rfl⟩
  | cons op marks ih =>
    obtain ⟨hop, hmarks⟩ := List.forall_mem_cons.1 hmarks
    have hone : (s.perform op).1 = s.releaseFrame ∧ s.happenings op = [.released s.frameCalls] := by
      cases op with
      | beginFrame | releaseFrame => exact ⟨rfl, rfl⟩
      | enter | leave | call | attach | ingest | setLabels | updateFunctions => cases hop
    obtain ⟨hstate, hclosed⟩ := ih hs.releaseFrame hmarks
    rw [performAll_cons, history_cons, hone.1, hone.2]
    refine ⟨hstate, fun f => ?_⟩
    rw [History.releasedCalls_append, List.filter_append, List.append_assoc, hclosed,
      History.releasedCalls_singleton]
    have hnone : s.releaseFrame.closedCalls f = [] := rfl
    rw [hnone, List.append_nil]
    exact hs.filter_frameCalls f

/-! ### Two parts -/

/-- Events with marks between them do what they do without. -/
theorem run_marks_run {s first : CallStacks} (hs : s.WellFormed) {es : List Event}
    (hfirst : first = (s.run es).1) {marks : List Operation} (hmarks : ∀ op ∈ marks, op.isMark)
    (fs : List Event) :
    ((first.performAll marks).1.run fs).1.releaseFrame = (s.run (es ++ fs)).1.releaseFrame ∧
      ∀ f, (first.history marks).releasedCalls.filter (·.function = f) ++
        ((first.performAll marks).1.run fs).1.closedCalls f = (s.run (es ++ fs)).1.closedCalls f := by
  have hwellFormed : first.WellFormed := hfirst ▸ wellFormed_kept.performAll _ hs
  obtain ⟨hstate, hclosed⟩ := performAll_marks hwellFormed hmarks
  obtain ⟨hrun, hhistory⟩ := releaseFrame_run first fs
  obtain ⟨hrun', hhistory'⟩ := releaseFrame_run (first.performAll marks).1 fs
  rw [hstate] at hrun' hhistory'
  rw [run_append, ← hfirst]
  refine ⟨hrun'.symm.trans hrun, fun f => ?_⟩
  rw [closedCalls_run, closedCalls_run, ← List.append_assoc, hclosed, ← hhistory', hhistory]

/-- A frame is accepted just if both parts are, whatever marks stand between them. -/
theorem isOk_ingest_cut {s : CallStacks} (hs : s.WellFormed) {f : Frame} (hf : f.Timed) (T : UInt64)
    {marks : List Operation} (hmarks : ∀ op ∈ marks, op.isMark) (n n₁ n₂ : EventCounts) :
    let first := s.ingest n₁ (f.before T)
    let second := (first.1.performAll marks).1.ingest n₂ (f.since T)
    (s.ingest n f).2.2.isOk = (first.2.2.isOk && second.2.2.isOk) := by
  intro first second
  have hwhole := follows_ingest s n f
  have hfirst : Follows s (f.before T).calls first.1 first.2.2.isOk := follows_ingest s n₁ _
  have hsecond : Follows _ (f.since T).calls second.1 second.2.2.isOk := follows_ingest _ n₂ _
  have hparts : ∀ t, threadCalls t f.calls = threadCalls t ((f.before T).calls ++ (f.since T).calls) :=
    fun t => (hf.calls T t).trans (threadCalls_append t _ _).symm
  have hstate := (performAll_marks (wellFormed_kept.ingest n₁ (f.before T) hs) hmarks).1
  have hpending : ∀ t, first.1.pending t = (first.1.performAll marks).1.pending t := fun t =>
    (congrArg (fun s : CallStacks => s.pending t) hstate).symm
  have hcut : Follows s ((f.before T).calls ++ (f.since T).calls) second.1
      (first.2.2.isOk && second.2.2.isOk) := by
    cases hb : first.2.2.isOk with
    | true => exact (hb ▸ hfirst).append (hsecond.of_pending hpending)
    | false => exact (hb ▸ hfirst).rejected _ _
  exact hwhole.accepted_eq hcut hparts

/-- Let a frame have the calls of every thread in order of time, and cut it in two at any instant. From
any state that has been reached, the frame is accepted just if both parts are accepted one after the
other, with any marks between them. Then both ways lead to the same stacks and depths and close the same
calls, released between the parts or waiting in the end, but for the numbers of the new calls; these are
exchanged one for one, and in order on every thread. -/
theorem ingest_cut (names : FunctionTable) (ops : List Operation) {f : Frame} (hf : f.Timed) (T : UInt64)
    {marks : List Operation} (hmarks : ∀ op ∈ marks, op.isMark) (n n₁ n₂ : EventCounts)
    (hn : (({ functions := names } : CallStacks).history ops).openedIds.length +
      f.calls.countP (·.kind = .entry) < UInt64.size) :
    let s := (({ functions := names } : CallStacks).performAll ops).1
    let old := ({ functions := names } : CallStacks).history ops
    let whole := s.ingest n f
    let first := s.ingest n₁ (f.before T)
    let released := (first.1.history marks).releasedCalls
    let second := (first.1.performAll marks).1.ingest n₂ (f.since T)
    (whole.2.2.isOk ↔ first.2.2.isOk ∧ second.2.2.isOk) ∧
      (whole.2.2.isOk →
        (∃ ρ : UInt64 → UInt64, Function.Injective ρ ∧ (∀ id ∈ old.openedIds, ρ id = id) ∧
          (∀ t, ∀ x ∈ ((old ++ s.happensAll f.ordered).on t).openedIds,
            ∀ y ∈ ((old ++ s.happensAll f.ordered).on t).openedIds, x < y → ρ x < ρ y) ∧
          (∀ t, second.1.stack t = (whole.1.stack t).map (CallRecord.rename ρ)) ∧
          ∀ t k, (released.filter (·.function = k) ++ second.1.closedCalls k).filter (·.thread = t) =
            ((whole.1.closedCalls k).filter (·.thread = t)).map (CallRecord.rename ρ)) ∧
        ∀ k, second.1.maxDepth k = whole.1.maxDepth k) := by
  intro s old whole first released second
  have h : Reached names old s := .performAll names ops
  have hok : whole.2.2.isOk = (first.2.2.isOk && second.2.2.isOk) :=
    isOk_ingest_cut h.wellFormed hf T hmarks n n₁ n₂
  refine ⟨by rw [hok, Bool.and_eq_true], fun hwhole => ?_⟩
  obtain ⟨hfirst, hsecond⟩ := Bool.and_eq_true_iff.1 (hok ▸ hwhole)
  -- all three frames are applied to the end
  obtain ⟨hwhole_run, hhistory⟩ : whole.1 = (s.run f.ordered).1 ∧ _ := ingest_run hwhole
  obtain ⟨hfirst_run, -⟩ : first.1 = (s.run (f.before T).ordered).1 ∧ _ := ingest_run hfirst
  obtain ⟨hsecond_run, -⟩ :
    second.1 = ((first.1.performAll marks).1.run (f.since T).ordered).1 ∧ _ := ingest_run hsecond
  obtain ⟨hstate, hclosed⟩ := run_marks_run h.wellFormed hfirst_run hmarks (f.since T).ordered
  rw [← hsecond_run] at hstate
  -- on every thread they are the same events
  have hsame : SameOnThreads f.ordered ((f.before T).ordered ++ (f.since T).ordered) := fun t => by
    rw [List.filter_append]
    exact hf.ordered T t
  have hfew : old.openedIds.length + (f.ordered.map Event.entries).sum < UInt64.size := by
    rwa [sum_entries, Frame.calls_ordered]
  obtain ⟨ρ, hinjective, hold, hmap⟩ := h.exists_exchange hfew hsame
  have hmirrors := h.mirrors_run hfew hsame hold hmap
  refine ⟨⟨ρ, hinjective, hold, fun t x hx y hy hxy => ?_, fun t => ?_, fun t k => ?_⟩, fun k => ?_⟩
  · rw [hhistory] at hx hy
    exact h.ascending_exchange hfew hsame hold hmap t hx hy hxy
  · have hstack := congrArg (fun s : CallStacks => s.stack t) hstate
    rw [hwhole_run, ← (hmirrors t).1.stack]
    exact hstack
  · rw [hsecond_run, hclosed k, hwhole_run]
    exact (hmirrors t).1.closed k
  · have hdepth := congrArg (fun s : CallStacks => s.maxDepth k) hstate
    rw [hwhole_run, ← maxDepth_eq_of_on (fun t => (hmirrors t).2.2) k]
    exact hdepth

/-- A call with a call in it and a message at the instant of the cut, beside a call of another thread that
comes after the cut. -/
theorem ingest_cut_tie :
    let t : Thread := ⟨0, 0, 0⟩
    let u : Thread := ⟨0, 0, 1⟩
    let ops : List Operation := [.enter ⟨t, .entry, 7, 0⟩]
    let f : Frame := {
      step := 0
      calls := [⟨t, .entry, 1, 10⟩, ⟨u, .entry, 2, 30⟩, ⟨t, .entry, 3, 15⟩, ⟨t, .exit, 3, 20⟩,
        ⟨t, .exit, 1, 25⟩]
      messages := [⟨t, .send, 0, 1, 8, 20⟩, ⟨t, .receive, 0, 1, 8, 12⟩] }
    let s := (({} : CallStacks).performAll ops).1
    let whole := s.ingest {} f
    let first := s.ingest {} (f.before 20)
    let second := (first.1.performAll [.releaseFrame, .beginFrame]).1.ingest {} (f.since 20)
    (first.2.2.isOk ∧ second.2.2.isOk) ∧ second.1.maxDepth 3 = whole.1.maxDepth 3 ∧
      ∃ ρ : UInt64 → UInt64, ρ 0 = 0 ∧ second.1.stack t = (whole.1.stack t).map (CallRecord.rename ρ) := by
  intro t u ops f s whole first second
  have hf : f.Timed := fun v => by
    by_cases ht : t = v
    · subst ht
      decide
    · by_cases hu : u = v
      · subst hu
        decide
      · simp [f, ht, hu]
  have hmarks : ∀ op ∈ [Operation.releaseFrame, .beginFrame], op.isMark := by decide
  obtain ⟨hok, hsame⟩ := ingest_cut Keyed.empty ops hf 20 hmarks {} {} {} (by decide)
  have hsilent : (s.ingest {} f.silent).2.2.isOk := by decide
  have hcalls : ∀ v, threadCalls v f.silent.calls = threadCalls v f.calls := fun _ => rfl
  have hwhole : whole.2.2.isOk := isOk_ingest_of_calls s hcalls hsilent {}
  obtain ⟨⟨ρ, -, hold, -, hstack, -⟩, hdepth⟩ := hsame hwhole
  exact ⟨hok.1 hwhole, hdepth 3, ρ, hold 0 (by decide), hstack t⟩

end CallStacks

end TraceAnomaly
