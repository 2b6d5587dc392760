import TraceAnomaly.Proofs.CallStack.Cut
import TraceAnomaly.Proofs.CallStack.Representation

/-! Releasing does not disturb the reconstruction. Entries, exits and messages look at open calls only,
so the calls that wait can be released between them at any time: the same calls are released in the end,
function by function, as they were when they closed. -/

namespace TraceAnomaly

namespace Operation

def isRelease : Operation → Bool
  | .releaseFrame => true
  | _ => false

def opens : Operation → Bool
  | .enter _ => true
  | .call e => e.kind = .entry
  | _ => false

/-- Only entries open calls. -/
theorem allEntries_le {ops : List Operation} (hops : ∀ op ∈ ops, op.isEvent ∨ op.isRelease)
    (replies : List Reply) : allEntries ops replies ≤ ops.countP opens := by
  induction ops generalizing replies with
  | nil => exact Nat.le_refl _
  | cons op ops ih =>
    obtain ⟨hop, hops⟩ := List.forall_mem_cons.1 hops
    cases replies with
    | nil => exact Nat.zero_le _
    | cons r replies =>
      have hone : op.entries r ≤ if op.opens then 1 else 0 := by
        cases op with
        | enter | leave | call | attach | releaseFrame => simp [entries, opens]
        | ingest | beginFrame | setLabels | updateFunctions => simp [isEvent, isRelease] at hop
      have hrest := ih hops replies
      rw [allEntries, List.countP_cons]
      omega

end Operation

namespace Reply

def calls : Reply → List CallRecord
  | .released calls => calls
  | _ => []

def isRelease : Reply → Bool
  | .released _ => true
  | _ => false

theorem flatMap_calls_answers (replies : List Reply) :
    (replies.filter (!·.isRelease)).flatMap calls = [] := by
  refine List.flatMap_eq_nil_iff.2 fun r hr => ?_
  have hanswer := (List.mem_filter.1 hr).2
  cases r with
  | released => cases hanswer
  | opened | left | called | attached | ingested | done => rfl

end Reply

namespace CallStacks

variable {s whole : CallStacks} {op : Operation} {ops : List Operation} {out : List CallRecord}

/-! ### Events -/

theorem releasedCalls_departure (s : CallStacks) (e : CallEvent) : (s.departure e).releasedCalls = [] := by
  rcases departure_cases s e with ⟨-, -, hd⟩ | ⟨c, outer, -, ⟨-, hd⟩ | ⟨-, -, -, hd⟩⟩ <;> rw [hd] <;> rfl

/-- An event releases nothing. -/
theorem releasedCalls_happenings (s : CallStacks) (hop : op.isEvent) :
    (s.happenings op).releasedCalls = [] := by
  cases op with
  | enter | attach => rfl
  | leave e => rw [happenings, History.releasedCalls_singleton, releasedCalls_departure]
  | call e =>
    cases hk : e.kind with
    | entry => simp [happenings, happens, hk]
    | exit =>
      simp only [happenings, happens, hk, History.releasedCalls_singleton, releasedCalls_departure]
  | ingest | beginFrame | setLabels | releaseFrame | updateFunctions => cases hop

theorem reply_perform (hop : op.isEvent) :
    (s.perform op).2.isRelease = false ∧ (s.perform op).2.calls = [] := by
  cases op with
  | enter | leave | call | attach => exact ⟨rfl, rfl⟩
  | ingest | beginFrame | setLabels | releaseFrame | updateFunctions => cases hop

/-! ### Two runs -/

/-- The stacks `s` have released `out` along the way; in `whole` these calls still wait. -/
structure Parts (out : List CallRecord) (s whole : CallStacks) : Prop where
  state : s.releaseFrame = whole.releaseFrame
  placed : ∀ f, ∀ c ∈ s.closedCalls f, c.function = f
  closed : ∀ f, out.filter (·.function = f) ++ s.closedCalls f = whole.closedCalls f

namespace Parts

theorem start (hs : s.closed = Keyed.empty) : Parts [] s s where
  state := rfl
  placed f c hc := by simp [closedCalls, hs] at hc
  closed f := rfl

variable (h : Parts out s whole)
include h

/-- An event is answered alike by both. -/
theorem event (hop : op.isEvent) :
    Parts out (s.perform op).1 (whole.perform op).1 ∧ (s.perform op).2 = (whole.perform op).2 := by
  obtain ⟨hstate, hreply, hhappens⟩ := releaseFrame_perform s hop
  obtain ⟨hstate', hreply', hhappens'⟩ := releaseFrame_perform whole hop
  rw [h.state] at hstate hreply hhappens
  refine ⟨⟨hstate.symm.trans hstate', fun f c hc => ?_, fun f => ?_⟩, hreply.symm.trans hreply'⟩
  · rw [closedCalls_perform s hop] at hc
    rcases List.mem_append.1 hc with hc | hc
    · exact h.placed f c hc
    · simpa using (List.mem_filter.1 hc).2
  · rw [closedCalls_perform s hop, closedCalls_perform whole hop, ← List.append_assoc, h.closed,
      ← hhappens, hhappens']

theorem release : Parts (out ++ s.frameCalls) s.releaseFrame whole where
  state := h.state
  placed f c hc := by simp [closedCalls, releaseFrame] at hc
  closed f := by
    have hnone : s.releaseFrame.closedCalls f = [] := rfl
    rw [hnone, List.append_nil, List.filter_append, filter_frameCalls_of_placed h.placed]
    exact h.closed f

omit h in
theorem performAll (h : Parts out s whole) (hops : ∀ op ∈ ops, op.isEvent ∨ op.isRelease) :
    Parts (out ++ (s.performAll ops).2.flatMap Reply.calls) (s.performAll ops).1
        (whole.performAll (ops.filter Operation.isEvent)).1 ∧
      (s.performAll ops).2.filter (!·.isRelease) = (whole.performAll (ops.filter Operation.isEvent)).2 := by
  induction ops generalizing out s whole with
  | nil =>
    have hnone : out ++ (s.performAll []).2.flatMap Reply.calls = out := List.append_nil out
    rw [hnone]
    exact ⟨h, rfl⟩
  | cons op ops ih =>
    obtain ⟨hop, hrest⟩ := List.forall_mem_cons.1 hops
    rcases hop with hop | hop
    · -- both runs take the event
      obtain ⟨hnext, hreply⟩ := h.event hop
      obtain ⟨hparts, hreplies⟩ := ih hnext hrest
      obtain ⟨hanswer, hcalls⟩ := reply_perform (s := s) hop
      rw [List.filter_cons_of_pos hop, performAll_cons, performAll_cons, List.flatMap_cons, hcalls,
        List.nil_append, List.filter_cons_of_pos (by rw [hanswer]; rfl), hreplies, hreply]
      exact ⟨hparts, rfl⟩
    · -- only the first run releases
      cases op with
      | releaseFrame =>
        obtain ⟨hparts, hreplies⟩ := ih h.release hrest
        rw [List.append_assoc] at hparts
        exact ⟨hparts, hreplies⟩
      | enter | leave | call | attach | ingest | beginFrame | setLabels | updateFunctions => cases hop

/-- What has been released and what still waits is what waits in the other run. -/
theorem placed_whole (f : UInt64) : ∀ c ∈ whole.closedCalls f, c.function = f := by
  intro c hc
  rw [← h.closed] at hc
  rcases List.mem_append.1 hc with hc | hc
  · simpa using (List.mem_filter.1 hc).2
  · exact h.placed f c hc

end Parts

/-! ### Records -/

/-- The calls of every function that were released, and after them those that wait, are the calls of the
function that were closed, as they were then but for their labels. -/
def Unaltered (H : History) (s : CallStacks) : Prop :=
  ∀ f, (H.releasedCalls.filter (·.function = f) ++ s.closedCalls f).map CallRecord.unlabelled =
    (H.closedCalls.filter (·.function = f)).map CallRecord.unlabelled

namespace Unaltered

variable {H : History}

theorem start (hs : s.closed = Keyed.empty) : Unaltered [] s := fun f => by
  simp [closedCalls, hs, History.releasedCalls, History.closedCalls]

theorem placed (h : Unaltered H s) (f : UInt64) : ∀ c ∈ s.closedCalls f, c.function = f := by
  intro c hc
  have hmem := List.mem_map_of_mem (f := CallRecord.unlabelled)
    (List.mem_append_right (H.releasedCalls.filter (·.function = f)) hc)
  rw [h f] at hmem
  obtain ⟨d, hd, hdc⟩ := List.mem_map.1 hmem
  have hfunction : d.function = c.function :=
    (congrArg CallRecord.function hdc : d.unlabelled.function = c.unlabelled.function)
  rw [← hfunction]
  simpa using (List.mem_filter.1 hd).2

theorem event (h : Unaltered H s) (op : Operation) (hop : op.isEvent) :
    Unaltered (H ++ s.happenings op) (s.perform op).1 := fun f => by
  rw [closedCalls_perform s hop, History.releasedCalls_append, releasedCalls_happenings s hop,
    List.append_nil, ← List.append_assoc, List.map_append, h f, History.closedCalls_append,
    List.filter_append, List.map_append]

theorem traced : Traced Unaltered where
  enter H s e h := h.event (.enter e) rfl
  leave H s e h := h.event (.leave e) rfl
  attach H s e h := by
    have hevent := h.event (.attach e) rfl
    rwa [happenings, List.append_nil] at hevent
  setLabels H s g ls h f := by
    have hkept : ((s.setLabels g ls).closedCalls f).map CallRecord.unlabelled =
        (s.closedCalls f).map CallRecord.unlabelled := by
      rw [closedCalls_setLabels]
      split
      · rename_i hf
        rw [hf, map_unlabelled_labelCalls]
      · rfl
    rw [List.map_append, hkept, ← List.map_append]
    exact h f
  releaseFrame H s h f := by
    have hnone : s.releaseFrame.closedCalls f = [] := rfl
    rw [hnone, List.append_nil, History.releasedCalls_append, History.releasedCalls_singleton,
      Happening.releasedCalls, List.filter_append, filter_frameCalls_of_placed h.placed, h f]
    simp
  updateFunctions H s names h f := by
    have hkept : (s.updateFunctions names).closedCalls f = s.closedCalls f := rfl
    rw [hkept]
    simpa using h f

end Unaltered

end CallStacks

theorem CallArena.Agrees.performAll_few {n : ℕ} {a : CallArena} {s : CallStacks} (h : Agrees n a s)
    (ops : List Operation) (hops : ∀ op ∈ ops, op.isEvent ∨ op.isRelease)
    (hfew : n + ops.countP Operation.opens < UInt64.size) :
    (∃ k, Agrees k (a.performAll ops).1 (s.performAll ops).1) ∧
      (a.performAll ops).2 = (s.performAll ops).2 := by
  have hle := Operation.allEntries_le hops (a.performAll ops).2
  obtain ⟨hrun, hreplies⟩ := Agrees.performAll ops h (by omega)
  exact ⟨⟨_, hrun⟩, hreplies⟩

namespace CallStacks

variable {s : CallStacks} {ops : List Operation}

/-- Calls can be released between events at any time. The events are answered as if all calls were
released in the end, and the same stacks remain; every function has the same calls released, in the
same order, as they were when they closed. A closed call is changed by nothing but labels. -/
theorem performAll_with_releases (hs : s.closed = Keyed.empty)
    (hops : ∀ op ∈ ops, op.isEvent ∨ op.isRelease) :
    let events := ops.filter Operation.isEvent
    let along := s.performAll (ops ++ [.releaseFrame])
    let once := s.performAll (events ++ [.releaseFrame])
    along.1 = once.1 ∧
      along.2.filter (!·.isRelease) = once.2.filter (!·.isRelease) ∧
      (∀ f, (along.2.flatMap Reply.calls).filter (·.function = f) =
        (once.2.flatMap Reply.calls).filter (·.function = f)) ∧
      (∀ f, (once.2.flatMap Reply.calls).filter (·.function = f) =
        (s.history events).closedCalls.filter (·.function = f)) ∧
      (∀ later, Unaltered (s.history later) (s.performAll later).1) ∧
      ∀ a, CallArena.Agrees s.nextId.toNat a s →
        (s.nextId.toNat + ops.countP Operation.opens < UInt64.size →
          (a.performAll (ops ++ [.releaseFrame])).2 = along.2 ∧
            (a.performAll (events ++ [.releaseFrame])).2 = once.2 ∧
            (a.performAll (ops ++ [.releaseFrame])).1 = (a.performAll (events ++ [.releaseFrame])).1) ∧
        ∀ later, s.nextId.toNat + Operation.allEntries later (a.performAll later).2 < UInt64.size →
          ∀ f, ∀ r ∈ (s.performAll later).1.closedCalls f,
            (a.performAll later).1.arena.get? r.id = some r := by
  intro events along once
  obtain ⟨hparts, hreplies⟩ := (Parts.start hs).performAll hops
  rw [List.nil_append] at hparts
  have hsplit : ∀ ops, s.performAll (ops ++ [.releaseFrame]) = ((s.performAll ops).1.releaseFrame,
      (s.performAll ops).2 ++ [.released (s.performAll ops).1.frameCalls]) :=
    fun ops => performAll_append s ops [.releaseFrame]
  have halong : along = _ := hsplit ops
  have honce : once = _ := hsplit events
  have hstate : along.1 = once.1 := by rw [halong, honce, hparts.state]
  have hone : ∀ f, (once.2.flatMap Reply.calls).filter (·.function = f) =
      (s.performAll events).1.closedCalls f := fun f => by
    rw [honce, List.flatMap_append, ← hreplies, Reply.flatMap_calls_answers, List.nil_append,
      List.flatMap_singleton, Reply.calls, filter_frameCalls_of_placed hparts.placed_whole]
  refine ⟨hstate, ?_, fun f => ?_, fun f => ?_, fun later =>
    Unaltered.traced.performAll later (Unaltered.start hs), fun a ha => ⟨fun hfew => ?_, fun later hfew f r hr => ?_⟩⟩
  · rw [halong, honce, List.filter_append, List.filter_append, hreplies, ← hreplies, List.filter_filter]
    simp [Reply.isRelease]
  · rw [hone, halong, List.flatMap_append, List.flatMap_singleton, Reply.calls, List.filter_append,
      filter_frameCalls_of_placed hparts.placed]
    exact hparts.closed f
  · have hnone : s.closedCalls f = [] := by simp [closedCalls, hs]
    rw [hone, closedCalls_performAll s fun op hop => (List.mem_filter.1 hop).2, hnone, List.nil_append]
  · have hfewer : (events ++ [Operation.releaseFrame]).countP Operation.opens ≤ ops.countP Operation.opens := by
      rw [List.countP_append]
      exact List.filter_sublist.countP_le
    obtain ⟨⟨k, hlast⟩, hreply⟩ := ha.performAll_few (ops ++ [.releaseFrame])
      (by simpa [or_imp, forall_and, Operation.isRelease] using hops)
      (by rw [List.countP_append]; exact hfew)
    obtain ⟨⟨j, hlast'⟩, hreply'⟩ := ha.performAll_few (events ++ [.releaseFrame])
      (by simp +contextual [events, or_imp, Operation.isRelease])
      (by omega)
    refine ⟨hreply, hreply', ?_⟩
    have hsame : (s.performAll (ops ++ [.releaseFrame])).1 = (s.performAll (events ++ [.releaseFrame])).1 :=
      hstate
    rw [hsame] at hlast
    exact hlast.unique hlast'
  · exact (CallArena.Agrees.performAll later ha hfew).1.get?_of_mem_closedCalls hr

/-- A call that stays open while two calls made by it are released, one of them after a violation. -/
theorem performAll_with_releases_mismatch :
    let t : Thread := ⟨0, 0, 0⟩
    let s := (({} : CallStacks).enter ⟨t, .entry, 1, 10⟩).1
    let ops : List Operation := [
      .enter ⟨t, .entry, 2, 20⟩, .leave ⟨t, .exit, 2, 30⟩, .releaseFrame, .enter ⟨t, .entry, 2, 40⟩,
      .attach ⟨t, .send, 1, 7, 8, 45⟩, .enter ⟨t, .entry, 3, 50⟩, .call ⟨t, .exit, 2, 60⟩, .releaseFrame,
      .leave ⟨t, .exit, 2, 70⟩, .leave ⟨t, .exit, 1, 80⟩]
    let along := s.performAll (ops ++ [.releaseFrame])
    let once := s.performAll (ops.filter Operation.isEvent ++ [.releaseFrame])
    s.closed = Keyed.empty ∧ (∀ op ∈ ops, op.isEvent ∨ op.isRelease) ∧ along.1 = once.1 ∧
      (along.2.flatMap Reply.calls).map (·.id) = [1, 0, 2] ∧
      (along.2.flatMap Reply.calls).filter (·.function = 2) =
        (once.2.flatMap Reply.calls).filter (·.function = 2) := by
  intro t s ops along once
  have hops : ∀ op ∈ ops, op.isEvent ∨ op.isRelease := by decide
  obtain ⟨hstate, -, hcalls, -⟩ := performAll_with_releases (s := s) rfl hops
  exact ⟨rfl, hops, hstate, by decide, hcalls 2⟩

end CallStacks

end TraceAnomaly
