import Mathlib.Algebra.GroupWithZero.Nat
import TraceAnomaly.Proofs.CallStack.Renaming
import TraceAnomaly.Proofs.Trace.Delivery

/-! What happens on a thread depends on the events of that thread alone. After any events the call
stacks look, from one thread, as after the events of this thread, but for the numbers of the calls. -/

namespace TraceAnomaly

def Event.operation : Event → Operation
  | .call e => .call e
  | .message e => .attach e

theorem Event.isEvent_operation (e : Event) : e.operation.isEvent := by
  cases e <;> rfl

namespace CallStacks

/-- Applies events one by one, past violations. -/
def run (s : CallStacks) (es : List Event) : CallStacks × List Reply :=
  s.performAll (es.map Event.operation)

theorem isEvent_of_mem {es : List Event} : ∀ op ∈ es.map Event.operation, op.isEvent := by
  simpa using fun e _ => e.isEvent_operation

def runHistory (s : CallStacks) (es : List Event) : History := s.history (es.map Event.operation)

@[simp] theorem run_cons (s : CallStacks) (e : Event) (es : List Event) :
    s.run (e :: es) = (((s.perform e.operation).1.run es).1,
      (s.perform e.operation).2 :: ((s.perform e.operation).1.run es).2) := rfl

@[simp] theorem runHistory_cons (s : CallStacks) (e : Event) (es : List Event) :
    s.runHistory (e :: es) = s.happens e ++ (s.perform e.operation).1.runHistory es := by
  cases e <;> rfl

theorem length_openedIds_happens (s : CallStacks) (e : Event) :
    (s.happens e).openedIds.length = e.entries := by
  cases e with
  | message e => rfl
  | call e =>
    cases hk : e.kind with
    | entry => simp [happens, Event.entries, hk]
    | exit =>
      rcases departure_cases s e with ⟨-, -, hd⟩ | ⟨c, outer, -, ⟨-, hd⟩ | ⟨-, -, -, hd⟩⟩ <;>
        simp [happens, Event.entries, hk, hd]

theorem length_openedIds_runHistory (s : CallStacks) (es : List Event) :
    (s.runHistory es).openedIds.length = (es.map Event.entries).sum := by
  induction es generalizing s with
  | nil => rfl
  | cons e rest ih => simp [length_openedIds_happens, ih]

theorem on_happens (s : CallStacks) (e : Event) (t : Thread) :
    (s.happens e).on t = if e.thread = t then s.happens e else [] := by
  cases e with
  | message e => exact (ite_self []).symm
  | call e =>
    cases hk : e.kind with
    | entry => by_cases he : e.thread = t <;> simp [happens, History.on, hk, he]
    | exit =>
      rcases departure_cases s e with ⟨-, -, hd⟩ | ⟨c, outer, -, ⟨-, hd⟩ | ⟨-, -, -, hd⟩⟩ <;>
        by_cases he : e.thread = t <;> simp [happens, History.on, hk, hd, he]

theorem length_openedIds_on_runHistory (s : CallStacks) (es : List Event) (t : Thread) :
    ((s.runHistory es).on t).openedIds.length =
      ((es.filter (·.thread = t)).map Event.entries).sum := by
  induction es generalizing s with
  | nil => rfl
  | cons e rest ih =>
    rw [runHistory_cons, History.on_append, on_happens, List.filter_cons]
    by_cases he : e.thread = t
    · simp [he, length_openedIds_happens, ih]
    · simpa [he] using ih _

/-! ### What an event leaves as it is -/

section Frame

variable (s : CallStacks) (e : Event)

theorem perform_operation : (s.perform e.operation).1 = (s.apply e).1 := by
  cases e <;> rfl

theorem functions_apply : (s.apply e).1.functions = s.functions := by
  cases e with
  | message e => rcases attach_cases s e with ⟨-, hs⟩ | ⟨c, outer, -, hs⟩ <;> simp [apply, hs]
  | call e =>
    cases hk : e.kind with
    | entry => simp [apply, call, hk, enter]
    | exit =>
      rcases departure_cases s e with ⟨-, hs, -⟩ | ⟨c, outer, -, ⟨hs, -⟩ | ⟨-, -, hs, -⟩⟩ <;>
        simp [apply, call, hk, hs]

theorem stack_apply_other {t : Thread} (ht : t ≠ e.thread) : (s.apply e).1.stack t = s.stack t := by
  cases e with
  | message e =>
    rw [Event.thread_message] at ht
    rcases attach_cases s e with ⟨-, hs⟩ | ⟨c, outer, -, hs⟩
    · simp [apply, hs]
    · simp [apply, hs, ht]
  | call e =>
    rw [Event.thread_call] at ht
    cases hk : e.kind with
    | entry => simp [apply, call, hk, stack_enter, ht]
    | exit =>
      rcases departure_cases s e with ⟨-, hs, -⟩ | ⟨c, outer, -, ⟨hs, -⟩ | ⟨-, -, hs, -⟩⟩
      · simp [apply, call, hk, hs]
      · simp [apply, call, hk, hs, ht]
      · simp [apply, call, hk, hs, ht]

variable {s}

/-- An exit closes calls of its own thread. -/
theorem WellFormed.thread_of_closed (h : s.WellFormed) {c : CallRecord}
    (hc : c ∈ (s.happens e).closedCalls) : c.thread = e.thread := by
  cases e with
  | message e => simp [happens, History.closedCalls] at hc
  | call e =>
    cases hk : e.kind with
    | entry => simp [happens, hk] at hc
    | exit =>
      rcases departure_cases s e with ⟨-, -, hd⟩ | ⟨r, outer, hst, ⟨-, hd⟩ | ⟨-, -, -, hd⟩⟩
      · simp [happens, hk, hd] at hc
      · simp [happens, hk, hd] at hc
      · have hnested : Nested e.thread (r :: outer) := hst ▸ h.nested e.thread
        obtain ⟨-, -, hthread, -⟩ := hnested.1
        obtain rfl : c = r.close e.time := by simpa [happens, hk, hd] using hc
        exact hthread

end Frame

/-- Seen from a thread, `b` is `a` with other numbers. -/
structure Mirrors (ρ : UInt64 → UInt64) (t : Thread) (a b : CallStacks) : Prop where
  functions : b.functions = a.functions
  stack : b.stack t = (a.stack t).map (CallRecord.rename ρ)
  closed : ∀ f, (b.closedCalls f).filter (·.thread = t) =
    ((a.closedCalls f).filter (·.thread = t)).map (CallRecord.rename ρ)

namespace Mirrors

variable {ρ : UInt64 → UInt64} {t : Thread} {a b : CallStacks}

theorem setStack (h : Mirrors ρ t a b) {calls calls' : List CallRecord}
    (hcalls : calls' = calls.map (CallRecord.rename ρ)) :
    Mirrors ρ t (a.setStack t calls) (b.setStack t calls') where
  functions := h.functions
  stack := by simpa using hcalls
  closed := h.closed

theorem settle (h : Mirrors ρ t a b) (c : CallRecord) (d : ℕ) :
    Mirrors ρ t (a.settle c d) (b.settle (c.rename ρ) d) where
  functions := h.functions
  stack := h.stack
  closed f := by
    rw [closedCalls_settle, closedCalls_settle, CallRecord.function_rename]
    split
    · by_cases hc : c.thread = t <;> simp [h.closed, hc]
    · exact h.closed f

/-! ### An event of the thread -/

theorem enter (h : Mirrors ρ t a b) {e : CallEvent} (he : e.thread = t)
    (hid : b.nextId = ρ a.nextId) : Mirrors ρ t (a.enter e).1 (b.enter e).1 := by
  subst he
  refine ⟨h.functions, ?_, h.closed⟩
  rw [stack_enter, stack_enter, if_pos rfl, if_pos rfl, List.map_cons, map_rename_adopt, h.stack,
    h.functions, hid, CallRecord.rename_opened]
  simp [Function.comp_def]

theorem leave (h : Mirrors ρ t a b) {e : CallEvent} (he : e.thread = t) :
    Mirrors ρ t (a.leave e).1 (b.leave e).1 ∧
      (b.leave e).2 = ((a.leave e).2.map ρ).mapError (Violation.rename ρ) ∧
      b.departure e = (a.departure e).rename ρ := by
  subst he
  rcases leave_cases a e with ⟨hst, hs⟩ | ⟨c, outer, hst, ⟨hf, hs⟩ | ⟨hf, ht, hs⟩ | ⟨hf, ht, hs⟩⟩
  · have hb : b.stack e.thread = [] := by simp [h.stack, hst]
    have hleave : b.leave e = (b, .error (.emptyStack e.thread e.function e.time)) := by
      simp [CallStacks.leave, hb]
    rw [hs, hleave]
    exact ⟨h, rfl, by simp [departure, hst, hb, Happening.rename]⟩
  all_goals
    have hb : b.stack e.thread = c.rename ρ :: outer.map (CallRecord.rename ρ) := by
      simp [h.stack, hst]
    have hpop : Mirrors ρ e.thread (a.setStack e.thread outer)
        (b.setStack e.thread (outer.map (CallRecord.rename ρ))) := h.setStack rfl
  · have hleave : b.leave e = (b.setStack e.thread (outer.map (CallRecord.rename ρ)),
        .error (.functionMismatch e.thread e.function e.time (ρ c.id) c.function)) := by
      simp [CallStacks.leave, hb, hf]
    rw [departure, departure, hst, hb, hs, hleave]
    exact ⟨hpop, rfl, rfl⟩
  · have hleave : b.leave e = (b.setStack e.thread (outer.map (CallRecord.rename ρ)),
        .error (.timeReversal e.thread e.function c.entry e.time)) := by
      simp [CallStacks.leave, hb, hf, ht]
    rw [departure, departure, hst, hb, hs, hleave]
    exact ⟨hpop, rfl, rfl⟩
  · have hleave : b.leave e = ((b.setStack e.thread (outer.map (CallRecord.rename ρ))).settle
        ((c.close e.time).rename ρ) outer.length, .ok (ρ c.id)) := by
      simp [CallStacks.leave, hb, hf, UInt64.not_lt.2 ht]
    rw [departure, departure, hst, hb, hs, hleave]
    exact ⟨hpop.settle _ _, rfl, by simp [Happening.rename]⟩

theorem attach (h : Mirrors ρ t a b) {e : MessageEvent} (he : e.thread = t) :
    Mirrors ρ t (a.attach e).1 (b.attach e).1 ∧ (b.attach e).2 = (a.attach e).2 := by
  subst he
  rcases attach_cases a e with ⟨hst, hs⟩ | ⟨c, outer, hst, hs⟩
  · have hattach : b.attach e = (b, false) := by simp [CallStacks.attach, h.stack, hst]
    rw [hs, hattach]
    exact ⟨h, rfl⟩
  · have hattach : b.attach e = (b.setStack e.thread ((c.rename ρ).addMessage (.ofEvent e) ::
        outer.map (CallRecord.rename ρ)), true) := by
      simp [CallStacks.attach, h.stack, hst]
    rw [hs, hattach]
    exact ⟨h.setStack rfl, rfl⟩

/-- The same event of the thread, if the numbers given out correspond. -/
theorem step (h : Mirrors ρ t a b) {e : Event} (he : e.thread = t)
    (hids : (b.happens e).openedIds = (a.happens e).openedIds.map ρ) :
    Mirrors ρ t (a.perform e.operation).1 (b.perform e.operation).1 ∧
      (b.perform e.operation).2 = (a.perform e.operation).2.rename ρ ∧
      b.happens e = (a.happens e).map (Happening.rename ρ) := by
  cases e with
  | message e =>
    obtain ⟨hnext, hreply⟩ := h.attach he
    exact ⟨hnext, congrArg Reply.attached hreply, rfl⟩
  | call e =>
    cases hk : e.kind with
    | entry =>
      have hid : b.nextId = ρ a.nextId := by simpa [happens, hk, CallStacks.enter] using hids
      have hnext := h.enter he hid
      simp only [Event.operation, perform, call, happens, hk]
      exact ⟨hnext, rfl, by simp [CallStacks.enter, Happening.rename, hid]⟩
    | exit =>
      obtain ⟨hnext, hreply, hhappens⟩ := h.leave he
      simp only [Event.operation, perform, call, happens, hk]
      refine ⟨hnext, ?_, by simp [hhappens]⟩
      rw [hreply]
      cases (a.leave e).2 <;> rfl

/-! ### An event of another thread -/

theorem skip (h : Mirrors ρ t a b) (hb : b.WellFormed) {e : Event} (he : e.thread ≠ t) :
    Mirrors ρ t a (b.perform e.operation).1 := by
  rw [perform_operation]
  refine ⟨(functions_apply b e).trans h.functions, (stack_apply_other b e he.symm).trans h.stack,
    fun f => ?_⟩
  have hnone : ((b.happens e).closedCalls.filter (·.function = f)).filter (·.thread = t) = [] := by
    refine List.filter_eq_nil_iff.2 fun c hc => ?_
    have hthread := hb.thread_of_closed e (List.mem_filter.1 hc).1
    simpa [hthread] using he
  rw [closedCalls_apply, List.filter_append, hnone, List.append_nil, h.closed]

end Mirrors

/-! ### All events -/

def answersOn (t : Thread) (es : List Event) (replies : List Reply) : List Reply :=
  ((es.zip replies).filter (·.1.thread = t)).map Prod.snd

namespace Mirrors

variable {ρ : UInt64 → UInt64} {t : Thread} {a b : CallStacks}

/-- Events of all threads, seen from one of them. -/
theorem run (h : Mirrors ρ t a b) (hb : b.WellFormed) (es : List Event)
    (hids : ((b.runHistory es).on t).openedIds =
      (a.runHistory (es.filter (·.thread = t))).openedIds.map ρ) :
    Mirrors ρ t (a.run (es.filter (·.thread = t))).1 (b.run es).1 ∧
      answersOn t es (b.run es).2 = (a.run (es.filter (·.thread = t))).2.map (Reply.rename ρ) ∧
      (b.runHistory es).on t = (a.runHistory (es.filter (·.thread = t))).map (Happening.rename ρ) := by
  induction es generalizing a b with
  | nil => exact ⟨h, rfl, rfl⟩
  | cons e rest ih =>
    have hnext : (b.perform e.operation).1.WellFormed := wellFormed_kept.perform e.operation hb
    rw [runHistory_cons, History.on_append, on_happens] at hids ⊢
    by_cases he : e.thread = t
    · have hfilter : (e :: rest).filter (·.thread = t) = e :: rest.filter (·.thread = t) := by
        simp [he]
      rw [hfilter, runHistory_cons, if_pos he] at hids ⊢
      rw [History.openedIds_append, History.openedIds_append, List.map_append] at hids
      obtain ⟨hfirst, hrest⟩ := List.append_inj hids (by simp [length_openedIds_happens])
      obtain ⟨hstate, hreply, hhappens⟩ := h.step he hfirst
      obtain ⟨hfinal, hreplies, hhistory⟩ := ih hstate hnext hrest
      refine ⟨hfinal, ?_, by rw [hhappens, hhistory, List.map_append]⟩
      rw [run_cons, run_cons, List.map_cons, ← hreply, ← hreplies]
      simp [answersOn, he]
    · have hfilter : (e :: rest).filter (·.thread = t) = rest.filter (·.thread = t) := by
        simp [he]
      rw [hfilter, if_neg he, List.nil_append] at hids ⊢
      obtain ⟨hfinal, hreplies, hhistory⟩ := ih (h.skip hb he) hnext hids
      refine ⟨hfinal, ?_, hhistory⟩
      rw [← hreplies, run_cons]
      simp [answersOn, he]

end Mirrors

end CallStacks

end TraceAnomaly
