import TraceAnomaly.Proofs.CallStack.WellFormed

/-! What happens to calls in a history of operations. Calls are opened, closed and discarded, and
records leave the stacks with their frame; a history lists this in order. What the basic operations
keep of the stacks and of the history so far is kept by every list of operations. -/

namespace TraceAnomaly

inductive Happening where
  /-- A call was opened under a number. -/
  | opened (id : UInt64) (entry : CallEvent)
  /-- An exit closed a call that had `depth` enclosing ones. -/
  | closed (call : CallRecord) (depth : ℕ) (exit : CallEvent)
  /-- An exit did not fit the innermost open call, which is lost. -/
  | discarded (id : UInt64) (exit : CallEvent)
  /-- An exit found no open call. -/
  | unmatched (exit : CallEvent)
  /-- The closed calls of a frame were given away. -/
  | released (calls : List CallRecord)
  /-- Function names were added. -/
  | named (names : FunctionTable)

namespace Happening

@[simp] def openedId? : Happening → Option UInt64
  | opened id _ => some id
  | _ => none

@[simp] def closedCall? : Happening → Option CallRecord
  | closed call _ _ => some call
  | _ => none

@[simp] def discardedId? : Happening → Option UInt64
  | discarded id _ => some id
  | _ => none

@[simp] def releasedCalls : Happening → List CallRecord
  | released calls => calls
  | _ => []

@[simp] def names (before : FunctionTable) : Happening → FunctionTable
  | named names => before.insertAll names.toList
  | _ => before

@[simp] def thread? : Happening → Option Thread
  | opened _ e => some e.thread
  | closed _ _ x => some x.thread
  | discarded _ x => some x.thread
  | unmatched x => some x.thread
  | _ => none

@[simp] def kind? : Happening → Option CallKind
  | opened _ _ => some .entry
  | closed _ _ _ => some .exit
  | discarded _ _ => some .exit
  | unmatched _ => some .exit
  | _ => none

end Happening

abbrev History := List Happening

namespace History

def openedIds (H : History) : List UInt64 := H.filterMap Happening.openedId?

/-- The calls that were closed, in closing order. -/
def closedCalls (H : History) : List CallRecord := H.filterMap Happening.closedCall?

def discardedIds (H : History) : List UInt64 := H.filterMap Happening.discardedId?

def releasedCalls (H : History) : List CallRecord := H.flatMap Happening.releasedCalls

def names (before : FunctionTable) (H : History) : FunctionTable := H.foldl Happening.names before

def on (t : Thread) (H : History) : History := H.filter (·.thread? = some t)

def moves (t : Thread) (H : History) : List CallKind := (H.on t).filterMap Happening.kind?

section One

variable (h : Happening)

@[simp] theorem openedIds_singleton : openedIds [h] = h.openedId?.toList := by
  cases h <;> rfl

@[simp] theorem closedCalls_singleton : closedCalls [h] = h.closedCall?.toList := by
  cases h <;> rfl

@[simp] theorem discardedIds_singleton : discardedIds [h] = h.discardedId?.toList := by
  cases h <;> rfl

@[simp] theorem releasedCalls_singleton : releasedCalls [h] = h.releasedCalls :=
  List.append_nil _

@[simp] theorem names_singleton (before : FunctionTable) : names before [h] = h.names before := rfl

@[simp] theorem moves_singleton (t : Thread) :
    moves t [h] = if h.thread? = some t then h.kind?.toList else [] := by
  unfold moves on
  split <;> cases h <;> simp_all

end One

variable (H K : History)

@[simp] theorem openedIds_append : openedIds (H ++ K) = openedIds H ++ openedIds K :=
  List.filterMap_append

@[simp] theorem closedCalls_append : closedCalls (H ++ K) = closedCalls H ++ closedCalls K :=
  List.filterMap_append

@[simp] theorem discardedIds_append : discardedIds (H ++ K) = discardedIds H ++ discardedIds K :=
  List.filterMap_append

@[simp] theorem releasedCalls_append : releasedCalls (H ++ K) = releasedCalls H ++ releasedCalls K :=
  List.flatMap_append

@[simp] theorem names_append (before : FunctionTable) :
    names before (H ++ K) = names (names before H) K :=
  List.foldl_append

@[simp] theorem on_append (t : Thread) : on t (H ++ K) = on t H ++ on t K :=
  List.filter_append ..

@[simp] theorem moves_append (t : Thread) : moves t (H ++ K) = moves t H ++ moves t K := by
  simp [moves]

end History

namespace CallStacks

/-- What an exit does to the innermost open call of its thread. -/
def departure (s : CallStacks) (e : CallEvent) : Happening :=
  match s.stack e.thread, (s.leave e).2 with
  | [], _ => .unmatched e
  | call :: outer, .ok _ => .closed (call.close e.time) outer.length e
  | call :: _, .error _ => .discarded call.id e

def happens (s : CallStacks) : Event → History
  | .call e =>
    match e.kind with
    | .entry => [.opened (s.enter e).2 e]
    | .exit => [s.departure e]
  | .message _ => []

/-- What happens as events are applied up to the first violation. -/
def happensAll (s : CallStacks) : List Event → History
  | [] => []
  | e :: rest =>
    match s.apply e with
    | (_, .error _) => s.happens e
    | (s', .ok _) => s.happens e ++ happensAll s' rest

def happenings (s : CallStacks) : Operation → History
  | .enter e => [.opened (s.enter e).2 e]
  | .leave e => [s.departure e]
  | .call e => s.happens (.call e)
  | .attach _ => []
  | .ingest _ f => s.happensAll f.ordered
  | .beginFrame => [.released s.frameCalls]
  | .setLabels _ _ => []
  | .releaseFrame => [.released s.frameCalls]
  | .updateFunctions names => [.named names]

def history (s : CallStacks) : List Operation → History
  | [] => []
  | op :: ops => s.happenings op ++ (s.perform op).1.history ops

@[simp] theorem history_cons (s : CallStacks) (op : Operation) (ops : List Operation) :
    s.history (op :: ops) = s.happenings op ++ (s.perform op).1.history ops := rfl

/-- Everything that an exit can do, with what happens. -/
theorem departure_cases (s : CallStacks) (e : CallEvent) :
    s.stack e.thread = [] ∧ (s.leave e).1 = s ∧ s.departure e = .unmatched e ∨
    ∃ c outer, s.stack e.thread = c :: outer ∧
      ((s.leave e).1 = s.setStack e.thread outer ∧ s.departure e = .discarded c.id e ∨
        c.function = e.function ∧ c.entry ≤ e.time ∧
          (s.leave e).1 = (s.setStack e.thread outer).settle (c.close e.time) outer.length ∧
          s.departure e = .closed (c.close e.time) outer.length e) := by
  rcases leave_cases s e with
    ⟨hst, hs⟩ | ⟨c, outer, hst, ⟨-, hs⟩ | ⟨-, -, hs⟩ | ⟨hf, ht, hs⟩⟩
  · exact .inl ⟨hst, by rw [hs], by simp [departure, hst]⟩
  · exact .inr ⟨c, outer, hst, .inl ⟨by rw [hs], by simp [departure, hst, hs]⟩⟩
  · exact .inr ⟨c, outer, hst, .inl ⟨by rw [hs], by simp [departure, hst, hs]⟩⟩
  · exact .inr ⟨c, outer, hst, .inr ⟨hf, ht, by rw [hs], by simp [departure, hst, hs]⟩⟩

theorem departure_exit (s : CallStacks) (e : CallEvent) :
    (s.departure e).thread? = some e.thread ∧ (s.departure e).kind? = some .exit := by
  rcases departure_cases s e with ⟨-, -, hd⟩ | ⟨c, outer, -, ⟨-, hd⟩ | ⟨-, -, -, hd⟩⟩ <;> simp [hd]

/-- Every exit takes away the innermost open call of its thread. -/
theorem stack_leave (s : CallStacks) (e : CallEvent) (t : Thread) :
    (s.leave e).1.stack t = if t = e.thread then (s.stack t).tail else s.stack t := by
  rcases departure_cases s e with ⟨hst, hs, -⟩ | ⟨c, outer, hst, ⟨hs, -⟩ | ⟨-, -, hs, -⟩⟩
  · rw [hs]
    split
    · rename_i ht
      rw [ht, hst, List.tail_nil]
    · rfl
  all_goals
    rw [hs]
    by_cases ht : t = e.thread
    · simp [ht, hst]
    · simp [ht]

theorem closedCalls_leave (s : CallStacks) (e : CallEvent) (f : UInt64) :
    (s.leave e).1.closedCalls f =
      s.closedCalls f ++ (s.departure e).closedCall?.toList.filter (·.function = f) := by
  rcases departure_cases s e with ⟨-, hs, hd⟩ | ⟨c, outer, -, ⟨hs, hd⟩ | ⟨-, -, hs, hd⟩⟩
  · simp [hs, hd]
  · simp [hs, hd]
  · rw [hs, hd, closedCalls_settle, closedCalls_setStack]
    by_cases hf : (c.close e.time).function = f
    · simp [hf]
    · simp [hf, Ne.symm hf]

theorem closedCalls_apply (s : CallStacks) (e : Event) (f : UInt64) :
    (s.apply e).1.closedCalls f =
      s.closedCalls f ++ (s.happens e).closedCalls.filter (·.function = f) := by
  cases e with
  | message e =>
    have hkept : (s.attach e).1.closedCalls f = s.closedCalls f := by
      rcases attach_cases s e with ⟨-, hs⟩ | ⟨c, outer, -, hs⟩
      · rw [hs]
      · rw [hs, closedCalls_setStack]
    simpa [apply, happens, History.closedCalls] using hkept
  | call e =>
    cases hk : e.kind with
    | entry =>
      have hkept : (s.enter e).1.closedCalls f = s.closedCalls f := rfl
      simpa [apply, call, happens, hk] using hkept
    | exit => simpa [apply, call, happens, hk] using closedCalls_leave s e f

/-- The calls that wait after events are those that have waited before and those that exits among the
events have closed. -/
theorem closedCalls_applyAll (s : CallStacks) (n : EventCounts) (i : ℕ) (es : List Event) (f : UInt64) :
    (s.applyAll n i es).1.closedCalls f =
      s.closedCalls f ++ (s.happensAll es).closedCalls.filter (·.function = f) := by
  induction es generalizing s n i with
  | nil => simp [applyAll, happensAll, History.closedCalls]
  | cons e rest ih =>
    have he := closedCalls_apply s e f
    simp only [applyAll, happensAll]
    cases hr : s.apply e with
    | mk s' outcome =>
      rw [hr] at he
      cases outcome with
      | error v => exact he
      | ok c => simpa [he] using ih s' (n.record c) (i + 1)

theorem closedCalls_perform (s : CallStacks) {op : Operation} (hop : op.isEvent) (f : UInt64) :
    (s.perform op).1.closedCalls f =
      s.closedCalls f ++ (s.happenings op).closedCalls.filter (·.function = f) := by
  cases op with
  | enter e => exact (List.append_nil _).symm
  | leave e =>
    rw [happenings, History.closedCalls_singleton]
    exact closedCalls_leave s e f
  | call e => exact closedCalls_apply s (.call e) f
  | attach e => exact closedCalls_apply s (.message e) f
  | ingest | beginFrame | setLabels | releaseFrame | updateFunctions => cases hop

theorem closedCalls_performAll (s : CallStacks) {ops : List Operation} (hops : ∀ op ∈ ops, op.isEvent) (f : UInt64) :
    (s.performAll ops).1.closedCalls f =
      s.closedCalls f ++ (s.history ops).closedCalls.filter (·.function = f) := by
  induction ops generalizing s with
  | nil => exact (List.append_nil _).symm
  | cons op ops ih =>
    obtain ⟨hop, hops⟩ := List.forall_mem_cons.1 hops
    rw [performAll_cons, history_cons, ih _ hops, closedCalls_perform s hop]
    simp

/-- What remains true of the call stacks and the history so far under every basic operation. -/
structure Traced (P : History → CallStacks → Prop) : Prop where
  enter : ∀ H s e, P H s → P (H ++ [.opened (s.enter e).2 e]) (s.enter e).1
  leave : ∀ H s e, P H s → P (H ++ [s.departure e]) (s.leave e).1
  attach : ∀ H s e, P H s → P H (s.attach e).1
  setLabels : ∀ H s f ls, P H s → P H (s.setLabels f ls)
  releaseFrame : ∀ H s, P H s → P (H ++ [.released s.frameCalls]) s.releaseFrame
  updateFunctions : ∀ H s names, P H s → P (H ++ [.named names]) (s.updateFunctions names)

namespace Traced

variable {P : History → CallStacks → Prop} (h : Traced P) {H : History} {s : CallStacks}
include h

theorem apply (e : Event) (hs : P H s) : P (H ++ s.happens e) (s.apply e).1 := by
  cases e with
  | message e =>
    rw [happens, List.append_nil]
    exact h.attach H s e hs
  | call e =>
    cases hk : e.kind with
    | entry => simpa [happens, CallStacks.apply, CallStacks.call, hk] using h.enter H s e hs
    | exit => simpa [happens, CallStacks.apply, CallStacks.call, hk] using h.leave H s e hs

theorem applyAll (n : EventCounts) (i : ℕ) (es : List Event) (hs : P H s) :
    P (H ++ s.happensAll es) (s.applyAll n i es).1 := by
  induction es generalizing H s n i with
  | nil =>
    rw [happensAll, List.append_nil]
    exact hs
  | cons e rest ih =>
    have he := h.apply e hs
    simp only [happensAll, CallStacks.applyAll]
    cases hr : s.apply e with
    | mk s' outcome =>
      rw [hr] at he
      cases outcome with
      | error v => exact he
      | ok c => simpa using ih (n.record c) (i + 1) he

theorem perform (op : Operation) (hs : P H s) : P (H ++ s.happenings op) (s.perform op).1 := by
  cases op with
  | enter e => exact h.enter H s e hs
  | leave e => exact h.leave H s e hs
  | call e => exact h.apply (.call e) hs
  | attach e =>
    rw [happenings, List.append_nil]
    exact h.attach H s e hs
  | ingest n f => exact h.applyAll n 0 f.ordered hs
  | beginFrame => exact h.releaseFrame H s hs
  | setLabels f ls =>
    rw [happenings, List.append_nil]
    exact h.setLabels H s f ls hs
  | releaseFrame => exact h.releaseFrame H s hs
  | updateFunctions names => exact h.updateFunctions H s names hs

theorem performAll (ops : List Operation) (hs : P H s) :
    P (H ++ s.history ops) (s.performAll ops).1 := by
  induction ops generalizing H s with
  | nil =>
    rw [history, List.append_nil]
    exact hs
  | cons op ops ih => simpa using ih (h.perform op hs)

end Traced

end CallStacks

end TraceAnomaly
