import TraceAnomaly.Proofs.CallStack.Lifetime
import TraceAnomaly.Proofs.CallStack.Representation
import TraceAnomaly.Proofs.Trace.Moment
import TraceAnomaly.Proofs.Trace.Placement

/-! What a violation changes. The events of a frame are applied one by one up to the first exit that does
not fit. This exit takes away the innermost open call of its thread, if there is one, and nothing else,
and no event behind it is applied. Every event that was applied is counted once. -/

namespace TraceAnomaly

/-! ### Counts -/

theorem length_calls_messages (es : List Event) :
    es.length = (es.filterMap Event.call?).length + (es.filterMap Event.message?).length := by
  induction es with
  | nil => rfl
  | cons e es ih =>
    cases e with
    | call c =>
      rw [List.filterMap_cons_some (Event.call?_call c), List.filterMap_cons_none (Event.message?_call c)]
      simp only [List.length_cons]
      omega
    | message m =>
      rw [List.filterMap_cons_none (Event.call?_message m),
        List.filterMap_cons_some (Event.message?_message m)]
      simp only [List.length_cons]
      omega

theorem length_entries_exits (cs : List CallEvent) :
    cs.length = cs.countP (·.kind = .entry) + cs.countP (·.kind = .exit) := by
  induction cs with
  | nil => rfl
  | cons c cs ih => cases hk : c.kind <;> simp [hk, ih] <;> omega

namespace EventCounts

/-- From `n` to `m` some events were counted that are no violations, and a number of violations. -/
structure Grown (n : EventCounts) (es : List Event) (violations : ℕ) (m : EventCounts) : Prop where
  entry : m.entry = n.entry + UInt64.ofNat ((es.filterMap Event.call?).countP (·.kind = .entry))
  exit : m.exit = n.exit + UInt64.ofNat ((es.filterMap Event.call?).countP (·.kind = .exit))
  /-- A message is counted by its kind, or as one without a call. -/
  messages : m.send + m.receive + m.orphan =
    n.send + n.receive + n.orphan + UInt64.ofNat (es.filterMap Event.message?).length
  violation : m.violation = n.violation + UInt64.ofNat violations

namespace Grown

variable {n m k : EventCounts} {es fs : List Event} {i j : ℕ}

theorem refl (n : EventCounts) : Grown n [] 0 n := by
  constructor <;> exact (UInt64.add_zero _).symm

theorem append (h : Grown n es i m) (h' : Grown m fs j k) : Grown n (es ++ fs) (i + j) k where
  entry := by rw [h'.entry, h.entry, List.filterMap_append, List.countP_append, UInt64.ofNat_add, UInt64.add_assoc]
  exit := by rw [h'.exit, h.exit, List.filterMap_append, List.countP_append, UInt64.ofNat_add, UInt64.add_assoc]
  messages := by
    rw [h'.messages, h.messages, List.filterMap_append, List.length_append, UInt64.ofNat_add, UInt64.add_assoc]
  violation := by rw [h'.violation, h.violation, UInt64.ofNat_add, UInt64.add_assoc]

theorem total (h : Grown n es i m) : m.total = n.total + UInt64.ofNat (es.length + i) := by
  have hlength := length_calls_messages es
  rw [length_entries_exits (es.filterMap Event.call?)] at hlength
  have hall : ∀ k : EventCounts,
      k.total = k.entry + k.exit + (k.send + k.receive + k.orphan) + k.violation := fun k => by
    simp only [EventCounts.total, EventClass.all, EventCounts.count, List.map_cons, List.map_nil,
      List.foldl_cons, List.foldl_nil, UInt64.zero_add, UInt64.add_assoc]
  rw [hall, hall, h.entry, h.exit, h.messages, h.violation, hlength]
  simp only [UInt64.ofNat_add]
  ac_rfl

theorem violated (n : EventCounts) : Grown n [] 1 (n.record .violation) where
  entry := (UInt64.add_zero _).symm
  exit := (UInt64.add_zero _).symm
  messages := (UInt64.add_zero _).symm
  violation := rfl

/-- An event that is accepted is counted once. -/
theorem accepted {s : CallStacks} {e : Event} {c : EventClass} (h : (s.apply e).2 = .ok c)
    (n : EventCounts) : Grown n [e] 0 (n.record c) := by
  cases e with
  | message m =>
    simp only [CallStacks.apply, Except.ok.injEq] at h
    subst h
    have hone : ∀ k : UInt64, k = k + UInt64.ofNat 0 := fun k => (UInt64.add_zero k).symm
    split_ifs <;> refine ⟨hone _, hone _, ?_, hone _⟩ <;> simp [record, UInt64.add_assoc] <;> ac_rfl
  | call e =>
    cases hcall : (s.call e).2 with
    | error v => simp [CallStacks.apply, hcall, Except.map] at h
    | ok u =>
      simp only [CallStacks.apply, hcall, Except.map, Except.ok.injEq] at h
      subst h
      have hnone : [Event.call e].filterMap Event.message? = [] :=
        List.filterMap_cons_none (Event.message?_call e)
      cases hk : e.kind <;>
        exact ⟨by simp [record, hk], by simp [record, hk], by simp [record, hnone], by simp [record]⟩

end Grown

end EventCounts

/-- What an exit reports that cannot close the innermost open call of its thread. -/
inductive Violation.Reports (x : CallEvent) : Option CallRecord → Violation → Prop where
  | emptyStack : Reports x none (.emptyStack x.thread x.function x.time)
  | functionMismatch {c : CallRecord} (hf : c.function ≠ x.function) :
    Reports x (some c) (.functionMismatch x.thread x.function x.time c.id c.function)
  | timeReversal {c : CallRecord} (hf : c.function = x.function) (ht : x.time < c.entry) :
    Reports x (some c) (.timeReversal x.thread x.function c.entry x.time)

namespace CallStacks

/-! ### The exit that fails -/

/-- The stacks without the innermost call `c` of a thread. -/
structure Loses (s : CallStacks) (t : Thread) (c : CallRecord) (s' : CallStacks) : Prop where
  functions : s'.functions = s.functions
  nextId : s'.nextId = s.nextId
  closed : s'.closed = s.closed
  depths : s'.depths = s.depths
  stack : s.stack t = c :: s'.stack t
  other : ∀ u, u ≠ t → s'.stack u = s.stack u
  records : s.records.Perm (c :: s'.records)

variable {s : CallStacks} {x : CallEvent} {v : Violation}

theorem loses_setStack {t : Thread} {c : CallRecord} {outer : List CallRecord}
    (hst : s.stack t = c :: outer) : s.Loses t c (s.setStack t outer) where
  functions := rfl
  nextId := rfl
  closed := rfl
  depths := rfl
  stack := by simpa using hst
  other u hu := by simp [hu]
  records := by
    obtain ⟨rest, hrec, hset⟩ := records_setStack s t
    rw [hst] at hrec
    exact hrec.trans ((hset outer).symm.cons c)

/-- An exit that fails tells why, and takes away the innermost open call of its thread if there is one. -/
theorem leave_error (h : (s.leave x).2 = .error v) :
    v.Reports x (s.stack x.thread).head? ∧ (s.stack x.thread = [] → (s.leave x).1 = s) ∧
      ∀ c outer, s.stack x.thread = c :: outer → s.Loses x.thread c (s.leave x).1 := by
  rcases leave_cases s x with ⟨hst, hs⟩ | ⟨c, outer, hst, hcases⟩
  · rw [hs] at h ⊢
    cases h
    rw [hst]
    exact ⟨.emptyStack, fun _ => rfl, fun c outer hcons => by cases hcons⟩
  · have hloses : ∀ d rest, c :: outer = d :: rest → s.Loses x.thread d (s.setStack x.thread outer) := by
      intro d rest hcons
      obtain ⟨rfl, -⟩ := List.cons.inj hcons
      exact loses_setStack hst
    rcases hcases with ⟨hf, hs⟩ | ⟨hf, ht, hs⟩ | ⟨-, -, hs⟩
    · rw [hs] at h ⊢
      cases h
      rw [hst]
      exact ⟨.functionMismatch hf, fun hnil => (by cases hnil), hloses⟩
    · rw [hs] at h ⊢
      cases h
      rw [hst]
      exact ⟨.timeReversal hf ht, fun hnil => (by cases hnil), hloses⟩
    · rw [hs] at h
      cases h

theorem call_exit (hk : x.kind = .exit) : (s.call x).1 = (s.leave x).1 := by
  rw [call, hk]

theorem call_error_iff (hk : x.kind = .exit) : (s.call x).2 = .error v ↔ (s.leave x).2 = .error v := by
  rw [call, hk]
  cases (s.leave x).2 <;> simp [Except.map]

/-- Only exits fail. -/
theorem exit_of_apply_error {e : Event} (h : (s.apply e).2 = .error v) :
    ∃ x, e = .call x ∧ x.kind = .exit ∧ (s.apply e).1 = (s.call x).1 ∧ (s.call x).2 = .error v := by
  cases e with
  | message m => cases h
  | call x =>
    cases hcall : (s.call x).2 with
    | ok u => simp [apply, hcall, Except.map] at h
    | error w =>
      obtain rfl : w = v := by simpa [apply, hcall, Except.map] using h
      cases hk : x.kind with
      | entry => simp [call, hk] at hcall
      | exit => exact ⟨x, rfl, hk, rfl, hcall⟩

/-- Events are applied to the end, or up to the first one that fails. -/
theorem applyAll_cases (s : CallStacks) (n : EventCounts) (i : ℕ) (es : List Event) :
    s.Accepts es ∧ (∃ m, s.applyAll n i es = ((s.run es).1, m, .ok ()) ∧ n.Grown es 0 m) ∨
    ∃ before e after v, es = before ++ e :: after ∧ s.Accepts before ∧
      ((s.run before).1.apply e).2 = .error v ∧
      ∃ m, s.applyAll n i es = (((s.run before).1.apply e).1, m, .error ⟨i + before.length, v⟩) ∧
        n.Grown before 1 m := by
  induction es generalizing s n i with
  | nil => exact .inl ⟨trivial, n, rfl, .refl n⟩
  | cons e es ih =>
    have hone : ∀ fs, (s.run (e :: fs)).1 = ((s.apply e).1.run fs).1 := fun fs => by
      rw [run_cons, perform_operation]
    cases ha : (s.apply e).2 with
    | error v =>
      have hstep : s.apply e = ((s.apply e).1, .error v) := Prod.ext rfl ha
      refine .inr ⟨[], e, es, v, rfl, trivial, ha, n.record .violation, ?_, .violated n⟩
      rw [applyAll, hstep]
      rfl
    | ok c =>
      have hstep : s.apply e = ((s.apply e).1, .ok c) := Prod.ext rfl ha
      have hok : (s.apply e).2.isOk := by rw [ha]; rfl
      have hgrown := EventCounts.Grown.accepted ha n
      have happly : s.applyAll n i (e :: es) = (s.apply e).1.applyAll (n.record c) (i + 1) es := by
        rw [applyAll, hstep]
      rw [happly]
      rcases ih (s.apply e).1 (n.record c) (i + 1) with
        ⟨hacc, m, hrest, hm⟩ | ⟨before, d, after, v, rfl, hacc, hd, m, hrest, hm⟩
      · exact .inl ⟨⟨hok, hacc⟩, m, by rw [hrest, hone], by simpa using hgrown.append hm⟩
      · refine .inr ⟨e :: before, d, after, v, rfl, ⟨hok, hacc⟩, by rw [hone]; exact hd, m, ?_, ?_⟩
        · rw [hrest, hone, List.length_cons, Nat.add_assoc, Nat.add_comm 1]
        · simpa using hgrown.append hm

end CallStacks

namespace CallArena

/-! ### The arena -/

/-- The arena without the innermost call of a thread, under the number `id`. -/
structure Loses (a : CallArena) (t : Thread) (id : UInt64) (a' : CallArena) : Prop where
  functions : a'.functions = a.functions
  nextId : a'.nextId = a.nextId
  closed : a'.closed = a.closed
  depths : a'.depths = a.depths
  stack : a.stack t = id :: a'.stack t
  other : ∀ u, u ≠ t → a'.stack u = a.stack u
  removed : a'.arena.get? id = none
  kept : ∀ other, other ≠ id → a'.arena.get? other = a.arena.get? other

variable {n : ℕ} {a : CallArena} {s : CallStacks} {x : CallEvent} {v : Violation}

theorem call_exit (a : CallArena) (hk : x.kind = .exit) : (a.call x).1 = (a.leave x).1 := by
  simp only [CallArena.call, hk]

theorem Agrees.leave_error (h : Agrees n a s) (he : (a.leave x).2 = .error v) :
    (a.stack x.thread = [] → (a.leave x).1 = a) ∧
      ∀ id outer, a.stack x.thread = id :: outer → a.Loses x.thread id (a.leave x).1 := by
  refine ⟨fun hst => by simp [CallArena.leave, hst], fun id outer hst => ?_⟩
  -- a stacked number has a record, so the exit fails for what the record says
  obtain ⟨c, hget⟩ : ∃ c, a.arena.get? id = some c := by
    obtain ⟨c, rest, hs⟩ : ∃ c rest, s.stack x.thread = c :: rest := by
      refine List.exists_cons_of_ne_nil fun hnil => ?_
      rw [h.stack, hnil] at hst
      cases hst
    obtain ⟨rfl, -⟩ := List.cons.inj ((h.stack_top hs).symm.trans hst)
    exact ⟨c, h.get?_top hs⟩
  have hleave : (a.leave x).1 = { a.setStack x.thread outer with arena := a.arena.erase id } := by
    simp only [CallArena.leave, hst, CallArena.setStack, hget] at he ⊢
    split_ifs at he ⊢
    · rfl
    · rfl
  rw [hleave]
  refine ⟨rfl, rfl, rfl, rfl, ?_, fun u hu => ?_, Keyed.get?_erase_self _ _,
    fun other hother => Keyed.get?_erase_ne _ hother⟩
  · rw [hst]
    simp [CallArena.stack, CallArena.setStack, Keyed.get?_insert]
  · simp [CallArena.stack, CallArena.setStack, Keyed.get?_insert, hu]

/-- Events one by one, with the numbers that their entries take. -/
theorem Agrees.events (h : Agrees n a s) (es : List Event)
    (hn : n + (es.map Event.entries).sum < UInt64.size) :
    Agrees (n + (es.map Event.entries).sum) (a.performAll (es.map Event.operation)).1 (s.run es).1 := by
  have hentries : ∀ (b : CallArena) (es : List Event), Operation.allEntries (es.map Event.operation)
      (b.performAll (es.map Event.operation)).2 = (es.map Event.entries).sum := by
    intro b es
    induction es generalizing b with
    | nil => rfl
    | cons e es ih =>
      cases e with
      | call x => exact congrArg (Event.entries (.call x) + ·) (ih _)
      | message x => exact congrArg (Event.entries (.message x) + ·) (ih _)
  have hrun := (Agrees.performAll (es.map Event.operation) h (by rwa [hentries])).1
  rwa [hentries] at hrun

/-- No more calls are opened than there are entries. -/
theorem sum_applied_le (i : ℕ) (es : List Event) (outcome : Except IngestError Unit) :
    ((Event.applied i es outcome).map Event.entries).sum ≤ (es.map Event.entries).sum := by
  cases outcome with
  | ok u => exact Nat.le_refl _
  | error e =>
    have hall := congrArg (fun es => (es.map Event.entries).sum) (List.take_append_drop (e.index - i) es)
    simp only [List.map_append, List.sum_append] at hall
    simp only [Event.applied]
    omega

theorem Agrees.ingest (h : Agrees n a s) (m : EventCounts) (f : Frame)
    (hn : n + f.calls.countP (·.kind = .entry) < UInt64.size) :
    (∃ k, Agrees k (a.ingest m f).1 (s.ingest m f).1) ∧ (a.ingest m f).2 = (s.ingest m f).2 := by
  have hle := sum_applied_le 0 f.ordered (a.applyAll m 0 f.ordered).2.2
  rw [sum_entries f.ordered, Frame.calls_ordered] at hle
  have hingest := Agrees.applyAll m 0 f.ordered h (by omega)
  exact ⟨⟨_, hingest.1⟩, hingest.2⟩

end CallArena

/-! ### Frames -/

theorem Frame.length_ordered (f : Frame) : f.ordered.length = f.size := by
  rw [(processingOrder_ordered f).perm.length_eq, List.length_append, List.length_map, List.length_map]
  rfl

theorem Frame.length_messages_ordered (f : Frame) :
    (f.ordered.filterMap Event.message?).length = f.messages.length := by
  have hall := length_calls_messages f.ordered
  rw [f.length_ordered, Frame.calls_ordered, Frame.size] at hall
  omega

/-- Every event of a frame is counted once by its class, and nothing else. -/
structure EventCounts.CountsFrame (n : EventCounts) (f : Frame) (m : EventCounts) : Prop where
  entry : m.entry = n.entry + UInt64.ofNat (f.calls.countP (·.kind = .entry))
  exit : m.exit = n.exit + UInt64.ofNat (f.calls.countP (·.kind = .exit))
  messages : m.send + m.receive + m.orphan = n.send + n.receive + n.orphan + UInt64.ofNat f.messages.length
  violation : m.violation = n.violation
  total : m.total = n.total + UInt64.ofNat f.size

theorem EventCounts.Grown.countsFrame {n m : EventCounts} {f : Frame} (h : n.Grown f.ordered 0 m) :
    n.CountsFrame f m where
  entry := by rw [h.entry, Frame.calls_ordered]
  exit := by rw [h.exit, Frame.calls_ordered]
  messages := by rw [h.messages, f.length_messages_ordered]
  violation := h.violation.trans (UInt64.add_zero _)
  total := by rw [h.total, f.length_ordered, Nat.add_zero]

/-- The events `before` are applied one by one, then the exit `x` fails with `v` and leaves `s'` behind. -/
structure CallStacks.StopsAt (s : CallStacks) (before : List Event) (x : CallEvent) (v : Violation)
    (s' : CallStacks) : Prop where
  accepted : s.Accepts before
  kind : x.kind = .exit
  outcome : ((s.run before).1.call x).2 = .error v
  state : s' = ((s.run before).1.call x).1
  reports : v.Reports x ((s.run before).1.stack x.thread).head?
  /-- Without an open call nothing changes. -/
  unchanged : (s.run before).1.stack x.thread = [] → s' = (s.run before).1
  loses : ∀ c outer, (s.run before).1.stack x.thread = c :: outer → (s.run before).1.Loses x.thread c s'

/-- The same of the arena. -/
structure CallArena.StopsAt (a : CallArena) (before : List Event) (x : CallEvent) (v : Violation)
    (a' : CallArena) : Prop where
  outcome : ((a.performAll (before.map Event.operation)).1.call x).2 = .error v
  state : a' = ((a.performAll (before.map Event.operation)).1.call x).1
  unchanged : (a.performAll (before.map Event.operation)).1.stack x.thread = [] →
    a' = (a.performAll (before.map Event.operation)).1
  loses : ∀ id outer, (a.performAll (before.map Event.operation)).1.stack x.thread = id :: outer →
    (a.performAll (before.map Event.operation)).1.Loses x.thread id a'

namespace CallStacks

/-- A frame is applied as a whole, or up to its first exit that fails. -/
theorem ingest_cases (s : CallStacks) (n : EventCounts) (f : Frame) :
    ((s.ingest n f).2.2 = .ok () ∧ s.Accepts f.ordered ∧ (s.ingest n f).1 = (s.run f.ordered).1 ∧
      n.Grown f.ordered 0 (s.ingest n f).2.1) ∨
    ∃ before x after v, f.ordered = before ++ .call x :: after ∧
      (s.ingest n f).2.2 = .error ⟨before.length, v⟩ ∧ s.StopsAt before x v (s.ingest n f).1 ∧
      n.Grown before 1 (s.ingest n f).2.1 := by
  rcases applyAll_cases s n 0 f.ordered with
    ⟨hacc, m, hall, hm⟩ | ⟨before, e, after, v, hsplit, hacc, he, m, hall, hm⟩
  · refine .inl ?_
    rw [ingest, hall]
    exact ⟨rfl, hacc, rfl, hm⟩
  · obtain ⟨x, rfl, hk, hstate, herror⟩ := exit_of_apply_error he
    obtain ⟨hreports, hempty, hloses⟩ := leave_error ((call_error_iff hk).1 herror)
    rw [← call_exit hk] at hempty hloses
    refine .inr ⟨before, x, after, v, hsplit, ?_⟩
    rw [ingest, hall, Nat.zero_add, hstate]
    exact ⟨rfl, ⟨hacc, hk, herror, rfl, hreports, hempty, hloses⟩, hm⟩

end CallStacks

namespace CallArena

variable {n : ℕ} {a : CallArena} {s : CallStacks} {f : Frame} {before after : List Event} {x : CallEvent}
  {v : Violation}

/-- A frame that is applied as a whole. -/
theorem Agrees.ingest_whole (h : Agrees n a s) (m : EventCounts)
    (hn : n + f.calls.countP (·.kind = .entry) < UInt64.size)
    (hs : (s.ingest m f).1 = (s.run f.ordered).1) :
    (a.ingest m f).1 = (a.performAll (f.ordered.map Event.operation)).1 := by
  obtain ⟨⟨k, hingest⟩, -⟩ := h.ingest m f hn
  rw [hs] at hingest
  exact hingest.unique (h.events f.ordered (by rwa [sum_entries, Frame.calls_ordered]))

/-- A frame whose application stops at an exit. -/
theorem Agrees.stopsAt (h : Agrees n a s) (m : EventCounts)
    (hn : n + f.calls.countP (·.kind = .entry) < UInt64.size)
    (hsplit : f.ordered = before ++ .call x :: after) (hs : s.StopsAt before x v (s.ingest m f).1) :
    a.StopsAt before x v (a.ingest m f).1 := by
  have hfew : n + (before.map Event.entries).sum < UInt64.size := by
    rw [← Frame.calls_ordered, ← sum_entries, hsplit, List.map_append, List.sum_append] at hn
    omega
  have hbefore := h.events before hfew
  obtain ⟨hcall, hreply⟩ := hbefore.call x (by simpa [Event.entries, hs.kind] using hfew)
  obtain ⟨⟨k, hingest⟩, -⟩ := h.ingest m f hn
  rw [hs.state] at hingest
  have herror := (CallStacks.call_error_iff hs.kind).1 hs.outcome
  rw [← (hbefore.leave x).2] at herror
  obtain ⟨hempty, hloses⟩ := hbefore.leave_error herror
  rw [hingest.unique hcall]
  rw [← call_exit _ hs.kind] at hempty hloses
  exact ⟨hreply.trans hs.outcome, rfl, hempty, hloses⟩

end CallArena

namespace CallStacks

/-- A frame is applied as a whole, and each of its events is counted once by its class. Or its first exit
that fails is reported with its place: all events before it are applied, the exit takes away the innermost
open call of its thread, if there is one, and nothing else, and no later event is applied. -/
theorem ingest_outcome (names : FunctionTable) (ops : List Operation) (n : EventCounts) (f : Frame) :
    let s := (({ functions := names } : CallStacks).performAll ops).1
    let arena : CallArena := { functions := names }
    let a := (arena.performAll ops).1
    let few := Operation.allEntries ops (arena.performAll ops).2 +
      f.calls.countP (·.kind = .entry) < UInt64.size
    ((s.ingest n f).2.2 = .ok () → s.Accepts f.ordered ∧ (s.ingest n f).1 = (s.run f.ordered).1 ∧
      n.CountsFrame f (s.ingest n f).2.1 ∧
      (few → (a.ingest n f).1 = (a.performAll (f.ordered.map Event.operation)).1)) ∧
    (∀ e, (s.ingest n f).2.2 = .error e → ∃ before x after, f.ordered = before ++ .call x :: after ∧
      e.index = before.length ∧ s.StopsAt before x e.violation (s.ingest n f).1 ∧
      (s.ingest n f).2.1.violation = n.violation + 1 ∧
      (s.ingest n f).2.1.total = n.total + UInt64.ofNat (e.index + 1) ∧
      (few → a.StopsAt before x e.violation (a.ingest n f).1)) ∧
    (few → (a.ingest n f).2 = (s.ingest n f).2) := by
  intro s arena a few
  have hagrees : few → CallArena.Agrees (Operation.allEntries ops (arena.performAll ops).2) a s := fun hfew => by
    have hsome : Operation.allEntries ops (arena.performAll ops).2 < UInt64.size :=
      Nat.lt_of_le_of_lt (Nat.le_add_right _ _) hfew
    have hrun := (CallArena.Agrees.performAll ops (CallArena.Agrees.start names) (by rwa [Nat.zero_add])).1
    rwa [Nat.zero_add] at hrun
  refine ⟨fun hok => ?_, fun e he => ?_, fun hfew => ((hagrees hfew).ingest n f hfew).2⟩
  · rcases ingest_cases s n f with ⟨-, hacc, hstate, hm⟩ | ⟨before, x, after, v, -, herror, -⟩
    · exact ⟨hacc, hstate, hm.countsFrame, fun hfew => (hagrees hfew).ingest_whole n hfew hstate⟩
    · rw [herror] at hok
      cases hok
  · rcases ingest_cases s n f with ⟨hok, -⟩ | ⟨before, x, after, v, hsplit, herror, hstops, hm⟩
    · rw [hok] at he
      cases he
    · obtain rfl : ⟨before.length, v⟩ = e := Except.error.inj (herror.symm.trans he)
      exact ⟨before, x, after, hsplit, rfl, hstops, hm.violation, hm.total,
        fun hfew => (hagrees hfew).stopsAt n hfew hsplit hstops⟩

-- The second exit would fit the call that the first one has taken away, but is not applied.
example :
    let t : Thread := ⟨0, 0, 0⟩
    let run := ({} : CallStacks).ingest {}
      { step := 0, calls := [⟨t, .entry, 1, 10⟩, ⟨t, .exit, 2, 20⟩, ⟨t, .exit, 1, 30⟩] }
    run.2 = ({ entry := 1, violation := 1 }, .error ⟨1, .functionMismatch t 2 20 0 1⟩) ∧
      run.1.stack t = [] := by decide

end CallStacks

end TraceAnomaly
