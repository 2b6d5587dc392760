import TraceAnomaly.Proofs.CallStack.ArenaAgreement

/-! The representation invariant of the arena: the numbers on the stacks and in the index are
distinct, were given out before, and are exactly those of the records; records on a stack are open
and made by the ones below, records in the index are complete. It holds after every history that
opens fewer calls than there are numbers. -/

namespace TraceAnomaly

/-- The invariant of the stacks of records: they are well formed, and the numbers of all records are
distinct and were given out before. -/
structure CallStacks.Consistent (s : CallStacks) : Prop extends s.WellFormed where
  distinct : (s.records.map (·.id)).Nodup
  below : ∀ r ∈ s.records, r.id < s.nextId

namespace CallArena

variable (a : CallArena)

def stackIds : List UInt64 := a.running.values.flatten

def indexIds : List UInt64 := a.closed.values.flatten

def closedIds (f : UInt64) : List UInt64 := (a.closed.get? f).getD []

/-- The representation invariant. -/
structure Consistent : Prop where
  distinct : (a.stackIds ++ a.indexIds).Nodup
  below : ∀ id ∈ a.stackIds ++ a.indexIds, id < a.nextId
  present : ∀ id, id ∈ a.arena.keys ↔ id ∈ a.stackIds ++ a.indexIds
  /-- A stacked number names an open call, made by the one right below it. -/
  opened : ∀ t inner id outer, a.stack t = inner ++ id :: outer →
    ∃ r, a.arena.get? id = some r ∧ r.id = id ∧ r.Running t outer.head?
  /-- An indexed number names a completed call of its function. -/
  finished : ∀ f, ∀ id ∈ a.closedIds f, ∃ r, a.arena.get? id = some r ∧ r.id = id ∧ r.Finished f
  occupied : ∀ f, a.closed.get? f ≠ some []

namespace Agrees

variable {a} {n : ℕ} {s : CallStacks} (h : Agrees n a s)
include h

theorem stackIds : a.stackIds = s.running.values.flatten.map (·.id) := by
  simp [CallArena.stackIds, h.running, List.map_flatten]

theorem indexIds : a.indexIds = s.closed.values.flatten.map (·.id) := by
  simp [CallArena.indexIds, h.closed, List.map_flatten]

theorem allIds : a.stackIds ++ a.indexIds = s.records.map (·.id) := by
  rw [h.stackIds, h.indexIds, CallStacks.records, List.map_append]

theorem closedIds (f : UInt64) : a.closedIds f = (s.closedCalls f).map (·.id) := by
  rw [CallArena.closedIds, CallStacks.closedCalls, h.closed, Keyed.get?_mapValues]
  cases s.closed.get? f <;> rfl

theorem keys_perm : a.arena.keys.Perm (s.records.map (·.id)) := by
  simpa [Keyed.keys_eq, CallRecord.numbered, Function.comp_def] using h.arena.map Prod.fst

theorem get?_eq_some_iff {id : UInt64} {r : CallRecord} :
    a.arena.get? id = some r ↔ r ∈ s.records ∧ r.id = id := by
  rw [Keyed.get?_eq_some_iff, h.arena.mem_iff, List.mem_map]
  constructor
  · rintro ⟨r', hr', he⟩
    obtain ⟨rfl, rfl⟩ := Prod.mk.inj he
    exact ⟨hr', rfl⟩
  · rintro ⟨hr, rfl⟩
    exact ⟨r, hr, rfl⟩

theorem get?_of_mem_stack {t : Thread} {r : CallRecord} (hr : r ∈ s.stack t) :
    a.arena.get? r.id = some r :=
  h.get?_eq_some_iff.2 ⟨(CallStacks.mem_records_iff s).2 (.inl ⟨t, hr⟩), rfl⟩

theorem get?_of_mem_closedCalls {f : UInt64} {r : CallRecord} (hr : r ∈ s.closedCalls f) :
    a.arena.get? r.id = some r :=
  h.get?_eq_some_iff.2 ⟨(CallStacks.mem_records_iff s).2 (.inr ⟨f, hr⟩), rfl⟩

theorem consistent (hs : s.WellFormed) : a.Consistent where
  distinct := h.allIds ▸ h.keys_perm.nodup_iff.1 (Keyed.nodup_keys _)
  below id hid := by
    rw [h.allIds] at hid
    exact h.nextId ▸ h.below id hid
  present id := by rw [h.keys_perm.mem_iff, h.allIds]
  opened t inner id outer hst := by
    rw [h.stack] at hst
    obtain ⟨rs, rest, hrs, -, hcons⟩ := List.map_eq_append_iff.1 hst
    obtain ⟨r, rs', rfl, rfl, rfl⟩ := List.map_eq_cons_iff.1 hcons
    refine ⟨r, h.get?_of_mem_stack (t := t) (by rw [hrs]; simp), rfl, ?_⟩
    simpa using (hs.nested t).running hrs
  finished f id hid := by
    rw [h.closedIds] at hid
    obtain ⟨r, hr, rfl⟩ := List.mem_map.1 hid
    exact ⟨r, h.get?_of_mem_closedCalls hr, rfl, hs.finished f r hr⟩
  occupied f hf := by
    rw [h.closed, Keyed.get?_mapValues] at hf
    obtain ⟨calls, hcalls, hnil⟩ := Option.map_eq_some_iff.1 hf
    exact hs.occupied f (hcalls.trans (by rw [List.map_eq_nil_iff.1 hnil]))

theorem records_consistent (hs : s.WellFormed) : s.Consistent where
  toWellFormed := hs
  distinct := h.keys_perm.nodup_iff.1 (Keyed.nodup_keys _)
  below r hr := h.below r.id (List.mem_map_of_mem hr)

/-- No stacked number is missing from the arena, so the lists of open calls are the same. -/
theorem openCalls : a.openCalls = s.openCalls := by
  have hmap : (a.running.values.map List.reverse).flatten = s.openCalls.map (·.id) := by
    simp [CallStacks.openCalls, h.running, List.map_flatten, List.map_reverse, Function.comp_def]
  rw [CallArena.openCalls, hmap, List.filterMap_map]
  refine (List.filterMap_congr fun r hr => ?_).trans List.filterMap_some
  obtain ⟨t, ht⟩ := (CallStacks.mem_running_iff s).1 ((CallStacks.openCalls_perm s).mem_iff.1 hr)
  exact h.get?_of_mem_stack ht

theorem size : a.size = s.size := by
  simp [CallArena.size, CallStacks.size, h.running, Function.comp_def]

/-- An exit finds no record only if its thread has no open call. -/
theorem stack_of_emptyStack {e : CallEvent} {t : Thread} {f time : UInt64}
    (he : (a.leave e).2 = .error (.emptyStack t f time)) : a.stack e.thread = [] := by
  rw [(h.leave e).2] at he
  rw [h.stack]
  rcases CallStacks.leave_cases s e with ⟨hst, -⟩ | ⟨c, outer, -, ⟨-, hs⟩ | ⟨-, -, hs⟩ | ⟨-, -, hs⟩⟩
  · rw [hst]; rfl
  all_goals simp [hs] at he

/-- Once the frame is released, the records of the arena are those of the open calls. -/
theorem values_releaseFrame : a.releaseFrame.1.arena.values.Perm a.releaseFrame.1.openCalls := by
  have hr := h.releaseFrame.1
  rw [hr.openCalls, Keyed.values_eq]
  refine (hr.arena.map Prod.snd).trans ?_
  rw [List.map_map, show Prod.snd ∘ CallRecord.numbered = id from rfl, List.map_id,
    CallStacks.records_releaseFrame]
  exact (CallStacks.openCalls_perm s.releaseFrame).symm

end Agrees

/-- After every history with fewer entries than there are numbers the arena is consistent. It has as
many open calls as stacked numbers, an exit fails for want of a record only on an empty stack, and
releasing the frame leaves exactly the open calls. The stacks of records give the same replies, hold
the same records, and are consistent too. -/
theorem consistent_performAll (names : FunctionTable) (ops : List Operation)
    (hn : Operation.allEntries ops
      (({ functions := names } : CallArena).performAll ops).2 < UInt64.size) :
    let a := (({ functions := names } : CallArena).performAll ops).1
    let s := (({ functions := names } : CallStacks).performAll ops).1
    a.Consistent ∧
      a.openCalls.length = a.size ∧
      (∀ e t f time, (a.leave e).2 = .error (.emptyStack t f time) → a.stack e.thread = []) ∧
      a.releaseFrame.1.arena.values.Perm a.releaseFrame.1.openCalls ∧
      a.releaseFrame.1.openCalls = a.openCalls ∧
      (({ functions := names } : CallArena).performAll ops).2 =
        (({ functions := names } : CallStacks).performAll ops).2 ∧
      s.Consistent ∧ a.openCalls = s.openCalls ∧
      ∀ id r, a.arena.get? id = some r ↔ r ∈ s.records ∧ r.id = id := by
  obtain ⟨h, hreplies⟩ := Agrees.performAll ops (Agrees.start names) (by simpa using hn)
  have hs := CallStacks.wellFormed_kept.performAll ops (CallStacks.WellFormed.start names)
  refine ⟨h.consistent hs, ?_, fun e t f time he => h.stack_of_emptyStack he,
    h.values_releaseFrame, ?_, hreplies, h.records_consistent hs, h.openCalls,
    fun id r => h.get?_eq_some_iff⟩
  · rw [h.openCalls, h.size, CallStacks.size_eq_length]
  · rw [h.releaseFrame.1.openCalls, h.openCalls]
    rfl

/-- A call left too early, by an exit of the calling function, and one that completes. -/
theorem consistent_performAll_mismatch :
    let t : Thread := ⟨0, 0, 0⟩
    let ops : List Operation := [
      .enter ⟨t, .entry, 1, 10⟩, .enter ⟨t, .entry, 2, 20⟩, .leave ⟨t, .exit, 1, 30⟩,
      .ingest {} { step := 0, calls := [⟨t, .entry, 3, 40⟩, ⟨t, .exit, 3, 50⟩] },
      .setLabels 3 [.anomalous], .updateFunctions Keyed.empty]
    let run := ({} : CallArena).performAll ops
    Operation.allEntries ops run.2 = 3 ∧ run.1.Consistent ∧ run.1.stack t = [0] ∧
      run.1.closedIds 3 = [2] := by
  intro t ops run
  have hn : Operation.allEntries ops run.2 = 3 := by decide
  exact ⟨hn, (consistent_performAll Keyed.empty ops (by decide)).1, by decide, by decide⟩

end CallArena

end TraceAnomaly
