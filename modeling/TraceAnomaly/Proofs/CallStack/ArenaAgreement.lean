import TraceAnomaly.Proofs.CallStack.Arena
import TraceAnomaly.Proofs.CallStack.WellFormed

/-! Stacks of records and stacks of numbers into an arena are the same reconstruction as long as
numbers do not run out. The relation between their states is kept by every operation, and the
replies are equal. -/

namespace TraceAnomaly

def CallRecord.numbered (r : CallRecord) : UInt64 × CallRecord := (r.id, r)

namespace CallArena

open CallStacks (labelCalls adopt)

/-! ### Counting entries -/

theorem entries_of_apply_error {a a' : CallArena} {e : Event} {v : Violation}
    (h : a.apply e = (a', .error v)) : e.entries = 0 := by
  cases e with
  | message e => rfl
  | call e =>
    cases hk : e.kind with
    | entry => simp [apply, call, hk, Except.map] at h
    | exit => simp [Event.entries, hk]

theorem index_le_applyAll {a : CallArena} {n : EventCounts} {i : ℕ} {es : List Event} {error : IngestError}
    (h : (a.applyAll n i es).2.2 = .error error) : i ≤ error.index := by
  induction es generalizing a n i with
  | nil => cases h
  | cons e rest ih =>
    simp only [applyAll] at h
    split at h
    · cases h
      exact Nat.le_refl _
    · exact Nat.le_of_succ_le (ih h)

/-- Of an event that is accepted and the events behind it, it is applied and what is applied of the others. -/
theorem applied_cons (a : CallArena) (n : EventCounts) (i : ℕ) (e : Event) (rest : List Event) :
    Event.applied i (e :: rest) (a.applyAll n (i + 1) rest).2.2 =
      e :: Event.applied (i + 1) rest (a.applyAll n (i + 1) rest).2.2 := by
  cases ho : (a.applyAll n (i + 1) rest).2.2 with
  | ok u => rfl
  | error error =>
    have hplace : error.index - i = error.index - (i + 1) + 1 := by
      have := index_le_applyAll ho
      omega
    rw [Event.applied, hplace, List.take_succ_cons]
    rfl

/-! ### Several records at once -/

theorem relabel_perm {arena : Keyed UInt64 CallRecord} (cs : List CallRecord) (ls : List Label)
    {rest : List CallRecord} (h : arena.toList.Perm ((cs ++ rest).map CallRecord.numbered)) :
    (relabel arena (cs.map (·.id)) ls).toList.Perm
      ((labelCalls cs ls ++ rest).map CallRecord.numbered) := by
  fun_induction labelCalls cs ls generalizing arena rest with
  | case1 c cs l ls ih =>
    -- the record that is done joins the rest
    have hc : arena.toList.Perm ((c.id, c) :: (cs ++ rest).map CallRecord.numbered) := h
    have hc := Keyed.toList_modify (fun r : CallRecord => { r with label := l }) hc
    have hnext : (arena.modify c.id fun r => { r with label := l }).toList.Perm
        ((cs ++ { c with label := l } :: rest).map CallRecord.numbered) := by
      refine hc.trans ?_
      simpa [CallRecord.numbered] using List.perm_middle.symm
    refine (ih hnext).trans ?_
    simp [CallRecord.numbered]
  | case2 cs ls hne =>
    have hsame : relabel arena (cs.map (·.id)) ls = arena := by
      cases cs with
      | nil => rfl
      | cons c cs =>
        cases ls with
        | nil => rfl
        | cons l ls => exact absurd rfl (hne c cs l ls rfl)
    rwa [hsame]

theorem takeAll_perm {arena : Keyed UInt64 CallRecord} (cs : List CallRecord)
    {rest : List CallRecord} (h : arena.toList.Perm ((cs ++ rest).map CallRecord.numbered)) :
    (takeAll arena (cs.map (·.id))).1.toList.Perm (rest.map CallRecord.numbered) ∧
      (takeAll arena (cs.map (·.id))).2 = cs := by
  induction cs generalizing arena with
  | nil => exact ⟨by simpa [takeAll] using h, rfl⟩
  | cons c cs ih =>
    have hc : arena.toList.Perm ((c.id, c) :: (cs ++ rest).map CallRecord.numbered) := h
    obtain ⟨hrest, htaken⟩ := ih (Keyed.toList_erase hc)
    exact ⟨hrest, by simp [takeAll, Keyed.get?_of_perm hc, htaken]⟩

/-- The arena and the stacks of records hold the same calls, after `n` entries. -/
structure Agrees (n : ℕ) (a : CallArena) (s : CallStacks) : Prop where
  functions : a.functions = s.functions
  nextId : a.nextId = s.nextId
  depths : a.depths = s.depths
  running : a.running = s.running.mapValues (List.map (·.id))
  closed : a.closed = s.closed.mapValues (List.map (·.id))
  arena : a.arena.toList.Perm (s.records.map CallRecord.numbered)
  count : s.nextId.toNat = n
  below : ∀ id ∈ s.records.map (·.id), id < s.nextId

namespace Agrees

theorem start (names : FunctionTable) : Agrees 0 { functions := names } { functions := names } where
  functions := rfl
  nextId := rfl
  depths := rfl
  running := rfl
  closed := rfl
  arena := by simp [CallStacks.records]
  count := rfl
  below := by simp [CallStacks.records]

variable {n : ℕ} {a : CallArena} {s : CallStacks} (h : Agrees n a s)
include h

theorem stack (t : Thread) : a.stack t = (s.stack t).map (·.id) := by
  rw [CallArena.stack, CallStacks.stack, h.running, Keyed.get?_mapValues]
  cases s.running.get? t <;> rfl

omit h in
theorem setStack_self {t : Thread} {ids : List UInt64} (hs : a.stack t = ids) (hne : ids ≠ []) :
    a.setStack t ids = a := by
  have hget : a.running.get? t = some ids := by
    unfold CallArena.stack at hs
    cases hg : a.running.get? t <;> simp_all
  rw [CallArena.setStack, Keyed.insert_of_get? hget]

theorem running_setStack (t : Thread) (calls : List CallRecord) :
    (a.setStack t (calls.map (·.id))).running =
      (s.setStack t calls).running.mapValues (List.map (·.id)) := by
  simp only [setStack, CallStacks.setStack, h.running, Keyed.mapValues_insert]

theorem get?_unused : a.arena.get? s.nextId = none := by
  cases hg : a.arena.get? s.nextId with
  | none => rfl
  | some r =>
    have hm := h.arena.mem_iff.1 (Keyed.get?_eq_some_iff.1 hg)
    obtain ⟨r', hr', he⟩ := List.mem_map.1 hm
    have hlt := h.below _ (List.mem_map_of_mem hr')
    rw [show r'.id = s.nextId from congrArg Prod.fst he] at hlt
    exact absurd hlt (UInt64.lt_irrefl _)

/-- Replacing the stack of one thread. -/
theorem setStack (t : Thread) {calls : List CallRecord} {arena : Keyed UInt64 CallRecord}
    (harena : arena.toList.Perm ((s.setStack t calls).records.map CallRecord.numbered))
    (hbelow : ∀ id ∈ (s.setStack t calls).records.map (·.id), id < s.nextId) :
    Agrees n { a.setStack t (calls.map (·.id)) with arena := arena } (s.setStack t calls) where
  functions := h.functions
  nextId := h.nextId
  depths := h.depths
  running := h.running_setStack t calls
  closed := h.closed
  arena := harena
  count := h.count
  below := hbelow

/-- Putting back a record that has left the arena, as a closed call. -/
theorem settle {c : CallRecord} (d : ℕ) (hc : c.id < s.nextId) (hg : a.arena.get? c.id = none) :
    Agrees n (a.settle c.id c d) (s.settle c d) where
  functions := h.functions
  nextId := h.nextId
  depths := by simp [CallArena.settle, CallStacks.settle, h.depths]
  running := h.running
  closed := by
    simp only [CallArena.settle, CallStacks.settle, h.closed]
    refine (Keyed.mapValues_alter _ _ _ _ _ ?_).symm
    cases s.closed.get? c.function <;> simp
  arena := (Keyed.toList_insert_new c hg).trans
    ((h.arena.cons _).trans ((CallStacks.records_settle s c d).symm.map CallRecord.numbered))
  count := h.count
  below := fun id hid => by
    have hm := ((CallStacks.records_settle s c d).map (·.id)).mem_iff.1 hid
    rcases List.mem_cons.1 hm with rfl | hm
    · exact hc
    · exact h.below id hm

omit h in
/-- The stacks of records determine the arena. -/
theorem unique {m : ℕ} {b : CallArena} (ha : Agrees m a s) (hb : Agrees n b s) : a = b := by
  have harena : a.arena = b.arena :=
    (Keyed.ofList_of_perm ha.arena.symm).symm.trans (Keyed.ofList_of_perm hb.arena.symm)
  have hfunctions := ha.functions.trans hb.functions.symm
  have hnextId := ha.nextId.trans hb.nextId.symm
  have hdepths := ha.depths.trans hb.depths.symm
  have hrunning := ha.running.trans hb.running.symm
  have hclosed := ha.closed.trans hb.closed.symm
  cases a
  cases b
  simp_all

/-! ### Entries -/

theorem nextId_succ (hn : n + 1 < UInt64.size) : (s.nextId + 1).toNat = n + 1 := by
  rw [UInt64.toNat_add, h.count]
  exact Nat.mod_eq_of_lt hn

/-- The caller's record is changed in place, then the new record is added. -/
theorem arena_enter (e : CallEvent) :
    (a.enter e).1.arena.toList.Perm ((s.enter e).1.records.map CallRecord.numbered) := by
  obtain ⟨rest, hrec, hset⟩ := CallStacks.records_setStack s e.thread
  set call := CallRecord.opened s.nextId (s.functions.name e.function) e
    ((s.stack e.thread).head?.map (·.id)) with hcall
  have hold := h.arena.trans (hrec.map CallRecord.numbered)
  have hnew : ∀ {m : Keyed UInt64 CallRecord},
      m.toList.Perm ((adopt s.nextId (s.stack e.thread) ++ rest).map CallRecord.numbered) →
      m.get? s.nextId = none →
      (m.insert s.nextId call).toList.Perm ((s.enter e).1.records.map CallRecord.numbered) :=
    fun hm hu => (Keyed.toList_insert_new call hu).trans ((hm.cons _).trans
      ((hset (call :: adopt s.nextId (s.stack e.thread))).symm.map CallRecord.numbered))
  have hhead : (a.stack e.thread).head? = (s.stack e.thread).head?.map (·.id) := by
    rw [h.stack]
    simp
  simp only [CallArena.enter, hhead, h.nextId, h.functions, ← hcall]
  cases hst : s.stack e.thread with
  | nil =>
    rw [hst] at hold hnew hcall
    exact hnew hold h.get?_unused
  | cons p outer =>
    rw [hst] at hold hnew hcall
    have hne : s.nextId ≠ p.id := fun he => by
      have hlt := h.below p.id ((hrec.map (·.id)).mem_iff.2 (by simp [hst]))
      exact absurd (he ▸ hlt) (UInt64.lt_irrefl _)
    have hcaller := Keyed.toList_modify (·.addChild s.nextId) hold
    exact hnew hcaller ((Keyed.get?_modify_ne _ _ hne).trans h.get?_unused)

theorem enter (e : CallEvent) (hn : n + 1 < UInt64.size) :
    Agrees (n + 1) (a.enter e).1 (s.enter e).1 ∧ (a.enter e).2 = (s.enter e).2 := by
  have hnext := h.nextId_succ hn
  refine ⟨⟨h.functions, ?_, h.depths, ?_, h.closed, h.arena_enter e, hnext, fun id hid => ?_⟩, h.nextId⟩
  · simp [CallArena.enter, CallStacks.enter, h.nextId]
  · have hrunning := h.running_setStack e.thread (.opened s.nextId (s.functions.name e.function) e
      ((s.stack e.thread).head?.map (·.id)) :: adopt s.nextId (s.stack e.thread))
    simpa [CallArena.enter, CallStacks.enter, CallArena.setStack, h.stack, h.nextId,
      CallStacks.map_id_adopt, CallRecord.opened] using hrunning
  · have hlt : s.nextId < s.nextId + 1 := UInt64.lt_iff_toNat_lt.2 (by rw [hnext, h.count]; omega)
    rcases List.mem_cons.1 ((CallStacks.ids_enter s e).mem_iff.1 hid) with rfl | hid
    · exact hlt
    · exact UInt64.lt_trans (h.below id hid) hlt

/-! ### The top of a stack -/

section Top

variable {t : Thread} {c : CallRecord} {outer : List CallRecord} (hst : s.stack t = c :: outer)
include hst

theorem stack_top : a.stack t = c.id :: outer.map (·.id) := by
  rw [h.stack, hst]
  rfl

theorem get?_top : a.arena.get? c.id = some c := by
  obtain ⟨rest, hrec, -⟩ := CallStacks.records_setStack s t
  rw [hst] at hrec
  exact Keyed.get?_of_perm (h.arena.trans (hrec.map CallRecord.numbered))

theorem top_below : c.id < s.nextId := by
  obtain ⟨rest, hrec, -⟩ := CallStacks.records_setStack s t
  exact h.below _ ((hrec.map (·.id)).mem_iff.2 (by simp [hst]))

/-- The top call has left the stack and the arena. -/
theorem pop : Agrees n { a.setStack t (outer.map (·.id)) with arena := a.arena.erase c.id }
    (s.setStack t outer) := by
  obtain ⟨rest, hrec, hset⟩ := CallStacks.records_setStack s t
  rw [hst] at hrec
  have hold : a.arena.toList.Perm ((c.id, c) :: (outer ++ rest).map CallRecord.numbered) :=
    h.arena.trans (hrec.map _)
  refine h.setStack t ((Keyed.toList_erase hold).trans ((hset outer).map _).symm) fun id hid => ?_
  have hmem := ((hset outer).map (·.id)).mem_iff.1 hid
  exact h.below id ((hrec.map (·.id)).mem_iff.2 (List.mem_cons_of_mem _ hmem))

/-- The top call is replaced by one with the same number. -/
theorem replace {c' : CallRecord} (hid : c'.id = c.id) :
    Agrees n { a with arena := a.arena.insert c.id c' } (s.setStack t (c' :: outer)) := by
  obtain ⟨rest, hrec, hset⟩ := CallStacks.records_setStack s t
  rw [hst] at hrec
  have hold : a.arena.toList.Perm ((c.id, c) :: (outer ++ rest).map CallRecord.numbered) :=
    h.arena.trans (hrec.map _)
  have hids : ((s.setStack t (c' :: outer)).records.map (·.id)).Perm (s.records.map (·.id)) := by
    refine ((hset (c' :: outer)).map _).trans (.trans (.of_eq ?_) (hrec.map (·.id)).symm)
    simp [hid]
  have hlist : (a.arena.insert c.id c').toList.Perm ((c' :: outer ++ rest).map CallRecord.numbered) := by
    simpa [CallRecord.numbered, hid] using Keyed.toList_insert_old c' hold
  have hsame : a.setStack t ((c' :: outer).map (·.id)) = a :=
    setStack_self (by rw [h.stack_top hst, List.map_cons, hid]) (by simp)
  have hput := h.setStack t (hlist.trans ((hset (c' :: outer)).map _).symm) fun id hmem =>
    h.below id (hids.mem_iff.1 hmem)
  rwa [hsame] at hput

end Top

theorem leave (e : CallEvent) :
    Agrees n (a.leave e).1 (s.leave e).1 ∧ (a.leave e).2 = (s.leave e).2 := by
  rcases CallStacks.leave_cases s e with ⟨hst, hs⟩ | ⟨c, outer, hst, hs⟩
  · have ha : a.leave e = (a, .error (.emptyStack e.thread e.function e.time)) := by
      simp [CallArena.leave, h.stack, hst]
    rw [ha, hs]
    exact ⟨h, rfl⟩
  · have hstack := h.stack_top hst
    have hget := h.get?_top hst
    have hpop := h.pop hst
    have hbelow := h.top_below hst
    rcases hs with ⟨hf, hs⟩ | ⟨hf, ht, hs⟩ | ⟨hf, ht, hs⟩
    · have ha : a.leave e = ({ a.setStack e.thread (outer.map (·.id)) with
          arena := a.arena.erase c.id },
          .error (.functionMismatch e.thread e.function e.time c.id c.function)) := by
        simp [CallArena.leave, hstack, CallArena.setStack, hget, hf]
      rw [ha, hs]
      exact ⟨hpop, rfl⟩
    · have ha : a.leave e = ({ a.setStack e.thread (outer.map (·.id)) with
          arena := a.arena.erase c.id },
          .error (.timeReversal e.thread e.function c.entry e.time)) := by
        simp [CallArena.leave, hstack, CallArena.setStack, hget, hf, ht]
      rw [ha, hs]
      exact ⟨hpop, rfl⟩
    · have ha : a.leave e = (({ a.setStack e.thread (outer.map (·.id)) with
          arena := a.arena.erase c.id } : CallArena).settle c.id (c.close e.time) outer.length,
          .ok c.id) := by
        simp [CallArena.leave, hstack, CallArena.setStack, hget, hf, UInt64.not_lt.2 ht]
      rw [ha, hs]
      exact ⟨hpop.settle (c := c.close e.time) outer.length hbelow (Keyed.get?_erase_self _ _), rfl⟩

theorem attach (e : MessageEvent) :
    Agrees n (a.attach e).1 (s.attach e).1 ∧ (a.attach e).2 = (s.attach e).2 := by
  rcases CallStacks.attach_cases s e with ⟨hst, hs⟩ | ⟨c, outer, hst, hs⟩
  · have ha : a.attach e = (a, false) := by simp [CallArena.attach, h.stack, hst]
    rw [ha, hs]
    exact ⟨h, rfl⟩
  · have ha : a.attach e =
        ({ a with arena := a.arena.insert c.id (c.addMessage (.ofEvent e)) }, true) := by
      simp [CallArena.attach, h.stack_top hst, h.get?_top hst]
    rw [ha, hs]
    exact ⟨h.replace hst rfl, rfl⟩

theorem setLabels (f : UInt64) (ls : List Label) :
    Agrees n (a.setLabels f ls) (s.setLabels f ls) := by
  obtain ⟨rest, hrec, hset⟩ := CallStacks.records_setLabels s f ls
  have hclosed : a.closed.get? f = (s.closed.get? f).map (List.map (·.id)) := by
    rw [h.closed, Keyed.get?_mapValues]
  unfold CallArena.setLabels CallStacks.setLabels
  cases hg : s.closed.get? f with
  | none =>
    rw [hclosed, hg]
    exact h
  | some calls =>
    simp only [hclosed, hg, Option.map_some]
    simp only [CallStacks.closedCalls, CallStacks.setLabels, hg, Option.getD_some] at hrec hset
    have hids := (hset.map (·.id)).trans ((hrec.map (·.id)).trans (by simp [CallStacks.map_id_labelCalls])).symm
    refine ⟨h.functions, h.nextId, h.depths, h.running, ?_, ?_, h.count, fun id hid => ?_⟩
    · rw [h.closed]
      refine Keyed.ext_get? fun g => ?_
      simp only [Keyed.get?_mapValues, Keyed.get?_insert]
      split
      · rename_i hgf
        simp [hgf, hg, CallStacks.map_id_labelCalls]
      · rfl
    · exact (relabel_perm calls ls (h.arena.trans (hrec.map _))).trans (hset.map _).symm
    · refine h.below id (hids.mem_iff.1 ?_)
      exact hid

theorem releaseFrame :
    Agrees n a.releaseFrame.1 s.releaseFrame ∧ a.releaseFrame.2 = s.frameCalls := by
  have hids : a.closed.values.flatten = s.closed.values.flatten.map (·.id) := by
    simp [h.closed, List.map_flatten]
  have htaken := takeAll_perm s.closed.values.flatten
    (h.arena.trans (List.perm_append_comm.map CallRecord.numbered))
  refine ⟨⟨h.functions, h.nextId, h.depths, h.running, rfl, ?_, h.count, fun id hid => ?_⟩, ?_⟩
  · rw [CallStacks.records_releaseFrame, CallArena.releaseFrame, hids]
    exact htaken.1
  · rw [CallStacks.records_releaseFrame] at hid
    exact h.below id (by simp only [CallStacks.records, List.map_append, List.mem_append]; exact .inl hid)
  · rw [CallArena.releaseFrame, hids]
    exact htaken.2

theorem beginFrame : Agrees n a.beginFrame s.beginFrame := by
  unfold CallArena.beginFrame
  split
  · rename_i hempty
    -- nothing is closed, so there is nothing to forget either
    have ha := (Keyed.isEmpty_iff _).1 hempty
    have hs : s.closed = Keyed.empty := by
      refine Keyed.ext_get? fun f => ?_
      have := congrArg (Keyed.get? · f) (h.closed.symm.trans ha)
      simpa using this
    rw [show s.beginFrame = s by simp [CallStacks.beginFrame, CallStacks.releaseFrame, ← hs]]
    exact h
  · exact h.releaseFrame.1

theorem updateFunctions (names : FunctionTable) :
    Agrees n (a.updateFunctions names) (s.updateFunctions names) where
  functions := by simp [CallArena.updateFunctions, CallStacks.updateFunctions, h.functions]
  nextId := h.nextId
  depths := h.depths
  running := h.running
  closed := h.closed
  arena := h.arena
  count := h.count
  below := h.below

/-! ### Events, frames and histories -/

theorem call (e : CallEvent) (hn : n + (Event.call e).entries < UInt64.size) :
    Agrees (n + (Event.call e).entries) (a.call e).1 (s.call e).1 ∧ (a.call e).2 = (s.call e).2 := by
  unfold CallArena.call CallStacks.call
  cases hk : e.kind with
  | entry =>
    simp only [Event.entries, hk, if_true] at hn ⊢
    exact ⟨(h.enter e hn).1, trivial⟩
  | exit =>
    have := h.leave e
    simp only [Event.entries, hk, reduceCtorEq, if_false]
    exact ⟨this.1, by rw [this.2]⟩

theorem apply (e : Event) (hn : n + e.entries < UInt64.size) :
    Agrees (n + e.entries) (a.apply e).1 (s.apply e).1 ∧ (a.apply e).2 = (s.apply e).2 := by
  cases e with
  | call e =>
    have := h.call e hn
    exact ⟨this.1, by simp only [CallArena.apply, CallStacks.apply, this.2]⟩
  | message e =>
    have := h.attach e
    exact ⟨this.1, by simp only [CallArena.apply, CallStacks.apply, this.2]⟩

omit h in
theorem applyAll (m : EventCounts) (i : ℕ) (es : List Event) (h : Agrees n a s)
    (hn : n + ((Event.applied i es (a.applyAll m i es).2.2).map Event.entries).sum < UInt64.size) :
    Agrees (n + ((Event.applied i es (a.applyAll m i es).2.2).map Event.entries).sum) (a.applyAll m i es).1
        (s.applyAll m i es).1 ∧
      (a.applyAll m i es).2 = (s.applyAll m i es).2 := by
  induction es generalizing n a s m i with
  | nil => exact ⟨h, rfl⟩
  | cons e rest ih =>
    cases ha : a.apply e with
    | mk a' o =>
      cases o with
      | error v =>
        have hnone : Event.applied i (e :: rest) (.error ⟨i, v⟩) = [] := by
          rw [Event.applied, Nat.sub_self, List.take_zero]
        have he := entries_of_apply_error ha
        simp only [CallArena.applyAll, ha, hnone] at hn ⊢
        have hstep := h.apply e (by rwa [he])
        rw [ha, he] at hstep
        have hs : s.apply e = ((s.apply e).1, .error v) := Prod.ext rfl hstep.2.symm
        rw [CallStacks.applyAll, hs]
        exact ⟨hstep.1, rfl⟩
      | ok c =>
        simp only [CallArena.applyAll, ha, applied_cons, List.map_cons, List.sum_cons, ← Nat.add_assoc] at hn ⊢
        have hstep := h.apply e (by omega)
        rw [ha] at hstep
        have hs : s.apply e = ((s.apply e).1, .ok c) := Prod.ext rfl hstep.2.symm
        rw [CallStacks.applyAll, hs]
        exact ih (m.record c) (i + 1) hstep.1 hn

theorem perform (op : Operation) (hn : n + op.entries (a.perform op).2 < UInt64.size) :
    Agrees (n + op.entries (a.perform op).2) (a.perform op).1 (s.perform op).1 ∧
      (a.perform op).2 = (s.perform op).2 := by
  cases op with
  | enter e => exact ⟨(h.enter e hn).1, congrArg Reply.opened (h.enter e hn).2⟩
  | leave e => exact ⟨(h.leave e).1, congrArg Reply.left (h.leave e).2⟩
  | call e => exact ⟨(h.call e hn).1, congrArg Reply.called (h.call e hn).2⟩
  | attach e => exact ⟨(h.attach e).1, congrArg Reply.attached (h.attach e).2⟩
  | ingest m f =>
    have := applyAll m 0 f.ordered h hn
    exact ⟨this.1, by simp only [CallArena.perform, CallStacks.perform, CallArena.ingest,
      CallStacks.ingest, this.2]⟩
  | beginFrame => exact ⟨h.beginFrame, rfl⟩
  | setLabels f ls => exact ⟨h.setLabels f ls, rfl⟩
  | releaseFrame => exact ⟨h.releaseFrame.1, congrArg Reply.released h.releaseFrame.2⟩
  | updateFunctions names => exact ⟨h.updateFunctions names, rfl⟩

omit h in
/-- The arena and the stacks of records give the same replies to every history. -/
theorem performAll (ops : List Operation) (h : Agrees n a s)
    (hn : n + Operation.allEntries ops (a.performAll ops).2 < UInt64.size) :
    Agrees (n + Operation.allEntries ops (a.performAll ops).2) (a.performAll ops).1
        (s.performAll ops).1 ∧
      (a.performAll ops).2 = (s.performAll ops).2 := by
  induction ops generalizing n a s with
  | nil => exact ⟨h, rfl⟩
  | cons op ops ih =>
    simp only [CallArena.performAll, Operation.allEntries, ← Nat.add_assoc] at hn ⊢
    obtain ⟨hop, hreply⟩ := h.perform op (by omega)
    obtain ⟨hops, hreplies⟩ := ih hop hn
    exact ⟨hops, by rw [CallStacks.performAll_cons, hreply, hreplies]⟩

end Agrees

end CallArena

end TraceAnomaly
