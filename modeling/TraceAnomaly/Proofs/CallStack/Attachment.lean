import TraceAnomaly.Proofs.CallStack.Lifetime

/-! Which messages are in which records. An event that is a message adds it to the innermost open call of
its thread, and nothing else touches the messages of a record. So the messages of every record are those
that were attached to its number, in the order in which they were attached. -/

namespace TraceAnomaly

namespace CallStacks

/-! ### The numbers of calls -/

section Numbers

variable {names : FunctionTable} {H : History} {s : CallStacks}

namespace Reached

variable (h : Reached names H s)
include h

theorem run (es : List Event) : Reached names (H ++ s.runHistory es) (s.run es).1 where
  ledger := h.ledger_run es
  numbered := Numbered.traced.performAll _ h.numbered
  wellFormed := wellFormed_kept.performAll _ h.wellFormed

theorem apply (e : Event) : Reached names (H ++ s.happens e) (s.apply e).1 where
  ledger := (Ledger.traced names).apply e h.ledger
  numbered := Numbered.traced.apply e h.numbered
  wellFormed := wellFormed_kept.apply e h.wellFormed

variable (hn : H.openedIds.length < UInt64.size)
include hn

theorem nodup_opened : H.openedIds.Nodup := (h.ledger.ascending hn).imp UInt64.ne_of_lt

/-- Open and closed calls have different numbers. -/
theorem nodup_calls : (s.openCalls.map (·.id) ++ H.closedCalls.map (·.id)).Nodup := by
  have hall := h.ledger.calls.nodup_iff.1 (h.nodup_opened hn)
  rw [← List.append_assoc] at hall
  exact (List.nodup_append.1 hall).1

theorem nodup_records : ((s.openCalls ++ s.frameCalls).map (·.id)).Nodup := by
  have hall := h.ledger.places.nodup_iff.1 (h.nodup_opened hn)
  have hrecords : (s.records.map (·.id)).Nodup := (List.nodup_append.1 hall).1
  exact (((openCalls_perm s).append_right _).map _).nodup_iff.2 hrecords

theorem nodup_stack (t : Thread) : ((s.stack t).map (·.id)).Nodup := by
  have hall := h.ledger.places.nodup_iff.1 (h.nodup_opened hn)
  obtain ⟨rest, hrec, -⟩ := records_setStack s t
  have hrecords := (hrec.map (·.id)).nodup_iff.1 (List.nodup_append.1 hall).1
  rw [List.map_append] at hrecords
  exact (List.nodup_append.1 hrecords).1

theorem ne_of_closed {t : Thread} {c r : CallRecord} (hc : c ∈ s.stack t) (hr : r ∈ H.closedCalls) :
    r.id ≠ c.id := by
  have hopen : c.id ∈ s.openCalls.map (·.id) := List.mem_map_of_mem ((mem_openCalls_iff _).2 ⟨t, hc⟩)
  exact fun hid => (List.nodup_append.1 (h.nodup_calls hn)).2.2 _ hopen _ (List.mem_map_of_mem hr) hid.symm

theorem ne_of_other_thread {t u : Thread} {c r : CallRecord} (hc : c ∈ s.stack t) (hr : r ∈ s.stack u)
    (htu : u ≠ t) : r.id ≠ c.id := by
  intro hid
  have hnodup := (List.nodup_append.1 (h.nodup_calls hn)).1
  have hsame : r = c := List.inj_on_of_nodup_map hnodup ((mem_openCalls_iff s).2 ⟨u, hr⟩)
    ((mem_openCalls_iff s).2 ⟨t, hc⟩) hid
  subst hsame
  exact htu ((h.wellFormed.of_mem_stack hr).1.symm.trans (h.wellFormed.of_mem_stack hc).1)

/-- The record of a number is found. -/
theorem get?_of_mem {r : CallRecord} (hr : r ∈ s.openCalls ++ s.frameCalls) : s.get? r.id = some r := by
  unfold get?
  cases hfind : (s.openCalls ++ s.frameCalls).find? (·.id = r.id) with
  | none => exact absurd (decide_eq_true rfl) (List.find?_eq_none.1 hfind r hr)
  | some c =>
    have hc := List.mem_of_find?_eq_some hfind
    have hid : c.id = r.id := by simpa using List.find?_some hfind
    rw [List.inj_on_of_nodup_map (h.nodup_records hn) hc hr hid]

end Reached

namespace Reached

variable (h : Reached names H s) {es : List Event}
  (hn : H.openedIds.length + (es.map Event.entries).sum < UInt64.size)
include h hn

omit h in
theorem length_run : (H ++ s.runHistory es).openedIds.length < UInt64.size := by
  rw [History.openedIds_append, List.length_append, length_openedIds_runHistory]
  exact hn

theorem nodup_outcomes : ((s.outcomes es).map (·.id)).Nodup := by
  have hcalls := (h.run es).nodup_calls (length_run hn)
  rw [History.closedCalls_append, List.map_append] at hcalls
  rw [outcomes, List.map_append]
  exact hcalls.sublist ((List.Sublist.refl _).append (List.sublist_append_right _ _))

omit hn in
/-- The outcomes are the calls that were open and those that were opened. -/
theorem outcomes_perm (hacc : s.Accepts es) :
    ((s.outcomes es).map (·.id)).Perm (s.openCalls.map (·.id) ++ (s.runHistory es).openedIds) := by
  have hbefore := h.ledger.calls
  have hafter := (h.run es).ledger.calls
  rw [outcomes, List.map_append]
  refine List.perm_iff_count.2 fun id => ?_
  have hb := hbefore.count_eq id
  have ha := hafter.count_eq id
  simp only [History.openedIds_append, History.closedCalls_append, History.discardedIds_append,
    hacc.discardedIds, List.map_append, List.count_append, List.append_nil] at hb ha ⊢
  omega

omit h hn in
/-- The outcomes are among the records. -/
theorem mem_records_of_outcomes {r : CallRecord} (hr : r ∈ s.outcomes es) :
    r ∈ (s.run es).1.openCalls ++ (s.run es).1.frameCalls := by
  rcases List.mem_append.1 hr with hr | hr
  · exact List.mem_append_left _ hr
  · refine List.mem_append_right _ ((mem_closed_iff _).2 ⟨r.function, ?_⟩)
    rw [closedCalls_run]
    simp [hr]

end Reached

end Numbers

/-! ### What is attached -/

/-- The call to which an event adds a message. -/
def attached (s : CallStacks) : Event → List (UInt64 × MessageEvent)
  | .call _ => []
  | .message m => ((s.stack m.thread).head?.map fun c => (c.id, m)).toList

/-- The messages that are attached as events are applied, with the numbers of their calls. -/
def attachments (s : CallStacks) : List Event → List (UInt64 × MessageEvent)
  | [] => []
  | e :: es => s.attached e ++ (s.apply e).1.attachments es

def messagesFor (id : UInt64) (placed : List (UInt64 × MessageEvent)) : List Message :=
  (placed.filter (·.1 = id)).map fun p => .ofEvent p.2

theorem messagesFor_append (id : UInt64) (ps qs : List (UInt64 × MessageEvent)) :
    messagesFor id (ps ++ qs) = messagesFor id ps ++ messagesFor id qs := by
  simp [messagesFor]

/-- The messages that calls have been told, by their numbers, are those in the records. -/
structure Told (told : UInt64 → List Message) (old K : History) (s : CallStacks) : Prop where
  stack : ∀ t, ∀ r ∈ s.stack t, r.messages = told r.id
  closed : ∀ r ∈ K.closedCalls, r.messages = told r.id
  unused : ∀ id, id ∉ (old ++ K).openedIds → told id = []

namespace Told

variable {names : FunctionTable} {told : UInt64 → List Message} {old K : History} {s : CallStacks}

theorem attach (h : Told told old K s) (hr : Reached names (old ++ K) s)
    (hn : (old ++ K).openedIds.length < UInt64.size) (m : MessageEvent) :
    Told (fun id => told id ++ messagesFor id (s.attached (.message m))) old K (s.attach m).1 := by
  rcases attach_cases s m with ⟨hst, hs⟩ | ⟨c, outer, hst, hs⟩
  · have hnone : s.attached (.message m) = [] := by simp [attached, hst]
    simpa [hs, hnone, messagesFor] using h
  · have hc : c ∈ s.stack m.thread := by simp [hst]
    have hgain : ∀ id, messagesFor id (s.attached (.message m)) =
        if id = c.id then [.ofEvent m] else [] := by
      intro id
      by_cases hid : c.id = id
      · simp [attached, hst, messagesFor, hid]
      · simp [attached, hst, messagesFor, hid, Ne.symm hid]
    have hkeep : ∀ id, id ≠ c.id → told id ++ (if id = c.id then [.ofEvent m] else []) = told id :=
      fun id hid => by simp [hid]
    simp only [hs, hgain]
    -- of all records only that of the innermost call has its number
    refine ⟨fun t r hrt => ?_, fun r hrc => ?_, fun id hid => ?_⟩
    · rw [stack_setStack] at hrt
      split at hrt
      · rcases List.mem_cons.1 hrt with rfl | hrt
        · simp [CallRecord.addMessage, h.stack _ c hc]
        · have hnodup := hr.nodup_stack hn m.thread
          rw [hst, List.map_cons, List.nodup_cons] at hnodup
          have hne : r.id ≠ c.id := fun hid => hnodup.1 (List.mem_map.2 ⟨r, hrt, hid⟩)
          exact (h.stack m.thread r (by simp [hst, hrt])).trans (hkeep _ hne).symm
      · rename_i ht
        exact (h.stack t r hrt).trans (hkeep _ (hr.ne_of_other_thread hn hc hrt ht)).symm
    · have hclosed : r ∈ (old ++ K).closedCalls := by simp [hrc]
      exact (h.closed r hrc).trans (hkeep _ (hr.ne_of_closed hn hc hclosed)).symm
    · have hopened : c.id ∈ (old ++ K).openedIds :=
        hr.numbered.stack m.thread c hc (by simp [CallRecord.ids])
      exact (hkeep id fun hcid => hid (hcid ▸ hopened)).trans (h.unused id hid)

theorem enter (h : Told told old K s) (hr : Reached names (old ++ K) s)
    (hn : (old ++ K).openedIds.length < UInt64.size) (e : CallEvent) :
    Told told old (K ++ [.opened (s.enter e).2 e]) (s.enter e).1 := by
  have hids : History.openedIds (old ++ (K ++ [.opened (s.enter e).2 e])) =
      (old ++ K).openedIds ++ [s.nextId] := by
    simp [CallStacks.enter]
  refine ⟨fun t r hrt => ?_, fun r hrc => h.closed r (by simpa using hrc), fun id hid => ?_⟩
  · rw [stack_enter] at hrt
    split at hrt
    · rcases List.mem_cons.1 hrt with rfl | hrt
      · have hfresh : s.nextId ∉ (old ++ K).openedIds := fun hold =>
          UInt64.lt_irrefl _ (hr.ledger.lt_nextId hn _ hold)
        exact (h.unused s.nextId hfresh).symm
      · cases hst : s.stack e.thread with
        | nil => simp [hst, adopt] at hrt
        | cons c outer =>
          rw [hst] at hrt
          rcases List.mem_cons.1 hrt with rfl | hrt
          · exact h.stack e.thread c (by simp [hst])
          · exact h.stack e.thread r (by simp [hst, hrt])
    · exact h.stack t r hrt
  · rw [hids] at hid
    exact h.unused id fun hold => hid (List.mem_append_left _ hold)

theorem leave (h : Told told old K s) (e : CallEvent) :
    Told told old (K ++ [s.departure e]) (s.leave e).1 := by
  rcases departure_cases s e with ⟨-, hs, hd⟩ | ⟨c, outer, hst, hcases⟩
  · rw [hs, hd]
    exact ⟨h.stack, fun r hrc => h.closed r (by simpa using hrc),
      fun id hid => h.unused id (by simpa using hid)⟩
  · have hpop : ∀ t, ∀ r ∈ (s.setStack e.thread outer).stack t, r.messages = told r.id := by
      intro t r hrt
      rw [stack_setStack] at hrt
      split at hrt
      · exact h.stack e.thread r (by simp [hst, hrt])
      · exact h.stack t r hrt
    rcases hcases with ⟨hs, hd⟩ | ⟨-, -, hs, hd⟩
    · rw [hs, hd]
      exact ⟨hpop, fun r hrc => h.closed r (by simpa using hrc),
        fun id hid => h.unused id (by simpa using hid)⟩
    · rw [hs, hd]
      refine ⟨hpop, fun r hrc => ?_, fun id hid => h.unused id (by simpa using hid)⟩
      rw [History.closedCalls_append] at hrc
      rcases List.mem_append.1 hrc with hrc | hrc
      · exact h.closed r hrc
      · obtain rfl : r = c.close e.time := by simpa using hrc
        exact h.stack e.thread c (by simp [hst])

theorem apply (h : Told told old K s) (hr : Reached names (old ++ K) s)
    (hn : (old ++ K).openedIds.length < UInt64.size) (e : Event) :
    Told (fun id => told id ++ messagesFor id (s.attached e)) old (K ++ s.happens e) (s.apply e).1 := by
  cases e with
  | message m =>
    rw [happens, List.append_nil]
    exact h.attach hr hn m
  | call e =>
    have hnone : (fun id => told id ++ messagesFor id (s.attached (.call e))) = told :=
      funext fun id => List.append_nil _
    rw [hnone]
    cases hk : e.kind with
    | entry => simpa [happens, CallStacks.apply, call, hk] using h.enter hr hn e
    | exit => simpa [happens, CallStacks.apply, call, hk] using h.leave e

theorem run (h : Told told old K s) (hr : Reached names (old ++ K) s) (es : List Event)
    (hn : (old ++ K).openedIds.length + (es.map Event.entries).sum < UInt64.size) :
    Told (fun id => told id ++ messagesFor id (s.attachments es)) old (K ++ s.runHistory es)
      (s.run es).1 := by
  induction es generalizing told K s with
  | nil =>
    have hnone : (fun id => told id ++ messagesFor id (s.attachments [])) = told :=
      funext fun id => List.append_nil _
    have hhistory : s.runHistory [] = [] := rfl
    rw [hnone, hhistory, List.append_nil]
    exact h
  | cons e es ih =>
    rw [List.map_cons, List.sum_cons] at hn
    have hnext : Reached names (old ++ (K ++ s.happens e)) (s.apply e).1 := by
      rw [← List.append_assoc]
      exact hr.apply e
    have hlength : (old ++ (K ++ s.happens e)).openedIds.length + (es.map Event.entries).sum <
        UInt64.size := by
      rw [← List.append_assoc, History.openedIds_append, List.length_append, length_openedIds_happens]
      omega
    have hrest := ih (h.apply hr (by omega) e) hnext hlength
    simpa only [attachments, messagesFor_append, List.append_assoc, run_cons, runHistory_cons,
      perform_operation] using hrest

end Told

/-- After events, a record that was open before them or was opened by one of them has the messages it
had before and those that were attached to its number. -/
theorem Reached.messages_outcomes {names : FunctionTable} {H : History} {s : CallStacks}
    (h : Reached names H s) (es : List Event)
    (hn : H.openedIds.length + (es.map Event.entries).sum < UInt64.size) {r : CallRecord}
    (hr : r ∈ s.outcomes es) :
    r.messages = ((s.get? r.id).map (·.messages)).getD [] ++ messagesFor r.id (s.attachments es) := by
  have hstart : Told (fun id => ((s.get? id).map (·.messages)).getD []) H [] s := by
    refine ⟨fun t r hrt => ?_, by simp [History.closedCalls], fun id hid => ?_⟩
    · have hmem : r ∈ s.openCalls ++ s.frameCalls :=
        List.mem_append_left _ ((mem_openCalls_iff _).2 ⟨t, hrt⟩)
      simp [h.get?_of_mem (by omega) hmem]
    · have hnone : s.get? id = none := by
        refine List.find?_eq_none.2 fun r hrs => ?_
        have hopened : r.id ∈ H.openedIds := h.ledger.places.mem_iff.2 <| List.mem_append_left _ <|
          List.mem_map_of_mem (((openCalls_perm s).append_right _).mem_iff.1 hrs)
        simpa using fun hrid : r.id = id => hid (by simpa [hrid] using hopened)
      simp [hnone]
  have hreached : Reached names (H ++ []) s := (List.append_nil H).symm ▸ h
  have hafter := hstart.run hreached es (by simpa using hn)
  rcases List.mem_append.1 hr with hr | hr
  · obtain ⟨t, ht⟩ := (mem_openCalls_iff _).1 hr
    exact hafter.stack t r ht
  · exact hafter.closed r hr

end CallStacks

end TraceAnomaly
