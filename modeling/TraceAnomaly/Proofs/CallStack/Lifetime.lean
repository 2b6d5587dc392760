import TraceAnomaly.Proofs.CallStack.Cut
import TraceAnomaly.Proofs.CallStack.Forest

/-! What becomes of calls while events are applied. A call that is open before the events, or is opened
by one of them, is afterwards open or closed; it keeps its number, its thread, its entry and its caller.
It was entered by an entry among the events, if not before, and left by an exit among them, if at all. -/

namespace TraceAnomaly

/-- The same call later on. -/
structure CallRecord.Continues (c r : CallRecord) : Prop where
  id : r.id = c.id
  thread : r.thread = c.thread
  entry : r.entry = c.entry
  parent : r.parent = c.parent

namespace CallRecord.Continues

theorem refl (c : CallRecord) : c.Continues c := ⟨rfl, rfl, rfl, rfl⟩

theorem trans {c d r : CallRecord} (h : c.Continues d) (h' : d.Continues r) : c.Continues r :=
  ⟨h'.id.trans h.id, h'.thread.trans h.thread, h'.entry.trans h.entry, h'.parent.trans h.parent⟩

end CallRecord.Continues

namespace CallStacks

variable {s : CallStacks} {es fs : List Event} {r c : CallRecord} {t : Thread}

/-! ### One event -/

theorem mem_adopt {id : UInt64} {calls : List CallRecord} (h : r ∈ adopt id calls) :
    ∃ c ∈ calls, c.Continues r := by
  cases calls with
  | nil => cases h
  | cons c outer =>
    rcases List.mem_cons.1 h with rfl | h
    · exact ⟨c, by simp, rfl, rfl, rfl, rfl⟩
    · exact ⟨r, by simp [h], .refl r⟩

theorem exists_mem_adopt (id : UInt64) {calls : List CallRecord} (h : c ∈ calls) :
    ∃ r ∈ adopt id calls, c.Continues r := by
  cases calls with
  | nil => cases h
  | cons d outer =>
    rcases List.mem_cons.1 h with rfl | h
    · exact ⟨c.addChild id, by simp [adopt], rfl, rfl, rfl, rfl⟩
    · exact ⟨c, by simp [adopt, h], .refl c⟩

/-- Everything that an event can do to the stack of its thread. -/
theorem stack_apply_cases (s : CallStacks) (e : Event) :
    (∃ x, e = .call x ∧ x.kind = .entry ∧ (s.apply e).1.stack e.thread =
      .opened s.nextId (s.functions.name x.function) x ((s.stack x.thread).head?.map (·.id)) ::
        adopt s.nextId (s.stack e.thread)) ∨
    (s.stack e.thread = [] ∧ (s.apply e).1.stack e.thread = []) ∨
    ∃ c outer, s.stack e.thread = c :: outer ∧
      ((∃ m, e = .message m ∧ (s.apply e).1.stack e.thread = c.addMessage (.ofEvent m) :: outer) ∨
        ∃ x, e = .call x ∧ x.kind = .exit ∧ (s.apply e).1.stack e.thread = outer ∧
          ((s.apply e).2.isOk → (s.happens e).closedCalls = [c.close x.time])) := by
  cases e with
  | message m =>
    rcases attach_cases s m with ⟨hst, hs⟩ | ⟨c, outer, hst, hs⟩
    · exact .inr (.inl ⟨hst, by simpa [apply, hs] using hst⟩)
    · exact .inr (.inr ⟨c, outer, hst, .inl ⟨m, rfl, by simp [apply, hs]⟩⟩)
  | call x =>
    cases hk : x.kind with
    | entry => exact .inl ⟨x, rfl, hk, by simp [apply, call, hk, stack_enter]⟩
    | exit =>
      rcases leave_cases s x with
        ⟨hst, hs⟩ | ⟨c, outer, hst, ⟨-, hs⟩ | ⟨-, -, hs⟩ | ⟨-, -, hs⟩⟩
      · exact .inr (.inl ⟨hst, by simpa [apply, call, hk, hs] using hst⟩)
      all_goals
        refine .inr (.inr ⟨c, outer, hst, .inr ⟨x, rfl, hk, by simp [apply, call, hk, hs], fun hok => ?_⟩⟩)
      · simp [apply, call, hk, hs, Except.map, Except.isOk, Except.toBool] at hok
      · simp [apply, call, hk, hs, Except.map, Except.isOk, Except.toBool] at hok
      · simp [happens, hk, departure, hst, hs]

/-- An open call was open before the event or has been opened by it. -/
theorem origin_apply {e : Event} (h : r ∈ (s.apply e).1.stack t) : (∃ c ∈ s.stack t, c.Continues r) ∨
    ∃ x, e = .call x ∧ x.kind = .entry ∧ x.thread = t ∧ r.entry = x.time := by
  by_cases ht : t = e.thread
  · subst ht
    rcases stack_apply_cases s e with
      ⟨x, rfl, hk, hs⟩ | ⟨-, hs⟩ | ⟨c, outer, hst, ⟨m, -, hs⟩ | ⟨x, -, -, hs, -⟩⟩
    · rw [hs] at h
      rcases List.mem_cons.1 h with rfl | h
      · exact .inr ⟨x, rfl, hk, rfl, rfl⟩
      · exact .inl (mem_adopt h)
    · rw [hs] at h
      cases h
    · rw [hs] at h
      rw [hst]
      rcases List.mem_cons.1 h with rfl | h
      · exact .inl ⟨c, by simp, rfl, rfl, rfl, rfl⟩
      · exact .inl ⟨r, by simp [h], .refl r⟩
    · rw [hs] at h
      exact .inl ⟨r, by simp [hst, h], .refl r⟩
  · rw [stack_apply_other s e ht] at h
    exact .inl ⟨r, h, .refl r⟩

/-- A call that the event closes was open, and ends with it. -/
theorem origin_closed {e : Event} (h : r ∈ (s.happens e).closedCalls) :
    ∃ x, e = .call x ∧ x.kind = .exit ∧ r.exit = some x.time ∧ ∃ c ∈ s.stack x.thread, c.Continues r := by
  cases e with
  | message e => simp [happens, History.closedCalls] at h
  | call e =>
    cases hk : e.kind with
    | entry => simp [happens, hk] at h
    | exit =>
      rcases departure_cases s e with ⟨-, -, hd⟩ | ⟨c, outer, hst, ⟨-, hd⟩ | ⟨-, -, -, hd⟩⟩
      · simp [happens, hk, hd] at h
      · simp [happens, hk, hd] at h
      · obtain rfl : r = c.close e.time := by simpa [happens, hk, hd] using h
        exact ⟨e, rfl, hk, rfl, c, by simp [hst], rfl, rfl, rfl, rfl⟩

/-- An open call stays open, or is closed by the event. -/
theorem survives_apply {e : Event} (he : (s.apply e).2.isOk) (h : c ∈ s.stack t) :
    (∃ r ∈ (s.apply e).1.stack t, c.Continues r) ∨ ∃ r ∈ (s.happens e).closedCalls, c.Continues r := by
  by_cases ht : t = e.thread
  · subst ht
    rcases stack_apply_cases s e with
      ⟨x, rfl, hk, hs⟩ | ⟨hst, -⟩ | ⟨d, outer, hst, ⟨m, -, hs⟩ | ⟨x, -, -, hs, hclosed⟩⟩
    · obtain ⟨r, hr, hcr⟩ := exists_mem_adopt s.nextId h
      exact .inl ⟨r, hs ▸ List.mem_cons_of_mem _ hr, hcr⟩
    · rw [hst] at h
      cases h
    · rw [hst] at h
      rw [hs]
      rcases List.mem_cons.1 h with rfl | h
      · exact .inl ⟨_, List.mem_cons_self, rfl, rfl, rfl, rfl⟩
      · exact .inl ⟨c, by simp [h], .refl c⟩
    · rw [hst] at h
      rcases List.mem_cons.1 h with rfl | h
      · exact .inr ⟨c.close x.time, by simp [hclosed he], rfl, rfl, rfl, rfl⟩
      · exact .inl ⟨c, by simpa [hs] using h, .refl c⟩
  · rw [stack_apply_other s e ht]
    exact .inl ⟨c, h, .refl c⟩

/-! ### Accepted events -/

/-- No event is a violation. -/
def Accepts (s : CallStacks) : List Event → Prop
  | [] => True
  | e :: es => (s.apply e).2.isOk ∧ (s.apply e).1.Accepts es

theorem accepts_of_applyAll {n : EventCounts} {i : ℕ} (h : (s.applyAll n i es).2.2.isOk) :
    s.Accepts es := by
  induction es generalizing s n i with
  | nil => trivial
  | cons e es ih =>
    simp only [applyAll] at h
    unfold Accepts
    cases hr : s.apply e with
    | mk s' outcome =>
      rw [hr] at h
      cases outcome with
      | error v => cases h
      | ok c => exact ⟨rfl, ih h⟩

theorem Accepts.append (h : s.Accepts (es ++ fs)) : s.Accepts es ∧ (s.run es).1.Accepts fs := by
  induction es generalizing s with
  | nil => exact ⟨trivial, h⟩
  | cons e es ih =>
    obtain ⟨he, hrest⟩ := h
    obtain ⟨hes, hfs⟩ := ih hrest
    rw [run_cons, perform_operation]
    exact ⟨⟨he, hes⟩, hfs⟩

theorem Accepts.discardedIds (h : s.Accepts es) : (s.runHistory es).discardedIds = [] := by
  induction es generalizing s with
  | nil => rfl
  | cons e es ih =>
    obtain ⟨he, hes⟩ := h
    rw [runHistory_cons, perform_operation, History.discardedIds_append, ih hes, List.append_nil]
    cases hc : (s.apply e).2 with
    | error v => simp [hc, Except.isOk, Except.toBool] at he
    | ok c => exact discardedIds_happens s hc

/-! ### Many events -/

/-- The calls that were open before some events or were opened by them, as they are afterwards. -/
def outcomes (s : CallStacks) (es : List Event) : List CallRecord :=
  (s.run es).1.openCalls ++ (s.runHistory es).closedCalls

theorem mem_outcomes_nil : r ∈ s.outcomes [] ↔ ∃ t, r ∈ s.stack t := by
  have hnone : s.outcomes [] = s.openCalls := List.append_nil _
  rw [hnone, mem_openCalls_iff]

theorem mem_outcomes_cons {e : Event} : r ∈ s.outcomes (e :: es) ↔
    r ∈ (s.happens e).closedCalls ∨ r ∈ (s.apply e).1.outcomes es := by
  rw [outcomes, outcomes, run_cons, runHistory_cons, perform_operation, History.closedCalls_append]
  simp only [List.mem_append]
  exact or_left_comm

theorem mem_outcomes_append : r ∈ s.outcomes (es ++ fs) ↔
    r ∈ (s.runHistory es).closedCalls ∨ r ∈ (s.run es).1.outcomes fs := by
  induction es generalizing s with
  | nil => simp [run, runHistory, performAll, history, History.closedCalls]
  | cons e es ih =>
    rw [List.cons_append, mem_outcomes_cons, ih, run_cons, runHistory_cons, perform_operation,
      History.closedCalls_append, List.mem_append, or_assoc]

/-- An outcome was open before, or is entered by one of the events. -/
theorem entered_outcomes (hs : s.WellFormed) (h : r ∈ s.outcomes es) :
    (∃ c ∈ s.stack r.thread, c.Continues r) ∨
      ∃ x, .call x ∈ es ∧ x.kind = .entry ∧ x.thread = r.thread ∧ r.entry = x.time := by
  induction es generalizing s with
  | nil =>
    obtain ⟨t, ht⟩ := mem_outcomes_nil.1 h
    exact .inl ⟨r, (hs.of_mem_stack ht).1 ▸ ht, .refl r⟩
  | cons e es ih =>
    rcases mem_outcomes_cons.1 h with h | h
    · obtain ⟨x, -, -, -, c, hc, hcr⟩ := origin_closed h
      have hthread : r.thread = x.thread := hcr.thread.trans (hs.of_mem_stack hc).1
      exact .inl ⟨c, hthread ▸ hc, hcr⟩
    · rcases ih (wellFormed_kept.apply e hs) h with ⟨c, hc, hcr⟩ | ⟨x, hx, hopened⟩
      · rcases origin_apply hc with ⟨d, hd, hdc⟩ | ⟨x, rfl, hk, ht, htime⟩
        · exact .inl ⟨d, hd, hdc.trans hcr⟩
        · exact .inr ⟨x, by simp, hk, ht, hcr.entry.trans htime⟩
      · exact .inr ⟨x, by simp [hx], hopened⟩

/-- A call that events close is left by one of them. -/
theorem left_of_closed (hs : s.WellFormed) (h : r ∈ (s.runHistory es).closedCalls) :
    ∃ x, .call x ∈ es ∧ x.kind = .exit ∧ x.thread = r.thread ∧ r.exit = some x.time := by
  induction es generalizing s with
  | nil => cases h
  | cons e es ih =>
    rw [runHistory_cons, perform_operation, History.closedCalls_append] at h
    rcases List.mem_append.1 h with h | h
    · obtain ⟨x, rfl, hk, hexit, c, hc, hcr⟩ := origin_closed h
      exact ⟨x, by simp, hk, (hcr.thread.trans (hs.of_mem_stack hc).1).symm, hexit⟩
    · obtain ⟨x, hx, hleft⟩ := ih (wellFormed_kept.apply e hs) h
      exact ⟨x, by simp [hx], hleft⟩

theorem left_outcomes (hs : s.WellFormed) (h : r ∈ s.outcomes es) : r.exit = none ∨
    ∃ x, .call x ∈ es ∧ x.kind = .exit ∧ x.thread = r.thread ∧ r.exit = some x.time := by
  rcases List.mem_append.1 h with h | h
  · obtain ⟨t, ht⟩ := (mem_openCalls_iff _).1 h
    exact .inl ((wellFormed_kept.performAll _ hs).of_mem_stack ht).2
  · exact .inr (left_of_closed hs h)

/-- Every open call has an outcome. -/
theorem survives (h : s.Accepts es) (hc : c ∈ s.stack t) : ∃ r ∈ s.outcomes es, c.Continues r := by
  induction es generalizing s c with
  | nil => exact ⟨c, mem_outcomes_nil.2 ⟨t, hc⟩, .refl c⟩
  | cons e es ih =>
    obtain ⟨he, hes⟩ := h
    rcases survives_apply he hc with ⟨d, hd, hcd⟩ | ⟨d, hd, hcd⟩
    · obtain ⟨r, hr, hdr⟩ := ih hes hd
      exact ⟨r, mem_outcomes_cons.2 (.inr hr), hcd.trans hdr⟩
    · exact ⟨d, mem_outcomes_cons.2 (.inl hd), hcd⟩

end CallStacks

end TraceAnomaly
