import TraceAnomaly.Proofs.Keyed.Update
import TraceAnomaly.Proofs.CallStack.Operation

/-! The records that the call stacks hold and what each operation does to them: to the stack of every
thread, to the closed calls of every function, and to all records taken together. Every reachable
state is well formed. -/

namespace TraceAnomaly

namespace CallStacks

variable (s : CallStacks)

/-! ### Threads and functions -/

@[simp] theorem stack_setStack (t u : Thread) (calls : List CallRecord) :
    (s.setStack t calls).stack u = if u = t then calls else s.stack u := by
  rw [setStack, stack, Keyed.get?_insert]
  split <;> rfl

theorem setStack_stack {t : Thread} (h : s.stack t ≠ []) : s.setStack t (s.stack t) = s := by
  have hget : s.running.get? t = some (s.stack t) := by
    unfold stack at h ⊢
    cases hget : s.running.get? t <;> simp_all
  rw [setStack, Keyed.insert_of_get? hget]

@[simp] theorem stack_settle (c : CallRecord) (d : Nat) (t : Thread) :
    (s.settle c d).stack t = s.stack t := rfl

@[simp] theorem closedCalls_settle (c : CallRecord) (d : Nat) (f : UInt64) :
    (s.settle c d).closedCalls f =
      if f = c.function then s.closedCalls f ++ [c] else s.closedCalls f := by
  rw [settle, closedCalls, Keyed.get?_alter]
  split
  · rename_i h
    subst h
    rfl
  · rfl

theorem stack_enter (e : CallEvent) (t : Thread) :
    (s.enter e).1.stack t = if t = e.thread then
      .opened s.nextId (s.functions.name e.function) e ((s.stack e.thread).head?.map (·.id)) ::
        adopt s.nextId (s.stack e.thread)
      else s.stack t :=
  stack_setStack s e.thread t _

/-- Everything that an exit can do. -/
theorem leave_cases (e : CallEvent) :
    s.stack e.thread = [] ∧ s.leave e = (s, .error (.emptyStack e.thread e.function e.time)) ∨
    ∃ c outer, s.stack e.thread = c :: outer ∧
      (c.function ≠ e.function ∧ s.leave e = (s.setStack e.thread outer,
          .error (.functionMismatch e.thread e.function e.time c.id c.function)) ∨
        c.function = e.function ∧ e.time < c.entry ∧ s.leave e = (s.setStack e.thread outer,
          .error (.timeReversal e.thread e.function c.entry e.time)) ∨
        c.function = e.function ∧ c.entry ≤ e.time ∧
          s.leave e = ((s.setStack e.thread outer).settle (c.close e.time) outer.length, .ok c.id)) := by
  unfold leave
  split
  · rename_i h
    exact .inl ⟨h, rfl⟩
  · rename_i c outer h
    refine .inr ⟨c, outer, h, ?_⟩
    by_cases hf : c.function = e.function
    · by_cases ht : e.time < c.entry
      · exact .inr (.inl ⟨hf, ht, by simp [hf, ht]⟩)
      · exact .inr (.inr ⟨hf, UInt64.not_lt.1 ht, by simp [hf, ht]⟩)
    · exact .inl ⟨hf, by simp [hf]⟩

/-- Everything that a message can do. -/
theorem attach_cases (e : MessageEvent) :
    s.stack e.thread = [] ∧ s.attach e = (s, false) ∨
    ∃ c outer, s.stack e.thread = c :: outer ∧
      s.attach e = (s.setStack e.thread (c.addMessage (.ofEvent e) :: outer), true) := by
  unfold attach
  split
  · rename_i h
    exact .inl ⟨h, rfl⟩
  · rename_i c outer h
    exact .inr ⟨c, outer, h, rfl⟩

/-- Labels go to the closed calls of one function. -/
theorem get?_closed_setLabels (f g : UInt64) (ls : List Label) :
    (s.setLabels f ls).closed.get? g =
      if g = f then (s.closed.get? g).map (labelCalls · ls) else s.closed.get? g := by
  unfold setLabels
  split
  · rename_i h
    split
    · rename_i hg
      simp [hg, h]
    · rfl
  · rename_i calls h
    simp only [Keyed.get?_insert]
    split
    · rename_i hg
      simp [hg, h]
    · rfl

@[simp] theorem running_setLabels (f : UInt64) (ls : List Label) :
    (s.setLabels f ls).running = s.running := by
  unfold setLabels
  split <;> rfl

@[simp] theorem stack_setLabels (f : UInt64) (ls : List Label) (t : Thread) :
    (s.setLabels f ls).stack t = s.stack t := by
  simp [stack]

theorem closedCalls_setLabels (f g : UInt64) (ls : List Label) :
    (s.setLabels f ls).closedCalls g =
      if g = f then labelCalls (s.closedCalls g) ls else s.closedCalls g := by
  rw [closedCalls, get?_closed_setLabels]
  split
  · cases h : s.closed.get? g <;> simp [closedCalls, h, labelCalls]
  · rfl

/-! ### All records -/

/-- The records of the open calls and of the calls closed in this frame. -/
def records : List CallRecord := s.running.values.flatten ++ s.closed.values.flatten

theorem mem_running_iff {r : CallRecord} : r ∈ s.running.values.flatten ↔ ∃ t, r ∈ s.stack t := by
  simp only [List.mem_flatten, Keyed.mem_values_iff]
  refine ⟨fun ⟨calls, ⟨t, ht⟩, hr⟩ => ⟨t, by simpa [stack, ht]⟩, fun ⟨t, hr⟩ => ?_⟩
  unfold stack at hr
  cases h : s.running.get? t with
  | none => simp [h] at hr
  | some calls => exact ⟨calls, ⟨t, h⟩, by simpa [h] using hr⟩

theorem mem_closed_iff {r : CallRecord} :
    r ∈ s.closed.values.flatten ↔ ∃ f, r ∈ s.closedCalls f := by
  simp only [List.mem_flatten, Keyed.mem_values_iff]
  refine ⟨fun ⟨calls, ⟨f, hf⟩, hr⟩ => ⟨f, by simpa [closedCalls, hf]⟩, fun ⟨f, hr⟩ => ?_⟩
  unfold closedCalls at hr
  cases h : s.closed.get? f with
  | none => simp [h] at hr
  | some calls => exact ⟨calls, ⟨f, h⟩, by simpa [h] using hr⟩

theorem mem_records_iff {r : CallRecord} :
    r ∈ s.records ↔ (∃ t, r ∈ s.stack t) ∨ ∃ f, r ∈ s.closedCalls f := by
  rw [records, List.mem_append, mem_running_iff, mem_closed_iff]

theorem openCalls_perm : s.openCalls.Perm s.running.values.flatten := by
  unfold openCalls
  induction s.running.values with
  | nil => exact .refl _
  | cons calls rest ih =>
    simp only [List.map_cons, List.flatten_cons]
    exact calls.reverse_perm.append ih

theorem mem_openCalls_iff {r : CallRecord} : r ∈ s.openCalls ↔ ∃ t, r ∈ s.stack t :=
  (openCalls_perm s).mem_iff.trans (mem_running_iff s)

theorem size_eq_length : s.size = s.openCalls.length := by
  rw [(openCalls_perm s).length_eq, List.length_flatten, size, List.sum_eq_foldl_nat]

theorem size_eq_zero_iff : s.size = 0 ↔ ∀ t, s.stack t = [] := by
  rw [size_eq_length, List.length_eq_zero_iff, List.eq_nil_iff_forall_not_mem]
  simp only [(openCalls_perm s).mem_iff, mem_running_iff, not_exists, List.eq_nil_iff_forall_not_mem]
  exact forall_comm

/-- The records besides those of one thread's stack stay as the stack changes. -/
theorem records_setStack (t : Thread) :
    ∃ rest, s.records.Perm (s.stack t ++ rest) ∧
      ∀ calls, (s.setStack t calls).records.Perm (calls ++ rest) := by
  obtain ⟨rest, hs, hset⟩ := Keyed.flatten_values_split s.running t
  refine ⟨rest ++ s.closed.values.flatten, ?_, fun calls => ?_⟩
  · simpa [records, stack] using hs.append_right s.closed.values.flatten
  · simpa [records, setStack, Keyed.insert] using
      (hset fun _ => calls).append_right s.closed.values.flatten

theorem map_id_adopt (id : UInt64) (calls : List CallRecord) :
    (adopt id calls).map (·.id) = calls.map (·.id) := by
  cases calls <;> rfl

/-- The numbers after an entry. -/
theorem ids_enter (e : CallEvent) :
    ((s.enter e).1.records.map (·.id)).Perm (s.nextId :: s.records.map (·.id)) := by
  obtain ⟨rest, hrec, hset⟩ := records_setStack s e.thread
  refine ((hset _).map (·.id)).trans ?_
  simpa [map_id_adopt, CallRecord.opened] using (hrec.map (·.id)).symm.cons s.nextId

theorem frameCalls_settle (c : CallRecord) (d : Nat) :
    (s.settle c d).frameCalls.Perm (c :: s.frameCalls) := by
  obtain ⟨rest, hs, hset⟩ := Keyed.flatten_values_split s.closed c.function
  exact (hset _).trans (((List.perm_append_singleton c _).append_right rest).trans (hs.symm.cons c))

theorem records_settle (c : CallRecord) (d : Nat) : (s.settle c d).records.Perm (c :: s.records) :=
  ((frameCalls_settle s c d).append_left s.running.values.flatten).trans List.perm_middle

/-- The calls closed in this frame besides those of one function stay as that function is labelled. -/
theorem frameCalls_setLabels (f : UInt64) (ls : List Label) :
    ∃ rest, s.frameCalls.Perm (s.closedCalls f ++ rest) ∧
      (s.setLabels f ls).frameCalls.Perm (labelCalls (s.closedCalls f) ls ++ rest) := by
  cases h : s.closed.get? f with
  | none =>
    refine ⟨s.frameCalls, by simp [closedCalls, h], ?_⟩
    simp [setLabels, closedCalls, h, labelCalls]
  | some calls =>
    obtain ⟨rest, hs, hset⟩ := Keyed.flatten_values_split s.closed f
    refine ⟨rest, ?_, ?_⟩
    · simpa [frameCalls, closedCalls, h] using hs
    · simpa [frameCalls, setLabels, closedCalls, h, Keyed.insert] using hset fun _ => labelCalls calls ls

theorem records_setLabels (f : UInt64) (ls : List Label) :
    ∃ rest, s.records.Perm (s.closedCalls f ++ rest) ∧
      (s.setLabels f ls).records.Perm (labelCalls (s.closedCalls f) ls ++ rest) := by
  obtain ⟨rest, hold, hnew⟩ := frameCalls_setLabels s f ls
  have move (xs : List CallRecord) : (s.running.values.flatten ++ (xs ++ rest)).Perm
      (xs ++ (s.running.values.flatten ++ rest)) := by
    simpa using List.perm_append_comm.append_right rest
  refine ⟨s.running.values.flatten ++ rest, ?_, ?_⟩
  · exact (hold.append_left s.running.values.flatten).trans (move _)
  · rw [records, running_setLabels]
    exact (hnew.append_left s.running.values.flatten).trans (move _)

@[simp] theorem records_releaseFrame : s.releaseFrame.records = s.running.values.flatten := by
  simp [records, releaseFrame]

/-! ### Fields that stay as they are -/

section Fields

variable (t : Thread) (calls : List CallRecord) (c : CallRecord) (d : Nat) (f : UInt64)
  (ls : List Label) (names : FunctionTable)

@[simp] theorem functions_setStack : (s.setStack t calls).functions = s.functions := rfl

@[simp] theorem nextId_setStack : (s.setStack t calls).nextId = s.nextId := rfl

@[simp] theorem frameCalls_setStack : (s.setStack t calls).frameCalls = s.frameCalls := rfl

@[simp] theorem closedCalls_setStack : (s.setStack t calls).closedCalls f = s.closedCalls f := rfl

@[simp] theorem maxDepth_setStack : (s.setStack t calls).maxDepth f = s.maxDepth f := rfl

@[simp] theorem functions_settle : (s.settle c d).functions = s.functions := rfl

@[simp] theorem nextId_settle : (s.settle c d).nextId = s.nextId := rfl

@[simp] theorem functions_setLabels : (s.setLabels f ls).functions = s.functions := by
  unfold setLabels
  split <;> rfl

@[simp] theorem nextId_setLabels : (s.setLabels f ls).nextId = s.nextId := by
  unfold setLabels
  split <;> rfl

@[simp] theorem functions_releaseFrame : s.releaseFrame.functions = s.functions := rfl

@[simp] theorem nextId_releaseFrame : s.releaseFrame.nextId = s.nextId := rfl

@[simp] theorem frameCalls_releaseFrame : s.releaseFrame.frameCalls = [] := rfl

@[simp] theorem functions_updateFunctions :
    (s.updateFunctions names).functions = s.functions.insertAll names.toList := rfl

@[simp] theorem nextId_updateFunctions : (s.updateFunctions names).nextId = s.nextId := rfl

@[simp] theorem records_updateFunctions : (s.updateFunctions names).records = s.records := rfl

@[simp] theorem frameCalls_updateFunctions : (s.updateFunctions names).frameCalls = s.frameCalls := rfl

end Fields

end CallStacks

end TraceAnomaly
