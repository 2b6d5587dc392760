import TraceAnomaly.Proofs.CallStack.Records

/-! What is true of the call stacks after every history: open calls are open and made by the ones
below them, closed calls stand under their function with a runtime. -/

namespace TraceAnomaly

namespace CallRecord

/-- An open call of a thread, made by the call with number `parent` if there is one. -/
def Running (r : CallRecord) (t : Thread) (parent : Option UInt64) : Prop :=
  r.exit = none ∧ r.runtime = none ∧ r.thread = t ∧ r.parent = parent

def Finished (r : CallRecord) (f : UInt64) : Prop :=
  r.function = f ∧ ∃ x, r.exit = some x ∧ r.entry ≤ x ∧ r.runtime = some (x - r.entry)

def unlabelled (r : CallRecord) : CallRecord := { r with label := .normal }

end CallRecord

namespace CallStacks

/-- The open calls of a thread, innermost first, each made by the one below it. -/
def Nested (t : Thread) : List CallRecord → Prop
  | [] => True
  | r :: outer => r.Running t (outer.head?.map (·.id)) ∧ Nested t outer

theorem Nested.running {t : Thread} {calls inner outer : List CallRecord} {r : CallRecord}
    (h : Nested t calls) (hc : calls = inner ++ r :: outer) :
    r.Running t (outer.head?.map (·.id)) := by
  induction inner generalizing calls with
  | nil => subst hc; exact h.1
  | cons c inner ih => subst hc; exact ih h.2 rfl

/-- The caller of an open call is open too, below the innermost one. -/
theorem Nested.parent_mem {t : Thread} {q c : CallRecord} {outer : List CallRecord} {id : UInt64}
    (h : Nested t (q :: outer)) (hc : c ∈ q :: outer) (hp : c.parent = some id) :
    id ∈ outer.map (·.id) := by
  obtain ⟨inner, below, hsplit⟩ := List.append_of_mem hc
  obtain ⟨-, -, -, hparent⟩ := h.running hsplit
  rw [hparent] at hp
  obtain ⟨d, hd, rfl⟩ := Option.map_eq_some_iff.1 hp
  have hmem : d ∈ below := List.mem_of_head? hd
  refine List.mem_map_of_mem ?_
  cases inner with
  | nil => exact (List.cons.inj hsplit).2 ▸ hmem
  | cons e inner => rw [(List.cons.inj hsplit).2]; simp [hmem]

theorem Nested.adopt {t : Thread} {calls : List CallRecord} (h : Nested t calls) (id : UInt64) :
    Nested t (adopt id calls) := by
  cases calls with
  | nil => trivial
  | cons c outer => exact h

@[simp] theorem head?_adopt (calls : List CallRecord) (id : UInt64) :
    (adopt id calls).head?.map (·.id) = calls.head?.map (·.id) := by
  cases calls <;> rfl

/-! ### Labelling -/

@[simp] theorem length_labelCalls (cs : List CallRecord) (ls : List Label) :
    (labelCalls cs ls).length = cs.length := by
  fun_induction labelCalls cs ls <;> simp_all

theorem map_id_labelCalls (cs : List CallRecord) (ls : List Label) :
    (labelCalls cs ls).map (·.id) = cs.map (·.id) := by
  fun_induction labelCalls cs ls <;> simp_all

theorem mem_labelCalls {cs : List CallRecord} {ls : List Label} {r : CallRecord}
    (h : r ∈ labelCalls cs ls) : ∃ c ∈ cs, ∃ l, r = { c with label := l } := by
  fun_induction labelCalls cs ls with
  | case1 c cs l ls ih =>
    rcases List.mem_cons.1 h with rfl | h
    · exact ⟨c, by simp, l, rfl⟩
    · obtain ⟨c', hc', hl⟩ := ih h
      exact ⟨c', by simp [hc'], hl⟩
  | case2 cs ls _ => exact ⟨r, h, r.label, rfl⟩

theorem map_unlabelled_labelCalls (cs : List CallRecord) (ls : List Label) :
    (labelCalls cs ls).map CallRecord.unlabelled = cs.map CallRecord.unlabelled := by
  fun_induction labelCalls cs ls with
  | case1 c cs l ls ih => simpa using ⟨rfl, ih⟩
  | case2 cs ls _ => rfl

/-- The calls of a frame are listed by function. -/
theorem filter_frameCalls_of_placed {s : CallStacks} (h : ∀ f, ∀ c ∈ s.closedCalls f, c.function = f)
    (f : UInt64) : s.frameCalls.filter (·.function = f) = s.closedCalls f := by
  refine Keyed.filter_flatten_values s.closed CallRecord.function (fun g calls hg c hc => ?_) f
  have hclosed : c ∈ s.closedCalls g := by rwa [closedCalls, hg]
  exact h g c hclosed

structure WellFormed (s : CallStacks) : Prop where
  nested : ∀ t, Nested t (s.stack t)
  finished : ∀ f, ∀ r ∈ s.closedCalls f, r.Finished f
  occupied : ∀ f, s.closed.get? f ≠ some []

namespace WellFormed

theorem start (names : FunctionTable) : WellFormed { functions := names } where
  nested _ := trivial
  finished _ _ hr := by simp [closedCalls] at hr
  occupied _ := by simp

variable {s : CallStacks}

theorem enter (h : s.WellFormed) (e : CallEvent) : (s.enter e).1.WellFormed where
  nested t := by
    rw [stack_enter]
    split
    · rename_i ht
      subst ht
      exact ⟨⟨rfl, rfl, rfl, by simp [CallRecord.opened]⟩, (h.nested _).adopt _⟩
    · exact h.nested t
  finished f r hr := h.finished f r hr
  occupied := h.occupied

theorem setStack (h : s.WellFormed) {t : Thread} {calls : List CallRecord} (hc : Nested t calls) :
    (s.setStack t calls).WellFormed where
  nested u := by
    rw [stack_setStack]
    split
    · rename_i hu
      exact hu ▸ hc
    · exact h.nested u
  finished := h.finished
  occupied := h.occupied

theorem settle (h : s.WellFormed) {c : CallRecord} (hc : c.Finished c.function) (d : Nat) :
    (s.settle c d).WellFormed where
  nested := h.nested
  finished f r hr := by
    rw [closedCalls_settle] at hr
    split at hr
    · rename_i hf
      rcases List.mem_append.1 hr with hr | hr
      · exact h.finished f r hr
      · rw [List.mem_singleton.1 hr, hf]
        exact hc
    · exact h.finished f r hr
  occupied f := by
    simp only [CallStacks.settle, Keyed.get?_alter]
    split
    · simp
    · exact h.occupied f

theorem leave (h : s.WellFormed) (e : CallEvent) : (s.leave e).1.WellFormed := by
  rcases leave_cases s e with ⟨-, hs⟩ | ⟨c, outer, hst, ⟨-, hs⟩ | ⟨-, -, hs⟩ | ⟨-, ht, hs⟩⟩
  · rw [hs]; exact h
  all_goals
    rw [hs]
    have hout := (hst ▸ h.nested e.thread : Nested e.thread (c :: outer)).2
  · exact h.setStack hout
  · exact h.setStack hout
  · have hc : (c.close e.time).Finished (c.close e.time).function := ⟨rfl, e.time, rfl, ht, rfl⟩
    exact (h.setStack hout).settle hc _

theorem attach (h : s.WellFormed) (e : MessageEvent) : (s.attach e).1.WellFormed := by
  rcases attach_cases s e with ⟨-, hs⟩ | ⟨c, outer, hst, hs⟩
  · rw [hs]; exact h
  · rw [hs]
    have hnest : Nested e.thread (c :: outer) := hst ▸ h.nested e.thread
    exact h.setStack hnest

theorem setLabels (h : s.WellFormed) (f : UInt64) (ls : List Label) :
    (s.setLabels f ls).WellFormed where
  nested t := by simpa using h.nested t
  finished g r hr := by
    rw [closedCalls_setLabels] at hr
    split at hr
    · obtain ⟨c, hc, l, rfl⟩ := mem_labelCalls hr
      exact h.finished g c hc
    · exact h.finished g r hr
  occupied g := by
    rw [get?_closed_setLabels]
    split
    · intro hg
      obtain ⟨calls, hcalls, hl⟩ := Option.map_eq_some_iff.1 hg
      have hlen := length_labelCalls calls ls
      rw [hl, List.length_nil] at hlen
      exact h.occupied g (hcalls.trans (by rw [List.length_eq_zero_iff.1 hlen.symm]))
    · exact h.occupied g

theorem releaseFrame (h : s.WellFormed) : s.releaseFrame.WellFormed where
  nested := h.nested
  finished _ _ hr := by simp [CallStacks.releaseFrame, closedCalls] at hr
  occupied _ := by simp [CallStacks.releaseFrame]

/-- A call on the stack of a thread is an open call of the thread. -/
theorem of_mem_stack (h : s.WellFormed) {t : Thread} {r : CallRecord} (hr : r ∈ s.stack t) :
    r.thread = t ∧ r.exit = none := by
  obtain ⟨inner, outer, hst⟩ := List.append_of_mem hr
  obtain ⟨hexit, -, hthread, -⟩ := (h.nested t).running hst
  exact ⟨hthread, hexit⟩

/-! ### The calls of a frame -/

theorem mem_frameFunctions_iff (h : s.WellFormed) {f : UInt64} :
    f ∈ s.frameFunctions ↔ s.closedCalls f ≠ [] := by
  rw [frameFunctions, Keyed.mem_keys_iff, closedCalls]
  have hne := h.occupied f
  cases hget : s.closed.get? f with
  | none => simp
  | some calls => simpa [hget] using hne

theorem filter_frameCalls (h : s.WellFormed) (f : UInt64) :
    s.frameCalls.filter (·.function = f) = s.closedCalls f :=
  filter_frameCalls_of_placed (fun g c hc => (h.finished g c hc).1) f

/-- The calls of a frame are sorted by function. -/
theorem sorted_frameCalls (h : s.WellFormed) :
    s.frameCalls.Pairwise fun c d => c.function ≤ d.function := by
  have hfun : ∀ f calls, s.closed.get? f = some calls → ∀ c ∈ calls, c.function = f := fun f calls hf c hc => by
    have hclosed : c ∈ s.closedCalls f := by rwa [closedCalls, hf]
    exact (h.finished f c hclosed).1
  exact (s.closed.pairwise_flatten_values CallRecord.function hfun).imp Std.isLE_compare.1

end WellFormed

theorem wellFormed_kept : Kept WellFormed where
  enter _ e h := h.enter e
  leave _ e h := h.leave e
  attach _ e h := h.attach e
  setLabels _ f ls h := h.setLabels f ls
  releaseFrame _ h := h.releaseFrame
  updateFunctions _ _ h := ⟨h.nested, h.finished, h.occupied⟩

end CallStacks

end TraceAnomaly
