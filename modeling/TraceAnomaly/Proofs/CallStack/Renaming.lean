import Mathlib.Data.List.GetD
import Mathlib.Data.List.Nodup
import TraceAnomaly.Proofs.CallStack.Conservation

/-! Other numbers for the same calls. Records, answers and happenings are renamed by a function on
numbers. Numbers that were given out per thread can be exchanged for others, one for one. -/

namespace TraceAnomaly

namespace CallRecord

/-- The same call under other numbers. -/
def rename (ρ : UInt64 → UInt64) (r : CallRecord) : CallRecord :=
  { r with id := ρ r.id, parent := r.parent.map ρ, children := r.children.map ρ }

/-- The numbers in a record: its own, that of its caller and those of the calls made from it. -/
def ids (r : CallRecord) : List UInt64 := r.id :: (r.parent.toList ++ r.children)

variable (ρ σ : UInt64 → UInt64) (r : CallRecord)

theorem rename_rename : (r.rename σ).rename ρ = r.rename (ρ ∘ σ) := by
  simp [rename]

theorem rename_eq_self {r : CallRecord} (h : ∀ id ∈ r.ids, ρ id = id) : r.rename ρ = r := by
  have hid : ρ r.id = r.id := h _ (by simp [ids])
  have hparent : r.parent.map ρ = r.parent := by
    cases hp : r.parent with
    | none => rfl
    | some id => exact congrArg some (h id (by simp [ids, hp]))
  have hchildren : r.children.map ρ = r.children :=
    (List.map_congr_left fun id hid => h id (by simp [ids, hid])).trans r.children.map_id
  simp [rename, hid, hparent, hchildren]

@[simp] theorem rename_opened (id : UInt64) (name : String) (e : CallEvent) (parent : Option UInt64) :
    (opened id name e parent).rename ρ = opened (ρ id) name e (parent.map ρ) := rfl

@[simp] theorem rename_addChild (id : UInt64) :
    (r.addChild id).rename ρ = (r.rename ρ).addChild (ρ id) := by
  simp [rename, addChild]

@[simp] theorem rename_close (exit : UInt64) :
    (r.close exit).rename ρ = (r.rename ρ).close exit := rfl

@[simp] theorem id_rename : (r.rename ρ).id = ρ r.id := rfl

@[simp] theorem thread_rename : (r.rename ρ).thread = r.thread := rfl

@[simp] theorem function_rename : (r.rename ρ).function = r.function := rfl

@[simp] theorem entry_rename : (r.rename ρ).entry = r.entry := rfl

end CallRecord

def Violation.rename (ρ : UInt64 → UInt64) : Violation → Violation
  | functionMismatch t f time id g => functionMismatch t f time (ρ id) g
  | v => v

def Reply.rename (ρ : UInt64 → UInt64) : Reply → Reply
  | opened id => opened (ρ id)
  | left outcome => left ((outcome.map ρ).mapError (Violation.rename ρ))
  | called outcome => called (outcome.mapError (Violation.rename ρ))
  | ingested n outcome =>
    ingested n (outcome.mapError fun e => { e with violation := e.violation.rename ρ })
  | released calls => released (calls.map (CallRecord.rename ρ))
  | r => r

theorem Violation.rename_rename (ρ σ : UInt64 → UInt64) (v : Violation) :
    (v.rename σ).rename ρ = v.rename (ρ ∘ σ) := by
  cases v <;> rfl

theorem Reply.rename_rename (ρ σ : UInt64 → UInt64) (r : Reply) :
    (r.rename σ).rename ρ = r.rename (ρ ∘ σ) := by
  cases r with
  | left outcome | called outcome | ingested _ outcome =>
    cases outcome <;> simp [Reply.rename, Except.map, Except.mapError, Violation.rename_rename]
  | released calls => simp [Reply.rename, CallRecord.rename_rename]
  | opened | attached | done => rfl

namespace Happening

def rename (ρ : UInt64 → UInt64) : Happening → Happening
  | opened id e => opened (ρ id) e
  | closed call depth x => closed (call.rename ρ) depth x
  | discarded id x => discarded (ρ id) x
  | released calls => released (calls.map (CallRecord.rename ρ))
  | h => h

variable (ρ σ : UInt64 → UInt64) (h : Happening)

theorem rename_rename : (h.rename σ).rename ρ = h.rename (ρ ∘ σ) := by
  cases h <;> simp [rename, CallRecord.rename_rename]

end Happening

namespace CallStacks

theorem map_rename_adopt (ρ : UInt64 → UInt64) (id : UInt64) (calls : List CallRecord) :
    (adopt id calls).map (CallRecord.rename ρ) = adopt (ρ id) (calls.map (CallRecord.rename ρ)) := by
  cases calls with
  | nil => rfl
  | cons c outer => simp [adopt]

end CallStacks

/-! ### Numbers in records -/

namespace CallRecord

variable (r : CallRecord)

@[simp] theorem ids_close (exit : UInt64) : (r.close exit).ids = r.ids := rfl

@[simp] theorem ids_addMessage (m : Message) : (r.addMessage m).ids = r.ids := rfl

@[simp] theorem ids_addChild (id : UInt64) : (r.addChild id).ids = r.ids ++ [id] := by
  simp [ids, addChild]

end CallRecord

namespace CallStacks

/-- All numbers in records were given out. -/
structure Numbered (H : History) (s : CallStacks) : Prop where
  stack : ∀ t, ∀ r ∈ s.stack t, r.ids ⊆ H.openedIds
  closed : ∀ f, ∀ r ∈ s.closedCalls f, r.ids ⊆ H.openedIds

namespace Numbered

variable {H : History} {s : CallStacks}

theorem initial (names : FunctionTable) : Numbered [] { functions := names } where
  stack _ r hr := by simp [CallStacks.stack] at hr
  closed _ r hr := by simp [closedCalls] at hr

theorem append (h : Numbered H s) (K : History) : Numbered (H ++ K) s where
  stack t r hr := by
    rw [History.openedIds_append]
    exact List.Subset.trans (h.stack t r hr) (List.subset_append_left _ _)
  closed f r hr := by
    rw [History.openedIds_append]
    exact List.Subset.trans (h.closed f r hr) (List.subset_append_left _ _)

theorem setStack (h : Numbered H s) {t : Thread} {calls : List CallRecord}
    (hcalls : ∀ r ∈ calls, r.ids ⊆ H.openedIds) : Numbered H (s.setStack t calls) where
  stack u r hr := by
    rw [stack_setStack] at hr
    split at hr
    · exact hcalls r hr
    · exact h.stack u r hr
  closed := h.closed

theorem enter (h : Numbered H s) (e : CallEvent) :
    Numbered (H ++ [.opened (s.enter e).2 e]) (s.enter e).1 := by
  have hids : History.openedIds (H ++ [.opened (s.enter e).2 e]) = H.openedIds ++ [s.nextId] := by
    simp [CallStacks.enter]
  have hcalls : ∀ r ∈ CallRecord.opened s.nextId (s.functions.name e.function) e
      ((s.stack e.thread).head?.map CallRecord.id) :: adopt s.nextId (s.stack e.thread),
      r.ids ⊆ H.openedIds ++ [s.nextId] := by
    have hold := h.stack e.thread
    cases hst : s.stack e.thread with
    | nil => simp [adopt, CallRecord.ids, CallRecord.opened]
    | cons c outer =>
      rw [hst] at hold
      have hid : c.id ∈ H.openedIds := hold c (by simp) (by simp [CallRecord.ids])
      intro r hr
      simp only [adopt, List.mem_cons] at hr
      rcases hr with rfl | rfl | hr
      · simp [CallRecord.ids, CallRecord.opened, hid]
      · rw [CallRecord.ids_addChild]
        exact List.append_subset.2 ⟨List.Subset.trans (hold c (by simp)) (List.subset_append_left _ _),
          List.subset_append_right _ _⟩
      · exact List.Subset.trans (hold r (by simp [hr])) (List.subset_append_left _ _)
  have hset := (h.append [.opened (s.enter e).2 e]).setStack (t := e.thread) (hids ▸ hcalls)
  exact ⟨hset.stack, hset.closed⟩

theorem leave (h : Numbered H s) (e : CallEvent) : Numbered (H ++ [s.departure e]) (s.leave e).1 := by
  rcases departure_cases s e with ⟨hst, hs, hd⟩ | ⟨c, outer, hst, ⟨hs, hd⟩ | ⟨hf, ht, hs, hd⟩⟩
  · rw [hs]
    exact h.append _
  all_goals
    rw [hs]
    have hold : ∀ r ∈ c :: outer, r.ids ⊆ H.openedIds := hst ▸ h.stack e.thread
    have hpop := h.setStack (t := e.thread) fun r hr => hold r (List.mem_cons_of_mem c hr)
  · exact hpop.append _
  · have hsettle : Numbered H ((s.setStack e.thread outer).settle (c.close e.time) outer.length) := by
      refine ⟨hpop.stack, fun f r hr => ?_⟩
      rw [closedCalls_settle] at hr
      split at hr
      · rcases List.mem_append.1 hr with hr | hr
        · exact hpop.closed f r hr
        · rw [List.mem_singleton.1 hr, CallRecord.ids_close]
          exact hold c (by simp)
      · exact hpop.closed f r hr
    exact hsettle.append _

theorem attach (h : Numbered H s) (e : MessageEvent) : Numbered H (s.attach e).1 := by
  rcases attach_cases s e with ⟨-, hs⟩ | ⟨c, outer, hst, hs⟩
  · rw [hs]
    exact h
  · rw [hs]
    have hold : ∀ r ∈ c :: outer, r.ids ⊆ H.openedIds := hst ▸ h.stack e.thread
    exact h.setStack (by simpa using hold)

theorem setLabels (h : Numbered H s) (f : UInt64) (ls : List Label) : Numbered H (s.setLabels f ls) where
  stack t r hr := h.stack t r (by simpa using hr)
  closed g r hr := by
    rw [closedCalls_setLabels] at hr
    split at hr
    · obtain ⟨c, hc, l, rfl⟩ := mem_labelCalls hr
      have hids := h.closed g c hc
      exact hids
    · exact h.closed g r hr

theorem releaseFrame (h : Numbered H s) :
    Numbered (H ++ [.released s.frameCalls]) s.releaseFrame := by
  have hreleased : Numbered H s.releaseFrame :=
    ⟨h.stack, fun f r hr => by simp [CallStacks.releaseFrame, closedCalls] at hr⟩
  exact hreleased.append _

theorem updateFunctions (h : Numbered H s) (names : FunctionTable) :
    Numbered (H ++ [.named names]) (s.updateFunctions names) := by
  have hnamed : Numbered H (s.updateFunctions names) := ⟨h.stack, h.closed⟩
  exact hnamed.append _

theorem traced : Traced Numbered where
  enter _ _ e h := h.enter e
  leave _ _ e h := h.leave e
  attach _ _ e h := h.attach e
  setLabels _ _ f ls h := h.setLabels f ls
  releaseFrame _ _ h := h.releaseFrame
  updateFunctions _ _ names h := h.updateFunctions names

end Numbered

end CallStacks

/-! ### Renamings -/

section Families

variable {κ α : Type} [DecidableEq α] {A B : κ → List α}

/-- Lists without common elements can be exchanged for others of the same lengths. -/
theorem exists_renaming (hdisjoint : ∀ k l, ∀ x ∈ A k, x ∈ A l → k = l) (hnodup : ∀ k, (A k).Nodup)
    (hlength : ∀ k, (A k).length = (B k).length) :
    ∃ ρ : α → α, (∀ k, (A k).map ρ = B k) ∧ ∀ x, (∀ k, x ∉ A k) → ρ x = x := by
  classical
  let ρ : α → α := fun x => if h : ∃ k, x ∈ A k then (B h.choose).getD ((A h.choose).idxOf x) x else x
  have hρ : ∀ k, ∀ x ∈ A k, ρ x = (B k).getD ((A k).idxOf x) x := fun k x hx => by
    have h : ∃ k, x ∈ A k := ⟨k, hx⟩
    simp only [ρ, dif_pos h, hdisjoint _ _ x h.choose_spec hx]
  refine ⟨ρ, fun k => ?_, fun x hx => dif_neg fun ⟨k, hk⟩ => hx k hk⟩
  refine List.ext_getElem (by simp [hlength]) fun i hi hi' => ?_
  rw [List.getElem_map, hρ k _ (List.getElem_mem _), (hnodup k).idxOf_getElem,
    List.getD_eq_getElem _ _ hi']

omit [DecidableEq α] in
/-- The exchange is one for one if the others have no common elements and are the same altogether. -/
theorem injective_of_map_eq {ρ : α → α} (hmap : ∀ k, (A k).map ρ = B k)
    (hfixed : ∀ x, (∀ k, x ∉ A k) → ρ x = x) (hdisjoint : ∀ k l, ∀ x ∈ B k, x ∈ B l → k = l)
    (hnodup : ∀ k, (B k).Nodup) (hsame : ∀ x, (∃ k, x ∈ B k) → ∃ k, x ∈ A k) :
    Function.Injective ρ := by
  have himage : ∀ k, ∀ x ∈ A k, ρ x ∈ B k := fun k x hx => hmap k ▸ List.mem_map_of_mem hx
  have hinside : ∀ x y, (∃ k, x ∈ A k) → ρ x = ρ y → ∃ k, x ∈ A k ∧ y ∈ A k := by
    rintro x y ⟨k, hx⟩ hxy
    by_cases hy : ∃ l, y ∈ A l
    · obtain ⟨l, hy⟩ := hy
      have hkl := hdisjoint k l (ρ x) (himage k x hx) (hxy ▸ himage l y hy)
      exact ⟨k, hx, hkl ▸ hy⟩
    · have hfix : ρ y = y := hfixed y fun l hl => hy ⟨l, hl⟩
      exact absurd (hsame y ⟨k, hfix ▸ hxy ▸ himage k x hx⟩) hy
  intro x y hxy
  by_cases hx : ∃ k, x ∈ A k
  · obtain ⟨k, hx, hy⟩ := hinside x y hx hxy
    have hnd := hnodup k
    rw [← hmap k] at hnd
    exact List.inj_on_of_nodup_map hnd hx hy hxy
  · by_cases hy : ∃ k, y ∈ A k
    · obtain ⟨k, -, hx'⟩ := hinside y x hy hxy.symm
      exact absurd ⟨k, hx'⟩ hx
    · rw [← hfixed x fun k hk => hx ⟨k, hk⟩, hxy, hfixed y fun k hk => hy ⟨k, hk⟩]

end Families

end TraceAnomaly
