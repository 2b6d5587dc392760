import Mathlib.Data.List.Forall2
import Mathlib.Data.List.Perm.Basic
import TraceAnomaly.Proofs.Json.Document

/-! Documents that differ in the order of the members of their objects alone. A table has no order of its own,
so whoever writes one may write its members in any order, at any depth of a document. -/

namespace TraceAnomaly.Json

/-- The same document, but for the order in which the members of its objects are written. -/
inductive Rearranged : Json → Json → Prop
  | null : Rearranged .null .null
  | bool (b : Bool) : Rearranged (.bool b) (.bool b)
  | number (n : List Char) : Rearranged (.number n) (.number n)
  | string (t : List Char) : Rearranged (.string t) (.string t)
  | array {vs ws : List Json} (h : List.Forall₂ Rearranged vs ws) : Rearranged (.array vs) (.array ws)
  | object {ms ns ls : List (List Char × Json)} (hkeys : ms.map Prod.fst = ns.map Prod.fst)
      (hvalues : List.Forall₂ Rearranged (ms.map Prod.snd) (ns.map Prod.snd)) (horder : ns.Perm ls) :
      Rearranged (.object ms) (.object ls)

def isAtom : Json → Bool
  | .array _ | .object _ => false
  | _ => true

theorem Rearranged.eq_of_isAtom {j k : Json} (h : Rearranged j k) (hatom : j.isAtom) : k = j := by
  cases h <;> first | rfl | cases hatom

theorem exists_of_mem_right {α β : Type*} {R : α → β → Prop} {as : List α} {bs : List β}
    (h : List.Forall₂ R as bs) {b : β} (hb : b ∈ bs) : ∃ a ∈ as, R a b := by
  induction h with
  | nil => cases hb
  | cons hab _ ih =>
    rcases List.mem_cons.1 hb with rfl | hb
    · exact ⟨_, List.mem_cons_self .., hab⟩
    · obtain ⟨a, ha, hab⟩ := ih hb
      exact ⟨a, List.mem_cons_of_mem _ ha, hab⟩

/-- The members of an object are those of the other in some order, each with its value arranged. -/
theorem Rearranged.members {ms : List (List Char × Json)} {j : Json} (h : Rearranged (.object ms) j) :
    ∃ ls, j = .object ls ∧ ∃ ns, ms.Perm ns ∧ List.Forall₂ (fun n l => n.1 = l.1 ∧ Rearranged n.2 l.2) ns ls := by
  cases h with
  | @object ms ns ls hkeys hvalues horder =>
    have hpairs : List.Forall₂ (fun m n => m.1 = n.1 ∧ Rearranged m.2 n.2) ms ns := by
      clear horder
      induction ms generalizing ns with
      | nil =>
        obtain rfl := List.map_eq_nil_iff.1 hkeys.symm
        exact .nil
      | cons m ms ih =>
        cases ns with
        | nil => cases hkeys
        | cons n ns =>
          obtain ⟨hkey, hkeys⟩ := List.cons.inj hkeys
          obtain ⟨hvalue, hvalues⟩ := List.forall₂_cons.1 hvalues
          exact .cons ⟨hkey, hvalue⟩ (ih hkeys hvalues)
    have hcomp : Relation.Comp (List.Forall₂ _) List.Perm ms ls := ⟨ns, hpairs, horder⟩
    rw [List.forall₂_comp_perm_eq_perm_comp_forall₂] at hcomp
    exact ⟨ls, rfl, hcomp⟩

/-- Any member of an object may be taken out, and what is left is an arrangement of what was left before. -/
theorem Rearranged.take_out {m : List Char × Json} {ms : List (List Char × Json)} {j : Json}
    (h : Rearranged (.object (m :: ms)) j) : ∃ front v back, j = .object (front ++ (m.1, v) :: back) ∧
      Rearranged m.2 v ∧ Rearranged (.object ms) (.object (front ++ back)) := by
  cases h with
  | @object _ ns ls hkeys hvalues horder =>
    cases ns with
    | nil => cases hkeys
    | cons n ns =>
      obtain ⟨hkey, hkeys⟩ := List.cons.inj hkeys
      obtain ⟨hvalue, hvalues⟩ := List.forall₂_cons.1 hvalues
      obtain ⟨front, back, rfl⟩ := List.append_of_mem (horder.mem_iff.1 (List.mem_cons_self ..))
      have hrest : ns.Perm (front ++ back) := (List.perm_cons n).1 (horder.trans List.perm_middle)
      refine ⟨front, n.2, back, ?_, hvalue, .object hkeys hvalues hrest⟩
      rw [hkey]

/-- Where the members come from other things, each one comes from its own thing, whatever the order. -/
theorem Rearranged.members_map {α : Type*} {es : List α} {member : α → List Char × Json} {j : Json}
    (h : Rearranged (.object (es.map member)) j) : ∃ ls, j = .object ls ∧ ∃ fs, es.Perm fs ∧
      List.Forall₂ (fun e l => (member e).1 = l.1 ∧ Rearranged (member e).2 l.2) fs ls := by
  obtain ⟨ls, rfl, ns, horder, hpairs⟩ := h.members
  have hcomp : Relation.Comp (· = List.map member ·) List.Perm ns es := by
    rw [List.eq_map_comp_perm]
    exact horder.symm
  obtain ⟨fs, rfl, hperm⟩ := hcomp
  exact ⟨ls, rfl, fs, hperm.symm, List.forall₂_map_left_iff.1 hpairs⟩

/-- A document is an arrangement of itself. -/
theorem Writable.rearranged_self {j : Json} (h : Writable j) : Rearranged j j := by
  induction h with
  | null => exact .null
  | bool b => exact .bool b
  | number h => exact .number _
  | string h => exact .string _
  | array h ih => exact .array (List.forall₂_same.2 ih)
  | object hkeys hvalues ih =>
    refine .object rfl (List.forall₂_same.2 fun v hv => ?_) (List.Perm.refl _)
    obtain ⟨m, hm, rfl⟩ := List.mem_map.1 hv
    exact ih m hm

/-- No arrangement takes anything away from what can be written. -/
theorem Writable.of_rearranged {j k : Json} (h : Writable j) (hk : Rearranged j k) : Writable k := by
  induction h generalizing k with
  | null => cases hk; exact .null
  | bool b => cases hk; exact .bool b
  | number h => cases hk; exact .number h
  | string h => cases hk; exact .string h
  | array h ih =>
    cases hk with
    | array hitems =>
      refine .array fun w hw => ?_
      obtain ⟨v, hv, hvw⟩ := exists_of_mem_right hitems hw
      exact ih v hv hvw
  | object hkeys hvalues ih =>
    obtain ⟨ls, rfl, ns, horder, hpairs⟩ := hk.members
    refine .object (fun l hl => ?_) (fun l hl => ?_)
    · obtain ⟨m, hm, hkey, -⟩ := exists_of_mem_right hpairs hl
      exact hkey ▸ hkeys m (horder.mem_iff.2 hm)
    · obtain ⟨m, hm, -, hvalue⟩ := exists_of_mem_right hpairs hl
      exact ih m (horder.mem_iff.2 hm) hvalue

end TraceAnomaly.Json
