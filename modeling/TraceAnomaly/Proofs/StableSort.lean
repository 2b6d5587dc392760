import Mathlib.Data.List.Basic

/-! Lists that are sorted by a key. A merge sort keeps the order of the elements with the same key, and
a sorted list is determined by its elements of every key in their order. -/

namespace TraceAnomaly

/-- A list in which a property persists, once an element has it, is cut in two by the property. -/
theorem filter_not_append_filter {α : Type} {p : α → Bool} {l : List α}
    (h : l.Pairwise fun a b => p a → p b) : l.filter (!p ·) ++ l.filter p = l := by
  induction l with
  | nil => rfl
  | cons a l ih =>
    obtain ⟨hafter, hl⟩ := List.pairwise_cons.1 h
    cases ha : p a with
    | false => simp [ha, ih hl]
    | true =>
      have hall : ∀ b ∈ a :: l, p b := List.forall_mem_cons.2 ⟨ha, fun b hb => hafter b hb ha⟩
      have hnone : (a :: l).filter (!p ·) = [] := List.filter_eq_nil_iff.2 (by simpa using hall)
      rw [hnone, List.filter_eq_self.2 hall, List.nil_append]

variable {α κ : Type} [LE κ] [DecidableLE κ] [DecidableEq κ] [Std.IsLinearOrder κ] (key : α → κ)

omit [DecidableEq κ] in
theorem sorted_mergeSort (l : List α) :
    (l.mergeSort fun a b => key a ≤ key b).Pairwise fun a b => key a ≤ key b := by
  have htrans : ∀ a b c, key a ≤ key b → key b ≤ key c → key a ≤ key c := fun _ _ _ => Std.le_trans
  have htotal : ∀ a b, key a ≤ key b ∨ key b ≤ key a := fun _ _ => Std.le_total
  have hsorted : (l.mergeSort fun a b => key a ≤ key b).Pairwise
      fun a b => decide (key a ≤ key b) = true :=
    List.pairwise_mergeSort (by simpa using htrans) (by simpa using htotal) l
  simpa using hsorted

theorem filter_mergeSort (l : List α) (k : κ) :
    (l.mergeSort fun a b => key a ≤ key b).filter (key · = k) = l.filter (key · = k) := by
  have htrans : ∀ a b c, key a ≤ key b → key b ≤ key c → key a ≤ key c := fun _ _ _ => Std.le_trans
  have htotal : ∀ a b, key a ≤ key b ∨ key b ≤ key a := fun _ _ => Std.le_total
  have hequal : (l.filter (key · = k)).Pairwise fun a b => decide (key a ≤ key b) = true := by
    refine List.pairwise_of_forall_mem_list fun a ha b hb => ?_
    have hka : key a = k := by simpa using (List.mem_filter.1 ha).2
    have hkb : key b = k := by simpa using (List.mem_filter.1 hb).2
    simp [hka, hkb]
  have hsub : (l.filter (key · = k)).Sublist (l.mergeSort fun a b => key a ≤ key b) :=
    List.sublist_mergeSort (by simpa using htrans) (by simpa using htotal) hequal List.filter_sublist
  have hfilter := hsub.filter (key · = k)
  rw [List.filter_filter] at hfilter
  simp only [Bool.and_self] at hfilter
  exact (hfilter.eq_of_length ((List.mergeSort_perm l _).filter _).length_eq.symm).symm

omit [DecidableLE κ] in
theorem eq_of_filter_eq {l m : List α} (hl : l.Pairwise fun a b => key a ≤ key b)
    (hm : m.Pairwise fun a b => key a ≤ key b)
    (h : ∀ k, l.filter (key · = k) = m.filter (key · = k)) : l = m := by
  induction l generalizing m with
  | nil =>
    cases m with
    | nil => rfl
    | cons b m => simpa using h (key b)
  | cons a l ih =>
    cases m with
    | nil => simpa using h (key a)
    | cons b m =>
      have hmem : ∀ c, c ∈ a :: l ↔ c ∈ b :: m := fun c => by
        simpa using congrArg (c ∈ ·) (h (key c))
      obtain ⟨hleast_a, hl'⟩ := List.pairwise_cons.1 hl
      obtain ⟨hleast_b, hm'⟩ := List.pairwise_cons.1 hm
      have hab : key a ≤ key b := by
        rcases List.mem_cons.1 ((hmem b).2 (by simp)) with rfl | hb
        · exact Std.le_refl _
        · exact hleast_a b hb
      have hba : key b ≤ key a := by
        rcases List.mem_cons.1 ((hmem a).1 (by simp)) with rfl | ha
        · exact Std.le_refl _
        · exact hleast_b a ha
      have hkey : key b = key a := Std.le_antisymm hba hab
      have hhead := h (key a)
      rw [List.filter_cons_of_pos (by simp), List.filter_cons_of_pos (by simpa using hkey)] at hhead
      obtain rfl : a = b := (List.cons.inj hhead).1
      have htail : ∀ k, l.filter (key · = k) = m.filter (key · = k) := fun k => by
        have hk := h k
        simp only [List.filter_cons] at hk
        split at hk
        · exact (List.cons.inj hk).2
        · exact hk
      rw [ih hl' hm' htail]

/-- A sorted list with the same elements of every key, in the same order, is the sorted one. -/
theorem eq_mergeSort {l m : List α} (hl : l.Pairwise fun a b => key a ≤ key b)
    (h : ∀ k, l.filter (key · = k) = m.filter (key · = k)) :
    l = m.mergeSort fun a b => key a ≤ key b :=
  eq_of_filter_eq key hl (sorted_mergeSort key m) fun k => (h k).trans (filter_mergeSort key m k).symm

/-- Choosing elements commutes with sorting. -/
theorem mergeSort_filter (p : α → Bool) (l : List α) :
    (l.mergeSort fun a b => key a ≤ key b).filter p = (l.filter p).mergeSort fun a b => key a ≤ key b := by
  refine eq_mergeSort key ((sorted_mergeSort key l).filter p) fun k => ?_
  rw [List.filter_comm, filter_mergeSort, List.filter_comm]

/-- Sorting keeps what holds between an element and those after it, as far as they have the same key. -/
theorem pairwise_mergeSort_ties {R : α → α → Prop} {l : List α} (h : l.Pairwise R) :
    (l.mergeSort fun a b => key a ≤ key b).Pairwise fun a b =>
      key a ≤ key b ∧ (key a = key b → R a b) := by
  have hsorted := sorted_mergeSort key l
  rw [List.pairwise_iff_forall_sublist] at hsorted ⊢
  intro a b hab
  refine ⟨hsorted hab, fun hkey => ?_⟩
  -- the two elements stand in the list as they stand in the sorted one
  have htied : [a, b].Sublist (l.filter (key · = key a)) := by
    have hfilter := hab.filter (key · = key a)
    rwa [filter_mergeSort, List.filter_eq_self.2 (by simp [hkey])] at hfilter
  exact List.pairwise_iff_forall_sublist.1 h (htied.trans List.filter_sublist)

omit [LE κ] [DecidableLE κ] [DecidableEq κ] [Std.IsLinearOrder κ] in
/-- Where all elements come before those after them, an element is among the first `k` just if fewer than `k`
come before it. -/
theorem mem_take_iff_countP_lt (before : α → α → Bool) {l : List α}
    (h : l.Pairwise fun a b => before a b ∧ ¬ before b a) (hself : ∀ a ∈ l, ¬ before a a) {a : α}
    (ha : a ∈ l) (k : ℕ) : a ∈ l.take k ↔ l.countP (before · a) < k := by
  induction l generalizing k with
  | nil => simp at ha
  | cons b l ih =>
    obtain ⟨hb, hl⟩ := List.pairwise_cons.1 h
    cases k with
    | zero => simp
    | succ k =>
      rw [List.take_succ_cons, List.mem_cons]
      by_cases hmem : a ∈ l
      · have hself' : ∀ c ∈ l, ¬ before c c := fun c hc => hself c (List.mem_cons_of_mem _ hc)
        have hne : a ≠ b := by
          rintro rfl
          exact hself' a hmem (hb a hmem).1
        rw [List.countP_cons_of_pos (p := (before · a)) (hb a hmem).1, Nat.add_lt_add_iff_right,
          ← ih hl hself' hmem]
        simp [hne]
      · obtain rfl : a = b := (List.mem_cons.1 ha).resolve_right hmem
        have hnone : (a :: l).countP (before · a) = 0 := List.countP_eq_zero.2 fun c hc => by
          rcases List.mem_cons.1 hc with rfl | hc
          · exact hself _ ha
          · exact (hb c hc).2
        simp [hnone]

end TraceAnomaly
