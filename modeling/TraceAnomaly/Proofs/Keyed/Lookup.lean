import Mathlib.Data.List.Basic
import Mathlib.Data.List.Perm.Basic
import Mathlib.Order.Defs.LinearOrder
import TraceAnomaly.Keyed

/-! The theory of finite maps. A map is determined by its look-ups; a change at one key splits the
entries into the changed one and others that stay as they are. -/

namespace TraceAnomaly.Keyed

variable {κ α β : Type} [Ord κ]

abbrev Ascending (es : List (κ × α)) : Prop := es.Pairwise fun a b => compare a.1 b.1 = .lt

@[ext] theorem ext_entries {m n : Keyed κ α} (h : m.entries = n.entries) : m = n := by
  cases m; cases n; simp_all

@[simp] theorem get?_empty (k : κ) : (empty : Keyed κ α).get? k = none := rfl

@[simp] theorem toList_empty : (empty : Keyed κ α).toList = [] := rfl

@[simp] theorem values_empty : (empty : Keyed κ α).values = [] := rfl

theorem values_eq (m : Keyed κ α) : m.values = m.toList.map Prod.snd := rfl

theorem keys_eq (m : Keyed κ α) : m.keys = m.toList.map Prod.fst := rfl

@[simp] theorem toList_mapValues (m : Keyed κ α) (f : α → β) :
    (m.mapValues f).toList = m.toList.map fun e => (e.1, f e.2) := rfl

@[simp] theorem values_mapValues (m : Keyed κ α) (f : α → β) :
    (m.mapValues f).values = m.values.map f := by
  simp [values_eq]

theorem find_map (k : κ) (f : α → β) (es : List (κ × α)) :
    find k (es.map fun e => (e.1, f e.2)) = (find k es).map f := by
  induction es with
  | nil => rfl
  | cons e rest ih =>
    simp only [List.map_cons, find]
    split <;> simp [ih]

@[simp] theorem get?_mapValues (m : Keyed κ α) (f : α → β) (k : κ) :
    (m.mapValues f).get? k = (m.get? k).map f := find_map k f m.entries

theorem isEmpty_iff (m : Keyed κ α) : m.isEmpty ↔ m = empty := by
  rw [isEmpty, List.isEmpty_iff]
  exact ⟨fun h => ext_entries h, fun h => h ▸ rfl⟩

variable [Std.TransOrd κ] [Std.LawfulEqOrd κ]

theorem find_eq_some_iff {k : κ} {a : α} {es : List (κ × α)} (h : Ascending es) :
    find k es = some a ↔ (k, a) ∈ es := by
  induction es with
  | nil => simp [find]
  | cons e rest ih =>
    obtain ⟨l, b⟩ := e
    obtain ⟨hl, hr⟩ := List.pairwise_cons.1 h
    -- a key before `l` is not among the later ones
    have hlater : ∀ c, (k, c) ∈ rest → compare l k = .lt := fun c hc => hl (k, c) hc
    simp only [find]
    split
    · rename_i hk
      simp only [List.mem_cons, Prod.mk.injEq, reduceCtorEq, false_iff, not_or, not_and]
      refine ⟨fun e => ?_, fun hm => ?_⟩
      · simp [e] at hk
      · simp [Std.OrientedCmp.gt_of_lt (hlater a hm)] at hk
    · rename_i hk
      obtain rfl := Std.LawfulEqCmp.eq_of_compare hk
      simp only [Option.some.injEq, List.mem_cons, Prod.mk.injEq, true_and]
      refine ⟨fun e => .inl e.symm, fun hm => ?_⟩
      rcases hm with e | hm
      · exact e.symm
      · have := hlater a hm
        simp at this
    · rename_i hk
      rw [ih hr]
      simp only [List.mem_cons, Prod.mk.injEq]
      refine ⟨.inr, fun hm => hm.resolve_left fun e => ?_⟩
      simp [e.1] at hk

theorem get?_eq_some_iff {m : Keyed κ α} {k : κ} {a : α} : m.get? k = some a ↔ (k, a) ∈ m.toList :=
  find_eq_some_iff m.ascending

theorem mem_keys_iff {m : Keyed κ α} {k : κ} : k ∈ m.keys ↔ ∃ a, m.get? k = some a := by
  simp [keys_eq, get?_eq_some_iff]

theorem get?_eq_none_iff {m : Keyed κ α} {k : κ} : m.get? k = none ↔ k ∉ m.keys := by
  rw [mem_keys_iff, ← Option.ne_none_iff_exists', not_not]

theorem mem_values_iff {m : Keyed κ α} {a : α} : a ∈ m.values ↔ ∃ k, m.get? k = some a := by
  simp [values_eq, get?_eq_some_iff]

omit [Std.TransOrd κ] in
theorem nodup_keys (m : Keyed κ α) : m.keys.Nodup := by
  rw [keys_eq, List.Nodup, List.pairwise_map]
  refine m.ascending.imp fun {a b} h e => ?_
  rw [e] at h
  simp at h

/-- Ascending lists with the same entries are the same. -/
theorem eq_of_mem_iff {es fs : List (κ × α)} (he : Ascending es) (hf : Ascending fs)
    (h : ∀ e, e ∈ es ↔ e ∈ fs) : es = fs := by
  have hne : ∀ {gs : List (κ × α)}, Ascending gs → gs.Nodup := fun hg =>
    hg.imp fun {a b} hab e => by simp [e] at hab
  refine List.Perm.eq_of_pairwise (fun a b _ _ hab hba => ?_) he hf
    ((List.perm_ext_iff_of_nodup (hne he) (hne hf)).2 h)
  simp [Std.OrientedCmp.gt_of_lt hab] at hba

/-- Maps with the same look-ups are the same. -/
theorem ext_get? {m n : Keyed κ α} (h : ∀ k, m.get? k = n.get? k) : m = n := by
  refine ext_entries (eq_of_mem_iff m.ascending n.ascending fun ⟨k, a⟩ => ?_)
  exact get?_eq_some_iff.symm.trans ((h k).symm ▸ get?_eq_some_iff)

end TraceAnomaly.Keyed
