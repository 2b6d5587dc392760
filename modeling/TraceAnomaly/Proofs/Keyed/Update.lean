import TraceAnomaly.Proofs.Keyed.Lookup

/-! Changes of finite maps, at one key and at many. What a change does is said twice: for look-ups,
and for the list of entries, where the entry of the changed key is set apart from the others. -/

namespace TraceAnomaly.Keyed

variable {κ α β γ : Type} [Ord κ] [Std.TransOrd κ] [Std.LawfulEqOrd κ]

theorem find_place (k l : κ) (f : Option α → α) (es : List (κ × α)) [DecidableEq κ] :
    find l (place k f es) = if l = k then some (f (find k es)) else find l es := by
  induction es with
  | nil =>
    simp only [place, find]
    split <;> rename_i h <;> simp_all
    · intro e; simp [e] at h
    · intro e; simp [e] at h
  | cons e rest ih =>
    obtain ⟨m, a⟩ := e
    by_cases hl : l = k
    · subst hl
      simp only [place, find, if_true]
      cases hc : compare l m <;> simp [find, hc, ih]
    · simp only [if_neg hl, place]
      have hlk : compare l k ≠ .eq := fun e => hl (Std.LawfulEqCmp.eq_of_compare e)
      cases hc : compare k m with
      | lt =>
        simp only [find]
        cases h : compare l k with
        | lt => simp [Std.TransCmp.lt_trans h hc]
        | eq => exact absurd h hlk
        | gt => rfl
      | eq =>
        obtain rfl := Std.LawfulEqCmp.eq_of_compare hc
        cases h : compare l k <;> simp_all [find]
      | gt => simp [find, ih, hl]

theorem get?_alter [DecidableEq κ] (m : Keyed κ α) (k l : κ) (f : Option α → α) :
    (m.alter k f).get? l = if l = k then some (f (m.get? k)) else m.get? l :=
  find_place k l f m.entries

theorem get?_insert [DecidableEq κ] (m : Keyed κ α) (k l : κ) (a : α) :
    (m.insert k a).get? l = if l = k then some a else m.get? l :=
  get?_alter m k l fun _ => a

theorem get?_insertAll [DecidableEq κ] (m : Keyed κ α) {es : List (κ × α)}
    (hes : (es.map Prod.fst).Nodup) (k : κ) :
    (∀ a, (k, a) ∈ es → (m.insertAll es).get? k = some a) ∧
      (k ∉ es.map Prod.fst → (m.insertAll es).get? k = m.get? k) := by
  induction es generalizing m with
  | nil => exact ⟨by simp, fun _ => rfl⟩
  | cons e rest ih =>
    obtain ⟨he, hrest⟩ := List.nodup_cons.1 hes
    obtain ⟨hin, hout⟩ := ih (m.insert e.1 e.2) hrest
    constructor
    · intro a ha
      rcases List.mem_cons.1 ha with rfl | ha
      · exact (hout he).trans (by simp [get?_insert])
      · exact hin a ha
    · intro hk
      obtain ⟨hke, hkrest⟩ : k ≠ e.1 ∧ k ∉ rest.map Prod.fst := by simpa using hk
      exact (hout hkrest).trans (by simp [get?_insert, hke])

/-- The entries of a map make up the map, in any order. -/
theorem ofList_of_perm {m : Keyed κ α} {es : List (κ × α)} (h : es.Perm m.toList) : ofList es = m := by
  classical
  have hnd : (es.map Prod.fst).Nodup := (h.map Prod.fst).nodup_iff.2 (nodup_keys m)
  refine ext_get? fun k => ?_
  obtain ⟨hin, hout⟩ := get?_insertAll empty hnd k
  cases hk : m.get? k with
  | some a => exact hin a (h.mem_iff.2 (get?_eq_some_iff.1 hk))
  | none => exact hout fun hm => get?_eq_none_iff.1 hk ((h.map Prod.fst).mem_iff.1 hm)

/-- Replacing a value by itself changes nothing. -/
theorem insert_of_get? {m : Keyed κ α} {k : κ} {a : α} (h : m.get? k = some a) : m.insert k a = m := by
  classical
  refine ext_get? fun l => ?_
  rw [get?_insert]
  split
  · rename_i hl
    rw [hl, h]
  · rfl

omit [Std.TransOrd κ] in
theorem place_split (k : κ) (es : List (κ × α)) :
    ∃ l₁ l₂, es = l₁ ++ ((find k es).toList.map (k, ·) ++ l₂) ∧
      ∀ f : Option α → α, place k f es = l₁ ++ (k, f (find k es)) :: l₂ := by
  induction es with
  | nil => exact ⟨[], [], by simp [find], fun f => by simp [place, find]⟩
  | cons e rest ih =>
    obtain ⟨m, a⟩ := e
    cases hc : compare k m with
    | lt => exact ⟨[], (m, a) :: rest, by simp [find, hc], fun f => by simp [place, find, hc]⟩
    | eq =>
      obtain rfl := Std.LawfulEqCmp.eq_of_compare hc
      exact ⟨[], rest, by simp [find], fun f => by simp [place, find]⟩
    | gt =>
      obtain ⟨l₁, l₂, he, hf⟩ := ih
      refine ⟨(m, a) :: l₁, l₂, ?_, fun f => by simp [place, find, hc, hf]⟩
      conv_lhs => rw [he]
      simp [find, hc]

/-- The entries of other keys stand in front of and behind the one that is changed. -/
theorem toList_split (m : Keyed κ α) (k : κ) :
    ∃ l₁ l₂, m.toList = l₁ ++ ((m.get? k).toList.map (k, ·) ++ l₂) ∧
      (∀ f, (m.alter k f).toList = l₁ ++ (k, f (m.get? k)) :: l₂) ∧ ∀ e ∈ l₁ ++ l₂, e.1 ≠ k := by
  obtain ⟨l₁, l₂, he, hf⟩ := place_split k m.entries
  refine ⟨l₁, l₂, he, hf, fun e hm hk => ?_⟩
  -- with any value at `k`, the keys of the changed map would not be distinct
  have hnd := nodup_keys (m.alter k fun _ => e.2)
  rw [keys_eq, show (m.alter k fun _ => e.2).toList = _ from hf _, List.map_append, List.map_cons,
    List.perm_middle.nodup_iff, ← List.map_append, List.nodup_cons] at hnd
  exact hnd.1 (hk ▸ List.mem_map_of_mem hm)

theorem get?_of_perm {m : Keyed κ α} {k : κ} {a : α} {rest : List (κ × α)}
    (h : m.toList.Perm ((k, a) :: rest)) : m.get? k = some a :=
  get?_eq_some_iff.2 (h.mem_iff.2 (by simp))

theorem toList_insert_new {m : Keyed κ α} {k : κ} (a : α) (h : m.get? k = none) :
    (m.insert k a).toList.Perm ((k, a) :: m.toList) := by
  obtain ⟨l₁, l₂, he, hf, -⟩ := toList_split m k
  rw [insert, hf, he, h]
  exact List.perm_middle

theorem toList_insert_old {m : Keyed κ α} {k : κ} {a : α} {rest : List (κ × α)} (b : α)
    (h : m.toList.Perm ((k, a) :: rest)) : (m.insert k b).toList.Perm ((k, b) :: rest) := by
  obtain ⟨l₁, l₂, he, hf, -⟩ := toList_split m k
  have hr := he ▸ h
  rw [get?_of_perm h] at hr
  rw [insert, hf]
  exact List.perm_middle.trans ((List.perm_middle.symm.trans hr).cons_inv.cons _)

def erase (m : Keyed κ α) (k : κ) : Keyed κ α where
  entries := m.entries.filter fun e => compare e.1 k ≠ .eq
  ascending := m.ascending.filter _

theorem get?_erase_self (m : Keyed κ α) (k : κ) : (m.erase k).get? k = none := by
  cases h : (m.erase k).get? k with
  | none => rfl
  | some a => simpa [toList, erase] using get?_eq_some_iff.1 h

theorem get?_erase_ne (m : Keyed κ α) {k l : κ} (h : l ≠ k) : (m.erase k).get? l = m.get? l := by
  refine Option.ext fun a => ?_
  rw [get?_eq_some_iff, get?_eq_some_iff]
  simpa [toList, erase] using fun _ => h

omit [Std.TransOrd κ] in
theorem toList_erase {m : Keyed κ α} {k : κ} {a : α} {rest : List (κ × α)}
    (h : m.toList.Perm ((k, a) :: rest)) : (m.erase k).toList.Perm rest := by
  have hk : ∀ e ∈ rest, e.1 ≠ k := by
    have hnd := (h.map Prod.fst).nodup_iff.1 (nodup_keys m)
    intro e he hek
    exact (List.nodup_cons.1 hnd).1 (List.mem_map.2 ⟨e, he, hek⟩)
  have hp : (m.erase k).toList.Perm (((k, a) :: rest).filter fun e => compare e.1 k ≠ .eq) :=
    h.filter _
  rw [List.filter_cons_of_neg (by simp), List.filter_eq_self.2 fun e he => ?_] at hp
  · exact hp
  · simpa using fun h => hk e he h

def modify (m : Keyed κ α) (k : κ) (f : α → α) : Keyed κ α :=
  match m.get? k with
  | none => m
  | some a => m.insert k (f a)

theorem get?_modify_ne (m : Keyed κ α) {k l : κ} (f : α → α) (h : l ≠ k) :
    (m.modify k f).get? l = m.get? l := by
  classical
  unfold modify
  split
  · rfl
  · rw [get?_insert, if_neg h]

theorem toList_modify {m : Keyed κ α} {k : κ} {a : α} {rest : List (κ × α)} (f : α → α)
    (h : m.toList.Perm ((k, a) :: rest)) : (m.modify k f).toList.Perm ((k, f a) :: rest) := by
  rw [modify, get?_of_perm h]
  exact toList_insert_old (f a) h

/-- Changing values and changing one entry commute. -/
theorem mapValues_alter (m : Keyed κ α) (k : κ) (g : α → β) (f : Option α → α)
    (f' : Option β → β) (h : g (f (m.get? k)) = f' ((m.get? k).map g)) :
    (m.alter k f).mapValues g = (m.mapValues g).alter k f' := by
  classical
  refine ext_get? fun l => ?_
  rw [get?_mapValues, get?_alter, get?_alter, get?_mapValues, get?_mapValues]
  split <;> simp [h]

theorem mapValues_insert (m : Keyed κ α) (k : κ) (g : α → β) (a : α) :
    (m.insert k a).mapValues g = (m.mapValues g).insert k (g a) :=
  mapValues_alter m k g _ _ rfl

/-- A map of lists, flattened: the list at a key and the others. -/
theorem flatten_values_split (m : Keyed κ (List α)) (k : κ) :
    ∃ rest, m.values.flatten.Perm ((m.get? k).getD [] ++ rest) ∧
      ∀ f, (m.alter k f).values.flatten.Perm (f (m.get? k) ++ rest) := by
  obtain ⟨l₁, l₂, he, hf, -⟩ := toList_split m k
  have hperm : ∀ (xs : List α), ((l₁.map Prod.snd).flatten ++ (xs ++ (l₂.map Prod.snd).flatten)).Perm
      (xs ++ ((l₁.map Prod.snd).flatten ++ (l₂.map Prod.snd).flatten)) := fun xs => by
    simpa using List.perm_append_comm.append_right (l₂.map Prod.snd).flatten
  refine ⟨(l₁.map Prod.snd).flatten ++ (l₂.map Prod.snd).flatten, ?_, fun f => ?_⟩
  · rw [values_eq, he]
    cases h : m.get? k with
    | none => simp
    | some xs => simpa using hperm xs
  · rw [values_eq, hf]
    simpa using hperm (f (m.get? k))

/-- A map of lists whose elements stand under their own keys, flattened: the elements with one key. -/
theorem filter_flatten_values [DecidableEq κ] (m : Keyed κ (List α)) (key : α → κ)
    (h : ∀ k xs, m.get? k = some xs → ∀ x ∈ xs, key x = k) (k : κ) :
    m.values.flatten.filter (key · = k) = (m.get? k).getD [] := by
  obtain ⟨l₁, l₂, hsplit, -, hother⟩ := toList_split m k
  have hskip : ∀ l : List (κ × List α), (∀ e ∈ l, e ∈ m.toList ∧ e.1 ≠ k) →
      (l.map Prod.snd).flatten.filter (key · = k) = [] := by
    refine fun l hl => List.filter_eq_nil_iff.2 fun x hx => ?_
    obtain ⟨xs, hxs, hx⟩ := List.mem_flatten.1 hx
    obtain ⟨⟨l, xs⟩, he, rfl⟩ := List.mem_map.1 hxs
    obtain ⟨hmem, hl⟩ := hl _ he
    simpa [h l xs (get?_eq_some_iff.2 hmem) x hx] using hl
  have h₁ := hskip l₁ fun e he => ⟨by simp [hsplit, he], hother e (by simp [he])⟩
  have h₂ := hskip l₂ fun e he => ⟨by simp [hsplit, he], hother e (by simp [he])⟩
  rw [values_eq, hsplit]
  simp only [List.map_append, List.flatten_append, List.filter_append, h₁, h₂, List.nil_append,
    List.append_nil]
  cases hget : m.get? k with
  | none => rfl
  | some xs => simpa using h k xs hget

/-- A map of lists whose elements stand under their own keys, flattened: the keys ascend. -/
theorem pairwise_flatten_values (m : Keyed κ (List α)) (key : α → κ)
    (h : ∀ k xs, m.get? k = some xs → ∀ x ∈ xs, key x = k) :
    m.values.flatten.Pairwise fun a b => (compare (key a) (key b)).isLE := by
  have hkey : ∀ e ∈ m.toList, ∀ x ∈ e.2, key x = e.1 := fun e he => h e.1 e.2 (get?_eq_some_iff.2 he)
  rw [values_eq, List.pairwise_flatten, List.pairwise_map]
  refine ⟨fun xs hxs => ?_, ?_⟩
  · obtain ⟨e, he, rfl⟩ := List.mem_map.1 hxs
    refine List.pairwise_of_forall_mem_list fun x hx y hy => ?_
    rw [hkey e he x hx, hkey e he y hy, Std.ReflOrd.compare_self]
    rfl
  · refine List.Pairwise.imp_of_mem (fun {a b} ha hb hab x hx y hy => ?_) m.ascending
    rw [hkey a ha x hx, hkey b hb y hy, hab]
    rfl

section Folds

variable (step : κ → γ → Option α → α)

theorem get?_foldl_alter [DecidableEq κ] (es : List (κ × γ)) (hes : Ascending es) (m : Keyed κ α)
    (k : κ) : (es.foldl (fun m e => m.alter e.1 (step e.1 e.2)) m).get? k =
      match find k es with
      | none => m.get? k
      | some c => some (step k c (m.get? k)) := by
  induction es generalizing m with
  | nil => rfl
  | cons e rest ih =>
    obtain ⟨l, c⟩ := e
    obtain ⟨hl, hr⟩ := List.pairwise_cons.1 hes
    rw [List.foldl_cons, ih hr, get?_alter]
    by_cases hk : k = l
    · subst hk
      have hnone : find k rest = none := by
        cases hfind : find k rest with
        | none => rfl
        | some a =>
          have := hl _ ((find_eq_some_iff hr).1 hfind)
          simp at this
      simp [find, hnone]
    · have hskip : find k ((l, c) :: rest) = find k rest := by
        cases hc : compare k l with
        | eq => exact absurd (Std.LawfulEqCmp.eq_of_compare hc) hk
        | gt => simp [find, hc]
        | lt =>
          cases hfind : find k rest with
          | none => simp [find, hc]
          | some a =>
            have := hl _ ((find_eq_some_iff hr).1 hfind)
            simp [Std.OrientedCmp.gt_of_lt this] at hc
      simp [hskip, hk]

/-- Changing a map at all keys of another one, with the values there. -/
theorem get?_foldl_alter_toList [DecidableEq κ] (b : Keyed κ γ) (m : Keyed κ α) (k : κ) :
    (b.toList.foldl (fun m e => m.alter e.1 (step e.1 e.2)) m).get? k =
      match b.get? k with
      | none => m.get? k
      | some c => some (step k c (m.get? k)) :=
  get?_foldl_alter step b.entries b.ascending m k

end Folds

end TraceAnomaly.Keyed
