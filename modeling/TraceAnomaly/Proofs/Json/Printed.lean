import TraceAnomaly.Proofs.Json.Document

/-! What is written stays on one line: a document without blanks has no control characters, whatever its
strings spell. -/

namespace TraceAnomaly.Json

/-- A text without control characters. -/
def Printed (cs : List Char) : Prop := ∀ c ∈ cs, ' ' ≤ c

theorem Printed.append {cs ds : List Char} (hcs : Printed cs) (hds : Printed ds) : Printed (cs ++ ds) :=
  List.forall_mem_append.2 ⟨hcs, hds⟩

theorem Printed.cons {c : Char} {cs : List Char} (hc : ' ' ≤ c) (hcs : Printed cs) : Printed (c :: cs) :=
  List.forall_mem_cons.2 ⟨hc, hcs⟩

theorem Printed.nil : Printed [] := fun _ h => nomatch h

/-! ### Strings and numbers -/

section Scan

variable {cs t r : List Char}

theorem ahead_eq_some_iff {front : List Char} {o : Option (List Char × List Char)} :
    ahead front o = some (t, r) ↔ ∃ u, o = some (u, r) ∧ front ++ u = t := by
  simp [ahead]

theorem le_of_isDigit {c : Char} (h : Decimal.isDigit c) : ' ' ≤ c := by
  have hlow : '0' ≤ c ∧ c ≤ '9' := by simpa [Decimal.isDigit] using h
  exact Char.le_trans (by decide) hlow.1

theorem le_of_isHexDigit {c : Char} (h : isHexDigit c) : ' ' ≤ c := by
  rw [isHexDigit, Bool.or_eq_true, Bool.or_eq_true, Bool.and_eq_true, Bool.and_eq_true] at h
  rcases h with (h | ⟨h, -⟩) | ⟨h, -⟩
  · exact le_of_isDigit h
  · exact Char.le_trans (by decide) (of_decide_eq_true h)
  · exact Char.le_trans (by decide) (of_decide_eq_true h)

theorem printed_scanString (h : scanString cs = some (t, r)) : Printed t := by
  fun_induction scanString cs generalizing t with
  | case1 => cases h
  | case2 =>
    obtain ⟨rfl, -⟩ : [] = t ∧ _ := by simpa using h
    exact .nil
  | case3 a b c d cs hhex ih =>
    obtain ⟨u, hu, rfl⟩ := ahead_eq_some_iff.1 h
    simp only [Bool.and_eq_true] at hhex
    obtain ⟨⟨⟨ha, hb⟩, hc⟩, hd⟩ := hhex
    exact .cons (by decide) (.cons (by decide) (.cons (le_of_isHexDigit ha) (.cons (le_of_isHexDigit hb)
      (.cons (le_of_isHexDigit hc) (.cons (le_of_isHexDigit hd) (ih hu))))))
  | case4 => cases h
  | case5 e cs _ he ih =>
    obtain ⟨u, hu, rfl⟩ := ahead_eq_some_iff.1 h
    have hescape : ' ' ≤ e := by
      simp only [List.mem_cons, List.not_mem_nil, or_false] at he
      rcases he with rfl | rfl | rfl | rfl | rfl | rfl | rfl | rfl
      all_goals decide
    exact .cons (by decide) (.cons hescape (ih hu))
  | case6 => cases h
  | case7 => cases h
  | case8 c cs _ _ _ hc ih =>
    obtain ⟨u, hu, rfl⟩ := ahead_eq_some_iff.1 h
    have hc : ¬ c < ' ' := by simp_all
    exact .cons (Char.not_lt.1 hc) (ih hu)

theorem printed_scanDigits (h : scanDigits cs = some (t, r)) : Printed t := by
  have hdigits : ∀ c ∈ cs.takeWhile Decimal.isDigit, ' ' ≤ c := fun c hc =>
    le_of_isDigit (List.mem_takeWhile_imp hc)
  unfold scanDigits at h
  split at h
  · cases h
  · rename_i ds rest _ heq
    obtain ⟨rfl, -⟩ : ds = t ∧ rest = r := by simpa using h
    obtain ⟨rfl, -⟩ : cs.takeWhile Decimal.isDigit = ds ∧ _ := by simpa [Text.splitWhile] using heq
    exact hdigits

theorem printed_scanWhole (h : scanWhole cs = some (t, r)) : Printed t := by
  unfold scanWhole at h
  split at h
  · cases h
  · exact printed_scanDigits h

theorem printed_scanFraction (h : scanFraction cs = some (t, r)) : Printed t := by
  unfold scanFraction at h
  split at h
  · obtain ⟨u, hu, rfl⟩ := ahead_eq_some_iff.1 h
    exact .cons (by decide) (printed_scanDigits hu)
  · obtain ⟨rfl, -⟩ : [] = t ∧ _ := by simpa using h
    exact .nil

theorem printed_scanSign {signs : List Char} (h : Printed signs) : Printed (scanSign signs cs).1 := by
  unfold scanSign
  split
  · exact .nil
  · split
    · exact .cons (h _ ‹_›) .nil
    · exact .nil

theorem printed_scanPower (h : scanPower cs = some (t, r)) : Printed t := by
  unfold scanPower at h
  split at h
  · rename_i c cs
    split at h
    · rename_i hc
      obtain ⟨u, hu, rfl⟩ := ahead_eq_some_iff.1 h
      have hc : ' ' ≤ c := by
        rcases Bool.or_eq_true_iff.1 hc with hc | hc
        · exact eq_of_beq hc ▸ by decide
        · exact eq_of_beq hc ▸ by decide
      exact (Printed.cons hc (printed_scanSign (by simp [Printed]))).append (printed_scanDigits hu)
    · obtain ⟨rfl, -⟩ : [] = t ∧ _ := by simpa using h
      exact .nil
  · obtain ⟨rfl, -⟩ : [] = t ∧ _ := by simpa using h
    exact .nil

theorem printed_scanNumber (h : scanNumber cs = some (t, r)) : Printed t := by
  simp only [scanNumber, Option.bind_eq_some_iff, Prod.exists] at h
  obtain ⟨whole, _, hwhole, fraction, _, hfraction, power, _, hpower, h⟩ := h
  obtain ⟨rfl, -⟩ := Prod.mk.inj (Option.some.inj h)
  exact (((printed_scanSign (by simp [Printed])).append (printed_scanWhole hwhole)).append
    (printed_scanFraction hfraction)).append (printed_scanPower hpower)

end Scan

/-! ### Documents -/

theorem IsSpelling.printed {t : List Char} (h : IsSpelling t) : Printed (quoted t) :=
  (Printed.cons (by decide) (printed_scanString (h []))).append (.cons (by decide) .nil)

theorem printed_compactItems : ∀ {items : List Json}, (∀ v ∈ items, Printed v.compact) →
    Printed (compactItems items)
  | [], _ => .nil
  | [v], h => h v (List.mem_singleton_self v)
  | v :: w :: rest, h => by
    obtain ⟨hv, hrest⟩ := List.forall_mem_cons.1 h
    exact hv.append (.cons (by decide) (printed_compactItems hrest))

theorem printed_compactMembers : ∀ {members : List (List Char × Json)},
    (∀ m ∈ members, IsSpelling m.1 ∧ Printed m.2.compact) → Printed (compactMembers members)
  | [], _ => .nil
  | [(k, v)], h => by
    obtain ⟨hk, hv⟩ := h _ (List.mem_singleton_self _)
    exact hk.printed.append (.cons (by decide) hv)
  | (k, v) :: m :: rest, h => by
    obtain ⟨⟨hk, hv⟩, hrest⟩ := List.forall_mem_cons.1 h
    exact (hk.printed.append (.cons (by decide) hv)).append (.cons (by decide) (printed_compactMembers hrest))

/-- No string, and so no name, breaks the line of a document. -/
theorem Writable.printed {j : Json} (h : Writable j) : Printed j.compact := by
  induction h with
  | null => simp [compact, Printed]
  | bool b => cases b <;> simp [compact, word, Printed]
  | number h =>
    rw [compact]
    exact printed_scanNumber (h.scans [] Stops.nil)
  | string h =>
    rw [compact]
    exact h.printed
  | array h ih =>
    rw [compact]
    exact (Printed.cons (by decide) (printed_compactItems ih)).append (.cons (by decide) .nil)
  | object hkeys hvalues ih =>
    rw [compact]
    exact (Printed.cons (by decide) (printed_compactMembers fun m hm => ⟨hkeys m hm, ih m hm⟩)).append
      (.cons (by decide) .nil)

end TraceAnomaly.Json
