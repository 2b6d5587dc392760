import Mathlib.Algebra.Ring.Nat
import TraceAnomaly.Decimal.Basic
import TraceAnomaly.Text.Front

/-! The digits of a natural number spell it, as many of them as its size needs and none of them a zero in
front. -/
namespace TraceAnomaly.Decimal

open Text (splitWhile)

@[simp] theorem ofDigits_digits (n : Nat) : ofDigits (digits n) = n := Nat.ofDigitChars_ten_toDigits

theorem ofDigits_append (cs ds : List Char) :
    ofDigits (cs ++ ds) = 10 ^ ds.length * ofDigits cs + ofDigits ds :=
  (Nat.ofDigitChars_append 0).trans Nat.ofDigitChars_eq_ofDigitChars_zero

theorem ofDigits_replicate_append (k : Nat) (ds : List Char) :
    ofDigits (List.replicate k '0' ++ ds) = ofDigits ds := by
  have hzeros : ofDigits (List.replicate k '0') = 0 := Nat.ofDigitChars_replicate_zero
  rw [ofDigits_append, hzeros, Nat.mul_zero, Nat.zero_add]

theorem isDigit_eq (c : Char) : isDigit c = c.isDigit := by
  simp only [isDigit, Char.isDigit, Char.le_def]

theorem isDigit_of_mem_digits {c : Char} {n : Nat} (h : c ∈ digits n) : isDigit c := by
  rw [isDigit_eq]
  exact Nat.isDigit_of_mem_toDigits (by decide) (by decide) h

theorem ne_of_isDigit {c d : Char} (hc : isDigit c) (hd : isDigit d = false) : c ≠ d := by
  rintro rfl
  rw [hd] at hc
  cases hc

theorem not_mem_digits {d : Char} (hd : isDigit d = false) (n : Nat) : d ∉ digits n := fun h =>
  ne_of_isDigit (isDigit_of_mem_digits h) hd rfl

theorem digits_ne_nil (n : Nat) : digits n ≠ [] := Nat.toDigits_ne_nil

theorem length_digits_pos (n : Nat) : 0 < (digits n).length := Nat.length_toDigits_pos

theorem length_digits_le_iff {n k : Nat} (h : 0 < k) : (digits n).length ≤ k ↔ n < 10 ^ k :=
  Nat.length_toDigits_le_iff (by decide) h

theorem lt_pow_length_digits (n : Nat) : n < 10 ^ (digits n).length :=
  (length_digits_le_iff (length_digits_pos n)).1 (Nat.le_refl _)

theorem pow_length_digits_le {n : Nat} (h : 0 < n) : 10 ^ ((digits n).length - 1) ≤ n := by
  by_cases h1 : (digits n).length - 1 = 0
  · rw [h1]
    exact h
  · exact Nat.le_of_not_lt fun hlt => by
      have := (length_digits_le_iff (Nat.pos_of_ne_zero h1)).2 hlt
      omega

/-- The first digit of a positive number is no zero. -/
theorem exists_digits_eq_cons {n : Nat} (hn : 0 < n) : ∃ c ds, digits n = c :: ds ∧ c ≠ '0' := by
  induction n using Nat.strongRecOn with
  | ind n ih =>
    rw [digits, Nat.toDigits_eq_if (by decide)]
    split
    · rename_i hlt
      exact ⟨_, [], rfl, (by decide : ∀ n < 10, 0 < n → Nat.digitChar n ≠ '0') n hlt hn⟩
    · obtain ⟨c, ds, hds, hc⟩ := ih (n / 10) (by omega) (by omega)
      rw [digits] at hds
      exact ⟨c, ds ++ [Nat.digitChar (n % 10)], by rw [hds]; rfl, hc⟩

/-! ### Leading zeros -/

theorem length_padded (width n : Nat) : (padded width n).length = max width (digits n).length := by
  simp only [padded, List.length_append, List.length_replicate]
  omega

theorem isDigit_of_mem_padded {c : Char} {width n : Nat} (h : c ∈ padded width n) : isDigit c := by
  rcases List.mem_append.1 h with h | h
  · rw [List.eq_of_mem_replicate h]
    decide
  · exact isDigit_of_mem_digits h

@[simp] theorem ofDigits_padded (width n : Nat) : ofDigits (padded width n) = n := by
  rw [padded, ofDigits_replicate_append, ofDigits_digits]

/-- Of a padded number, what stands before so many of the last digits that one digit remains at least is a
single zero or starts without one. -/
theorem take_padded {n : Nat} (hn : 0 < n) (places : Nat) :
    let whole := (padded (places + 1) n).take ((padded (places + 1) n).length - places)
    whole = ['0'] ∨ ∃ c cs, whole = c :: cs ∧ c ≠ '0' := by
  rw [length_padded]
  by_cases hpad : (digits n).length < places + 1
  · -- the number has no digit of its own there
    obtain ⟨j, hj⟩ : ∃ j, places + 1 - (digits n).length = j + 1 := ⟨places - (digits n).length, by omega⟩
    have hone : max (places + 1) (digits n).length - places = 1 := by omega
    rw [hone, padded, hj]
    exact .inl rfl
  · obtain ⟨c, cs, hc, h0⟩ := exists_digits_eq_cons hn
    obtain ⟨j, hj⟩ : ∃ j, max (places + 1) (digits n).length - places = j + 1 :=
      ⟨(digits n).length - places - 1, by omega⟩
    have hplain : padded (places + 1) n = c :: cs := by
      rw [padded, Nat.sub_eq_zero_of_le (by omega), hc]
      rfl
    rw [hj, hplain]
    exact .inr ⟨c, cs.take j, rfl, h0⟩

theorem splitWhile_append {p : Char → Bool} {cs rest : List Char} (hcs : ∀ c ∈ cs, p c)
    (hrest : ∀ c ∈ rest.head?, p c = false) : splitWhile p (cs ++ rest) = (cs, rest) := by
  have hnone : rest.takeWhile p = [] ∧ rest.dropWhile p = rest := by
    cases rest with
    | nil => exact ⟨rfl, rfl⟩
    | cons c rest => simp [hrest c rfl]
  rw [splitWhile, List.takeWhile_append_of_pos hcs, List.dropWhile_append_of_pos hcs, hnone.1, hnone.2,
    List.append_nil]

end TraceAnomaly.Decimal
