import TraceAnomaly.Proofs.Binary64.Packing

/-! A decimal numeral stands for the binary64 number nearest to its value, both where it is a product with a
power of ten and where it is a quotient. -/

namespace TraceAnomaly.Binary64

open Float.Model (Format UnpackedFloat totalExponent)
open Float.Model.UnpackedFloat (Sign)

theorem le_lastPlace_of_one_le {q : ℚ} (hq : 1 ≤ q) : -53 ≤ lastPlace q := by
  have hlog : (0 : ℤ) ≤ Int.log 2 q :=
    (Int.zpow_le_iff_le_log one_lt_two (zero_lt_one.trans_le hq)).1 (by simpa using hq)
  rw [lastPlace]
  omega

/-- Whole numbers in the form in which they are multiplied. -/
theorem mul_eq_rounded {c d : ℕ} (hc : 0 < c) (hd : 0 < d) (hc' : 0 < c <<< 53) :
    UnpackedFloat.mul .binary64 (.finite .positive (c <<< 53) (-53) hc') (.finite .positive d 0 hd) =
      rounded .positive (c * d) := by
  have hq : (1 : ℚ) ≤ c * d := by exact_mod_cast Nat.mul_pos hc hd
  change UnpackedFloat.roundWithAccuracy .binary64 .positive ((c <<< 53) * d) (-53 + 0) .exact = _
  refine roundWithAccuracy_eq _ (by linarith) (le_lastPlace_of_one_le hq) ?_
  have hvalue : (c * d : ℚ) / (2 : ℚ) ^ (-53 + 0 : ℤ) = ((c <<< 53) * d : ℕ) := by
    rw [Nat.shiftLeft_eq, add_zero, zpow_neg, div_inv_eq_mul]
    push_cast
    ring
  rw [hvalue]
  exact Describes.exact _

theorem div_eq_rounded_natCast {c d : ℕ} (hc : 0 < c) (hd : 0 < d) :
    UnpackedFloat.div .binary64 (.finite .positive c 0 hc) (.finite .positive d 0 hd) =
      rounded .positive (c / d) := by
  have hdiv := div_eq_rounded .positive .positive hc hd 0 0
  rwa [zpow_zero, mul_one, mul_one] at hdiv

/-- What a numeral stands for, unless its power of ten is out of all proportion. -/
theorem ofScientific_eq {c : ℕ} {p : ℤ} (hc : 0 < c) (hlow : -2048 ≤ p) (hhigh : p ≤ 2048) :
    UnpackedFloat.ofScientific .binary64 c p = rounded .positive (c * 10 ^ p) := by
  have hnotBelow : ¬ p < -((2 : ℤ) ^ 11 + c.log2) := by norm_num; omega
  have hnotAbove : ¬ p > (2 : ℤ) ^ 11 := by norm_num; omega
  rw [UnpackedFloat.ofScientific, dif_neg hc.ne', if_neg hnotAbove, if_neg hnotBelow]
  by_cases hp : 0 ≤ p
  · lift p to ℕ using hp
    have hvalue : (c : ℚ) * 10 ^ (p : ℤ) = c * (10 ^ p : ℕ) := by
      push_cast
      rw [zpow_natCast]
    rw [if_pos (Int.natCast_nonneg p), hvalue]
    exact mul_eq_rounded hc (Nat.pow_pos (by norm_num)) _
  · obtain ⟨k, rfl⟩ : ∃ k : ℕ, p = -k := ⟨(-p).toNat, by omega⟩
    have hvalue : (c : ℚ) * 10 ^ (-k : ℤ) = c / (10 ^ k : ℕ) := by
      rw [zpow_neg, zpow_natCast, div_eq_mul_inv]
      push_cast
      rfl
    have hk : (- -(k : ℤ)).toNat = k := by omega
    rw [if_neg hp, hvalue]
    simp only [hk]
    exact div_eq_rounded_natCast hc (Nat.pow_pos (by norm_num))

/-- A numeral that is closer to a number than half the gap around it stands for that number. -/
theorem ofDecimal_of_close {x : Float} {m : ℕ} {e : ℤ} {hm : 0 < m}
    (hx : x.toModel.unpack = .finite .positive m e hm) {c : ℕ} {p : ℤ} (hc : 0 < c) (hlow : -2048 ≤ p)
    (hhigh : p ≤ 2048) (hclose : |(c * 10 ^ p : ℚ) - m * 2 ^ e| < 2 ^ e / 2)
    (hpower : m = 2 ^ 52 → |(c * 10 ^ p : ℚ) - m * 2 ^ e| < 2 ^ e / 4) : ofDecimal c p = x := by
  refine congrArg Float.ofModel (unpack_injective ?_)
  rw [hx, Float.Model.ofScientific, ofScientific_eq hc hlow hhigh,
    rounded_of_close .positive (canonical_of_unpack hx).1 hclose hpower]
  exact unpack_pack (representable_of_unpack hx .positive)

/-- What a numeral stands for depends on its value alone. -/
theorem ofDecimal_congr {c c' : ℕ} {p p' : ℤ} (hc : 0 < c) (hc' : 0 < c') (hlow : -2048 ≤ p)
    (hhigh : p ≤ 2048) (hlow' : -2048 ≤ p') (hhigh' : p' ≤ 2048)
    (h : (c * 10 ^ p : ℚ) = c' * 10 ^ p') : ofDecimal c p = ofDecimal c' p' := by
  rw [ofDecimal, ofDecimal, Float.Model.ofScientific, Float.Model.ofScientific,
    ofScientific_eq hc hlow hhigh, ofScientific_eq hc' hlow' hhigh', h]

end TraceAnomaly.Binary64
