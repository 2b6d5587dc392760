import Mathlib
import TraceAnomaly.Binary64

/-! Rounding to binary64. The two bits that are kept behind a mantissa tell where the exact value lies
between two neighbouring mantissas, so what a value is rounded to depends on the value alone, and a
value that is closer to a number than half the gap is rounded to that number. -/

namespace TraceAnomaly.Binary64

open Float.Model (Format UnpackedFloat totalExponent)
open Float.Model.UnpackedFloat (Accuracy ExtendedMantissa Sign)

/-! ### Mantissas -/

/-- Where a fraction lies, by the bit for a half and the bit for what is left. -/
def Residue : Bool → Bool → ℚ → Prop
  | false, false, r => r = 0
  | false, true, r => 0 < r ∧ r < 1 / 2
  | true, false, r => r = 1 / 2
  | true, true, r => 1 / 2 < r ∧ r < 1

/-- The mantissa and its two bits describe a value. -/
def Describes (em : ExtendedMantissa) (x : ℚ) : Prop :=
  Residue em.roundBit em.stickyBit (x - em.mantissa)

/-- The integer nearest to a value; a tie goes to the even one. -/
def nearestEven (x : ℚ) : ℕ :=
  match compare (x - ⌊x⌋₊) (1 / 2) with
  | .lt => ⌊x⌋₊
  | .eq => ⌊x⌋₊ + ⌊x⌋₊ % 2
  | .gt => ⌊x⌋₊ + 1

namespace Describes

variable {em : ExtendedMantissa} {x : ℚ}

theorem residue_bounds {b c : Bool} {r : ℚ} (h : Residue b c r) : 0 ≤ r ∧ r < 1 := by
  cases b <;> cases c <;> simp only [Residue] at h <;> constructor <;> linarith

theorem floor_eq (h : Describes em x) : ⌊x⌋₊ = em.mantissa := by
  obtain ⟨h0, h1⟩ := residue_bounds h
  rw [Nat.floor_eq_iff (by linarith [em.mantissa.cast_nonneg (α := ℚ)])]
  constructor <;> linarith

theorem roundedMantissa_eq (h : Describes em x) : em.roundedMantissa = nearestEven x := by
  rw [nearestEven, h.floor_eq]
  obtain ⟨m, b, c⟩ := em
  have h' : Residue b c (x - m) := h
  cases b <;> cases c <;> simp only [Residue] at h'
  · rw [compare_lt_iff_lt.2 (by linarith)]
    rfl
  · rw [compare_lt_iff_lt.2 h'.2]
    rfl
  · rw [compare_eq_iff_eq.2 h']
    rfl
  · rw [compare_gt_iff_gt.2 h'.1]
    rfl

theorem shiftRightOne (h : Describes em x) : Describes em.shiftRightOne (x / 2) := by
  obtain ⟨m, b, c⟩ := em
  have h' : Residue b c (x - m) := h
  have hm : (m : ℚ) = 2 * (m / 2 : ℕ) + (m % 2 : ℕ) := by exact_mod_cast (Nat.div_add_mod m 2).symm
  change Residue (m % 2 != 0) (b || c) (x / 2 - (m / 2 : ℕ))
  -- the last bit of the mantissa becomes the bit for a half
  rcases Nat.mod_two_eq_zero_or_one m with hmod | hmod <;> rw [hmod] at hm ⊢ <;> push_cast at hm
  · cases b <;> cases c <;> simp only [Residue] at h'
    · change x / 2 - (m / 2 : ℕ) = 0
      linarith
    · change 0 < x / 2 - (m / 2 : ℕ) ∧ x / 2 - (m / 2 : ℕ) < 1 / 2
      constructor <;> linarith
    · change 0 < x / 2 - (m / 2 : ℕ) ∧ x / 2 - (m / 2 : ℕ) < 1 / 2
      constructor <;> linarith
    · change 0 < x / 2 - (m / 2 : ℕ) ∧ x / 2 - (m / 2 : ℕ) < 1 / 2
      constructor <;> linarith
  · cases b <;> cases c <;> simp only [Residue] at h'
    · change x / 2 - (m / 2 : ℕ) = 1 / 2
      linarith
    · change 1 / 2 < x / 2 - (m / 2 : ℕ) ∧ x / 2 - (m / 2 : ℕ) < 1
      constructor <;> linarith
    · change 1 / 2 < x / 2 - (m / 2 : ℕ) ∧ x / 2 - (m / 2 : ℕ) < 1
      constructor <;> linarith
    · change 1 / 2 < x / 2 - (m / 2 : ℕ) ∧ x / 2 - (m / 2 : ℕ) < 1
      constructor <;> linarith

theorem shiftRight (h : Describes em x) (n : ℕ) : Describes (em >>> n) (x / 2 ^ n) := by
  change Describes (n.repeat ExtendedMantissa.shiftRightOne em) _
  induction n with
  | zero => simpa [Nat.repeat] using h
  | succ n ih =>
    rw [pow_succ, ← div_div]
    exact ih.shiftRightOne

theorem exact (m : ℕ) : Describes (.ofMantissaAndAccuracy m .exact) m :=
  sub_self _

theorem fraction (a : ℕ) {b : ℕ} (hb : 0 < b) :
    Describes (.ofMantissaAndAccuracy (a / b) (UnpackedFloat.accuracyOfFraction (a % b) b))
      (a / b : ℚ) := by
  have hbq : (0 : ℚ) < b := by exact_mod_cast hb
  have hsplit : (a / b : ℚ) - (a / b : ℕ) = (a % b : ℕ) / b := by
    have ha : (a : ℚ) = b * (a / b : ℕ) + (a % b : ℕ) := by exact_mod_cast (Nat.div_add_mod a b).symm
    rw [eq_div_iff hbq.ne', sub_mul, div_mul_cancel₀ _ hbq.ne']
    linarith
  have hlt : ((a % b : ℕ) : ℚ) < b := by exact_mod_cast Nat.mod_lt a hb
  unfold UnpackedFloat.accuracyOfFraction
  split
  · rename_i h0
    change (a / b : ℚ) - (a / b : ℕ) = 0
    rw [hsplit, h0, Nat.cast_zero, zero_div]
  · rename_i h0
    have hpos : (0 : ℚ) < (a % b : ℕ) := by exact_mod_cast Nat.pos_of_ne_zero h0
    rcases lt_trichotomy (2 * (a % b)) b with h | h | h
    · have hq : (2 : ℚ) * (a % b : ℕ) < b := by exact_mod_cast h
      rw [compare_lt_iff_lt.2 h]
      change 0 < (a / b : ℚ) - (a / b : ℕ) ∧ (a / b : ℚ) - (a / b : ℕ) < 1 / 2
      rw [hsplit, div_lt_iff₀ hbq]
      exact ⟨div_pos hpos hbq, by linarith⟩
    · have hq : (2 : ℚ) * (a % b : ℕ) = b := by exact_mod_cast h
      rw [compare_eq_iff_eq.2 h]
      change (a / b : ℚ) - (a / b : ℕ) = 1 / 2
      rw [hsplit, div_eq_iff hbq.ne']
      linarith
    · have hq : (b : ℚ) < 2 * (a % b : ℕ) := by exact_mod_cast h
      rw [compare_gt_iff_gt.2 h]
      change 1 / 2 < (a / b : ℚ) - (a / b : ℕ) ∧ (a / b : ℚ) - (a / b : ℕ) < 1
      rw [hsplit, lt_div_iff₀ hbq, div_lt_iff₀ hbq]
      constructor <;> linarith

end Describes

theorem nearestEven_of_close {x : ℚ} {m : ℕ} (h : |x - m| < 1 / 2) : nearestEven x = m := by
  obtain ⟨hlow, hhigh⟩ := abs_lt.1 h
  have hm : (0 : ℚ) ≤ m := m.cast_nonneg
  by_cases hx : (m : ℚ) ≤ x
  · have hfloor : ⌊x⌋₊ = m := (Nat.floor_eq_iff (hm.trans hx)).2 ⟨hx, by linarith⟩
    rw [nearestEven, hfloor, compare_lt_iff_lt.2 hhigh]
  · cases m with
    | zero =>
      have hfloor : ⌊x⌋₊ = 0 := Nat.floor_eq_zero.2 (by norm_num at hx; linarith)
      rw [nearestEven, hfloor, compare_lt_iff_lt.2 hhigh]
    | succ n =>
      push_cast at hlow hx
      have hfloor : ⌊x⌋₊ = n :=
        (Nat.floor_eq_iff (by linarith [n.cast_nonneg (α := ℚ)])).2 ⟨by linarith, by linarith⟩
      rw [nearestEven, hfloor, compare_gt_iff_gt.2 (by linarith : (1 / 2 : ℚ) < x - n)]

/-! ### Values -/

/-- The power of two of the last place of the numbers around a value. -/
def lastPlace (q : ℚ) : ℤ := Max.max (Int.log 2 q - 52) (-1074)

theorem targetExponent_eq (t : ℤ) : Format.binary64.targetExponent t = Max.max (t - 53) (-1074) := rfl

/-- A value on the grid of a power of two that is not above its last place. -/
theorem targetExponent_floor {q : ℚ} (hq : 0 < q) {e : ℤ} (he : e ≤ lastPlace q) :
    Format.binary64.targetExponent (totalExponent ⌊q / 2 ^ e⌋₊ e) = lastPlace q := by
  have h2 : (0 : ℚ) < 2 ^ e := zpow_pos two_pos e
  have hlog : ∀ k : ℤ, (2 : ℚ) ^ k ≤ q ↔ k ≤ Int.log 2 q := fun k =>
    (Int.zpow_le_iff_le_log one_lt_two hq : ((2 : ℕ) : ℚ) ^ k ≤ q ↔ _)
  rw [targetExponent_eq, lastPlace]
  by_cases hm : ⌊q / 2 ^ e⌋₊ = 0
  · -- below the grid: the last place is the least of all
    have hlt : ¬ (2 : ℚ) ^ e ≤ q := by
      rw [Nat.floor_eq_zero, div_lt_one h2] at hm
      exact not_le.2 hm
    rw [hlog] at hlt
    rw [lastPlace] at he
    rw [hm, show totalExponent 0 e = e + 1 by simp [totalExponent]; ring]
    omega
  · have hdigits : totalExponent ⌊q / 2 ^ e⌋₊ e = Int.log 2 q + 1 := by
      have hfloor : ∀ k : ℕ, 2 ^ k ≤ ⌊q / 2 ^ e⌋₊ ↔ (k : ℤ) + e ≤ Int.log 2 q := fun k => by
        rw [← hlog, Nat.le_floor_iff (by positivity), le_div_iff₀ h2, zpow_add₀ two_ne_zero,
          zpow_natCast, Nat.cast_pow, Nat.cast_ofNat]
      have hlow := (hfloor (⌊q / 2 ^ e⌋₊).log2).1 (Nat.log2_self_le hm)
      have hhigh := (hfloor ((⌊q / 2 ^ e⌋₊).log2 + 1)).not.1 (not_le.2 Nat.lt_log2_self)
      rw [totalExponent]
      push_cast at hhigh
      omega
    rw [hdigits]
    congr 1
    omega

/-- The number that a positive value is rounded to, with a sign. -/
def rounded (s : Sign) (q : ℚ) : UnpackedFloat :=
  let shifted := UnpackedFloat.shiftToTargetExponent .binary64 (nearestEven (q / 2 ^ lastPlace q))
    (lastPlace q) .exact
  if h : shifted.1.mantissa = 0 then .zero s
  else .finite s shifted.1.mantissa shifted.2 (Nat.pos_of_ne_zero h)

theorem shiftToExponent_eq (m : ℕ) (e : ℤ) (acc : Accuracy) {t : ℤ} (h : e ≤ t) :
    UnpackedFloat.shiftToExponent m e acc t =
      (ExtendedMantissa.ofMantissaAndAccuracy m acc >>> (t - e).toNat, t) := by
  simp only [UnpackedFloat.shiftToExponent, Prod.mk.injEq, true_and]
  omega

/-- What is rounded is the value, whatever mantissa and power of two describe it. -/
theorem roundWithAccuracy_eq (s : Sign) {m : ℕ} {e : ℤ} {acc : Accuracy} {q : ℚ} (hq : 0 < q)
    (he : e ≤ lastPlace q) (h : Describes (.ofMantissaAndAccuracy m acc) (q / 2 ^ e)) :
    UnpackedFloat.roundWithAccuracy .binary64 s m e acc = rounded s q := by
  have hm : ⌊q / 2 ^ e⌋₊ = m := by
    rw [h.floor_eq]
    cases acc with
    | exact => rfl
    | inexact o => cases o <;> rfl
  have htarget := targetExponent_floor hq he
  rw [hm] at htarget
  have hvalue : q / 2 ^ e / 2 ^ (lastPlace q - e).toNat = q / 2 ^ lastPlace q := by
    rw [div_div, ← zpow_natCast, ← zpow_add₀ two_ne_zero, Int.toNat_of_nonneg (by omega)]
    congr 2
    omega
  have hmantissa := (h.shiftRight (lastPlace q - e).toNat).roundedMantissa_eq
  rw [hvalue] at hmantissa
  have hfirst : UnpackedFloat.shiftToTargetExponent .binary64 m e acc =
      (ExtendedMantissa.ofMantissaAndAccuracy m acc >>> (lastPlace q - e).toNat, lastPlace q) := by
    rw [UnpackedFloat.shiftToTargetExponent, htarget, shiftToExponent_eq m e acc he]
  simp only [UnpackedFloat.roundWithAccuracy, hfirst, hmantissa, rounded]

/-- A mantissa and a power of two in the form that every positive number has once. -/
structure Canonical (m : ℕ) (e : ℤ) : Prop where
  pos : 0 < m
  lt : m < 2 ^ 53
  least : -1074 ≤ e
  normal : 2 ^ 52 ≤ m ∨ e = -1074

/-- A mantissa of at most 53 bits stays as it is on its grid. -/
theorem shiftToTargetExponent_of_lt {m : ℕ} {e : ℤ} (hm : 0 < m) (hlt : m < 2 ^ 53) (he : -1074 ≤ e) :
    UnpackedFloat.shiftToTargetExponent .binary64 m e .exact = (.ofMantissaAndAccuracy m .exact, e) := by
  have hlog : m.log2 < 53 := (Nat.log2_lt hm.ne').2 hlt
  have htarget : Format.binary64.targetExponent (totalExponent m e) ≤ e := by
    rw [targetExponent_eq, totalExponent]
    omega
  have hnone : (Format.binary64.targetExponent (totalExponent m e) - e).toNat = 0 := by omega
  simp only [UnpackedFloat.shiftToTargetExponent, UnpackedFloat.shiftToExponent, hnone]
  exact Prod.ext rfl (add_zero e)

/-- Half a place too far to the right. -/
theorem shiftToTargetExponent_carry {e : ℤ} (he : -1074 < e) :
    UnpackedFloat.shiftToTargetExponent .binary64 (2 ^ 53) (e - 1) .exact =
      (.ofMantissaAndAccuracy (2 ^ 52) .exact, e) := by
  have hlog : (2 ^ 53 : ℕ).log2 = 53 := Nat.log2_two_pow
  have htarget : Format.binary64.targetExponent (totalExponent (2 ^ 53) (e - 1)) = e := by
    rw [targetExponent_eq, totalExponent, hlog]
    push_cast
    omega
  have hone : (e - (e - 1)).toNat = 1 := by omega
  rw [UnpackedFloat.shiftToTargetExponent, htarget, shiftToExponent_eq _ _ _ (by omega), hone]
  rfl

section Close

variable {m : ℕ} {e : ℤ} {q : ℚ}

/-- The last place of a value near a number is that of the number, or the next finer one if the value is just
below a power of two. -/
theorem Canonical.lastPlace_of_close (h : Canonical m e) (hclose : |q - m * 2 ^ e| < 2 ^ e / 2) :
    lastPlace q = e ∨ m = 2 ^ 52 ∧ -1074 < e ∧ lastPlace q = e - 1 := by
  have h2 : (0 : ℚ) < 2 ^ e := zpow_pos two_pos e
  obtain ⟨hlow, hhigh⟩ := abs_lt.1 hclose
  have hm1 : (1 : ℚ) ≤ m := by exact_mod_cast h.pos
  have hmax : (m : ℚ) + 1 ≤ 2 ^ 53 := by exact_mod_cast h.lt
  have hq : 0 < q := by nlinarith
  have hlog : ∀ k : ℕ, (2 : ℚ) ^ k * 2 ^ e ≤ q ↔ k + e ≤ Int.log 2 q := fun k => by
    rw [← zpow_natCast, ← zpow_add₀ two_ne_zero]
    exact Int.zpow_le_iff_le_log one_lt_two hq
  have hbelow : ¬ (53 : ℕ) + e ≤ Int.log 2 q := by
    rw [← hlog]
    nlinarith
  by_cases hsame : e = -1074 ∨ (52 : ℕ) + e ≤ Int.log 2 q
  · have := h.least
    refine .inl ?_
    rw [lastPlace]
    push_cast at hsame hbelow
    omega
  · obtain ⟨hnormal, hbelow'⟩ := not_or.1 hsame
    have hleast : -1074 < e := lt_of_le_of_ne h.least (Ne.symm hnormal)
    have hm52 : m < 2 ^ 52 + 1 := by
      rw [← hlog] at hbelow'
      have : (m : ℚ) < 2 ^ 52 + 1 := by nlinarith
      exact_mod_cast this
    have hm : m = 2 ^ 52 := by
      have := h.normal.resolve_right hnormal
      omega
    have hlogq : (51 : ℕ) + e ≤ Int.log 2 q := by
      rw [← hlog]
      rw [hm] at hlow
      push_cast at hlow
      nlinarith
    refine .inr ⟨hm, hleast, ?_⟩
    rw [lastPlace]
    push_cast at hlogq hbelow'
    omega

theorem rounded_of_lastPlace_eq (s : Sign) (h : Canonical m e) (hplace : lastPlace q = e)
    (hclose : |q - m * 2 ^ e| < 2 ^ e / 2) : rounded s q = .finite s m e h.pos := by
  have h2 : (0 : ℚ) < 2 ^ e := zpow_pos two_pos e
  have hscale : q / 2 ^ e - m = (q - m * 2 ^ e) / 2 ^ e := by field_simp
  have hnear : nearestEven (q / 2 ^ e) = m := nearestEven_of_close (by
    rw [hscale, abs_div, abs_of_pos h2, div_lt_iff₀ h2]
    linarith)
  simp only [rounded, hplace, hnear, shiftToTargetExponent_of_lt h.pos h.lt h.least]
  exact dif_neg h.pos.ne'

/-- On the finer grid a power of two has one bit more, which is carried. -/
theorem rounded_of_lastPlace_below (s : Sign) (hplace : lastPlace q = e - 1) (he : -1074 < e)
    (hclose : |q - (2 ^ 52 : ℕ) * 2 ^ e| < 2 ^ e / 4) : rounded s q = .finite s (2 ^ 52) e (Nat.two_pow_pos 52) := by
  have h2 : (0 : ℚ) < 2 ^ (e - 1) := zpow_pos two_pos _
  have htwice : (2 : ℚ) ^ e = 2 * 2 ^ (e - 1) := by
    rw [zpow_sub_one₀ two_ne_zero]
    ring
  rw [htwice] at hclose
  have hscale : q / 2 ^ (e - 1) - (2 ^ 53 : ℕ) =
      (q - (2 ^ 52 : ℕ) * (2 * 2 ^ (e - 1))) / 2 ^ (e - 1) := by
    field_simp
    push_cast
    ring
  have hnear : nearestEven (q / 2 ^ (e - 1)) = 2 ^ 53 := nearestEven_of_close (by
    rw [hscale, abs_div, abs_of_pos h2, div_lt_iff₀ h2]
    linarith)
  simp only [rounded, hplace, hnear, shiftToTargetExponent_carry he]
  exact dif_neg (Nat.two_pow_pos 52).ne'

/-- A value within half the gap around a number is rounded to it. Below a power of two the gap is half as
wide. -/
theorem rounded_of_close (s : Sign) (h : Canonical m e) (hclose : |q - m * 2 ^ e| < 2 ^ e / 2)
    (hpower : m = 2 ^ 52 → |q - m * 2 ^ e| < 2 ^ e / 4) : rounded s q = .finite s m e h.pos := by
  obtain hplace | ⟨rfl, he, hplace⟩ := h.lastPlace_of_close hclose
  · exact rounded_of_lastPlace_eq s h hplace hclose
  · exact rounded_of_lastPlace_below s hplace he (hpower rfl)

end Close

/-! ### Operations -/

theorem log_mul_zpow {m : ℕ} (hm : 0 < m) (e : ℤ) : Int.log 2 (m * 2 ^ e : ℚ) = m.log2 + e := by
  have h2 : (0 : ℚ) < 2 ^ e := zpow_pos two_pos e
  have hpos : (0 : ℚ) < m * 2 ^ e := mul_pos (by exact_mod_cast hm) h2
  have hle : ((2 : ℕ) : ℚ) ^ (m.log2 + e : ℤ) ≤ m * 2 ^ e := by
    have hlog : (2 : ℚ) ^ m.log2 ≤ m := by exact_mod_cast Nat.log2_self_le hm.ne'
    push_cast
    rw [zpow_add₀ two_ne_zero, zpow_natCast]
    exact mul_le_mul_of_nonneg_right hlog h2.le
  have hlt : (m * 2 ^ e : ℚ) < ((2 : ℕ) : ℚ) ^ (m.log2 + 1 + e : ℤ) := by
    have hlog : (m : ℚ) < 2 ^ (m.log2 + 1) := by exact_mod_cast Nat.lt_log2_self
    push_cast
    rw [zpow_add₀ two_ne_zero, ← Nat.cast_succ, zpow_natCast]
    exact mul_lt_mul_of_pos_right hlog h2
  have hlow := (Int.zpow_le_iff_le_log one_lt_two hpos).1 hle
  have hhigh := (Int.lt_zpow_iff_log_lt one_lt_two hpos).1 hlt
  omega

theorem round_eq (s : Sign) {m : ℕ} (hm : 0 < m) (e : ℤ) :
    UnpackedFloat.round .binary64 s m e = rounded s (m * 2 ^ e) := by
  have hq : (0 : ℚ) < m * 2 ^ e := mul_pos (by exact_mod_cast hm) (zpow_pos two_pos e)
  have htarget : Format.binary64.targetExponent (totalExponent m e) = lastPlace (m * 2 ^ e) := by
    rw [targetExponent_eq, totalExponent, lastPlace, log_mul_zpow hm]
    omega
  simp only [UnpackedFloat.round, UnpackedFloat.decreaseExponent, htarget]
  refine roundWithAccuracy_eq s hq (by omega) ?_
  have hvalue : (m * 2 ^ e : ℚ) / 2 ^ (e - (e - lastPlace (m * 2 ^ e)).toNat) =
      (m <<< (e - lastPlace (m * 2 ^ e)).toNat : ℕ) := by
    rw [Nat.shiftLeft_eq, zpow_sub₀ two_ne_zero, zpow_natCast]
    push_cast
    field_simp
  rw [hvalue]
  exact Describes.exact _

/-- The grid of a quotient, from the sizes of its two parts. -/
theorem targetExponent_le_lastPlace {a b : ℕ} (ha : 0 < a) (hb : 0 < b) (e f : ℤ) :
    Format.binary64.targetExponent (totalExponent a e - totalExponent b f) ≤
      lastPlace ((a * 2 ^ e) / (b * 2 ^ f)) := by
  have haq : (2 : ℚ) ^ (a.log2 + e : ℤ) ≤ a * 2 ^ e := by
    rw [← log_mul_zpow ha]
    exact Int.zpow_log_le_self one_lt_two (mul_pos (by exact_mod_cast ha) (zpow_pos two_pos e))
  have hbq : (b * 2 ^ f : ℚ) < 2 ^ (b.log2 + f + 1 : ℤ) := by
    rw [← log_mul_zpow hb]
    exact Int.lt_zpow_succ_log_self one_lt_two _
  have hb0 : (0 : ℚ) < b * 2 ^ f := mul_pos (by exact_mod_cast hb) (zpow_pos two_pos f)
  have hq : (0 : ℚ) < (a * 2 ^ e) / (b * 2 ^ f) :=
    div_pos (mul_pos (by exact_mod_cast ha) (zpow_pos two_pos e)) hb0
  have hlog : (a.log2 + e : ℤ) - (b.log2 + f) - 1 ≤ Int.log 2 ((a * 2 ^ e) / (b * 2 ^ f) : ℚ) := by
    refine (Int.zpow_le_iff_le_log one_lt_two hq).1 ?_
    rw [le_div_iff₀ hb0]
    calc (2 : ℚ) ^ ((a.log2 + e : ℤ) - (b.log2 + f) - 1) * (b * 2 ^ f)
        ≤ 2 ^ ((a.log2 + e : ℤ) - (b.log2 + f) - 1) * 2 ^ (b.log2 + f + 1 : ℤ) :=
          mul_le_mul_of_nonneg_left hbq.le (zpow_nonneg zero_le_two _)
      _ = 2 ^ (a.log2 + e : ℤ) := by
        rw [← zpow_add₀ two_ne_zero]
        congr 1
        ring
      _ ≤ a * 2 ^ e := haq
  rw [targetExponent_eq, totalExponent, totalExponent, lastPlace]
  omega

theorem div_eq_rounded (s s' : Sign) {a b : ℕ} (ha : 0 < a) (hb : 0 < b) (e f : ℤ) :
    UnpackedFloat.div .binary64 (.finite s a e ha) (.finite s' b f hb) =
      rounded (s / s') ((a * 2 ^ e) / (b * 2 ^ f)) := by
  have hbq : (0 : ℚ) < b := by exact_mod_cast hb
  have hq : (0 : ℚ) < (a * 2 ^ e) / (b * 2 ^ f) :=
    div_pos (mul_pos (by exact_mod_cast ha) (zpow_pos two_pos e)) (mul_pos hbq (zpow_pos two_pos f))
  simp only [UnpackedFloat.div, UnpackedFloat.divCore]
  set t : ℤ := min (e - f) (Format.binary64.targetExponent (totalExponent a e - totalExponent b f)) with ht
  have hplace : t ≤ lastPlace ((a * 2 ^ e) / (b * 2 ^ f)) :=
    (min_le_right _ _).trans (targetExponent_le_lastPlace ha hb e f)
  refine roundWithAccuracy_eq _ hq hplace ?_
  have hshift : (a * 2 ^ e : ℚ) / (b * 2 ^ f) / 2 ^ t = ((a <<< (e - f - t).toNat : ℕ) : ℚ) / b := by
    have hexponent : (2 : ℚ) ^ e = 2 ^ (e - f - t).toNat * 2 ^ f * 2 ^ t := by
      rw [← zpow_natCast, ← zpow_add₀ two_ne_zero, ← zpow_add₀ two_ne_zero]
      congr 1
      omega
    rw [Nat.shiftLeft_eq, hexponent]
    push_cast
    field_simp
  rw [hshift]
  exact Describes.fraction _ hb

end TraceAnomaly.Binary64
