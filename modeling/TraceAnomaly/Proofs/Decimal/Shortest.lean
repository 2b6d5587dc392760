import TraceAnomaly.Decimal.Shortest
import TraceAnomaly.Proofs.Decimal.Digits
import TraceAnomaly.Proofs.Decimal.Nearest

/-! The shortest numeral of a number reads back. Where the search finds a numeral it has been read back
already, and seventeen digits are always enough: their error stays below half the gap around the number. -/

namespace TraceAnomaly.Decimal

open Binary64 (Exact Canonical)

def valueOf (x : Exact) : ℚ := x.mantissa * 2 ^ x.exponent

def Numeral.value (n : Numeral) : ℚ := n.coefficient * 10 ^ n.power

/-! ### Quotients -/

theorem pow_toNat_div (b : ℕ) (e : ℤ) :
    (Nat.pow b e.toNat : ℚ) / (Nat.pow b (-e).toNat : ℕ) = (b : ℚ) ^ e := by
  rcases Int.le_total 0 e with he | he
  · lift e to ℕ using he
    simp
  · obtain ⟨k, rfl⟩ := Int.exists_eq_neg_ofNat he
    simp

theorem scaled_pos (m : ℕ) (e p : ℤ) : 0 < (scaled m e p).2 :=
  Nat.mul_pos (Nat.pow_pos (by decide)) (Nat.pow_pos (by decide))

theorem scaled_value (m : ℕ) (e p : ℤ) :
    ((scaled m e p).1 : ℚ) / (scaled m e p).2 = m * 2 ^ e * 10 ^ p := by
  have h2 := pow_toNat_div 2 e
  have h10 := pow_toNat_div 10 p
  rw [scaled]
  push_cast at h2 h10 ⊢
  rw [← h2, ← h10]
  ring

/-- The nearest integer is at most a half away. -/
theorem abs_div_sub_roundDiv_le (num : ℕ) {den : ℕ} (hden : 0 < den) :
    |(num / den : ℚ) - roundDiv num den| ≤ 1 / 2 := by
  have hd : (0 : ℚ) < den := by exact_mod_cast hden
  have hsplit : (num : ℚ) = den * (num / den : ℕ) + (num % den : ℕ) := by
    exact_mod_cast (Nat.div_add_mod num den).symm
  have hquot : (num / den : ℚ) = (num / den : ℕ) + (num % den : ℕ) / den := by
    rw [hsplit, add_div, mul_div_cancel_left₀ _ hd.ne']
  have hr0 : (0 : ℚ) ≤ (num % den : ℕ) / den := by positivity
  rw [hquot, roundDiv]
  rcases lt_trichotomy (2 * (num % den)) den with h | h | h
  · have hq : (2 : ℚ) * (num % den : ℕ) < den := by exact_mod_cast h
    have hr : ((num % den : ℕ) : ℚ) / den < 1 / 2 := by rw [div_lt_iff₀ hd]; linarith
    rw [compare_lt_iff_lt.2 h, abs_le]
    constructor <;> dsimp only <;> linarith
  · have hq : (2 : ℚ) * (num % den : ℕ) = den := by exact_mod_cast h
    have hr : ((num % den : ℕ) : ℚ) / den = 1 / 2 := by rw [div_eq_iff hd.ne']; linarith
    have hbit : (((num / den) % 2 : ℕ) : ℚ) = 0 ∨ (((num / den) % 2 : ℕ) : ℚ) = 1 := by
      rcases Nat.mod_two_eq_zero_or_one (num / den) with h0 | h1
      · exact .inl (by rw [h0, Nat.cast_zero])
      · exact .inr (by rw [h1, Nat.cast_one])
    rw [compare_eq_iff_eq.2 h, abs_le]
    push_cast
    rcases hbit with h0 | h1
    · constructor <;> linarith
    · constructor <;> linarith
  · have hq : (den : ℚ) < 2 * (num % den : ℕ) := by exact_mod_cast h
    have hr : 1 / 2 < ((num % den : ℕ) : ℚ) / den := by rw [lt_div_iff₀ hd]; linarith
    have hr1 : ((num % den : ℕ) : ℚ) / den < 1 := by
      rw [div_lt_one hd]
      exact_mod_cast Nat.mod_lt num hden
    rw [compare_gt_iff_gt.2 h, abs_le]
    push_cast
    constructor <;> linarith

/-! ### The leading digit -/

section Leading

variable {num den : ℕ}

/-- The digits of the whole part of a quotient that is not below one. -/
theorem whole_bounds (hden : 0 < den) (hle : den ≤ num) :
    (10 : ℚ) ^ ((digits (num / den)).length - 1 : ℤ) ≤ num / den ∧
      (num / den : ℚ) < 10 ^ ((digits (num / den)).length : ℤ) := by
  have hd : (0 : ℚ) < den := by exact_mod_cast hden
  obtain ⟨k, hk⟩ : ∃ k, (digits (num / den)).length = k + 1 :=
    ⟨_, (Nat.succ_pred_eq_of_pos (length_digits_pos _)).symm⟩
  have hlow := pow_length_digits_le (Nat.div_pos hle hden)
  have hhigh := lt_pow_length_digits (num / den)
  rw [hk] at hlow hhigh ⊢
  have hpower : ((k + 1 : ℕ) : ℤ) - 1 = k := by push_cast; ring
  rw [hpower, zpow_natCast, zpow_natCast, le_div_iff₀ hd, div_lt_iff₀ hd]
  constructor
  · exact_mod_cast (Nat.mul_le_mul_right den hlow).trans (Nat.div_mul_le_self num den)
  · exact_mod_cast (Nat.div_lt_iff_lt_mul hden).1 hhigh

/-- As many digits as the inverse of a quotient below one has in front of its point, the quotient has zeros
behind its own. -/
theorem fraction_bounds (hnum : 0 < num) (hlt : num < den) :
    (10 : ℚ) ^ (-(digits ((den - 1) / num)).length : ℤ) ≤ num / den ∧
      (num / den : ℚ) < 10 ^ (-(digits ((den - 1) / num)).length + 1 : ℤ) := by
  have hd : (0 : ℚ) < den := by exact_mod_cast hnum.trans hlt
  obtain ⟨k, hk⟩ : ∃ k, (digits ((den - 1) / num)).length = k + 1 :=
    ⟨_, (Nat.succ_pred_eq_of_pos (length_digits_pos _)).symm⟩
  have hlow := pow_length_digits_le (Nat.div_pos (by omega : num ≤ den - 1) hnum)
  have hhigh := lt_pow_length_digits ((den - 1) / num)
  rw [hk] at hlow hhigh ⊢
  have hpower : -((k + 1 : ℕ) : ℤ) + 1 = -(k : ℕ) := by push_cast; ring
  have hbelow : num * 10 ^ k < den := by
    have := (Nat.le_div_iff_mul_le hnum).1 hlow
    rw [Nat.mul_comm] at this
    exact lt_of_le_of_lt this (by omega)
  have habove : den ≤ num * 10 ^ (k + 1) := by
    have := (Nat.div_lt_iff_lt_mul hnum).1 hhigh
    rw [Nat.mul_comm] at this
    omega
  rw [hpower, zpow_neg, zpow_neg, zpow_natCast, zpow_natCast, le_div_iff₀ hd, div_lt_iff₀ hd,
    inv_mul_le_iff₀ (by positivity), lt_inv_mul_iff₀ (by positivity)]
  constructor
  · rw [mul_comm]
    exact_mod_cast habove
  · rw [mul_comm]
    exact_mod_cast hbelow

theorem leadingPower_bounds (hnum : 0 < num) (hden : 0 < den) :
    (10 : ℚ) ^ leadingPower num den ≤ num / den ∧ (num / den : ℚ) < 10 ^ (leadingPower num den + 1) := by
  rw [leadingPower]
  split
  · rename_i hle
    rw [sub_add_cancel]
    exact whole_bounds hden hle
  · rename_i hlt
    exact fraction_bounds hnum (Nat.not_le.1 hlt)

end Leading

theorem exact_leadingPower_bounds {x : Exact} (hx : 0 < x.mantissa) :
    (10 : ℚ) ^ Exact.leadingPower x ≤ valueOf x ∧ valueOf x < 10 ^ (Exact.leadingPower x + 1) := by
  have hnum : 0 < (scaled x.mantissa x.exponent 0).1 :=
    Nat.mul_pos (Nat.mul_pos hx (Nat.pow_pos (by decide))) (Nat.pow_pos (by decide))
  have hvalue := scaled_value x.mantissa x.exponent 0
  rw [zpow_zero, mul_one] at hvalue
  rw [valueOf, ← hvalue]
  exact leadingPower_bounds hnum (scaled_pos x.mantissa x.exponent 0)

theorem two_zpow_le_ten_zpow (n : ℕ) : (2 : ℚ) ^ (n : ℤ) ≤ 10 ^ (n : ℤ) := by
  rw [zpow_natCast, zpow_natCast]
  exact pow_le_pow_left₀ zero_le_two (by norm_num) n

theorem leadingPower_range {x : Exact} (h : Canonical x.mantissa x.exponent) (he : x.exponent ≤ 971) :
    -1075 ≤ Exact.leadingPower x ∧ Exact.leadingPower x ≤ 1023 := by
  obtain ⟨hlow, hhigh⟩ := exact_leadingPower_bounds h.pos
  have hm1 : (1 : ℚ) ≤ x.mantissa := by exact_mod_cast h.pos
  have hm2 : (x.mantissa : ℚ) < 2 ^ (53 : ℤ) := by exact_mod_cast h.lt
  have h2 : (0 : ℚ) < 2 ^ x.exponent := zpow_pos two_pos _
  have hmin : (10 : ℚ) ^ (-(1074 : ℕ) : ℤ) ≤ valueOf x := calc
    (10 : ℚ) ^ (-(1074 : ℕ) : ℤ) ≤ 2 ^ (-(1074 : ℕ) : ℤ) := by
      rw [zpow_neg, zpow_neg]
      exact inv_anti₀ (zpow_pos two_pos _) (two_zpow_le_ten_zpow 1074)
    _ ≤ 2 ^ x.exponent := zpow_le_zpow_right₀ one_le_two h.least
    _ ≤ valueOf x := le_mul_of_one_le_left h2.le hm1
  have hmax : valueOf x < (10 : ℚ) ^ ((1024 : ℕ) : ℤ) := calc
    valueOf x < 2 ^ (53 : ℤ) * 2 ^ x.exponent := mul_lt_mul_of_pos_right hm2 h2
    _ = 2 ^ (53 + x.exponent) := (zpow_add₀ two_ne_zero _ _).symm
    _ ≤ 2 ^ ((1024 : ℕ) : ℤ) := zpow_le_zpow_right₀ one_le_two (by push_cast; omega)
    _ ≤ 10 ^ ((1024 : ℕ) : ℤ) := two_zpow_le_ten_zpow 1024
  have h1 := (zpow_lt_zpow_iff_right₀ (by norm_num : (1 : ℚ) < 10)).1 (hmin.trans_lt hhigh)
  have h2 := (zpow_lt_zpow_iff_right₀ (by norm_num : (1 : ℚ) < 10)).1 (hlow.trans_lt hmax)
  push_cast at h1 h2
  omega

/-! ### The search -/

section Search

variable {x : Float} {m : ℕ} {e : ℤ} {hm : 0 < m}

/-- A numeral for a number that is not zero is not zero. -/
theorem coefficient_pos {n : Numeral} (hx : x.toModel.unpack = .finite .positive m e hm)
    (h : n.toFloat = x) : 0 < n.coefficient := by
  refine Nat.pos_of_ne_zero fun h0 => ?_
  have hzero : n.toFloat.toModel.unpack = .zero .positive := by
    rw [Numeral.toFloat, h0]
    exact Binary64.unpack_pack (.zero .positive)
  rw [h, hx] at hzero
  cases hzero

/-- Seventeen digits are enough. -/
theorem seventeen_digits (hx : x.toModel.unpack = .finite .positive m e hm) {leading : ℤ}
    (hleading : (10 : ℚ) ^ leading ≤ m * 2 ^ e) (hlow : -1075 ≤ leading) (hhigh : leading ≤ 1023) :
    (⟨roundDiv (scaled m e (16 - leading)).1 (scaled m e (16 - leading)).2, leading - 16⟩ :
      Numeral).toFloat = x := by
  obtain ⟨hcanonical, -⟩ := Binary64.canonical_of_unpack hx
  have h10 : (0 : ℚ) < 10 ^ (leading - 16) := by positivity
  have h2 : (0 : ℚ) < 2 ^ e := by positivity
  have herror := abs_div_sub_roundDiv_le (scaled m e (16 - leading)).1 (scaled_pos m e (16 - leading))
  rw [scaled_value] at herror
  set c := roundDiv (scaled m e (16 - leading)).1 (scaled m e (16 - leading)).2 with hc
  have hsplit : (10 : ℚ) ^ leading = 10 ^ 16 * 10 ^ (leading - 16) := by
    rw [← zpow_natCast, ← zpow_add₀ (by norm_num)]
    congr 1
    push_cast
    ring
  have hunit : (10 : ℚ) ^ (16 - leading) * 10 ^ (leading - 16) = 1 := by
    rw [← zpow_add₀ (by norm_num), show (16 - leading + (leading - 16)) = 0 by ring, zpow_zero]
  -- the error in places of the last digit, and the same error in its true size
  have hclose : |(c * 10 ^ (leading - 16) : ℚ) - m * 2 ^ e| ≤ 1 / 2 * 10 ^ (leading - 16) := by
    have hscale : (c * 10 ^ (leading - 16) : ℚ) - m * 2 ^ e =
        -((m * 2 ^ e * 10 ^ (16 - leading) - c) * 10 ^ (leading - 16)) := by
      linear_combination (m * 2 ^ e : ℚ) * hunit
    rw [hscale, abs_neg, abs_mul, abs_of_pos h10]
    exact mul_le_mul_of_nonneg_right herror h10.le
  have hbound : (10 ^ 16 : ℚ) * 10 ^ (leading - 16) ≤ m * 2 ^ e := hsplit ▸ hleading
  have hm2 : (m : ℚ) < 2 ^ 53 := by exact_mod_cast hcanonical.lt
  have hpos : 0 < c := by
    refine Nat.pos_of_ne_zero fun h0 => ?_
    rw [h0, Nat.cast_zero, zero_mul, zero_sub, abs_neg, abs_of_nonneg (by positivity)] at hclose
    linarith
  refine Binary64.ofDecimal_of_close hx hpos (by dsimp only; omega) (by dsimp only; omega) (hclose.trans_lt ?_) fun hm52 =>
    hclose.trans_lt ?_
  · have := mul_lt_mul_of_pos_right hm2 h2
    linarith
  · rw [hm52] at hbound
    push_cast at hbound
    linarith

/-- What the search gives reads back, at each of its stages. -/
theorem shortestFrom_toFloat (hx : x.toModel.unpack = .finite .positive m e hm) {v : Exact}
    (hv : v.mantissa = m ∧ v.exponent = e) {leading : ℤ} (hleading : (10 : ℚ) ^ leading ≤ m * 2 ^ e)
    (hlow : -1075 ≤ leading) (hhigh : leading ≤ 1023) (more tried : ℕ) (htried : more + tried = 16) :
    (shortestFrom v x leading more tried).toFloat = x ∧
      leading - 16 ≤ (shortestFrom v x leading more tried).power ∧
      (shortestFrom v x leading more tried).power ≤ leading := by
  obtain ⟨rfl, rfl⟩ := hv
  induction more generalizing tried with
  | zero =>
    obtain rfl : tried = 16 := by omega
    exact ⟨seventeen_digits hx hleading hlow hhigh, le_rfl, by simp [shortestFrom]⟩
  | succ more ih =>
    rw [shortestFrom]
    split
    · rename_i n hfind
      have hback := List.find?_some hfind
      have hmem := List.mem_of_find?_eq_some hfind
      have hpower : n.power = leading - tried := by
        simp only [neighbours, List.mem_cons, List.not_mem_nil, or_false] at hmem
        rcases hmem with rfl | rfl <;> rfl
      exact ⟨Binary64.eq_of_beq hx hback, by omega, by omega⟩
    · exact ih _ (by omega)

end Search

/-! ### Zeros at the end -/

namespace Numeral

/-- What a numeral that is not out of all proportion stands for depends on its value alone. -/
theorem toFloat_congr {n n' : Numeral} (hn : 0 < n.coefficient) (hn' : 0 < n'.coefficient)
    (hlow : -2048 ≤ n.power) (hhigh : n.power ≤ 2048) (hlow' : -2048 ≤ n'.power) (hhigh' : n'.power ≤ 2048)
    (h : n.value = n'.value) : n.toFloat = n'.toFloat :=
  Binary64.ofDecimal_congr hn hn' hlow hhigh hlow' hhigh' h

theorem trim_spec (fuel : ℕ) {n : Numeral} (hn : 0 < n.coefficient) :
    (trim fuel n).value = n.value ∧ 0 < (trim fuel n).coefficient ∧ n.power ≤ (trim fuel n).power ∧
      (trim fuel n).power ≤ n.power + fuel := by
  induction fuel generalizing n with
  | zero => simp [trim, hn]
  | succ fuel ih =>
    rw [trim]
    split
    · rename_i hzero
      obtain ⟨hvalue, hpos, hlow, hhigh⟩ := ih (n := ⟨n.coefficient / 10, n.power + 1⟩) (by dsimp only; omega)
      have hcoefficient : (n.coefficient : ℚ) = 10 * (n.coefficient / 10 : ℕ) := by
        exact_mod_cast (Nat.mul_div_cancel' (Nat.dvd_of_mod_eq_zero hzero.2)).symm
      refine ⟨?_, hpos, by dsimp only at hlow; omega, by dsimp only at hhigh; push_cast; omega⟩
      rw [hvalue, value, value, hcoefficient, zpow_add_one₀ (by norm_num)]
      ring
    · exact ⟨rfl, hn, le_rfl, by omega⟩

end Numeral

/-- The shortest numeral of a number that is not zero stands for its magnitude. -/
theorem shortest_spec {x : Float} {s : Float.Model.UnpackedFloat.Sign} {m : ℕ} {e : ℤ} {hm : 0 < m}
    (hx : x.toModel.unpack = .finite s m e hm) {v : Exact} (hv : v.mantissa = m ∧ v.exponent = e) :
    (shortest x v).toFloat = x.abs ∧ 0 < (shortest x v).coefficient ∧ -1091 ≤ (shortest x v).power ∧
      (shortest x v).power ≤ 1041 := by
  have habs := Binary64.unpack_abs hx
  obtain ⟨hcanonical, he⟩ := Binary64.canonical_of_unpack hx
  obtain ⟨hlow, hhigh⟩ := leadingPower_range (x := v) (by rwa [hv.1, hv.2]) (by rwa [hv.2])
  have hleading := (exact_leadingPower_bounds (x := v) (by rwa [hv.1])).1
  rw [valueOf, hv.1, hv.2] at hleading
  obtain ⟨hback, hfrom, hto⟩ :=
    shortestFrom_toFloat habs hv hleading hlow hhigh 16 0 rfl
  have hpos := coefficient_pos habs hback
  obtain ⟨hvalue, hpos', hlow', hhigh'⟩ := Numeral.trim_spec 18 hpos
  push_cast at hhigh'
  rw [shortest, if_neg (by rw [hv.1]; exact hm.ne')]
  exact ⟨(Numeral.toFloat_congr hpos' hpos (by omega) (by omega) (by omega) (by omega) hvalue).trans hback,
    hpos', by omega, by omega⟩

end TraceAnomaly.Decimal
