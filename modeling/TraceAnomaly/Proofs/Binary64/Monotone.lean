import TraceAnomaly.Proofs.Binary64.Sign

/-! Rounding keeps order. Where a value is rounded to can be told from the value alone, and grows with it; a
number is its own rounding. So a sum with something that is not negative is not below the number that
was added to, and division by something that is at least one does not leave the finite numbers. Natural numbers
of at most 53 bits are their own roundings, so they add up exactly. -/

namespace TraceAnomaly.Binary64

open Float.Model (Format UnpackedFloat totalExponent)
open Float.Model.UnpackedFloat (Sign)

/-! ### Mantissas -/

theorem floor_le_nearestEven (x : ℚ) : ⌊x⌋₊ ≤ nearestEven x := by
  unfold nearestEven
  split <;> omega

theorem nearestEven_le_floor (x : ℚ) : nearestEven x ≤ ⌊x⌋₊ + 1 := by
  unfold nearestEven
  split <;> omega

theorem nearestEven_mono {x y : ℚ} (h : x ≤ y) : nearestEven x ≤ nearestEven y := by
  rcases (Nat.floor_mono h).lt_or_eq with hlt | heq
  · exact (nearestEven_le_floor x).trans (hlt.trans_le (floor_le_nearestEven y))
  · -- between two integers the nearest one goes by the fraction
    rw [nearestEven, nearestEven, heq]
    have hfraction : x - ⌊y⌋₊ ≤ y - ⌊y⌋₊ := sub_le_sub_right h _
    rcases lt_trichotomy (x - ⌊y⌋₊) (1 / 2) with hx | hx | hx <;>
      rcases lt_trichotomy (y - ⌊y⌋₊) (1 / 2) with hy | hy | hy <;>
      first
      | exact absurd hfraction (by linarith)
      | simp only [compare_lt_iff_lt.2, compare_eq_iff_eq.2, compare_gt_iff_gt.2, hx, hy]; omega

theorem nearestEven_natCast (m : ℕ) : nearestEven m = m :=
  nearestEven_of_close (by norm_num)

/-! ### Places of values -/

/-- The place of the number that a positive value is rounded to, as if exponents had no upper bound. -/
def spot (q : ℚ) : ℤ :=
  if q ≤ 0 then 0 else rank (nearestEven (q / 2 ^ lastPlace q)) (lastPlace q)

theorem spot_of_pos {q : ℚ} (hq : 0 < q) :
    spot q = rank (nearestEven (q / 2 ^ lastPlace q)) (lastPlace q) :=
  if_neg (not_le.2 hq)

theorem spot_of_nonpos {q : ℚ} (hq : q ≤ 0) : spot q = 0 := if_pos hq

section Grid

variable {q q' : ℚ}

theorem lastPlace_mono (hq : 0 < q) (h : q ≤ q') : lastPlace q ≤ lastPlace q' :=
  max_le_max_right _ (sub_le_sub_right (Int.log_mono_right hq h) _)

variable (q) in
theorem nearestEven_le_grid : nearestEven (q / 2 ^ lastPlace q) ≤ 2 ^ 53 := by
  have h2 : (0 : ℚ) < 2 ^ lastPlace q := zpow_pos two_pos _
  have hlt : q < 2 ^ (Int.log 2 q + 1) := Int.lt_zpow_succ_log_self one_lt_two q
  have hgrid : (2 : ℚ) ^ (Int.log 2 q + 1) ≤ 2 ^ (53 : ℕ) * 2 ^ lastPlace q := by
    rw [← zpow_natCast, ← zpow_add₀ two_ne_zero]
    refine zpow_le_zpow_right₀ one_le_two ?_
    rw [lastPlace]
    omega
  have hbelow : q / 2 ^ lastPlace q ≤ (2 ^ 53 : ℕ) := by
    rw [div_le_iff₀ h2]
    push_cast
    linarith
  exact (nearestEven_mono hbelow).trans_eq (nearestEven_natCast _)

theorem grid_le_nearestEven (hq : 0 < q) (hplace : -1074 < lastPlace q) :
    2 ^ 52 ≤ nearestEven (q / 2 ^ lastPlace q) := by
  have h2 : (0 : ℚ) < 2 ^ lastPlace q := zpow_pos two_pos _
  have hle : (2 : ℚ) ^ Int.log 2 q ≤ q := Int.zpow_log_le_self one_lt_two hq
  have hgrid : (2 : ℚ) ^ (52 : ℕ) * 2 ^ lastPlace q ≤ 2 ^ Int.log 2 q := by
    rw [← zpow_natCast, ← zpow_add₀ two_ne_zero]
    refine zpow_le_zpow_right₀ one_le_two ?_
    rw [lastPlace] at hplace ⊢
    omega
  have habove : ((2 ^ 52 : ℕ) : ℚ) ≤ q / 2 ^ lastPlace q := by
    rw [le_div_iff₀ h2]
    push_cast
    linarith
  exact (nearestEven_natCast _).symm.le.trans (nearestEven_mono habove)

theorem le_lastPlace (q : ℚ) : -1074 ≤ lastPlace q := le_max_right _ _

theorem spot_nonneg (q : ℚ) : 0 ≤ spot q := by
  have := le_lastPlace q
  unfold spot rank
  split <;> omega

/-- Rounding keeps order. -/
theorem spot_mono (h : q ≤ q') : spot q ≤ spot q' := by
  by_cases hq : q ≤ 0
  · exact (spot_of_nonpos hq).trans_le (spot_nonneg q')
  have hpos : 0 < q := not_le.1 hq
  have hpos' : 0 < q' := hpos.trans_le h
  rw [spot_of_pos hpos, spot_of_pos hpos', rank, rank]
  rcases (lastPlace_mono hpos h).lt_or_eq with hlt | heq
  · have := nearestEven_le_grid q
    have := grid_le_nearestEven hpos' ((le_lastPlace q).trans_lt hlt)
    omega
  · have hmantissa : nearestEven (q / 2 ^ lastPlace q) ≤ nearestEven (q' / 2 ^ lastPlace q') := by
      rw [heq]
      exact nearestEven_mono (div_le_div_of_nonneg_right h (zpow_nonneg zero_le_two _))
    omega

end Grid

namespace Canonical

variable {m : ℕ} {e : ℤ}

theorem lastPlace_eq (h : Canonical m e) : lastPlace (m * 2 ^ e) = e := by
  have hlt : m.log2 < 53 := (Nat.log2_lt h.pos.ne').2 h.lt
  rw [lastPlace, log_mul_zpow h.pos]
  rcases h.normal with hnormal | rfl
  · have : 52 ≤ m.log2 := (Nat.le_log2 h.pos.ne').2 hnormal
    have := h.least
    omega
  · omega

/-- A number is its own rounding. -/
theorem spot_eq (h : Canonical m e) : spot (m * 2 ^ e) = rank m e := by
  have h2 : (0 : ℚ) < 2 ^ e := zpow_pos two_pos e
  have hpos : (0 : ℚ) < m * 2 ^ e := mul_pos (by exact_mod_cast h.pos) h2
  rw [spot_of_pos hpos, h.lastPlace_eq, mul_div_cancel_right₀ _ h2.ne', nearestEven_natCast]

end Canonical

/-! ### Rounded values -/

/-- The place of the number that a value is rounded to. -/
def landing (r : ℚ) : ℤ := min (spot r) top - min (spot (-r)) top

theorem landing_mono {r r' : ℚ} (h : r ≤ r') : landing r ≤ landing r' :=
  sub_le_sub (min_le_min_right _ (spot_mono h)) (min_le_min_right _ (spot_mono (neg_le_neg h)))

theorem min_spot_zero {r : ℚ} (h : r ≤ 0) : min (spot r) top = 0 := by
  rw [spot_of_nonpos h]
  rfl

theorem landing_apply (s : Sign) {q : ℚ} (hq : 0 < q) :
    landing (s.apply 1 * q) = s.apply (min (spot q) top) := by
  cases s with
  | positive => simp [landing, min_spot_zero (neg_nonpos.2 hq.le)]
  | negative => simp [landing, min_spot_zero (neg_nonpos.2 hq.le)]

/-- The value of a finite number. -/
def valueOf : UnpackedFloat → ℚ
  | .finite s m e _ => s.apply 1 * (m * 2 ^ e)
  | _ => 0

@[simp] theorem valueOf_zero (s : Sign) : valueOf (.zero s) = 0 := rfl

theorem landing_zero : landing 0 = 0 := by
  simp [landing]

theorem Representable.isFinite_cases {u : UnpackedFloat} (hu : Representable u) (h : u.isFinite = true) :
    (∃ s, u = .zero s) ∨
      ∃ (s : Sign) (m : ℕ) (e : ℤ) (hc : Canonical m e), e ≤ 971 ∧ u = .finite s m e hc.pos := by
  cases hu with
  | notANumber => exact absurd h Bool.false_ne_true
  | infinity s => exact absurd h Bool.false_ne_true
  | zero s => exact .inl ⟨s, rfl⟩
  | finite s hc he => exact .inr ⟨s, _, _, hc, he, rfl⟩

theorem place_eq_landing {u : UnpackedFloat} (hu : Representable u) (hfinite : u.isFinite = true) :
    place u = landing (valueOf u) := by
  obtain ⟨s, rfl⟩ | ⟨s, m, e, h, he, rfl⟩ := hu.isFinite_cases hfinite
  · exact landing_zero.symm
  · have hpos : (0 : ℚ) < m * 2 ^ e := mul_pos (by exact_mod_cast h.pos) (zpow_pos two_pos e)
    rw [place, valueOf, landing_apply s hpos, h.spot_eq, min_eq_left (h.rank_lt he).le]

/-- A rounded value is zero or in the form in which numbers are held, except that its exponent may be too
large. -/
theorem rounded_cases (s : Sign) {q : ℚ} (hq : 0 < q) :
    (rounded s q = .zero s ∧ spot q = 0) ∨
      ∃ (m : ℕ) (e : ℤ) (h : Canonical m e), rounded s q = .finite s m e h.pos ∧ spot q = rank m e := by
  have hplace := le_lastPlace q
  have hgrid := nearestEven_le_grid q
  rw [spot_of_pos hq]
  set N := nearestEven (q / 2 ^ lastPlace q) with hN
  by_cases hcarry : N = 2 ^ 53
  · have he : -1074 < lastPlace q + 1 := by omega
    refine .inr ⟨2 ^ 52, lastPlace q + 1, ⟨by norm_num, by norm_num, he.le, .inl le_rfl⟩, ?_, ?_⟩
    · have hshift := shiftToTargetExponent_carry he
      rw [add_sub_cancel_right] at hshift
      simp only [rounded, ← hN, hcarry, hshift]
      exact dif_neg (Nat.two_pow_pos 52).ne'
    · rw [hcarry, rank, rank]
      push_cast
      ring
  · by_cases hzero : N = 0
    · have hlast : lastPlace q = -1074 := by
        by_contra hne
        have := grid_le_nearestEven hq (lt_of_le_of_ne hplace (Ne.symm hne))
        omega
      have hshift : (UnpackedFloat.shiftToTargetExponent .binary64 N (lastPlace q) .exact).1.mantissa = 0 := by
        rw [hzero, hlast]
        rfl
      exact .inl ⟨dif_pos hshift, by simp [hzero, hlast, rank]⟩
    · have hpos : 0 < N := Nat.pos_of_ne_zero hzero
      have hlt : N < 2 ^ 53 := lt_of_le_of_ne hgrid hcarry
      have hnormal : 2 ^ 52 ≤ N ∨ lastPlace q = -1074 := by
        rcases hplace.lt_or_eq with h | h
        · exact .inl (grid_le_nearestEven hq h)
        · exact .inr h.symm
      refine .inr ⟨N, lastPlace q, ⟨hpos, hlt, hplace, hnormal⟩, ?_, rfl⟩
      simp only [rounded, ← hN, shiftToTargetExponent_of_lt hpos hlt hplace]
      exact dif_neg hzero

theorem unpack_pack_overflow (s : Sign) {m : ℕ} {e : ℤ} (hm : 0 < m) (he : 971 < e) :
    (Float.Model.pack (.finite s m e hm)).unpack = .infinity s := by
  have hbiased : 2 ^ 11 ≤ (e + 1023 + 52).toNat + 1 := by omega
  have hpack : UnpackedFloat.pack .binary64 (.finite s m e hm) = UnpackedFloat.pack .binary64 (.infinity s) :=
    if_pos hbiased
  exact (congrArg (UnpackedFloat.unpack .binary64) hpack).trans (unpack_pack (.infinity s))

theorem Canonical.top_le_rank {m : ℕ} {e : ℤ} (h : Canonical m e) (he : 971 < e) : top ≤ rank m e := by
  have := h.normal
  rw [top, rank]
  omega

/-- A rounded value stands where its rounding is, or at the ends. -/
theorem place_rounded (s : Sign) {q : ℚ} (hq : 0 < q) :
    place (Float.Model.pack (rounded s q)).unpack = landing (s.apply 1 * q) := by
  rw [landing_apply s hq]
  obtain ⟨hzero, hspot⟩ | ⟨m, e, h, hfinite, hspot⟩ := rounded_cases s hq
  · rw [hzero, hspot, unpack_pack (.zero s)]
    cases s <;> rfl
  · rw [hfinite, hspot]
    by_cases he : e ≤ 971
    · rw [unpack_pack (.finite s h he), min_eq_left (h.rank_lt he).le]
      rfl
    · rw [unpack_pack_overflow s h.pos (not_le.1 he), min_eq_right (h.top_le_rank (not_le.1 he))]
      rfl

/-! ### Operations -/

theorem place_normalize (M e : ℤ) (s : Sign) :
    place (Float.Model.pack (UnpackedFloat.normalize .binary64 M e s)).unpack = landing (M * 2 ^ e) := by
  have h2 : (0 : ℚ) < 2 ^ e := zpow_pos two_pos e
  rcases lt_trichotomy M 0 with hM | rfl | hM
  · obtain ⟨m, rfl⟩ : ∃ m : ℕ, M = -m := ⟨(-M).toNat, by omega⟩
    have hm : 0 < m := by omega
    have hnat : (- -(m : ℤ)).toNat = m := by omega
    rw [UnpackedFloat.normalize, compare_lt_iff_lt.2 hM, hnat, round_eq .negative hm,
      place_rounded .negative (mul_pos (by exact_mod_cast hm) h2)]
    simp
  · rw [UnpackedFloat.normalize, compare_eq_iff_eq.2 rfl, unpack_pack (.zero s), Int.cast_zero, zero_mul,
      landing_zero]
    rfl
  · lift M to ℕ using hM.le
    have hm : 0 < M := by omega
    rw [UnpackedFloat.normalize, compare_gt_iff_gt.2 hM, Int.toNat_natCast, round_eq .positive hm,
      place_rounded .positive (mul_pos (by exact_mod_cast hm) h2)]
    simp

/-- Two finite numbers brought to one power of two. -/
theorem valueOf_shiftLeft (s : Sign) {m : ℕ} {e e₀ : ℤ} (hm : 0 < m) (he : e₀ ≤ e) :
    (s.apply (m <<< (e - e₀).toNat : ℕ) : ℚ) * 2 ^ e₀ = valueOf (.finite s m e hm) := by
  have hshift : (2 : ℚ) ^ e = 2 ^ (e - e₀).toNat * 2 ^ e₀ := by
    rw [← zpow_natCast, ← zpow_add₀ two_ne_zero]
    congr 1
    omega
  rw [valueOf, hshift]
  cases s <;> simp [Nat.shiftLeft_eq] <;> ring

theorem place_add {u v : UnpackedFloat} (hu : Representable u) (hv : Representable v)
    (hufin : u.isFinite = true) (hvfin : v.isFinite = true) :
    place (Float.Model.pack (UnpackedFloat.add .binary64 u v)).unpack = landing (valueOf u + valueOf v) := by
  obtain ⟨s, rfl⟩ | ⟨s, m, e, h, he, rfl⟩ := hu.isFinite_cases hufin
  · rw [valueOf_zero, zero_add, ← place_eq_landing hv hvfin]
    obtain ⟨s', rfl⟩ | ⟨s', m', e', h', he', rfl⟩ := hv.isFinite_cases hvfin
    · cases s <;> cases s' <;> rfl
    · exact congrArg place (unpack_pack (.finite s' h' he'))
  · obtain ⟨s', rfl⟩ | ⟨s', m', e', h', he', rfl⟩ := hv.isFinite_cases hvfin
    · rw [valueOf_zero, add_zero, ← place_eq_landing (.finite s h he) rfl]
      exact congrArg place (unpack_pack (.finite s h he))
    · refine (place_normalize _ _ .positive).trans (congrArg landing ?_)
      rw [Int.cast_add, add_mul, valueOf_shiftLeft s h.pos (min_le_left _ _),
        valueOf_shiftLeft s' h'.pos (min_le_right _ _)]

theorem place_div {u : UnpackedFloat} (hu : Representable u) (hufin : u.isFinite = true) (s' : Sign) {m' : ℕ}
    (hm' : 0 < m') (e' : ℤ) :
    place (Float.Model.pack (UnpackedFloat.div .binary64 u (.finite s' m' e' hm'))).unpack =
      landing (valueOf u / valueOf (.finite s' m' e' hm')) := by
  obtain ⟨s, rfl⟩ | ⟨s, m, e, h, -, rfl⟩ := hu.isFinite_cases hufin
  · rw [valueOf_zero, zero_div, landing_zero]
    exact congrArg place (unpack_pack (.zero (s / s')))
  · have hq : (0 : ℚ) < (m * 2 ^ e) / (m' * 2 ^ e') :=
      div_pos (mul_pos (by exact_mod_cast h.pos) (zpow_pos two_pos e))
        (mul_pos (by exact_mod_cast hm') (zpow_pos two_pos e'))
    have hsign : ((s / s').apply 1 : ℚ) = s.apply 1 / s'.apply 1 := by
      have hproduct : (s / s').apply 1 = s.apply 1 * s'.apply 1 := by cases s <;> cases s' <;> rfl
      rw [hproduct]
      cases s' <;> simp [div_neg]
    rw [div_eq_rounded s s' h.pos hm', place_rounded _ hq, hsign, valueOf, valueOf, div_mul_div_comm]

/-! ### Numbers -/

section Numbers

variable {x y : Float}

def value (x : Float) : ℚ := valueOf x.toModel.unpack

theorem isFinite_eq (x : Float) : x.isFinite = x.toModel.unpack.isFinite := rfl

theorem isFinite_iff : x.isFinite = true ↔ x.isNaN = false ∧ -top < position x ∧ position x < top := by
  have hrep := representable_unpack x.toModel
  rw [isFinite_eq, isNaN_eq_false_iff, position]
  generalize x.toModel.unpack = u at hrep
  cases hrep with
  | notANumber => simp [UnpackedFloat.isFinite]
  | infinity s => cases s <;> simp [UnpackedFloat.isFinite, place]
  | zero s => simp [UnpackedFloat.isFinite, place, top]
  | finite s h he =>
    have := h.rank_pos
    have := h.rank_lt he
    cases s <;> simp [UnpackedFloat.isFinite, place] <;> omega

theorem position_eq_landing (hx : x.isFinite = true) : position x = landing (value x) :=
  place_eq_landing (representable_unpack _) hx

theorem position_add (hx : x.isFinite = true) (hy : y.isFinite = true) :
    position (x + y) = landing (value x + value y) :=
  place_add (representable_unpack _) (representable_unpack _) hx hy

theorem position_ofNat (n : ℕ) : position (ofNat n) = landing n := by
  have hplace := place_normalize n 0 .positive
  rw [zpow_zero, mul_one] at hplace
  exact_mod_cast hplace

theorem NotNegative.value_nonneg (hy : NotNegative y) : 0 ≤ value y := by
  unfold NotNegative at hy
  rw [value]
  generalize y.toModel.unpack = u at hy
  cases hy with
  | finite hm => exact mul_nonneg (by simp) (mul_nonneg (Nat.cast_nonneg _) (zpow_nonneg zero_le_two _))
  | _ => exact le_rfl

theorem unpack_add_infinity (hx : x.isFinite = true) {s : Sign} (hy : y.toModel.unpack = .infinity s) :
    (x + y).toModel.unpack = .infinity s := by
  have hsum : UnpackedFloat.add .binary64 x.toModel.unpack y.toModel.unpack = .infinity s := by
    rw [isFinite_eq] at hx
    rw [hy]
    obtain ⟨s', hu⟩ | ⟨s', m, e, hm, hu⟩ := isFinite_cases hx <;> rw [hu] <;> rfl
  change (Float.Model.pack (UnpackedFloat.add .binary64 x.toModel.unpack y.toModel.unpack)).unpack = _
  rw [hsum, unpack_pack (.infinity s)]

/-- A number is at most its sum with one that is not negative. -/
theorem le_add (hx : x.isFinite = true) (hy : NotNegative y) (hdefined : y.isNaN = false) : x ≤ x + y := by
  obtain ⟨hxdefined, -, hhigh⟩ := isFinite_iff.1 hx
  by_cases hyfin : y.isFinite = true
  · rw [le_iff hxdefined (isNaN_add hx hyfin), position_add hx hyfin, position_eq_landing hx]
    exact landing_mono (le_add_of_nonneg_right hy.value_nonneg)
  · have hinf : y.toModel.unpack = .infinity .positive := by
      rw [isFinite_eq] at hyfin
      rw [isNaN_eq_false_iff] at hdefined
      unfold NotNegative at hy
      generalize y.toModel.unpack = u at hy hyfin hdefined
      cases hy with
      | notANumber => exact absurd rfl hdefined
      | infinity => rfl
      | zero => exact absurd rfl hyfin
      | finite hm => exact absurd rfl hyfin
    have hsum := unpack_add_infinity hx hinf
    have hposition : position (x + y) = top := by
      rw [position, hsum]
      rfl
    rw [le_iff hxdefined (isNaN_eq_false_iff.2 (by rw [hsum]; exact UnpackedFloat.noConfusion)), hposition]
    exact hhigh.le

inductive AtLeastOne : UnpackedFloat → Prop
  | infinity : AtLeastOne (.infinity .positive)
  | finite {m : ℕ} {e : ℤ} (hm : 0 < m) (hone : (1 : ℚ) ≤ m * 2 ^ e) :
      AtLeastOne (.finite .positive m e hm)

/-- A finite number stays finite when divided by one that is at least one. -/
theorem isFinite_div (hx : x.isFinite = true) (hy : AtLeastOne y.toModel.unpack) :
    (x / y).isFinite = true := by
  generalize hunpack : y.toModel.unpack = v at hy
  cases hy with
  | infinity =>
    have hquotient : UnpackedFloat.div .binary64 x.toModel.unpack y.toModel.unpack = .zero .positive ∨
        UnpackedFloat.div .binary64 x.toModel.unpack y.toModel.unpack = .zero .negative := by
      rw [isFinite_eq] at hx
      rw [hunpack]
      obtain ⟨s, hu⟩ | ⟨s, m, e, hm, hu⟩ := isFinite_cases hx <;> rw [hu] <;>
        cases s <;> simp [UnpackedFloat.div, HDiv.hDiv, Div.div]
    change (Float.Model.pack (UnpackedFloat.div _ _ _)).unpack.isFinite = true
    rcases hquotient with h | h <;> rw [h, unpack_pack (.zero _)] <;> rfl
  | @finite m e hm hone =>
    have hposition : position (x / y) = landing (value x / (m * 2 ^ e)) := by
      have hplace := place_div (representable_unpack x.toModel) hx .positive hm e
      rw [← hunpack] at hplace
      refine hplace.trans ?_
      rw [hunpack, value, valueOf, apply_positive, Int.cast_one, one_mul]
    obtain ⟨hdefined, hlow, hhigh⟩ := isFinite_iff.1 hx
    rw [position_eq_landing hx] at hlow hhigh
    rw [isFinite_iff, isNaN_div_finite hunpack, hposition]
    refine ⟨hdefined, ?_⟩
    have htop : (0 : ℤ) < top := by decide
    have hpos : (0 : ℚ) < m * 2 ^ e := zero_lt_one.trans_le hone
    rcases le_total 0 (value x) with hsign | hsign
    · have hzero := landing_mono (div_nonneg hsign hpos.le)
      have hle := landing_mono (div_le_self hsign hone)
      rw [landing_zero] at hzero
      omega
    · have hzero := landing_mono (div_nonpos_of_nonpos_of_nonneg hsign hpos.le)
      have hle : value x ≤ value x / (m * 2 ^ e) := by
        rw [le_div_iff₀ hpos]
        exact (mul_le_mul_of_nonpos_left hone hsign).trans_eq (mul_one _)
      have := landing_mono hle
      rw [landing_zero] at hzero
      omega

theorem isFinite_ofNat {n : ℕ} (hn : n ≤ 2 ^ 64) : (ofNat n).isFinite = true := by
  have hlow := landing_mono (Nat.cast_nonneg (α := ℚ) n)
  have hhigh := landing_mono (show (n : ℚ) ≤ (2 ^ 64 : ℕ) by exact_mod_cast hn)
  have hmost : position (ofNat (2 ^ 64)) < top := by decide +kernel
  rw [landing_zero] at hlow
  rw [← position_ofNat (2 ^ 64)] at hhigh
  rw [isFinite_iff, isNaN_eq, sign?_ofNat, position_ofNat]
  exact ⟨rfl, lt_of_lt_of_le (by decide) hlow, hhigh.trans_lt hmost⟩

theorem atLeastOne_ofNat {n : ℕ} (hn : 0 < n) : AtLeastOne (ofNat n).toModel.unpack := by
  have hone : landing 1 = 1023 * 2 ^ 52 := by
    have hposition := position_ofNat 1
    rw [Nat.cast_one] at hposition
    exact hposition.symm
  have hposition : 1023 * 2 ^ 52 ≤ position (ofNat n) := by
    rw [position_ofNat, ← hone]
    exact landing_mono (by exact_mod_cast hn)
  have hsign : Unsigned (ofNat n).toModel.unpack := NotNegative.ofNat n
  rw [position] at hposition
  generalize hu : (ofNat n).toModel.unpack = u at hsign hposition
  cases hsign with
  | notANumber => exact absurd hposition (by decide)
  | infinity => exact .infinity
  | zero => exact absurd hposition (by decide)
  | @finite m e hm =>
    obtain ⟨hcanonical, -⟩ := canonical_of_unpack hu
    have hrank : 1023 * 2 ^ 52 ≤ rank m e := hposition
    have hlt := hcanonical.lt
    rw [rank] at hrank
    have he : -52 ≤ e := by omega
    have hnormal : 2 ^ 52 ≤ m := hcanonical.normal.resolve_right (by omega)
    refine .finite hm ?_
    calc (1 : ℚ) = 2 ^ 52 * 2 ^ (-52 : ℤ) := by norm_num
      _ ≤ m * 2 ^ e :=
        mul_le_mul (by exact_mod_cast hnormal) (zpow_le_zpow_right₀ one_le_two he)
          (zpow_nonneg zero_le_two _) (Nat.cast_nonneg _)

end Numbers

/-! ### Natural numbers -/

/-- A natural number of at most 53 bits is one of the numbers. -/
theorem exists_canonical_natCast {n : ℕ} (hn : 0 < n) (hmax : n ≤ 2 ^ 53) :
    ∃ (m : ℕ) (e : ℤ), Canonical m e ∧ e ≤ 971 ∧ (m * 2 ^ e : ℚ) = n := by
  rcases hmax.lt_or_eq with hlt | rfl
  · have hlog : n.log2 < 53 := (Nat.log2_lt hn.ne').2 hlt
    have hscale : 2 ^ n.log2 * 2 ^ (52 - n.log2) = 2 ^ 52 := by
      rw [← Nat.pow_add]
      congr 1
      omega
    have hlow : 2 ^ 52 ≤ n * 2 ^ (52 - n.log2) := by
      rw [← hscale]
      exact Nat.mul_le_mul_right _ (Nat.log2_self_le hn.ne')
    have hhigh : n * 2 ^ (52 - n.log2) < 2 ^ 53 := by
      rw [pow_succ 2 52, ← hscale, mul_right_comm, ← pow_succ]
      exact Nat.mul_lt_mul_of_pos_right Nat.lt_log2_self (Nat.two_pow_pos _)
    refine ⟨n * 2 ^ (52 - n.log2), -(52 - n.log2 : ℕ), ⟨by omega, hhigh, by omega, .inl hlow⟩, by omega, ?_⟩
    rw [zpow_neg, zpow_natCast]
    push_cast
    field_simp
  · exact ⟨2 ^ 52, 1, ⟨by norm_num, by norm_num, by norm_num, .inl le_rfl⟩, by norm_num, by norm_num⟩

theorem unpack_ofNat {n : ℕ} (hn : 0 < n) (hmax : n ≤ 2 ^ 53) :
    ∃ (m : ℕ) (e : ℤ) (hm : 0 < m), (ofNat n).toModel.unpack = .finite .positive m e hm ∧ (m * 2 ^ e : ℚ) = n := by
  obtain ⟨m, e, hc, he, hvalue⟩ := exists_canonical_natCast hn hmax
  have h2 : (0 : ℚ) < 2 ^ e := zpow_pos two_pos e
  have hround : UnpackedFloat.normalize .binary64 n 0 .positive = .finite .positive m e hc.pos := by
    rw [UnpackedFloat.normalize, compare_gt_iff_gt.2 (by omega), Int.toNat_natCast, round_eq .positive hn,
      zpow_zero, mul_one, ← hvalue]
    refine rounded_of_close .positive hc ?_ fun _ => ?_
    all_goals
      rw [sub_self, abs_zero]
      positivity
  refine ⟨m, e, hc.pos, ?_, hvalue⟩
  change (Float.Model.pack (UnpackedFloat.normalize .binary64 n 0 .positive)).unpack = _
  rw [hround, unpack_pack (.finite .positive hc he)]

theorem value_ofNat {n : ℕ} (hmax : n ≤ 2 ^ 53) : value (ofNat n) = n := by
  rcases n.eq_zero_or_pos with rfl | hn
  · have hzero : (ofNat 0).toModel.unpack = .zero .positive := unpack_pack (.zero .positive)
    rw [value, hzero, valueOf_zero, Nat.cast_zero]
  · obtain ⟨m, e, hm, hunpack, hvalue⟩ := unpack_ofNat hn hmax
    rw [value, hunpack, valueOf, apply_positive, Int.cast_one, one_mul, hvalue]

/-- Nothing is rounded in a sum of natural numbers that has at most 53 bits. -/
theorem ofNat_add {a b : ℕ} (hmax : a + b ≤ 2 ^ 53) : ofNat a + ofNat b = ofNat (a + b) := by
  rcases (a + b).eq_zero_or_pos with hzero | hpos
  · obtain ⟨rfl, rfl⟩ := Nat.add_eq_zero_iff.1 hzero
    decide +kernel
  · have hfinite : ∀ n ≤ 2 ^ 53, (ofNat n).isFinite = true := fun n hn => isFinite_ofNat (by omega)
    have ha := hfinite a (by omega)
    have hb := hfinite b (by omega)
    obtain ⟨m, e, hm, hunpack, -⟩ := unpack_ofNat hpos hmax
    -- where the two stand is the same, and there is one number only that stands there
    have hposition : position (ofNat a + ofNat b) = position (ofNat (a + b)) := by
      rw [position_add ha hb, value_ofNat (by omega), value_ofNat (by omega), position_ofNat, Nat.cast_add]
    have hcompare := compare_eq_position (isNaN_add ha hb) (isFinite_iff.1 (hfinite _ hmax)).1
    rw [hposition, compare_eq_iff_eq.2 rfl] at hcompare
    have hbeq : ((ofNat a + ofNat b).toModel.unpack.compare (ofNat (a + b)).toModel.unpack ==
        some Ordering.eq) = true := beq_iff_eq.2 hcompare
    exact eq_of_beq hunpack hbeq

theorem foldl_ofNat_add {ns : List ℕ} {n : ℕ} (hmax : n + ns.sum ≤ 2 ^ 53) :
    ns.foldl (fun total k => total + ofNat k) (ofNat n) = ofNat (n + ns.sum) := by
  induction ns generalizing n with
  | nil => rfl
  | cons k ks ih =>
    rw [List.sum_cons, ← Nat.add_assoc] at hmax
    rw [List.foldl_cons, ofNat_add (by omega), ih hmax, List.sum_cons, Nat.add_assoc]

end TraceAnomaly.Binary64
