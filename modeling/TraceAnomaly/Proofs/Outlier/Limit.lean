import TraceAnomaly.Proofs.Binary64.Monotone
import TraceAnomaly.Proofs.Http.Message
import TraceAnomaly.Proofs.Outlier.Verdict

/-! Where the limit of normal runtimes lies. With finite sums the mean is finite. The deviation is not negative,
and so the limit not below the mean, except where the variance overflows to the negative infinity; there
the deviation is that infinity, and so is the limit. -/

namespace TraceAnomaly

open Float.Model (Format UnpackedFloat)
open Float.Model.UnpackedFloat (Sign)
open Binary64 (NotNegative AtLeastOne ofNat infinity sign? position)

namespace Binary64

/-- What is rounded to a whole number is not positive or at least one. -/
theorem roundAway_cases {x : Float} (hx : x.isNaN = false) :
    roundAway x ≤ ofNat 0 ∨ AtLeastOne (roundAway x).toModel.unpack := by
  cases hunpack : x.toModel.unpack with
  | notANumber => exact absurd hunpack (isNaN_eq_false_iff.1 hx)
  | infinity s =>
    have hkeep : roundAway x = x := by simp only [roundAway, kind, hunpack]
    rw [hkeep]
    cases s with
    | positive => exact .inr (hunpack ▸ .infinity)
    | negative => exact .inl (le_zero (by rw [hunpack]; simp [sign?]) hx)
  | zero s =>
    have hkeep : roundAway x = x := by simp only [roundAway, kind, hunpack]
    have hzero : position x = 0 := by rw [position, hunpack]; rfl
    rw [hkeep, le_iff hx (by rfl), hzero]
    exact .inl le_rfl
  | finite s m e hm =>
    cases e with
    | ofNat k =>
      have hkeep : roundAway x = x := by simp only [roundAway, kind, hunpack]
      rw [hkeep]
      cases s with
      | positive =>
        have hone : (1 : ℚ) ≤ m * 2 ^ Int.ofNat k := by
          have hpower : (1 : ℚ) ≤ (m * 2 ^ k : ℕ) := by exact_mod_cast Nat.mul_pos hm (Nat.two_pow_pos k)
          simpa using hpower
        exact .inr (hunpack ▸ .finite hm hone)
      | negative => exact .inl (le_zero (by rw [hunpack]; simp [sign?]) hx)
    | negSucc k =>
      set n := ((2 * m) >>> (k + 1) + 1) / 2 with hn
      have hround : roundAway x = signed (isNegative s) (ofNat n) := by
        simp only [roundAway, kind, hunpack, hn]
      rw [hround]
      cases s with
      | positive =>
        rcases n.eq_zero_or_pos with hzero | hpos
        · rw [hzero]
          exact .inl (by decide)
        · exact .inr (atLeastOne_ofNat hpos)
      | negative =>
        have hsign : sign? (signed true (ofNat n)).toModel.unpack = some .negative := by
          change sign? (Float.Model.pack (ofNat n).toModel.unpack.neg).unpack = _
          rw [sign?_pack, sign?_neg, sign?_ofNat]
          rfl
        exact .inl (le_zero (by rw [isNegative, hsign]; simp) (by rw [isNegative, isNaN_eq, hsign]; rfl))

end Binary64

namespace PowerSums

variable {s : PowerSums Float}

theorem isFinite_mean (h : s.IsFinite) : s.mean.isFinite = true := by
  unfold mean
  split
  · decide
  · rename_i hempty
    have hsamples : ¬ s.samples ≤ ofNat 0 := fun hle => hempty (decide_eq_true hle)
    have hdefined : (s.weight * scale).isNaN = false := by
      have hsign : sign? (s.weight * scale).toModel.unpack = _ := Binary64.sign?_pack _
      rw [Binary64.isNaN_eq, hsign, Option.isNone_eq_false_iff]
      exact Binary64.isSome_mul h.weight (by decide) _
    exact Binary64.isFinite_div h.sum ((Binary64.roundAway_cases hdefined).resolve_left hsamples)

/-! ### Deviation -/

theorem notNegative_max_zero (v : Float) :
    NotNegative (Binary64.max v (ofNat 0)) ∧ (Binary64.max v (ofNat 0)).isNaN = false := by
  unfold Binary64.max
  split
  · exact ⟨.ofNat 0, rfl⟩
  · rename_i h
    obtain ⟨hdefined, hpositive⟩ : v.isNaN = false ∧ ¬ v ≤ ofNat 0 := by simpa using h
    refine ⟨Binary64.unsigned_iff.2 fun hsign => hpositive (Binary64.le_zero ?_ hdefined), hdefined⟩
    rw [hsign]
    simp

/-- Only the negative infinity is not cut off at zero before the root is taken. -/
theorem deviationOf_cases (v : Float) :
    v = -infinity ∧ deviationOf v = -infinity ∨
      v ≠ -infinity ∧ deviationOf v = (Binary64.max v (ofNat 0)).sqrt ∧
        NotNegative (deviationOf v) ∧ (deviationOf v).isNaN = false := by
  by_cases hinf : v.isInf = true
  · have hkeep : deviationOf v = v := if_pos hinf
    obtain hv | hv : v = infinity ∨ v = -infinity := by
      change v.toModel.unpack.isInf = true at hinf
      cases hunpack : v.toModel.unpack with
      | infinity s =>
        cases s with
        | positive => exact .inl (congrArg Float.ofModel (Binary64.unpack_injective hunpack))
        | negative => exact .inr (congrArg Float.ofModel (Binary64.unpack_injective hunpack))
      | _ => simp [hunpack, UnpackedFloat.isInf] at hinf
    · subst hv
      exact .inr ⟨by decide, by decide, .infinity, rfl⟩
    · exact .inl ⟨hv, hkeep.trans hv⟩
  · have hcut : deviationOf v = (Binary64.max v (ofNat 0)).sqrt := if_neg hinf
    have hne : v ≠ -infinity := by
      rintro rfl
      exact hinf rfl
    obtain ⟨hsign, hdefined⟩ := notNegative_max_zero v
    refine .inr ⟨hne, hcut, hcut ▸ hsign.sqrt, ?_⟩
    rw [hcut, hsign.isNaN_sqrt, hdefined]

theorem deviation_eq (s : PowerSums Float) : s.deviation = deviationOf s.variance := by
  rw [deviation, variance, deviation?]
  cases s.variance? <;> rfl

end PowerSums

namespace SigmaThreshold

open PowerSums

variable {t : SigmaThreshold Float} {s : PowerSums Float}

theorem exists_unpack_sigma (hfinite : t.sigma.isFinite = true) (hpos : ofNat 0 < t.sigma) :
    ∃ m e hm, t.sigma.toModel.unpack = .finite .positive m e hm := by
  obtain ⟨hzero, hdefined⟩ := Binary64.isNaN_of_lt hpos
  have hposition : 0 < position t.sigma := (Binary64.lt_iff hzero hdefined).1 hpos
  rw [position] at hposition
  obtain ⟨s, hu⟩ | ⟨s, m, e, h, -, hu⟩ :=
    (Binary64.representable_unpack t.sigma.toModel).isFinite_cases hfinite
  · rw [hu] at hposition
    exact absurd hposition (by simp [Binary64.place])
  · cases s with
    | positive => exact ⟨m, e, h.pos, hu⟩
    | negative =>
      have := h.rank_pos
      rw [hu] at hposition
      simp [Binary64.place] at hposition
      omega

/-- With a deviation that is not negative the limit is not below the mean. -/
theorem mean_le_limit (hs : s.IsFinite) (hfinite : t.sigma.isFinite = true) (hpos : ofNat 0 < t.sigma)
    (hvariance : s.variance ≠ -infinity) : s.mean ≤ s.mean + t.sigma * s.deviation := by
  obtain ⟨m, e, hm, hsigma⟩ := exists_unpack_sigma hfinite hpos
  obtain ⟨-, -, hsign, hdefined⟩ := (deviationOf_cases s.variance).resolve_left fun h => hvariance h.1
  rw [← deviation_eq] at hsign hdefined
  have hproduct : sign? (t.sigma * s.deviation).toModel.unpack = some .positive := by
    refine (Binary64.sign?_pack _).trans ?_
    rw [hsigma, Binary64.sign?_finite_mul, hsign.sign?_eq hdefined]
    rfl
  refine Binary64.le_add (isFinite_mean hs) (Binary64.unsigned_iff.2 ?_) ?_
  · rw [hproduct]
    simp
  · rw [Binary64.isNaN_eq, hproduct]
    rfl

/-- With a variance that has overflowed all of the limit is lost. -/
theorem limit_eq_neg_infinity (hs : s.IsFinite) (hfinite : t.sigma.isFinite = true) (hpos : ofNat 0 < t.sigma)
    (hvariance : s.variance = -infinity) : s.mean + t.sigma * s.deviation = -infinity := by
  obtain ⟨m, e, hm, hsigma⟩ := exists_unpack_sigma hfinite hpos
  obtain ⟨-, hdeviation⟩ := (deviationOf_cases s.variance).resolve_right fun h => h.1 hvariance
  rw [← deviation_eq] at hdeviation
  have hproduct : (t.sigma * s.deviation).toModel.unpack = .infinity .negative := by
    have hinf : s.deviation.toModel.unpack = .infinity .negative := by
      rw [hdeviation]
      rfl
    change (Float.Model.pack
      (UnpackedFloat.mul .binary64 t.sigma.toModel.unpack s.deviation.toModel.unpack)).unpack = _
    rw [hsigma, hinf]
    exact Binary64.unpack_pack (.infinity _)
  exact congrArg Float.ofModel
    (Binary64.unpack_injective (Binary64.unpack_add_infinity (isFinite_mean hs) hproduct))

theorem limit?_eq (t : SigmaThreshold Float) (s : PowerSums Float) {l : Float} (h : t.limit? s = some l) :
    l = s.mean + t.sigma * s.deviation := by
  unfold limit? at h
  split at h
  · cases h
  · rename_i hcount
    have hpos : 0 < s.count := UInt64.lt_of_le_of_lt UInt64.zero_le (UInt64.not_le.1 hcount)
    rw [deviation?_of_count hpos] at h
    exact (Option.some.inj h).symm

/-- The deviation is the root of the variance, cut off at zero, unless the variance is the negative infinity. Just
then it is not negative and the limit not below the mean; and of the runtimes up to the mean, those above
the negative infinity are anomalous just otherwise, where there are enough samples. -/
theorem mean_le_limit_iff (t : SigmaThreshold Float) (s : PowerSums Float) (hs : s.IsFinite)
    (hfinite : t.sigma.isFinite = true) (hpos : ofNat 0 < t.sigma) :
    (s.deviation = (Binary64.max s.variance (ofNat 0)).sqrt ↔ s.variance ≠ -infinity) ∧
      (ofNat 0 ≤ s.deviation ↔ s.variance ≠ -infinity) ∧
      (∀ l, t.limit? s = some l → (s.mean ≤ l ↔ s.variance ≠ -infinity)) ∧
      ∀ (xs : List (Sample Float)) (i : ℕ) (x : Sample Float), xs[i]? = some x → x.runtime ≤ s.mean →
        ((t.classify xs s)[i]? = some .anomalous ↔
          t.minSamples < s.count ∧ s.variance = -infinity ∧ -infinity < x.runtime) := by
  have hlabel (xs : List (Sample Float)) (i : ℕ) (x : Sample Float) (hx : xs[i]? = some x) :
      (t.classify xs s)[i]? = some .anomalous ↔
        t.minSamples < s.count ∧ s.mean + t.sigma * s.deviation < x.runtime := by
    rw [classify, List.getElem?_map, hx, Option.map_some, Option.some.injEq]
    exact label_limit_eq_anomalous_iff t s x.runtime
  by_cases hvariance : s.variance = -infinity
  · have hlimit := limit_eq_neg_infinity hs hfinite hpos hvariance
    have hdeviation : s.deviation = -infinity := by
      rw [deviation_eq, hvariance]
      rfl
    refine ⟨?_, ?_, fun l hl => ?_, fun xs i x hx hle => ?_⟩
    · rw [hdeviation, hvariance]
      decide
    · rw [hdeviation, hvariance]
      decide
    · refine iff_of_false (fun hle => ?_) (not_not.2 hvariance)
      rw [limit?_eq t s hl, hlimit] at hle
      obtain ⟨hmean, hinf⟩ := Binary64.isNaN_of_le hle
      have habove := (Binary64.isFinite_iff.1 (isFinite_mean hs)).2.1
      exact habove.not_ge ((Binary64.le_iff hmean hinf).1 hle)
    · rw [hlabel xs i x hx, hlimit]
      simp [hvariance]
  · have hlimit := mean_le_limit hs hfinite hpos hvariance
    obtain ⟨-, hroot, hsign, hdefined⟩ := (deviationOf_cases s.variance).resolve_left fun h => hvariance h.1
    rw [← deviation_eq] at hroot hsign hdefined
    refine ⟨iff_of_true hroot hvariance, iff_of_true (hsign.zero_le hdefined) hvariance, fun l hl => ?_,
      fun xs i x hx hle => ?_⟩
    · rw [limit?_eq t s hl]
      exact iff_of_true hlimit hvariance
    · rw [hlabel xs i x hx]
      exact iff_of_false (fun h => Binary64.not_lt_of_le (Binary64.le_trans' hle hlimit) h.2)
        fun h => hvariance h.2.1

/-- Three runtimes, the middle one at the mean. -/
theorem mean_le_limit_iff_three_runtimes :
    let t : SigmaThreshold Float := ⟨ofNat 12, 1⟩
    let s := PowerSums.ofSamples [ofNat 1, ofNat 2, ofNat 3]
    s.IsFinite ∧ t.sigma.isFinite = true ∧ ofNat 0 < t.sigma ∧ ofNat 0 ≤ s.deviation ∧
      ofNat 2 ≤ s.mean ∧ (t.classify [⟨ofNat 0, ofNat 2⟩] s)[0]? ≠ some .anomalous := by
  intro t s
  have hs : s.IsFinite := ⟨by decide +kernel, by decide +kernel, by decide +kernel⟩
  have hfinite : t.sigma.isFinite = true := by decide
  have hpos : ofNat 0 < t.sigma := by decide
  have hvariance : s.variance ≠ -infinity := by decide +kernel
  have hmean : ofNat 2 ≤ s.mean := by decide +kernel
  obtain ⟨-, hdeviation, -, hlabel⟩ := mean_le_limit_iff t s hs hfinite hpos
  refine ⟨hs, hfinite, hpos, hdeviation.2 hvariance, hmean, fun h => ?_⟩
  exact hvariance ((hlabel [⟨ofNat 0, ofNat 2⟩] 0 _ rfl hmean).1 h).2.1

/-- A sum whose square overflows while the sum of squares does not: a runtime of zero is anomalous, although it
is below the mean. -/
theorem anomalous_below_mean :
    let t : SigmaThreshold Float := ⟨ofNat 12, 1⟩
    let s : PowerSums Float := ⟨Binary64.ofDecimal 1 (-5), Binary64.ofDecimal 1 200, ofNat 0, 0⟩
    s.IsFinite ∧ t.sigma.isFinite = true ∧ ofNat 0 < t.sigma ∧ ofNat 0 ≤ s.mean ∧ ¬ ofNat 0 ≤ s.deviation ∧
      t.classify [⟨ofNat 0, ofNat 0⟩] s = [.anomalous] := by
  refine ⟨⟨by decide +kernel, by decide +kernel, by decide +kernel⟩, ?_⟩
  decide +kernel

end SigmaThreshold

end TraceAnomaly
