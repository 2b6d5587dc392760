import TraceAnomaly.Proofs.Binary64.Order

/-! Signs of binary64 numbers. What is computed from numbers that are not negative is not negative, and it is
undefined only where infinities or zeros are set against each other. -/

namespace TraceAnomaly.Binary64

open Float.Model (Format UnpackedFloat)
open Float.Model.UnpackedFloat (Accuracy Sign packComponents)

def sign? : UnpackedFloat → Option Sign
  | .notANumber => none
  | .infinity s | .zero s | .finite s .. => some s

theorem sign?_roundWithAccuracy (spec : Format) (s : Sign) (m : ℕ) (e : ℤ) (acc : Accuracy) :
    sign? (UnpackedFloat.roundWithAccuracy spec s m e acc) = some s := by
  simp only [UnpackedFloat.roundWithAccuracy]
  split <;> rfl

theorem sign?_round (spec : Format) (s : Sign) (m : ℕ) (e : ℤ) :
    sign? (UnpackedFloat.round spec s m e) = some s :=
  sign?_roundWithAccuracy ..

theorem sign?_ofFields (s : Sign) {E : BitVec 11} {M : BitVec 52} (h : E = -1#11 → M = 0#52) :
    sign? (ofFields s E M) = some s := by
  unfold ofFields
  split_ifs with hinf hM
  · rfl
  · exact absurd (h hinf) hM
  · rfl
  · rfl
  · rfl

theorem sign?_packComponents (s : Sign) {E : BitVec 11} {M : BitVec 52} (h : E = -1#11 → M = 0#52) :
    sign? (UnpackedFloat.unpack .binary64 (packComponents .binary64 s E M)) = some s := by
  rw [unpack_packComponents]
  exact sign?_ofFields s h

/-- Packing keeps signs, also where the exponent is too large. -/
theorem sign?_pack (u : UnpackedFloat) : sign? (Float.Model.pack u).unpack = sign? u := by
  cases u with
  | notANumber => rw [unpack_pack .notANumber]
  | infinity s => rw [unpack_pack (.infinity s)]
  | zero s => rw [unpack_pack (.zero s)]
  | finite s m e hm =>
    change sign? (UnpackedFloat.unpack .binary64 (UnpackedFloat.pack .binary64 (.finite s m e hm))) = some s
    simp only [UnpackedFloat.pack]
    split
    · exact sign?_packComponents s fun _ => rfl
    · rename_i hbiased
      split
      · refine sign?_packComponents s fun hE => absurd (congrArg BitVec.toNat hE) ?_
        have hsmall : (e + 1023 + 52).toNat < 2047 := by
          have hlimit : ¬ 2 ^ 11 ≤ (e + 1023 + 52).toNat + 1 := hbiased
          omega
        have hword : (BitVec.ofNat 11 (e + 1023 + 52).toNat).toNat = (e + 1023 + 52).toNat :=
          (BitVec.toNat_ofNat _ _).trans (Nat.mod_eq_of_lt (by omega))
        exact fun h => hsmall.ne (hword.symm.trans h)
      · exact sign?_packComponents s fun hE => absurd hE (by decide)

theorem sign?_normalize_natCast (spec : Format) (m : ℕ) (e : ℤ) :
    sign? (UnpackedFloat.normalize spec m e .positive) = some .positive := by
  rcases m.eq_zero_or_pos with rfl | hm
  · rfl
  · rw [UnpackedFloat.normalize, compare_gt_iff_gt.2 (by exact_mod_cast hm)]
    exact sign?_round ..

theorem isSome_normalize (spec : Format) (M e : ℤ) (s : Sign) :
    (sign? (UnpackedFloat.normalize spec M e s)).isSome := by
  unfold UnpackedFloat.normalize
  split
  · rw [sign?_round]
    rfl
  · rfl
  · rw [sign?_round]
    rfl

theorem isFinite_cases {u : UnpackedFloat} (h : u.isFinite = true) :
    (∃ s, u = .zero s) ∨ ∃ s m e hm, u = .finite s m e hm := by
  cases u with
  | notANumber => exact absurd h Bool.false_ne_true
  | infinity s => exact absurd h Bool.false_ne_true
  | zero s => exact .inl ⟨s, rfl⟩
  | finite s m e hm => exact .inr ⟨s, m, e, hm, rfl⟩

theorem isSome_add {u v : UnpackedFloat} (hu : u.isFinite = true) (hv : v.isFinite = true) (spec : Format) :
    (sign? (UnpackedFloat.add spec u v)).isSome := by
  obtain ⟨s, rfl⟩ | ⟨s, m, e, hm, rfl⟩ := isFinite_cases hu
  · obtain ⟨s', rfl⟩ | ⟨s', m', e', hm', rfl⟩ := isFinite_cases hv
    · cases s <;> cases s' <;> rfl
    · rfl
  · obtain ⟨s', rfl⟩ | ⟨s', m', e', hm', rfl⟩ := isFinite_cases hv
    · rfl
    · exact isSome_normalize ..

/-! ### Numbers that are not negative -/

/-- Not negative: undefined, or with a positive sign. -/
inductive Unsigned : UnpackedFloat → Prop
  | notANumber : Unsigned .notANumber
  | infinity : Unsigned (.infinity .positive)
  | zero : Unsigned (.zero .positive)
  | finite {m : ℕ} {e : ℤ} (hm : 0 < m) : Unsigned (.finite .positive m e hm)

theorem unsigned_iff {u : UnpackedFloat} : Unsigned u ↔ sign? u ≠ some .negative := by
  constructor
  · rintro (_ | _ | _ | _) <;> simp [sign?]
  · intro h
    cases u with
    | notANumber => exact .notANumber
    | infinity s =>
      cases s with
      | positive => exact .infinity
      | negative => exact absurd rfl h
    | zero s =>
      cases s with
      | positive => exact .zero
      | negative => exact absurd rfl h
    | finite s m e hm =>
      cases s with
      | positive => exact .finite hm
      | negative => exact absurd rfl h

theorem sign?_neg (u : UnpackedFloat) : sign? u.neg = (sign? u).map (- ·) := by
  cases u <;> rfl

theorem isSome_mul {u v : UnpackedFloat} (hu : u.isFinite = true) (hv : v.isFinite = true) (spec : Format) :
    (sign? (UnpackedFloat.mul spec u v)).isSome := by
  obtain ⟨s, rfl⟩ | ⟨s, m, e, hm, rfl⟩ := isFinite_cases hu
  · obtain ⟨s', rfl⟩ | ⟨s', m', e', hm', rfl⟩ := isFinite_cases hv <;> rfl
  · obtain ⟨s', rfl⟩ | ⟨s', m', e', hm', rfl⟩ := isFinite_cases hv
    · rfl
    · have hsign : sign? (UnpackedFloat.mul spec (.finite s m e hm) (.finite s' m' e' hm')) = _ :=
        sign?_roundWithAccuracy ..
      rw [hsign]
      rfl

theorem Unsigned.pack {u : UnpackedFloat} (h : Unsigned u) : Unsigned (Float.Model.pack u).unpack := by
  rw [unsigned_iff, sign?_pack]
  exact unsigned_iff.1 h

section Operations

variable {u v : UnpackedFloat}

/-- Parts that are not negative do not cancel. -/
theorem Unsigned.sign?_add (hu : Unsigned u) (hv : Unsigned v) (spec : Format) :
    sign? (UnpackedFloat.add spec u v) = (sign? u).bind fun _ => sign? v := by
  cases hu with
  | notANumber => rfl
  | infinity => cases hv <;> rfl
  | zero => cases hv <;> rfl
  | finite hm =>
    cases hv with
    | notANumber => rfl
    | infinity => rfl
    | zero => rfl
    | finite hm' => exact sign?_normalize_natCast spec (_ + _) _

theorem Unsigned.add (hu : Unsigned u) (hv : Unsigned v) (spec : Format) :
    Unsigned (UnpackedFloat.add spec u v) := by
  rw [unsigned_iff, hu.sign?_add hv]
  cases hu <;> cases hv <;> simp [sign?]

theorem Unsigned.div (hu : Unsigned u) (hv : Unsigned v) (spec : Format) :
    Unsigned (UnpackedFloat.div spec u v) := by
  cases hu with
  | notANumber => exact .notANumber
  | infinity => cases hv <;> first | exact .notANumber | exact .infinity
  | zero => cases hv <;> first | exact .notANumber | exact .zero
  | finite hm =>
    cases hv with
    | notANumber => exact .notANumber
    | infinity => exact .zero
    | zero => exact .infinity
    | finite hm' =>
      rw [unsigned_iff]
      intro h
      have hsign : some Sign.positive = some .negative := (sign?_roundWithAccuracy ..).symm.trans h
      cases hsign

theorem Unsigned.sign?_sqrt (hu : Unsigned u) (spec : Format) :
    sign? (UnpackedFloat.sqrt spec u) = sign? u := by
  cases hu with
  | notANumber => rfl
  | infinity => rfl
  | zero => rfl
  | finite hm => exact sign?_roundWithAccuracy ..

theorem unsigned_abs (u : UnpackedFloat) : Unsigned u.abs := by
  cases u with
  | notANumber => exact .notANumber
  | infinity => exact .infinity
  | zero => exact .zero
  | finite s m e hm => exact .finite hm

variable {s : Sign} {m : ℕ} {e : ℤ} (hm : 0 < m)

theorem sign?_div_finite (u : UnpackedFloat) (spec : Format) :
    sign? (UnpackedFloat.div spec u (.finite s m e hm)) = (sign? u).map (· / s) := by
  cases u with
  | finite s' m' e' hm' => exact sign?_roundWithAccuracy ..
  | _ => rfl

theorem sign?_finite_mul (u : UnpackedFloat) (spec : Format) :
    sign? (UnpackedFloat.mul spec (.finite s m e hm) u) = (sign? u).map (s * ·) := by
  cases u with
  | finite s' m' e' hm' => exact sign?_roundWithAccuracy ..
  | _ => rfl

end Operations

def NotNegative (x : Float) : Prop := Unsigned x.toModel.unpack

variable {x y : Float}

theorem isNaN_eq (x : Float) : x.isNaN = (sign? x.toModel.unpack).isNone := by
  change x.toModel.unpack.isNaN = (sign? x.toModel.unpack).isNone
  cases x.toModel.unpack <;> rfl

theorem isNaN_add (hx : x.isFinite = true) (hy : y.isFinite = true) : (x + y).isNaN = false := by
  have hsign : sign? (x + y).toModel.unpack = _ := sign?_pack _
  rw [isNaN_eq, hsign, Option.isNone_eq_false_iff]
  exact isSome_add hx hy _

theorem sign?_ofNat (n : ℕ) : sign? (ofNat n).toModel.unpack = some .positive :=
  (sign?_pack _).trans (sign?_normalize_natCast .binary64 n 0)

namespace NotNegative

theorem add (hx : NotNegative x) (hy : NotNegative y) : NotNegative (x + y) :=
  (Unsigned.add hx hy _).pack

theorem isNaN_add (hx : NotNegative x) (hy : NotNegative y) : (x + y).isNaN = (x.isNaN || y.isNaN) := by
  have hsign : sign? (x + y).toModel.unpack = _ := (sign?_pack _).trans (Unsigned.sign?_add hx hy _)
  rw [isNaN_eq, isNaN_eq, isNaN_eq, hsign]
  cases sign? x.toModel.unpack <;> rfl

theorem div (hx : NotNegative x) (hy : NotNegative y) : NotNegative (x / y) :=
  (Unsigned.div hx hy _).pack

theorem sqrt (hx : NotNegative x) : NotNegative x.sqrt := by
  have hsqrt : Unsigned (UnpackedFloat.sqrt .binary64 x.toModel.unpack) := by
    rw [unsigned_iff, Unsigned.sign?_sqrt hx]
    exact unsigned_iff.1 hx
  exact hsqrt.pack

theorem sign?_eq (hx : NotNegative x) (h : x.isNaN = false) : sign? x.toModel.unpack = some .positive := by
  unfold NotNegative at hx
  rw [isNaN_eq_false_iff] at h
  generalize x.toModel.unpack = u at *
  cases hx with
  | notANumber => exact absurd rfl h
  | _ => rfl

theorem isNaN_sqrt (hx : NotNegative x) : x.sqrt.isNaN = x.isNaN := by
  have hsign : sign? x.sqrt.toModel.unpack = _ := (sign?_pack _).trans (Unsigned.sign?_sqrt hx _)
  rw [isNaN_eq, isNaN_eq, hsign]

theorem abs (x : Float) : NotNegative x.abs := (unsigned_abs _).pack

theorem max (hx : NotNegative x) (hy : NotNegative y) : NotNegative (Binary64.max x y) := by
  unfold Binary64.max
  split
  · exact hy
  · exact hx

theorem ofNat (n : ℕ) : NotNegative (Binary64.ofNat n) := by
  rw [NotNegative, unsigned_iff, sign?_ofNat]
  simp

theorem sqrtExact (m : ℕ) (e : ℤ) : NotNegative (Binary64.sqrtExact m e) := by
  unfold Binary64.sqrtExact
  split
  · refine Unsigned.pack (unsigned_iff.2 ?_)
    rw [(Unsigned.finite _).sign?_sqrt]
    simp [sign?]
  · exact .zero

theorem hypot (x y : Float) : NotNegative (Binary64.hypot x y) := by
  unfold Binary64.hypot
  split
  · exact .infinity
  · exact .infinity
  · exact .notANumber
  · exact .notANumber
  · exact sqrtExact _ _

theorem zero_le (hx : NotNegative x) (h : x.isNaN = false) : Binary64.ofNat 0 ≤ x := by
  have hzero : position (Binary64.ofNat 0) = 0 := by rfl
  rw [le_iff (by rfl) h, hzero, position]
  unfold NotNegative at hx
  generalize hu : x.toModel.unpack = u at hx
  cases hx with
  | notANumber => exact absurd hu (isNaN_eq_false_iff.1 h)
  | infinity => decide
  | zero => exact le_rfl
  | finite hm => exact (canonical_of_unpack hu).1.rank_pos.le

end NotNegative

theorem le_zero (h : sign? x.toModel.unpack ≠ some .positive) (hx : x.isNaN = false) : x ≤ ofNat 0 := by
  have hzero : position (ofNat 0) = 0 := by rfl
  rw [le_iff hx (by rfl), hzero, position]
  have hrep := representable_unpack x.toModel
  rw [isNaN_eq_false_iff] at hx
  generalize x.toModel.unpack = u at *
  cases hrep with
  | notANumber => exact absurd rfl hx
  | infinity s =>
    cases s with
    | positive => exact absurd rfl h
    | negative => decide
  | zero s => exact le_rfl
  | finite s hc he =>
    cases s with
    | positive => exact absurd rfl h
    | negative => exact (Int.neg_neg_of_pos hc.rank_pos).le

theorem isNaN_div_finite {s : Sign} {m : ℕ} {e : ℤ} {hm : 0 < m}
    (hy : y.toModel.unpack = .finite s m e hm) (x : Float) : (x / y).isNaN = x.isNaN := by
  have hsign : sign? (x / y).toModel.unpack = _ := sign?_pack (UnpackedFloat.div _ _ y.toModel.unpack)
  rw [isNaN_eq, isNaN_eq, hsign, hy, sign?_div_finite]
  cases sign? x.toModel.unpack <;> rfl

end TraceAnomaly.Binary64
