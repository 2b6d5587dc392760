import TraceAnomaly.Proofs.Binary64.Rounding

/-! The 64 bits of a number and its mantissa and exponent hold the same: each number is unpacked from one
word, and what a mantissa and an exponent are packed into is unpacked to them. So two numbers that
compare equal are one number, zeros apart. -/

namespace TraceAnomaly.Binary64

open Float.Model (Format UnpackedFloat)
open Float.Model.UnpackedFloat (Sign packComponents unpackMantissa unpackExponent unpackSign)

/-! ### The fields of a word -/

/-- What the sign, the exponent and the mantissa of a word stand for. -/
def ofFields (s : Sign) (E : BitVec 11) (M : BitVec 52) : UnpackedFloat :=
  if E = -1#11 then if M = 0#52 then .infinity s else .notANumber
  else if E = 0#11 then
    if h : M = 0#52 then .zero s
    else .finite s M.toNat (-1074) (BitVec.toNat_pos_of_ne_zero h)
  else .finite s (2 ^ 52 + M.toNat) (E.toNat - 1075) (by omega)

theorem unpackSign_packComponents {spec : Format} (s : Sign) (E : BitVec spec.exponentBits)
    (M : BitVec spec.mantissaBitsWithoutImplicit) :
    unpackSign (packComponents spec s E M) = s.toBitVec := by
  apply BitVec.eq_of_getLsbD_eq
  intro i hi
  obtain rfl : i = 0 := by omega
  simp [unpackSign, packComponents, BitVec.getLsbD_append, BitVec.getElem_append]

theorem ofBitVec_toBitVec (s : Sign) : Sign.ofBitVec s.toBitVec = s := by
  cases s <;> rfl

theorem toNat_implicit (M : BitVec 52) : (1#1 ++ M).toNat = 2 ^ 52 + M.toNat := by
  rw [BitVec.toNat_append, ← Nat.shiftLeft_add_eq_or_of_lt M.isLt]
  rfl

theorem unpack_packComponents (s : Sign) (E : BitVec 11) (M : BitVec 52) :
    UnpackedFloat.unpack .binary64 (packComponents .binary64 s E M) = ofFields s E M := by
  simp only [UnpackedFloat.unpack, UnpackedFloat.unpackMantissa_packComponents,
    UnpackedFloat.unpackExponent_packComponents, unpackSign_packComponents, ofBitVec_toBitVec,
    toNat_implicit, ofFields]
  split
  · rfl
  · split
    · rename_i h0
      subst h0
      rfl
    · rfl

theorem toBitVec_ofBitVec (b : BitVec 1) : (Sign.ofBitVec b).toBitVec = b := by
  revert b
  decide

theorem exists_fields (b : BitVec 64) : ∃ s E M, packComponents .binary64 s E M = b := by
  refine ⟨.ofBitVec (@unpackSign .binary64 b), @unpackExponent .binary64 b, @unpackMantissa .binary64 b, ?_⟩
  simp only [packComponents, toBitVec_ofBitVec, unpackSign, unpackExponent, unpackMantissa,
    BitVec.extractLsb]
  ext i hi
  grind

theorem pack_ofFields (s : Sign) {E : BitVec 11} {M : BitVec 52} (h : E = -1#11 → M = 0#52) :
    UnpackedFloat.pack .binary64 (ofFields s E M) = packComponents .binary64 s E M := by
  by_cases hinf : E = -1#11
  · rw [ofFields, if_pos hinf, if_pos (h hinf), hinf, h hinf]
    rfl
  by_cases hzero : E = 0#11
  · subst hzero
    by_cases hM : M = 0#52
    · rw [ofFields, if_neg hinf, if_pos rfl, dif_pos hM, hM]
      rfl
    · have hlog : ¬ M.toNat.log2 + 1 = 53 := by
        have := (Nat.log2_lt (fun h0 => hM (BitVec.eq_of_toNat_eq h0))).2 M.isLt
        omega
      rw [ofFields, if_neg hinf, if_pos rfl, dif_neg hM]
      change (if M.toNat.log2 + 1 = 53 then _ else packComponents .binary64 s 0#11 (BitVec.ofNat 52 M.toNat)) = _
      rw [if_neg hlog, BitVec.ofNat_toNat, BitVec.setWidth_eq]
  · have hE0 : E.toNat ≠ 0 := fun h0 => hzero (BitVec.eq_of_toNat_eq h0)
    have hE1 : E.toNat ≠ 2047 := fun h1 => hinf (BitVec.eq_of_toNat_eq h1)
    have hlog : (2 ^ 52 + M.toNat).log2 + 1 = 53 := by
      have := M.isLt
      rw [(Nat.log2_eq_iff (by omega)).2 ⟨Nat.le_add_right _ _, by omega⟩]
    have hbiased : ((E.toNat : ℤ) - 1075 + 1023 + 52).toNat = E.toNat := by omega
    rw [ofFields, if_neg hinf, if_neg hzero]
    change (if 2 ^ 11 ≤ ((E.toNat : ℤ) - 1075 + 1023 + 52).toNat + 1 then _
      else if (2 ^ 52 + M.toNat).log2 + 1 = 53 then _ else _) = _
    rw [hbiased, if_neg (by have := E.isLt; omega), if_pos hlog]
    refine congrArg₂ (packComponents .binary64 s) ?_ ?_ <;> apply BitVec.eq_of_toNat_eq
    · exact (BitVec.toNat_ofNat _ _).trans ((congrArg (· % 2 ^ 11) hbiased).trans (Nat.mod_eq_of_lt E.isLt))
    · exact (BitVec.toNat_ofNat _ _).trans ((Nat.add_mod_left _ _).trans (Nat.mod_eq_of_lt M.isLt))

/-! ### The numbers that a word can hold -/

/-- The numbers of the format. -/
inductive Representable : UnpackedFloat → Prop
  | notANumber : Representable .notANumber
  | infinity (s : Sign) : Representable (.infinity s)
  | zero (s : Sign) : Representable (.zero s)
  | finite (s : Sign) {m : ℕ} {e : ℤ} (h : Canonical m e) (he : e ≤ 971) :
      Representable (.finite s m e h.pos)

theorem representable_ofFields (s : Sign) (E : BitVec 11) (M : BitVec 52) :
    Representable (ofFields s E M) := by
  have hM := M.isLt
  rw [ofFields]
  split_ifs with hinf hM0 hzero hM0
  · exact .infinity s
  · exact .notANumber
  · exact .zero s
  · exact .finite s ⟨BitVec.toNat_pos_of_ne_zero hM0, by omega, le_rfl, .inr rfl⟩ (by decide)
  · have hE := E.isLt
    have hE0 : E.toNat ≠ 0 := fun h0 => hzero (BitVec.eq_of_toNat_eq h0)
    have hE1 : E.toNat ≠ 2047 := fun h1 => hinf (BitVec.eq_of_toNat_eq h1)
    exact .finite s ⟨by omega, by omega, by omega, .inl (Nat.le_add_right _ _)⟩ (by omega)

theorem Representable.exists_fields {u : UnpackedFloat} (h : Representable u) :
    ∃ s E M, ofFields s E M = u ∧ UnpackedFloat.pack .binary64 u = packComponents .binary64 s E M := by
  cases h with
  | notANumber => exact ⟨.positive, -1#11, 1#52 <<< 51, rfl, rfl⟩
  | infinity s => exact ⟨s, -1#11, 0#52, rfl, rfl⟩
  | zero s => exact ⟨s, 0#11, 0#52, rfl, rfl⟩
  | @finite s m e h he =>
    obtain ⟨hpos, hlt, hleast, hnormal⟩ := h
    by_cases hm : 2 ^ 52 ≤ m
    · have hE : (BitVec.ofNat 11 (e + 1075).toNat).toNat = (e + 1075).toNat :=
        (BitVec.toNat_ofNat _ _).trans (Nat.mod_eq_of_lt (by omega))
      have hM : (BitVec.ofNat 52 (m - 2 ^ 52)).toNat = m - 2 ^ 52 :=
        (BitVec.toNat_ofNat _ _).trans (Nat.mod_eq_of_lt (by omega))
      have hE0 : BitVec.ofNat 11 (e + 1075).toNat ≠ 0#11 := fun h0 => by
        have h0' : (BitVec.ofNat 11 (e + 1075).toNat).toNat = 0 := congrArg BitVec.toNat h0
        omega
      have hE1 : BitVec.ofNat 11 (e + 1075).toNat ≠ -1#11 := fun h1 => by
        have h1' : (BitVec.ofNat 11 (e + 1075).toNat).toNat = 2047 := congrArg BitVec.toNat h1
        omega
      have hfields : ofFields s (BitVec.ofNat 11 (e + 1075).toNat) (BitVec.ofNat 52 (m - 2 ^ 52)) =
          .finite s m e hpos := by
        rw [ofFields, if_neg hE1, if_neg hE0, UnpackedFloat.finite.injEq]
        exact ⟨rfl, by omega, by omega⟩
      exact ⟨s, _, _, hfields, hfields ▸ pack_ofFields s fun h1 => absurd h1 hE1⟩
    · obtain rfl : e = -1074 := hnormal.resolve_left hm
      have hM : (BitVec.ofNat 52 m).toNat = m :=
        (BitVec.toNat_ofNat _ _).trans (Nat.mod_eq_of_lt (by omega))
      have hM0 : BitVec.ofNat 52 m ≠ 0#52 := fun h0 => by
        have h0' : (BitVec.ofNat 52 m).toNat = 0 := congrArg BitVec.toNat h0
        omega
      have hfields : ofFields s 0#11 (BitVec.ofNat 52 m) = .finite s m (-1074) hpos := by
        rw [ofFields, if_neg (by decide), if_pos rfl, dif_neg hM0]
        congr 1
      exact ⟨s, _, _, hfields, hfields ▸ pack_ofFields s fun h1 => absurd h1 (by decide)⟩

theorem unpack_pack {u : UnpackedFloat} (h : Representable u) : (Float.Model.pack u).unpack = u := by
  obtain ⟨s, E, M, hfields, hpack⟩ := h.exists_fields
  change UnpackedFloat.unpack .binary64 (UnpackedFloat.pack .binary64 u) = u
  rw [hpack, unpack_packComponents, hfields]

theorem representable_unpack (x : Float.Model) : Representable x.unpack := by
  obtain ⟨s, E, M, h⟩ := exists_fields x.toBits.toBitVec
  rw [Float.Model.unpack, ← h, unpack_packComponents]
  exact representable_ofFields s E M

theorem pack_unpack (x : Float.Model) : Float.Model.pack x.unpack = x := by
  obtain ⟨s, E, M, h⟩ := exists_fields x.toBits.toBitVec
  have hbits : UnpackedFloat.pack .binary64 x.unpack = x.toBits.toBitVec := by
    rw [Float.Model.unpack, ← h, unpack_packComponents]
    by_cases hnan : E = -1#11 ∧ M ≠ 0#52
    · -- there is one word only that is not a number
      have hvalid := x.valid.eq_packedNaN
      rw [← h, UnpackedFloat.unpackExponent_packComponents, UnpackedFloat.unpackMantissa_packComponents] at hvalid
      rw [hvalid hnan.1 hnan.2, ofFields, if_pos hnan.1, if_neg hnan.2]
      rfl
    · exact pack_ofFields s fun hE => by_contra fun hM => hnan ⟨hE, hM⟩
  obtain ⟨bits, valid⟩ := x
  exact Float.Model.mk.injEq .. ▸ congrArg UInt64.ofBitVec hbits

theorem unpack_injective {x y : Float.Model} (h : x.unpack = y.unpack) : x = y := by
  rw [← pack_unpack x, h, pack_unpack]

/-! ### Signs and comparison -/

section Finite

variable {x : Float} {s : Sign} {m : ℕ} {e : ℤ} {hm : 0 < m}

theorem canonical_of_unpack (h : x.toModel.unpack = .finite s m e hm) : Canonical m e ∧ e ≤ 971 := by
  have hrep := representable_unpack x.toModel
  rw [h] at hrep
  cases hrep with
  | finite _ hc he => exact ⟨hc, he⟩

theorem representable_of_unpack (h : x.toModel.unpack = .finite s m e hm) (s' : Sign) :
    Representable (.finite s' m e hm) :=
  .finite s' (canonical_of_unpack h).1 (canonical_of_unpack h).2

/-- What compares equal to a number that is not zero is that number. -/
theorem eq_of_beq {y : Float} (h : x.toModel.unpack = .finite s m e hm) (heq : (y == x) = true) : y = x := by
  have hcompare : (y.toModel.unpack.compare x.toModel.unpack == some Ordering.eq) = true := heq
  rw [h] at hcompare
  suffices y.toModel.unpack = .finite s m e hm from
    congrArg Float.ofModel (unpack_injective (this.trans h.symm))
  cases hy : y.toModel.unpack with
  | notANumber => simp [hy, UnpackedFloat.compare] at hcompare
  | infinity s' => cases s' <;> simp [hy, UnpackedFloat.compare] at hcompare
  | zero s' => cases s <;> simp [hy, UnpackedFloat.compare] at hcompare
  | finite s' m' e' hm' =>
    rw [hy] at hcompare
    cases s <;> cases s' <;> simp [UnpackedFloat.compare, Ordering.then_eq_eq] at hcompare <;>
      obtain ⟨rfl, rfl⟩ := hcompare <;> rfl

theorem unpack_abs (h : x.toModel.unpack = .finite s m e hm) :
    x.abs.toModel.unpack = .finite .positive m e hm := by
  change (Float.Model.pack x.toModel.unpack.abs).unpack = _
  rw [h]
  exact unpack_pack (representable_of_unpack h .positive)

/-- The magnitude of a number with its sign is the number. -/
theorem signed_abs (h : x.toModel.unpack = .finite s m e hm) : signed (isNegative s) x.abs = x := by
  suffices (signed (isNegative s) x.abs).toModel.unpack = .finite s m e hm from
    congrArg Float.ofModel (unpack_injective (this.trans h.symm))
  cases s with
  | positive => exact unpack_abs h
  | negative =>
    change (Float.Model.pack x.abs.toModel.unpack.neg).unpack = _
    rw [unpack_abs h]
    exact unpack_pack (representable_of_unpack h .negative)

end Finite

end TraceAnomaly.Binary64
