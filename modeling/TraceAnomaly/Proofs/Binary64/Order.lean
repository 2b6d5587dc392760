import TraceAnomaly.Proofs.Binary64.Packing

/-! The order of binary64 numbers. Every number but the undefined one has a place among the integers, and
numbers compare as their places do. The place can be read off the word that holds the number, so the
order of numbers is the order of words, turned around below zero. -/

namespace TraceAnomaly.Binary64

open Float.Model (Format UnpackedFloat)
open Float.Model.UnpackedFloat (Sign packComponents)

@[simp] theorem apply_positive (n : ℤ) : Sign.positive.apply n = n := rfl

@[simp] theorem apply_negative (n : ℤ) : Sign.negative.apply n = -n := rfl

/-- The place of a positive number among all positive numbers, from its mantissa and exponent. -/
def rank (m : ℕ) (e : ℤ) : ℤ := (e + 1074) * 2 ^ 52 + m

/-- The place of the infinities. -/
def top : ℤ := 2047 * 2 ^ 52

/-- Where a number stands among all numbers in order of size, the infinities at the ends. -/
def place : UnpackedFloat → ℤ
  | .notANumber => 0
  | .infinity s => s.apply top
  | .zero _ => 0
  | .finite s m e _ => s.apply (rank m e)

namespace Canonical

variable {m m' : ℕ} {e e' : ℤ}

theorem rank_pos (h : Canonical m e) : 0 < rank m e := by
  have := h.pos
  have := h.least
  rw [rank]
  omega

theorem rank_lt (h : Canonical m e) (he : e ≤ 971) : rank m e < top := by
  have := h.lt
  rw [rank, top]
  omega

theorem rank_lt_of_exponent (h : Canonical m e) (h' : Canonical m' e') (he : e < e') :
    rank m e < rank m' e' := by
  have := h.lt
  have := h.least
  have := h'.normal
  rw [rank, rank]
  omega

theorem compare_rank (h : Canonical m e) (h' : Canonical m' e') :
    (compare e e').then (compare m m') = compare (rank m e) (rank m' e') := by
  rcases lt_trichotomy e e' with he | rfl | he
  · rw [compare_lt_iff_lt.2 he, compare_lt_iff_lt.2 (h.rank_lt_of_exponent h' he)]
    rfl
  · have hm : compare (rank m e) (rank m' e) = compare m m' := by
      rcases lt_trichotomy m m' with hm | rfl | hm
      · rw [compare_lt_iff_lt.2 hm, compare_lt_iff_lt.2 (by rw [rank, rank]; omega)]
      · simp
      · rw [compare_gt_iff_gt.2 hm, compare_gt_iff_gt.2 (by rw [rank, rank]; omega)]
    rw [compare_eq_iff_eq.2 rfl, hm]
    rfl
  · rw [compare_gt_iff_gt.2 he, compare_gt_iff_gt.2 (h'.rank_lt_of_exponent h he)]
    rfl

end Canonical

theorem place_bounds {u : UnpackedFloat} (hu : Representable u) : -top ≤ place u ∧ place u ≤ top := by
  have htop : 0 < top := by decide
  cases hu with
  | notANumber => exact ⟨by simp [place, htop.le], htop.le⟩
  | infinity s => cases s <;> simp [place, htop.le]
  | zero s => exact ⟨by simp [place, htop.le], htop.le⟩
  | finite s h he =>
    have := h.rank_pos
    have := h.rank_lt he
    cases s <;> simp [place] <;> omega

theorem compare_neg (a b : ℤ) : compare (-a) (-b) = (compare a b).swap := by
  rcases lt_trichotomy a b with h | rfl | h
  · rw [compare_lt_iff_lt.2 h, compare_gt_iff_gt.2 (neg_lt_neg h)]
    rfl
  · simp
  · rw [compare_gt_iff_gt.2 h, compare_lt_iff_lt.2 (neg_lt_neg h)]
    rfl

/-- Numbers compare as their places do. -/
theorem compare_eq {u v : UnpackedFloat} (hu : Representable u) (hv : Representable v)
    (hun : u ≠ .notANumber) (hvn : v ≠ .notANumber) :
    u.compare v = some (compare (place u) (place v)) := by
  symm
  cases hu with
  | notANumber => exact absurd rfl hun
  | infinity s =>
    cases hv with
    | notANumber => exact absurd rfl hvn
    | infinity s' => cases s <;> cases s' <;> rfl
    | zero s' => cases s <;> rfl
    | finite s' h' he' =>
      have := h'.rank_pos
      have := h'.rank_lt he'
      cases s <;> cases s' <;>
        simp [UnpackedFloat.compare, place, compare_lt_iff_lt, compare_gt_iff_gt] <;> omega
  | zero s =>
    cases hv with
    | notANumber => exact absurd rfl hvn
    | infinity s' => cases s' <;> rfl
    | zero s' => rfl
    | finite s' h' he' =>
      have := h'.rank_pos
      cases s' <;>
        simp [UnpackedFloat.compare, place, compare_lt_iff_lt, compare_gt_iff_gt] <;> omega
  | finite s h he =>
    have := h.rank_pos
    have := h.rank_lt he
    cases hv with
    | notANumber => exact absurd rfl hvn
    | infinity s' =>
      cases s <;> cases s' <;>
        simp [UnpackedFloat.compare, place, compare_lt_iff_lt, compare_gt_iff_gt] <;> omega
    | zero s' =>
      cases s <;>
        simp [UnpackedFloat.compare, place, compare_lt_iff_lt, compare_gt_iff_gt] <;> omega
    | finite s' h' he' =>
      have := h'.rank_pos
      have hcompare := h.compare_rank h'
      cases s with
      | positive =>
        cases s' with
        | positive => exact congrArg some hcompare.symm
        | negative =>
          simp [UnpackedFloat.compare, place, compare_gt_iff_gt]
          omega
      | negative =>
        cases s' with
        | positive =>
          simp [UnpackedFloat.compare, place, compare_lt_iff_lt]
          omega
        | negative =>
          exact congrArg some ((compare_neg _ _).trans (congrArg Ordering.swap hcompare.symm))

/-! ### Order -/

section Order

variable {x y z : Float}

def position (x : Float) : ℤ := place x.toModel.unpack

theorem isNaN_eq_false_iff : x.isNaN = false ↔ x.toModel.unpack ≠ .notANumber := by
  change x.toModel.unpack.isNaN = false ↔ _
  cases x.toModel.unpack <;> simp [UnpackedFloat.isNaN]

theorem compare_eq_position (hx : x.isNaN = false) (hy : y.isNaN = false) :
    x.toModel.unpack.compare y.toModel.unpack = some (compare (position x) (position y)) :=
  compare_eq (representable_unpack _) (representable_unpack _) (isNaN_eq_false_iff.1 hx)
    (isNaN_eq_false_iff.1 hy)

theorem le_iff (hx : x.isNaN = false) (hy : y.isNaN = false) : x ≤ y ↔ position x ≤ position y := by
  change decide ((x.toModel.unpack.compare y.toModel.unpack).any (·.isLE) = true) = true ↔ _
  rw [compare_eq_position hx hy]
  simp [Std.isLE_compare]

theorem lt_iff (hx : x.isNaN = false) (hy : y.isNaN = false) : x < y ↔ position x < position y := by
  change decide ((x.toModel.unpack.compare y.toModel.unpack == some .lt) = true) = true ↔ _
  rw [compare_eq_position hx hy]
  simp [compare_lt_iff_lt]

theorem isNaN_of_compare {o : Ordering} (h : x.toModel.unpack.compare y.toModel.unpack = some o) :
    x.isNaN = false ∧ y.isNaN = false := by
  rw [isNaN_eq_false_iff, isNaN_eq_false_iff]
  constructor
  · intro hx
    rw [hx] at h
    simp [UnpackedFloat.compare] at h
  · intro hy
    rw [hy] at h
    cases hx : x.toModel.unpack <;> simp [hx, UnpackedFloat.compare] at h

theorem isNaN_of_le (h : x ≤ y) : x.isNaN = false ∧ y.isNaN = false := by
  have hle : (x.toModel.unpack.compare y.toModel.unpack).any (·.isLE) = true := of_decide_eq_true h
  obtain ⟨o, ho, -⟩ := (Option.any_eq_true _ _).1 hle
  exact isNaN_of_compare ho

theorem isNaN_of_lt (h : x < y) : x.isNaN = false ∧ y.isNaN = false := by
  have hlt : (x.toModel.unpack.compare y.toModel.unpack == some .lt) = true := of_decide_eq_true h
  exact isNaN_of_compare (beq_iff_eq.1 hlt)

theorem not_lt_of_le (h : x ≤ y) : ¬ y < x := by
  obtain ⟨hx, hy⟩ := isNaN_of_le h
  rw [lt_iff hy hx, not_lt]
  exact (le_iff hx hy).1 h

theorem le_trans' (h : x ≤ y) (h' : y ≤ z) : x ≤ z := by
  obtain ⟨hx, hy⟩ := isNaN_of_le h
  obtain ⟨-, hz⟩ := isNaN_of_le h'
  rw [le_iff hx hz]
  exact ((le_iff hx hy).1 h).trans ((le_iff hy hz).1 h')

theorem position_bounds (x : Float) : -top ≤ position x ∧ position x ≤ top :=
  place_bounds (representable_unpack _)

theorem lt_trans' (h : x < y) (h' : y < z) : x < z := by
  obtain ⟨hx, hy⟩ := isNaN_of_lt h
  obtain ⟨-, hz⟩ := isNaN_of_lt h'
  rw [lt_iff hx hz]
  exact ((lt_iff hx hy).1 h).trans ((lt_iff hy hz).1 h')

/-! ### Words -/

theorem toNat_packComponents (s : Sign) (E : BitVec 11) (M : BitVec 52) :
    (packComponents .binary64 s E M).toNat =
      s.toBitVec.toNat * 2 ^ 63 + E.toNat * 2 ^ 52 + M.toNat := by
  have hE : (s.toBitVec ++ E).toNat = s.toBitVec.toNat * 2 ^ 11 + E.toNat := by
    rw [BitVec.toNat_append, ← Nat.shiftLeft_add_eq_or_of_lt E.isLt, Nat.shiftLeft_eq]
  have hM : (packComponents .binary64 s E M).toNat = (s.toBitVec ++ E).toNat * 2 ^ 52 + M.toNat := by
    rw [packComponents, BitVec.toNat_append, ← Nat.shiftLeft_add_eq_or_of_lt M.isLt, Nat.shiftLeft_eq]
  rw [hM, hE]
  ring

theorem place_ofFields (s : Sign) {E : BitVec 11} {M : BitVec 52} (h : E = -1#11 → M = 0#52) :
    place (ofFields s E M) = s.apply (E.toNat * 2 ^ 52 + M.toNat) := by
  rw [ofFields]
  split_ifs with hinf hM hzero hM
  · subst hinf hM
    rfl
  · exact absurd (h hinf) hM
  · subst hzero hM
    cases s <;> simp [place]
  · have hM : rank M.toNat (-1074) = E.toNat * 2 ^ 52 + M.toNat := by
      rw [rank, hzero]
      simp
    rw [place, hM]
  · have hE : rank (2 ^ 52 + M.toNat) (E.toNat - 1075) = E.toNat * 2 ^ 52 + M.toNat := by
      rw [rank]
      push_cast
      ring
    rw [place, hE]

/-- The bits of a number give its place, the first of them its sign. -/
theorem position_eq (hx : x.isNaN = false) : position x =
    if x.toBits.toNat < 2 ^ 63 then (x.toBits.toNat : ℤ) else 2 ^ 63 - x.toBits.toNat := by
  obtain ⟨s, E, M, h⟩ := exists_fields x.toModel.toBits.toBitVec
  have hunpack : x.toModel.unpack = ofFields s E M := by
    rw [Float.Model.unpack, ← h, unpack_packComponents]
  have hbits : x.toBits.toNat = s.toBitVec.toNat * 2 ^ 63 + E.toNat * 2 ^ 52 + M.toNat := by
    rw [← toNat_packComponents, h]
    rfl
  have hfinite : E = -1#11 → M = 0#52 := fun hE => by_contra fun hM => by
    rw [isNaN_eq_false_iff, hunpack, ofFields, if_pos hE, if_neg hM] at hx
    exact hx rfl
  have hE : E.toNat < 2 ^ 11 := E.isLt
  have hM : M.toNat < 2 ^ 52 := M.isLt
  rw [position, hunpack, place_ofFields s hfinite, hbits]
  cases s with
  | positive =>
    have hs : Sign.positive.toBitVec.toNat = 0 := rfl
    rw [hs, if_pos (by omega)]
    simp
  | negative =>
    have hs : Sign.negative.toBitVec.toNat = 1 := rfl
    rw [hs, if_neg (by omega)]
    simp
    ring

end Order

end TraceAnomaly.Binary64
