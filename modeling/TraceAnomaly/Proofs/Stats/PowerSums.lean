import Mathlib.Data.List.Basic
import TraceAnomaly.Stats.PowerSums

/-! Laws of power sums that hold without regard to rounding: samples are pushed one after another, the count of anomalies goes along with the sums without touching them, and sums with a
positive count are not empty. -/

namespace TraceAnomaly

open Float.Model (UnpackedFloat)

theorem Binary64.unpack_zero : (ofNat 0).toModel.unpack = .zero .positive := by rfl

theorem Binary64.toUInt64_of_nonpositive {x : Float} (h : x ≤ ofNat 0) : x.toUInt64 = 0 := by
  have hle : x.toModel.unpack.le (ofNat 0).toModel.unpack = true := of_decide_eq_true h
  rw [unpack_zero] at hle
  change UnpackedFloat.toUInt64 x.toModel.unpack = 0
  cases hx : x.toModel.unpack with
  | notANumber => rfl
  | zero s => rfl
  | infinity s =>
    cases s with
    | positive =>
      rw [hx] at hle
      exact absurd hle Bool.false_ne_true
    | negative => rfl
  | finite s m e hm =>
    cases s with
    | positive =>
      rw [hx] at hle
      exact absurd hle Bool.false_ne_true
    | negative =>
      -- the integer part of a negative number is cut off at zero
      have hpart : (UnpackedFloat.roundToInt .negative m e).toNat = 0 := Int.toNat_neg_natCast _
      exact congrArg UInt64.ofNatClamp hpart

namespace PowerSums

theorem isEmpty_eq_false_of_count {s : PowerSums Float} (h : 0 < s.count) : s.isEmpty = false := by
  refine Bool.eq_false_iff.2 fun hs => ?_
  have hle : s.samples ≤ Binary64.ofNat 0 := of_decide_eq_true hs
  have hcount : s.count = 0 := Binary64.toUInt64_of_nonpositive hle
  simp [hcount] at h

theorem deviation?_of_count {s : PowerSums Float} (h : 0 < s.count) :
    s.deviation? = some s.deviation := by
  simp [deviation, deviation?, variance?, isEmpty_eq_false_of_count h]

/-! ### Pushing -/

section Pushing

variable {α : Type} [Scalar α]

theorem pushAll_append (s : PowerSums α) (xs ys : List α) :
    s.pushAll (xs ++ ys) = (s.pushAll xs).pushAll ys :=
  List.foldl_append

theorem pushAll_setAbnormal (s : PowerSums α) (n : UInt64) (xs : List α) :
    (s.setAbnormal n).pushAll xs = (s.pushAll xs).setAbnormal n := by
  induction xs generalizing s with
  | nil => rfl
  | cons x xs ih => exact ih (s.push x)

theorem setAbnormal_ofSamples (xs : List α) : (ofSamples xs).setAbnormal 0 = ofSamples xs :=
  (pushAll_setAbnormal empty 0 xs).symm

end Pushing

/-! ### Anomalies -/

theorem setAbnormal_add (a b : PowerSums Float) (n : UInt64) (hb : b.setAbnormal 0 = b) :
    a.setAbnormal n + b = (a + b).setAbnormal n := by
  have h0 : b.abnormal = 0 := (congrArg PowerSums.abnormal hb).symm
  change (⟨_, _, _, n + b.abnormal⟩ : PowerSums Float) = _
  rw [h0, UInt64.add_zero]
  rfl

theorem addAbnormal_zero (a : PowerSums Float) : a.addAbnormal 0 = a := by
  cases a
  simp [addAbnormal]

end PowerSums

end TraceAnomaly
