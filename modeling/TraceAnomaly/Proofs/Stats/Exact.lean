import Mathlib.Algebra.Order.Field.Basic
import Mathlib.Algebra.Order.Floor.Ring
import Mathlib.Data.Rat.Floor
import Mathlib.Data.Rat.Sqrt
import TraceAnomaly.Proofs.Binary64.Monotone
import TraceAnomaly.Scalar

/-! Exact arithmetic as scalars. Over an ordered field with integer parts the formulas of the statistics
are computed without rounding, every number is finite, and words hold what fits into them. -/

namespace TraceAnomaly

class SquareRoot (K : Type) where
  sqrt : K → K

/-- Exact for squares of rational numbers. -/
instance : SquareRoot ℚ := ⟨Rat.sqrt⟩

namespace Scalar

variable {K : Type} [Field K] [LinearOrder K] [FloorRing K]

/-- The nearest integer, a half going away from zero. -/
def nearest (x : K) : ℤ := if 0 ≤ x then ⌊x + 1 / 2⌋ else -⌊-x + 1 / 2⌋

instance (priority := low) exact [SquareRoot K] : Scalar K where
  ofNat n := n
  ofBinary64 x := (Binary64.value x : ℚ)
  le x y := decide (x ≤ y)
  lt x y := decide (x < y)
  max x y := if x ≤ y then y else x
  abs x := if 0 ≤ x then x else -x
  sqrt := SquareRoot.sqrt
  hypot x y := SquareRoot.sqrt (x * x + y * y)
  round x := nearest x
  toWord x := UInt64.ofNat (min ⌊x⌋.toNat (UInt64.size - 1))
  ceil x := min ⌈x⌉.toNat (UInt64.size - 1)
  isInfinite _ := false
  isUndefined _ := false

variable [IsStrictOrderedRing K]

@[simp] theorem nearest_natCast (n : ℕ) : nearest (n : K) = n := by
  have hhalf : ⌊(1 / 2 : K)⌋ = 0 := Int.floor_eq_zero_iff.2 ⟨by norm_num, by norm_num⟩
  rw [nearest, if_pos n.cast_nonneg, Int.floor_natCast_add, hhalf, add_zero]

end Scalar

end TraceAnomaly
