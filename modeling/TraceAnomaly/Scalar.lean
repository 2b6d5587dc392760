import TraceAnomaly.Binary64

/-! The arithmetic that statistics and outlier factors are computed in. The program computes in
binary64, which is meant wherever no arithmetic is named; the same formulas can be read over any other
ordered field with these operations. -/
namespace TraceAnomaly

class Scalar (α : Type) extends Add α, Sub α, Mul α, Div α, Neg α where
  ofNat : Nat → α
  /-- A number of the settings, which are given in binary64. -/
  ofBinary64 : Float → α
  le : α → α → Bool
  lt : α → α → Bool
  /-- The larger of two numbers. -/
  max : α → α → α
  abs : α → α
  sqrt : α → α
  /-- The length of the hypotenuse over two legs. -/
  hypot : α → α → α
  /-- The nearest integer, a half going away from zero. -/
  round : α → α
  /-- The integer part, within the range of words. -/
  toWord : α → UInt64
  /-- The least integer that is not below, within the range of words. -/
  ceil : α → Nat
  isInfinite : α → Bool
  isUndefined : α → Bool

instance : Scalar Float where
  ofNat := Binary64.ofNat
  ofBinary64 := id
  le x y := x ≤ y
  lt x y := x < y
  max := Binary64.max
  abs := Float.abs
  sqrt := Float.sqrt
  hypot := Binary64.hypot
  round := Binary64.roundAway
  toWord := Float.toUInt64
  ceil := Binary64.ceilCount
  isInfinite := Float.isInf
  isUndefined := Float.isNaN

end TraceAnomaly
