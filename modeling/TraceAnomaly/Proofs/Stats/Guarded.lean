import TraceAnomaly.Proofs.Stats.Exact

/-! Exact arithmetic in which a division by zero has no result, and neither has what is computed from it. A
formula that has a result in this arithmetic divides by zero nowhere, and then its result is the exact one. -/

namespace TraceAnomaly

/-- A number, or nothing after a division by zero. -/
structure Guarded (K : Type) where
  number : Option K

namespace Guarded

variable {K : Type}

def of (x : K) : Guarded K := ⟨some x⟩

def lift (f : K → K) (x : Guarded K) : Guarded K := ⟨x.number.map f⟩

def lift₂ (f : K → K → K) (x y : Guarded K) : Guarded K := ⟨x.number.bind fun a => y.number.map (f a)⟩

/-- Whether both numbers are there and related. -/
def test (r : K → K → Bool) (x y : Guarded K) : Bool := x.number.any fun a => y.number.any (r a)

variable [Field K] [LinearOrder K]

def divide (x y : Guarded K) : Guarded K :=
  ⟨x.number.bind fun a => y.number.bind fun b => if b = 0 then none else some (a / b)⟩

variable [FloorRing K] [SquareRoot K]

instance : Scalar (Guarded K) where
  add := lift₂ (· + ·)
  sub := lift₂ (· - ·)
  mul := lift₂ (· * ·)
  div := divide
  neg := lift (- ·)
  ofNat n := of (Scalar.ofNat n)
  ofBinary64 x := of (Scalar.ofBinary64 x)
  le := test Scalar.le
  lt := test Scalar.lt
  max := lift₂ Scalar.max
  abs := lift Scalar.abs
  sqrt := lift Scalar.sqrt
  hypot := lift₂ Scalar.hypot
  round := lift Scalar.round
  toWord x := (x.number.map Scalar.toWord).getD 0
  ceil x := (x.number.map Scalar.ceil).getD 0
  isInfinite x := x.number.any Scalar.isInfinite
  isUndefined x := x.number.isNone

theorem of_add (x y : K) : of x + of y = of (x + y) := rfl

theorem of_div (x : K) {y : K} (h : y ≠ 0) : of x / of y = of (x / y) := by
  have hdivide : divide (of x) (of y) = of (x / y) := by simp [divide, of, h]
  exact hdivide

/-- The guard stops a division by zero. -/
theorem of_div_zero (x : K) : (of x / of 0).number = none := by
  have hdivide : (divide (of x) (of 0)).number = none := by simp [divide, of]
  exact hdivide

end Guarded

end TraceAnomaly
