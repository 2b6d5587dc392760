/-! Exact views of binary64 numbers: a finite number is a sign, a natural mantissa and a power of
two. Rounding to integers, hypotenuses and decimal numerals are computed on that view, so each
result is the nearest binary64 number to the exact one. -/
namespace TraceAnomaly.Binary64

open Float.Model (Format UnpackedFloat)

/-- The magnitude `mantissa * 2 ^ exponent` of a finite number, with its sign bit. -/
structure Exact where
  negative : Bool
  mantissa : Nat
  exponent : Int
deriving DecidableEq, Repr

/-- Not a number, an infinity, or an exact value. -/
inductive Kind where
  | undefined
  | infinite (negative : Bool)
  | finite (value : Exact)
deriving DecidableEq, Repr

def isNegative : UnpackedFloat.Sign → Bool
  | .positive => false
  | .negative => true

def kind (x : Float) : Kind :=
  match x.toModel.unpack with
  | .notANumber => .undefined
  | .infinity s => .infinite (isNegative s)
  | .zero s => .finite ⟨isNegative s, 0, 0⟩
  | .finite s m e _ => .finite ⟨isNegative s, m, e⟩

def infinity : Float := .ofBits 0x7ff0000000000000

def undefined : Float := .ofBits 0x7ff8000000000000

/-- Gives a magnitude its sign. -/
def signed (negative : Bool) (x : Float) : Float := if negative then -x else x

/-- The number nearest to `m * 10 ^ e`, an infinity when it is out of range. -/
def ofDecimal (m : Nat) (e : Int) : Float := .ofModel (.ofScientific m e)

/-- The number nearest to a natural number. -/
def ofNat (n : Nat) : Float := .ofModel (.ofNat n)

/-- The nearest integer, a half going away from zero. Keeps the sign of a zero result. -/
def roundAway (x : Float) : Float :=
  match kind x with
  | .finite ⟨s, m, .negSucc k⟩ => signed s (ofNat (((2 * m) >>> (k + 1) + 1) / 2))
  | _ => x

/-- The least integer that is not below the number, within the range of 64-bit words. -/
def ceilCount (x : Float) : Nat :=
  match kind x with
  | .undefined => 0
  | .infinite true => 0
  | .infinite false => UInt64.size - 1
  | .finite ⟨true, _, _⟩ => 0
  | .finite ⟨false, m, .ofNat k⟩ => min (m <<< k) (UInt64.size - 1)
  | .finite ⟨false, m, .negSucc k⟩ => min ((m + 1 <<< (k + 1) - 1) >>> (k + 1)) (UInt64.size - 1)

/-- The square root of `m * 2 ^ e`, correctly rounded. -/
def sqrtExact (m : Nat) (e : Int) : Float :=
  if h : 0 < m then
    .ofModel (.pack (UnpackedFloat.sqrt Format.binary64 (.finite .positive m e h)))
  else 0

/-- The length of the hypotenuse over two legs. An infinite leg makes it infinite, whatever the
other leg is. -/
def hypot (x y : Float) : Float :=
  match kind x, kind y with
  | .infinite _, _ => infinity
  | _, .infinite _ => infinity
  | .undefined, _ => undefined
  | _, .undefined => undefined
  | .finite a, .finite b =>
    let e := min a.exponent b.exponent
    let m := a.mantissa <<< (a.exponent - e).toNat
    let n := b.mantissa <<< (b.exponent - e).toNat
    sqrtExact (m * m + n * n) (2 * e)

/-- The larger of two numbers, or the defined one of them. -/
def max (x y : Float) : Float := if x.isNaN || x ≤ y then y else x

end TraceAnomaly.Binary64
