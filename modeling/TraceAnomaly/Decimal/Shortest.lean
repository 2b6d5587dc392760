import TraceAnomaly.Decimal.Basic

/-! The shortest decimal numeral that reads back as a given binary64 number, and the nearest of
those with equally many digits. -/
namespace TraceAnomaly.Decimal

open Binary64 (Exact)

/-- The value `coefficient * 10 ^ power`. -/
structure Numeral where
  coefficient : Nat
  power : Int
deriving DecidableEq, Repr

/-- The number nearest to a numeral. -/
def Numeral.toFloat (n : Numeral) : Float := Binary64.ofDecimal n.coefficient n.power

/-- The two neighbours of a value among the numerals with last digit at `10 ^ power`, the nearer one
first. -/
def neighbours (x : Exact) (power : Int) : List Numeral :=
  let (num, den) := scaled x.mantissa x.exponent (-power)
  let low := num / den
  let near := roundDiv num den
  [⟨near, power⟩, ⟨if near = low then low + 1 else low, power⟩]

/-- The numeral with the fewest digits, at least `tried + 1` of them, that reads back as `target`,
looked for on `more` further grids and then taken from the next one. -/
def shortestFrom (x : Exact) (target : Float) (leading : Int) : Nat → Nat → Numeral
  | 0, tried =>
    let (num, den) := scaled x.mantissa x.exponent (tried - leading)
    ⟨roundDiv num den, leading - tried⟩
  | more + 1, tried =>
    match (neighbours x (leading - tried)).find? (·.toFloat == target) with
    | some n => n
    | none => shortestFrom x target leading more (tried + 1)

/-- Drops the zeros at the end of the digits. -/
def Numeral.trim : Nat → Numeral → Numeral
  | 0, n => n
  | fuel + 1, n => if n.coefficient ≠ 0 ∧ n.coefficient % 10 = 0 then trim fuel ⟨n.coefficient / 10, n.power + 1⟩ else n

/-- The shortest numeral for the magnitude `v` of a finite number `x`. Seventeen digits always
suffice. -/
def shortest (x : Float) (v : Exact) : Numeral :=
  if v.mantissa = 0 then ⟨0, 0⟩
  else (shortestFrom v x.abs (Exact.leadingPower v) 16 0).trim 18

/-- Positional text without a power of ten: zeros fill the places that the digits leave. -/
def Numeral.positional (n : Numeral) : List Char :=
  match n.power with
  | .ofNat k => digits (n.coefficient * Nat.pow 10 k)
  | .negSucc k => withPoint (k + 1) n.coefficient

/-- The power of ten of the leading digit. -/
def Numeral.leading (n : Numeral) : Int := n.power + ((Decimal.digits n.coefficient).length - 1 : Nat)

/-- The shortest numeral in positional notation, whole numbers without a point. -/
def plain (x : Float) : List Char :=
  match Binary64.kind x with
  | .undefined => "NaN".toList
  | .infinite s => wordOf s
  | .finite v => minus v.negative (shortest x v).positional

end TraceAnomaly.Decimal
