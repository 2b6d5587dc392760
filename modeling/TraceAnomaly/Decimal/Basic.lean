import TraceAnomaly.Binary64

/-! Decimal digits of natural numbers and of exact binary values. A written numeral is an integer
times a power of ten; digits that are cut off round to the nearest numeral and a tie goes to the
even one. -/
namespace TraceAnomaly.Decimal

open Binary64 (Exact)

/-- The digits of a natural number, leading digit first. -/
def digits (n : Nat) : List Char := Nat.toDigits 10 n

def isDigit (c : Char) : Bool := '0' ≤ c && c ≤ '9'

def digitValue (c : Char) : Nat := c.toNat - '0'.toNat

/-- The number that a list of digits spells. -/
def ofDigits (cs : List Char) : Nat := cs.foldl (fun n c => 10 * n + digitValue c) 0

/-- The number that digits spell, with or without a plus sign in front. -/
def natural? (cs : List Char) : Option Nat :=
  let ds :=
    match cs with
    | '+' :: ds => ds
    | ds => ds
  if ds ≠ [] && ds.all isDigit then some (ofDigits ds) else none

/-- The number that digits spell, if it fits into a word. -/
def word? (cs : List Char) : Option UInt64 :=
  (natural? cs).bind fun n => if n < UInt64.size then some (UInt64.ofNat n) else none

/-- Digits of `n`, filled up with leading zeros to at least `width`. -/
def padded (width n : Nat) : List Char :=
  let ds := digits n
  List.replicate (width - ds.length) '0' ++ ds

/-- The integer nearest to `num / den`; a tie goes to the even neighbour. -/
def roundDiv (num den : Nat) : Nat :=
  let q := num / den
  match compare (2 * (num % den)) den with
  | .lt => q
  | .eq => q + q % 2
  | .gt => q + 1

/-- The value `m * 2 ^ e * 10 ^ p` as numerator and denominator. -/
def scaled (m : Nat) (e p : Int) : Nat × Nat :=
  (m * Nat.pow 2 e.toNat * Nat.pow 10 p.toNat, Nat.pow 2 (-e).toNat * Nat.pow 10 (-p).toNat)

/-- The power of ten of the leading digit of a positive quotient. -/
def leadingPower (num den : Nat) : Int :=
  if den ≤ num then ((digits (num / den)).length : Int) - 1
  else -((digits ((den - 1) / num)).length : Int)

/-- The power of ten of the leading digit of a positive value. -/
def Exact.leadingPower (x : Exact) : Int :=
  let (num, den) := scaled x.mantissa x.exponent 0
  Decimal.leadingPower num den

/-- Splits the last `places` digits off behind a point. -/
def withPoint (places n : Nat) : List Char :=
  let ds := padded (places + 1) n
  let whole := ds.length - places
  if places = 0 then ds else ds.take whole ++ '.' :: ds.drop whole

/-- A number with `places` digits behind the point, for finite values. -/
def Exact.fixed (places : Nat) (x : Exact) : List Char :=
  let (num, den) := scaled x.mantissa x.exponent places
  withPoint places (roundDiv num den)

/-- The words for numbers that have no digits. -/
def wordOf (negative : Bool) : List Char := if negative then "-inf".toList else "inf".toList

def minus (negative : Bool) (text : List Char) : List Char :=
  if negative then '-' :: text else text

/-- A number with `places` digits behind the point. -/
def fixed (places : Nat) (x : Float) : List Char :=
  match Binary64.kind x with
  | .undefined => "NaN".toList
  | .infinite s => wordOf s
  | .finite v => minus v.negative (Exact.fixed places v)

/-- One digit before the point, `places` digits behind it, and the power of ten after `e`. -/
def scientific (places : Nat) (x : Float) : List Char :=
  match Binary64.kind x with
  | .undefined => "NaN".toList
  | .infinite s => wordOf s
  | .finite v =>
    let power := if v.mantissa = 0 then 0 else Exact.leadingPower v
    let (num, den) := scaled v.mantissa v.exponent (places - power)
    let n := roundDiv num den
    let (n, power) := if n = Nat.pow 10 (places + 1) then (n / 10, power + 1) else (n, power)
    minus v.negative (withPoint places n ++ 'e' :: (toString power).toList)

end TraceAnomaly.Decimal
