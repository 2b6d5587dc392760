import TraceAnomaly.Json.Token
import TraceAnomaly.Decimal.Shortest

/-! The numerals of JSON text. A number is read as the binary64 number nearest to its numeral and
written with the fewest digits that read back, positionally while its leading digit stands between
the fifth place behind the point and the sixteenth before it. -/
namespace TraceAnomaly.Json

open Text (splitWhile)

/-- Whether a numeral has neither point nor power of ten. -/
def isIntegral (numeral : List Char) : Bool := numeral.all fun c => Decimal.isDigit c || c == '-'

/-- The integer that an integral numeral spells. -/
def readInteger : List Char → Int
  | '-' :: ds => -(Decimal.ofDigits ds : Int)
  | '+' :: ds => Decimal.ofDigits ds
  | ds => Decimal.ofDigits ds

/-- The value of a numeral after its sign. -/
def readMagnitude (cs : List Char) : Decimal.Numeral :=
  let (whole, cs) := splitWhile Decimal.isDigit cs
  let (fraction, cs) :=
    match cs with
    | '.' :: cs => splitWhile Decimal.isDigit cs
    | cs => ([], cs)
  ⟨Decimal.ofDigits (whole ++ fraction), readInteger (cs.drop 1) - fraction.length⟩

/-- The number nearest to a numeral, unless it is out of range. -/
def readReal (numeral : List Char) : Option Float :=
  let (negative, cs) :=
    match numeral with
    | '-' :: cs => (true, cs)
    | cs => (false, cs)
  let x := (readMagnitude cs).toFloat
  if x.isInf then none else some (Binary64.signed negative x)

/-- Digits with a point after the first of them, unless there is only one. -/
def pointedDigits : List Char → List Char
  | d :: e :: rest => d :: '.' :: e :: rest
  | ds => ds

/-- The text of a shortest numeral. -/
def numeralText (n : Decimal.Numeral) : List Char :=
  let leading := n.leading
  if -5 ≤ leading ∧ leading < 16 then
    if 0 ≤ n.power then n.positional ++ ['.', '0'] else n.positional
  else
    pointedDigits (Decimal.digits n.coefficient) ++
      'e' :: (if leading < 0 then '-' else '+') :: Decimal.digits leading.natAbs

/-- The numeral of a finite number. -/
def writeReal (x : Float) (v : Binary64.Exact) : List Char :=
  Decimal.minus v.negative (numeralText (Decimal.shortest x v))

end TraceAnomaly.Json
