import TraceAnomaly.Decimal.Basic
import TraceAnomaly.Text.Blank
import TraceAnomaly.Text.Front

/-! Lengths of time as they are written by hand: numbers with units behind them, one after
another. -/
namespace TraceAnomaly

structure Duration where
  seconds : Nat
  /-- Less than a second. -/
  nanoseconds : Nat
deriving DecidableEq, Repr

namespace Duration

def zero : Duration := ⟨0, 0⟩

def isZero (d : Duration) : Bool := d == zero

/-- A unit of time, as a number of seconds or of nanoseconds. -/
inductive TimeUnit where
  | seconds (n : Nat)
  | nanoseconds (n : Nat)
deriving DecidableEq, Repr

/-- The unit with a name. Months and years are mean ones. -/
def TimeUnit.ofName? (name : List Char) : Option TimeUnit :=
  match String.ofList name with
  | "nanos" | "nsec" | "ns" => some (nanoseconds 1)
  | "usec" | "us" | "µs" => some (nanoseconds 1000)
  | "millis" | "msec" | "ms" => some (nanoseconds 1000000)
  | "seconds" | "second" | "secs" | "sec" | "s" => some (seconds 1)
  | "minutes" | "minute" | "min" | "mins" | "m" => some (seconds 60)
  | "hours" | "hour" | "hr" | "hrs" | "h" => some (seconds 3600)
  | "days" | "day" | "d" => some (seconds 86400)
  | "weeks" | "week" | "wk" | "wks" | "w" => some (seconds 604800)
  | "months" | "month" | "M" => some (seconds 2630016)
  | "years" | "year" | "yr" | "y" => some (seconds 31557600)
  | _ => none

/-- A number if it fits into a word of 64 bits. -/
def bounded (n : Nat) : Option Nat := if n < UInt64.size then some n else none

/-- Adds seconds and nanoseconds, as long as no sum is too large. -/
def add (d : Duration) (seconds nanoseconds : Nat) : Option Duration := do
  let nanoseconds ← bounded (d.nanoseconds + nanoseconds)
  let seconds ← bounded (seconds + nanoseconds / 1000000000)
  let seconds ← bounded (d.seconds + seconds)
  some ⟨seconds, nanoseconds % 1000000000⟩

/-- Adds a whole number of units. -/
def addWhole (d : Duration) (n : Nat) : TimeUnit → Option Duration
  | .seconds k => do d.add (← bounded (n * k)) 0
  | .nanoseconds k => do d.add 0 (← bounded (n * k))

/-- The quotient of a number that fits into a word, if there is no remainder. -/
def exactly (n den : Nat) : Option Nat := do
  let n ← bounded n
  if n % den = 0 then some (n / den) else none

/-- Adds a fraction of a unit. It must be a whole number of seconds for units above the minute, and
of nanoseconds below; a nanosecond has no fractions. -/
def addFraction (d : Duration) (num den : Nat) : TimeUnit → Option Duration
  | .seconds k =>
    if 3600 ≤ k then do d.add (← exactly (num * k) den) 0
    else do d.add 0 (← exactly (num * (k * 1000000000)) den)
  | .nanoseconds k => if k = 1 then none else do d.add 0 (← exactly (num * k) den)

/-- A number with its unit: the digits, the digits behind the point if there is one, and the unit's
name. -/
structure Piece where
  whole : List Char
  fraction : Option (List Char)
  unit : List Char

def isDigitOrBlank (c : Char) : Bool := Decimal.isDigit c || Text.isBlank c

def isUnitChar (c : Char) : Bool := c.isAlpha || c == 'µ'

/-- Splits the digits off a text. Blanks between them do not matter. -/
def splitDigits (cs : List Char) : List Char × List Char :=
  let (ds, rest) := Text.splitWhile isDigitOrBlank cs
  (ds.filter Decimal.isDigit, rest)

/-- Splits a point with digits behind it off a text. -/
def splitFraction : List Char → Option (List Char) × List Char
  | '.' :: cs => let (ds, rest) := splitDigits cs; (some ds, rest)
  | cs => (none, cs)

/-- Splits a number with its unit off a text. -/
def splitPiece (cs : List Char) : Piece × List Char :=
  let (whole, cs) := splitDigits cs
  let (fraction, cs) := splitFraction cs
  let (unit, cs) := Text.splitWhile isUnitChar cs
  (⟨whole, fraction, unit⟩, cs)

theorem length_splitDigits (cs : List Char) : (splitDigits cs).2.length ≤ cs.length := by
  have := Text.length_splitWhile isDigitOrBlank cs
  simp only [splitDigits]
  omega

theorem length_splitFraction (cs : List Char) : (splitFraction cs).2.length ≤ cs.length := by
  unfold splitFraction
  split
  · rename_i cs
    have := length_splitDigits cs
    simp
    omega
  · exact Nat.le_refl _

theorem length_splitPiece (cs : List Char) : (splitPiece cs).2.length ≤ cs.length := by
  have := length_splitDigits cs
  have := length_splitFraction (splitDigits cs).2
  have := Text.length_splitWhile isUnitChar (splitFraction (splitDigits cs).2).2
  simp only [splitPiece]
  omega

/-- Adds a number of units. No number may be too large for a word. -/
def addPiece (d : Duration) (p : Piece) : Option Duration := do
  let whole ← bounded (Decimal.ofDigits p.whole)
  let unit ← TimeUnit.ofName? p.unit
  let d ← d.addWhole whole unit
  match p.fraction with
  | none => some d
  | some [] => none
  | some ds => do
    let num ← bounded (Decimal.ofDigits ds)
    let den ← bounded (Nat.pow 10 ds.length)
    d.addFraction num den unit

/-- Adds the pieces of a text, each of which starts with a digit, whatever blanks are in front. -/
def addAll (d : Duration) : List Char → Option Duration
  | [] => some d
  | c :: cs =>
    if Text.isBlank c then addAll d cs
    else if Decimal.isDigit c then do
      let p := (splitPiece cs).1
      let d ← d.addPiece { p with whole := c :: p.whole }
      addAll d (splitPiece cs).2
    else none
termination_by cs => cs.length
decreasing_by
  · simp
  · have := length_splitPiece cs
    simp
    omega

/-- The duration that a text spells. A zero needs no unit. -/
def ofText? (cs : List Char) : Option Duration :=
  if cs = ['0'] then some zero
  else if cs.all Text.isBlank then none
  else addAll zero cs

end Duration

end TraceAnomaly
