import TraceAnomaly.Json.Number
import TraceAnomaly.Yaml.Node

/-! What nodes mean to whoever expects a value of some type. A plain scalar is a truth value or a
number by its text; any scalar is a text; and a mapping is a record, of which nothing at all has no
fields. -/
namespace TraceAnomaly.Yaml.Node

/-- The text of a scalar. -/
def text? : Node → Option String
  | .scalar _ _ cs => some (String.ofList cs)
  | _ => none

def isNull (cs : List Char) : Bool :=
  let text := String.ofList cs
  text == "" || text == "~" || text == "null" || text == "Null" || text == "NULL"

/-- The tag of a type that every document knows. -/
def coreTag (name : String) : String := "tag:yaml.org,2002:" ++ name

/-- A text, or nothing for a plain null. What is tagged as null must be it. -/
def optionalText? : Node → Option (Option String)
  | .scalar tag .plain cs =>
    if tag = some (coreTag "null") then
      if !cs.isEmpty && isNull cs then some none else none
    else if tag.isNone && isNull cs then some none
    else some (some (String.ofList cs))
  | .scalar _ _ cs => some (some (String.ofList cs))
  | _ => none

/-- The text of a scalar whose type is read off it: a plain one, or a literal one with the tag of the
type. -/
def typedText? (name : String) : Node → Option (List Char)
  | .scalar _ .plain cs => some cs
  | .scalar tag .literal cs => if tag = some (coreTag name) then some cs else none
  | _ => none

def bool? (n : Node) : Option Bool := do
  match String.ofList (← n.typedText? "bool") with
  | "true" | "True" | "TRUE" => some true
  | "false" | "False" | "FALSE" => some false
  | _ => none

/-- The number that digits of a base spell. -/
def ofDigits? (base : Nat) (cs : List Char) : Option Nat :=
  if cs.isEmpty || !cs.all (fun c => Json.isHexDigit c && Json.hexValue c < base) then none
  else some (cs.foldl (fun n c => base * n + Json.hexValue c) 0)

/-- Whether digits have a zero in front. -/
def isPadded : List Char → Bool
  | '0' :: c :: cs => (c :: cs).all Decimal.isDigit
  | _ => false

/-- A natural number, in base ten without padding or in another base after its mark. -/
def natural? (cs : List Char) : Option Nat :=
  let digits :=
    match cs with
    | '+' :: ds => ds
    | ds => ds
  match digits with
  | '0' :: 'x' :: ds => ofDigits? 16 ds
  | '0' :: 'o' :: ds => ofDigits? 8 ds
  | '0' :: 'b' :: ds => ofDigits? 2 ds
  | ds => if isPadded ds then none else ofDigits? 10 ds

def word? (n : Node) : Option UInt64 := do
  let k ← natural? (← n.typedText? "int")
  if k < UInt64.size then some (UInt64.ofNat k) else none

/-- A decimal numeral that may lack digits on one side of its point. -/
def numeral? (cs : List Char) : Option Decimal.Numeral :=
  let (whole, rest) := Text.splitWhile Decimal.isDigit cs
  let (fraction, rest) :=
    match rest with
    | '.' :: rest => Text.splitWhile Decimal.isDigit rest
    | rest => ([], rest)
  if whole.isEmpty && fraction.isEmpty then none
  else
    let numeral (power : Int) : Decimal.Numeral :=
      ⟨Decimal.ofDigits (whole ++ fraction), power - fraction.length⟩
    match rest with
    | [] => some (numeral 0)
    | c :: rest =>
      let digits := (Json.scanSign ['+', '-'] rest).2
      if (c == 'e' || c == 'E') && !digits.isEmpty && digits.all Decimal.isDigit then
        some (numeral (Json.readInteger rest))
      else none

/-- A finite number by its numeral. -/
def finite? (cs : List Char) : Option Float := do
  let (isNegative, digits) :=
    match cs with
    | '-' :: ds => (true, ds)
    | '+' :: ds => (false, ds)
    | ds => (false, ds)
  let x := (← numeral? digits).toFloat
  if x.isInf then none else some (Binary64.signed isNegative x)

def real? (n : Node) : Option Float := do
  let cs ← n.typedText? "float"
  match String.ofList cs with
  | ".inf" | ".Inf" | ".INF" | "+.inf" | "+.Inf" | "+.INF" => some Binary64.infinity
  | "-.inf" | "-.Inf" | "-.INF" => some (-Binary64.infinity)
  | ".nan" | ".NaN" | ".NAN" => some Binary64.undefined
  | _ => finite? cs

/-- The value with a given name. The name is a scalar, or the tag of nothing. -/
def variant? {α : Type} (name : α → String) (values : List α) : Node → Option α
  | .scalar tag style cs =>
    match (tag.getD "").toList with
    | '!' :: t =>
      if style == .plain && isNull cs then
        values.find? fun a => (name a).toList = (if t = [] then ['!'] else t)
      else none
    | _ => values.find? fun a => (name a).toList = cs
  | _ => none

/-- The entries of a record under the names of its fields. Every key is a scalar and no field comes
twice; what is under other keys does not matter. -/
def fields? (names : List String) : Node → Option (List (String × Node))
  | .mapping entries => entries.foldlM (fun found (k, v) => do
      let name ← k.text?
      if !names.contains name then some found
      else if (found.lookup name).isSome then none
      else some ((name, v) :: found)) []
  | .scalar _ .plain [] => some []
  | _ => none

/-- The value of a field, or what stands for a missing one. -/
def field {α : Type} (found : List (String × Node)) (name : String) (read : Node → Option α)
    (default : α) : Option α :=
  match found.lookup name with
  | some n => read n
  | none => some default

end TraceAnomaly.Yaml.Node
