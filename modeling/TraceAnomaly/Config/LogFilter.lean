import TraceAnomaly.Decimal.Basic
import TraceAnomaly.Text.Alphanumeric
import TraceAnomaly.Text.Blank
import TraceAnomaly.Text.Front

/-! Texts that say what is logged: directives with commas between them. A directive has a target, a
span in brackets and a level, and may lack any of them. The span may name a field in braces. -/
namespace TraceAnomaly.LogFilter

/-- The levels in letters, from silence to all details. -/
def levelNames : List String := ["off", "error", "warn", "info", "debug", "trace"]

/-- Whether a text is a level, by its name in any case or by its number. An empty one stands for all
details. -/
def isLevel (cs : List Char) : Bool :=
  cs.isEmpty || (Decimal.natural? cs).any (· < levelNames.length) ||
    levelNames.contains (String.ofList (cs.map Char.toLower))

/-- Whether a target can start with a character. -/
def startsTarget (c : Char) : Bool := c = '-' || c = ':' || c = '_' || Text.isAlphanumeric c

/-- What follows a span whose opening bracket has been read. -/
def afterSpan? (cs : List Char) : Option (List Char) :=
  match cs.dropWhile fun c => c ≠ ']' && c ≠ '\x7b' with
  | ']' :: rest => some rest
  | _ :: field =>
    match Text.splitWhile (· ≠ '\x7d') field with
    | (_ :: _, '\x7d' :: ']' :: rest) => some rest
    | _ => none
  | [] => none

/-- What follows the target and the span of a directive. -/
def afterTarget? (cs : List Char) : Option (List Char) :=
  match cs.dropWhile fun c => c ≠ '=' && c ≠ '[' with
  | '[' :: span => afterSpan? span
  | rest => some rest

/-- Whether a text is a directive. Blanks around it are allowed as long as it has no level behind an
equals sign. -/
def isDirective (cs : List Char) : Bool :=
  let text := Text.trim cs
  text.head?.any (fun c => c = '[' || startsTarget c) &&
    match afterTarget? text with
    | some [] => true
    | some ('=' :: level) => text = cs && isLevel level
    | _ => false

/-- Whether a text says what is logged. Nothing between two commas is no mistake. -/
def isValid (text : String) : Bool :=
  (text.toList.splitOn ',').all fun piece => piece.isEmpty || isDirective piece

end TraceAnomaly.LogFilter
