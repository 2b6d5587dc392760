/-! Positions in YAML text. Lines and columns matter there, so the rest of a text is carried along with
its place. -/
namespace TraceAnomaly.Yaml

def isBlank (c : Char) : Bool := c == ' ' || c == '\t'

/-- Whether a character ends a line. Other line ends have been made line feeds beforehand. -/
def isBreak (c : Char) : Bool := c == '\n' || c == '\u2028' || c == '\u2029'

/-- Whether a text is at a blank, at the end of a line or at its own end. -/
def endsWord : List Char → Bool
  | [] => true
  | c :: _ => isBlank c || isBreak c

/-- Whether a text is at the end of a line or at its own end. -/
def endsLine : List Char → Bool
  | [] => true
  | c :: _ => isBreak c

def isWordChar (c : Char) : Bool := c.isAlphanum || c == '_' || c == '-'

/-- Whether a character may stand in a document. -/
def isPermitted (c : Char) : Bool :=
  c == '\t' || c == '\n' || c == '\r' || (' ' ≤ c && c ≤ '~') || c == '\u0085' ||
    ('\u00a0' ≤ c && c ≤ '\ufffd') || '\uffff' < c

/-- Makes every carriage return, with a line feed behind it or not, and every next-line character a
line feed. -/
def unifyBreaks : List Char → List Char
  | '\r' :: '\n' :: cs => '\n' :: unifyBreaks cs
  | '\r' :: cs => '\n' :: unifyBreaks cs
  | '\u0085' :: cs => '\n' :: unifyBreaks cs
  | c :: cs => c :: unifyBreaks cs
  | [] => []

/-- What is left of a text, with the place where it starts. -/
structure Cursor where
  rest : List Char
  line : Nat := 0
  column : Nat := 0
deriving DecidableEq, Repr

namespace Cursor

def peek (c : Cursor) : Option Char := c.rest.head?

/-- Whether the next character is the given one. -/
def sees (c : Cursor) (x : Char) : Bool := c.peek == some x

/-- Goes behind the next character. -/
def skip (c : Cursor) : Cursor :=
  match c.rest with
  | [] => c
  | x :: rest => if isBreak x then ⟨rest, c.line + 1, 0⟩ else ⟨rest, c.line, c.column + 1⟩

/-- Goes to a later place in the same line. -/
def skipTo (c : Cursor) (rest : List Char) : Cursor :=
  ⟨rest, c.line, c.column + (c.rest.length - rest.length)⟩

/-- Goes behind characters of one line. -/
def skipWhile (p : Char → Bool) (c : Cursor) : Cursor := c.skipTo (c.rest.dropWhile p)

/-- Goes to the end of the line. -/
def skipLine (c : Cursor) : Cursor := c.skipWhile fun x => !isBreak x

/-- Whether a line starts here with the given three characters and a blank or nothing behind. -/
def atMark (mark : Char) (c : Cursor) : Bool :=
  c.column == 0 &&
    match c.rest with
    | x :: y :: z :: rest => x == mark && y == mark && z == mark && endsWord rest
    | _ => false

/-- Whether a document starts or ends here. -/
def atDocumentMark (c : Cursor) : Bool := c.atMark '-' || c.atMark '.'

end Cursor

end TraceAnomaly.Yaml
