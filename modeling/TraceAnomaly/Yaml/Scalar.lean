import TraceAnomaly.Json.Text
import TraceAnomaly.Yaml.Cursor

/-! The texts of scalars. Plain and quoted scalars may go over several lines, whose ends and
indentation fold into single blanks; block scalars keep lines of their own. -/
namespace TraceAnomaly.Yaml

/-- Blanks and line ends between two pieces of a scalar. -/
structure Gap where
  /-- Blanks in front of the first line end. -/
  blanks : List Char := []
  isBroken : Bool := false
  /-- The line ends. -/
  breaks : List Char := []

/-- What is left of a gap: one line end becomes a blank, and further ones stay. -/
def Gap.fold (g : Gap) : List Char :=
  if !g.isBroken then g.blanks
  else
    match g.breaks with
    | ['\n'] => [' ']
    | '\n' :: more => more
    | breaks => breaks

/-- Reads on over blanks and line ends. In indentation below the given column there is no tab. -/
def scanGap (indent : Nat) (g : Gap) (line column : Nat) : List Char → Option (Gap × Cursor)
  | [] => some (g, ⟨[], line, column⟩)
  | x :: rest =>
    if isBlank x then
      if g.isBroken && column < indent && x == '\t' then none
      else
        let g := if g.isBroken then g else { g with blanks := g.blanks ++ [x] }
        scanGap indent g line (column + 1) rest
    else if isBreak x then
      scanGap indent { g with isBroken := true, breaks := g.breaks ++ [x] } (line + 1) 0 rest
    else some (g, ⟨x :: rest, line, column⟩)

def Cursor.gap (c : Cursor) (indent : Nat) (g : Gap) : Option (Gap × Cursor) :=
  scanGap indent g c.line c.column c.rest

/-! ### Plain scalars -/

def isFlowMark (c : Char) : Bool := c ∈ [',', '[', ']', '{', '}']

/-- A piece of a plain scalar without blanks, and what follows it. -/
def plainPiece (inFlow : Bool) : List Char → Option (List Char × List Char)
  | [] => some ([], [])
  | x :: rest =>
    if isBlank x || isBreak x then some ([], x :: rest)
    else if inFlow && x == ':' && rest.head?.any (fun y => isFlowMark y || y == '?') then none
    else if (x == ':' && endsWord rest) || (inFlow && isFlowMark x) then some ([], x :: rest)
    else (plainPiece inFlow rest).map fun (t, r) => (x :: t, r)

/-- A scalar's text, whether a line end follows it, and the place behind. -/
structure Scanned where
  text : List Char
  isBroken : Bool := false
  behind : Cursor

/-- Reads on a plain scalar whose lines are indented to the given column at least. -/
def scanPlain (inFlow : Bool) (indent : Nat) : Nat → List Char → Gap → Cursor → Option Scanned
  | 0, _, _, _ => none
  | fuel + 1, text, g, c =>
    if c.atDocumentMark || c.sees '#' then some ⟨text, g.isBroken, c⟩
    else do
      let (piece, rest) ← plainPiece inFlow c.rest
      let c := c.skipTo rest
      let (text, g) := if piece = [] then (text, g) else (text ++ g.fold ++ piece, {})
      if !(c.peek.any fun x => isBlank x || isBreak x) then some ⟨text, g.isBroken, c⟩
      else
        let (g, c) ← c.gap indent g
        if !inFlow && c.column < indent then some ⟨text, g.isBroken, c⟩
        else scanPlain inFlow indent fuel text g c

/-- The plain scalar that starts here. -/
def Cursor.plain (c : Cursor) (inFlow : Bool) (indent : Nat) : Option Scanned :=
  scanPlain inFlow indent (c.rest.length + 1) [] {} c

/-! ### Quoted scalars -/

/-- A piece of a scalar in single quotes, where a doubled quote stands for one. -/
def singlePiece : List Char → List Char × List Char
  | '\'' :: '\'' :: rest => ('\'' :: (singlePiece rest).1, (singlePiece rest).2)
  | x :: rest =>
    if x == '\'' || isBlank x || isBreak x then ([], x :: rest)
    else (x :: (singlePiece rest).1, (singlePiece rest).2)
  | [] => ([], [])

/-- The character of an escape with one character behind the backslash. -/
def shortEscape : Char → Option Char
  | '0' => some '\x00'
  | 'a' => some '\x07'
  | 'b' => some '\x08'
  | 't' => some '\t'
  | '\t' => some '\t'
  | 'n' => some '\n'
  | 'v' => some '\x0b'
  | 'f' => some '\x0c'
  | 'r' => some '\r'
  | 'e' => some '\x1b'
  | ' ' => some ' '
  | '"' => some '"'
  | '/' => some '/'
  | '\\' => some '\\'
  | 'N' => some '\u0085'
  | '_' => some '\u00a0'
  | 'L' => some '\u2028'
  | 'P' => some '\u2029'
  | _ => none

/-- The character with a number in hexadecimal digits. -/
def hexChar (ds : List Char) : Option Char :=
  let n := ds.foldl (fun n d => 16 * n + Json.hexValue d) 0
  if ds.all Json.isHexDigit ∧ n.isValidChar then some (Char.ofNat n) else none

/-- A piece of a scalar in double quotes, and what follows it. -/
structure DoublePiece where
  text : List Char
  /-- Whether the piece ends with a backslash in front of a line end. -/
  isJoined : Bool := false
  rest : List Char

def DoublePiece.behind (x : Char) (p : DoublePiece) : DoublePiece := { p with text := x :: p.text }

def doublePiece : List Char → Option DoublePiece
  | [] => some ⟨[], false, []⟩
  | '\\' :: 'x' :: a :: b :: rest => do
    let x ← hexChar [a, b]
    (doublePiece rest).map (.behind x)
  | '\\' :: 'u' :: a :: b :: c :: d :: rest => do
    let x ← hexChar [a, b, c, d]
    (doublePiece rest).map (.behind x)
  | '\\' :: 'U' :: a :: b :: c :: d :: e :: f :: g :: h :: rest => do
    let x ← hexChar [a, b, c, d, e, f, g, h]
    (doublePiece rest).map (.behind x)
  | '\\' :: x :: rest =>
    if isBreak x then some ⟨[], true, rest⟩
    else do
      let x ← shortEscape x
      (doublePiece rest).map (.behind x)
  | x :: rest =>
    if x == '"' || isBlank x || isBreak x then some ⟨[], false, x :: rest⟩
    else if x == '\\' then none
    else (doublePiece rest).map (.behind x)

/-- Reads on a scalar in quotes, up to the closing one. -/
def scanQuoted (isSingle : Bool) : Nat → List Char → Cursor → Option Scanned
  | 0, _, _ => none
  | fuel + 1, text, c =>
    if c.atDocumentMark || c.rest.isEmpty then none
    else do
      let p ← if isSingle then
          let (text, rest) := singlePiece c.rest
          some ⟨text, false, rest⟩
        else doublePiece c.rest
      let text := text ++ p.text
      let c := if p.isJoined then ⟨p.rest, c.line + 1, 0⟩ else c.skipTo p.rest
      if !p.isJoined && c.sees (if isSingle then '\'' else '"') then some ⟨text, false, c.skip⟩
      else
        let (g, c) ← c.gap 0 { isBroken := p.isJoined }
        scanQuoted isSingle fuel (text ++ g.fold) c

/-- The quoted scalar that starts here. -/
def Cursor.quoted (c : Cursor) (isSingle : Bool) : Option Scanned :=
  scanQuoted isSingle (c.rest.length + 1) [] c.skip

/-! ### Block scalars -/

/-- What becomes of the line ends behind the last line. -/
inductive Chomping where
  | strip
  | clip
  | keep
deriving DecidableEq, Repr

/-- The chomping and the indentation that stand behind the mark of a block scalar, in either
order. -/
def blockHeader (cs : List Char) : Option (Chomping × Option Nat × List Char) :=
  let chomping : List Char → Option Chomping × List Char
    | '+' :: rest => (some .keep, rest)
    | '-' :: rest => (some .strip, rest)
    | rest => (none, rest)
  let indentation : List Char → Option Nat × List Char
    | x :: rest => if x.isDigit then (some (x.toNat - '0'.toNat), rest) else (none, x :: rest)
    | [] => (none, [])
  let (first, rest) := chomping cs
  let (width, rest) := indentation rest
  let (last, rest) := if first.isNone && width.isSome then chomping rest else (none, rest)
  if width = some 0 then none else some ((first.or last).getD .clip, width, rest)

/-- Goes over empty lines and indentation, which ends at a given column if one is given. Gives the
line ends, the largest column reached and the place behind; there is no tab in indentation. -/
def scanEmptyLines (indent : Option Nat) (breaks : List Char) (widest line column : Nat) :
    List Char → Option (List Char × Nat × Cursor)
  | [] => some (breaks, max widest column, ⟨[], line, column⟩)
  | x :: rest =>
    let inside := indent.all (column < ·)
    if inside && x == ' ' then scanEmptyLines indent breaks widest line (column + 1) rest
    else if inside && x == '\t' then none
    else if isBreak x then
      scanEmptyLines indent (breaks ++ [x]) (max widest column) (line + 1) 0 rest
    else some (breaks, max widest column, ⟨x :: rest, line, column⟩)

/-- The lines of a block scalar so far. -/
structure BlockText where
  text : List Char := []
  /-- The end of the last line, unless it has gone into the text. -/
  lineEnd : List Char := []
  /-- The ends of empty lines behind it. -/
  breaks : List Char := []
  /-- Whether the last line starts with a blank. -/
  startsBlank : Bool := false

/-- Adds a line. In folded text the line end in front of it becomes a blank, or nothing if empty
lines follow, unless one of the two lines starts with a blank. -/
def BlockText.add (isLiteral : Bool) (b : BlockText) (line lineEnd : List Char) : BlockText :=
  let startsBlank := line.head?.any isBlank
  let folds := !isLiteral && b.lineEnd == ['\n'] && !b.startsBlank && !startsBlank
  let joint := if folds then (if b.breaks = [] then [' '] else []) else b.lineEnd
  ⟨b.text ++ joint ++ b.breaks ++ line, lineEnd, [], startsBlank⟩

def BlockText.chomp (b : BlockText) : Chomping → List Char
  | .strip => b.text
  | .clip => b.text ++ b.lineEnd
  | .keep => b.text ++ b.lineEnd ++ b.breaks

/-- Reads on lines that are indented to the given column. -/
def scanBlock (isLiteral : Bool) (indent : Nat) : Nat → BlockText → Cursor →
    Option (BlockText × Cursor)
  | 0, _, _ => none
  | fuel + 1, b, c =>
    if c.column ≠ indent ∨ c.rest.isEmpty then some (b, c)
    else do
      let after := c.skipLine
      let line := c.rest.take (c.rest.length - after.rest.length)
      let b := b.add isLiteral line (after.rest.take 1)
      let c := after.skip
      let (breaks, _, c) ← scanEmptyLines (some indent) [] 0 c.line c.column c.rest
      scanBlock isLiteral indent fuel { b with breaks := breaks } c

/-- The block scalar that starts here, inside a block whose lines start at the given column. -/
def Cursor.block (c : Cursor) (outer : Option Nat) : Option Scanned := do
  let isLiteral := c.sees '|'
  let (chomping, width, rest) ← blockHeader c.skip.rest
  let blank := (c.skipTo rest).skipWhile isBlank
  let lineEnd := if blank.sees '#' then blank.skipLine else blank
  if !endsLine lineEnd.rest then none
  else
    let c := lineEnd.skip
    let given := width.map (outer.getD 0 + ·)
    let (breaks, widest, c) ← scanEmptyLines given [] 0 c.line c.column c.rest
    let indent := given.getD (max (max widest (outer.elim 0 (· + 1))) 1)
    let (b, c) ← scanBlock isLiteral indent (c.rest.length + 1) { breaks := breaks } c
    some ⟨b.chomp chomping, true, c⟩

end TraceAnomaly.Yaml
