import TraceAnomaly.Text.Front
import TraceAnomaly.Text.Lines
import TraceAnomaly.Yaml.Scalar

/-! The tokens of YAML text. Indentation opens and closes blocks, which have tokens of their own. A
key is known as such only when the colon behind it is reached; its tokens are then put in front of
it. -/
namespace TraceAnomaly.Yaml

/-- How a scalar is written. -/
inductive Style where
  | plain
  | quoted
  | literal
  | folded
deriving DecidableEq, Repr

inductive Token where
  | version (major minor : Nat)
  /-- The handle of tags that start with the given text. -/
  | tagHandle (handle base : String)
  | documentStart
  | documentEnd
  | sequenceStart
  | mappingStart
  | blockEnd
  | flowSequenceStart
  | flowSequenceEnd
  | flowMappingStart
  | flowMappingEnd
  | blockEntry
  | flowEntry
  | key
  | value
  | alias (name : String)
  | anchor (name : String)
  | tag (handle rest : String)
  | scalar (style : Style) (text : List Char)
deriving DecidableEq, Repr

/-- A place where a key may have started. -/
structure KeyPlace where
  /-- The number of tokens in front of it. -/
  index : Nat
  line : Nat
  column : Nat
  /-- Whether nothing but a key can stand there. -/
  isRequired : Bool

/-- The state of reading tokens. -/
structure Scan where
  cursor : Cursor
  /-- The tokens so far, the last one first. -/
  tokens : List Token := []
  /-- The columns of the open blocks, the innermost first. -/
  blocks : List Nat := []
  /-- Where the current key may have started, for the open flow collections and the block around
  them, the innermost first. -/
  keys : List (Option KeyPlace) := [none]
  /-- Whether a key may start here. -/
  allowsKey : Bool := true

namespace Scan

def inFlow (s : Scan) : Bool := 1 < s.keys.length

def put (s : Scan) (t : Token) : Scan := { s with tokens := t :: s.tokens }

/-- Puts a token behind the first `index` tokens. -/
def putAt (s : Scan) (index : Nat) (t : Token) : Scan :=
  let (after, before) := s.tokens.splitAt (s.tokens.length - index)
  { s with tokens := after ++ t :: before }

def setKey (s : Scan) (k : Option KeyPlace) : Scan := { s with keys := k :: s.keys.drop 1 }

def allow (s : Scan) (allowsKey : Bool) : Scan := { s with allowsKey := allowsKey }

def moveTo (s : Scan) (c : Cursor) : Scan := { s with cursor := c }

/-- Goes behind the next `n` characters of a mark. -/
def skip (s : Scan) (n : Nat) : Scan := s.moveTo (s.cursor.skipTo (s.cursor.rest.drop n))

/-- Opens a block at a column that lies deeper than the blocks around it. -/
def openBlock (s : Scan) (column index : Nat) (t : Token) : Scan :=
  if s.inFlow || !s.blocks.head?.all (· < column) then s
  else { s.putAt index t with blocks := column :: s.blocks }

/-- Closes the blocks that lie deeper than a column; without a column, all of them. -/
def closeBlocks (s : Scan) (column : Option Nat) : Scan :=
  if s.inFlow then s
  else
    let isInner (block : Nat) : Bool := column.all (· < block)
    let closed := s.blocks.takeWhile isInner
    { s with
      tokens := closed.map (fun _ => .blockEnd) ++ s.tokens
      blocks := s.blocks.dropWhile isInner }

/-- Gives up the current key, unless it is required. -/
def dropKey (s : Scan) : Option Scan :=
  match s.keys.head?.join with
  | some k => if k.isRequired then none else some (s.setKey none)
  | none => some s

/-- Notes that a key may start here. -/
def noteKey (s : Scan) : Option Scan :=
  if s.allowsKey then do
    let column := s.cursor.column
    let isRequired := !s.inFlow && s.blocks.head? == some column
    let s ← s.dropKey
    some (s.setKey (some ⟨s.tokens.length, s.cursor.line, column, isRequired⟩))
  else some s

/-- The current key, if it stands in this line and is not too long. Fails if a required key does
not. -/
def currentKey (s : Scan) : Option (Option KeyPlace) :=
  match s.keys.head?.join with
  | none => some none
  | some k =>
    if k.line = s.cursor.line ∧ s.cursor.column ≤ k.column + 1024 then some (some k)
    else if k.isRequired then none
    else some none

/-- Goes over blanks, comments and line ends. A tab is no blank where a key may start in a block.
A line end in a block allows a key. -/
def skipIdle (inFlow allowsKey : Bool) : Nat → Cursor → Cursor × Bool
  | 0, c => (c, allowsKey)
  | fuel + 1, c =>
    let c := if c.column = 0 ∧ c.sees '\ufeff' then c.skip else c
    let c := c.skipWhile fun x => x == ' ' || ((inFlow || !allowsKey) && x == '\t')
    let c := if c.sees '#' then c.skipLine else c
    if c.peek.any isBreak then skipIdle inFlow (allowsKey || !inFlow) fuel c.skip
    else (c, allowsKey)

/-! ### Directives, anchors and tags -/

/-- Goes behind the comment at the end of a directive, if there is one, and checks that the line ends
there. -/
def lineTail (c : Cursor) : Option Cursor :=
  let c := c.skipWhile isBlank
  let c := if c.sees '#' then c.skipLine else c
  if endsLine c.rest then some c else none

/-- A number with at most nine digits. -/
def versionNumber (cs : List Char) : Option (Nat × List Char) :=
  let (ds, rest) := Text.splitWhile Char.isDigit cs
  if ds.isEmpty ∨ 9 < ds.length then none else some (Decimal.ofDigits ds, rest)

def isTagChar (c : Char) : Bool := isWordChar c || ";/?:@&=+$.!~*'()%".toList.contains c

/-- The characters of a tag, with escaped bytes put in. -/
def tagText (cs : List Char) : Option String :=
  let rec bytes : List Char → Option (List UInt8)
    | '%' :: a :: b :: rest =>
      if Json.isHexDigit a && Json.isHexDigit b then
        (bytes rest).map (UInt8.ofNat (16 * Json.hexValue a + Json.hexValue b) :: ·)
      else none
    | '%' :: _ => none
    | c :: rest => (bytes rest).map (Text.encode [c] ++ ·)
    | [] => some []
  ((bytes cs).bind Text.decode).map String.ofList

/-- A handle of tags, with exclamation marks around it or a single one. -/
def tagHandle (cs : List Char) : Option (String × List Char) :=
  match cs with
  | '!' :: cs =>
    let (name, rest) := Text.splitWhile isWordChar cs
    match rest with
    | '!' :: rest => some (String.ofList ('!' :: name ++ ['!']), rest)
    | rest => some (String.ofList ('!' :: name), rest)
  | _ => none

/-- The token of a directive. -/
def directive (c : Cursor) : Option (Token × Cursor) := do
  let (name, rest) := Text.splitWhile isWordChar (c.rest.drop 1)
  match String.ofList name with
  | "YAML" =>
    let (major, rest) ← versionNumber (rest.dropWhile isBlank)
    let rest ← Text.dropText ['.'] rest
    let (minor, rest) ← versionNumber rest
    some (.version major minor, ← lineTail (c.skipTo rest))
  | "TAG" =>
    let (handle, rest) ← tagHandle (rest.dropWhile isBlank)
    if handle ≠ "!" ∧ !handle.endsWith "!" then none
    else if !rest.head?.any isBlank then none
    else
      let (base, rest) := Text.splitWhile (fun x => isTagChar x || x == ',' || x == '[' || x == ']')
        (rest.dropWhile isBlank)
      if base.isEmpty || !endsWord rest then none
      else some (.tagHandle handle (← tagText base), ← lineTail (c.skipTo rest))
  | _ => none

/-- The name behind an anchor's or an alias' mark. -/
def anchorName (c : Cursor) : Option (String × Cursor) :=
  let (name, rest) := Text.splitWhile isWordChar (c.rest.drop 1)
  if name.isEmpty then none
  else if endsWord rest || rest.head?.any (fun x => "?:,]\x7d%@`".toList.contains x) then
    some (String.ofList name, c.skipTo rest)
  else none

/-- The token of a tag. -/
def tag (inFlow : Bool) (c : Cursor) : Option (Token × Cursor) := do
  let (t, rest) ←
    match c.rest with
    | '!' :: '<' :: cs => do
      let (name, rest) := Text.splitWhile (fun x => isTagChar x || x == ',' || x == '[' || x == ']') cs
      if name.isEmpty then none
      else some (.tag "" (← tagText name), ← Text.dropText ['>'] rest)
    | cs => do
      let (handle, rest) ← tagHandle cs
      let (name, rest) := Text.splitWhile isTagChar rest
      let name ← tagText name
      if 1 < handle.length ∧ handle.endsWith "!" then
        if name.isEmpty then none else some (Token.tag handle name, rest)
      else
        let name := (handle.drop 1).toString ++ name
        some (if name.isEmpty then .tag "" "!" else .tag "!" name, rest)
  if endsWord rest || (inFlow && rest.head? == some ',') then some (t, c.skipTo rest) else none

/-! ### One token -/

/-- Opens a flow collection. -/
def openFlow (s : Scan) (t : Token) : Option Scan := do
  let s ← s.noteKey
  some (({ s with keys := none :: s.keys }.allow true).skip 1 |>.put t)

/-- Closes a flow collection, if one is open. -/
def closeFlow (s : Scan) (t : Token) : Option Scan := do
  let s ← s.dropKey
  let keys := if s.inFlow then s.keys.drop 1 else s.keys
  some (({ s with keys := keys }.allow false).skip 1 |>.put t)

def flowEntry (s : Scan) : Option Scan := do
  let s ← s.dropKey
  some ((s.allow true).skip 1 |>.put .flowEntry)

/-- Takes the mark of an item in a block. -/
def blockEntry (s : Scan) : Option Scan :=
  if !s.inFlow && !s.allowsKey then none
  else do
    let s ← (s.openBlock s.cursor.column s.tokens.length .sequenceStart).dropKey
    some ((s.allow true).skip 1 |>.put .blockEntry)

/-- Takes the mark in front of a key. -/
def explicitKey (s : Scan) : Option Scan :=
  if !s.inFlow && !s.allowsKey then none
  else do
    let s ← (s.openBlock s.cursor.column s.tokens.length .mappingStart).dropKey
    some ((s.allow !s.inFlow).skip 1 |>.put .key)

/-- Takes the mark in front of a value, and makes a key of what stands in front of it. -/
def value (s : Scan) : Option Scan := do
  match ← s.currentKey with
  | some k =>
    let s := (s.putAt k.index .key).openBlock k.column k.index .mappingStart
    some (((s.setKey none).allow false).skip 1 |>.put .value)
  | none =>
    if !s.inFlow && !s.allowsKey then none
    else
      let s := s.openBlock s.cursor.column s.tokens.length .mappingStart
      some ((s.allow !s.inFlow).skip 1 |>.put .value)

/-- Puts the token of a scalar that has been read. -/
def putScalar (s : Scan) (style : Style) (t : Scanned) : Scan :=
  (s.moveTo t.behind).put (.scalar style t.text)

/-- Takes the mark of a document, with all blocks closed. -/
def documentMark (s : Scan) (t : Token) : Option Scan := do
  let s ← (s.closeBlocks none).dropKey
  some ((s.allow false).skip 3 |>.put t)

/-- Whether a plain scalar can start with a character. -/
def startsPlain (inFlow : Bool) (x : Char) (rest : List Char) : Bool :=
  (!isBlank x && !"-?:,[]\x7b\x7d#&*!|>'\"%@`".toList.contains x) ||
    (x == '-' && !rest.head?.any isBlank) || (!inFlow && (x == '?' || x == ':') && !endsWord rest)

/-- Takes the next token, which starts at a given character. -/
def next (s : Scan) (x : Char) (rest : List Char) : Option Scan :=
  let c := s.cursor
  let markEnds := s.inFlow || endsWord rest
  if c.column = 0 ∧ x = '%' then do
    let s ← (s.closeBlocks none).dropKey
    let (t, c) ← directive c
    some (((s.allow false).moveTo c).put t)
  else if c.atMark '-' then s.documentMark .documentStart
  else if c.atMark '.' then s.documentMark .documentEnd
  else if x = '[' then s.openFlow .flowSequenceStart
  else if x = '{' then s.openFlow .flowMappingStart
  else if x = ']' then s.closeFlow .flowSequenceEnd
  else if x = '}' then s.closeFlow .flowMappingEnd
  else if x = ',' then s.flowEntry
  else if x = '-' ∧ endsWord rest then s.blockEntry
  else if x = '?' ∧ markEnds then s.explicitKey
  else if x = ':' ∧ markEnds then s.value
  else if x = '*' ∨ x = '&' then do
    let s ← s.noteKey
    let (name, c) ← anchorName c
    some (((s.allow false).moveTo c).put (if x = '*' then .alias name else .anchor name))
  else if x = '!' then do
    let s ← s.noteKey
    let (t, c) ← tag s.inFlow c
    some (((s.allow false).moveTo c).put t)
  else if (x = '|' ∨ x = '>') ∧ !s.inFlow then do
    let s ← s.dropKey
    some ((s.allow true).putScalar (if x = '|' then .literal else .folded) (← c.block s.blocks.head?))
  else if x = '\'' ∨ x = '"' then do
    let s ← s.noteKey
    some ((s.allow false).putScalar .quoted (← c.quoted (x = '\'')))
  else if startsPlain s.inFlow x rest then do
    let s ← s.noteKey
    let t ← c.plain s.inFlow (s.blocks.head?.elim 0 (· + 1))
    some ((s.allow t.isBroken).putScalar .plain t)
  else none

/-- Takes all further tokens, of which there are no more than characters. -/
def finish : Nat → Scan → Option Scan
  | 0, _ => none
  | fuel + 1, s =>
    let (c, allowsKey) := skipIdle s.inFlow s.allowsKey (s.cursor.rest.length + 1) s.cursor
    let s := (s.moveTo c).allow allowsKey
    match c.rest with
    | [] => (s.closeBlocks none).dropKey
    | x :: rest => ((s.closeBlocks (some c.column)).next x rest).bind (finish fuel)

end Scan

/-- The tokens of a text, unless it has a mistake. -/
def tokens (cs : List Char) : Option (List Token) :=
  if cs.all isPermitted then
    (Scan.finish (cs.length + 1) { cursor := ⟨unifyBreaks cs, 0, 0⟩ }).map (·.tokens.reverse)
  else none

end TraceAnomaly.Yaml
