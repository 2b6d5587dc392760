import TraceAnomaly.Yaml.Token

/-! The documents that tokens spell. Nodes keep tag and style, so that whoever expects a value
decides what a scalar means; aliases are replaced by what they stand for. -/
namespace TraceAnomaly.Yaml

inductive Node where
  | scalar (tag : Option String) (style : Style) (text : List Char)
  | sequence (items : List Node)
  /-- The entries in written order. -/
  | mapping (entries : List (Node × Node))
  /-- A node that contains itself. -/
  | cyclic
deriving Inhabited

/-- Nothing where a node may stand. -/
def Node.absent : Node := .scalar none .plain []

/-- What has been read of a document: tokens that follow and the anchored nodes so far, the last one
first. A node that is still being read has no value yet. -/
structure Reader where
  tokens : List Token
  handles : List (String × String)
  anchors : List (String × Option Node) := []

namespace Reader

def peek (r : Reader) : Option Token := r.tokens.head?

def skip (r : Reader) : Reader := { r with tokens := r.tokens.drop 1 }

/-- Whether the next token is one of the given ones. -/
def sees (r : Reader) (ts : List Token) : Bool := r.peek.any ts.contains

/-- Tag and anchor of a node. -/
structure Properties where
  tag : Option String := none
  anchor : Option String := none

/-- The tag with a handle. -/
def resolve (r : Reader) (handle rest : String) : Option String :=
  if handle.isEmpty then some rest else (r.handles.lookup handle).map (· ++ rest)

/-- Takes tag and anchor, each at most once and in either order. -/
def properties (r : Reader) : Option (Properties × Reader) :=
  match r.tokens with
  | .anchor a :: .tag h t :: rest => do
    some (⟨← r.resolve h t, some a⟩, { r with tokens := rest })
  | .tag h t :: .anchor a :: rest => do
    some (⟨← r.resolve h t, some a⟩, { r with tokens := rest })
  | .anchor a :: rest => some (⟨none, some a⟩, { r with tokens := rest })
  | .tag h t :: rest => do some (⟨← r.resolve h t, none⟩, { r with tokens := rest })
  | _ => some ({}, r)

/-- Notes that an anchored node starts. -/
def mark (r : Reader) (p : Properties) : Reader :=
  match p.anchor with
  | some a => { r with anchors := (a, none) :: r.anchors }
  | none => r

/-- Gives an anchored node its value. It started when `before` nodes had been anchored. -/
def record (r : Reader) (p : Properties) (before : Nat) (n : Node) : Reader :=
  match p.anchor with
  | some a =>
    { r with anchors := r.anchors.set (r.anchors.length - 1 - before) (a, some n) }
  | none => r

mutual

/-- Reads a node. Outside flow collections it may be a block, and as part of a mapping a sequence
without indentation of its own. -/
def node (inBlock asPart : Bool) : Nat → Reader → Option (Node × Reader)
  | 0, _ => none
  | fuel + 1, r =>
    match r.peek with
    | some (.alias name) => do
      let n ← r.anchors.lookup name
      some (n.getD .cyclic, r.skip)
    | _ => do
      let (p, r) ← r.properties
      let before := r.anchors.length
      let inside := (r.mark p).skip
      let (n, r) ←
        match r.peek with
        | some .blockEntry =>
          if asPart then do
            let (items, r) ← looseItems fuel (r.mark p)
            some (Node.sequence items, r)
          else if p.tag.isSome ∨ p.anchor.isSome then some (.scalar p.tag .plain [], r.mark p)
          else none
        | some (.scalar style text) => some (.scalar p.tag style text, inside)
        | some .flowSequenceStart => do
          let (items, r) ← flowItems true fuel inside
          some (.sequence items, r)
        | some .flowMappingStart => do
          let (entries, r) ← flowEntries true fuel inside
          some (.mapping entries, r)
        | some .sequenceStart =>
          if inBlock then do
            let (items, r) ← blockItems fuel inside
            some (.sequence items, r)
          else if p.tag.isSome ∨ p.anchor.isSome then some (.scalar p.tag .plain [], r.mark p)
          else none
        | some .mappingStart =>
          if inBlock then do
            let (entries, r) ← blockEntries fuel inside
            some (.mapping entries, r)
          else if p.tag.isSome ∨ p.anchor.isSome then some (.scalar p.tag .plain [], r.mark p)
          else none
        | _ =>
          if p.tag.isSome ∨ p.anchor.isSome then some (.scalar p.tag .plain [], r.mark p) else none
      some (n, r.record p before n)

/-- Reads a node unless one of the given tokens comes first. -/
def nodeUnless (inBlock asPart : Bool) (ends : List Token) : Nat → Reader → Option (Node × Reader)
  | 0, _ => none
  | fuel + 1, r => if r.sees ends then some (.absent, r) else node inBlock asPart fuel r

/-- Reads the items of a sequence that is a block. -/
def blockItems : Nat → Reader → Option (List Node × Reader)
  | 0, _ => none
  | fuel + 1, r =>
    match r.peek with
    | some .blockEntry => do
      let (n, r) ← nodeUnless true false [.blockEntry, .blockEnd] fuel r.skip
      let (rest, r) ← blockItems fuel r
      some (n :: rest, r)
    | some .blockEnd => some ([], r.skip)
    | _ => none

/-- Reads the items of a sequence without indentation of its own. -/
def looseItems : Nat → Reader → Option (List Node × Reader)
  | 0, _ => none
  | fuel + 1, r =>
    match r.peek with
    | some .blockEntry => do
      let (n, r) ← nodeUnless true false [.blockEntry, .key, .value, .blockEnd] fuel r.skip
      let (rest, r) ← looseItems fuel r
      some (n :: rest, r)
    | _ => some ([], r)

/-- Reads the entries of a mapping that is a block. -/
def blockEntries : Nat → Reader → Option (List (Node × Node) × Reader)
  | 0, _ => none
  | fuel + 1, r =>
    match r.peek with
    | some .key => do
      let (k, r) ← nodeUnless true true [.key, .value, .blockEnd] fuel r.skip
      let (v, r) ← if r.sees [.value] then
          nodeUnless true true [.key, .value, .blockEnd] fuel r.skip
        else some (.absent, r)
      let (rest, r) ← blockEntries fuel r
      some ((k, v) :: rest, r)
    | some .blockEnd => some ([], r.skip)
    | _ => none

/-- Reads the items of a sequence in brackets. A key makes a mapping with a single entry. -/
def flowItems (isFirst : Bool) : Nat → Reader → Option (List Node × Reader)
  | 0, _ => none
  | fuel + 1, r =>
    if r.sees [.flowSequenceEnd] then some ([], r.skip)
    else if !isFirst && !r.sees [.flowEntry] then none
    else
      let r := if isFirst then r else r.skip
      match r.peek with
      | some .flowSequenceEnd => some ([], r.skip)
      | some .key => do
        let (k, r) ← nodeUnless false false [.value, .flowEntry, .flowSequenceEnd] fuel r.skip
        let (v, r) ← if r.sees [.value] then
            nodeUnless false false [.flowEntry, .flowSequenceEnd] fuel r.skip
          else some (.absent, r)
        let (rest, r) ← flowItems false fuel r
        some (.mapping [(k, v)] :: rest, r)
      | _ => do
        let (n, r) ← node false false fuel r
        let (rest, r) ← flowItems false fuel r
        some (n :: rest, r)

/-- Reads the entries of a mapping in braces. -/
def flowEntries (isFirst : Bool) : Nat → Reader → Option (List (Node × Node) × Reader)
  | 0, _ => none
  | fuel + 1, r =>
    if r.sees [.flowMappingEnd] then some ([], r.skip)
    else if !isFirst && !r.sees [.flowEntry] then none
    else
      let r := if isFirst then r else r.skip
      match r.peek with
      | some .flowMappingEnd => some ([], r.skip)
      | some .key => do
        let (k, r) ← nodeUnless false false [.value, .flowEntry, .flowMappingEnd] fuel r.skip
        let (v, r) ← if r.sees [.value] then
            nodeUnless false false [.flowEntry, .flowMappingEnd] fuel r.skip
          else some (.absent, r)
        let (rest, r) ← flowEntries false fuel r
        some ((k, v) :: rest, r)
      | _ => do
        let (k, r) ← node false false fuel r
        let (rest, r) ← flowEntries false fuel r
        some ((k, .absent) :: rest, r)

end

/-- Takes the directives in front of a document: a version of the first generation and handles of
tags, none of them twice. -/
def directives (hasVersion : Bool) (own : List (String × String)) : List Token →
    Option (List (String × String) × List Token)
  | .version 1 minor :: rest =>
    if hasVersion ∨ (minor ≠ 1 ∧ minor ≠ 2) then none else directives true own rest
  | .version _ _ :: _ => none
  | .tagHandle handle base :: rest =>
    if (own.lookup handle).isSome then none else directives hasVersion ((handle, base) :: own) rest
  | rest => some (own ++ [("!", "!"), ("!!", "tag:yaml.org,2002:")], rest)

/-- Whether nothing but marks of ended documents is left. -/
def isDone (r : Reader) : Bool := r.tokens.all (· == .documentEnd)

end Reader

/-- The document of a text with at most one document, unless it has a mistake. An empty text is the
absent node. -/
def document (cs : List Char) : Option Node := do
  let ts ← tokens cs
  if ts.isEmpty then some .absent
  else
    let (handles, rest) ← Reader.directives false [] ts
    let fuel := 3 * rest.length + 3
    let (n, r) ←
      match rest with
      | .documentStart :: rest =>
        let r : Reader := { tokens := rest, handles := handles }
        if rest.isEmpty || r.sees [.documentEnd] then some (.absent, r) else r.node true false fuel
      | rest => if rest.length < ts.length then none else
        Reader.node true false fuel { tokens := rest, handles := handles }
    if r.isDone then some n else none

end TraceAnomaly.Yaml
