import TraceAnomaly.Json.Bytes
import TraceAnomaly.Json.Text
import TraceAnomaly.Json.Number
import TraceAnomaly.Keyed

/-! Codecs between domain values and JSON documents. A codec writes one form and reads every form
that means the same. Documents are checked in reading order, so the first fault decides whether a
text is refused as malformed or as a document of another shape. -/
namespace TraceAnomaly.Json

/-- Why a document is no value of the expected type. -/
inductive Fault where
  /-- The text is not JSON at the place where a value was expected. -/
  | malformed
  /-- The text is JSON of another shape. -/
  | mismatched
deriving DecidableEq, Repr

structure Codec (α : Type) where
  encode : α → Json
  decode : Json → Except Fault α

/-- The fault of a document that stands where a value of another type is expected: its own spelling
is looked at first. -/
def misfit : Json → Fault
  | .number n => if (readReal n).isSome then .mismatched else .malformed
  | .string t => if (unescape t).isSome then .mismatched else .malformed
  | .broken => .malformed
  | _ => .mismatched

/-- The characters of a string or of a key. -/
def readText (t : List Char) : Except Fault String :=
  match unescape t with
  | some cs => .ok (String.ofList cs)
  | none => .error .malformed

/-- A numeral as an integer within the given bounds. A negative zero is no integer. -/
def readBounded (low high : Int) (numeral : List Char) : Except Fault Int :=
  if isIntegral numeral ∧ numeral ≠ ['-', '0'] ∧ low ≤ readInteger numeral ∧
      readInteger numeral ≤ high then .ok (readInteger numeral)
  else .error (misfit (.number numeral))

/-- A numeral as a 64-bit word. -/
def readWord (numeral : List Char) : Except Fault UInt64 :=
  (readBounded 0 (UInt64.size - 1) numeral).map fun n => UInt64.ofNat n.toNat

def writeWord (n : UInt64) : List Char := Decimal.digits n.toNat

namespace Codec

variable {α β : Type}

/-- Carries a codec over to a type with the same values. -/
def as (c : Codec α) (toBase : β → α) (ofBase : α → β) : Codec β where
  encode b := c.encode (toBase b)
  decode j := (c.decode j).map ofBase

/-- 64-bit natural numbers. -/
def word : Codec UInt64 where
  encode n := .number (writeWord n)
  decode
    | .number n => readWord n
    | j => .error (misfit j)

/-- Binary64 numbers. Those that are not finite have no numeral and are written as `null`. -/
def real : Codec Float where
  encode x :=
    match Binary64.kind x with
    | .finite v => .number (writeReal x v)
    | _ => .null
  decode
    | .number n =>
      match readReal n with
      | some x => .ok x
      | none => .error .malformed
    | j => .error (misfit j)

def bool : Codec Bool where
  encode := .bool
  decode
    | .bool b => .ok b
    | j => .error (misfit j)

def text : Codec String where
  encode s := .string (escape s.toList)
  decode
    | .string t => readText t
    | j => .error (misfit j)

/-- The value with a given code, among a few values with integer codes of at most eight bits. -/
def code (code : α → Int) (values : List α) : Codec α where
  encode a := .number (toString (code a)).toList
  decode
    | .number n => do
      let k ← readBounded (-128) 127 n
      match values.find? (code · = k) with
      | some a => .ok a
      | none => .error .mismatched
    | j => .error (misfit j)

/-- The value with a given name, among a few named values. The name stands alone or is the key of an
object around `null`. -/
def variant (name : α → String) (values : List α) : Codec α where
  encode a := .string (escape (name a).toList)
  decode
    | .string t => do named (← readText t)
    | .object [(k, .null)] => do named (← readText k)
    | .object ((k, v) :: _) => do
      let _ ← named (← readText k)
      match v with
      | .null => .error .malformed
      | v => .error (misfit v)
    | _ => .error .malformed
where
  named (s : String) : Except Fault α :=
    match values.find? (name · = s) with
    | some a => .ok a
    | none => .error .mismatched

/-- A value or `null`. -/
def nullable (c : Codec α) : Codec (Option α) where
  encode
    | some a => c.encode a
    | none => .null
  decode
    | .null => .ok none
    | j => (c.decode j).map some

def list (c : Codec α) : Codec (List α) where
  encode as := .array (as.map c.encode)
  decode
    | .array items => items.mapM c.decode
    | j => .error (misfit j)

/-- The word that a key spells, without escapes, blanks or further characters. -/
def readKey (k : List Char) : Except Fault UInt64 :=
  match scanNumber k with
  | none => .error .malformed
  | some (numeral, rest) => do
    let n ← readWord numeral
    if rest = [] then .ok n else .error .malformed

/-- Objects whose keys are words. Of two members with one key the later counts. -/
def table (c : Codec α) : Codec (Keyed UInt64 α) where
  encode m := .object (m.toList.map fun (k, a) => (writeWord k, c.encode a))
  decode
    | .object members => members.foldlM (fun m (k, v) => do
        let n ← readKey k
        let a ← c.decode v
        .ok (m.insert n a)) Keyed.empty
    | j => .error (misfit j)

end Codec

/-- The fields of a record in declared order, with the product of their types and the product of
what may have been found for each of them. -/
inductive Fields : Type → Type → Type 1 where
  | nil : Fields Unit Unit
  /-- A field that must be present. -/
  | required {α β σ : Type} (name : String) (codec : Codec α) (rest : Fields β σ) :
    Fields (α × β) (Option α × σ)
  /-- A field that may be missing. -/
  | optional {α β σ : Type} (name : String) (codec : Codec α) (rest : Fields β σ) :
    Fields (Option α × β) (Option α × σ)

namespace Fields

variable {β σ : Type}

def noSlots : {β σ : Type} → Fields β σ → σ
  | _, _, .nil => ()
  | _, _, .required _ _ rest => (none, rest.noSlots)
  | _, _, .optional _ _ rest => (none, rest.noSlots)

/-- Puts a value into a slot that must still be free. -/
def fill {α : Type} (c : Codec α) (v : Json) : Option α → Except Fault (Option α)
  | some _ => .error .mismatched
  | none => (c.decode v).map some

/-- Reads a member into the slot of its field. A member without a field must be JSON at least, and
is refused if the record is sealed. -/
def take (isSealed : Bool) (name : String) (v : Json) :
    {β σ : Type} → Fields β σ → σ → Except Fault σ
  | _, _, .nil, () =>
    if isSealed then .error .mismatched else if v.isWhole then .ok () else .error .malformed
  | _, _, .required n c rest, (slot, slots) =>
    if n = name then (fill c v slot).map (·, slots)
    else (rest.take isSealed name v slots).map (slot, ·)
  | _, _, .optional n c rest, (slot, slots) =>
    if n = name then (fill c v slot).map (·, slots)
    else (rest.take isSealed name v slots).map (slot, ·)

/-- The record, once every required field has its value. -/
def finish : {β σ : Type} → Fields β σ → σ → Except Fault β
  | _, _, .nil, () => .ok ()
  | _, _, .required _ _ rest, (slot, slots) =>
    match slot with
    | some a => (rest.finish slots).map (a, ·)
    | none => .error .mismatched
  | _, _, .optional _ _ rest, (slot, slots) => (rest.finish slots).map (slot, ·)

/-- Reads the fields from the items of an array in declared order. -/
def ofItems : {β σ : Type} → Fields β σ → List Json → Except Fault β
  | _, _, .nil, [] => .ok ()
  | _, _, .nil, _ :: _ => .error .malformed
  | _, _, .required _ _ _, [] => .error .mismatched
  | _, _, .required _ c rest, v :: vs => do
    let a ← c.decode v
    (rest.ofItems vs).map (a, ·)
  | _, _, .optional _ _ rest, [] => (rest.ofItems []).map (none, ·)
  | _, _, .optional _ c rest, v :: vs => do
    let a ← c.decode v
    (rest.ofItems vs).map (some a, ·)

/-- Reads the fields from the members of an object. -/
def ofMembers (isSealed : Bool) (fs : Fields β σ) (members : List (List Char × Json)) :
    Except Fault β := do
  let slots ← members.foldlM (fun slots (k, v) => do
    fs.take isSealed (← readText k) v slots) fs.noSlots
  fs.finish slots

/-- The members that are present. -/
def toMembers : {β σ : Type} → Fields β σ → β → List (List Char × Json)
  | _, _, .nil, () => []
  | _, _, .required n c rest, (a, b) => (escape n.toList, c.encode a) :: rest.toMembers b
  | _, _, .optional n c rest, (some a, b) => (escape n.toList, c.encode a) :: rest.toMembers b
  | _, _, .optional _ _ rest, (none, b) => rest.toMembers b

/-- The items of a record; a missing field leaves `null` in its place. -/
def toItems : {β σ : Type} → Fields β σ → β → List Json
  | _, _, .nil, () => []
  | _, _, .required _ c rest, (a, b) => c.encode a :: rest.toItems b
  | _, _, .optional _ c rest, (some a, b) => c.encode a :: rest.toItems b
  | _, _, .optional _ _ rest, (none, b) => .null :: rest.toItems b

end Fields

namespace Codec

variable {α β σ : Type}

/-- Records are written as objects and read from objects or arrays. A sealed one refuses members
without a field. -/
def record (fs : Fields β σ) (isSealed : Bool := false) : Codec β where
  encode b := .object (fs.toMembers b)
  decode
    | .object members => fs.ofMembers isSealed members
    | .array items => fs.ofItems items
    | j => .error (misfit j)

/-- Tuples are arrays of their fields. -/
def tuple (fs : Fields β σ) : Codec β where
  encode b := .array (fs.toItems b)
  decode
    | .array items => fs.ofItems items
    | j => .error (misfit j)

/-- The text of a value. -/
def write (c : Codec α) (a : α) : List Char := (c.encode a).compact

/-- Reads a text that holds one value and nothing else but blanks. -/
def read (c : Codec α) (cs : List Char) : Except Fault α := do
  let (j, rest) := readFront cs
  let a ← c.decode j
  if rest = [] then .ok a else .error .malformed

/-- Reads the value at the start of some bytes, whatever follows it. -/
def readStart (c : Codec α) (bytes : List UInt8) : Except Fault α := c.decode (ofBytes bytes)

end Codec

end TraceAnomaly.Json
