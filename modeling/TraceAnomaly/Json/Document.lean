import TraceAnomaly.Json.Basic
import TraceAnomaly.Json.Token

/-! Reading a document from its tokens: a pushdown machine that takes one token at a time, keeps the
containers that are still open, and stops after one value. Where a token does not fit, the document
ends in a broken value. -/
namespace TraceAnomaly.Json

/-- A container whose next value is being read, with its items or members so far, last one first. -/
inductive Opened where
  | array (items : List Json)
  | object (members : List (List Char × Json)) (key : List Char)

/-- What has just been read and so what may follow. -/
inductive State where
  /-- A value must follow. -/
  | value
  /-- An array has just opened. -/
  | arrayStart
  /-- An object has just opened. -/
  | objectStart
  /-- A comma came after these members, so a key must follow. -/
  | key (members : List (List Char × Json))
  /-- A colon must follow the key. -/
  | colon (members : List (List Char × Json)) (key : List Char)
  /-- A value is complete. -/
  | ended (value : Json)

/-- Takes a token that starts a value. -/
def start (stack : List Opened) : Token → Option (List Opened × State)
  | .arrayOpen => some (stack, .arrayStart)
  | .objectOpen => some (stack, .objectStart)
  | .null => some (stack, .ended .null)
  | .bool b => some (stack, .ended (.bool b))
  | .number n => some (stack, .ended (.number n))
  | .string t => some (stack, .ended (.string t))
  | _ => none

/-- Takes one token, unless it does not fit. -/
def advance : List Opened → State → Token → Option (List Opened × State)
  | stack, .value, t => start stack t
  | stack, .arrayStart, .arrayClose => some (stack, .ended (.array []))
  | stack, .arrayStart, t => start (.array [] :: stack) t
  | stack, .objectStart, .objectClose => some (stack, .ended (.object []))
  | stack, .objectStart, .string k => some (stack, .colon [] k)
  | stack, .key ms, .string k => some (stack, .colon ms k)
  | stack, .colon ms k, .colon => some (.object ms k :: stack, .value)
  | .array vs :: stack, .ended v, .comma => some (.array (v :: vs) :: stack, .value)
  | .array vs :: stack, .ended v, .arrayClose => some (stack, .ended (.array (v :: vs).reverse))
  | .object ms k :: stack, .ended v, .comma => some (stack, .key ((k, v) :: ms))
  | .object ms k :: stack, .ended v, .objectClose =>
    some (stack, .ended (.object ((k, v) :: ms).reverse))
  | _, _, _ => none

/-- Closes every open container around a value that broke off. -/
def enclose (v : Json) : List Opened → Json
  | [] => v
  | .array vs :: stack => enclose (.array (v :: vs).reverse) stack
  | .object ms k :: stack => enclose (.object ((k, v) :: ms).reverse) stack

/-- The document when nothing fits any more. -/
def breakOff : List Opened → State → Json
  | stack, .value => enclose .broken stack
  | stack, .arrayStart => enclose (.array [.broken]) stack
  | stack, .objectStart => enclose (.object [([], .broken)]) stack
  | stack, .key ms => enclose (.object (([], .broken) :: ms).reverse) stack
  | stack, .colon ms k => enclose (.object ((k, .broken) :: ms).reverse) stack
  | [], .ended v => v
  | .array vs :: stack, .ended v => enclose (.array (.broken :: v :: vs).reverse) stack
  | .object ms k :: stack, .ended v => enclose (.object (([], .broken) :: (k, v) :: ms).reverse) stack

/-- Reads on until the outermost value is complete, and gives the tokens behind it. -/
def build : List Opened → State → List Token → Json × List Token
  | [], .ended v, ts => (v, ts)
  | stack, state, [] => (breakOff stack state, [])
  | stack, state, t :: ts =>
    match advance stack state t with
    | some (stack, state) => build stack state ts
    | none => (breakOff stack state, [])

/-- The document at the start of a text, and the tokens behind it. -/
def readFront (cs : List Char) : Json × List Token := build [] .value (tokens cs)

end TraceAnomaly.Json
