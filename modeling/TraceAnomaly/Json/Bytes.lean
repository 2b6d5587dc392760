import TraceAnomaly.Json.Document
import TraceAnomaly.Text.Lines

/-! Reading a document from bytes. The signs of JSON are single bytes, so the tokens are found before
anything is known to be text. What stands between quotes is decoded afterwards, so that bytes which
are no UTF-8 do harm only where somebody looks at the string that they stand in. -/
namespace TraceAnomaly.Json

/-- The characters of a string's text, from its bytes. If they are no UTF-8, the text ends behind its
first ASCII characters in half of a surrogate pair, which spells nothing. -/
def textOfBytes (bytes : List UInt8) : List Char :=
  match Text.decode bytes with
  | some cs => cs
  | none => (bytes.takeWhile (· < 128)).map Char.ofUInt8 ++ "\\ud800".toList

/-- A token of bytes, each of them a character so far, as a token of text. -/
def Token.decoded : Token → Token
  | .string t => .string (textOfBytes (t.map Char.toUInt8))
  | t => t

def tokensOfBytes (bytes : List UInt8) : List Token :=
  (tokens (bytes.map Char.ofUInt8)).map Token.decoded

/-- The document at the start of bytes. -/
def ofBytes (bytes : List UInt8) : Json := (build [] .value (tokensOfBytes bytes)).1

end TraceAnomaly.Json
