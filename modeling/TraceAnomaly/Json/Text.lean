import TraceAnomaly.Json.Token

/-! How characters are spelled between the quotes of a JSON string. Writing escapes the quote, the
backslash and the control characters; reading takes every escape and pairs surrogates. -/
namespace TraceAnomaly.Json

/-- The lower-case hexadecimal digit of a number below sixteen. -/
def hexDigit (n : Nat) : Char := Nat.digitChar n

def hexValue (c : Char) : Nat :=
  if Decimal.isDigit c then c.toNat - '0'.toNat
  else if 'a' ≤ c then c.toNat - 'a'.toNat + 10
  else c.toNat - 'A'.toNat + 10

/-- The number of four hexadecimal digits. -/
def hexQuad (a b c d : Char) : Nat :=
  ((hexValue a * 16 + hexValue b) * 16 + hexValue c) * 16 + hexValue d

def isHighSurrogate (n : Nat) : Bool := 0xd800 ≤ n && n < 0xdc00

def isLowSurrogate (n : Nat) : Bool := 0xdc00 ≤ n && n < 0xe000

/-- The character of a surrogate pair. -/
def joinSurrogates (high low : Nat) : Char :=
  Char.ofNat (0x10000 + (high - 0xd800) * 0x400 + (low - 0xdc00))

/-- The character behind a backslash, other than `u`. -/
def shortEscape : Char → Char
  | 'b' => '\x08'
  | 'f' => '\x0c'
  | 'n' => '\n'
  | 'r' => '\r'
  | 't' => '\t'
  | c => c

/-- The characters that a string's text spells. A surrogate without its partner spells none. -/
def unescape : List Char → Option (List Char)
  | [] => some []
  | '\\' :: 'u' :: a :: b :: c :: d :: cs =>
    let n := hexQuad a b c d
    if isHighSurrogate n then
      match cs with
      | '\\' :: 'u' :: e :: f :: g :: h :: rest =>
        if isLowSurrogate (hexQuad e f g h) then
          (unescape rest).map (joinSurrogates n (hexQuad e f g h) :: ·)
        else none
      | _ => none
    else if isLowSurrogate n then none
    else (unescape cs).map (Char.ofNat n :: ·)
  | '\\' :: e :: cs => (unescape cs).map (shortEscape e :: ·)
  | c :: cs => (unescape cs).map (c :: ·)

/-- The spelling of one character. -/
def escapeChar (c : Char) : List Char :=
  match c with
  | '"' => ['\\', '"']
  | '\\' => ['\\', '\\']
  | '\x08' => ['\\', 'b']
  | '\x0c' => ['\\', 'f']
  | '\n' => ['\\', 'n']
  | '\r' => ['\\', 'r']
  | '\t' => ['\\', 't']
  | _ =>
    if c < ' ' then ['\\', 'u', '0', '0', hexDigit (c.toNat / 16), hexDigit (c.toNat % 16)] else [c]

/-- The text that spells the given characters. -/
def escape (cs : List Char) : List Char := cs.flatMap escapeChar

end TraceAnomaly.Json
