import TraceAnomaly.Text.Printable

/-! Quoted texts in messages. Whatever does not show on its own is written as an escape. -/
namespace TraceAnomaly.Text

/-- The number of a character in hexadecimal digits and braces. -/
def codeEscape (c : Char) : List Char := "\\u\x7b".toList ++ Nat.toDigits 16 c.toNat ++ ['\x7d']

/-- How a character is written between quotes. -/
def quotedChar (c : Char) : List Char :=
  match c with
  | '\x00' => ['\\', '0']
  | '\t' => ['\\', 't']
  | '\r' => ['\\', 'r']
  | '\n' => ['\\', 'n']
  | '"' => ['\\', '"']
  | '\\' => ['\\', '\\']
  | _ => if isPrintable c && !isExtender c then [c] else codeEscape c

def quoted (s : String) : String := String.ofList ('"' :: s.toList.flatMap quotedChar ++ ['"'])

end TraceAnomaly.Text
