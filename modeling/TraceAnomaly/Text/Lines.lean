/-! Texts as lists of lines. A line ends with a line feed; the last line may lack it. -/
namespace TraceAnomaly.Text

/-- Splits behind every element that ends a line, and drops those elements. -/
def splitLines {α : Type} (ends : α → Bool) (xs : List α) : List (List α) :=
  xs.foldr (fun x lines =>
    if ends x then [] :: lines
    else
      match lines with
      | [] => [[x]]
      | line :: rest => (x :: line) :: rest) []

/-- A line as characters, unless its bytes are no UTF-8. -/
abbrev Line := Option (List Char)

/-- The characters that bytes encode in UTF-8. -/
def decode (bytes : List UInt8) : Option (List Char) :=
  (String.fromUTF8? ⟨bytes.toArray⟩).map String.toList

/-- The bytes that encode characters in UTF-8. -/
def encode (cs : List Char) : List UInt8 := (String.ofList cs).toUTF8.toList

/-- Where bytes are expected, a text stands for its encoding. -/
instance coeText : Coe (List Char) (List UInt8) := ⟨encode⟩

def linesOfText (cs : List Char) : List Line := (splitLines (· == '\n') cs).map some

def linesOfBytes (bytes : List UInt8) : List Line := (splitLines (· == 10) bytes).map decode

end TraceAnomaly.Text
