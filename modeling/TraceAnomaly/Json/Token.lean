import TraceAnomaly.Decimal.Basic
import TraceAnomaly.Text.Front

/-! The tokens of JSON text. Reading tokens never fails: where the text has no token, the last one
is `broken`. -/
namespace TraceAnomaly.Json

open Text (splitWhile dropText length_splitWhile length_dropText)

inductive Token where
  | arrayOpen
  | arrayClose
  | objectOpen
  | objectClose
  | comma
  | colon
  | null
  | bool (value : Bool)
  | number (numeral : List Char)
  | string (text : List Char)
  | broken
deriving DecidableEq, Repr

/-- Space, tab, line feed and carriage return. -/
def isBlank (c : Char) : Bool := c == ' ' || c == '\t' || c == '\n' || c == '\r'

def isHexDigit (c : Char) : Bool :=
  Decimal.isDigit c || ('a' ≤ c && c ≤ 'f') || ('A' ≤ c && c ≤ 'F')

/-- Puts text in front of what a scanner has taken. -/
def ahead (front : List Char) (scanned : Option (List Char × List Char)) :
    Option (List Char × List Char) :=
  scanned.map fun (t, r) => (front ++ t, r)

theorem ahead_eq_some {front t r : List Char} {o : Option (List Char × List Char)}
    (h : ahead front o = some (t, r)) : ∃ u, o = some (u, r) := by
  obtain ⟨⟨u, r'⟩, ho, he⟩ := Option.map_eq_some_iff.1 h
  obtain ⟨-, rfl⟩ : front ++ u = t ∧ r' = r := by simpa using he
  exact ⟨u, ho⟩

/-- The text of a string up to its closing quote, and what follows it. A control character must be
escaped and an escape must be one of the known ones. -/
def scanString : List Char → Option (List Char × List Char)
  | [] => none
  | '"' :: cs => some ([], cs)
  | '\\' :: 'u' :: a :: b :: c :: d :: cs =>
    if isHexDigit a && isHexDigit b && isHexDigit c && isHexDigit d then
      ahead ['\\', 'u', a, b, c, d] (scanString cs)
    else none
  | '\\' :: e :: cs =>
    if e ∈ ['"', '\\', '/', 'b', 'f', 'n', 'r', 't'] then
      ahead ['\\', e] (scanString cs)
    else none
  | c :: cs =>
    if c == '\\' || c < ' ' then none else ahead [c] (scanString cs)

/-- A sign of the given characters, if there is one. -/
def scanSign (signs : List Char) : List Char → List Char × List Char
  | [] => ([], [])
  | c :: cs => if c ∈ signs then ([c], cs) else ([], c :: cs)

/-- At least one digit. -/
def scanDigits (cs : List Char) : Option (List Char × List Char) :=
  match splitWhile Decimal.isDigit cs with
  | ([], _) => none
  | (ds, r) => some (ds, r)

/-- The digits before the point: a zero alone, or digits that do not start with zero. -/
def scanWhole (cs : List Char) : Option (List Char × List Char) :=
  match scanDigits cs with
  | some ('0' :: _ :: _, _) => none
  | r => r

/-- A point with digits behind it, if there is a point. -/
def scanFraction : List Char → Option (List Char × List Char)
  | '.' :: cs => ahead ['.'] (scanDigits cs)
  | cs => some ([], cs)

/-- A power of ten, if there is one. -/
def scanPower : List Char → Option (List Char × List Char)
  | c :: cs =>
    if c == 'e' || c == 'E' then
      ahead (c :: (scanSign ['+', '-'] cs).1) (scanDigits (scanSign ['+', '-'] cs).2)
    else some ([], c :: cs)
  | [] => some ([], [])

/-- A numeral and what follows it. -/
def scanNumber (cs : List Char) : Option (List Char × List Char) :=
  let (sign, cs) := scanSign ['-'] cs
  (scanWhole cs).bind fun (whole, cs) =>
  (scanFraction cs).bind fun (fraction, cs) =>
  (scanPower cs).bind fun (power, cs) =>
  some (sign ++ whole ++ fraction ++ power, cs)

/-- The token of a scanner's result; a scanner without one leaves nothing to read. -/
def orBroken (make : List Char → Token) : Option (List Char × List Char) → Token × List Char
  | some (t, r) => (make t, r)
  | none => (.broken, [])

/-- The token that starts at a character which is not blank. -/
def tokenAt (c : Char) (cs : List Char) : Token × List Char :=
  match c with
  | '[' => (.arrayOpen, cs)
  | ']' => (.arrayClose, cs)
  | '{' => (.objectOpen, cs)
  | '}' => (.objectClose, cs)
  | ',' => (.comma, cs)
  | ':' => (.colon, cs)
  | '"' => orBroken .string (scanString cs)
  | 'n' => orBroken (fun _ => .null) ((dropText "ull".toList cs).map ([], ·))
  | 't' => orBroken (fun _ => .bool true) ((dropText "rue".toList cs).map ([], ·))
  | 'f' => orBroken (fun _ => .bool false) ((dropText "alse".toList cs).map ([], ·))
  | _ =>
    if c == '-' || Decimal.isDigit c then orBroken .number (scanNumber (c :: cs))
    else (.broken, [])

section Length

variable {cs t r : List Char}

theorem length_scanString (h : scanString cs = some (t, r)) : r.length < cs.length := by
  fun_induction scanString cs generalizing t with
  | case1 => simp at h
  | case2 => simp_all
  | case3 a b c d cs _ ih =>
    obtain ⟨u, hu⟩ := ahead_eq_some h
    have := ih hu
    simp
    omega
  | case4 => simp at h
  | case5 e cs _ _ ih =>
    obtain ⟨u, hu⟩ := ahead_eq_some h
    have := ih hu
    simp
    omega
  | case6 => simp at h
  | case7 => simp at h
  | case8 c cs _ _ _ _ ih =>
    obtain ⟨u, hu⟩ := ahead_eq_some h
    have := ih hu
    simp
    omega

theorem length_scanSign (signs cs : List Char) : (scanSign signs cs).2.length ≤ cs.length := by
  cases cs <;> grind [scanSign]

theorem length_scanDigits (h : scanDigits cs = some (t, r)) : r.length < cs.length := by
  have := length_splitWhile Decimal.isDigit cs
  unfold scanDigits at h
  split at h
  · simp at h
  · rename_i ds r' hne hs
    obtain ⟨rfl, rfl⟩ : ds = t ∧ r' = r := by simpa using h
    rw [hs] at this
    have : ds ≠ [] := hne
    have := List.length_pos_iff.2 this
    simp_all
    omega

theorem length_scanWhole (h : scanWhole cs = some (t, r)) : r.length < cs.length := by
  unfold scanWhole at h
  split at h
  · simp at h
  · exact length_scanDigits h

theorem length_scanFraction (h : scanFraction cs = some (t, r)) : r.length ≤ cs.length := by
  unfold scanFraction at h
  split at h
  · obtain ⟨u, hu⟩ := ahead_eq_some h
    have := length_scanDigits hu
    simp
    omega
  · simp_all

theorem length_scanPower (h : scanPower cs = some (t, r)) : r.length ≤ cs.length := by
  unfold scanPower at h
  split at h
  · rename_i c cs'
    split at h
    · obtain ⟨u, hu⟩ := ahead_eq_some h
      have := length_scanDigits hu
      have := length_scanSign ['+', '-'] cs'
      simp
      omega
    · simp_all
  · simp_all

theorem length_scanNumber (h : scanNumber cs = some (t, r)) : r.length < cs.length := by
  unfold scanNumber at h
  simp only [Option.bind_eq_some_iff, Prod.exists] at h
  obtain ⟨w, r₁, hw, f, r₂, hf, p, r₃, hp, he⟩ := h
  have := length_scanSign ['-'] cs
  have := length_scanWhole hw
  have := length_scanFraction hf
  have := length_scanPower hp
  grind

theorem length_tokenAt (c : Char) (cs : List Char) : (tokenAt c cs).2.length ≤ cs.length := by
  have word (w : List Char) (make : List Char → Token) :
      (orBroken make ((dropText w cs).map ([], ·))).2.length ≤ cs.length := by
    cases h : dropText w cs with
    | none => simp [orBroken]
    | some r => simpa [orBroken] using length_dropText h
  unfold tokenAt
  split <;> try exact Nat.le_refl _
  · cases h : scanString cs with
    | none => simp [orBroken]
    | some p => have := length_scanString (t := p.1) (r := p.2) h; simp [orBroken]; omega
  · exact word _ _
  · exact word _ _
  · exact word _ _
  · split
    · cases h : scanNumber (c :: cs) with
      | none => simp [orBroken]
      | some p =>
        have := length_scanNumber (t := p.1) (r := p.2) h
        simp [orBroken] at this ⊢
        omega
    · simp

end Length

/-- The tokens of a text. -/
def tokens : List Char → List Token
  | [] => []
  | c :: cs =>
    if isBlank c then tokens cs
    else (tokenAt c cs).1 :: tokens (tokenAt c cs).2
termination_by cs => cs.length
decreasing_by
  · simp
  · have := length_tokenAt c cs
    simp
    omega

end TraceAnomaly.Json
