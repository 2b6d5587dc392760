import Mathlib.Tactic.FinCases
import TraceAnomaly.Json.Text

/-! Strings read back. The spelling of a character never ends a string and is never the start of another
escape, so reading takes the spellings apart again, one character at a time. -/

namespace TraceAnomaly.Json

/-- The characters that have no spelling of their own are those from the blank on. -/
theorem escapeChar_cases (c : Char) :
    (∃ e ∈ ['"', '\\', 'b', 'f', 'n', 'r', 't'], escapeChar c = ['\\', e] ∧ shortEscape e = c) ∨
    (c < ' ' ∧ escapeChar c = ['\\', 'u', '0', '0', hexDigit (c.toNat / 16), hexDigit (c.toNat % 16)]) ∨
    (¬ c < ' ' ∧ c ≠ '"' ∧ c ≠ '\\' ∧ escapeChar c = [c]) := by
  unfold escapeChar
  split
  · exact .inl ⟨'"', by decide, rfl, rfl⟩
  · exact .inl ⟨'\\', by decide, rfl, rfl⟩
  · exact .inl ⟨'b', by decide, rfl, rfl⟩
  · exact .inl ⟨'f', by decide, rfl, rfl⟩
  · exact .inl ⟨'n', by decide, rfl, rfl⟩
  · exact .inl ⟨'r', by decide, rfl, rfl⟩
  · exact .inl ⟨'t', by decide, rfl, rfl⟩
  · rename_i hquote hbackslash _ _ _ _ _
    split
    · rename_i hlt
      exact .inr (.inl ⟨hlt, rfl⟩)
    · rename_i hge
      exact .inr (.inr ⟨hge, hquote, hbackslash, rfl⟩)

/-- Two hexadecimal digits hold a control character. -/
theorem control_char {c : Char} (h : c < ' ') :
    isHexDigit (hexDigit (c.toNat / 16)) ∧ isHexDigit (hexDigit (c.toNat % 16)) ∧
      hexQuad '0' '0' (hexDigit (c.toNat / 16)) (hexDigit (c.toNat % 16)) = c.toNat := by
  have hlt : c.toNat < 32 := h
  generalize c.toNat = n at hlt
  revert n
  decide

theorem scanString_escapeChar (c : Char) (rest : List Char) :
    scanString (escapeChar c ++ rest) = ahead (escapeChar c) (scanString rest) := by
  rcases escapeChar_cases c with ⟨e, he, heq, -⟩ | ⟨hlt, heq⟩ | ⟨hge, hquote, hbackslash, heq⟩
  · rw [heq]
    fin_cases he <;> rfl
  · obtain ⟨h1, h2, -⟩ := control_char hlt
    rw [heq]
    have h0 : isHexDigit '0' := by decide
    simp [scanString, h0, h1, h2]
  · rw [heq, List.singleton_append, scanString] <;> simp_all

/-- A string ends at its closing quote. -/
theorem scanString_escape (cs rest : List Char) :
    scanString (escape cs ++ '"' :: rest) = some (escape cs, rest) := by
  induction cs with
  | nil => rfl
  | cons c cs ih =>
    rw [escape, List.flatMap_cons, List.append_assoc, scanString_escapeChar, ← escape, ih]
    rfl

theorem unescape_escapeChar (c : Char) (rest : List Char) :
    unescape (escapeChar c ++ rest) = (unescape rest).map (c :: ·) := by
  rcases escapeChar_cases c with ⟨e, he, heq, hback⟩ | ⟨hlt, heq⟩ | ⟨-, hquote, hbackslash, heq⟩
  · rw [heq, ← hback]
    fin_cases he <;> rfl
  · obtain ⟨-, -, hquad⟩ := control_char hlt
    have hlt' : c.toNat < 32 := hlt
    have hhigh : isHighSurrogate c.toNat = false := by simp [isHighSurrogate]; omega
    have hlow : isLowSurrogate c.toNat = false := by simp [isLowSurrogate]; omega
    rw [heq, unescape.eq_def]
    simp [hquad, hhigh, hlow]
  · rw [heq, List.singleton_append, unescape] <;> simp_all

/-- The spelling of a text spells that text. -/
theorem unescape_escape (cs : List Char) : unescape (escape cs) = some cs := by
  induction cs with
  | nil => rfl
  | cons c cs ih => rw [escape, List.flatMap_cons, unescape_escapeChar, ← escape, ih, Option.map_some]

end TraceAnomaly.Json
