import TraceAnomaly.Json.Number
import TraceAnomaly.Proofs.Decimal.Shortest

/-! Numerals read back. Every numeral that is written has digits before a point, perhaps digits behind it and
perhaps a power of ten; scanning takes exactly these parts off the front of a text, and the number that they
spell is the one that was written. -/

namespace TraceAnomaly.Json

open Text (splitWhile)
open Decimal (digits ofDigits isDigit Numeral)

/-! ### The parts of a numeral -/

/-- Digits behind a point, if there are any. -/
def pointed (fraction : List Char) : List Char := if fraction = [] then [] else '.' :: fraction

def powered : Option ℤ → List Char
  | none => []
  | some p => 'e' :: (if p < 0 then '-' else '+') :: digits p.natAbs

/-- The text of digits before and behind a point and of a power of ten. -/
def spell (whole fraction : List Char) (power : Option ℤ) : List Char :=
  whole ++ (pointed fraction ++ powered power)

/-- Digits that can stand before a point and behind it. -/
structure Spells (whole fraction : List Char) : Prop where
  whole_digits : ∀ c ∈ whole, isDigit c
  fraction_digits : ∀ c ∈ fraction, isDigit c
  /-- A zero alone, or digits that do not start with zero. -/
  whole_head : whole = ['0'] ∨ ∃ c cs, whole = c :: cs ∧ c ≠ '0'

/-- A text that does not continue a numeral. -/
def Stops (rest : List Char) : Prop := ∀ c ∈ rest.head?, isDigit c = false ∧ c ≠ '.' ∧ c ≠ 'e' ∧ c ≠ 'E'

theorem Stops.nil : Stops [] := fun _ h => nomatch h

theorem Spells.ne_nil {whole fraction : List Char} (h : Spells whole fraction) : whole ≠ [] := by
  rcases h.whole_head with rfl | ⟨c, cs, rfl, -⟩ <;> exact List.cons_ne_nil _ _

theorem scanDigits_append {ds rest : List Char} (hds : ∀ c ∈ ds, isDigit c) (hne : ds ≠ [])
    (hrest : ∀ c ∈ rest.head?, isDigit c = false) : scanDigits (ds ++ rest) = some (ds, rest) := by
  rw [scanDigits, Decimal.splitWhile_append hds hrest]
  cases ds with
  | nil => exact absurd rfl hne
  | cons c cs => rfl

/-- What may stand behind digits. -/
theorem head_powered_append (power : Option ℤ) {rest : List Char} (hrest : Stops rest) :
    ∀ c ∈ (powered power ++ rest).head?, isDigit c = false ∧ c ≠ '.' := by
  cases power with
  | none => exact fun c hc => ⟨(hrest c hc).1, (hrest c hc).2.1⟩
  | some p =>
    intro c hc
    obtain rfl : 'e' = c := by simpa [powered] using hc
    exact ⟨by decide, by decide⟩

theorem head_pointed_append (fraction : List Char) {tail : List Char} (htail : ∀ c ∈ tail.head?, isDigit c = false) :
    ∀ c ∈ (pointed fraction ++ tail).head?, isDigit c = false := by
  rw [pointed]
  split
  · exact htail
  · intro c hc
    obtain rfl : '.' = c := by simpa using hc
    decide

/-! ### Scanning -/

theorem scanWhole_append {whole fraction tail : List Char} (h : Spells whole fraction)
    (htail : ∀ c ∈ tail.head?, isDigit c = false) : scanWhole (whole ++ tail) = some (whole, tail) := by
  have hdigits := scanDigits_append h.whole_digits h.ne_nil htail
  rcases h.whole_head with rfl | ⟨c, cs, rfl, hc⟩
  · rw [scanWhole, hdigits]
    rfl
  · rw [scanWhole, hdigits]
    split
    · rename_i heq
      cases heq
      exact absurd rfl hc
    · rfl

theorem scanFraction_append {whole fraction tail : List Char} (h : Spells whole fraction)
    (htail : ∀ c ∈ tail.head?, isDigit c = false ∧ c ≠ '.') :
    scanFraction (pointed fraction ++ tail) = some (pointed fraction, tail) := by
  rw [pointed]
  split
  · cases tail with
    | nil => rfl
    | cons c cs =>
      have hc := (htail c rfl).2
      simp [scanFraction, hc]
  · rename_i hne
    rw [List.cons_append, scanFraction, scanDigits_append h.fraction_digits hne fun c hc => (htail c hc).1]
    rfl

theorem scanPower_append (power : Option ℤ) {rest : List Char} (hrest : Stops rest) :
    scanPower (powered power ++ rest) = some (powered power, rest) := by
  cases power with
  | none =>
    cases rest with
    | nil => rfl
    | cons c cs =>
      obtain ⟨-, -, he, hE⟩ := hrest c rfl
      simp [powered, scanPower, he, hE]
  | some p =>
    have hdigits := scanDigits_append (fun c => Decimal.isDigit_of_mem_digits) (Decimal.digits_ne_nil p.natAbs)
      fun c hc => (hrest c hc).1
    rw [powered]
    split <;> simp [scanPower, scanSign, hdigits, ahead]

/-- A numeral is taken off the front of a text as it was written. -/
theorem scanNumber_spell (negative : Bool) {whole fraction : List Char} (h : Spells whole fraction)
    (power : Option ℤ) {rest : List Char} (hrest : Stops rest) :
    scanNumber (Decimal.minus negative (spell whole fraction power) ++ rest) =
      some (Decimal.minus negative (spell whole fraction power), rest) := by
  have hsign : scanSign ['-'] (Decimal.minus negative (spell whole fraction power) ++ rest) =
      (if negative then ['-'] else [], spell whole fraction power ++ rest) := by
    cases negative with
    | true => rfl
    | false =>
      obtain ⟨c, cs, rfl⟩ := List.exists_cons_of_ne_nil h.ne_nil
      have hc : c ≠ '-' := Decimal.ne_of_isDigit (h.whole_digits c (List.mem_cons_self ..)) rfl
      simp [Decimal.minus, spell, scanSign, hc]
  have htail := head_powered_append power hrest
  have hwhole := scanWhole_append h (head_pointed_append fraction fun c hc => (htail c hc).1)
  rw [scanNumber, hsign]
  simp only [spell, List.append_assoc, hwhole, Option.bind_some, scanFraction_append h htail,
    scanPower_append power hrest]
  cases negative <;> simp [Decimal.minus]

/-! ### Reading -/

theorem readInteger_power (p : ℤ) : readInteger ((if p < 0 then '-' else '+') :: digits p.natAbs) = p := by
  split
  · simp only [readInteger, Decimal.ofDigits_digits]
    omega
  · simp only [readInteger, Decimal.ofDigits_digits]
    omega

/-- The digits of a numeral in one row, and the power of ten of the last of them. -/
theorem readMagnitude_spell {whole fraction : List Char} (h : Spells whole fraction) (power : Option ℤ) :
    readMagnitude (spell whole fraction power) =
      ⟨ofDigits (whole ++ fraction), power.getD 0 - fraction.length⟩ := by
  have htail := head_powered_append power Stops.nil
  rw [List.append_nil] at htail
  have hwhole := Decimal.splitWhile_append h.whole_digits
    (head_pointed_append fraction fun c hc => (htail c hc).1)
  have hpower : readInteger ((powered power).drop 1) = power.getD 0 := by
    cases power with
    | none => rfl
    | some p => exact readInteger_power p
  rw [readMagnitude, spell, hwhole]
  by_cases hf : fraction = []
  · subst hf
    rw [List.append_nil, List.length_nil, Nat.cast_zero, Int.sub_zero, ← hpower]
    cases power with
    | none => simp [pointed, powered]
    | some p => simp [pointed, powered]
  · have hfraction := Decimal.splitWhile_append h.fraction_digits fun c hc => (htail c hc).1
    simp only [pointed, if_neg hf, List.cons_append, hfraction, hpower]

/-! ### Writing -/

theorem spells_digits {n : ℕ} (hn : 0 < n) {fraction : List Char} (h : ∀ c ∈ fraction, isDigit c) :
    Spells (digits n) fraction :=
  ⟨fun _ => Decimal.isDigit_of_mem_digits, h, .inr (Decimal.exists_digits_eq_cons hn)⟩

/-- A text spells a numeral if its parts are digits that have the value of the numeral in one row. -/
def SpellsOut (text : List Char) (n : Numeral) : Prop :=
  ∃ whole fraction power, text = spell whole fraction power ∧ Spells whole fraction ∧
    0 < ofDigits (whole ++ fraction) ∧
    Numeral.value ⟨ofDigits (whole ++ fraction), power.getD 0 - fraction.length⟩ = n.value ∧
    (power.getD 0 - fraction.length = n.power ∨ power.getD 0 - fraction.length = -1)

/-- Whole numbers get a zero behind the point. -/
theorem spellsOut_whole {c : ℕ} (hc : 0 < c) (k : ℕ) :
    SpellsOut (digits (c * Nat.pow 10 k) ++ ['.', '0']) ⟨c, k⟩ := by
  have hpos : 0 < c * Nat.pow 10 k := Nat.mul_pos hc (Nat.pow_pos (by decide))
  have hrow : ofDigits (digits (c * Nat.pow 10 k) ++ ['0']) = 10 * (c * 10 ^ k) := by
    rw [Decimal.ofDigits_append, Decimal.ofDigits_digits]
    rfl
  refine ⟨digits (c * Nat.pow 10 k), ['0'], none, rfl, spells_digits hpos (List.forall_mem_singleton.2 rfl), ?_, ?_,
    .inr rfl⟩
  · rw [hrow]
    exact Nat.mul_pos (by decide) hpos
  · rw [Numeral.value, Numeral.value, hrow]
    push_cast
    norm_num
    ring

/-- The digits before the point are one zero, or they are the first digits of the number. -/
theorem spellsOut_withPoint {c : ℕ} (hc : 0 < c) (k : ℕ) :
    SpellsOut (Decimal.withPoint (k + 1) c) ⟨c, Int.negSucc k⟩ := by
  have hwhole := Decimal.take_padded hc (k + 1)
  have hlength := Decimal.length_padded (k + 1 + 1) c
  have hrow := Decimal.ofDigits_padded (k + 1 + 1) c
  have hdigits : ∀ d ∈ Decimal.padded (k + 1 + 1) c, isDigit d := fun _ => Decimal.isDigit_of_mem_padded
  rw [Decimal.withPoint, if_neg (Nat.succ_ne_zero k)]
  generalize Decimal.padded (k + 1 + 1) c = ds at *
  have hsplit := List.take_append_drop (ds.length - (k + 1)) ds
  have hfraction : (ds.drop (ds.length - (k + 1))).length = k + 1 := by
    rw [List.length_drop]
    omega
  have hne : ds.drop (ds.length - (k + 1)) ≠ [] := List.ne_nil_of_length_pos (by omega)
  have hpower : (0 : ℤ) - (k + 1 : ℕ) = Int.negSucc k := by simp [Int.negSucc_eq]
  refine ⟨ds.take (ds.length - (k + 1)), ds.drop (ds.length - (k + 1)), none, ?_, ⟨?_, ?_, hwhole⟩, ?_, ?_, ?_⟩
  · rw [spell, pointed, if_neg hne, powered, List.append_nil]
  · exact fun d hd => hdigits d (List.mem_of_mem_take hd)
  · exact fun d hd => hdigits d (List.mem_of_mem_drop hd)
  · rwa [hsplit, hrow]
  · rw [hsplit, hrow, hfraction]
    exact congrArg (fun p => Numeral.value ⟨c, p⟩) hpower
  · rw [hfraction]
    exact .inl hpower

/-- One digit before the point and a power of ten. -/
theorem spellsOut_scientific {n : Numeral} (hn : 0 < n.coefficient) :
    SpellsOut (pointedDigits (digits n.coefficient) ++
      'e' :: (if n.leading < 0 then '-' else '+') :: digits n.leading.natAbs) n := by
  obtain ⟨d, rest, hd, h0⟩ := Decimal.exists_digits_eq_cons hn
  have hdigits : ∀ c ∈ d :: rest, isDigit c := fun c hc => Decimal.isDigit_of_mem_digits (hd ▸ hc)
  have hrow : ofDigits ([d] ++ rest) = n.coefficient := by
    rw [List.singleton_append, ← hd, Decimal.ofDigits_digits]
  have hpower : n.leading - rest.length = n.power := by
    rw [Numeral.leading, hd, List.length_cons]
    simp
  refine ⟨[d], rest, some n.leading, ?_, ⟨?_, ?_, .inr ⟨d, [], rfl, h0⟩⟩, by rwa [hrow], ?_, .inl hpower⟩
  · rw [hd, spell, pointed]
    cases rest <;> simp [pointedDigits, powered]
  · simpa using hdigits d (List.mem_cons_self ..)
  · exact fun c hc => hdigits c (List.mem_cons_of_mem d hc)
  · rw [hrow]
    exact congrArg (fun p => Numeral.value ⟨n.coefficient, p⟩) hpower

theorem spellsOut_numeralText {n : Numeral} (hn : 0 < n.coefficient) : SpellsOut (numeralText n) n := by
  rw [numeralText]
  split
  · obtain ⟨c, power⟩ := n
    cases power with
    | ofNat k =>
      rw [if_pos (show 0 ≤ Numeral.power ⟨c, Int.ofNat k⟩ from Int.natCast_nonneg k)]
      exact spellsOut_whole hn k
    | negSucc k =>
      rw [if_neg (show ¬ 0 ≤ Numeral.power ⟨c, Int.negSucc k⟩ from by simp)]
      exact spellsOut_withPoint hn k
  · exact spellsOut_scientific hn

/-! ### Numbers -/

theorem readReal_spell (negative : Bool) {whole fraction : List Char} (h : Spells whole fraction)
    (power : Option ℤ) {x : Float}
    (hx : Numeral.toFloat ⟨ofDigits (whole ++ fraction), power.getD 0 - fraction.length⟩ = x)
    (hfinite : x.isInf = false) :
    readReal (Decimal.minus negative (spell whole fraction power)) = some (Binary64.signed negative x) := by
  have hread : (readMagnitude (spell whole fraction power)).toFloat = x := by
    rw [readMagnitude_spell h, hx]
  cases negative with
  | true =>
    rw [Decimal.minus, if_pos rfl, readReal]
    simp only [hread, hfinite]
    rfl
  | false =>
    obtain ⟨c, cs, rfl⟩ := List.exists_cons_of_ne_nil h.ne_nil
    have hc : c ≠ '-' := Decimal.ne_of_isDigit (h.whole_digits c (List.mem_cons_self ..)) rfl
    have hhead : ∀ ds, spell (c :: cs) fraction power ≠ '-' :: ds := fun ds heq => by
      rw [spell, List.cons_append] at heq
      exact hc (List.cons_eq_cons.1 heq).1
    rw [Decimal.minus, if_neg Bool.false_ne_true, readReal]
    · simp only [hread, hfinite]
      rfl
    · exact hhead

section Real

variable {x : Float} {v : Binary64.Exact}

/-- The two zeros. -/
theorem signed_zero {s : Float.Model.UnpackedFloat.Sign} (hx : x.toModel.unpack = .zero s) (p : ℤ) :
    Binary64.signed (Binary64.isNegative s) (Binary64.ofDecimal 0 p) = x := by
  have hzero : (Binary64.ofDecimal 0 p).toModel.unpack = .zero .positive :=
    Binary64.unpack_pack (.zero .positive)
  refine congrArg Float.ofModel (Binary64.unpack_injective (Eq.trans ?_ hx.symm))
  cases s with
  | positive => exact hzero
  | negative =>
    change (Float.Model.pack (Binary64.ofDecimal 0 p).toModel.unpack.neg).unpack = _
    rw [hzero]
    exact Binary64.unpack_pack (.zero .negative)

/-- What is written of a finite number has the parts of a numeral and reads back. -/
theorem exists_writeReal_eq (h : Binary64.kind x = .finite v) :
    ∃ whole fraction power, writeReal x v = Decimal.minus v.negative (spell whole fraction power) ∧
      Spells whole fraction ∧
      readReal (Decimal.minus v.negative (spell whole fraction power)) = some x := by
  rw [Binary64.kind] at h
  cases hx : x.toModel.unpack with
  | notANumber => simp [hx] at h
  | infinity s => simp [hx] at h
  | zero s =>
    rw [hx] at h
    cases h
    have hspells : Spells ['0'] ['0'] :=
      ⟨List.forall_mem_singleton.2 rfl, List.forall_mem_singleton.2 rfl, .inl rfl⟩
    have htext : numeralText ⟨0, 0⟩ = spell ['0'] ['0'] none := by decide
    refine ⟨['0'], ['0'], none, ?_, hspells, ?_⟩
    · rw [writeReal, Decimal.shortest, if_pos rfl, htext]
    have hzero : (Binary64.ofDecimal 0 (-1)).isInf = false := by decide
    rw [readReal_spell _ hspells none rfl hzero]
    exact congrArg some (signed_zero hx (-1))
  | finite s m e hm =>
    rw [hx] at h
    cases h
    obtain ⟨hback, hpos, hlow, hhigh⟩ := Decimal.shortest_spec hx (v := ⟨Binary64.isNegative s, m, e⟩) ⟨rfl, rfl⟩
    obtain ⟨whole, fraction, power, htext, hspells, hdigits, hvalue, hpower⟩ := spellsOut_numeralText hpos
    refine ⟨whole, fraction, power, by rw [writeReal, htext], hspells, ?_⟩
    have hfloat := (Numeral.toFloat_congr hdigits hpos (by dsimp only; omega) (by dsimp only; omega)
      (by omega) (by omega) hvalue).trans hback
    have hfinite : x.abs.isInf = false := by
      change x.abs.toModel.unpack.isInf = false
      rw [Binary64.unpack_abs hx]
      rfl
    rw [readReal_spell _ hspells power hfloat hfinite]
    exact congrArg some (Binary64.signed_abs hx)

/-- Every finite number reads back as it was written. -/
theorem readReal_writeReal (h : Binary64.kind x = .finite v) : readReal (writeReal x v) = some x := by
  obtain ⟨whole, fraction, power, htext, -, hback⟩ := exists_writeReal_eq h
  rw [htext, hback]

end Real

end TraceAnomaly.Json
