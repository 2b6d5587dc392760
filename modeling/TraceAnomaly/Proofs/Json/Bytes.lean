import Mathlib.Data.List.TakeWhile
import TraceAnomaly.Json.Bytes
import TraceAnomaly.Proofs.Decimal.Digits
import TraceAnomaly.Proofs.Text.Encoding

/-! A document reads the same from a text and from its bytes. The signs of JSON are characters of ASCII, which
are the bytes that encode them, and what encodes another character is none of them. So every scanner takes from
the bytes what encodes that which it takes from the text. -/

namespace TraceAnomaly.Json

open Text (encode splitWhile dropText)

/-- The bytes of a text, each as a character. -/
def latin (cs : List Char) : List Char := (encode cs).map Char.ofUInt8

/-! ### Characters -/

theorem latin_nil : latin [] = [] := by
  rw [latin, Text.encode_nil]
  rfl

theorem toUInt8_ofUInt8 (b : UInt8) : (Char.ofUInt8 b).toUInt8 = b := UInt8.toUInt8_toUInt32 b

theorem ofUInt8_toUInt8 {c : Char} (h : c.toNat < 128) : Char.ofUInt8 c.toUInt8 = c :=
  Char.ext (UInt32.toNat_inj.1 (Nat.mod_eq_of_lt (h.trans (by decide))))

variable {c : Char} {cs : List Char} {p : Char → Bool}

theorem latin_cons (h : c.toNat < 128) (cs : List Char) : latin (c :: cs) = c :: latin cs := by
  rw [latin, Text.encode_cons, Text.utf8EncodeChar_of_lt h, List.singleton_append, List.map_cons,
    ofUInt8_toUInt8 h, latin]

theorem latin_append (h : ∀ c ∈ cs, c.toNat < 128) (ds : List Char) : latin (cs ++ ds) = cs ++ latin ds := by
  induction cs with
  | nil => rfl
  | cons c cs ih =>
    obtain ⟨hc, hcs⟩ := List.forall_mem_cons.1 h
    rw [List.cons_append, latin_cons hc, ih hcs, List.cons_append]

/-- Another character is encoded by bytes that stand for none of ASCII. -/
theorem exists_latin_cons (h : 128 ≤ c.toNat) :
    ∃ ds, ds ≠ [] ∧ (∀ d ∈ ds, 128 ≤ d.toNat) ∧ ∀ cs, latin (c :: cs) = ds ++ latin cs := by
  refine ⟨(String.utf8EncodeChar c).map Char.ofUInt8, ?_, ?_, fun cs => ?_⟩
  · simp [Text.utf8EncodeChar_ne_nil c]
  · rw [List.forall_mem_map]
    exact Text.le_of_mem_utf8EncodeChar h
  · rw [latin, Text.encode_cons, List.map_append, latin]

/-- What is decoded from the bytes of a text is the text. -/
theorem textOfBytes_latin (t : List Char) : textOfBytes ((latin t).map Char.toUInt8) = t := by
  have hbytes : (latin t).map Char.toUInt8 = encode t := by
    rw [latin, List.map_map]
    exact List.map_id'' toUInt8_ofUInt8 _
  rw [hbytes, textOfBytes, Text.decode_encode]

/-! ### Numerals and names -/

/-- The characters of a class are characters of ASCII. -/
def IsAscii (p : Char → Bool) : Prop := ∀ c, p c → c.toNat < 128

theorem IsAscii.eq_false (hp : IsAscii p) {d : Char} (hd : 128 ≤ d.toNat) : p d = false :=
  Bool.eq_false_iff.2 fun h => absurd (hp d h) (Nat.not_lt_of_le hd)

theorem IsAscii.of_mem {signs : List Char} (hsigns : ∀ c ∈ signs, c.toNat < 128) : IsAscii (decide <| · ∈ signs) :=
  fun c hc => hsigns c (of_decide_eq_true hc)

theorem isAscii_isDigit : IsAscii Decimal.isDigit := fun c hc => by
  have hle : '0' ≤ c ∧ c ≤ '9' := by simpa [Decimal.isDigit] using hc
  exact Nat.lt_of_le_of_lt hle.2 (by decide)

theorem isAscii_isHexDigit : IsAscii isHexDigit := fun c hc => by
  simp only [isHexDigit, Bool.or_eq_true, Bool.and_eq_true, decide_eq_true_eq] at hc
  rcases hc with (hc | ⟨-, hle⟩) | ⟨-, hle⟩
  · exact isAscii_isDigit c hc
  · exact Nat.lt_of_le_of_lt hle (by decide)
  · exact Nat.lt_of_le_of_lt hle (by decide)

theorem isAscii_isBlank : IsAscii isBlank := fun c hc => by
  simp only [isBlank, Bool.or_eq_true, beq_iff_eq] at hc
  rcases hc with ((rfl | rfl) | rfl) | rfl
  all_goals decide

/-- What has been taken is of ASCII, what follows is left in bytes. -/
def leaveLatin : List Char × List Char → List Char × List Char := Prod.map id latin

/-- A scanner that goes on at characters of ASCII only does the same on bytes as on text, if it does so where it
goes on. What it says where it stops is `idle`. -/
theorem apply_latin {β : Type} (f idle : List Char → β) (lift : β → β)
    (hlift : ∀ cs, lift (idle cs) = idle (latin cs)) (hp : IsAscii p) (hnil : f [] = idle [])
    (hstop : ∀ d ds, p d = false → f (d :: ds) = idle (d :: ds))
    (hgo : ∀ c rest, p c → f (latin rest) = lift (f rest) → f (c :: latin rest) = lift (f (c :: rest)))
    (cs : List Char) : f (latin cs) = lift (f cs) := by
  induction cs with
  | nil => rw [latin_nil, hnil, hlift, latin_nil]
  | cons c rest ih =>
    cases hc : p c with
    | true => rw [latin_cons (hp c hc), hgo c rest hc ih]
    | false =>
      obtain ⟨d, ds, hd, heq⟩ : ∃ d ds, p d = false ∧ latin (c :: rest) = d :: ds := by
        rcases Nat.lt_or_ge c.toNat 128 with hlt | hge
        · exact ⟨c, _, hc, latin_cons hlt rest⟩
        · obtain ⟨ds, hne, hds, heq⟩ := exists_latin_cons hge
          obtain ⟨d, ds, rfl⟩ := List.exists_cons_of_ne_nil hne
          exact ⟨d, _, hp.eq_false (hds d (List.mem_cons_self ..)), heq rest⟩
      rw [heq, hstop d ds hd, hstop c rest hc, hlift, heq]

theorem splitWhile_latin (hp : IsAscii p) (cs : List Char) :
    splitWhile p (latin cs) = leaveLatin (splitWhile p cs) := by
  refine apply_latin (splitWhile p) ([], ·) leaveLatin (fun _ => rfl) hp rfl (fun d ds hd => ?_) (fun c rest hc ih => ?_) cs
  · simp [splitWhile, hd]
  · have hgo : ∀ ds, splitWhile p (c :: ds) = (c :: (splitWhile p ds).1, (splitWhile p ds).2) := fun ds => by
      simp [splitWhile, hc]
    rw [hgo, hgo, ih]
    rfl

theorem dropText_latin {w : List Char} (hw : ∀ c ∈ w, c.toNat < 128) (cs : List Char) :
    dropText w (latin cs) = (dropText w cs).map latin := by
  induction w generalizing cs with
  | nil => rfl
  | cons a w ih =>
    obtain ⟨ha, hw⟩ := List.forall_mem_cons.1 hw
    have hsign : IsAscii (a = ·) := fun c hc => of_decide_eq_true hc ▸ ha
    refine apply_latin (dropText (a :: w)) (fun _ => none) (Option.map latin) (fun _ => rfl) hsign rfl
      (fun d ds hd => ?_) (fun c rest hc _ => ?_) cs
    · exact if_neg (of_decide_eq_false hd)
    · rw [dropText, dropText, if_pos (of_decide_eq_true hc), if_pos (of_decide_eq_true hc), ih hw]

section Number

variable (cs : List Char)

theorem scanSign_latin {signs : List Char} (hsigns : ∀ c ∈ signs, c.toNat < 128) :
    scanSign signs (latin cs) = leaveLatin (scanSign signs cs) := by
  refine apply_latin (scanSign signs) ([], ·) leaveLatin (fun _ => rfl) (.of_mem hsigns) rfl (fun d ds hd => ?_)
    (fun c rest hc _ => ?_) cs
  · exact if_neg (of_decide_eq_false hd)
  · rw [scanSign, scanSign, if_pos (of_decide_eq_true hc), if_pos (of_decide_eq_true hc)]
    rfl

theorem scanDigits_latin : scanDigits (latin cs) = (scanDigits cs).map leaveLatin := by
  rw [scanDigits, scanDigits, splitWhile_latin isAscii_isDigit]
  rcases splitWhile Decimal.isDigit cs with ⟨_ | ⟨d, ds⟩, r⟩ <;> rfl

theorem scanWhole_latin : scanWhole (latin cs) = (scanWhole cs).map leaveLatin := by
  rw [scanWhole, scanWhole, scanDigits_latin]
  rcases scanDigits cs with _ | ⟨_ | ⟨d, _ | ⟨e, ds⟩⟩, r⟩
  · rfl
  · rfl
  all_goals
    by_cases hd : d = '0'
    · subst hd
      rfl
    · simp [leaveLatin, hd]

theorem ahead_leaveLatin (front : List Char) (scanned : Option (List Char × List Char)) :
    ahead front (scanned.map leaveLatin) = (ahead front scanned).map leaveLatin := by
  cases scanned <;> rfl

theorem scanFraction_latin : scanFraction (latin cs) = (scanFraction cs).map leaveLatin := by
  have hsign : IsAscii (· = '.') := fun c hc => of_decide_eq_true hc ▸ by decide
  refine apply_latin scanFraction (fun ds => some ([], ds)) (Option.map leaveLatin) (fun _ => rfl) hsign rfl
    (fun d ds hd => ?_) (fun c rest hc _ => ?_) cs
  · simp [scanFraction, of_decide_eq_false hd]
  · obtain rfl := of_decide_eq_true hc
    rw [scanFraction, scanFraction, scanDigits_latin, ahead_leaveLatin]

theorem scanPower_latin : scanPower (latin cs) = (scanPower cs).map leaveLatin := by
  have hsign : IsAscii fun c => c == 'e' || c == 'E' := fun c hc => by
    rcases (by simpa using hc : c = 'e' ∨ c = 'E') with rfl | rfl <;> decide
  refine apply_latin scanPower (fun ds => some ([], ds)) (Option.map leaveLatin) (fun _ => rfl) hsign rfl
    (fun d ds hd => ?_) (fun c rest hc _ => ?_) cs
  · rw [scanPower, if_neg (Bool.eq_false_iff.1 hd)]
  · have hsigns : scanSign ['+', '-'] (latin rest) = leaveLatin (scanSign ['+', '-'] rest) :=
      scanSign_latin rest (by simp)
    rw [scanPower, scanPower, if_pos hc, if_pos hc, hsigns, ← ahead_leaveLatin, ← scanDigits_latin]
    rfl

theorem scanNumber_latin : scanNumber (latin cs) = (scanNumber cs).map leaveLatin := by
  rw [scanNumber, scanNumber, scanSign_latin cs (by simp)]
  rcases scanSign ['-'] cs with ⟨sign, cs⟩
  simp only [leaveLatin, Prod.map_apply, id, scanWhole_latin]
  rcases scanWhole cs with _ | ⟨whole, cs⟩
  · rfl
  simp only [Option.map_some, Option.bind_some, leaveLatin, Prod.map_apply, id, scanFraction_latin]
  rcases scanFraction cs with _ | ⟨fraction, cs⟩
  · rfl
  simp only [Option.map_some, Option.bind_some, leaveLatin, Prod.map_apply, id, scanPower_latin]
  rcases scanPower cs with _ | ⟨power, cs⟩ <;> rfl

end Number

/-! ### Strings -/

/-- What has been taken is in bytes too. -/
def allLatin : List Char × List Char → List Char × List Char := Prod.map latin latin

theorem ahead_allLatin {front : List Char} (h : ∀ c ∈ front, c.toNat < 128) (scanned : Option (List Char × List Char)) :
    ahead front (scanned.map allLatin) = (ahead front scanned).map allLatin := by
  cases scanned with
  | none => rfl
  | some p => simp [ahead, allLatin, latin_append h]

/-- Behind `\u` there must be four hexadecimal digits. -/
theorem scanString_u (cs : List Char) : scanString ('\\' :: 'u' :: cs) =
    if 4 ≤ (cs.takeWhile isHexDigit).length then ahead ('\\' :: 'u' :: cs.take 4) (scanString (cs.drop 4)) else none := by
  rcases cs with _ | ⟨a, _ | ⟨b, _ | ⟨c, _ | ⟨d, cs⟩⟩⟩⟩
  case cons.cons.cons.cons =>
    cases ha : isHexDigit a <;> cases hb : isHexDigit b <;> cases hc : isHexDigit c <;> cases hd : isHexDigit d <;>
      simp [scanString, ha, hb, hc, hd]
  all_goals
    rw [if_neg (Nat.not_le_of_lt ((List.takeWhile_prefix isHexDigit).length_le.trans_lt (by simp)))]
    simp [scanString]

theorem scanString_escaped {e : Char} (h : e ≠ 'u') (cs : List Char) : scanString ('\\' :: e :: cs) =
    if e ∈ ['"', '\\', '/', 'b', 'f', 'n', 'r', 't'] then ahead ['\\', e] (scanString cs) else none := by
  rw [scanString]
  exact fun _ _ _ _ _ hu => absurd hu h

theorem scanString_plain (hquote : c ≠ '"') (hbackslash : c ≠ '\\') (cs : List Char) : scanString (c :: cs) =
    if c < ' ' then none else ahead [c] (scanString cs) := by
  rw [scanString] <;> simp_all

theorem not_control_of_wide (hc : 128 ≤ c.toNat) : ¬ c < ' ' := fun hlt =>
  have hlow : c.toNat < ' '.toNat := hlt
  Nat.not_le_of_lt (Nat.lt_trans hlow (by decide)) hc

theorem ne_of_wide {d : Char} (hc : 128 ≤ c.toNat) (hd : d.toNat < 128) : c ≠ d := fun h =>
  absurd hd (h ▸ Nat.not_lt_of_le hc)

theorem scanString_wide {ds : List Char} (hds : ∀ d ∈ ds, 128 ≤ d.toNat) (cs : List Char) :
    scanString (ds ++ cs) = ahead ds (scanString cs) := by
  induction ds with
  | nil =>
    rw [List.nil_append]
    cases scanString cs <;> rfl
  | cons d ds ih =>
    obtain ⟨hd, hds⟩ := List.forall_mem_cons.1 hds
    rw [List.cons_append, scanString_plain (ne_of_wide hd (by decide)) (ne_of_wide hd (by decide)),
      if_neg (not_control_of_wide hd), ih hds]
    cases scanString cs <;> rfl

/-- The escapes of one character. -/
theorem scanString_escaped_latin {e : Char} (he : e ≠ 'u') {cs : List Char}
    (ih : scanString (latin cs) = (scanString cs).map allLatin) :
    scanString ('\\' :: latin (e :: cs)) = (scanString ('\\' :: e :: cs)).map allLatin := by
  have hescapes : ∀ f ∈ ['"', '\\', '/', 'b', 'f', 'n', 'r', 't'], f.toNat < 128 := by simp
  rcases Nat.lt_or_ge e.toNat 128 with hlt | hge
  · rw [latin_cons hlt, scanString_escaped he, scanString_escaped he, ih]
    split
    · exact ahead_allLatin (by simp [hlt]) _
    · rfl
  · obtain ⟨ds, hne, hds, heq⟩ := exists_latin_cons hge
    obtain ⟨d, ds, rfl⟩ := List.exists_cons_of_ne_nil hne
    have hd := hds d (List.mem_cons_self ..)
    rw [heq, List.cons_append, scanString_escaped (ne_of_wide hd (by decide)), scanString_escaped he,
      if_neg fun h => absurd (hescapes d h) (Nat.not_lt_of_le hd),
      if_neg fun h => absurd (hescapes e h) (Nat.not_lt_of_le hge)]
    rfl

theorem scanString_plain_latin (hquote : c ≠ '"') (hbackslash : c ≠ '\\') {cs : List Char}
    (ih : scanString (latin cs) = (scanString cs).map allLatin) :
    scanString (latin (c :: cs)) = (scanString (c :: cs)).map allLatin := by
  rw [scanString_plain hquote hbackslash]
  rcases Nat.lt_or_ge c.toNat 128 with hlt | hge
  · rw [latin_cons hlt, scanString_plain hquote hbackslash, ih]
    split
    · rfl
    · exact ahead_allLatin (by simpa using hlt) _
  · obtain ⟨ds, -, hds, heq⟩ := exists_latin_cons hge
    rw [heq, scanString_wide hds, ih, if_neg (not_control_of_wide hge)]
    cases scanString cs with
    | none => rfl
    | some p => simp [ahead, allLatin, heq]

theorem scanString_u_latin {cs : List Char} (ih : ∀ rest, rest.length ≤ cs.length →
    scanString (latin rest) = (scanString rest).map allLatin) :
    scanString ('\\' :: latin ('u' :: cs)) = (scanString ('\\' :: 'u' :: cs)).map allLatin := by
  have hfront : (latin cs).takeWhile isHexDigit = cs.takeWhile isHexDigit :=
    congrArg Prod.fst (splitWhile_latin isAscii_isHexDigit cs)
  rw [latin_cons (by decide), scanString_u, scanString_u, hfront]
  split
  · rename_i hfour
    have hdigits : ∀ c ∈ cs.take 4, c.toNat < 128 := by
      obtain ⟨rest, hrest⟩ := List.takeWhile_prefix isHexDigit (l := cs)
      rw [← hrest, List.take_append_of_le_length hfour]
      exact fun c hc => isAscii_isHexDigit c (List.mem_takeWhile_imp (List.mem_of_mem_take hc))
    have hlength : (cs.take 4).length = 4 :=
      List.length_take_of_le (hfour.trans (List.takeWhile_prefix isHexDigit).length_le)
    have hlatin : latin cs = cs.take 4 ++ latin (cs.drop 4) := by
      rw [← latin_append hdigits, List.take_append_drop]
    rw [hlatin, List.take_left' hlength, List.drop_left' hlength, ih _ (by simp)]
    exact ahead_allLatin (by simpa using hdigits) _
  · rfl

theorem scanString_latin (cs : List Char) : scanString (latin cs) = (scanString cs).map allLatin := by
  -- an escape takes several characters at once
  generalize hn : cs.length = n
  induction n using Nat.strongRecOn generalizing cs with
  | ind n ih =>
    subst hn
    rcases cs with _ | ⟨c, cs⟩
    · rw [latin_nil]
      rfl
    by_cases hquote : c = '"'
    · subst hquote
      rw [latin_cons (by decide), scanString, scanString, Option.map_some, allLatin, Prod.map, latin_nil]
    by_cases hbackslash : c = '\\'
    · subst hbackslash
      rw [latin_cons (by decide)]
      rcases cs with _ | ⟨e, cs⟩
      · rw [latin_nil]
        rfl
      by_cases hu : e = 'u'
      · subst hu
        exact scanString_u_latin fun rest hrest => ih _ (by simp only [List.length_cons]; omega) rest rfl
      · exact scanString_escaped_latin hu (ih _ (by simp only [List.length_cons]; omega) _ rfl)
    · exact scanString_plain_latin hquote hbackslash (ih _ (by simp) _ rfl)

/-! ### Tokens -/

/-- A token of bytes, and what follows it, are those of the text. -/
def Matches (read plain : Token × List Char) : Prop := read.1.decoded = plain.1 ∧ read.2 = latin plain.2

theorem matches_orBroken {make : List Char → Token} (hmake : ∀ t, (make t).decoded = make t)
    (scanned : Option (List Char × List Char)) :
    Matches (orBroken make (scanned.map leaveLatin)) (orBroken make scanned) := by
  cases scanned with
  | none => exact ⟨rfl, latin_nil.symm⟩
  | some p => exact ⟨hmake p.1, rfl⟩

theorem matches_name {w : List Char} (hw : ∀ c ∈ w, c.toNat < 128) {t : Token} (ht : t.decoded = t)
    (cs : List Char) : Matches (orBroken (fun _ => t) ((dropText w (latin cs)).map ([], ·)))
      (orBroken (fun _ => t) ((dropText w cs).map ([], ·))) := by
  rw [dropText_latin hw]
  cases dropText w cs with
  | none => exact ⟨rfl, latin_nil.symm⟩
  | some r => exact ⟨ht, rfl⟩

theorem matches_string (cs : List Char) :
    Matches (orBroken .string (scanString (latin cs))) (orBroken .string (scanString cs)) := by
  rw [scanString_latin]
  cases scanString cs with
  | none => exact ⟨rfl, latin_nil.symm⟩
  | some p => exact ⟨congrArg Token.string (textOfBytes_latin p.1), rfl⟩

theorem matches_tokenAt (h : c.toNat < 128) (cs : List Char) : Matches (tokenAt c (latin cs)) (tokenAt c cs) := by
  unfold tokenAt
  split
  iterate 6 exact ⟨rfl, rfl⟩
  · exact matches_string cs
  · exact matches_name (by simp) rfl cs
  · exact matches_name (by simp) rfl cs
  · exact matches_name (by simp) rfl cs
  · split
    · rw [← latin_cons h, scanNumber_latin]
      exact matches_orBroken (fun _ => rfl) _
    · exact ⟨rfl, latin_nil.symm⟩

theorem tokens_wide (h : 128 ≤ c.toNat) (cs : List Char) : tokens (c :: cs) = [.broken] := by
  have hat : tokenAt c cs = (.broken, []) := by
    have hminus : c ≠ '-' := ne_of_wide h (by decide)
    unfold tokenAt
    split
    iterate 10 exact absurd h (by decide)
    simp [hminus, isAscii_isDigit.eq_false h]
  rw [tokens, isAscii_isBlank.eq_false h, hat]
  simp [tokens]

theorem tokensOfBytes_encode (cs : List Char) : tokensOfBytes (encode cs) = tokens cs := by
  rw [tokensOfBytes, ← latin]
  fun_induction tokens cs with
  | case1 => simp [latin_nil, tokens]
  | case2 c cs hblank ih => rw [latin_cons (isAscii_isBlank c hblank), tokens, if_pos hblank, ih]
  | case3 c cs hblank ih =>
    rcases Nat.lt_or_ge c.toNat 128 with hlt | hge
    · obtain ⟨hfirst, hrest⟩ := matches_tokenAt hlt cs
      rw [latin_cons hlt, tokens, if_neg hblank, List.map_cons, hfirst, hrest, ih]
    · have hplain := tokens_wide hge cs
      rw [tokens, if_neg hblank] at hplain
      obtain ⟨ds, hne, hds, heq⟩ := exists_latin_cons hge
      obtain ⟨d, ds, rfl⟩ := List.exists_cons_of_ne_nil hne
      rw [hplain, heq, List.cons_append, tokens_wide (hds d (List.mem_cons_self ..))]
      rfl

/-- The document at the start of a text is that at the start of its bytes. -/
theorem ofBytes_encode (cs : List Char) : ofBytes (encode cs) = (readFront cs).1 := by
  rw [ofBytes, tokensOfBytes_encode, readFront]

end TraceAnomaly.Json
