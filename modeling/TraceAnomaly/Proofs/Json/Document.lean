import TraceAnomaly.Json.Codec
import TraceAnomaly.Proofs.Json.Escape
import TraceAnomaly.Proofs.Json.Numeral

/-! Documents read back. The text of a document is cut into its tokens again, and the machine that takes them
ends with the document, whatever containers are open around it and whatever follows. -/

namespace TraceAnomaly.Json

/-! ### Documents that can be written -/

/-- A text that stands for itself between quotes. -/
def IsSpelling (text : List Char) : Prop := ∀ rest, scanString (text ++ '"' :: rest) = some (text, rest)

/-- A text that is taken for a number of its own in front of whatever does not continue it. -/
structure IsNumeral (text : List Char) : Prop where
  scans : ∀ rest, Stops rest → scanNumber (text ++ rest) = some (text, rest)
  head : ∃ c cs, text = c :: cs ∧ (c = '-' ∨ Decimal.isDigit c)

theorem isSpelling_escape (cs : List Char) : IsSpelling (escape cs) := scanString_escape cs

theorem isNumeral_spell (negative : Bool) {whole fraction : List Char} (h : Spells whole fraction)
    (power : Option ℤ) : IsNumeral (Decimal.minus negative (spell whole fraction power)) where
  scans _ hrest := scanNumber_spell negative h power hrest
  head := by
    cases negative with
    | true => exact ⟨'-', _, rfl, .inl rfl⟩
    | false =>
      obtain ⟨c, cs, rfl⟩ := List.exists_cons_of_ne_nil h.ne_nil
      exact ⟨c, _, rfl, .inr (h.whole_digits c (List.mem_cons_self ..))⟩

/-- The documents that are whole and whose numbers and strings are spelled as such. -/
inductive Writable : Json → Prop
  | null : Writable .null
  | bool (b : Bool) : Writable (.bool b)
  | number {n : List Char} (h : IsNumeral n) : Writable (.number n)
  | string {t : List Char} (h : IsSpelling t) : Writable (.string t)
  | array {items : List Json} (h : ∀ v ∈ items, Writable v) : Writable (.array items)
  | object {members : List (List Char × Json)} (hkeys : ∀ m ∈ members, IsSpelling m.1)
      (hvalues : ∀ m ∈ members, Writable m.2) : Writable (.object members)

/-! ### The tokens of a document -/

mutual

def tokensOf : Json → List Token
  | .null => [.null]
  | .bool b => [.bool b]
  | .number n => [.number n]
  | .string t => [.string t]
  | .array items => .arrayOpen :: tokensOfItems items ++ [.arrayClose]
  | .object members => .objectOpen :: tokensOfMembers members ++ [.objectClose]
  | .broken => [.broken]

def tokensOfItems : List Json → List Token
  | [] => []
  | [v] => tokensOf v
  | v :: w :: rest => tokensOf v ++ .comma :: tokensOfItems (w :: rest)

def tokensOfMembers : List (List Char × Json) → List Token
  | [] => []
  | [(k, v)] => .string k :: .colon :: tokensOf v
  | (k, v) :: m :: rest => .string k :: .colon :: tokensOf v ++ .comma :: tokensOfMembers (m :: rest)

end

theorem tokens_cons {c : Char} (h : isBlank c = false) (cs : List Char) :
    tokens (c :: cs) = (tokenAt c cs).1 :: tokens (tokenAt c cs).2 := by
  rw [tokens, h]
  rfl

theorem tokens_string {t : List Char} (h : IsSpelling t) (rest : List Char) :
    tokens (quoted t ++ rest) = .string t :: tokens rest := by
  have hat : tokenAt '"' (t ++ '"' :: rest) = (.string t, rest) := by
    change orBroken .string (scanString (t ++ '"' :: rest)) = _
    rw [h rest]
    rfl
  rw [show quoted t ++ rest = '"' :: (t ++ '"' :: rest) by simp [quoted], tokens_cons rfl, hat]

theorem tokenAt_number {c : Char} (h : c = '-' ∨ Decimal.isDigit c) (cs : List Char) :
    isBlank c = false ∧ tokenAt c cs = orBroken .number (scanNumber (c :: cs)) := by
  rcases h with rfl | hc
  · exact ⟨rfl, rfl⟩
  · have hne : ∀ d, Decimal.isDigit d = false → c ≠ d := fun _ => Decimal.ne_of_isDigit hc
    constructor
    · simp [isBlank, hne ' ' rfl, hne '\t' rfl, hne '\n' rfl, hne '\r' rfl]
    · unfold tokenAt
      split
      all_goals first | exact absurd rfl (hne _ rfl) | simp [hc]

theorem tokens_number {n rest : List Char} (h : IsNumeral n) (hrest : Stops rest) :
    tokens (n ++ rest) = .number n :: tokens rest := by
  obtain ⟨c, cs, rfl, hc⟩ := h.head
  obtain ⟨hblank, hat⟩ := tokenAt_number hc (cs ++ rest)
  have hscan := h.scans rest hrest
  rw [List.cons_append] at hscan
  rw [List.cons_append, tokens_cons hblank, hat, hscan]
  rfl

theorem Stops.cons {c : Char} (h : c ∈ [',', ']', '\x7d', ':']) (rest : List Char) : Stops (c :: rest) := by
  intro d hd
  obtain rfl : c = d := by simpa using hd
  simp only [List.mem_cons, List.not_mem_nil, or_false] at h
  rcases h with rfl | rfl | rfl | rfl
  all_goals exact ⟨by decide, by decide, by decide, by decide⟩

section Punctuation

variable (cs : List Char)

theorem tokens_comma : tokens (',' :: cs) = .comma :: tokens cs := tokens_cons rfl cs

theorem tokens_colon : tokens (':' :: cs) = .colon :: tokens cs := tokens_cons rfl cs

theorem tokens_arrayOpen : tokens ('[' :: cs) = .arrayOpen :: tokens cs := tokens_cons rfl cs

theorem tokens_arrayClose : tokens (']' :: cs) = .arrayClose :: tokens cs := tokens_cons rfl cs

theorem tokens_objectOpen : tokens ('\x7b' :: cs) = .objectOpen :: tokens cs := tokens_cons rfl cs

theorem tokens_objectClose : tokens ('\x7d' :: cs) = .objectClose :: tokens cs := tokens_cons rfl cs

end Punctuation

/-- The text of a document is cut into its tokens, whatever follows it. -/
def CutsApart (v : Json) : Prop :=
  ∀ rest, Stops rest → tokens (v.compact ++ rest) = tokensOf v ++ tokens rest

theorem tokens_compactItems : ∀ {items : List Json}, (∀ v ∈ items, CutsApart v) → ∀ rest,
    tokens (compactItems items ++ ']' :: rest) = tokensOfItems items ++ .arrayClose :: tokens rest
  | [], _, rest => tokens_arrayClose rest
  | [v], h, rest => by
    rw [compactItems, tokensOfItems, h v (List.mem_cons_self ..) _ (Stops.cons (by decide) rest),
      tokens_arrayClose]
  | v :: w :: more, h, rest => by
    have hmore := tokens_compactItems (fun u hu => h u (List.mem_cons_of_mem v hu)) rest
    rw [compactItems, tokensOfItems, List.append_assoc, List.cons_append,
      h v (List.mem_cons_self ..) _ (Stops.cons (by decide) _), tokens_comma, hmore, List.append_assoc,
      List.cons_append]

theorem tokens_member {k : List Char} (hk : IsSpelling k) {v : Json} (hv : CutsApart v) {rest : List Char}
    (hrest : Stops rest) :
    tokens (quoted k ++ ':' :: (v.compact ++ rest)) = .string k :: .colon :: (tokensOf v ++ tokens rest) := by
  rw [tokens_string hk, tokens_colon, hv rest hrest]

theorem tokens_compactMembers : ∀ {members : List (List Char × Json)}, (∀ m ∈ members, IsSpelling m.1) →
    (∀ m ∈ members, CutsApart m.2) → ∀ rest,
    tokens (compactMembers members ++ '\x7d' :: rest) = tokensOfMembers members ++ .objectClose :: tokens rest
  | [], _, _, rest => tokens_objectClose rest
  | [(k, v)], hk, hv, rest => by
    rw [compactMembers, tokensOfMembers, List.append_assoc, List.cons_append,
      tokens_member (hk (k, v) (List.mem_cons_self ..)) (hv (k, v) (List.mem_cons_self ..))
        (Stops.cons (by decide) rest), tokens_objectClose]
    rfl
  | (k, v) :: m :: more, hk, hv, rest => by
    have hmore := tokens_compactMembers (fun u hu => hk u (List.mem_cons_of_mem (k, v) hu))
      (fun u hu => hv u (List.mem_cons_of_mem (k, v) hu)) rest
    rw [compactMembers, tokensOfMembers]
    simp only [List.append_assoc, List.cons_append]
    rw [tokens_member (hk (k, v) (List.mem_cons_self ..)) (hv (k, v) (List.mem_cons_self ..))
      (Stops.cons (by decide) _), tokens_comma, hmore]

theorem Writable.cutsApart {j : Json} (h : Writable j) : CutsApart j := by
  induction h with
  | null =>
    intro rest _
    rw [show compact .null ++ rest = 'n' :: ("ull".toList ++ rest) from rfl, tokens_cons rfl]
    rfl
  | bool b =>
    intro rest _
    cases b with
    | true =>
      rw [show compact (.bool true) ++ rest = 't' :: ("rue".toList ++ rest) from rfl, tokens_cons rfl]
      rfl
    | false =>
      rw [show compact (.bool false) ++ rest = 'f' :: ("alse".toList ++ rest) from rfl, tokens_cons rfl]
      rfl
  | number hn => exact fun rest hrest => tokens_number hn hrest
  | string ht => exact fun rest _ => tokens_string ht rest
  | array _ ih =>
    intro rest _
    simp only [compact, tokensOf, List.cons_append, List.append_assoc, List.nil_append, tokens_arrayOpen,
      tokens_compactItems ih]
  | object hkeys _ ih =>
    intro rest _
    simp only [compact, tokensOf, List.cons_append, List.append_assoc, List.nil_append, tokens_objectOpen,
      tokens_compactMembers hkeys ih]

/-! ### From tokens back to the document -/

/-- The machine takes the tokens of a value and has read that value, whatever is open around it. -/
def TakenWhole (v : Json) : Prop :=
  ∀ stack ts, build stack .value (tokensOf v ++ ts) = build stack (.ended v) ts

theorem build_cons {stack stack' : List Opened} {state state' : State} {t : Token}
    (h : advance stack state t = some (stack', state')) (ts : List Token) :
    build stack state (t :: ts) = build stack' state' ts := by
  rw [build, h]
  rintro v rfl rfl
  cases t <;> cases h

/-- An array that has just opened takes the start of an item as any array does. -/
theorem build_arrayStart {t : Token} (h : t ≠ .arrayClose) (stack : List Opened) (ts : List Token) :
    build stack .arrayStart (t :: ts) = build (.array [] :: stack) .value (t :: ts) := by
  have hadvance : advance stack .arrayStart t = advance (.array [] :: stack) .value t := by
    cases t <;> first | rfl | exact absurd rfl h
  rw [build, build, hadvance]
  · rfl
  · rintro v h
    cases h
  · rintro v - h
    cases h

/-- An object that has just opened takes a key as it does behind a comma. -/
theorem build_objectStart (k : List Char) (stack : List Opened) (ts : List Token) :
    build stack .objectStart (.string k :: ts) = build stack (.key []) (.string k :: ts) := by
  rw [build_cons rfl, build_cons rfl]

theorem exists_tokensOf_eq_cons (v : Json) : ∃ t ts, tokensOf v = t :: ts ∧ t ≠ .arrayClose := by
  cases v <;> exact ⟨_, _, rfl, by simp⟩

theorem exists_tokensOfItems_eq_cons (v : Json) (items : List Json) :
    ∃ t ts, tokensOfItems (v :: items) = t :: ts ∧ t ≠ .arrayClose := by
  obtain ⟨t, ts, ht, hne⟩ := exists_tokensOf_eq_cons v
  cases items with
  | nil => exact ⟨t, ts, ht, hne⟩
  | cons w more => exact ⟨t, _, by rw [tokensOfItems, ht, List.cons_append], hne⟩

theorem exists_tokensOfMembers_eq_cons (m : List Char × Json) (members : List (List Char × Json)) :
    ∃ ts, tokensOfMembers (m :: members) = .string m.1 :: ts := by
  cases members <;> exact ⟨_, rfl⟩

theorem build_items : ∀ {v : Json} {items : List Json}, (∀ u ∈ v :: items, TakenWhole u) →
    ∀ (before : List Json) stack ts,
    build (.array before :: stack) .value (tokensOfItems (v :: items) ++ .arrayClose :: ts) =
      build stack (.ended (.array (before.reverse ++ v :: items))) ts
  | v, [], h, before, stack, ts => by
    rw [tokensOfItems, h v (List.mem_cons_self ..), build_cons rfl, List.reverse_cons]
  | v, w :: more, h, before, stack, ts => by
    have hmore := build_items (fun u hu => h u (List.mem_cons_of_mem v hu)) (v :: before) stack ts
    rw [tokensOfItems, List.append_assoc, List.cons_append, h v (List.mem_cons_self ..), build_cons rfl, hmore,
      List.reverse_cons, List.append_assoc]
    rfl

theorem build_members : ∀ {m : List Char × Json} {members : List (List Char × Json)},
    (∀ u ∈ m :: members, TakenWhole u.2) → ∀ (before : List (List Char × Json)) stack ts,
    build stack (.key before) (tokensOfMembers (m :: members) ++ .objectClose :: ts) =
      build stack (.ended (.object (before.reverse ++ m :: members))) ts
  | (k, v), [], h, before, stack, ts => by
    have hv : TakenWhole v := h (k, v) (List.mem_cons_self ..)
    rw [tokensOfMembers, List.cons_append, List.cons_append, build_cons rfl, build_cons rfl, hv, build_cons rfl,
      List.reverse_cons]
  | (k, v), w :: more, h, before, stack, ts => by
    have hv : TakenWhole v := h (k, v) (List.mem_cons_self ..)
    have hmore := build_members (fun u hu => h u (List.mem_cons_of_mem (k, v) hu)) ((k, v) :: before) stack ts
    rw [tokensOfMembers]
    simp only [List.append_assoc, List.cons_append]
    rw [build_cons rfl, build_cons rfl, hv, build_cons rfl, hmore, List.reverse_cons, List.append_assoc]
    rfl

theorem Writable.takenWhole {j : Json} (h : Writable j) : TakenWhole j := by
  induction h with
  | null => exact fun stack ts => build_cons rfl ts
  | bool b => exact fun stack ts => build_cons rfl ts
  | number hn => exact fun stack ts => build_cons rfl ts
  | string ht => exact fun stack ts => build_cons rfl ts
  | @array items _ ih =>
    intro stack ts
    rw [tokensOf, List.append_assoc, List.cons_append, build_cons rfl]
    cases items with
    | nil => exact build_cons rfl ts
    | cons v more =>
      obtain ⟨t, us, ht, hne⟩ := exists_tokensOfItems_eq_cons v more
      have hitems := build_items ih [] stack ts
      rw [ht] at hitems ⊢
      exact (build_arrayStart hne stack _).trans hitems
  | @object members hkeys _ ih =>
    intro stack ts
    rw [tokensOf, List.append_assoc, List.cons_append, build_cons rfl]
    cases members with
    | nil => exact build_cons rfl ts
    | cons m more =>
      obtain ⟨us, ht⟩ := exists_tokensOfMembers_eq_cons m more
      have hmembers := build_members ih [] stack ts
      rw [ht] at hmembers ⊢
      exact (build_objectStart m.1 stack _).trans hmembers

/-- A document reads back from the front of its text, and what follows it is left. -/
theorem readFront_compact {j : Json} (h : Writable j) {rest : List Char} (hrest : Stops rest) :
    readFront (j.compact ++ rest) = (j, tokens rest) := by
  rw [readFront, h.cutsApart rest hrest, h.takenWhole]
  simp [build]

end TraceAnomaly.Json
