import TraceAnomaly.Proofs.Json.Document

/-! Documents that are written over several lines. The breaks and blanks between their tokens are passed over, so
such a text has the same tokens as the one without blanks, and the same document reads back from it. -/

namespace TraceAnomaly.Json

theorem tokens_blank {c : Char} (h : isBlank c) (cs : List Char) : tokens (c :: cs) = tokens cs := by
  rw [tokens, if_pos h]

theorem tokens_blanks {ws : List Char} (h : ∀ c ∈ ws, isBlank c) (cs : List Char) :
    tokens (ws ++ cs) = tokens cs := by
  induction ws with
  | nil => rfl
  | cons c ws ih =>
    obtain ⟨hc, hws⟩ := List.forall_mem_cons.1 h
    rw [List.cons_append, tokens_blank hc, ih hws]

theorem isBlank_of_mem_lineBreak {level : ℕ} : ∀ c ∈ lineBreak level, isBlank c := by
  rintro c (_ | ⟨_, hc⟩)
  · rfl
  · rw [List.eq_of_mem_replicate hc]
    rfl

theorem tokens_lineBreak (level : ℕ) (cs : List Char) : tokens (lineBreak level ++ cs) = tokens cs :=
  tokens_blanks isBlank_of_mem_lineBreak cs

/-- No number goes on behind a line break. -/
theorem Stops.lineBreak (level : ℕ) (rest : List Char) : Stops (Json.lineBreak level ++ rest) := by
  intro c hc
  obtain rfl : '\n' = c := Option.some.inj hc
  decide

/-- The text of a document on several lines is cut into its tokens, whatever follows it. -/
def CutsApartIndented (v : Json) : Prop :=
  ∀ level rest, Stops rest → tokens (v.indented level ++ rest) = tokensOf v ++ tokens rest

theorem tokens_indentedItems (level : ℕ) : ∀ {items : List Json}, (∀ v ∈ items, CutsApartIndented v) →
    ∀ rest, Stops rest → tokens (indentedItems level items ++ rest) = tokensOfItems items ++ tokens rest
  | [], _, rest, _ => rfl
  | [v], h, rest, hrest => by
    rw [indentedItems, tokensOfItems, List.append_assoc, tokens_lineBreak,
      h v (List.mem_singleton_self v) level rest hrest]
  | v :: w :: more, h, rest, hrest => by
    obtain ⟨hv, hmore⟩ := List.forall_mem_cons.1 h
    have htail := tokens_indentedItems level hmore rest hrest
    rw [indentedItems, tokensOfItems, List.append_assoc, List.append_assoc, tokens_lineBreak, List.cons_append,
      hv level _ (Stops.cons (by decide) _), tokens_comma, htail, List.append_assoc, List.cons_append]

theorem tokens_indentedMember (level : ℕ) {k : List Char} (hk : IsSpelling k) {v : Json} (hv : CutsApartIndented v)
    {rest : List Char} (hrest : Stops rest) :
    tokens (lineBreak level ++ (quoted k ++ ':' :: ' ' :: (v.indented level ++ rest))) =
      .string k :: .colon :: (tokensOf v ++ tokens rest) := by
  rw [tokens_lineBreak, tokens_string hk, tokens_colon, tokens_blank rfl, hv level rest hrest]

theorem tokens_indentedMembers (level : ℕ) : ∀ {members : List (List Char × Json)},
    (∀ m ∈ members, IsSpelling m.1) → (∀ m ∈ members, CutsApartIndented m.2) → ∀ rest, Stops rest →
    tokens (indentedMembers level members ++ rest) = tokensOfMembers members ++ tokens rest
  | [], _, _, rest, _ => rfl
  | [(k, v)], hk, hv, rest, hrest => by
    rw [indentedMembers, tokensOfMembers]
    simp only [List.append_assoc, List.cons_append]
    exact tokens_indentedMember level (hk _ (List.mem_singleton_self _)) (hv _ (List.mem_singleton_self _)) hrest
  | (k, v) :: m :: more, hk, hv, rest, hrest => by
    obtain ⟨hkfirst, hkmore⟩ := List.forall_mem_cons.1 hk
    obtain ⟨hvfirst, hvmore⟩ := List.forall_mem_cons.1 hv
    have htail := tokens_indentedMembers level hkmore hvmore rest hrest
    rw [indentedMembers, tokensOfMembers]
    simp only [List.append_assoc, List.cons_append]
    rw [tokens_indentedMember level hkfirst hvfirst (Stops.cons (by decide) _), tokens_comma, htail]

theorem Writable.cutsApartIndented {j : Json} (h : Writable j) : CutsApartIndented j := by
  induction h with
  | null => exact fun _ rest hrest => Writable.null.cutsApart rest hrest
  | bool b => exact fun _ rest hrest => (Writable.bool b).cutsApart rest hrest
  | number hn => exact fun _ rest hrest => tokens_number hn hrest
  | string ht => exact fun _ rest _ => tokens_string ht rest
  | @array items hvalues ih =>
    intro level rest hrest
    cases items with
    | nil => exact (Writable.array hvalues).cutsApart rest hrest
    | cons v more =>
      have hitems := tokens_indentedItems (level + 1) ih (lineBreak level ++ ']' :: rest) (Stops.lineBreak level _)
      simp only [indented, tokensOf, List.cons_append, List.append_assoc, List.nil_append, tokens_arrayOpen, hitems,
        tokens_lineBreak, tokens_arrayClose]
  | @object members hkeys hvalues ih =>
    intro level rest hrest
    cases members with
    | nil => exact (Writable.object hkeys hvalues).cutsApart rest hrest
    | cons m more =>
      have hmembers := tokens_indentedMembers (level + 1) hkeys ih (lineBreak level ++ '\x7d' :: rest)
        (Stops.lineBreak level _)
      simp only [indented, tokensOf, List.cons_append, List.append_assoc, List.nil_append, tokens_objectOpen,
        hmembers, tokens_lineBreak, tokens_objectClose]

/-- A document reads back from the front of its text on several lines, and what follows it is left. -/
theorem readFront_indented {j : Json} (h : Writable j) (level : ℕ) {rest : List Char} (hrest : Stops rest) :
    readFront (j.indented level ++ rest) = (j, tokens rest) := by
  rw [readFront, h.cutsApartIndented level rest hrest, h.takenWhole]
  simp [build]

/-- The text of a document on several lines is one document and nothing else. -/
theorem readFront_indented_whole {j : Json} (h : Writable j) (level : ℕ) : readFront (j.indented level) = (j, []) := by
  have hread := readFront_indented h level Stops.nil
  rwa [List.append_nil, show tokens [] = [] by rw [tokens]] at hread

end TraceAnomaly.Json
