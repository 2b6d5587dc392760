import Mathlib.Data.List.TakeWhile
import TraceAnomaly.Proofs.Text.Encoding
import TraceAnomaly.Text.Blank

/-! Lines of a text and of its bytes. No byte of another character is a line feed, so the lines of the bytes
are those of the text. -/

namespace TraceAnomaly.Text

section Split

variable {α : Type} {ends : α → Bool} {xs : List α}

/-- What ends no line goes to the front of the first line. -/
theorem splitLines_append (hxs : ∀ x ∈ xs, ends x = false) (hne : xs ≠ []) (rest : List α) :
    splitLines ends (xs ++ rest) =
      (xs ++ (splitLines ends rest).headD []) :: (splitLines ends rest).tail := by
  induction xs with
  | nil => exact absurd rfl hne
  | cons x xs ih =>
    obtain ⟨hx, hxs⟩ := List.forall_mem_cons.1 hxs
    rw [List.cons_append, splitLines, List.foldr_cons, ← splitLines, hx]
    cases xs with
    | nil => cases h : splitLines ends rest <;> simp [h]
    | cons y ys => rw [ih hxs (List.cons_ne_nil y ys)]; simp

theorem splitLines_end {x : α} (hx : ends x) (rest : List α) :
    splitLines ends (x :: rest) = [] :: splitLines ends rest := by
  simp [splitLines, hx]

/-- A line ends at the first element that ends one. -/
theorem splitLines_line (hxs : ∀ x ∈ xs, ends x = false) {x : α} (hx : ends x) (rest : List α) :
    splitLines ends (xs ++ x :: rest) = xs :: splitLines ends rest := by
  by_cases hne : xs = []
  · rw [hne, List.nil_append, splitLines_end hx]
  · simp [splitLines_append hxs hne, splitLines_end hx]

/-- The last line need not end. -/
theorem splitLines_last (hxs : ∀ x ∈ xs, ends x = false) (hne : xs ≠ []) : splitLines ends xs = [xs] := by
  have h := splitLines_append hxs hne []
  simpa [splitLines] using h

end Split

/-! ### Bytes -/

theorem lineFeed_not_mem {c : Char} (h : c ≠ '\n') : ∀ b ∈ String.utf8EncodeChar c, (b == 10) = false := by
  intro b hb
  rw [beq_eq_false_iff_ne]
  rintro rfl
  rcases Nat.lt_or_ge c.toNat 128 with hlt | hge
  · rw [utf8EncodeChar_of_lt hlt, List.mem_singleton] at hb
    have hc : c.toNat % 256 = 10 := (congrArg UInt8.toNat hb).symm
    exact h (Char.ext (UInt32.toNat_inj.1 ((Nat.mod_eq_of_lt (hlt.trans (by decide))).symm.trans hc)))
  · exact absurd (le_of_mem_utf8EncodeChar hge _ hb) (by decide)

theorem splitLines_encode (cs : List Char) :
    splitLines (· == 10) (encode cs) = (splitLines (· == '\n') cs).map encode := by
  induction cs with
  | nil =>
    rw [encode_nil]
    rfl
  | cons c cs ih =>
    rw [encode_cons]
    by_cases hc : c = '\n'
    · subst hc
      have htext : splitLines (· == '\n') ('\n' :: cs) = _ := splitLines_end rfl cs
      rw [htext, List.map_cons, ← ih, encode_nil]
      exact splitLines_end rfl (encode cs)
    · have hline : ∀ d ∈ [c], (d == '\n') = false := by simpa using hc
      have hfront : splitLines (· == '\n') (c :: cs) = _ := splitLines_append hline (List.cons_ne_nil c []) cs
      rw [splitLines_append (lineFeed_not_mem hc) (utf8EncodeChar_ne_nil c), hfront, ih, List.map_cons, List.singleton_append,
        encode_cons]
      cases splitLines (· == '\n') cs with
      | nil => simp [encode_nil]
      | cons line lines => rfl

theorem linesOfBytes_encode (cs : List Char) : linesOfBytes (encode cs) = linesOfText cs := by
  rw [linesOfBytes, splitLines_encode, List.map_map, linesOfText]
  exact List.map_congr_left fun line _ => decode_encode line

/-! ### Blanks -/

/-- Blanks behind a text without blanks at its ends go. -/
theorem trim_append {cs ws : List Char} (hhead : ∀ c ∈ cs.head?, isBlank c = false)
    (hlast : ∀ c ∈ cs.getLast?, isBlank c = false) (hws : ∀ c ∈ ws, isBlank c) : trim (cs ++ ws) = cs := by
  have hdrop : ∀ {ds : List Char}, (∀ c ∈ ds.head?, isBlank c = false) → ds.dropWhile isBlank = ds := fun {ds} h => by
    cases ds with
    | nil => rfl
    | cons d ds => exact List.dropWhile_cons_of_neg (by simp [h d rfl])
  have hfront : (cs ++ ws).dropWhile isBlank = cs ++ if cs = [] then [] else ws := by
    by_cases hcs : cs = []
    · simpa [hcs, List.dropWhile_eq_nil_iff] using hws
    · rw [if_neg hcs]
      obtain ⟨c, ds, rfl⟩ := List.exists_cons_of_ne_nil hcs
      exact hdrop hhead
  have hback : (if cs = [] then [] else ws).reverse.dropWhile isBlank = [] := by
    rw [List.dropWhile_eq_nil_iff]
    split_ifs
    · simp
    · simpa using hws
  rw [trim, hfront, List.reverse_append, List.dropWhile_append, hback, List.isEmpty_nil, if_pos rfl,
    hdrop (by simpa using hlast), List.reverse_reverse]

theorem trim_blank {ws : List Char} (h : ∀ c ∈ ws, isBlank c) : trim ws = [] := by
  have hnone : ∀ c ∈ ([] : List Char).head?, isBlank c = false := nofun
  exact trim_append hnone hnone h

/-! ### Documents on lines of their own -/

inductive LineEnd where
  | lf
  | crlf

def LineEnd.front : LineEnd → List Char
  | .lf => []
  | .crlf => ['\r']

/-- The texts with each of the documents on a line of its own, in this order, and with blank lines anywhere. The
last line may lack its end. -/
inductive Layout : List (List Char) → List Char → Prop
  | lastBlank {blanks : List Char} (hblank : ∀ c ∈ blanks, isBlank c) (hline : '\n' ∉ blanks) : Layout [] blanks
  | last (document : List Char) : Layout [document] document
  | blank {blanks : List Char} (hblank : ∀ c ∈ blanks, isBlank c) (hline : '\n' ∉ blanks) (e : LineEnd)
      {documents : List (List Char)} {text : List Char} (hrest : Layout documents text) :
      Layout documents (blanks ++ e.front ++ '\n' :: text)
  | document (document : List Char) (e : LineEnd) {documents : List (List Char)} {text : List Char}
      (hrest : Layout documents text) : Layout (document :: documents) (document ++ e.front ++ '\n' :: text)

/-- Text on one line, without blanks at its ends. -/
structure IsSolid (cs : List Char) : Prop where
  ne_nil : cs ≠ []
  head : ∀ c ∈ cs.head?, isBlank c = false
  last : ∀ c ∈ cs.getLast?, isBlank c = false
  unbroken : '\n' ∉ cs

theorem IsSolid.trim_append {cs ws : List Char} (h : IsSolid cs) (hws : ∀ c ∈ ws, isBlank c) :
    trim (cs ++ ws) = cs :=
  Text.trim_append h.head h.last hws

theorem IsSolid.trim {cs : List Char} (h : IsSolid cs) : Text.trim cs = cs := by
  have htrim := h.trim_append (List.forall_mem_nil _)
  rwa [List.append_nil] at htrim

theorem LineEnd.isBlank_front (e : LineEnd) : ∀ c ∈ e.front, isBlank c := by
  cases e <;> simp [front, isBlank]

theorem linesOfText_line {cs : List Char} (h : '\n' ∉ cs) (e : LineEnd) (text : List Char) :
    linesOfText (cs ++ e.front ++ '\n' :: text) = some (cs ++ e.front) :: linesOfText text := by
  have hfront : '\n' ∉ e.front := by cases e <;> simp [LineEnd.front]
  have hline : ∀ c ∈ cs ++ e.front, (c == '\n') = false := fun c hc => by
    rcases List.mem_append.1 hc with hc | hc
    · exact beq_eq_false_iff_ne.2 fun heq => h (heq ▸ hc)
    · exact beq_eq_false_iff_ne.2 fun heq => hfront (heq ▸ hc)
  have hsplit := splitLines_line hline (beq_self_eq_true '\n') text
  rw [linesOfText, hsplit]
  rfl

theorem linesOfText_last {cs : List Char} (h : '\n' ∉ cs) (hne : cs ≠ []) : linesOfText cs = [some cs] := by
  have hline : ∀ c ∈ cs, (c == '\n') = false := fun c hc => beq_eq_false_iff_ne.2 fun heq => h (heq ▸ hc)
  rw [linesOfText, splitLines_last hline hne]
  rfl

end TraceAnomaly.Text
