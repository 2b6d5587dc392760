import Mathlib.Data.List.Basic
import TraceAnomaly.Proofs.Text.Lines
import TraceAnomaly.Proofs.Trace.Reader

/-! Which lines of a text a reader visits, and by which numbers it names them. Whatever the text is, with blank
lines and broken ones anywhere, the calls go through the lines with text one by one, and an error names the
physical line that it is about. -/

namespace TraceAnomaly

open Text (Line)

/-! ### Physical lines -/

namespace Text

/-- The physical lines of a text with their numbers, from one: trimmed, and only those that are not empty then. -/
def numbered (cs : List Char) : List (ℕ × List Char) :=
  (((cs.splitOn '\n').zipIdx 1).map fun p => (p.2, trim p.1)).filter fun p => p.2 ≠ []

/-- Behind the last end of a line there is one more piece, which may be empty. -/
theorem splitOnP_eq_splitLines {α : Type} (ends : α → Bool) (xs : List α) :
    xs.splitOnP ends = splitLines ends xs ∨ xs.splitOnP ends = splitLines ends xs ++ [[]] := by
  induction xs with
  | nil => exact .inr List.splitOnP_nil
  | cons x xs ih =>
    rw [List.splitOnP_cons_eq_if_modifyHead]
    split
    · rename_i hx
      rw [splitLines_end hx]
      exact ih.imp (congrArg _) (congrArg _)
    · rename_i hx
      have hline : ∀ y ∈ [x], ends y = false := by simpa using hx
      have hlines := splitLines_append hline (List.cons_ne_nil x []) xs
      rw [List.singleton_append] at hlines
      rw [hlines]
      have hne := List.splitOnP_ne_nil ends xs
      generalize splitLines ends xs = lines at ih
      rcases ih with h | h
      · rw [h] at hne ⊢
        obtain ⟨line, rest, rfl⟩ := List.exists_cons_of_ne_nil hne
        exact .inl rfl
      · rw [h]
        cases lines with
        | nil => exact .inl rfl
        | cons line rest => exact .inr rfl

theorem numbered_eq (cs : List Char) : numbered cs =
    (((splitLines (· == '\n') cs).zipIdx 1).map fun p => (p.2, trim p.1)).filter fun p => p.2 ≠ [] := by
  have hpieces : cs.splitOn '\n' = cs.splitOnP (· == '\n') := rfl
  rw [numbered, hpieces]
  rcases splitOnP_eq_splitLines (· == '\n') cs with h | h
  · rw [h]
  · -- the line behind the last line feed is empty
    rw [h, List.zipIdx_append, List.map_append, List.filter_append]
    exact List.append_nil _

end Text

theorem Source.texts_some (number : ℕ) (lines : List (List Char)) : texts number (lines.map some) =
    (((lines.zipIdx (number + 1)).map fun p => (p.2, Text.trim p.1)).filter fun p => p.2 ≠ []).map
      (Prod.map id some) := by
  induction lines generalizing number with
  | nil => rfl
  | cons cs lines ih =>
    rw [List.map_cons, texts, ih, List.zipIdx_cons, List.map_cons, List.filter_cons]
    by_cases h : Text.trim cs = [] <;> simp [h]

/-- The lines with text are the physical ones, with their numbers. -/
theorem Source.texts_linesOfText (cs : List Char) :
    texts 0 (Text.linesOfText cs) = (Text.numbered cs).map (Prod.map id some) := by
  rw [Text.linesOfText, texts_some, Text.numbered_eq]

/-! ### Calls -/

/-- What a call gives that is about this line, with the message of an error. -/
def Reader.about : Option (ℕ × List Char) → Except String (Option Frame)
  | none => .ok none
  | some (number, text) =>
    match Frame.codec.read text with
    | .ok f => .ok (some f)
    | .error _ => .error s!"parsing frame at line {number}"

/-- The calls go through these lines one by one, and give nothing behind the last one. -/
def Reader.Visits (r : Reader) (lines : List (ℕ × List Char)) : Prop :=
  ∀ i, (r.answer i).mapError ReadError.message = about lines[i]?

theorem Reader.visits_of_items {r : Reader} {lines : List (ℕ × List Char)}
    (h : r.items = lines.map fun p => Source.frameAt p.1 p.2) : r.Visits lines := by
  intro i
  rw [answer_eq, h, List.getElem?_map]
  cases lines[i]? with
  | none => rfl
  | some p =>
    simp only [Option.map_some, answerOf, Source.frameAt, about]
    cases Frame.codec.read p.2 <;> rfl

/-- A source whose reading has ended well is what a reader gives that has started well. -/
theorem Reader.start_of_read {lines : List Line} {s : Source} (h : Source.read lines = .ok s) :
    ∃ r, start lines = .ok r ∧ r.functions = s.functions ∧ r.items = s.items := by
  have hstart := start_eq lines
  rw [h] at hstart
  cases hr : start lines with
  | error e =>
    rw [hr] at hstart
    cases hstart
  | ok r =>
    rw [hr] at hstart
    obtain rfl := Except.ok.inj hstart
    exact ⟨r, rfl, rfl, rfl⟩

theorem Reader.start_of_read_error {lines : List Line} {e : ReadError} (h : Source.read lines = .error e) :
    start lines = .error e := by
  have hstart := start_eq lines
  rw [h] at hstart
  cases hr : start lines with
  | error e' =>
    rw [hr] at hstart
    exact congrArg _ (Except.error.inj hstart)
  | ok r =>
    rw [hr] at hstart
    cases hstart

/-- What has been read of a text: these functions, and from these lines the frames and errors, by a reader with
one call for each line and by a source all at once. -/
def ReadsFrom (cs : List Char) (functions : FunctionTable) (lines : List (ℕ × List Char)) : Prop :=
  Source.read (Text.linesOfBytes (Text.encode cs)) =
      .ok ⟨functions, lines.map fun p => Source.frameAt p.1 p.2⟩ ∧
    ∃ r, Reader.start (Text.linesOfBytes (Text.encode cs)) = .ok r ∧ r.functions = functions ∧ r.Visits lines

theorem readsFrom_of_read {cs : List Char} {functions : FunctionTable} {lines : List (ℕ × List Char)}
    (h : Source.read (Text.linesOfBytes (Text.encode cs)) =
      .ok ⟨functions, lines.map fun p => Source.frameAt p.1 p.2⟩) : ReadsFrom cs functions lines := by
  obtain ⟨r, hr, hfunctions, hitems⟩ := Reader.start_of_read h
  exact ⟨h, r, hr, hfunctions, Reader.visits_of_items hitems⟩

/-- Every line with text is visited once, in order, and errors name the physical line they are about. The first
one may be a header, and then gives the functions and no frame. If it is neither a header nor a frame, there is
nothing to start with, and the error says so. -/
theorem Reader.visits_numbered (cs : List Char) :
    let lines := Text.linesOfBytes (Text.encode cs)
    match Text.numbered cs with
    | [] => ReadsFrom cs Keyed.empty []
    | (number, text) :: rest =>
      match headerCodec.read text with
      | .ok functions => ReadsFrom cs functions rest
      | .error _ =>
        match Frame.codec.read text with
        | .ok _ => ReadsFrom cs Keyed.empty ((number, text) :: rest)
        | .error _ => ∃ e, Source.read lines = .error e ∧ start lines = .error e ∧
            e.message = s!"parsing frame at line {number}" := by
  intro lines
  have hread : Source.read lines = _ := Source.readFrom_eq 0 lines
  have hitems (rest : List (ℕ × List Char)) : (rest.map (Prod.map id some)).map Source.itemOf =
      rest.map fun p => Source.frameAt p.1 p.2 := by
    rw [List.map_map]
    rfl
  rw [show lines = Text.linesOfText cs from Text.linesOfBytes_encode cs, Source.texts_linesOfText,
    ← Text.linesOfBytes_encode] at hread
  cases htexts : Text.numbered cs with
  | nil =>
    rw [htexts] at hread
    exact readsFrom_of_read hread
  | cons p rest =>
    obtain ⟨number, text⟩ := p
    rw [htexts] at hread
    simp only [List.map_cons, Prod.map_apply, id, hitems] at hread
    dsimp only
    cases hheader : headerCodec.read text with
    | ok functions =>
      rw [hheader] at hread
      exact readsFrom_of_read hread
    | error fault =>
      rw [hheader] at hread
      dsimp only
      cases hframe : Frame.codec.read text with
      | ok f =>
        simp only [Source.frameAt, hframe, Except.map] at hread
        refine readsFrom_of_read (hread.trans ?_)
        rw [List.map_cons, Source.frameAt, hframe]
        rfl
      | error fault' =>
        simp only [Source.frameAt, hframe, Except.map] at hread
        exact ⟨_, hread, start_of_read_error hread, rfl⟩

/-- A blank line in front, one in the middle, a line that is no frame, and a last line without its end. -/
theorem Reader.visits_numbered_broken_line :
    let first := "\x7b\"step\":0\x7d"
    let last := "\x7b\"step\":1\x7d"
    let broken := "not json"
    let text := ("\r\n" ++ first ++ " \r\n\t\n" ++ broken ++ "\n" ++ last).toList
    Text.numbered text = [(2, first.toList), (4, broken.toList), (5, last.toList)] ∧
      ∃ r, start (Text.linesOfBytes (Text.encode text)) = .ok r ∧ r.functions = Keyed.empty ∧
        (r.answer 0).mapError ReadError.message = .ok (some { step := 0 }) ∧
        (r.answer 1).mapError ReadError.message = .error "parsing frame at line 4" ∧
        (r.answer 2).mapError ReadError.message = .ok (some { step := 1 }) ∧
        (r.answer 3).mapError ReadError.message = .ok none := by
  intro first last broken text
  have hnumbered : Text.numbered text = [(2, first.toList), (4, broken.toList), (5, last.toList)] := by
    decide +kernel
  have hheader : (headerCodec.read first.toList).toOption = none := by decide +kernel
  have hfirst : Frame.codec.read first.toList = .ok { step := 0 } := by decide +kernel
  have hbroken : (Frame.codec.read broken.toList).toOption = none := by decide +kernel
  have hlast : Frame.codec.read last.toList = .ok { step := 1 } := by decide +kernel
  have hvisits := visits_numbered text
  rw [hnumbered] at hvisits
  dsimp only at hvisits
  cases hread : headerCodec.read first.toList with
  | ok functions =>
    rw [hread] at hheader
    cases hheader
  | error fault =>
    rw [hread, hfirst] at hvisits
    obtain ⟨-, r, hr, hfunctions, hanswers⟩ := hvisits
    refine ⟨hnumbered, r, hr, hfunctions, (hanswers 0).trans ?_, (hanswers 1).trans ?_, (hanswers 2).trans ?_,
      hanswers 3⟩
    · simp [about, hfirst]
    · cases hbad : Frame.codec.read broken.toList with
      | ok f =>
        rw [hbad] at hbroken
        cases hbroken
      | error fault' =>
        simp only [List.getElem?_cons_succ, List.getElem?_cons_zero, about, hbad]
        rfl
    · simp [about, hlast]

end TraceAnomaly
