import TraceAnomaly.Proofs.Json.Printed
import TraceAnomaly.Proofs.Json.Refusal
import TraceAnomaly.Proofs.Text.Lines
import TraceAnomaly.Proofs.Trace.Codec
import TraceAnomaly.Proofs.Trace.Reader

/-! Traces read back. A header and frames, each on a line of its own, with blank lines anywhere and either kind
of line ends, are what the reader gives again. A header is never taken for a frame nor a frame for a header, and
no name breaks a line. -/

namespace TraceAnomaly

open Json (Codec Rearranged Writable)
open Text (Layout IsSolid)

/-! ### Headers and frames -/

theorem restores_headerCodec (t : FunctionTable) : headerCodec.Restores t := by
  refine .as (Json.Codec.restores_record (by decide) ?_) rfl
  exact ⟨FunctionTable.restores_codec t, trivial⟩

/-- A frame has a step, and a header has no place for one. -/
theorem headerCodec_read_frame {f : Frame} {text : List Char} (h : Frame.codec.Writes f text) :
    ∃ e, headerCodec.read text = .error e := by
  obtain ⟨j, hj, rfl⟩ := h
  rw [headerCodec.read_compact ((Frame.restores_codec f).writable.of_rearranged hj)]
  obtain ⟨members, rfl, ns, horder, hpairs⟩ := Rearranged.members hj
  have hstep : (Json.escape "step".toList, Codec.encode .word f.step) ∈ ns :=
    horder.mem_iff.1 (List.mem_cons_self ..)
  obtain ⟨⟨k, v⟩, hmember, hkey, -⟩ := Json.exists_of_mem_right hpairs.flip hstep
  obtain rfl : _ = k := hkey
  have hunknown : "step" ∉ (Json.Fields.required "functions" FunctionTable.codec .nil).names := by decide
  exact Json.exists_error_map (Json.Fields.ofMembers_unknown hunknown hmember) _

/-- A header has no step. -/
theorem frameCodec_read_header {t : FunctionTable} {text : List Char} (h : headerCodec.Writes t text) :
    ∃ e, Frame.codec.read text = .error e := by
  obtain ⟨j, hj, rfl⟩ := h
  rw [Frame.codec.read_compact ((restores_headerCodec t).writable.of_rearranged hj)]
  obtain ⟨members, rfl, ns, horder, hpairs⟩ := Rearranged.members hj
  have hfunctions : ∀ m ∈ members, ∃ name, "step" ≠ name ∧ m.1 = Json.escape name.toList := fun m hm => by
    obtain ⟨n, hn, hkey, -⟩ := Json.exists_of_mem_right hpairs hm
    obtain rfl := List.mem_singleton.1 (horder.mem_iff.2 hn)
    exact ⟨"functions", by decide, hkey.symm⟩
  exact Json.exists_error_map (Json.Fields.ofMembers_missing false hfunctions) _

/-- An object is written on one line, between braces. -/
theorem isSolid_object {members : List (List Char × Json)} (h : Writable (.object members)) :
    IsSolid (Json.object members).compact where
  ne_nil := by simp [Json.compact]
  head c hc := by
    obtain rfl : '\x7b' = c := by simpa [Json.compact] using hc
    rfl
  last c hc := by
    rw [Json.compact, List.getLast?_concat] at hc
    obtain rfl := Option.some.inj hc
    rfl
  unbroken hmem := absurd (h.printed _ hmem) (by decide)

theorem isSolid_of_writes {α : Type} {c : Codec α} {a : α} {text : List Char} (h : c.Restores a)
    (hobject : ∃ members, c.encode a = .object members) (htext : c.Writes a text) : IsSolid text := by
  obtain ⟨j, hj, rfl⟩ := htext
  have hwritable := h.writable.of_rearranged hj
  obtain ⟨members, hmembers⟩ := hobject
  rw [hmembers] at hj
  obtain ⟨ls, rfl, -⟩ := hj.members
  exact isSolid_object hwritable

theorem isSolid_frame {f : Frame} {text : List Char} (h : Frame.codec.Writes f text) : IsSolid text :=
  isSolid_of_writes (Frame.restores_codec f) ⟨_, rfl⟩ h

theorem isSolid_header {t : FunctionTable} {text : List Char} (h : headerCodec.Writes t text) : IsSolid text :=
  isSolid_of_writes (restores_headerCodec t) ⟨_, rfl⟩ h

/-! ### The lines of a trace -/

namespace Source

/-- The documents are the lines with text, whatever is between them. -/
theorem texts_layout {documents : List (List Char)} (hdocuments : ∀ d ∈ documents, IsSolid d) {text : List Char}
    (h : Layout documents text) (number : ℕ) :
    (texts number (Text.linesOfText text)).map Prod.snd = documents.map some := by
  induction h generalizing number with
  | @lastBlank blanks hblank hline =>
    by_cases hne : blanks = []
    · rw [hne]
      rfl
    · rw [Text.linesOfText_last hline hne, texts, if_pos (Text.trim_blank hblank)]
      rfl
  | last d =>
    have hd := hdocuments d (List.mem_singleton_self d)
    rw [Text.linesOfText_last hd.unbroken hd.ne_nil, texts, hd.trim, if_neg hd.ne_nil]
    rfl
  | @blank blanks hblank hline e documents text _ ih =>
    have htrim : Text.trim (blanks ++ e.front) = [] :=
      Text.trim_blank (List.forall_mem_append.2 ⟨hblank, e.isBlank_front⟩)
    rw [Text.linesOfText_line hline, texts, if_pos htrim]
    exact ih hdocuments (number + 1)
  | document d e _ ih =>
    obtain ⟨hd, hrest⟩ := List.forall_mem_cons.1 hdocuments
    rw [Text.linesOfText_line hd.unbroken, texts, hd.trim_append e.isBlank_front, if_neg hd.ne_nil, List.map_cons,
      ih hrest (number + 1)]
    rfl

/-- Lines with the texts of frames give these frames. -/
theorem map_itemOf {frames : List Frame} {documents : List (List Char)}
    (h : List.Forall₂ Frame.codec.Writes frames documents) {ts : List (ℕ × Option (List Char))}
    (hts : ts.map Prod.snd = documents.map some) : ts.map itemOf = frames.map .ok := by
  induction h generalizing ts with
  | nil => rw [List.map_eq_nil_iff.1 hts, List.map_nil, List.map_nil]
  | @cons f d frames documents hf _ ih =>
    obtain ⟨⟨number, t⟩, ts, rfl, rfl, hrest⟩ := List.map_eq_cons_iff.1 hts
    rw [List.map_cons, List.map_cons, ih hrest]
    simp only [itemOf, frameAt, (Frame.restores_codec f).read_of_writes hf]

/-- The documents of a trace: its header, if it has one, and its frames. -/
def Documents (header : Option FunctionTable) (frames : List Frame) (documents : List (List Char)) : Prop :=
  ∃ hs fs, documents = hs ++ fs ∧ List.Forall₂ headerCodec.Writes header.toList hs ∧
    List.Forall₂ Frame.codec.Writes frames fs

theorem documents_write (header : Option FunctionTable) (frames : List Frame) :
    Documents header frames (header.toList.map headerCodec.write ++ frames.map Frame.codec.write) := by
  refine ⟨_, _, rfl, ?_, ?_⟩
  · exact List.forall₂_map_right_iff.2 (List.forall₂_same.2 fun t _ =>
      Json.Codec.writes_write (restores_headerCodec t).writable)
  · exact List.forall₂_map_right_iff.2 (List.forall₂_same.2 fun f _ =>
      Json.Codec.writes_write (Frame.restores_codec f).writable)

theorem Documents.isSolid {header : Option FunctionTable} {frames : List Frame} {documents : List (List Char)}
    (h : Documents header frames documents) : ∀ d ∈ documents, IsSolid d := by
  obtain ⟨hs, fs, rfl, hheader, hframes⟩ := h
  intro d hd
  rcases List.mem_append.1 hd with hd | hd
  · obtain ⟨t, -, ht⟩ := Json.exists_of_mem_right hheader hd
    exact isSolid_header ht
  · obtain ⟨f, -, hf⟩ := Json.exists_of_mem_right hframes hd
    exact isSolid_frame hf

/-- A trace is read as the table of its header and its frames. -/
theorem read_layout {header : Option FunctionTable} {frames : List Frame} {documents : List (List Char)}
    {text : List Char} (hdocuments : Documents header frames documents) (htext : Layout documents text) :
    read (Text.linesOfText text) = .ok (ofFrames (header.getD Keyed.empty) frames) := by
  have hts := texts_layout hdocuments.isSolid htext 0
  rw [read, readFrom_eq]
  generalize texts 0 (Text.linesOfText text) = ts at hts
  obtain ⟨hs, fs, rfl, hheader, hframes⟩ := hdocuments
  cases header with
  | some t =>
    cases hheader with
    | @cons _ d _ _ ht hnone =>
      cases hnone
      obtain ⟨⟨number, _⟩, ts, rfl, rfl, hrest⟩ := List.map_eq_cons_iff.1 hts
      simp only [(restores_headerCodec t).read_of_writes ht, map_itemOf hframes hrest]
      rfl
  | none =>
    cases hheader
    cases hframes with
    | nil =>
      obtain rfl := List.map_eq_nil_iff.1 hts
      rfl
    | @cons f d frames fs hf hframes =>
      obtain ⟨⟨number, _⟩, ts, rfl, rfl, hrest⟩ := List.map_eq_cons_iff.1 hts
      obtain ⟨e, he⟩ := headerCodec_read_frame hf
      simp only [he, frameAt, (Frame.restores_codec f).read_of_writes hf, map_itemOf hframes hrest]
      rfl

end Source

/-- A trace with or without a header, on lines with blank ones among them, reads back: the table of the header
first, then the frames with one call each, then nothing with every further call. No text of a frame is read as a
header, no text of a header as a frame, and none of them has a line break, whatever names they hold. -/
theorem Reader.round_trip :
    (∀ (header : Option FunctionTable) (frames : List Frame) (documents : List (List Char)) (text : List Char),
      Source.Documents header frames documents → Layout documents text →
      Source.read (Text.linesOfBytes (Text.encode text)) =
        .ok (.ofFrames (header.getD Keyed.empty) frames) ∧
      ∃ r, Reader.start (Text.linesOfBytes (Text.encode text)) = .ok r ∧
        r.functions = header.getD Keyed.empty ∧ ∀ n, r.answer n = .ok frames[n]?) ∧
    (∀ f text, Frame.codec.Writes f text → (∃ e, headerCodec.read text = .error e) ∧ '\n' ∉ text) ∧
    ∀ t text, headerCodec.Writes t text → (∃ e, Frame.codec.read text = .error e) ∧ '\n' ∉ text := by
  refine ⟨fun header frames documents text hdocuments htext => ?_,
    fun f text h => ⟨headerCodec_read_frame h, (isSolid_frame h).unbroken⟩,
    fun t text h => ⟨frameCodec_read_header h, (isSolid_header h).unbroken⟩⟩
  rw [Text.linesOfBytes_encode]
  have hread := Source.read_layout hdocuments htext
  refine ⟨hread, ?_⟩
  have hstart := Reader.start_eq (Text.linesOfText text)
  rw [hread] at hstart
  cases hr : Reader.start (Text.linesOfText text) with
  | error e =>
    rw [hr] at hstart
    cases hstart
  | ok r =>
    rw [hr] at hstart
    obtain ⟨hfunctions, hitems⟩ := Source.mk.inj (Except.ok.inj hstart)
    refine ⟨r, rfl, hfunctions, fun n => ?_⟩
    rw [Reader.answer_eq, hitems, List.getElem?_map]
    cases frames[n]? <;> rfl

/-- A name with a line break, a blank line and a last line without its end. -/
theorem Reader.round_trip_crlf :
    let t : FunctionTable := Keyed.ofList [(0, "main"), (7, "a\nb")]
    let f : Frame := { step := 3, calls := [⟨⟨0, 1, 2⟩, .entry, 7, 5⟩] }
    let text := headerCodec.write t ++ ['\r'] ++ '\n' :: (['\t', ' '] ++ [] ++ '\n' :: Frame.codec.write f)
    ∃ r, Reader.start (Text.linesOfBytes (Text.encode text)) = .ok r ∧ r.functions = t ∧
      r.answer 0 = .ok (some f) ∧ r.answer 1 = .ok none ∧ r.answer 2 = .ok none := by
  intro t f text
  have hlayout : Layout [headerCodec.write t, Frame.codec.write f] text :=
    .document _ .crlf (.blank (by simp [Text.isBlank]) (by simp) .lf (.last _))
  obtain ⟨-, r, hr, hfunctions, hanswer⟩ :=
    Reader.round_trip.1 (some t) [f] _ text (Source.documents_write (some t) [f]) hlayout
  exact ⟨r, hr, hfunctions, hanswer 0, hanswer 1, hanswer 2⟩

end TraceAnomaly
