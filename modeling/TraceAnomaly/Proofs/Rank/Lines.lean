import Mathlib.Data.List.Basic
import TraceAnomaly.Proofs.Json.Printed
import TraceAnomaly.Proofs.Rank.Report
import TraceAnomaly.Rank.Sink

/-! The lines of a text sink read back. Whatever the reports name, the text has one line for each of them and
nothing besides, and who reads a line as a report passes over the time of writing. -/

namespace TraceAnomaly

open Json (Codec Rearranged Writable escape)

namespace FrameReport

/-- The document on the line of a report. -/
def stamped (timestamp : String) (r : FrameReport) : Json :=
  let members :=
    match codec.encode r with
    | .object members => members
    | _ => []
  .object (("timestamp".toList, Codec.text.encode timestamp) :: members)

theorem line_eq (timestamp : String) (r : FrameReport) : r.line timestamp = (r.stamped timestamp).compact := rfl

theorem stamped_eq (timestamp : String) (r : FrameReport) : ∃ members, codec.encode r = .object members ∧
    r.stamped timestamp = .object (("timestamp".toList, Codec.text.encode timestamp) :: members) :=
  ⟨_, rfl, rfl⟩

/-- The key of the time stands for itself. -/
theorem escape_timestamp : escape "timestamp".toList = "timestamp".toList := by decide

theorem writable_stamped (timestamp : String) (r : FrameReport) : Writable (r.stamped timestamp) := by
  obtain ⟨members, hencode, hstamped⟩ := stamped_eq timestamp r
  have hwritable := (restores_codec r).writable
  rw [hencode] at hwritable
  rw [hstamped]
  cases hwritable with
  | object hkeys hvalues =>
    have hkey := Json.isSpelling_escape "timestamp".toList
    rw [escape_timestamp] at hkey
    exact .object (List.forall_mem_cons.2 ⟨hkey, hkeys⟩)
      (List.forall_mem_cons.2 ⟨(Json.Codec.restores_text timestamp).writable, hvalues⟩)

theorem passesOver_codec : codec.PassesOver "timestamp" :=
  (Json.Codec.passesOver_record (by decide)).as _ _

/-- A report reads back from its line, whatever the time of writing and the order of the members. -/
theorem decode_stamped {timestamp : String} {r : FrameReport} {j : Json}
    (hj : Rearranged (r.stamped timestamp) j) : codec.decode j = .ok r := by
  obtain ⟨members, hencode, hstamped⟩ := stamped_eq timestamp r
  rw [hstamped] at hj
  obtain ⟨front, v, back, rfl, hv, hrest⟩ := hj.take_out
  obtain rfl := hv.eq_of_isAtom rfl
  rw [← escape_timestamp, passesOver_codec front _ back rfl]
  exact (restores_codec r).decode_rearranged _ (hencode ▸ hrest)

/-- A line for a report: its document with the members of objects in some order. -/
def OnLine (timestamp : String) (r : FrameReport) (line : List Char) : Prop :=
  ∃ j, Rearranged (r.stamped timestamp) j ∧ line = j.compact

theorem onLine_line (timestamp : String) (r : FrameReport) : r.OnLine timestamp (r.line timestamp) :=
  ⟨_, (writable_stamped timestamp r).rearranged_self, line_eq timestamp r⟩

/-- The line holds this report and nothing besides. -/
structure ReadsBack (r : FrameReport) (line : List Char) : Prop where
  ne_nil : line ≠ []
  unbroken : '\n' ∉ line
  read : codec.read line = .ok r

theorem OnLine.readsBack {timestamp : String} {r : FrameReport} {line : List Char} (h : r.OnLine timestamp line) :
    r.ReadsBack line := by
  obtain ⟨j, hj, rfl⟩ := h
  have hwritable := (writable_stamped timestamp r).of_rearranged hj
  refine ⟨?_, fun hline => absurd (hwritable.printed _ hline) (by decide), ?_⟩
  · obtain ⟨members, rfl, -⟩ := hj.members
    exact List.cons_ne_nil _ _
  · rw [codec.read_compact hwritable, decode_stamped hj]

end FrameReport

namespace Text

def ofLines (lines : List (List Char)) : List Char := lines.flatMap (· ++ ['\n'])

theorem ofLines_cons (line : List Char) (lines : List (List Char)) :
    ofLines (line :: lines) = line ++ '\n' :: ofLines lines := by
  simp [ofLines]

theorem splitOn_ofLines {lines : List (List Char)} (h : ∀ line ∈ lines, '\n' ∉ line) :
    (ofLines lines).splitOn '\n' = lines ++ [[]] := by
  induction lines with
  | nil => rfl
  | cons line lines ih =>
    obtain ⟨hline, hlines⟩ := List.forall_mem_cons.1 h
    rw [ofLines_cons, List.splitOn_append_cons_self_of_not_mem hline, ih hlines, List.cons_append]

end Text

namespace Sink

/-- Writes reports to a text sink one after another as long as nothing fails, each with its own time of writing. -/
def writeLines (name : String) : List (String × FrameReport) → Writer → Writer × Except WritePart Unit
  | [], w => (w, .ok ())
  | (timestamp, r) :: rest, w =>
    match (lines name timestamp).write r w with
    | (w, .ok ()) => writeLines name rest w
    | (w, .error part) => (w, .error part)

/-- As long as nothing fails, what has been written grows line by line. -/
theorem writeLines_eq (name : String) (entries : List (String × FrameReport)) {w : Writer} (hw : w.fails = none) :
    ((writeLines name entries w).1.text = w.text ++ Text.ofLines (entries.map fun e => e.2.line e.1)) ∧
      (writeLines name entries w).2 = .ok () := by
  induction entries generalizing w with
  | nil => simp [writeLines, Text.ofLines]
  | cons e entries ih =>
    obtain ⟨timestamp, r⟩ := e
    have hwrite : (lines name timestamp).write r w = (w.add (r.line timestamp ++ ['\n']), .ok ()) := by
      simp only [lines, Writer.write, hw]
    have htext : (w.add (r.line timestamp ++ ['\n'])).text = w.text ++ (r.line timestamp ++ ['\n']) := by
      simp [Writer.text, Writer.add]
    obtain ⟨hrest, hok⟩ := ih (w := w.add (r.line timestamp ++ ['\n'])) hw
    rw [writeLines, hwrite]
    refine ⟨?_, hok⟩
    rw [hrest, htext, List.map_cons, Text.ofLines_cons, List.append_assoc, List.append_assoc, List.singleton_append]

/-- The text of a sink has one line for each report that was written, and each line reads back as its report. So
it is in whatever order the members of the objects are written. -/
theorem writeLines_readsBack :
    (∀ (name : String) (entries : List (String × FrameReport)), ∃ lines : List (List Char),
      (writeLines name entries {}).2 = .ok () ∧ (writeLines name entries {}).1.text = Text.ofLines lines ∧
        (Text.ofLines lines).splitOn '\n' = lines ++ [[]] ∧
        List.Forall₂ (fun e line => e.2.ReadsBack line) entries lines) ∧
    ∀ (entries : List (String × FrameReport)) (lines : List (List Char)),
      List.Forall₂ (fun e line => e.2.OnLine e.1 line) entries lines →
      (Text.ofLines lines).splitOn '\n' = lines ++ [[]] ∧
        List.Forall₂ (fun e line => e.2.ReadsBack line) entries lines := by
  have hlines : ∀ (entries : List (String × FrameReport)) (lines : List (List Char)),
      List.Forall₂ (fun e line => e.2.OnLine e.1 line) entries lines →
      (Text.ofLines lines).splitOn '\n' = lines ++ [[]] ∧
        List.Forall₂ (fun e line => e.2.ReadsBack line) entries lines := by
    intro entries lines h
    have hread : List.Forall₂ (fun e line => e.2.ReadsBack line) entries lines :=
      h.imp fun _ _ => FrameReport.OnLine.readsBack
    refine ⟨Text.splitOn_ofLines fun line hline => ?_, hread⟩
    obtain ⟨e, -, he⟩ := Json.exists_of_mem_right hread hline
    exact he.unbroken
  refine ⟨fun name entries => ⟨entries.map fun e => e.2.line e.1, ?_⟩, hlines⟩
  obtain ⟨htext, hok⟩ := writeLines_eq name entries (w := {}) rfl
  refine ⟨hok, htext, hlines _ _ ?_⟩
  rw [List.forall₂_map_right_iff, List.forall₂_same]
  exact fun e _ => e.2.onLine_line e.1

/-- Two reports, the first one with a call of a function whose name breaks a line and has a quote in it. The second
one reads back as well where the time of writing stands last on its line. -/
theorem writeLines_readsBack_broken_name :
    let call : CallRecord := ⟨1, "a\n\"b", ⟨0, 0, 1⟩, 7, 5, some 9, some 4, .anomalous, none, [], []⟩
    let r : FrameReport := ⟨3, 0, [call], [7], Keyed.ofList [(7, 1)], false⟩
    let r' : FrameReport := ⟨4, 0, [], [], Keyed.empty, true⟩
    let stamp := ("timestamp".toList, Codec.text.encode "2024-01-01T00:00:01.000Z")
    (∃ line line' : List Char, r.ReadsBack line ∧ r'.ReadsBack line' ∧
      (writeLines "out" [("2024-01-01T00:00:00.000Z", r), ("2024-01-01T00:00:01.000Z", r')] {}).1.text.splitOn '\n' =
        [line, line', []]) ∧
    ∃ members, r'.stamped "2024-01-01T00:00:01.000Z" = .object (stamp :: members) ∧
      r'.ReadsBack (Json.object (members ++ [stamp])).compact := by
  intro call r r' stamp
  constructor
  · obtain ⟨lines, -, htext, hsplit, hread⟩ := writeLines_readsBack.1 "out"
      [("2024-01-01T00:00:00.000Z", r), ("2024-01-01T00:00:01.000Z", r')]
    obtain ⟨line, _, hline, hmore, rfl⟩ := List.forall₂_cons_left_iff.1 hread
    obtain ⟨line', _, hline', hnone, rfl⟩ := List.forall₂_cons_left_iff.1 hmore
    obtain rfl := List.forall₂_nil_left_iff.1 hnone
    exact ⟨line, line', hline, hline', by rw [htext, hsplit]; rfl⟩
  · obtain ⟨members, -, hstamped⟩ := r'.stamped_eq "2024-01-01T00:00:01.000Z"
    have hself := (r'.writable_stamped "2024-01-01T00:00:01.000Z").rearranged_self
    rw [hstamped] at hself
    have hlast : r'.OnLine "2024-01-01T00:00:01.000Z" (Json.object (members ++ [stamp])).compact := by
      refine ⟨_, hstamped ▸ ?_, rfl⟩
      cases hself with
      | object hkeys hvalues horder =>
        exact .object hkeys hvalues (horder.trans (List.perm_append_singleton stamp members).symm)
    obtain ⟨-, hread⟩ := writeLines_readsBack.2 [("2024-01-01T00:00:01.000Z", r')] _ (.cons hlast .nil)
    exact ⟨members, hstamped, (List.forall₂_cons.1 hread).1⟩

end Sink

end TraceAnomaly
