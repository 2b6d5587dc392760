/-! Splitting a text at its front. -/
namespace TraceAnomaly.Text

/-- Splits a text in front of its first character that fails `p`. -/
def splitWhile (p : Char → Bool) (cs : List Char) : List Char × List Char :=
  (cs.takeWhile p, cs.dropWhile p)

/-- Removes a text from the front of another. -/
def dropText : List Char → List Char → Option (List Char)
  | [], cs => some cs
  | _ :: _, [] => none
  | w :: ws, c :: cs => if w = c then dropText ws cs else none

theorem length_splitWhile (p : Char → Bool) (cs : List Char) :
    (splitWhile p cs).1.length + (splitWhile p cs).2.length = cs.length := by
  rw [← List.length_append, splitWhile, List.takeWhile_append_dropWhile]

theorem length_dropText {w cs r : List Char} (h : dropText w cs = some r) : r.length ≤ cs.length := by
  fun_induction dropText w cs <;> grind

end TraceAnomaly.Text
