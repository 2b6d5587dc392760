import Mathlib.Data.List.Basic
import TraceAnomaly.Trace.Source

/-! A reader of traces that takes one line at a time, when the next frame is asked for. It gives the frames and
the errors of the source that has read all lines, one with every call, and nothing more behind the last one. -/

namespace TraceAnomaly

open Text (Line)

/-! ### The lines with text -/

namespace Source

/-- The lines with text behind the first `number` ones, each with its own number. A line that is not text has
none. -/
def texts (number : ℕ) : List Line → List (ℕ × Option (List Char))
  | [] => []
  | none :: rest => (number + 1, none) :: texts number rest
  | some cs :: rest =>
    let text := Text.trim cs
    if text = [] then texts (number + 1) rest else (number + 1, some text) :: texts (number + 1) rest

def itemOf : ℕ × Option (List Char) → Except ReadError Frame
  | (number, none) => .error (.unreadable number)
  | (number, some text) => frameAt number text

theorem framesFrom_eq (number : ℕ) (lines : List Line) :
    framesFrom number lines = (texts number lines).map itemOf := by
  fun_induction texts number lines with
  | case1 => rfl
  | case2 number rest ih => rw [framesFrom, ih]; rfl
  | case3 number cs rest text h ih => rw [framesFrom, if_pos h, ih]
  | case4 number cs rest text h ih => rw [framesFrom, if_neg h, ih]; rfl

theorem readFrom_eq (number : ℕ) (lines : List Line) : readFrom number lines =
    match texts number lines with
    | [] => .ok {}
    | (k, none) :: _ => .error (.unreadable k)
    | (k, some text) :: rest =>
      match headerCodec.read text with
      | .ok functions => .ok ⟨functions, rest.map itemOf⟩
      | .error _ => (frameAt k text).map fun f => ⟨Keyed.empty, .ok f :: rest.map itemOf⟩ := by
  fun_induction texts number lines with
  | case1 => rfl
  | case2 => rfl
  | case3 number cs rest text h ih => rw [readFrom, if_pos h, ih]
  | case4 number cs rest text h ih =>
    rw [readFrom, if_neg h, framesFrom_eq]
    dsimp only [text]
    cases headerCodec.read (Text.trim cs) with
    | ok functions => rfl
    | error e => cases frameAt (number + 1) (Text.trim cs) <;> rfl

end Source

/-! ### Line by line -/

structure Reader where
  /-- The lines that have not been read. -/
  lines : List Line
  /-- The number of the last line. -/
  number : ℕ := 0
  functions : FunctionTable := Keyed.empty
  /-- A frame that was read when a header was looked for. -/
  pending : Option Frame := none

namespace Reader

/-- Reads up to the next line with text, and gives its number and the lines behind it. -/
def nextLine (number : ℕ) : List Line → Except ReadError (Option (List Char)) × ℕ × List Line
  | [] => (.ok none, number, [])
  | none :: rest => (.error (.unreadable (number + 1)), number, rest)
  | some cs :: rest =>
    let text := Text.trim cs
    if text = [] then nextLine (number + 1) rest else (.ok (some text), number + 1, rest)

/-- Starts to read. The first line with text must be a header or a frame. -/
def start (lines : List Line) : Except ReadError Reader :=
  match nextLine 0 lines with
  | (.error e, _) => .error e
  | (.ok none, number, rest) => .ok { lines := rest, number := number }
  | (.ok (some text), number, rest) =>
    match headerCodec.read text with
    | .ok functions => .ok { lines := rest, number := number, functions := functions }
    | .error _ => (Source.frameAt number text).map fun f =>
      { lines := rest, number := number, pending := some f }

def next (r : Reader) : Except ReadError (Option Frame) × Reader :=
  match r.pending with
  | some f => (.ok (some f), { r with pending := none })
  | none =>
    match nextLine r.number r.lines with
    | (.error e, number, rest) => (.error e, { r with lines := rest, number := number })
    | (.ok none, number, rest) => (.ok none, { r with lines := rest, number := number })
    | (.ok (some text), number, rest) =>
      ((Source.frameAt number text).map some, { r with lines := rest, number := number })

/-- What the call for the next frame gives after that many earlier calls. -/
def answer (r : Reader) : ℕ → Except ReadError (Option Frame)
  | 0 => r.next.1
  | n + 1 => r.next.2.answer n

def items (r : Reader) : List (Except ReadError Frame) :=
  r.pending.toList.map .ok ++ Source.framesFrom r.number r.lines

def answerOf : Option (Except ReadError Frame) → Except ReadError (Option Frame)
  | some item => item.map some
  | none => .ok none

theorem texts_nextLine (number : ℕ) (lines : List Line) :
    match nextLine number lines with
    | (.error e, k, rest) => e = .unreadable (k + 1) ∧
        Source.texts number lines = (k + 1, none) :: Source.texts k rest
    | (.ok none, k, rest) => Source.texts number lines = [] ∧ Source.texts k rest = []
    | (.ok (some text), k, rest) => Source.texts number lines = (k, some text) :: Source.texts k rest := by
  fun_induction nextLine number lines with
  | case1 => exact ⟨rfl, rfl⟩
  | case2 => exact ⟨rfl, rfl⟩
  | case3 number cs rest text h ih => rwa [Source.texts, if_pos h]
  | case4 number cs rest text h => rw [Source.texts, if_neg h]

/-- A call gives the first item and leaves the others. -/
theorem next_eq (r : Reader) :
    r.next.1 = answerOf r.items.head? ∧ r.next.2.items = r.items.tail ∧ r.next.2.functions = r.functions := by
  obtain ⟨lines, number, functions, pending⟩ := r
  cases pending with
  | some f => exact ⟨rfl, rfl, rfl⟩
  | none =>
    have hline := texts_nextLine number lines
    simp only [next, items, Option.toList_none, List.map_nil, List.nil_append, Source.framesFrom_eq]
    split at hline
    · obtain ⟨rfl, htexts⟩ := hline
      simp [htexts, Source.itemOf, answerOf, Except.map]
    · simp [hline.1, hline.2, answerOf]
    · simp [hline, Source.itemOf, answerOf]

/-- The calls give the items one by one, and nothing behind them. -/
theorem answer_eq (r : Reader) (n : ℕ) : r.answer n = answerOf r.items[n]? := by
  induction n generalizing r with
  | zero => rw [answer, (next_eq r).1, List.head?_eq_getElem?]
  | succ n ih => rw [answer, ih, (next_eq r).2.1, List.getElem?_tail]

/-- The reader starts where the source does. -/
theorem start_eq (lines : List Line) :
    (start lines).map (fun r => (⟨r.functions, r.items⟩ : Source)) = Source.read lines := by
  have hline := texts_nextLine 0 lines
  rw [Source.read, Source.readFrom_eq, start]
  split at hline
  · rename_i heq
    obtain ⟨rfl, htexts⟩ := hline
    simp only [heq, htexts]
    rfl
  · rename_i heq
    simp only [heq, hline.1]
    simp [Except.map, items, Source.framesFrom_eq, hline.2]
  · rename_i text k rest heq
    simp only [heq, hline]
    cases headerCodec.read text with
    | ok functions => simp [Except.map, items, Source.framesFrom_eq]
    | error e => cases Source.frameAt k text <;> simp [Except.map, items, Source.framesFrom_eq]

end Reader

end TraceAnomaly
