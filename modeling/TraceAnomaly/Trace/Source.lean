import TraceAnomaly.Trace.Codec
import TraceAnomaly.Text.Blank
import TraceAnomaly.Text.Lines

/-! Traces as texts with one JSON document per line. The first line that is not blank may be a
header with function names; every other one is a frame. Blank lines are skipped. A line that cannot
be read as characters is not counted. -/
namespace TraceAnomaly

open Json (Codec)
open Text (Line)

/-- What is wrong with a line. -/
inductive ReadError where
  /-- It is not text. -/
  | unreadable (line : Nat)
  /-- It is no frame. -/
  | unparsable (line : Nat)
deriving DecidableEq, Repr

def ReadError.message : ReadError → String
  | .unreadable line => s!"reading line {line}"
  | .unparsable line => s!"parsing frame at line {line}"

/-- The header of a trace. -/
def headerCodec : Codec FunctionTable :=
  (Codec.record (.required "functions" FunctionTable.codec .nil) true).as
    (fun t => (t, ())) (fun (t, ()) => t)

/-- Function names, and frames or errors in reading order. -/
structure Source where
  functions : FunctionTable := Keyed.empty
  items : List (Except ReadError Frame) := []

namespace Source

/-- The frame on a line. -/
def frameAt (number : Nat) (text : List Char) : Except ReadError Frame :=
  match Frame.codec.read text with
  | .ok f => .ok f
  | .error _ => .error (.unparsable number)

/-- The frames on the lines behind the first `number` ones. -/
def framesFrom (number : Nat) : List Line → List (Except ReadError Frame)
  | [] => []
  | none :: rest => .error (.unreadable (number + 1)) :: framesFrom number rest
  | some cs :: rest =>
    let text := Text.trim cs
    if text = [] then framesFrom (number + 1) rest
    else frameAt (number + 1) text :: framesFrom (number + 1) rest

/-- Reads lines behind the first `number` ones, which were blank. The first line with text must be a
header or a frame. -/
def readFrom (number : Nat) : List Line → Except ReadError Source
  | [] => .ok {}
  | none :: _ => .error (.unreadable (number + 1))
  | some cs :: rest =>
    let text := Text.trim cs
    if text = [] then readFrom (number + 1) rest
    else
      match headerCodec.read text with
      | .ok functions => .ok ⟨functions, framesFrom (number + 1) rest⟩
      | .error _ => do
        let f ← frameAt (number + 1) text
        .ok ⟨Keyed.empty, .ok f :: framesFrom (number + 1) rest⟩

def read (lines : List Line) : Except ReadError Source := readFrom 0 lines

/-- Frames that are already at hand. -/
def ofFrames (functions : FunctionTable) (frames : List Frame) : Source :=
  ⟨functions, frames.map .ok⟩

end Source

end TraceAnomaly
