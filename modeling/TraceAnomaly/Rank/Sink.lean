import TraceAnomaly.Rank.Report

/-! Where reports go. A text sink writes one JSON document per line, and any part of the writing may
fail. -/
namespace TraceAnomaly

open Json (Codec)

/-- The steps of writing a line. -/
inductive WritePart where
  | document
  | lineEnd
  | flush
deriving DecidableEq, Repr

/-- What failed in writing a report. -/
def WritePart.message : WritePart → String
  | .document => "serializing frame to JSON"
  | .lineEnd => "writing frame"
  | .flush => "flushing output"

/-- A named taker of reports with a state of its own. -/
structure Sink (ω : Type) where
  name : String
  write : FrameReport → ω → ω × Except WritePart Unit

namespace Sink

/-- Keeps reports in order. -/
def memory : Sink (List FrameReport) where
  name := "memory"
  write r reports := (reports ++ [r], .ok ())

end Sink

/-- Pieces of text that have been written, the last one first, and the part of writing that fails
from now on, if any does. -/
structure Writer where
  pieces : List (List Char) := []
  fails : Option WritePart := none

namespace FrameReport

/-- A report as a line of output: its members behind the time of writing. -/
def line (timestamp : String) (r : FrameReport) : List Char :=
  let members :=
    match codec.encode r with
    | .object members => members
    | _ => []
  (Json.object (("timestamp".toList, Codec.text.encode timestamp) :: members)).compact

end FrameReport

namespace Writer

/-- All that has been written. -/
def text (w : Writer) : List Char := w.pieces.reverse.flatten

def add (w : Writer) (piece : List Char) : Writer := { w with pieces := piece :: w.pieces }

/-- Writes a report as far as nothing fails. -/
def write (timestamp : String) (r : FrameReport) (w : Writer) : Writer × Except WritePart Unit :=
  match w.fails with
  | some .document => (w, .error .document)
  | some .lineEnd => (w.add (r.line timestamp), .error .lineEnd)
  | some .flush => (w.add (r.line timestamp ++ ['\n']), .error .flush)
  | none => (w.add (r.line timestamp ++ ['\n']), .ok ())

end Writer

namespace Sink

/-- One line per report, all with the same time of writing. -/
def lines (name timestamp : String) : Sink Writer where
  name := name
  write := Writer.write timestamp

end Sink

end TraceAnomaly
