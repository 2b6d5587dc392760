import TraceAnomaly.CallStack.Ingest

/-! What a rank reports: the labelled calls of each frame and the totals of a run. -/
namespace TraceAnomaly

open Json (Codec)
open Json.Codec (word bool list table record)

/-- The labelled result of one frame. -/
structure FrameReport where
  step : UInt64
  rank : UInt64
  /-- The calls closed in the frame, by function and then in closing order. -/
  calls : List CallRecord
  functionsOfInterest : List UInt64
  /-- The anomalies of the frame by function. -/
  abnormal : Keyed UInt64 UInt64
  /-- Whether merged statistics from the aggregator were classified against. -/
  usedMerged : Bool
deriving DecidableEq

namespace FrameReport

def anomalies (r : FrameReport) : UInt64 := r.abnormal.values.foldl (· + ·) 0

/-- The fields of a report with their values. -/
def codec : Codec FrameReport :=
  (record (.required "step" word <| .required "rank" word <|
      .required "records" (list CallRecord.codec) <|
      .required "functions_of_interest" (list word) <| .required "n_abnormal" (table word) <|
      .required "used_global_stats" bool .nil)).as
    (fun r => (r.step, r.rank, r.calls, r.functionsOfInterest, r.abnormal, r.usedMerged, ()))
    (fun (step, rank, calls, functionsOfInterest, abnormal, usedMerged, ()) =>
      ⟨step, rank, calls, functionsOfInterest, abnormal, usedMerged⟩)

end FrameReport

/-- What became of a frame. -/
inductive FrameStatus where
  | completed (report : FrameReport)
  /-- There was no event in it. -/
  | empty (step : UInt64)
  /-- An event violated its call stack. -/
  | aborted (step : UInt64) (error : IngestError)
  /-- An earlier frame was aborted. -/
  | skipped (step : UInt64)
deriving DecidableEq

def FrameStatus.step : FrameStatus → UInt64
  | completed r => r.step
  | empty step => step
  | aborted step _ => step
  | skipped step => step

/-- The totals of a run. -/
structure Summary where
  /-- The frames looked at, empty ones included. -/
  frames : UInt64
  events : UInt64
  anomalies : UInt64
  openCalls : Nat
  /-- The step of the frame that halted the rank. -/
  abortedAt : Option UInt64
deriving DecidableEq, Repr

end TraceAnomaly
