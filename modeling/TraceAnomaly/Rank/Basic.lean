import TraceAnomaly.Rank.Report
import TraceAnomaly.Outlier.Detector

/-! One rank at work. A frame is applied to the call stacks as a whole, then its statistics are
gathered and pushed, then its calls are labelled. A violation halts the rank. -/
namespace TraceAnomaly

structure Rank (α : Type := Float) where
  number : UInt64
  calls : CallStacks
  detector : Detector α
  counts : EventCounts := {}
  frames : UInt64 := 0
  events : UInt64 := 0
  anomalies : UInt64 := 0
  abortedAt : Option UInt64 := none

namespace Rank

variable {α σ : Type} [Scalar α]

def start (number : UInt64) (functions : FunctionTable) (config : DetectorConfig) (α : Type := Float) :
    Rank α where
  number := number
  calls := { functions := functions }
  detector := { config := config }

def isHalted (r : Rank α) : Bool := r.abortedAt.isSome

/-- Adds the runtimes of the frame's calls to the statistics, function by function. -/
def gather (calls : CallStacks) (d : Detector α) : Detector α :=
  calls.frameFunctions.foldl (fun d f => d.addSamples f (calls.frameSamples f)) d

/-- Labels the frame's calls, function by function. -/
def labelFrame (calls : CallStacks) (d : Detector α) : CallStacks × Detector α :=
  calls.frameFunctions.foldl (fun (calls, d) f =>
    let (d, labels) := d.classify f (calls.frameSamples f)
    (calls.setLabels f labels, d)) (calls, d)

/-- Classifies the calls of a frame that has been applied to the call stacks. -/
def conclude (r : Rank α) (a : Option (Aggregator σ α)) (s : σ) (f : Frame) : Rank α × σ × FrameReport :=
  let (d, s, usedMerged) := (gather r.calls r.detector).push a s
  let (calls, d) := labelFrame r.calls d
  let s := d.pushAbnormal a s
  let report : FrameReport :=
    { step := f.step
      rank := r.number
      calls := calls.frameCalls
      functionsOfInterest := d.functionsOfInterest calls.maxDepth
      abnormal := d.abnormal
      usedMerged := usedMerged }
  ({ r with
      calls := calls.releaseFrame
      detector := d
      counts := {}
      events := r.events + UInt64.ofNat f.size
      anomalies := r.anomalies + report.anomalies }, s, report)

/-- Takes one frame. -/
def process (r : Rank α) (a : Option (Aggregator σ α)) (s : σ) (f : Frame) : Rank α × σ × FrameStatus :=
  if r.isHalted then (r, s, .skipped f.step)
  else
    let r := { r with frames := r.frames + 1 }
    if f.isEmpty then (r, s, .empty f.step)
    else
      let (calls, counts, outcome) := r.calls.beginFrame.ingest r.counts f
      let r := { r with calls := calls, counts := counts, detector := r.detector.beginFrame }
      match outcome with
      | .error e =>
        ({ r with calls := r.calls.releaseFrame, abortedAt := some f.step }, s, .aborted f.step e)
      | .ok () =>
        let (r, s, report) := r.conclude a s f
        (r, s, .completed report)

def summary (r : Rank α) : Summary where
  frames := r.frames
  events := r.events
  anomalies := r.anomalies
  openCalls := r.calls.size
  abortedAt := r.abortedAt

end Rank

end TraceAnomaly
