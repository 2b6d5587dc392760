import TraceAnomaly.Outlier.Classifier
import TraceAnomaly.Store.Aggregator

/-! The statistics and the anomalies of one rank. In every frame the rank adds its runtimes to its
own statistics, sends what is new to the aggregator, classifies against the merged statistics and
reports the anomalies. -/
namespace TraceAnomaly

structure Detector (α : Type := Float) where
  config : DetectorConfig
  /-- The rank's own statistics, of one frame or of all frames. -/
  own : Keyed UInt64 (PowerSums α) := Keyed.empty
  /-- The samples added since the last push. -/
  unsent : Keyed UInt64 (PowerSums α) := Keyed.empty
  /-- The merged statistics that the last push brought back. -/
  merged : Keyed UInt64 (PowerSums α) := Keyed.empty
  /-- The anomalies of this frame. -/
  abnormal : Keyed UInt64 UInt64 := Keyed.empty
  pushFailed : Bool := false

namespace Detector

variable {α σ : Type} [Scalar α]

/-- Starts a frame. -/
def beginFrame (d : Detector α) : Detector α where
  config := d.config
  own := if d.config.localScope = .frame then Keyed.empty else d.own

/-- Adds the runtimes of samples of a function. -/
def addSamples (d : Detector α) (function : UInt64) (xs : List (Sample α)) : Detector α :=
  if xs.isEmpty then d
  else
    let add (old : Option (PowerSums α)) := (old.getD .empty).pushAll (xs.map Sample.runtime)
    { d with own := d.own.alter function add, unsent := d.unsent.alter function add }

/-- Sends the samples added since the last push, and tells whether merged statistics are now there
to classify against. Samples that could not be sent are not sent again. -/
def push (d : Detector α) (a : Option (Aggregator σ α)) (s : σ) : Detector α × σ × Bool :=
  match a with
  | none => (d, s, false)
  | some a =>
    if d.unsent.isEmpty then (d, s, false)
    else
      let sent := { d with unsent := Keyed.empty }
      match a.call (.updateAll d.unsent) s with
      | (s, .ok merged) =>
        if d.config.pullGlobal then ({ sent with merged := merged }, s, true) else (sent, s, false)
      | (s, .error _) => ({ sent with pushFailed := true }, s, false)

/-- The statistics that the calls of a function are classified against, if any apply. -/
def statsFor (d : Detector α) (function : UInt64) : Option (PowerSums α) :=
  match d.merged.get? function with
  | some s => some s
  | none =>
    if d.pushFailed ∧ d.config.onPushFailure = .allNormal then none else d.own.get? function

/-- Records anomalies of a function in this frame. -/
def addAbnormal (d : Detector α) (function n : UInt64) : Detector α :=
  { d with
    abnormal := d.abnormal.alter function fun old => old.getD 0 + n
    own := d.own.alter function fun old => (old.getD .empty).addAbnormal n }

/-- Labels the samples of a function and records the anomalies among them. -/
def classify (d : Detector α) (function : UInt64) (xs : List (Sample α)) : Detector α × List Label :=
  let labels := (Classifier.ofConfig d.config α).classify xs (d.statsFor function)
  let n := Label.anomalies labels
  (if n = 0 then d else d.addAbnormal function (UInt64.ofNat n), labels)

/-- Reports the anomalies of this frame. A failure has no consequence. -/
def pushAbnormal (d : Detector α) (a : Option (Aggregator σ α)) (s : σ) : σ :=
  match a with
  | none => s
  | some a => if d.abnormal.isEmpty then s else (a.call (.addAbnormalAll d.abnormal) s).1

/-- The functions with an anomaly in this frame that are not nested too deep. -/
def functionsOfInterest (d : Detector α) (depth : UInt64 → Nat) : List UInt64 :=
  (d.abnormal.toList.filter fun (id, n) => n ≠ 0 ∧ depth id < d.config.interestDepth.toNat).map Prod.fst

end Detector

end TraceAnomaly
