import TraceAnomaly.Outlier.Label
import TraceAnomaly.Stats.PowerSums

/-! The threshold classifier: a runtime is anomalous if it lies more than a number of standard
deviations above the mean. -/
namespace TraceAnomaly

structure SigmaThreshold (α : Type) where
  sigma : α
  /-- Statistics must hold more samples than this. -/
  minSamples : UInt64
deriving Repr

namespace SigmaThreshold

variable {α : Type} [Scalar α]

/-- The largest normal runtime, unless there are too few samples. -/
def limit? (t : SigmaThreshold α) (s : PowerSums α) : Option α :=
  if s.count ≤ t.minSamples then none
  else s.deviation?.map fun deviation => s.mean + t.sigma * deviation

/-- A runtime above the limit is anomalous; without a limit none is. -/
def label (limit : Option α) (runtime : α) : Label :=
  match limit with
  | some l => if Scalar.lt l runtime then .anomalous else .normal
  | none => .normal

def classify (t : SigmaThreshold α) (xs : List (Sample α)) (s : PowerSums α) : List Label :=
  xs.map fun x => label (t.limit? s) x.runtime

end SigmaThreshold

end TraceAnomaly
