import TraceAnomaly.Outlier.Threshold
import TraceAnomaly.Outlier.Density

/-! The two ways to classify the calls of one function. -/
namespace TraceAnomaly

inductive Classifier (α : Type := Float) where
  | threshold (t : SigmaThreshold α)
  | density (c : DensityClassifier α)

namespace Classifier

variable {α : Type} [Scalar α]

def ofConfig (c : DetectorConfig) (α : Type := Float) [Scalar α] : Classifier α :=
  match c.algorithm with
  | .streaming => .threshold ⟨Scalar.ofBinary64 c.sigma, c.minSamples⟩
  | .batch => .density (.ofConfig c.lof α)

/-- Classifies samples against the statistics that apply, if any do. Densities need none. -/
def classify (c : Classifier α) (xs : List (Sample α)) (s : Option (PowerSums α)) : List Label :=
  match c, s with
  | .threshold t, some s => t.classify xs s
  | .threshold _, none => xs.map fun _ => .normal
  | .density d, _ => d.classify xs

end Classifier

end TraceAnomaly
