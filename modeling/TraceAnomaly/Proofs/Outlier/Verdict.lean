import Mathlib.Data.List.Basic
import TraceAnomaly.Outlier.Classifier
import TraceAnomaly.Proofs.Stats.PowerSums

/-! What classifiers answer. Both give one label for each sample. The threshold classifier calls a
runtime anomalous just if the statistics hold enough samples and the runtime exceeds mean and
deviations; the number of anomalies that statistics carry does not matter. -/

namespace TraceAnomaly

namespace SigmaThreshold

def Exceeded (t : SigmaThreshold Float) (s : PowerSums Float) (runtime : Float) : Prop :=
  t.minSamples < s.count ∧ s.mean + t.sigma * s.deviation < runtime

variable (t : SigmaThreshold Float) (s : PowerSums Float)

theorem label_limit_eq_anomalous_iff (runtime : Float) :
    label (t.limit? s) runtime = .anomalous ↔ t.Exceeded s runtime := by
  unfold limit? Exceeded
  split
  · rename_i h
    simp [label, UInt64.not_lt.2 h]
  · rename_i h
    have hlt : t.minSamples < s.count := UInt64.not_le.1 h
    rw [PowerSums.deviation?_of_count (UInt64.lt_of_le_of_lt UInt64.zero_le hlt)]
    simp [label, Scalar.lt, hlt]

theorem exceeded_setAbnormal (n : UInt64) (runtime : Float) :
    t.Exceeded (s.setAbnormal n) runtime ↔ t.Exceeded s runtime := Iff.rfl

theorem length_classify {α : Type} [Scalar α] (t : SigmaThreshold α) (s : PowerSums α) (xs : List (Sample α)) :
    (t.classify xs s).length = xs.length := by
  simp [classify]

/-- The label of a runtime, normal if no statistics apply. -/
def judge {α : Type} [Scalar α] (t : SigmaThreshold α) (s : Option (PowerSums α)) (runtime : α) : Label :=
  label (s.bind t.limit?) runtime

theorem judge_eq_anomalous_iff (s : Option (PowerSums Float)) (runtime : Float) :
    t.judge s runtime = .anomalous ↔ ∃ S, s = some S ∧ t.Exceeded S runtime := by
  cases s with
  | none => simp [judge, label]
  | some s => simp [judge, label_limit_eq_anomalous_iff]

end SigmaThreshold

namespace DensityClassifier

variable {α : Type} [Scalar α] (c : DensityClassifier α) (xs : List (Sample α))

theorem length_neighbourhoods : (c.neighbourhoods xs).length = xs.length := by
  simp [neighbourhoods]

theorem length_classify : (c.classify xs).length = xs.length := by
  unfold classify
  split
  · simp
  · rename_i h
    simp [labelFactors, factors, h, length_neighbourhoods]

end DensityClassifier

section Classifier

variable {α : Type} [Scalar α]

theorem Classifier.length_classify (c : Classifier α) (xs : List (Sample α)) (s : Option (PowerSums α)) :
    (c.classify xs s).length = xs.length := by
  cases c with
  | density d => exact d.length_classify xs
  | threshold t =>
    cases s with
    | none => simp [classify]
    | some s => exact t.length_classify s xs

theorem Classifier.classify_threshold (t : SigmaThreshold α) (xs : List (Sample α)) (s : Option (PowerSums α)) :
    (threshold t).classify xs s = xs.map fun x => t.judge s x.runtime := by
  cases s <;> rfl

end Classifier

end TraceAnomaly
