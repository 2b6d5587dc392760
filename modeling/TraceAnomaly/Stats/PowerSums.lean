import TraceAnomaly.Scalar
import TraceAnomaly.Decimal.Basic
import TraceAnomaly.Json.Codec

/-! Statistics of a stream of runtimes as its power sums. The sums of two streams add up to the sums
of both together, so ranks gather samples on their own and merge them in any order. -/
namespace TraceAnomaly

/-- Power sums of order zero, one and two, and the number of anomalies found among the samples. The
sum of order zero counts a sample as a millionth. -/
structure PowerSums (α : Type) where
  weight : α
  sum : α
  squares : α
  abnormal : UInt64
deriving DecidableEq, Repr

namespace PowerSums

variable {α : Type} [Scalar α]

open Scalar (ofNat)

/-- The number of samples that make up a weight of one. -/
def scale : α := ofNat 1000000

def empty : PowerSums α := ⟨ofNat 0, ofNat 0, ofNat 0, 0⟩

/-- Adds one sample. -/
def push (s : PowerSums α) (x : α) : PowerSums α where
  weight := s.weight + ofNat 1 / scale
  sum := s.sum + x
  squares := s.squares + x * x
  abnormal := s.abnormal

def pushAll (s : PowerSums α) (xs : List α) : PowerSums α := xs.foldl push s

def ofSamples (xs : List α) : PowerSums α := empty.pushAll xs

/-- The sums of two disjoint sets of samples taken together. -/
def merge (a b : PowerSums α) : PowerSums α where
  weight := a.weight + b.weight
  sum := a.sum + b.sum
  squares := a.squares + b.squares
  abnormal := a.abnormal + b.abnormal

instance : Add (PowerSums α) := ⟨merge⟩

def addAbnormal (s : PowerSums α) (n : UInt64) : PowerSums α := { s with abnormal := s.abnormal + n }

def setAbnormal (s : PowerSums α) (n : UInt64) : PowerSums α := { s with abnormal := n }

/-- The number of samples as a scalar. Rounding takes away what repeated addition of the weight of
one sample has drifted. -/
def samples (s : PowerSums α) : α := Scalar.round (s.weight * scale)

def count (s : PowerSums α) : UInt64 := Scalar.toWord s.samples

def isEmpty (s : PowerSums α) : Bool := Scalar.le s.samples (ofNat 0)

/-- The mean, zero without samples. -/
def mean (s : PowerSums α) : α := if s.isEmpty then ofNat 0 else s.sum / s.samples

/-- The population variance, unless there are no samples. -/
def variance? (s : PowerSums α) : Option α :=
  if s.isEmpty then none
  else some ((s.samples * s.squares - s.sum * s.sum) / (s.samples * s.samples))

/-- The standard deviation of a variance. Rounding may have made the variance negative, which counts
as zero. -/
def deviationOf (variance : α) : α :=
  if Scalar.isInfinite variance then variance else Scalar.sqrt (Scalar.max variance (ofNat 0))

/-- The population standard deviation, unless there are no samples. -/
def deviation? (s : PowerSums α) : Option α := s.variance?.map deviationOf

section Binary64

/-- The population variance, infinite without samples. -/
def variance (s : PowerSums Float) : Float := s.variance?.getD Binary64.infinity

/-- The population standard deviation, infinite without samples. -/
def deviation (s : PowerSums Float) : Float := s.deviation?.getD Binary64.infinity

/-- A line with count, mean, deviation and anomalies. -/
def text (s : PowerSums Float) : String :=
  let mean := String.ofList (Decimal.fixed 6 s.mean)
  let deviation := String.ofList (Decimal.fixed 6 s.deviation)
  s!"n={s.count} mean={mean} stddev={deviation} abnormal={s.abnormal}"

/-- Comparison of the sums as numbers. -/
def same (a b : PowerSums Float) : Bool :=
  a.weight == b.weight && a.sum == b.sum && a.squares == b.squares && a.abnormal == b.abnormal

open Json (Codec)

def codec : Codec (PowerSums Float) :=
  (Codec.tuple (.required "weight" Codec.real <| .required "sum" Codec.real <|
      .required "squares" Codec.real <| .required "abnormal" Codec.word .nil)).as
    (fun s => (s.weight, s.sum, s.squares, s.abnormal, ()))
    (fun (weight, sum, squares, abnormal, ()) => ⟨weight, sum, squares, abnormal⟩)

end Binary64

end PowerSums

end TraceAnomaly
