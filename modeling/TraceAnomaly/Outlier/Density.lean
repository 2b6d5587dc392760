import TraceAnomaly.Outlier.Label
import TraceAnomaly.Outlier.Config

/-! The density classifier, by local outlier factors. The density around a sample is the inverse of
its mean reachability from its nearest neighbours; the factor of a sample is the mean density of
its neighbours relative to its own. The samples with the largest factors above one are anomalous,
as many as the budget allows. -/
namespace TraceAnomaly

structure DensityClassifier (α : Type) where
  /-- How many neighbours are looked at, at least one. -/
  neighbours : Nat
  metric : Metric
  contamination : α

/-- Where a factor stands in the ranking: undefined ones come before or after all others. -/
inductive Standing where
  | first
  | bySize
  | last
deriving DecidableEq, Repr

/-- A local outlier factor with its standing. -/
structure Factor (α : Type) where
  value : α
  standing : Standing
deriving Repr

namespace DensityClassifier

variable {α : Type} [Scalar α]

open Scalar (ofNat)

def ofConfig (c : LofConfig) (α : Type := Float) [Scalar α] : DensityClassifier α where
  neighbours := max c.neighbours.toNat 1
  metric := c.metric
  contamination := Scalar.ofBinary64 c.contamination

def distance (m : Metric) (a b : Sample α) : α :=
  let x := Scalar.abs (a.entry - b.entry)
  let y := Scalar.abs (a.runtime - b.runtime)
  match m with
  | .euclidean => Scalar.hypot x y
  | .manhattan => x + y
  | .chebyshev => Scalar.max x y

/-- Distances by size; an undefined one is larger than all others. -/
def noFarther (a b : α) : Bool :=
  Scalar.isUndefined b || (!Scalar.isUndefined a && Scalar.le a b)

/-- The `k` samples nearest to the one at place `i`, by place and distance, nearest first. -/
def nearest (m : Metric) (k : Nat) (xs : List (Sample α)) (i : Nat) (x : Sample α) : List (Nat × α) :=
  let others := (xs.zipIdx.filter fun (_, j) => j ≠ i).map fun (y, j) => (j, distance m x y)
  (others.mergeSort fun p q => noFarther p.2 q.2).take k

/-- The nearest neighbours of every sample. -/
def neighbourhoods (c : DensityClassifier α) (xs : List (Sample α)) : List (List (Nat × α)) :=
  xs.zipIdx.map fun (x, i) => nearest c.metric (min c.neighbours (xs.length - 1)) xs i x

def total (xs : List α) : α := xs.foldl (· + ·) (ofNat 0)

def average (xs : List α) : α := total xs / ofNat xs.length

/-- The distance of the farthest neighbour. -/
def reach (ns : List (Nat × α)) : α :=
  match ns.getLast? with
  | some (_, d) => d
  | none => ofNat 0

/-- Added to mean distances, so that samples on one point keep a finite density. -/
def smallest : α := ofNat 1 / ofNat 10000000000

/-- The density around a sample. A neighbour is not taken to be nearer than its own farthest
neighbour. -/
def density (reaches : Array α) (ns : List (Nat × α)) : α :=
  ofNat 1 /
    (average (ns.map fun (j, d) => Scalar.max d (reaches.getD j (ofNat 0))) + smallest)

/-- The standing of a factor goes by the first density ratio in it that is undefined: first if one
of the two densities is undefined itself, last if both are zero. -/
def standing (own : α) (others : List α) : Standing :=
  match others.find? fun d => Scalar.isUndefined (d / own) with
  | none => .bySize
  | some d => if Scalar.isUndefined d || Scalar.isUndefined own then .first else .last

def factor (own : α) (others : List α) : Factor α where
  value := average (others.map (· / own))
  standing := standing own others

/-- The factor of every sample. There are none for fewer than two samples. -/
def factors (c : DensityClassifier α) (xs : List (Sample α)) : List (Factor α) :=
  if xs.length < 2 then []
  else
    let ns := c.neighbourhoods xs
    let reaches := (ns.map reach).toArray
    let densities := (ns.map (density reaches)).toArray
    ns.zipIdx.map fun (n, i) =>
      factor (densities.getD i (ofNat 0)) (n.map fun (j, _) => densities.getD j (ofNat 0))

/-- Outlier scores: the negated factors. -/
def scores (c : DensityClassifier α) (xs : List (Sample α)) : List α :=
  (c.factors xs).map (-·.value)

/-- Whether a factor may come before another in the ranking, the larger one first. -/
def ranksBefore (a b : Factor α) : Bool :=
  match a.standing, b.standing with
  | .first, _ => true
  | _, .last => true
  | .bySize, .bySize => Scalar.le b.value a.value
  | _, _ => false

/-- The places of the first `budget` factors of the ranking; of equal ones the earlier comes first. -/
def suspects (budget : Nat) (fs : List (Factor α)) : List Nat :=
  ((fs.zipIdx.mergeSort fun p q => ranksBefore p.1 q.1).take budget).map Prod.snd

/-- Labels the factors: anomalous are the suspects with a factor above one. -/
def labelFactors (budget : Nat) (fs : List (Factor α)) : List Label :=
  let found := suspects budget fs
  fs.zipIdx.map fun (f, i) =>
    if i ∈ found ∧ Scalar.lt (ofNat 1) f.value then .anomalous else .normal

/-- The largest number of anomalies among `n` samples. -/
def budget (c : DensityClassifier α) (n : Nat) : Nat := Scalar.ceil (c.contamination * ofNat n)

def classify (c : DensityClassifier α) (xs : List (Sample α)) : List Label :=
  if xs.length < 2 then xs.map fun _ => .normal
  else labelFactors (c.budget xs.length) (c.factors xs)

end DensityClassifier

end TraceAnomaly
