import TraceAnomaly.Stats.PowerSums

/-! The store of statistics that all ranks merge into, one value for each function. -/
namespace TraceAnomaly

abbrev Store (α : Type) := Keyed UInt64 (PowerSums α)

namespace Store

variable {α : Type} [Scalar α]

def empty : Store α := Keyed.empty

/-- The statistics of a function, empty for an unknown one. -/
def value (s : Store α) (id : UInt64) : PowerSums α := (s.get? id).getD .empty

/-- Merges statistics into those of a function. Merging the same twice counts it twice. -/
def update (s : Store α) (id : UInt64) (delta : PowerSums α) : Store α :=
  s.alter id fun old => old.getD .empty + delta

/-- Adds to the anomalies of a function. -/
def addAbnormal (s : Store α) (id : UInt64) (n : UInt64) : Store α :=
  s.alter id fun old => (old.getD .empty).addAbnormal n

def updateAll (s : Store α) (batch : Keyed UInt64 (PowerSums α)) : Store α :=
  batch.toList.foldl (fun s (id, delta) => s.update id delta) s

def addAbnormalAll (s : Store α) (counts : Keyed UInt64 UInt64) : Store α :=
  counts.toList.foldl (fun s (id, n) => s.addAbnormal id n) s

/-- Resets every function, and forgets none. -/
def clear (s : Store α) : Store α := s.mapValues fun _ => .empty

end Store

/-- What can be asked of a store, with the type of the answer. -/
inductive Query (α : Type) : Type → Type where
  /-- Merge the statistics of one function; the answer is the merged value. -/
  | update (id : UInt64) (delta : PowerSums α) : Query α (PowerSums α)
  /-- Merge the statistics of several functions. -/
  | updateAll (batch : Keyed UInt64 (PowerSums α)) : Query α (Keyed UInt64 (PowerSums α))
  | value (id : UInt64) : Query α (PowerSums α)
  | values : Query α (Keyed UInt64 (PowerSums α))
  /-- Add to the anomalies of a function; the answer is the new number. -/
  | addAbnormal (id n : UInt64) : Query α UInt64
  | addAbnormalAll (counts : Keyed UInt64 UInt64) : Query α (Keyed UInt64 UInt64)
  | clear : Query α Unit

/-- Pairs each key with a value, for keys in the order of an existing map. -/
def Keyed.relabel {κ α β : Type} [Ord κ] (m : Keyed κ α) (f : κ → β) : Keyed κ β where
  entries := m.entries.map fun e => (e.1, f e.1)
  ascending := by simpa [List.pairwise_map] using m.ascending

namespace Store

variable {α : Type} [Scalar α]

/-- Carries a query out. -/
def answer {ρ : Type} (s : Store α) : Query α ρ → Store α × ρ
  | .update id delta => (s.update id delta, (s.update id delta).value id)
  | .updateAll batch => (s.updateAll batch, batch.relabel (s.updateAll batch).value)
  | .value id => (s, s.value id)
  | .values => (s, s)
  | .addAbnormal id n => (s.addAbnormal id n, ((s.addAbnormal id n).value id).abnormal)
  | .addAbnormalAll counts =>
    (s.addAbnormalAll counts, counts.relabel fun id => ((s.addAbnormalAll counts).value id).abnormal)
  | .clear => (s.clear, ())

end Store

end TraceAnomaly
