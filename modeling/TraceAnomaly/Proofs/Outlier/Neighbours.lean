import Mathlib.Data.List.Basic
import TraceAnomaly.Outlier.Density

/-! Outlier factors for points of any kind with any distance between them. The points matter only through the
lists of nearest neighbours, and everything behind these lists is the same for all distances. The density
classifier is the case of samples under the distance of its metric. -/

namespace TraceAnomaly.DensityClassifier

variable {P Q α : Type} [Scalar α]

open Scalar (ofNat)

/-- The `k` points nearest to the one at place `i`, by place and distance, nearest first. -/
def nearestBy (d : P → P → α) (k : ℕ) (xs : List P) (i : ℕ) (x : P) : List (ℕ × α) :=
  let others := (xs.zipIdx.filter fun (_, j) => j ≠ i).map fun (y, j) => (j, d x y)
  (others.mergeSort fun p q => noFarther p.2 q.2).take k

def neighbourhoodsBy (d : P → P → α) (k : ℕ) (xs : List P) : List (List (ℕ × α)) :=
  xs.zipIdx.map fun (x, i) => nearestBy d (min k (xs.length - 1)) xs i x

def densitiesOf (ns : List (List (ℕ × α))) : List α := ns.map (density (ns.map reach).toArray)

def densityAt (ns : List (List (ℕ × α))) (i : ℕ) : α := (densitiesOf ns).toArray.getD i (ofNat 0)

def factorsOf (ns : List (List (ℕ × α))) : List (Factor α) :=
  ns.zipIdx.map fun (n, i) => factor (densityAt ns i) (n.map fun p => densityAt ns p.1)

/-- The density around every point, if there are two at least. -/
def densitiesBy (d : P → P → α) (k : ℕ) (xs : List P) : List α :=
  if xs.length < 2 then [] else densitiesOf (neighbourhoodsBy d k xs)

/-- The factor of every point. There are none for fewer than two points. -/
def factorsBy (d : P → P → α) (k : ℕ) (xs : List P) : List (Factor α) :=
  if xs.length < 2 then [] else factorsOf (neighbourhoodsBy d k xs)

def classifyBy (d : P → P → α) (k budget : ℕ) (xs : List P) : List Label :=
  if xs.length < 2 then xs.map fun _ => .normal else labelFactors budget (factorsBy d k xs)

theorem factors_eq (c : DensityClassifier α) (xs : List (Sample α)) :
    c.factors xs = factorsBy (distance c.metric) c.neighbours xs := rfl

theorem classify_eq (c : DensityClassifier α) (xs : List (Sample α)) :
    c.classify xs = classifyBy (distance c.metric) c.neighbours (c.budget xs.length) xs := rfl

variable {d : P → P → α} {k : ℕ} {xs : List P} {i : ℕ} {x : P}

/-- Neighbours are other points, each with its distance. -/
theorem mem_nearestBy {p : ℕ × α} (h : p ∈ nearestBy d k xs i x) :
    p.1 ≠ i ∧ ∃ y, xs[p.1]? = some y ∧ p.2 = d x y := by
  have hmem := (List.mergeSort_perm _ _).mem_iff.1 (List.mem_of_mem_take h)
  obtain ⟨⟨y, j⟩, hother, rfl⟩ := List.mem_map.1 hmem
  obtain ⟨hplace, hne⟩ := List.mem_filter.1 hother
  exact ⟨by simpa using hne, y, List.mk_mem_zipIdx_iff_getElem?.1 hplace, rfl⟩

/-- There are neighbours of a point, and no more than were asked for. -/
theorem length_nearestBy (d : P → P → α) (hone : 1 ≤ k) (hxs : 2 ≤ xs.length) (i : ℕ) (x : P) :
    0 < (nearestBy d k xs i x).length ∧ (nearestBy d k xs i x).length ≤ k := by
  have hother : ∃ j, j ≠ i ∧ j < xs.length := by
    by_cases hi : i = 0
    · exact ⟨1, by omega, by omega⟩
    · exact ⟨0, by omega, by omega⟩
  obtain ⟨j, hne, hj⟩ := hother
  have hmem : (xs[j], j) ∈ xs.zipIdx.filter fun (_, j) => j ≠ i :=
    List.mem_filter.2 ⟨List.mk_mem_zipIdx_iff_getElem?.2 (List.getElem?_eq_getElem hj), by simpa using hne⟩
  have hothers : 0 < (xs.zipIdx.filter fun (_, j) => j ≠ i).length := List.length_pos_of_mem hmem
  rw [nearestBy, List.length_take, List.length_mergeSort, List.length_map]
  exact ⟨Nat.lt_min.2 ⟨by omega, hothers⟩, Nat.min_le_left _ _⟩

theorem length_neighbourhoodsBy (d : P → P → α) (k : ℕ) (xs : List P) :
    (neighbourhoodsBy d k xs).length = xs.length := by
  simp [neighbourhoodsBy]

theorem length_factorsOf (ns : List (List (ℕ × α))) : (factorsOf ns).length = ns.length := by
  simp [factorsOf]

theorem getElem?_factorsOf (ns : List (List (ℕ × α))) (i : ℕ) :
    (factorsOf ns)[i]? = ns[i]?.map fun n => factor (densityAt ns i) (n.map fun p => densityAt ns p.1) := by
  rw [factorsOf, List.getElem?_map, List.getElem?_zipIdx, Option.map_map, Nat.zero_add]
  rfl

/-- A factor is the mean of the densities around the neighbours relative to that of the point. -/
theorem factor_eq_average {ns : List (List (ℕ × α))} {f : Factor α} (h : (factorsOf ns)[i]? = some f) :
    i < ns.length ∧ ∃ n ∈ ns, f.value = average (n.map fun p => densityAt ns p.1 / densityAt ns i) := by
  rw [getElem?_factorsOf] at h
  obtain ⟨n, hn, rfl⟩ := Option.map_eq_some_iff.1 h
  refine ⟨(List.getElem?_eq_some_iff.1 hn).1, n, List.mem_of_getElem? hn, ?_⟩
  rw [factor, List.map_map]
  rfl

theorem densityAt_of_getElem? {ns : List (List (ℕ × α))} {i : ℕ} {r : α} (h : (densitiesOf ns)[i]? = some r) :
    densityAt ns i = r := by
  rw [densityAt, Array.getD_eq_getD_getElem?, List.getElem?_toArray, h, Option.getD_some]

theorem densityAt_mem {ns : List (List (ℕ × α))} {i : ℕ} (h : i < ns.length) :
    densityAt ns i ∈ densitiesOf ns := by
  have hlength : i < (densitiesOf ns).length := by simpa [densitiesOf] using h
  rw [densityAt_of_getElem? (List.getElem?_eq_getElem hlength)]
  exact List.getElem_mem hlength

/-- Only the distances between points matter, not what the points are. -/
theorem neighbourhoodsBy_map (d : Q → Q → α) (g : P → Q) (k : ℕ) (xs : List P) :
    neighbourhoodsBy d k (xs.map g) = neighbourhoodsBy (fun x y => d (g x) (g y)) k xs := by
  have hnearest (k i : ℕ) (x : P) :
      nearestBy d k (xs.map g) i (g x) = nearestBy (fun x y => d (g x) (g y)) k xs i x := by
    simp only [nearestBy, List.zipIdx_map, List.filter_map, List.map_map]
    rfl
  rw [neighbourhoodsBy, neighbourhoodsBy, List.zipIdx_map, List.map_map, List.length_map]
  exact List.map_congr_left fun p _ => hnearest _ p.2 p.1

theorem factorsBy_map (d : Q → Q → α) (g : P → Q) (k : ℕ) (xs : List P) :
    factorsBy d k (xs.map g) = factorsBy (fun x y => d (g x) (g y)) k xs := by
  rw [factorsBy, factorsBy, List.length_map, neighbourhoodsBy_map]

end TraceAnomaly.DensityClassifier
