import Mathlib.Data.Finset.Max
import TraceAnomaly.Proofs.Outlier.ExactDensity
import TraceAnomaly.Proofs.Outlier.Minority
import TraceAnomaly.Proofs.Outlier.Ranking

/-! In exact arithmetic outlier factors are defined and positive whatever the points are, and points of the
largest density are never anomalous. So the density classifier does not call all samples anomalous, with any
number of neighbours, metric and contamination. -/

namespace TraceAnomaly

/-- A distance that may be zero between different points, and may break the triangle inequality. -/
structure IsDistance {P K : Type} [Field K] [LinearOrder K] (d : P → P → K) : Prop where
  nonneg : ∀ x y, 0 ≤ d x y
  symm : ∀ x y, d x y = d y x
  self : ∀ x, d x x = 0

namespace DensityClassifier

section Points

variable {P K : Type} [Field K] [LinearOrder K] [FloorRing K] [SquareRoot K]
variable {d : P → P → K} {k : ℕ} {xs : List P}

theorem nearestBy_guarded (d : P → P → K) (k : ℕ) (xs : List P) (i : ℕ) (x : P) :
    nearestBy (fun x y => Guarded.of (d x y)) k xs i x = (nearestBy d k xs i x).map (Prod.map id Guarded.of) := by
  have hsort (ps : List (ℕ × K)) : (ps.map (Prod.map id Guarded.of)).mergeSort (fun p q => noFarther p.2 q.2) =
      (ps.mergeSort fun p q => noFarther p.2 q.2).map (Prod.map id Guarded.of) :=
    (List.map_mergeSort (f := Prod.map id Guarded.of) fun _ _ _ _ => rfl).symm
  rw [nearestBy, nearestBy, List.map_take, ← hsort, List.map_map]
  rfl

theorem neighbourhoodsBy_guarded (d : P → P → K) (k : ℕ) (xs : List P) :
    neighbourhoodsBy (fun x y => Guarded.of (d x y)) k xs =
      (neighbourhoodsBy d k xs).map (List.map (Prod.map id Guarded.of)) := by
  rw [neighbourhoodsBy, neighbourhoodsBy, List.map_map]
  exact List.map_congr_left fun p _ => nearestBy_guarded d _ xs p.2 p.1

theorem label_of_le_one {budget : ℕ} {fs : List (Factor K)} {i : ℕ} {f : Factor K} (hf : fs[i]? = some f)
    (hle : f.value ≤ 1) : (labelFactors budget fs)[i]? = some .normal := by
  have hnot : ¬ Scalar.lt (Scalar.ofNat 1) f.value = true := by
    have hcast : (Scalar.ofNat 1 : K) = 1 := Nat.cast_one
    rw [hcast]
    simpa [Scalar.lt] using hle
  rw [getElem?_labelFactors, hf, Option.map_some, if_neg fun h => hnot h.2]

theorem length_labelFactors (budget : ℕ) (fs : List (Factor K)) :
    (labelFactors budget fs).length = fs.length := by
  simp [labelFactors]

theorem surrounded (hd : IsDistance d) (hone : 1 ≤ k) (hxs : 2 ≤ xs.length) :
    Surrounded (neighbourhoodsBy d k xs) := by
  have hnear : ∀ n ∈ neighbourhoodsBy d k xs, ∃ i x, n = nearestBy d (min k (xs.length - 1)) xs i x := by
    intro n hn
    obtain ⟨p, -, rfl⟩ := List.mem_map.1 hn
    exact ⟨p.2, p.1, rfl⟩
  refine ⟨fun n hn => ?_, fun n hn p hp => ?_, fun n hn p hp => ?_⟩
  all_goals obtain ⟨i, x, rfl⟩ := hnear n hn
  · have hk : 1 ≤ min k (xs.length - 1) := by omega
    exact List.length_pos_iff.1 (length_nearestBy d hk hxs i x).1
  · obtain ⟨-, y, -, hdistance⟩ := mem_nearestBy hp
    exact hdistance ▸ hd.nonneg x y
  · obtain ⟨-, y, hy, -⟩ := mem_nearestBy hp
    rw [length_neighbourhoodsBy]
    exact (List.getElem?_eq_some_iff.1 hy).1

/-- Some point has the largest density. -/
theorem exists_densest {ns : List (List (ℕ × K))} (hns : 0 < ns.length) :
    ∃ i < ns.length, ∀ r ∈ densitiesOf ns, r ≤ densityAt ns i := by
  obtain ⟨i, hi, hmost⟩ := (Finset.range ns.length).exists_max_image (densityAt ns) ⟨0, Finset.mem_range.2 hns⟩
  refine ⟨i, Finset.mem_range.1 hi, fun r hr => ?_⟩
  obtain ⟨j, hj⟩ := List.getElem?_of_mem hr
  have hplace : j < ns.length := by simpa [densitiesOf] using (List.getElem?_eq_some_iff.1 hj).1
  exact densityAt_of_getElem? hj ▸ hmost j (Finset.mem_range.2 hplace)

variable (d k xs) in
/-- How the points of a list fare with some budget of anomalies: nothing is divided by zero, so that guarded
arithmetic has the same factors; these are positive; points of the largest density stay normal, and so do all
points if they are one. -/
structure SparesDensest (budget : ℕ) : Prop where
  defined : factorsBy (fun x y => Guarded.of (d x y)) k xs = (factorsBy d k xs).map Factor.guarded
  length_factors : 2 ≤ xs.length → (factorsBy d k xs).length = xs.length
  positive : ∀ f ∈ factorsBy d k xs, 0 < f.value
  densest : ∀ (i : ℕ) (r : K), (densitiesBy d k xs)[i]? = some r → (∀ s ∈ densitiesBy d k xs, s ≤ r) →
    (∃ f : Factor K, (factorsBy d k xs)[i]? = some f ∧ f.value ≤ 1) ∧
      (classifyBy d k budget xs)[i]? = some Label.normal
  length_labels : (classifyBy d k budget xs).length = xs.length
  spared : xs ≠ [] → Label.normal ∈ classifyBy d k budget xs
  coinciding : (∀ x ∈ xs, ∀ y ∈ xs, x = y) →
    (∀ f ∈ factorsBy d k xs, f.value = 1) ∧ ∀ l ∈ classifyBy d k budget xs, l = Label.normal

theorem sparesDensest_of_few (hxs : xs.length < 2) (budget : ℕ) : SparesDensest d k xs budget := by
  have hfactors (d' : P → P → K) : factorsBy d' k xs = [] := if_pos hxs
  have hguarded : factorsBy (fun x y => Guarded.of (d x y)) k xs = [] := if_pos hxs
  have hdensities : densitiesBy d k xs = [] := if_pos hxs
  have hlabels : classifyBy d k budget xs = xs.map fun _ => .normal := if_pos hxs
  refine ⟨by rw [hguarded, hfactors]; rfl, fun h => by omega, by simp [hfactors], by simp [hdensities],
    by simp [hlabels], fun hne => ?_, fun _ => by simp [hfactors, hlabels]⟩
  obtain ⟨x, hx⟩ := List.exists_mem_of_ne_nil xs hne
  exact hlabels ▸ List.mem_map.2 ⟨x, hx, rfl⟩

variable [IsStrictOrderedRing K]

namespace Surrounded

variable {ns : List (List (ℕ × K))} (h : Surrounded ns) (budget : ℕ)
include h

theorem normal_of_densest {i : ℕ} (hi : i < ns.length) (hmost : ∀ r ∈ densitiesOf ns, r ≤ densityAt ns i) :
    (∃ f : Factor K, (factorsOf ns)[i]? = some f ∧ f.value ≤ 1) ∧
      (labelFactors budget (factorsOf ns))[i]? = some Label.normal := by
  have hf := List.getElem?_eq_getElem (l := factorsOf ns) (length_factorsOf ns ▸ hi)
  have hle := h.factor_le_one hf hmost
  exact ⟨⟨_, hf, hle⟩, label_of_le_one hf hle⟩

theorem normal_of_coinciding (hzero : ∀ n ∈ ns, ∀ p ∈ n, p.2 = 0) :
    (∀ f ∈ factorsOf ns, f.value = 1) ∧ ∀ l ∈ labelFactors budget (factorsOf ns), l = Label.normal := by
  have hfactor := h.factor_of_coinciding hzero
  refine ⟨hfactor, fun l hl => ?_⟩
  obtain ⟨i, hi⟩ := List.getElem?_of_mem hl
  have hplace : i < (factorsOf ns).length := by
    rw [← length_labelFactors budget]
    exact (List.getElem?_eq_some_iff.1 hi).1
  have hone := (hfactor _ (List.getElem_mem hplace)).le
  exact Option.some.inj (hi.symm.trans (label_of_le_one (List.getElem?_eq_getElem hplace) hone))

end Surrounded

theorem factorsBy_guarded (hd : IsDistance d) (hone : 1 ≤ k) (xs : List P) :
    factorsBy (fun x y => Guarded.of (d x y)) k xs = (factorsBy d k xs).map Factor.guarded := by
  rw [factorsBy, factorsBy, neighbourhoodsBy_guarded]
  split
  · rfl
  · exact (surrounded hd hone (by omega)).factorsOf_guarded

theorem sparesDensest (hd : IsDistance d) (hone : 1 ≤ k) (xs : List P) (budget : ℕ) :
    SparesDensest d k xs budget := by
  by_cases hxs : xs.length < 2
  · exact sparesDensest_of_few hxs budget
  have hns := surrounded hd hone (by omega : 2 ≤ xs.length)
  have hlength := length_neighbourhoodsBy d k xs
  have hfactors : factorsBy d k xs = factorsOf (neighbourhoodsBy d k xs) := if_neg hxs
  have hdensities : densitiesBy d k xs = densitiesOf (neighbourhoodsBy d k xs) := if_neg hxs
  have hlabels : classifyBy d k budget xs = labelFactors budget (factorsOf (neighbourhoodsBy d k xs)) :=
    (if_neg hxs).trans (congrArg _ hfactors)
  refine ⟨factorsBy_guarded hd hone xs, fun _ => ?_, hfactors ▸ hns.factor_pos, fun i r hr h => ?_, ?_,
    fun _ => ?_, fun hequal => ?_⟩
  · rw [hfactors, length_factorsOf, hlength]
  · rw [hdensities] at hr h
    rw [hfactors, hlabels]
    have hi : i < (neighbourhoodsBy d k xs).length := by
      simpa [densitiesOf] using (List.getElem?_eq_some_iff.1 hr).1
    exact hns.normal_of_densest budget hi (densityAt_of_getElem? hr ▸ h)
  · rw [hlabels, length_labelFactors, length_factorsOf, hlength]
  · have hpos : 0 < (neighbourhoodsBy d k xs).length := by omega
    obtain ⟨i, hi, h⟩ := exists_densest hpos
    rw [hlabels]
    exact List.mem_of_getElem? (hns.normal_of_densest budget hi h).2
  · rw [hfactors, hlabels]
    refine hns.normal_of_coinciding budget fun n hn p hp => ?_
    obtain ⟨q, hq, rfl⟩ := List.mem_map.1 hn
    obtain ⟨-, y, hy, hdistance⟩ := mem_nearestBy hp
    rw [hdistance, hequal _ (List.fst_mem_of_mem_zipIdx hq) _ (List.mem_of_getElem? hy), hd.self]

end Points

/-! ### Metrics -/

section Metrics

variable {K : Type} [Field K] [LinearOrder K] [FloorRing K] [SquareRoot K]

theorem distance_guarded (m : Metric) (x y : Sample K) :
    distance m x.guarded y.guarded = .of (distance m x y) := by
  cases m <;> rfl

theorem factors_guarded (k : ℕ) (m : Metric) (contamination : K) (xs : List (Sample K)) :
    (⟨k, m, .of contamination⟩ : DensityClassifier (Guarded K)).factors (xs.map Sample.guarded) =
      factorsBy (fun x y => .of (distance m x y)) k xs := by
  rw [factors_eq, factorsBy_map]
  simp only [distance_guarded]

end Metrics

theorem abs_eq (x : ℝ) : Scalar.abs x = |x| := by
  have habs : Scalar.abs x = if 0 ≤ x then x else -x := rfl
  rw [habs]
  split
  · exact (abs_of_nonneg ‹_›).symm
  · exact (abs_of_neg (not_le.1 ‹_›)).symm

theorem isDistance (m : Metric) : IsDistance (distance m : Sample ℝ → Sample ℝ → ℝ) := by
  have hmax {x y : ℝ} (hx : 0 ≤ x) : 0 ≤ Scalar.max x y := hx.trans (le_max x y)
  refine ⟨fun x y => ?_, fun x y => ?_, fun x => ?_⟩
  · cases m with
    | euclidean => exact Real.sqrt_nonneg _
    | manhattan => exact add_nonneg (abs_eq _ ▸ abs_nonneg _) (abs_eq _ ▸ abs_nonneg _)
    | chebyshev => exact hmax (abs_eq _ ▸ abs_nonneg _)
  · simp only [distance, abs_eq, abs_sub_comm]
  · simp only [distance, abs_eq, sub_self, abs_zero]
    cases m <;> simp [Scalar.hypot, Scalar.max, SquareRoot.sqrt]

/-- Outlier factors in exact arithmetic, for any number of neighbours: with any distance between points of any
kind and any budget of anomalies, nothing is divided by zero, the factors are positive, and the densest points
are spared. This holds of the classifier with each metric and contamination, which may be out of range. -/
theorem classify_spares_densest (n : ℕ) :
    (∀ {P : Type} {d : P → P → ℝ}, IsDistance d → ∀ (budget : ℕ) (xs : List P),
      SparesDensest d (max n 1) xs budget) ∧
    ∀ (m : Metric) (contamination : ℝ) (xs : List (Sample ℝ)),
      let c : DensityClassifier ℝ := ⟨max n 1, m, contamination⟩
      let guarded : DensityClassifier (Guarded ℝ) := ⟨max n 1, m, .of contamination⟩
      IsDistance (distance m : Sample ℝ → Sample ℝ → ℝ) ∧
        guarded.factors (xs.map Sample.guarded) = (c.factors xs).map Factor.guarded ∧
        c.factors xs = factorsBy (distance m) (max n 1) xs ∧
        c.classify xs = classifyBy (distance m) (max n 1) (c.budget xs.length) xs ∧
        SparesDensest (distance m) (max n 1) xs (c.budget xs.length) := by
  have hone : 1 ≤ max n 1 := le_max_right n 1
  refine ⟨fun hd budget xs => sparesDensest hd hone xs budget, fun m contamination xs => ?_⟩
  have hspares := sparesDensest (isDistance m) hone xs
  exact ⟨isDistance m, (factors_guarded _ m contamination xs).trans (hspares 0).defined, factors_eq _ xs,
    classify_eq _ xs, hspares _⟩

/-- Points on a line with their distance, two of them equal, and all of them allowed to be anomalous. -/
theorem classify_spares_densest_line :
    let d : ℚ → ℚ → ℝ := fun x y => |(x : ℝ) - y|
    IsDistance d ∧ SparesDensest d 2 [0, 0, 5] 3 := by
  intro d
  have hd : IsDistance d :=
    ⟨fun _ _ => abs_nonneg _, fun _ _ => abs_sub_comm _ _, fun x => by simp [d]⟩
  exact ⟨hd, (classify_spares_densest 2).1 hd 3 [0, 0, 5]⟩

end DensityClassifier

end TraceAnomaly
