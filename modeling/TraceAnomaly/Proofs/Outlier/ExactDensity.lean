import Mathlib.Algebra.BigOperators.Group.List.Basic
import Mathlib.Algebra.Order.BigOperators.Group.List
import Mathlib.Tactic.FieldSimp
import Mathlib.Tactic.Positivity
import TraceAnomaly.Proofs.Outlier.Neighbours
import TraceAnomaly.Proofs.Stats.Guarded

/-! Densities and factors in exact arithmetic, for lists of neighbours at distances that are not negative. All
densities are positive, because mean distances are kept away from zero; so nothing is divided by zero, and all
factors are positive. Where the density is largest, the factor is a mean of ratios that do not exceed one. -/

namespace TraceAnomaly

def Factor.guarded {K : Type} (f : Factor K) : Factor (Guarded K) := ⟨.of f.value, f.standing⟩

def Sample.guarded {K : Type} (x : Sample K) : Sample (Guarded K) := ⟨.of x.entry, .of x.runtime⟩

namespace DensityClassifier

variable {K : Type} [Field K] [LinearOrder K] [FloorRing K] [SquareRoot K]

/-! ### Means -/

theorem average_eq (xs : List K) : average xs = xs.sum / xs.length := by
  rw [List.sum_eq_foldl]
  exact congrArg (fun zero : K => xs.foldl (· + ·) zero / xs.length) Nat.cast_zero

theorem average_guarded {xs : List K} (hxs : xs ≠ []) :
    average (xs.map Guarded.of) = .of (average xs) := by
  have htotal (x : K) : (xs.map Guarded.of).foldl (· + ·) (.of x) = .of (xs.foldl (· + ·) x) :=
    List.foldl_map_hom (fun x y => (Guarded.of_add x y).symm)
  have hlength : (xs.length : K) ≠ 0 := by simpa using hxs
  rw [average, total, List.length_map]
  exact (congrArg (· / _) (htotal _)).trans (Guarded.of_div _ hlength)

theorem average_of_equal {xs : List K} (hxs : xs ≠ []) {b : K} (h : ∀ x ∈ xs, x = b) : average xs = b := by
  have hlength : (xs.length : K) ≠ 0 := by simpa using hxs
  rw [average_eq, List.eq_replicate_of_mem h, List.sum_replicate, List.length_replicate, nsmul_eq_mul,
    mul_div_cancel_left₀ _ hlength]

theorem le_max (x y : K) : x ≤ Scalar.max x y := by
  change x ≤ if x ≤ y then y else x
  split
  · assumption
  · exact le_rfl

/-! ### Guarded neighbours -/

theorem reach_guarded (n : List (ℕ × K)) : reach (n.map (Prod.map id Guarded.of)) = .of (reach n) := by
  rw [reach, reach, List.getLast?_map]
  cases n.getLast? <;> rfl

theorem getD_guarded (xs : List K) (i : ℕ) :
    (xs.map Guarded.of).toArray.getD i (Scalar.ofNat 0) = .of (xs.toArray.getD i (Scalar.ofNat 0)) := by
  simp only [Array.getD_eq_getD_getElem?, List.getElem?_toArray, List.getElem?_map]
  cases xs[i]? <;> rfl

theorem factor_guarded {own : K} {others : List K} (hown : own ≠ 0) (hothers : others ≠ []) :
    factor (Guarded.of own) (others.map Guarded.of) = (factor own others).guarded := by
  have hratios : (others.map Guarded.of).map (· / Guarded.of own) = (others.map (· / own)).map Guarded.of := by
    rw [List.map_map, List.map_map]
    exact List.map_congr_left fun d _ => Guarded.of_div d hown
  have hdefined : (others.map Guarded.of).find? (fun d => Scalar.isUndefined (d / Guarded.of own)) = none := by
    refine List.find?_eq_none.2 fun d hd => ?_
    obtain ⟨d, -, rfl⟩ := List.mem_map.1 hd
    rw [Guarded.of_div d hown]
    exact Bool.false_ne_true
  have hdefined' : others.find? (fun d => Scalar.isUndefined (d / own)) = none :=
    List.find?_eq_none.2 fun _ _ => Bool.false_ne_true
  rw [factor, hratios, average_guarded (by simpa using hothers), standing, hdefined, factor, standing, hdefined']
  rfl

variable [IsStrictOrderedRing K]

theorem average_nonneg {xs : List K} (h : ∀ x ∈ xs, 0 ≤ x) : 0 ≤ average xs := by
  rw [average_eq]
  exact div_nonneg (List.sum_nonneg h) xs.length.cast_nonneg

theorem average_pos {xs : List K} (hxs : xs ≠ []) (h : ∀ x ∈ xs, 0 < x) : 0 < average xs := by
  have hlength : 0 < (xs.length : K) := by exact_mod_cast List.length_pos_iff.2 hxs
  rw [average_eq]
  exact div_pos (List.sum_pos xs h hxs) hlength

theorem average_le {xs : List K} (hxs : xs ≠ []) {b : K} (h : ∀ x ∈ xs, x ≤ b) : average xs ≤ b := by
  have hlength : 0 < (xs.length : K) := by exact_mod_cast List.length_pos_iff.2 hxs
  rw [average_eq, div_le_iff₀ hlength, mul_comm, ← nsmul_eq_mul]
  exact List.sum_le_card_nsmul xs b h

/-! ### Densities -/

/-- Lists of neighbours as they come from distances that are not negative. -/
structure Surrounded (ns : List (List (ℕ × K))) : Prop where
  ne_nil : ∀ n ∈ ns, n ≠ []
  nonneg : ∀ n ∈ ns, ∀ p ∈ n, 0 ≤ p.2
  inside : ∀ n ∈ ns, ∀ p ∈ n, p.1 < ns.length

theorem smallest_pos : 0 < (smallest : K) := by
  have hpos : (0 : K) < ((1 : ℕ) : K) / ((10000000000 : ℕ) : K) := by positivity
  exact hpos

/-- What a density is the inverse of. -/
theorem meanReach_pos {reaches : Array K} {n : List (ℕ × K)} (h : ∀ p ∈ n, 0 ≤ p.2) :
    0 < average (n.map fun (j, d) => Scalar.max d (reaches.getD j (Scalar.ofNat 0))) + smallest := by
  refine add_pos_of_nonneg_of_pos (average_nonneg fun r hr => ?_) smallest_pos
  obtain ⟨p, hp, rfl⟩ := List.mem_map.1 hr
  exact (h p hp).trans (le_max _ _)

theorem density_pos {reaches : Array K} {n : List (ℕ × K)} (h : ∀ p ∈ n, 0 ≤ p.2) : 0 < density reaches n := by
  have hone : (0 : K) < ((1 : ℕ) : K) := by positivity
  exact div_pos hone (meanReach_pos h)

theorem density_guarded {reaches : List K} {n : List (ℕ × K)} (hn : n ≠ []) (h : ∀ p ∈ n, 0 ≤ p.2) :
    density (reaches.map Guarded.of).toArray (n.map (Prod.map id Guarded.of)) =
      .of (density reaches.toArray n) := by
  have hreaches : ((n.map (Prod.map id Guarded.of)).map fun (j, d) =>
      Scalar.max d ((reaches.map Guarded.of).toArray.getD j (Scalar.ofNat 0))) =
      (n.map fun (j, d) => Scalar.max d (reaches.toArray.getD j (Scalar.ofNat 0))).map Guarded.of := by
    rw [List.map_map, List.map_map]
    refine List.map_congr_left fun p _ => ?_
    simp only [Function.comp, Prod.map_fst, Prod.map_snd, id, getD_guarded]
    rfl
  have hsmallest : (smallest : Guarded K) = .of smallest := by
    have hten : ((10000000000 : ℕ) : K) ≠ 0 := by positivity
    exact Guarded.of_div _ hten
  rw [density, hreaches, average_guarded (by simpa using hn), hsmallest, Guarded.of_add]
  exact Guarded.of_div _ (meanReach_pos h).ne'

omit [IsStrictOrderedRing K] in
theorem density_of_coinciding {reaches : List K} (hreaches : ∀ r ∈ reaches, r = 0) {n : List (ℕ × K)}
    (hn : n ≠ []) (hzero : ∀ p ∈ n, p.2 = 0) : density reaches.toArray n = ((1 : ℕ) : K) / smallest := by
  have hcast : Scalar.ofNat 0 = (0 : K) := Nat.cast_zero
  have hreach (j : ℕ) : reaches.toArray.getD j (Scalar.ofNat 0) = 0 := by
    rw [Array.getD_eq_getD_getElem?, List.getElem?_toArray]
    cases hr : reaches[j]? with
    | none => exact hcast
    | some r => exact hreaches r (List.mem_of_getElem? hr)
  have hmean : average (n.map fun (j, d) => Scalar.max d (reaches.toArray.getD j (Scalar.ofNat 0))) = 0 := by
    refine average_of_equal (by simpa using hn) fun r hr => ?_
    obtain ⟨p, hp, rfl⟩ := List.mem_map.1 hr
    change Scalar.max p.2 _ = 0
    rw [hzero p hp, hreach]
    exact ite_self _
  rw [density, hmean, zero_add]
  rfl

namespace Surrounded

variable {ns : List (List (ℕ × K))} (h : Surrounded ns)
include h

theorem densities_pos : ∀ r ∈ densitiesOf ns, 0 < r := by
  intro r hr
  obtain ⟨n, hn, rfl⟩ := List.mem_map.1 hr
  exact density_pos (h.nonneg n hn)

theorem densitiesOf_guarded :
    densitiesOf (ns.map (List.map (Prod.map id Guarded.of))) = (densitiesOf ns).map Guarded.of := by
  have hreaches : (ns.map (List.map (Prod.map id Guarded.of))).map reach = (ns.map reach).map Guarded.of := by
    rw [List.map_map, List.map_map]
    exact List.map_congr_left fun n _ => reach_guarded n
  rw [densitiesOf, hreaches, densitiesOf]
  generalize ns.map reach = reaches
  rw [List.map_map, List.map_map]
  refine List.map_congr_left fun n hn => ?_
  rw [Function.comp_apply, density_guarded (h.ne_nil n hn) (h.nonneg n hn), Function.comp_apply]

theorem densityAt_guarded (i : ℕ) :
    densityAt (ns.map (List.map (Prod.map id Guarded.of))) i = .of (densityAt ns i) := by
  rw [densityAt, h.densitiesOf_guarded, getD_guarded, densityAt]

theorem densityAt_pos {i : ℕ} (hi : i < ns.length) : 0 < densityAt ns i :=
  h.densities_pos _ (densityAt_mem hi)

/-! ### Factors -/

theorem factorsOf_guarded :
    factorsOf (ns.map (List.map (Prod.map id Guarded.of))) = (factorsOf ns).map Factor.guarded := by
  refine List.ext_getElem? fun i => ?_
  rw [getElem?_factorsOf, List.getElem?_map, List.getElem?_map, getElem?_factorsOf, Option.map_map,
    Option.map_map]
  cases hn : ns[i]? with
  | none => rfl
  | some n =>
    have hmem := List.mem_of_getElem? hn
    have hown := h.densityAt_pos (List.getElem?_eq_some_iff.1 hn).1
    have hothers : (n.map (Prod.map id Guarded.of)).map
        (fun p => densityAt (ns.map (List.map (Prod.map id Guarded.of))) p.1) =
          (n.map fun p => densityAt ns p.1).map Guarded.of := by
      rw [List.map_map, List.map_map]
      exact List.map_congr_left fun p _ => h.densityAt_guarded p.1
    simp only [Option.map_some, Function.comp_apply]
    rw [hothers, h.densityAt_guarded, factor_guarded hown.ne' (by simpa using h.ne_nil n hmem)]

theorem factor_pos : ∀ f ∈ factorsOf ns, 0 < f.value := by
  intro f hf
  obtain ⟨i, hi⟩ := List.getElem?_of_mem hf
  obtain ⟨hplace, n, hn, hvalue⟩ := factor_eq_average hi
  rw [hvalue]
  refine average_pos (by simpa using h.ne_nil n hn) fun r hr => ?_
  obtain ⟨p, hp, rfl⟩ := List.mem_map.1 hr
  exact div_pos (h.densityAt_pos (h.inside n hn p hp)) (h.densityAt_pos hplace)

/-- Where no density is larger, none of the ratios exceeds one. -/
theorem factor_le_one {i : ℕ} {f : Factor K} (hf : (factorsOf ns)[i]? = some f)
    (hmost : ∀ r ∈ densitiesOf ns, r ≤ densityAt ns i) : f.value ≤ 1 := by
  obtain ⟨hplace, n, hn, hvalue⟩ := factor_eq_average hf
  rw [hvalue]
  refine average_le (by simpa using h.ne_nil n hn) fun r hr => ?_
  obtain ⟨p, hp, rfl⟩ := List.mem_map.1 hr
  rw [div_le_one₀ (h.densityAt_pos hplace)]
  exact hmost _ (densityAt_mem (h.inside n hn p hp))

/-- Neighbours that are all at no distance make all densities the same. -/
theorem factor_of_coinciding (hzero : ∀ n ∈ ns, ∀ p ∈ n, p.2 = 0) : ∀ f ∈ factorsOf ns, f.value = 1 := by
  have hreaches : ∀ r ∈ ns.map reach, r = 0 := by
    intro r hr
    obtain ⟨n, hn, rfl⟩ := List.mem_map.1 hr
    rw [reach, List.getLast?_eq_getLast_of_ne_nil (h.ne_nil n hn)]
    exact hzero n hn _ (List.getLast_mem _)
  have hdensity {i : ℕ} (hi : i < ns.length) : densityAt ns i = ((1 : ℕ) : K) / smallest := by
    obtain ⟨n, hn, heq⟩ := List.mem_map.1 (densityAt_mem hi)
    rw [← heq, density_of_coinciding hreaches (h.ne_nil n hn) (hzero n hn)]
  intro f hf
  obtain ⟨i, hi⟩ := List.getElem?_of_mem hf
  obtain ⟨hplace, n, hn, hvalue⟩ := factor_eq_average hi
  rw [hvalue]
  refine average_of_equal (by simpa using h.ne_nil n hn) fun r hr => ?_
  obtain ⟨p, hp, rfl⟩ := List.mem_map.1 hr
  rw [hdensity (h.inside n hn p hp), ← hdensity hplace]
  exact div_self (h.densityAt_pos hplace).ne'

end Surrounded

end DensityClassifier

end TraceAnomaly
