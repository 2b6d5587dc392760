import Mathlib.Algebra.Order.Archimedean.Real.Basic
import Mathlib.Analysis.Real.Sqrt
import Mathlib.Data.List.Permutation
import TraceAnomaly.Outlier.Threshold
import TraceAnomaly.Proofs.Stats.Gathering

/-! How many samples the threshold classifier calls anomalous against their own statistics, in exact arithmetic:
a one-sided Chebyshev inequality. The samples above the limit and the others are two groups, and what lies
between the means of two groups adds to the spread of all. -/

namespace TraceAnomaly

noncomputable instance : SquareRoot ℝ := ⟨Real.sqrt⟩

namespace PowerSums

section Groups

variable {K : Type} [Field K] [LinearOrder K] [FloorRing K] [SquareRoot K]

theorem average_perm {xs ys : List K} (h : xs.Perm ys) : average xs = average ys := by
  rw [average, average, h.sum_eq, h.length_eq]

theorem spread_perm {xs ys : List K} (h : xs.Perm ys) : spread xs = spread ys := by
  rw [spread, spread, average_perm h, (h.map _).sum_eq, h.length_eq]

variable [IsStrictOrderedRing K]

theorem sq_sum_le (xs : List K) : xs.sum ^ 2 ≤ xs.length * (xs.map fun x => x * x).sum := by
  rw [← sub_nonneg, ← sq_length_mul_spread]
  exact mul_nonneg (sq_nonneg _) (spread_nonneg xs)

/-- How far the means of two groups lie apart, each mean taken times the numbers of samples in both groups. -/
def gap (xs ys : List K) : K := ys.length * xs.sum - xs.length * ys.sum

/-- The spread of two groups taken together is at least what comes from the gap between them. -/
theorem sq_gap_le (xs ys : List K) :
    gap xs ys ^ 2 ≤ xs.length * ys.length * ((xs ++ ys).length ^ 2 * spread (xs ++ ys)) := by
  have hx := sub_nonneg.2 (sq_sum_le xs)
  have hy := sub_nonneg.2 (sq_sum_le ys)
  rw [sq_length_mul_spread, List.length_append, List.map_append, List.sum_append, List.sum_append,
    Nat.cast_add, gap]
  generalize (xs.map fun x => x * x).sum = qx at *
  generalize (ys.map fun y => y * y).sum = qy at *
  -- the difference of the two sides is what the groups are spread in themselves
  have hsplit : xs.length * ys.length * ((xs.length + ys.length) * (qx + qy) - (xs.sum + ys.sum) ^ 2) -
      (ys.length * xs.sum - xs.length * ys.sum) ^ 2 =
        ys.length * (xs.length + ys.length) * (xs.length * qx - xs.sum ^ 2) +
          xs.length * (xs.length + ys.length) * (ys.length * qy - ys.sum ^ 2) := by ring
  rw [← sub_nonneg, hsplit]
  positivity

/-- Samples that all lie some distance above the mean are as far from the others, and more. -/
theorem lt_gap {xs ys : List K} {d : K} (hxs : xs ≠ []) (h : ∀ x ∈ xs, average (xs ++ ys) + d < x) :
    (xs ++ ys).length * (xs.length * d) < gap xs ys := by
  have hlength : ((xs ++ ys).length : K) = xs.length + ys.length := by simp
  have hn : 0 < ((xs ++ ys).length : K) := by
    exact_mod_cast List.length_pos_iff.2 (List.append_ne_nil_of_left_ne_nil hxs ys)
  have hmean : (xs ++ ys).length * average (xs ++ ys) = xs.sum + ys.sum := by
    rw [average, mul_div_cancel₀ _ hn.ne', List.sum_append]
  have hsum : xs.length * (average (xs ++ ys) + d) < xs.sum := by
    have hlt := List.sum_lt_sum_of_ne_nil hxs (fun _ => _) id h
    rwa [List.map_const', List.sum_replicate, nsmul_eq_mul, List.map_id] at hlt
  calc (xs ++ ys).length * (xs.length * d)
      < (xs ++ ys).length * (xs.sum - xs.length * average (xs ++ ys)) := by
        refine mul_lt_mul_of_pos_left ?_ hn
        linarith
    _ = (xs ++ ys).length * xs.sum - xs.length * (xs.sum + ys.sum) := by rw [← hmean]; ring
    _ = gap xs ys := by rw [hlength, gap]; ring

end Groups

/-- Samples that all lie some number of deviations above the mean are so much fewer than all samples. -/
theorem length_mul_lt {xs ys : List ℝ} {σ : ℝ} (hσ : 0 ≤ σ) (hxs : xs ≠ [])
    (h : ∀ x ∈ xs, average (xs ++ ys) + σ * √(spread (xs ++ ys)) < x) :
    xs.length * (1 + σ ^ 2) < ((xs ++ ys).length : ℝ) := by
  have hv : 0 ≤ spread (xs ++ ys) := spread_nonneg _
  have hsq := pow_lt_pow_left₀ (lt_gap hxs h) (by positivity) two_ne_zero
  set w := (xs.length : ℝ) * (((xs ++ ys).length : ℝ) ^ 2 * spread (xs ++ ys))
  have hothers : w * (xs.length * σ ^ 2) < w * ys.length := by
    calc w * (xs.length * σ ^ 2)
        = ((xs ++ ys).length * (xs.length * (σ * √(spread (xs ++ ys))))) ^ 2 := by
          rw [mul_pow, mul_pow, mul_pow, Real.sq_sqrt hv]
          ring
      _ < gap xs ys ^ 2 := hsq
      _ ≤ w * ys.length := (sq_gap_le xs ys).trans_eq (by ring)
  have hfewer : xs.length * σ ^ 2 < (ys.length : ℝ) := lt_of_mul_lt_mul_left hothers (by positivity)
  rw [List.length_append, Nat.cast_add]
  linarith

end PowerSums

namespace SigmaThreshold

open PowerSums

/-- The labels of samples against their own statistics. -/
def classifyOwn {α : Type} [Scalar α] (t : SigmaThreshold α) (xs : List (Sample α)) : List Label :=
  t.classify xs (.ofSamples (xs.map Sample.runtime))

theorem label_some_eq_anomalous_iff {K : Type} [Field K] [LinearOrder K] [FloorRing K] [SquareRoot K]
    {l r : K} : label (some l) r = .anomalous ↔ l < r := by
  simp [label, Scalar.lt]

variable {t : SigmaThreshold ℝ}

theorem lt_of_label_own {rs : List ℝ} (hrs : rs ≠ []) {r : ℝ}
    (h : label (t.limit? (.ofSamples rs)) r = .anomalous) : average rs + t.sigma * √(spread rs) < r := by
  unfold limit? at h
  split at h
  · cases h
  · rw [deviation?_ofSamples hrs, mean_ofSamples hrs] at h
    exact label_some_eq_anomalous_iff.1 h

variable (ht : 0 ≤ t.sigma) (xs : List (Sample ℝ))
include ht

theorem count_classifyOwn_mul_lt (h : 0 < (t.classifyOwn xs).count .anomalous) :
    (t.classifyOwn xs).count .anomalous * (1 + t.sigma ^ 2) < xs.length := by
  set rs := xs.map Sample.runtime with hrs
  set flagged : ℝ → Bool := fun r => label (t.limit? (.ofSamples rs)) r == .anomalous
  have hcount : (t.classifyOwn xs).count .anomalous = (rs.filter flagged).length := by
    rw [← List.countP_eq_length_filter, hrs, List.countP_map, List.count_eq_countP, classifyOwn, classify,
      List.countP_map]
    rfl
  have hperm := List.filter_append_perm flagged rs
  have hlength : xs.length = (rs.filter flagged ++ rs.filter fun r => !flagged r).length := by
    rw [hperm.length_eq, hrs, List.length_map]
  rw [hcount] at h ⊢
  rw [hlength]
  refine length_mul_lt ht (List.length_pos_iff.1 h) fun r hr => ?_
  obtain ⟨hmem, hflagged⟩ := List.mem_filter.1 hr
  rw [average_perm hperm, spread_perm hperm]
  exact lt_of_label_own (List.ne_nil_of_mem hmem) (beq_iff_eq.1 hflagged)

/-- None of a few samples is anomalous. -/
theorem classifyOwn_of_few (h : xs.length ≤ 1 + t.sigma ^ 2) : ∀ l ∈ t.classifyOwn xs, l = .normal := by
  intro l hl
  cases l with
  | normal => rfl
  | anomalous =>
    have hpos : 0 < (t.classifyOwn xs).count .anomalous := List.count_pos_iff.2 hl
    have hlt := (count_classifyOwn_mul_lt ht xs hpos).trans_le h
    have hone : (1 : ℝ) ≤ (t.classifyOwn xs).count .anomalous := by exact_mod_cast hpos
    have hfactor : 0 < 1 + t.sigma ^ 2 := by positivity
    exact absurd hlt (not_lt.2 (le_mul_of_one_le_left hfactor.le hone))

/-- No sample is anomalous among equal ones: all would be, and so many cannot. -/
theorem classifyOwn_of_equal {m : ℝ} (h : ∀ x ∈ xs, x.runtime = m) : ∀ l ∈ t.classifyOwn xs, l = .normal := by
  intro l hl
  have hsame : ∀ l' ∈ t.classifyOwn xs, l = l' := by
    intro l' hl'
    obtain ⟨x, hx, rfl⟩ := List.mem_map.1 hl
    obtain ⟨y, hy, rfl⟩ := List.mem_map.1 hl'
    rw [h x hx, h y hy]
  cases l with
  | normal => rfl
  | anomalous =>
    have hlength : (t.classifyOwn xs).length = xs.length := List.length_map _
    have hcount := (List.count_eq_length.2 hsame).trans hlength
    have hpos : 0 < xs.length := hlength ▸ List.length_pos_of_mem hl
    have hlt := count_classifyOwn_mul_lt ht xs (hcount ▸ hpos)
    rw [hcount] at hlt
    exact absurd hlt (not_lt.2 (le_mul_of_one_le_right xs.length.cast_nonneg (by nlinarith)))

end SigmaThreshold

end TraceAnomaly
