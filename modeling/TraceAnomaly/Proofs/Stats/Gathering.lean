import Mathlib.Algebra.BigOperators.Group.List.Basic
import Mathlib.Algebra.Order.BigOperators.Group.List
import Mathlib.Tactic.FieldSimp
import Mathlib.Tactic.Positivity
import TraceAnomaly.Proofs.Stats.Exact
import TraceAnomaly.Stats.PowerSums

/-! Power sums in exact arithmetic. However samples are split, accumulated and merged, the sums are
those of all samples pushed in one go, and count, mean and variance read off them are the textbook
ones. -/

namespace TraceAnomaly

/-- A way to accumulate samples: in one go, one more sample at a time, and by merging what was
accumulated apart. -/
inductive Gathering (α : Type) where
  | samples (xs : List α)
  | push (g : Gathering α) (x : α)
  | merge (a b : Gathering α)

namespace Gathering

variable {α : Type}

def all : Gathering α → List α
  | samples xs => xs
  | push g x => g.all ++ [x]
  | merge a b => a.all ++ b.all

def sums [Scalar α] : Gathering α → PowerSums α
  | samples xs => .ofSamples xs
  | push g x => g.sums.push x
  | merge a b => a.sums + b.sums

end Gathering

namespace PowerSums

variable {K : Type} [Field K] [LinearOrder K] [FloorRing K] [SquareRoot K]

theorem pushAll_eq (s : PowerSums K) (xs : List K) : s.pushAll xs =
    ⟨s.weight + xs.length / 1000000, s.sum + xs.sum, s.squares + (xs.map fun x => x * x).sum,
      s.abnormal⟩ := by
  induction xs generalizing s with
  | nil => simp [pushAll]
  | cons x xs ih =>
    refine (ih (s.push x)).trans ?_
    simp only [push, Scalar.ofNat, scale, List.length_cons, List.sum_cons, List.map_cons, mk.injEq,
      and_true]
    refine ⟨?_, add_assoc .., add_assoc ..⟩
    push_cast
    ring

theorem ofSamples_eq (xs : List K) : ofSamples xs =
    ⟨xs.length / 1000000, xs.sum, (xs.map fun x => x * x).sum, 0⟩ := by
  simp [ofSamples, pushAll_eq, empty, Scalar.ofNat]

theorem ofSamples_append (xs ys : List K) : ofSamples (xs ++ ys) = ofSamples xs + ofSamples ys := by
  have hweight : ((xs ++ ys).length : K) / 1000000 = xs.length / 1000000 + ys.length / 1000000 := by
    rw [List.length_append, Nat.cast_add, add_div]
  rw [ofSamples_eq, ofSamples_eq, ofSamples_eq, hweight, List.sum_append, List.map_append,
    List.sum_append]
  rfl

theorem ofSamples_concat (xs : List K) (x : K) : ofSamples (xs ++ [x]) = (ofSamples xs).push x :=
  List.foldl_concat ..

theorem ofSamples_perm {xs ys : List K} (h : xs.Perm ys) : ofSamples xs = ofSamples ys := by
  simp only [ofSamples_eq, h.length_eq, h.sum_eq, (h.map _).sum_eq]

theorem sums_eq (g : Gathering K) : g.sums = ofSamples g.all := by
  induction g with
  | samples xs => rfl
  | push g x ih => rw [Gathering.sums, ih, Gathering.all, ofSamples_concat]
  | merge a b iha ihb => rw [Gathering.sums, iha, ihb, Gathering.all, ofSamples_append]

theorem merge_right_comm (a b c : PowerSums K) : a + b + c = a + c + b := by
  change (⟨_, _, _, _⟩ : PowerSums K) = ⟨_, _, _, _⟩
  refine (mk.injEq ..).mpr ⟨add_right_comm .., add_right_comm .., add_right_comm .., ?_⟩
  exact (UInt64.add_assoc ..).trans ((congrArg (a.abnormal + ·) (UInt64.add_comm ..)).trans
    (UInt64.add_assoc ..).symm)

theorem add_empty (a : PowerSums K) : a + empty = a := by
  change (⟨_, _, _, _⟩ : PowerSums K) = a
  simp [empty, Scalar.ofNat]

theorem addAbnormal_eq_add (a : PowerSums K) (n : UInt64) :
    a.addAbnormal n = a + empty.addAbnormal n := by
  change _ = (⟨_, _, _, _⟩ : PowerSums K)
  simp [addAbnormal, empty, Scalar.ofNat]

/-! ### What is read off -/

variable (xs : List K)

def average : K := xs.sum / xs.length

def spread : K := (xs.map fun x => (x - average xs) ^ 2).sum / xs.length

theorem sum_sq_sub (m : K) : (xs.map fun x => (x - m) ^ 2).sum =
    (xs.map fun x => x * x).sum - 2 * m * xs.sum + xs.length * m ^ 2 := by
  induction xs with
  | nil => simp
  | cons x xs ih =>
    simp only [List.map_cons, List.sum_cons, List.length_cons, ih]
    push_cast
    ring

/-- Scaled power sums against the centred second moment. -/
theorem sq_length_mul_spread :
    (xs.length : K) ^ 2 * spread xs = xs.length * (xs.map fun x => x * x).sum - xs.sum ^ 2 := by
  rcases eq_or_ne xs [] with rfl | hxs
  · simp
  · have hn : (xs.length : K) ≠ 0 := by simpa using hxs
    rw [spread, sum_sq_sub, average]
    field_simp
    ring

variable [IsStrictOrderedRing K]

theorem samples_ofSamples : (ofSamples xs).samples = xs.length := by
  have hweight : (xs.length : K) / 1000000 * 1000000 = xs.length := by field_simp
  simp only [samples, ofSamples_eq, scale, Scalar.ofNat, Scalar.round]
  push_cast
  rw [hweight, Scalar.nearest_natCast, Int.cast_natCast]

theorem count_ofSamples : (ofSamples xs).count.toNat = min xs.length (UInt64.size - 1) := by
  simp only [count, samples_ofSamples, Scalar.toWord, Int.floor_natCast, Int.toNat_natCast]
  exact Nat.mod_eq_of_lt (by simp [UInt64.size])

theorem spread_nonneg : 0 ≤ spread xs :=
  div_nonneg (List.sum_nonneg fun _ hx => by
    obtain ⟨x, -, rfl⟩ := List.mem_map.1 hx
    positivity) xs.length.cast_nonneg

variable {xs}

theorem isEmpty_ofSamples (h : xs ≠ []) : (ofSamples xs).isEmpty = false := by
  simpa [isEmpty, samples_ofSamples, Scalar.le, Scalar.ofNat] using h

theorem mean_ofSamples (h : xs ≠ []) : (ofSamples xs).mean = average xs := by
  rw [mean, isEmpty_ofSamples h, if_neg Bool.false_ne_true, samples_ofSamples, ofSamples_eq]
  rfl

theorem variance?_ofSamples (h : xs ≠ []) : (ofSamples xs).variance? = some (spread xs) := by
  have hn : (xs.length : K) ≠ 0 := by simpa using h
  rw [variance?, isEmpty_ofSamples h, if_neg Bool.false_ne_true, samples_ofSamples, ofSamples_eq]
  congr 1
  rw [← sq, ← sq, ← sq_length_mul_spread, mul_div_cancel_left₀ _ (pow_ne_zero 2 hn)]

theorem max_spread : Scalar.max (spread xs) (Scalar.ofNat 0) = spread xs := by
  have h := spread_nonneg xs
  simp only [Scalar.max, Scalar.ofNat, Nat.cast_zero]
  split
  · exact le_antisymm h ‹_›
  · rfl

theorem deviation?_ofSamples (h : xs ≠ []) :
    (ofSamples xs).deviation? = some (Scalar.sqrt (spread xs)) := by
  rw [deviation?, variance?_ofSamples h, Option.map_some, deviationOf, max_spread]
  rfl

end PowerSums

namespace Gathering

open PowerSums

/-- In exact arithmetic a gathering of samples, in whatever parts and order, has the sums of all of them
pushed in one go. The count read off is their number, which a word holds up to its largest value. With
any samples, mean and variance are the arithmetic mean and the mean squared distance from it; so the
variance is not negative, and the deviation is its root without being cut off at zero. -/
theorem sums_exact (g : Gathering ℚ) (xs : List ℚ) (h : g.all.Perm xs) :
    g.sums = ofSamples xs ∧ g.sums.samples = xs.length ∧
      g.sums.count.toNat = min xs.length (UInt64.size - 1) ∧
      (g.sums.samples ≠ 0 →
        g.sums.mean = xs.sum / xs.length ∧
        ∃ v, g.sums.variance? = some v ∧
          v = (xs.map fun x => (x - xs.sum / xs.length) ^ 2).sum / xs.length ∧
          0 ≤ v ∧ Scalar.max v (Scalar.ofNat 0) = v ∧ g.sums.deviation? = some (Scalar.sqrt v)) := by
  have hsums : g.sums = ofSamples xs := (sums_eq g).trans (ofSamples_perm h)
  rw [hsums]
  refine ⟨rfl, samples_ofSamples xs, count_ofSamples xs, fun hcount => ?_⟩
  have hxs : xs ≠ [] := by
    rintro rfl
    exact hcount (samples_ofSamples [])
  exact ⟨mean_ofSamples hxs, spread xs, variance?_ofSamples hxs, rfl, spread_nonneg xs, max_spread,
    deviation?_ofSamples hxs⟩

/-- Four samples in three parts, one of them empty. -/
theorem sums_exact_three_parts :
    let g : Gathering ℚ := .merge (.push (.samples [1, 2]) 4) (.merge (.samples []) (.samples [3]))
    g.all.Perm [4, 3, 2, 1] ∧ g.sums = ofSamples [4, 3, 2, 1] ∧ g.sums.samples = 4 ∧
      g.sums.mean = 5 / 2 ∧ g.sums.variance? = some (5 / 4) ∧
      g.sums.deviation? = some (Scalar.sqrt (5 / 4)) := by
  intro g
  have hperm : g.all.Perm [4, 3, 2, 1] := by decide
  obtain ⟨hsums, hcount, -, hread⟩ := sums_exact g [4, 3, 2, 1] hperm
  have hfour : g.sums.samples = 4 := hcount.trans (by norm_num)
  obtain ⟨hmean, v, hvariance, hv, -, -, hdeviation⟩ := hread (by rw [hfour]; norm_num)
  obtain rfl : v = 5 / 4 := hv.trans (by norm_num)
  exact ⟨hperm, hsums, hfour, hmean.trans (by norm_num), hvariance, hdeviation⟩

end Gathering

end TraceAnomaly
