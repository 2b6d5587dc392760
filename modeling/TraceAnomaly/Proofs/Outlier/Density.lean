import TraceAnomaly.Proofs.Binary64.Monotone
import TraceAnomaly.Proofs.Outlier.Neighbours
import TraceAnomaly.Proofs.Outlier.Ranking

/-! The factors of samples. Distances, densities and their ratios are not negative, so a factor is undefined just
if one of the ratios in it is, and it has a standing of its own just then. -/

namespace TraceAnomaly

open Binary64 (NotNegative)

namespace DensityClassifier

/-! ### Sums -/

theorem notNegative_foldl {xs : List Float} (h : ∀ x ∈ xs, NotNegative x) {a : Float} (ha : NotNegative a) :
    NotNegative (xs.foldl (· + ·) a) ∧ (xs.foldl (· + ·) a).isNaN = (a.isNaN || xs.any Float.isNaN) := by
  induction xs generalizing a with
  | nil => simpa using ha
  | cons x xs ih =>
    obtain ⟨hx, hxs⟩ := List.forall_mem_cons.1 h
    obtain ⟨hsum, hnan⟩ := ih hxs (ha.add hx)
    exact ⟨hsum, by rw [List.foldl_cons, hnan, ha.isNaN_add hx, List.any_cons, Bool.or_assoc]⟩

theorem notNegative_average {xs : List Float} (h : ∀ x ∈ xs, NotNegative x) : NotNegative (average xs) :=
  (notNegative_foldl h (.ofNat 0)).1.div (.ofNat _)

/-- A mean of numbers that are not negative is undefined only if one of them is. -/
theorem isNaN_average {xs : List Float} (h : ∀ x ∈ xs, NotNegative x) (hpos : 0 < xs.length)
    (hlen : xs.length ≤ 2 ^ 64) : (average xs).isNaN = xs.any Float.isNaN := by
  have hfinite := Binary64.isFinite_ofNat hlen
  rw [Binary64.isFinite_eq] at hfinite
  have hone := Binary64.atLeastOne_ofNat hpos
  generalize hunpack : (Binary64.ofNat xs.length).toModel.unpack = u at hone hfinite
  cases hone with
  | infinity => exact absurd hfinite Bool.false_ne_true
  | finite hm =>
    refine (Binary64.isNaN_div_finite hunpack _).trans ?_
    exact (notNegative_foldl h (.ofNat 0)).2.trans (Bool.false_or _)

/-! ### Distances and densities -/

theorem notNegative_distance (m : Metric) (a b : Sample Float) : NotNegative (distance m a b) := by
  cases m with
  | euclidean => exact .hypot _ _
  | manhattan => exact (NotNegative.abs _).add (.abs _)
  | chebyshev => exact (NotNegative.abs _).max (.abs _)

theorem notNegative_smallest : NotNegative smallest := (NotNegative.ofNat 1).div (.ofNat _)

theorem notNegative_nearest {m : Metric} {k : ℕ} {xs : List (Sample Float)} {i : ℕ} {x : Sample Float} :
    ∀ p ∈ nearest m k xs i x, NotNegative p.2 := by
  intro p hp
  obtain ⟨-, y, -, hd⟩ := mem_nearestBy (d := distance m) hp
  rw [hd]
  exact notNegative_distance m x y

theorem notNegative_reach {ns : List (ℕ × Float)} (h : ∀ p ∈ ns, NotNegative p.2) : NotNegative (reach ns) := by
  unfold reach
  split
  · rename_i j d hlast
    exact h (j, d) (List.mem_of_getLast? hlast)
  · exact .ofNat 0

theorem notNegative_getD {xs : List Float} (h : ∀ x ∈ xs, NotNegative x) (i : ℕ) :
    NotNegative (xs.toArray.getD i (Scalar.ofNat 0)) := by
  rw [Array.getD_eq_getD_getElem?, List.getElem?_toArray]
  cases hi : xs[i]? with
  | none => exact .ofNat 0
  | some x => exact h x (List.mem_of_getElem? hi)

theorem notNegative_density {reaches : List Float} (hr : ∀ x ∈ reaches, NotNegative x)
    {ns : List (ℕ × Float)} (h : ∀ p ∈ ns, NotNegative p.2) : NotNegative (density reaches.toArray ns) := by
  refine (NotNegative.ofNat 1).div ((notNegative_average ?_).add notNegative_smallest)
  intro x hx
  obtain ⟨⟨j, d⟩, hmem, rfl⟩ := List.mem_map.1 hx
  exact (h _ hmem).max (notNegative_getD hr j)

/-! ### Factors -/

theorem sound_factor {own : Float} {others : List Float} (hown : NotNegative own)
    (h : ∀ d ∈ others, NotNegative d) (hpos : 0 < others.length) (hlen : others.length ≤ 2 ^ 64) :
    (factor own others).Sound := by
  have hratios : ∀ r ∈ others.map (· / own), NotNegative r := fun r hr => by
    obtain ⟨d, hd, rfl⟩ := List.mem_map.1 hr
    exact (h d hd).div hown
  have hvalue : (factor own others).value.isNaN = others.any fun d => (d / own).isNaN := by
    rw [factor, isNaN_average hratios (by simpa using hpos) (by simpa using hlen), List.any_map]
    rfl
  rw [Factor.Sound, hvalue, List.any_eq_true]
  change _ ↔ standing own others ≠ .bySize
  cases hfind : others.find? fun d => Scalar.isUndefined (d / own) with
  | none =>
    rw [standing, hfind]
    refine iff_of_false ?_ (not_not.2 rfl)
    rintro ⟨d, hd, hnan⟩
    exact List.find?_eq_none.1 hfind d hd hnan
  | some d =>
    have hnan := List.find?_some (p := fun d => Scalar.isUndefined (d / own)) hfind
    rw [standing, hfind]
    refine iff_of_true ⟨d, List.mem_of_find?_eq_some hfind, hnan⟩ ?_
    dsimp only
    split <;> exact Standing.noConfusion

/-- If the other samples are in order of distance, the nearest are the first of them. -/
theorem nearest_of_pairwise {m : Metric} {k : ℕ} {xs : List (Sample Float)} {i : ℕ} {x : Sample Float}
    {l : List (ℕ × Float)}
    (hl : ((xs.zipIdx.filter fun (_, j) => j ≠ i).map fun (y, j) => (j, distance m x y)) = l)
    (h : l.Pairwise fun p q => noFarther p.2 q.2) : nearest m k xs i x = l.take k := by
  rw [nearest, hl]
  exact congrArg (List.take k) (List.mergeSort_of_pairwise h)

theorem sound_factors {c : DensityClassifier Float} (hone : 1 ≤ c.neighbours) (hmost : c.neighbours < 2 ^ 64)
    (xs : List (Sample Float)) : ∀ f ∈ c.factors xs, f.Sound := by
  intro f hf
  by_cases hxs : xs.length < 2
  · rw [factors, if_pos hxs] at hf
    exact absurd hf List.not_mem_nil
  have hsamples : 2 ≤ xs.length := not_lt.1 hxs
  have hnear : ∀ ns ∈ c.neighbourhoods xs, 0 < ns.length ∧ ns.length ≤ 2 ^ 64 ∧ ∀ p ∈ ns, NotNegative p.2 := by
    intro ns hns
    obtain ⟨⟨x, i⟩, -, rfl⟩ := List.mem_map.1 hns
    have hk : 1 ≤ min c.neighbours (xs.length - 1) := by omega
    obtain ⟨hpos, hle⟩ := length_nearestBy (distance c.metric) hk hsamples i x
    exact ⟨hpos, hle.trans (by omega), notNegative_nearest⟩
  have hreaches : ∀ r ∈ (c.neighbourhoods xs).map reach, NotNegative r := fun r hr => by
    obtain ⟨ns, hns, rfl⟩ := List.mem_map.1 hr
    exact notNegative_reach (hnear ns hns).2.2
  have hdensities : ∀ d ∈ (c.neighbourhoods xs).map (density ((c.neighbourhoods xs).map reach).toArray),
      NotNegative d := fun d hd => by
    obtain ⟨ns, hns, rfl⟩ := List.mem_map.1 hd
    exact notNegative_density hreaches (hnear ns hns).2.2
  rw [factors, if_neg hxs] at hf
  obtain ⟨⟨ns, i⟩, hmem, rfl⟩ := List.mem_map.1 hf
  obtain ⟨hpos, hle, -⟩ := hnear ns (List.fst_mem_of_mem_zipIdx hmem)
  refine sound_factor (notNegative_getD hdensities i) (fun d hd => ?_) (by simpa using hpos) (by simpa using hle)
  obtain ⟨⟨j, e⟩, -, rfl⟩ := List.mem_map.1 hd
  exact notNegative_getD hdensities j

/-! ### Labels -/

/-- The labels are those of the top of a ranking of factors. -/
structure TopOfRanking (budget : ℕ) (fs : List (Factor Float)) (labels : List Label) : Prop where
  length : labels.length = fs.length
  /-- Anomalous is a factor above one that fewer others precede than the budget allows. -/
  anomalous_iff (i : ℕ) : labels[i]? = some .anomalous ↔
    ∃ f, fs[i]? = some f ∧ Binary64.ofNat 1 < f.value ∧ preceding fs f i < budget
  count_le : labels.count .anomalous ≤ budget
  /-- No factor is passed over for a smaller one. -/
  upward {i j : ℕ} {f g : Factor Float} (hf : fs[i]? = some f) (hg : fs[j]? = some g)
    (h : labels[i]? = some .anomalous) (hlt : f.value < g.value) : labels[j]? = some .anomalous

theorem precedes_of_lt {f g : Factor Float} (hf : f.Sound) (hg : g.Sound) (hone : Binary64.ofNat 1 < f.value)
    (h : f.value < g.value) (i j : ℕ) : Factor.Precedes (g, j) (f, i) := by
  obtain ⟨hfdefined, hgdefined⟩ := Binary64.isNaN_of_lt h
  have hposition := (Binary64.lt_iff hfdefined hgdefined).1 h
  rw [Factor.precedes_iff hg hf hone, Factor.sortKey, Factor.sortKey, hf.bySize_of_lt hone, hg.bySize_of_lt h]
  exact .inl (neg_lt_neg hposition)

theorem topOfRanking {fs : List (Factor Float)} (hs : ∀ f ∈ fs, f.Sound) (budget : ℕ) :
    TopOfRanking budget fs (labelFactors budget fs) where
  length := by simp [labelFactors]
  anomalous_iff := label_iff hs budget
  count_le := count_labelFactors_le budget fs
  upward {i j f g} hf hg h hlt := by
    rw [label_iff hs] at h ⊢
    obtain ⟨f', hf', hone, hcount⟩ := h
    obtain rfl : f = f' := Option.some.inj (hf.symm.trans hf')
    have hbefore := precedes_of_lt (hs f (List.mem_of_getElem? hf)) (hs g (List.mem_of_getElem? hg)) hone hlt i j
    exact ⟨g, hg, Binary64.lt_trans' hone hlt, (preceding_le hbefore).trans_lt hcount⟩

/-- The density classifier gives one label for each sample. -/
theorem classify_topOfRanking (c : LofConfig) (xs : List (Sample Float)) :
    ((ofConfig c).classify xs).length = xs.length ∧
      (xs.length < 2 → ∀ l ∈ (ofConfig c).classify xs, l = .normal) ∧
      (2 ≤ xs.length → TopOfRanking ((ofConfig c).budget xs.length) ((ofConfig c).factors xs)
        ((ofConfig c).classify xs)) ∧
      ∀ (budget : ℕ) (fs : List (Factor Float)), (∀ f ∈ fs, f.Sound) →
        TopOfRanking budget fs (labelFactors budget fs) := by
  refine ⟨length_classify _ xs, fun hfew l hl => ?_, fun hxs => ?_, fun budget fs hs => topOfRanking hs budget⟩
  · rw [classify, if_pos hfew] at hl
    obtain ⟨-, -, rfl⟩ := List.mem_map.1 hl
    rfl
  · rw [classify, if_neg (by omega)]
    have hone : 1 ≤ (ofConfig c).neighbours := le_max_right _ _
    have hmost : (ofConfig c).neighbours < 2 ^ 64 := max_lt c.neighbours.toNat_lt (by norm_num)
    exact topOfRanking (sound_factors hone hmost xs) _

/-- Two calls of which one may be anomalous, and four factors of which an undefined one takes the first of
three places, so that the second of two equal ones is not called anomalous. -/
theorem classify_topOfRanking_undefined_first :
    let c : LofConfig := { contamination := Binary64.ofDecimal 5 (-1) }
    let xs : List (Sample Float) := [⟨Binary64.ofNat 0, Binary64.ofNat 1⟩, ⟨Binary64.ofNat 5, Binary64.ofNat 2⟩]
    let two : Factor Float := ⟨Binary64.ofNat 2, .bySize⟩
    let fs := [two, ⟨Binary64.infinity, .bySize⟩, ⟨Binary64.undefined, .first⟩, two]
    (2 ≤ xs.length ∧ TopOfRanking 1 ((ofConfig c).factors xs) ((ofConfig c).classify xs)) ∧
      (∀ f ∈ fs, f.Sound) ∧ TopOfRanking 3 fs (labelFactors 3 fs) ∧
      (labelFactors 3 fs)[0]? = some .anomalous ∧ (labelFactors 3 fs)[3]? ≠ some .anomalous := by
  intro c xs two fs
  obtain ⟨-, -, htop, hall⟩ := classify_topOfRanking c xs
  have hs : ∀ f ∈ fs, f.Sound := by decide +kernel
  have hbudget : (ofConfig c).budget xs.length = 1 := by decide +kernel
  have hfirst : preceding fs two 0 < 3 := by decide +kernel
  have hlast : ¬ preceding fs two 3 < 3 := by decide +kernel
  refine ⟨⟨le_rfl, hbudget ▸ htop le_rfl⟩, hs, hall 3 fs hs, ?_, fun h => ?_⟩
  · exact ((hall 3 fs hs).anomalous_iff 0).2 ⟨two, rfl, by decide +kernel, hfirst⟩
  · obtain ⟨f, hf, -, hcount⟩ := ((hall 3 fs hs).anomalous_iff 3).1 h
    obtain rfl : two = f := Option.some.inj hf
    exact hlast hcount

end DensityClassifier

end TraceAnomaly
