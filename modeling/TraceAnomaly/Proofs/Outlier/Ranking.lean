import TraceAnomaly.Proofs.Binary64.Sign
import TraceAnomaly.Proofs.Outlier.Verdict
import TraceAnomaly.Proofs.StableSort

/-! The labels of a ranking of outlier factors. Anomalous are the factors above one that fewer others precede
than the budget allows, where the larger factor precedes and of equal ones the earlier. -/

namespace TraceAnomaly

open Binary64 (position)

namespace Factor

/-- The place of a factor in the total order of floats: that of the word that holds it, turned around for
negative numbers, so that the negative zero stands just below the positive one. A factor that is
undefined stands above all numbers, or below them if its sign is negative. -/
def height (f : Factor Float) : ℤ :=
  match f.standing with
  | .first => 2 ^ 63
  | .last => -2 ^ 63 - 1
  | .bySize =>
    if f.value.toBits.toNat < 2 ^ 63 then f.value.toBits.toNat else 2 ^ 63 - 1 - f.value.toBits.toNat

/-- Of two factors, each with its place in the list: the larger one precedes, of equal ones the earlier. -/
def Precedes (p q : Factor Float × ℕ) : Prop :=
  q.1.height < p.1.height ∨ p.1.height = q.1.height ∧ p.2 < q.2

instance (p q : Factor Float × ℕ) : Decidable (Precedes p q) := inferInstanceAs (Decidable (_ ∨ _))

/-- Just the undefined factors have a standing of their own. -/
def Sound (f : Factor Float) : Prop := f.value.isNaN = true ↔ f.standing ≠ .bySize

instance (f : Factor Float) : Decidable f.Sound := inferInstanceAs (Decidable (_ ↔ _))

/-- What the ranking sorts by: the place in order of size, the largest first, and zeros together. -/
def sortKey (f : Factor Float) : ℤ :=
  match f.standing with
  | .first => -2 ^ 63
  | .last => 2 ^ 63
  | .bySize => -position f.value

theorem Precedes.trans {p q r : Factor Float × ℕ} (h : Precedes p q) (h' : Precedes q r) :
    Precedes p r := by
  unfold Precedes at *
  omega

variable {f g : Factor Float}

theorem ranksBefore_iff (hf : f.Sound) (hg : g.Sound) :
    DensityClassifier.ranksBefore f g = decide (f.sortKey ≤ g.sortKey) := by
  obtain ⟨x, a⟩ := f
  obtain ⟨y, b⟩ := g
  have hx := Binary64.position_bounds x
  have hy := Binary64.position_bounds y
  rw [Binary64.top] at hx hy
  symm
  cases a with
  | first =>
    refine decide_eq_true ?_
    cases b <;> simp only [sortKey] <;> omega
  | last =>
    cases b with
    | last => exact decide_eq_true le_rfl
    | first => exact decide_eq_false (by simp only [sortKey]; omega)
    | bySize => exact decide_eq_false (by simp only [sortKey]; omega)
  | bySize =>
    cases b with
    | first => exact decide_eq_false (by simp only [sortKey]; omega)
    | last => exact decide_eq_true (by simp only [sortKey]; omega)
    | bySize =>
      have hxdefined : x.isNaN = false := by simpa [Sound] using hf
      have hydefined : y.isNaN = false := by simpa [Sound] using hg
      simp only [DensityClassifier.ranksBefore, sortKey, Scalar.le,
        Binary64.le_iff hydefined hxdefined, neg_le_neg_iff]

theorem Sound.bySize_of_lt (hf : f.Sound) {x : Float} (h : x < f.value) : f.standing = .bySize := by
  by_contra hne
  have hnan := hf.2 hne
  rw [(Binary64.isNaN_of_lt h).2] at hnan
  exact absurd hnan Bool.false_ne_true

/-- Above one it makes no difference whether zeros are told apart. -/
theorem precedes_iff (hf : f.Sound) (hg : g.Sound) (h : Binary64.ofNat 1 < g.value) (i j : ℕ) :
    Precedes (f, i) (g, j) ↔ f.sortKey < g.sortKey ∨ f.sortKey = g.sortKey ∧ i < j := by
  have hstanding := hg.bySize_of_lt h
  obtain ⟨hone, hdefined⟩ := Binary64.isNaN_of_lt h
  have hpositive : 0 < position g.value := by
    have hlt := (Binary64.lt_iff hone hdefined).1 h
    exact lt_trans (by decide +kernel) hlt
  have hbound := Binary64.position_bounds g.value
  have hword := g.value.toBits.toNat_lt
  rw [Binary64.top] at hbound
  rw [Binary64.position_eq hdefined] at hpositive hbound
  unfold Precedes height sortKey
  rw [hstanding]
  simp only
  rw [Binary64.position_eq hdefined]
  have hgword : g.value.toBits.toNat < 2 ^ 63 := by
    by_contra hlarge
    rw [if_neg hlarge] at hpositive
    omega
  rw [if_pos hgword] at *
  cases hs : f.standing with
  | first => simp only; omega
  | last => simp only; omega
  | bySize =>
    have hfdefined : f.value.isNaN = false := by simpa [Sound, hs] using hf
    simp only
    rw [Binary64.position_eq hfdefined]
    split <;> omega

end Factor

namespace DensityClassifier

open Factor (Sound Precedes sortKey)

variable {fs : List (Factor Float)}

/-- Sorting by rank, and by place among equal ones. -/
theorem mem_take_ranked (hs : ∀ f ∈ fs, f.Sound) (budget : ℕ) {p : Factor Float × ℕ} (hp : p ∈ fs.zipIdx) :
    p ∈ (fs.zipIdx.mergeSort fun p q => ranksBefore p.1 q.1).take budget ↔
      fs.zipIdx.countP (fun q => q.1.sortKey < p.1.sortKey ∨ q.1.sortKey = p.1.sortKey ∧ q.2 < p.2) < budget := by
  have hkey : (fs.zipIdx.mergeSort fun p q => ranksBefore p.1 q.1) =
      fs.zipIdx.mergeSort fun p q => p.1.sortKey ≤ q.1.sortKey := by
    have hmap := List.map_mergeSort (r := fun p q : Factor Float × ℕ => ranksBefore p.1 q.1)
      (s := fun p q => decide (p.1.sortKey ≤ q.1.sortKey)) (f := id) (l := fs.zipIdx) fun p hp q hq =>
        Factor.ranksBefore_iff (hs _ (List.fst_mem_of_mem_zipIdx hp)) (hs _ (List.fst_mem_of_mem_zipIdx hq))
    simpa using hmap
  have hplaces : fs.zipIdx.Pairwise fun p q => p.2 < q.2 := by
    rw [← List.pairwise_map, List.zipIdx_map_snd]
    exact List.pairwise_lt_range'
  have hsorted := pairwise_mergeSort_ties (fun p : Factor Float × ℕ => p.1.sortKey) hplaces
  have hperm := List.mergeSort_perm fs.zipIdx fun p q => decide (p.1.sortKey ≤ q.1.sortKey)
  rw [hkey, mem_take_iff_countP_lt
    (fun q p => q.1.sortKey < p.1.sortKey ∨ q.1.sortKey = p.1.sortKey ∧ q.2 < p.2) _ _
    (hperm.mem_iff.2 hp), hperm.countP_eq]
  · refine hsorted.imp fun {p q} h => ?_
    simp only [decide_eq_true_eq]
    omega
  · intro q _
    simp

theorem mem_suspects (hs : ∀ f ∈ fs, f.Sound) (budget : ℕ) {f : Factor Float} {i : ℕ} (hf : fs[i]? = some f) :
    i ∈ suspects budget fs ↔
      fs.zipIdx.countP (fun q => q.1.sortKey < f.sortKey ∨ q.1.sortKey = f.sortKey ∧ q.2 < i) < budget := by
  rw [← mem_take_ranked hs budget (p := (f, i)) (List.mk_mem_zipIdx_iff_getElem?.2 hf), suspects, List.mem_map]
  constructor
  · rintro ⟨⟨g, j⟩, hmem, rfl⟩
    have hg : fs[j]? = some g := List.mk_mem_zipIdx_iff_getElem?.1
      ((List.mergeSort_perm _ _).mem_iff.1 (List.mem_of_mem_take hmem))
    obtain rfl : f = g := Option.some.inj (hf.symm.trans hg)
    exact hmem
  · intro hmem
    exact ⟨(f, i), hmem, rfl⟩

theorem getElem?_labelFactors {α : Type} [Scalar α] (budget : ℕ) (fs : List (Factor α)) (i : ℕ) :
    (labelFactors budget fs)[i]? = fs[i]?.map fun f =>
      if i ∈ suspects budget fs ∧ Scalar.lt (Scalar.ofNat 1) f.value then .anomalous else .normal := by
  simp only [labelFactors, List.getElem?_map, List.getElem?_zipIdx, Option.map_map, Nat.zero_add]
  rfl

/-- How many of the factors precede one at a place. -/
def preceding (fs : List (Factor Float)) (f : Factor Float) (i : ℕ) : ℕ :=
  fs.zipIdx.countP fun q => Precedes q (f, i)

theorem preceding_eq (hs : ∀ f ∈ fs, f.Sound) {f : Factor Float} (hf : f.Sound)
    (h : Binary64.ofNat 1 < f.value) (i : ℕ) : preceding fs f i =
      fs.zipIdx.countP fun q => q.1.sortKey < f.sortKey ∨ q.1.sortKey = f.sortKey ∧ q.2 < i := by
  refine List.countP_congr fun q hq => ?_
  rw [decide_eq_true_iff, decide_eq_true_iff]
  exact Factor.precedes_iff (hs q.1 (List.fst_mem_of_mem_zipIdx hq)) hf h q.2 i

/-- The labels of any list of factors. -/
theorem label_iff (hs : ∀ f ∈ fs, f.Sound) (budget i : ℕ) :
    (labelFactors budget fs)[i]? = some .anomalous ↔
      ∃ f, fs[i]? = some f ∧ Binary64.ofNat 1 < f.value ∧ preceding fs f i < budget := by
  rw [getElem?_labelFactors]
  cases hf : fs[i]? with
  | none => simp
  | some f =>
    have hlabel : i ∈ suspects budget fs ∧ Scalar.lt (Scalar.ofNat 1) f.value ↔
        Binary64.ofNat 1 < f.value ∧ preceding fs f i < budget := by
      have hlt : Scalar.lt (Scalar.ofNat 1) f.value = true ↔ Binary64.ofNat 1 < f.value := decide_eq_true_iff
      rw [hlt, and_comm]
      refine and_congr_right fun h => ?_
      rw [mem_suspects hs budget hf, preceding_eq hs (hs f (List.mem_of_getElem? hf)) h]
    simp [hlabel]

/-- No more labels are anomalous than the budget allows. -/
theorem count_labelFactors_le (budget : ℕ) (fs : List (Factor Float)) :
    (labelFactors budget fs).count .anomalous ≤ budget := by
  have hplaces : (fs.zipIdx.map Prod.snd).Nodup := List.nodup_zipIdx_map_snd fs
  calc (labelFactors budget fs).count .anomalous
      ≤ fs.zipIdx.countP fun p => p.2 ∈ suspects budget fs := by
        rw [List.count, labelFactors, List.countP_map]
        refine List.countP_mono_left fun p _ h => ?_
        by_contra hnot
        simp_all
    _ = ((fs.zipIdx.map Prod.snd).filter (· ∈ suspects budget fs)).length := by
        rw [← List.countP_eq_length_filter, List.countP_map]
        rfl
    _ ≤ (suspects budget fs).length :=
        (hplaces.filter _).subperm (fun i hi => by simpa using (List.mem_filter.1 hi).2) |>.length_le
    _ ≤ budget := by
        rw [suspects, List.length_map]
        exact List.length_take_le _ _

/-- A larger factor goes before. -/
theorem preceding_le {f g : Factor Float} {i j : ℕ} (h : Precedes (g, j) (f, i)) :
    preceding fs g j ≤ preceding fs f i :=
  List.countP_mono_left fun q _ hq => by
    rw [decide_eq_true_iff] at hq ⊢
    exact hq.trans h

end DensityClassifier

end TraceAnomaly
