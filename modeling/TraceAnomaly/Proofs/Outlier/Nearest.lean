import TraceAnomaly.Proofs.Outlier.Density

/-! The neighbours that factors are computed from. Of every sample they are the nearest others, counted by the
total order of distances, and of equally distant ones the earlier. So the reach of a neighbourhood is the distance
of its last member, every place that a neighbourhood names has a reach and a density, and no mean is taken over
nothing. -/

namespace TraceAnomaly

namespace Binary64

open Float.Model.UnpackedFloat (Sign)

/-- The place of a number in the total order of words: the negative zero stands just below the positive one, and
the undefined number above all others. -/
def height (x : Float) : ℤ :=
  if x.toBits.toNat < 2 ^ 63 then x.toBits.toNat else 2 ^ 63 - 1 - x.toBits.toNat

theorem unpack_of_isNaN {x : Float} (h : x.isNaN = true) : x.toModel.unpack = .notANumber := by
  by_contra hne
  rw [isNaN_eq_false_iff.2 hne] at h
  cases h

theorem eq_undefined {x : Float} (h : x.isNaN = true) : x = undefined :=
  congrArg Float.ofModel (unpack_injective ((unpack_of_isNaN h).trans (unpack_of_isNaN (by decide)).symm))

theorem NotNegative.toBits_lt {x : Float} (hx : NotNegative x) (h : x.isNaN = false) :
    x.toBits.toNat < 2 ^ 63 := by
  obtain ⟨s, E, M, hfields⟩ := exists_fields x.toModel.toBits.toBitVec
  have hunpack : x.toModel.unpack = ofFields s E M := by
    rw [Float.Model.unpack, ← hfields, unpack_packComponents]
  have hfinite : E = -1#11 → M = 0#52 := fun hE => by_contra fun hM => by
    rw [isNaN_eq_false_iff, hunpack, ofFields, if_pos hE, if_neg hM] at h
    exact h rfl
  have hsign := hx.sign?_eq h
  rw [hunpack, sign?_ofFields s hfinite] at hsign
  obtain rfl := Option.some.inj hsign
  have hbits : x.toBits.toNat = Sign.positive.toBitVec.toNat * 2 ^ 63 +
      E.toNat * 2 ^ 52 + M.toNat := by
    rw [← toNat_packComponents, hfields]
    rfl
  have hsign : Sign.positive.toBitVec.toNat = 0 := rfl
  have hE : E.toNat < 2 ^ 11 := E.isLt
  have hM : M.toNat < 2 ^ 52 := M.isLt
  omega

theorem NotNegative.height_eq {x : Float} (hx : NotNegative x) (h : x.isNaN = false) :
    height x = position x := by
  rw [height, position_eq h, if_pos (hx.toBits_lt h), if_pos (hx.toBits_lt h)]

end Binary64

namespace DensityClassifier

open Binary64 (NotNegative height)

/-- Distances are not negative, so by size they stand as in the total order. -/
theorem noFarther_eq {x y : Float} (hx : NotNegative x) (hy : NotNegative y) :
    noFarther x y = decide (height x ≤ height y) := by
  have htop : height Binary64.undefined = 0x7ff8000000000000 := by decide
  have hbelow : ∀ z : Float, NotNegative z → z.isNaN = false → height z < height Binary64.undefined := by
    intro z hz hdefined
    have hbound := (Binary64.position_bounds z).2
    rw [hz.height_eq hdefined, htop]
    exact hbound.trans_lt (by decide)
  change (y.isNaN || (!x.isNaN && decide (x ≤ y))) = _
  cases hydefined : y.isNaN with
  | true =>
    obtain rfl := Binary64.eq_undefined hydefined
    cases hxdefined : x.isNaN with
    | true =>
      obtain rfl := Binary64.eq_undefined hxdefined
      simp
    | false => simp [(hbelow x hx hxdefined).le]
  | false =>
    cases hxdefined : x.isNaN with
    | true =>
      obtain rfl := Binary64.eq_undefined hxdefined
      simp [hbelow y hy hydefined]
    | false =>
      rw [hx.height_eq hxdefined, hy.height_eq hydefined]
      simp [Binary64.le_iff hxdefined hydefined]

/-! ### Neighbours under any distance -/

section Under

variable {P α : Type} (key : α → ℤ) (d : P → P → α)

/-- The points besides the one at place `i`, by place and distance. -/
def others (xs : List P) (i : ℕ) (x : P) : List (ℕ × α) :=
  (xs.zipIdx.filter fun (_, j) => j ≠ i).map fun (y, j) => (j, d x y)

/-- The `k` points nearest to the one at place `i`, where distances compare as their keys. -/
def nearestUnder (k : ℕ) (xs : List P) (i : ℕ) (x : P) : List (ℕ × α) :=
  ((others d xs i x).mergeSort fun p q => key p.2 ≤ key q.2).take k

def neighbourhoodsUnder (k : ℕ) (xs : List P) : List (List (ℕ × α)) :=
  xs.zipIdx.map fun (x, i) => nearestUnder key d (min k (xs.length - 1)) xs i x

/-- The nearer point goes before, of equally distant ones the earlier. -/
def Nearer (p q : ℕ × α) : Prop := key p.2 < key q.2 ∨ key p.2 = key q.2 ∧ p.1 < q.1

/-- The `k`-th smallest of some distances: the one that comes at that place when they are put in order. -/
def IsKthSmallest (k : ℕ) (ds : List α) (r : α) : Prop :=
  ∃ sorted : List α, sorted.Perm ds ∧ (sorted.Pairwise fun a b => key a ≤ key b) ∧ sorted[k - 1]? = some r

/-- The list names the `k` points that are nearest to the point `x` at place `i`. -/
structure AreNearest (k : ℕ) (xs : List P) (i : ℕ) (x : P) (ns : List (ℕ × α)) : Prop where
  length : ns.length = k
  distinct : (ns.map Prod.fst).Nodup
  /-- They are other points, each with its distance. -/
  distances : ∀ p ∈ ns, p.1 ≠ i ∧ p.1 < xs.length ∧ ∃ y, xs[p.1]? = some y ∧ p.2 = d x y
  ordered : ns.Pairwise (Nearer key)
  /-- No point that is left out is nearer than the last one that is named. -/
  leftOut : ∀ j y, xs[j]? = some y → j ≠ i → j ∉ ns.map Prod.fst →
    ∀ p, ns.getLast? = some p → Nearer key p (j, d x y)
  /-- The last one is as far as the `k`-th nearest of all other points. -/
  last : ∃ p, ns.getLast? = some p ∧ IsKthSmallest key k ((xs.eraseIdx i).map (d x)) p.2

variable {key d} {xs : List P} {i : ℕ} {x : P}

theorem mem_others {p : ℕ × α} : p ∈ others d xs i x ↔ p.1 ≠ i ∧ ∃ y, xs[p.1]? = some y ∧ p.2 = d x y := by
  obtain ⟨j, r⟩ := p
  simp only [others, List.mem_map, List.mem_filter, Prod.exists, List.mk_mem_zipIdx_iff_getElem?,
    decide_eq_true_eq, Prod.mk.injEq]
  constructor
  · rintro ⟨y, j, ⟨hy, hne⟩, rfl, rfl⟩
    exact ⟨hne, y, hy, rfl⟩
  · rintro ⟨hne, y, hy, rfl⟩
    exact ⟨y, j, ⟨hy, hne⟩, rfl, rfl⟩

theorem places_others : (others d xs i x).Pairwise fun p q => p.1 < q.1 := by
  have hplaces : xs.zipIdx.Pairwise fun p q => p.2 < q.2 := by
    rw [← List.pairwise_map, List.zipIdx_map_snd]
    exact List.pairwise_lt_range'
  rw [others, List.pairwise_map]
  exact hplaces.filter _

theorem filter_zipIdx_ne (xs : List P) (start i : ℕ) :
    ((xs.zipIdx start).filter fun p => p.2 ≠ start + i).map Prod.fst = xs.eraseIdx i := by
  induction xs generalizing start i with
  | nil => rfl
  | cons x xs ih =>
    cases i with
    | zero =>
      have hlater : ∀ p ∈ xs.zipIdx (start + 1), p.2 ≠ start := fun p hp => by
        have hle := List.le_snd_of_mem_zipIdx hp
        omega
      have hall : (xs.zipIdx (start + 1)).filter (fun p => p.2 ≠ start) = xs.zipIdx (start + 1) :=
        List.filter_eq_self.2 fun p hp => by simpa using hlater p hp
      simp only [Nat.add_zero, List.zipIdx_cons, ne_eq, not_true_eq_false, decide_false, Bool.false_eq_true,
        not_false_eq_true, List.filter_cons_of_neg, List.eraseIdx_cons_zero]
      simpa using congrArg (List.map Prod.fst) hall
    | succ i =>
      have hshift : start + (i + 1) = start + 1 + i := by omega
      have hne : start ≠ start + 1 + i := by omega
      rw [List.eraseIdx_cons_succ, List.zipIdx_cons, hshift, List.filter_cons_of_pos (by simpa using hne),
        List.map_cons, ih]

/-- The distances of all points but the one at place `i`. -/
theorem map_snd_others : (others d xs i x).map Prod.snd = (xs.eraseIdx i).map (d x) := by
  have herase := filter_zipIdx_ne xs 0 i
  rw [Nat.zero_add] at herase
  rw [others, List.map_map, ← herase, List.map_map]
  rfl

theorem length_others (hi : i < xs.length) : (others d xs i x).length = xs.length - 1 := by
  rw [← List.length_map Prod.snd, map_snd_others, List.length_map, List.length_eraseIdx_of_lt hi]

/-- Sorted by distance, the points stand by distance and then by place. -/
theorem nearer_mergeSort :
    ((others d xs i x).mergeSort fun p q => key p.2 ≤ key q.2).Pairwise (Nearer key) := by
  refine (pairwise_mergeSort_ties (fun p : ℕ × α => key p.2) places_others).imp fun {p q} h => ?_
  rcases h.1.lt_or_eq with hlt | heq
  · exact .inl hlt
  · exact .inr ⟨heq, h.2 heq⟩

theorem Nearer.le {p q : ℕ × α} (h : Nearer key p q) : key p.2 ≤ key q.2 :=
  h.elim le_of_lt fun h => h.1.le

theorem areNearest_nearestUnder {k : ℕ} (hone : 1 ≤ k) (hmost : k ≤ xs.length - 1) (hi : i < xs.length) :
    AreNearest key d k xs i x (nearestUnder key d k xs i x) := by
  set sorted := (others d xs i x).mergeSort fun p q => key p.2 ≤ key q.2 with hsorted
  have hperm : sorted.Perm (others d xs i x) := List.mergeSort_perm _ _
  have hordered : sorted.Pairwise (Nearer key) := nearer_mergeSort
  have hlength : sorted.length = xs.length - 1 := hperm.length_eq.trans (length_others hi)
  have hnear : nearestUnder key d k xs i x = sorted.take k := rfl
  have hmem : ∀ p ∈ sorted.take k, p ∈ others d xs i x := fun p hp => hperm.mem_iff.1 (List.mem_of_mem_take hp)
  have hlast : (sorted.take k).getLast? = sorted[k - 1]? := by
    rw [List.getLast?_take, if_neg (by omega), List.getElem?_eq_getElem (by omega), Option.some_or]
  rw [hnear]
  refine ⟨?_, ?_, fun p hp => ?_, hordered.sublist (List.take_sublist k sorted), ?_, ?_⟩
  · rw [List.length_take, hlength, Nat.min_eq_left hmost]
  · have hdistinct : ((others d xs i x).map Prod.fst).Nodup :=
      List.Pairwise.map _ (fun _ _ h => Nat.ne_of_lt h) places_others
    exact ((hperm.map Prod.fst).nodup_iff.2 hdistinct).sublist ((List.take_sublist k sorted).map _)
  · obtain ⟨hne, y, hy, hd⟩ := mem_others.1 (hmem p hp)
    exact ⟨hne, (List.getElem?_eq_some_iff.1 hy).1, y, hy, hd⟩
  · intro j y hy hne hout p hp
    -- what is left out stands behind all that is named
    have hsplit : (j, d x y) ∈ sorted.take k ++ sorted.drop k := by
      rw [List.take_append_drop]
      exact hperm.mem_iff.2 (mem_others.2 ⟨hne, y, hy, rfl⟩)
    have hbehind : (j, d x y) ∈ sorted.drop k :=
      (List.mem_append.1 hsplit).resolve_left fun h => hout (List.mem_map_of_mem h)
    rw [← List.take_append_drop k sorted, List.pairwise_append] at hordered
    exact hordered.2.2 p (List.mem_of_getLast? hp) _ hbehind
  · have hget : sorted[k - 1]? = some sorted[k - 1] := List.getElem?_eq_getElem (by omega)
    refine ⟨sorted[k - 1], hlast.trans hget, sorted.map Prod.snd, ?_, ?_, ?_⟩
    · rw [← map_snd_others]
      exact hperm.map Prod.snd
    · rw [List.pairwise_map]
      exact hordered.imp Nearer.le
    · rw [List.getElem?_map, hget, Option.map_some]

/-- The lists name the `k` nearest points of every point. -/
structure AreNeighbourhoods (key : α → ℤ) (d : P → P → α) (k : ℕ) (xs : List P) (ns : List (List (ℕ × α))) :
    Prop where
  length : ns.length = xs.length
  nearest : ∀ i x n, xs[i]? = some x → ns[i]? = some n → AreNearest key d k xs i x n

theorem areNeighbourhoods_neighbourhoodsUnder (key : α → ℤ) (d : P → P → α) {m : ℕ} (hm : 1 ≤ m)
    (hxs : 2 ≤ xs.length) :
    AreNeighbourhoods key d (min m (xs.length - 1)) xs (neighbourhoodsUnder key d m xs) where
  length := by simp [neighbourhoodsUnder]
  nearest i x n hx hn := by
    rw [neighbourhoodsUnder, List.getElem?_map, List.getElem?_zipIdx, hx] at hn
    obtain rfl := Option.some.inj hn
    rw [Nat.zero_add]
    exact areNearest_nearestUnder (by omega) (Nat.min_le_right _ _) (List.getElem?_eq_some_iff.1 hx).1

end Under

/-! ### Factors without a fallback -/

section Checked

variable {α : Type} [Scalar α]

open Scalar (ofNat)

def average? (xs : List α) : Option α := if xs = [] then none else some (average xs)

/-- The density around a point, unless a neighbour has no reach or there is no neighbour. -/
def density? (reaches : List α) (n : List (ℕ × α)) : Option α := do
  let distances ← n.mapM fun (j, d) => reaches[j]?.map (Scalar.max d)
  let mean ← average? distances
  some (ofNat 1 / (mean + smallest))

/-- The factor of the point at a place, unless a density is missing or there is no neighbour. -/
def factor? (densities : List α) (i : ℕ) (n : List (ℕ × α)) : Option (Factor α) := do
  let own ← densities[i]?
  let others ← n.mapM fun (j, _) => densities[j]?
  let value ← average? (others.map (· / own))
  some ⟨value, standing own others⟩

/-- The factors of points with these neighbours, as long as nothing is asked for that is not there. -/
def factorsOf? (ns : List (List (ℕ × α))) : Option (List (Factor α)) := do
  let densities ← ns.mapM (density? (ns.map reach))
  ns.zipIdx.mapM fun (n, i) => factor? densities i n

theorem mapM_eq_some_map {β γ : Type} {f : β → Option γ} {g : β → γ} {l : List β}
    (h : ∀ b ∈ l, f b = some (g b)) : l.mapM f = some (l.map g) := by
  induction l with
  | nil => rfl
  | cons b l ih =>
    obtain ⟨hb, hl⟩ := List.forall_mem_cons.1 h
    rw [List.mapM_cons, hb, ih hl]
    rfl

theorem getElem?_eq_getD {l : List α} {j : ℕ} (hj : j < l.length) : l[j]? = some (l.toArray.getD j (ofNat 0)) := by
  rw [Array.getD_eq_getD_getElem?, List.getElem?_toArray, List.getElem?_eq_getElem hj, Option.getD_some]

theorem average?_eq {xs : List α} (h : xs ≠ []) : average? xs = some (average xs) := if_neg h

/-- Where every neighbour is one of the points, and every point has one, nothing is missing. -/
theorem factorsOf?_eq {ns : List (List (ℕ × α))} (hne : ∀ n ∈ ns, n ≠ [])
    (hplaces : ∀ n ∈ ns, ∀ p ∈ n, p.1 < ns.length) : factorsOf? ns = some (factorsOf ns) := by
  have hreaches : (ns.map reach).length = ns.length := List.length_map _
  have hdensities : (densitiesOf ns).length = ns.length := List.length_map _
  have hdensity : ∀ n ∈ ns, density? (ns.map reach) n = some (density (ns.map reach).toArray n) := fun n hn => by
    have hfar := mapM_eq_some_map fun p hp => congrArg (Option.map (Scalar.max p.2))
      (getElem?_eq_getD (hreaches.symm ▸ hplaces n hn p hp))
    rw [density?, hfar, Option.bind_eq_bind, Option.bind_some, average?_eq (by simpa using hne n hn)]
    rfl
  have hfactor : ∀ p ∈ ns.zipIdx, factor? (densitiesOf ns) p.2 p.1 =
      some (factor (densityAt ns p.2) (p.1.map fun q => densityAt ns q.1)) := fun p hp => by
    have hn : p.1 ∈ ns := List.fst_mem_of_mem_zipIdx hp
    have hi : p.2 < ns.length := List.snd_lt_of_mem_zipIdx hp
    have hothers := mapM_eq_some_map fun q hq => getElem?_eq_getD (hdensities.symm ▸ hplaces p.1 hn q hq)
    rw [factor?, getElem?_eq_getD (hdensities.symm ▸ hi), Option.bind_eq_bind, Option.bind_some, hothers,
      Option.bind_eq_bind, Option.bind_some, average?_eq (by simpa using hne p.1 hn)]
    rfl
  rw [factorsOf?, mapM_eq_some_map hdensity]
  exact mapM_eq_some_map hfactor

end Checked

/-! ### Neighbours of samples -/

/-- Distances compare as their places in the total order. -/
theorem neighbourhoods_eq (c : DensityClassifier Float) (xs : List (Sample Float)) :
    c.neighbourhoods xs = neighbourhoodsUnder height (distance c.metric) c.neighbours xs := by
  refine List.map_congr_left fun p _ => congrArg (List.take _) ?_
  have hnot : ∀ q ∈ others (distance c.metric) xs p.2 p.1, NotNegative q.2 := fun q hq => by
    obtain ⟨-, y, -, hd⟩ := mem_others.1 hq
    exact hd ▸ notNegative_distance c.metric p.1 y
  have hmap := List.map_mergeSort (r := fun p q : ℕ × Float => noFarther p.2 q.2)
    (s := fun p q => decide (height p.2 ≤ height q.2)) (f := id) (l := others (distance c.metric) xs p.2 p.1)
    fun p hp q hq => noFarther_eq (hnot p hp) (hnot q hq)
  rwa [List.map_id, List.map_id] at hmap

/-- With two points at least there is a neighbour to be asked for, whatever the distance is. -/
theorem neighbourhoodsUnder_nearest {P α : Type} [Scalar α] (key : α → ℤ) (d : P → P → α) (m : ℕ) {xs : List P}
    (hxs : 2 ≤ xs.length) {k : ℕ} {ns : List (List (ℕ × α))} (hk : k = min (max m 1) (xs.length - 1))
    (hns : ns = neighbourhoodsUnder key d (max m 1) xs) :
    1 ≤ k ∧ AreNeighbourhoods key d k xs ns ∧
      (∀ i x, xs[i]? = some x → ∃ r, (ns.map reach)[i]? = some r ∧
        IsKthSmallest key k ((xs.eraseIdx i).map (d x)) r) ∧
      factorsOf? ns = some (factorsOf ns) := by
  have hone : 1 ≤ k := by omega
  have hnear : AreNeighbourhoods key d k xs ns := by
    rw [hk, hns]
    exact areNeighbourhoods_neighbourhoodsUnder key d (le_max_right m 1) hxs
  have hat : ∀ n ∈ ns, ∃ i x, AreNearest key d k xs i x n := fun n hn => by
    obtain ⟨i, hi⟩ := List.mem_iff_getElem?.1 hn
    have hlt : i < xs.length := hnear.length ▸ (List.getElem?_eq_some_iff.1 hi).1
    exact ⟨i, xs[i], hnear.nearest i _ n (List.getElem?_eq_getElem hlt) hi⟩
  refine ⟨hone, hnear, fun i x hx => ?_, factorsOf?_eq (fun n hn => ?_) fun n hn p hp => ?_⟩
  · have hlt : i < ns.length := hnear.length.symm ▸ (List.getElem?_eq_some_iff.1 hx).1
    obtain ⟨p, hp, hsmallest⟩ := (hnear.nearest i x ns[i] hx (List.getElem?_eq_getElem hlt)).last
    refine ⟨p.2, ?_, hsmallest⟩
    rw [List.getElem?_map, List.getElem?_eq_getElem hlt, Option.map_some, reach, hp]
  · obtain ⟨i, x, h⟩ := hat n hn
    exact List.length_pos_iff.1 (by rw [h.length]; exact hone)
  · obtain ⟨i, x, h⟩ := hat n hn
    exact (h.distances p hp).2.1.trans_eq hnear.length.symm

/-- With two samples at least, there is a neighbour to be asked for. The neighbours of every sample are the nearest
other ones in the total order of distances, its reach is the distance of the last of them, and the factors are
computed without asking for a reach or a density that is not there or for the mean of nothing. So it is for points
of any kind under any distance, compared by any keys. -/
theorem neighbourhoods_nearest :
    (∀ (c : LofConfig) (xs : List (Sample Float)), 2 ≤ xs.length →
      let k := min (max c.neighbours.toNat 1) (xs.length - 1)
      let ns := (ofConfig c).neighbourhoods xs
      1 ≤ k ∧ AreNeighbourhoods height (distance c.metric) k xs ns ∧
        (∀ i x, xs[i]? = some x → ∃ r, (ns.map reach)[i]? = some r ∧
          IsKthSmallest height k ((xs.eraseIdx i).map (distance c.metric x)) r) ∧
        factorsOf? ns = some ((ofConfig c).factors xs)) ∧
    ∀ {P α : Type} [Scalar α] (key : α → ℤ) (d : P → P → α) (m : ℕ) (xs : List P), 2 ≤ xs.length →
      let k := min (max m 1) (xs.length - 1)
      let ns := neighbourhoodsUnder key d (max m 1) xs
      1 ≤ k ∧ AreNeighbourhoods key d k xs ns ∧
        (∀ i x, xs[i]? = some x → ∃ r, (ns.map reach)[i]? = some r ∧
          IsKthSmallest key k ((xs.eraseIdx i).map (d x)) r) ∧
        factorsOf? ns = some (factorsOf ns) := by
  refine ⟨fun c xs hxs => ?_, fun key d m xs hxs => neighbourhoodsUnder_nearest key d m hxs rfl rfl⟩
  have hfactors : (ofConfig c).factors xs = factorsOf ((ofConfig c).neighbourhoods xs) := by
    rw [factors_eq, factorsBy, if_neg (by omega)]
    rfl
  intro k ns
  rw [hfactors]
  exact neighbourhoodsUnder_nearest height (distance c.metric) c.neighbours.toNat hxs rfl
    (neighbourhoods_eq (ofConfig c) xs)

/-- Of four calls, the last two are equally far from the first. The earlier of them is its second neighbour. And
three points without end apart have one neighbour each. -/
theorem neighbourhoods_nearest_ties :
    let c : LofConfig := { neighbours := 2, metric := .manhattan }
    let at' (n : ℕ) : Sample Float := ⟨Binary64.ofNat n, Binary64.ofNat 1⟩
    let xs := [at' 0, at' 1, at' 2, at' 2]
    let ns := (ofConfig c).neighbourhoods xs
    2 ≤ xs.length ∧ AreNeighbourhoods height (distance .manhattan) 2 xs ns ∧
      ns[0]? = some [(1, Binary64.ofNat 1), (2, Binary64.ofNat 2)] ∧
      IsKthSmallest height 2 ((xs.eraseIdx 0).map (distance .manhattan (at' 0))) (Binary64.ofNat 2) ∧
      factorsOf? ns = some ((ofConfig c).factors xs) ∧
      let far (_ _ : ℕ) := Binary64.infinity
      AreNeighbourhoods height far 1 [7, 8, 9] (neighbourhoodsUnder height far 1 [7, 8, 9]) := by
  intro c at' xs ns
  obtain ⟨-, hnear, hreach, hfactors⟩ := neighbourhoods_nearest.1 c xs (by decide)
  have hfirst : ns[0]? = some [(1, Binary64.ofNat 1), (2, Binary64.ofNat 2)] :=
    congrArg some (nearest_of_pairwise (l := [(1, Binary64.ofNat 1), (2, Binary64.ofNat 2), (3, Binary64.ofNat 2)])
      (by decide +kernel) (by decide +kernel))
  refine ⟨by decide, hnear, hfirst, ?_, hfactors, ?_⟩
  · obtain ⟨r, hr, hsmallest⟩ := hreach 0 (at' 0) rfl
    rw [List.getElem?_map, hfirst] at hr
    obtain rfl : Binary64.ofNat 2 = r := Option.some.inj hr
    exact hsmallest
  · exact (neighbourhoods_nearest.2 height _ 1 [7, 8, 9] (by decide)).2.1

end DensityClassifier

end TraceAnomaly
