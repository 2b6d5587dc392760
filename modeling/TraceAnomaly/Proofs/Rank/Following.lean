import TraceAnomaly.Proofs.Rank.Replay

/-! Ranks whose aggregators answer alike report alike. One aggregator follows another if from related states
it gives the same replies and leaves related states; ranks that are connected by the one do what the same
ranks do that are connected by the other. Where the replies agree only as long as all goes well, it is enough
that all goes well with the aggregator that is followed. -/

namespace TraceAnomaly

variable {σ τ : Type}

namespace Detector

/-- The detector after its push was replied to, and whether merged statistics are now there. -/
def replied (d : Detector) : Except CallError (Keyed UInt64 (PowerSums Float)) → Detector × Bool
  | .ok merged =>
    if d.config.pullGlobal then ({ d with unsent := Keyed.empty, merged := merged }, true)
    else ({ d with unsent := Keyed.empty }, false)
  | .error _ => ({ d with unsent := Keyed.empty, pushFailed := true }, false)

/-- A push is one call and depends on the state through the reply. -/
theorem push_call (d : Detector) (a : Aggregator σ) (s : σ) (hd : d.unsent.isEmpty = false) :
    d.push (some a) s = ((d.replied (a.call (.updateAll d.unsent) s).2).1,
      (a.call (.updateAll d.unsent) s).1, (d.replied (a.call (.updateAll d.unsent) s).2).2) := by
  simp only [push, hd]
  rcases a.call (.updateAll d.unsent) s with ⟨s', merged | e⟩
  · rfl
  · cases hpull : d.config.pullGlobal <;> simp [replied, hpull]

theorem pushAbnormal_call (d : Detector) (a : Aggregator σ) (s : σ) (hd : d.abnormal.isEmpty = false) :
    d.pushAbnormal (some a) s = (a.call (.addAbnormalAll d.abnormal) s).1 := by
  simp [pushAbnormal, hd]

theorem pushAbnormal_idle (d : Detector) (a : Option (Aggregator σ)) (s : σ) (hd : d.abnormal.isEmpty) :
    d.pushAbnormal a s = s := by
  cases a <;> simp [pushAbnormal, hd]

end Detector

/-- From related states the first aggregator replies as the second does and leaves related states, if the
second leaves a good state. No call makes a bad state good. -/
structure Aggregator.Follows (a : Aggregator σ) (b : Aggregator τ) (Good : τ → Prop) (R : σ → τ → Prop) :
    Prop where
  before {ρ : Type} (q : Query Float ρ) {t : τ} : Good (b.call q t).1 → Good t
  step {ρ : Type} (q : Query Float ρ) {s : σ} {t : τ} : R s t → Good (b.call q t).1 →
    (a.call q s).2 = (b.call q t).2 ∧ R (a.call q s).1 (b.call q t).1

namespace Aggregator.Follows

variable {a : Aggregator σ} {b : Aggregator τ} {Good : τ → Prop} {R : σ → τ → Prop} {s : σ} {t : τ}

/-! ### One rank -/

theorem push (h : a.Follows b Good R) (d : Detector) (hgood : Good (d.push (some b) t).2.1) :
    Good t ∧ (R s t → (d.push (some a) s).1 = (d.push (some b) t).1 ∧
      (d.push (some a) s).2.2 = (d.push (some b) t).2.2 ∧ R (d.push (some a) s).2.1 (d.push (some b) t).2.1) := by
  cases hd : d.unsent.isEmpty with
  | true =>
    rw [d.push_idle t _ hd] at hgood ⊢
    rw [d.push_idle s _ hd]
    exact ⟨hgood, fun hR => ⟨rfl, rfl, hR⟩⟩
  | false =>
    rw [d.push_call b t hd] at hgood ⊢
    refine ⟨h.before _ hgood, fun hR => ?_⟩
    obtain ⟨hreply, hnext⟩ := h.step _ hR hgood
    rw [d.push_call a s hd, hreply]
    exact ⟨rfl, rfl, hnext⟩

theorem pushAbnormal (h : a.Follows b Good R) (d : Detector) (hgood : Good (d.pushAbnormal (some b) t)) :
    Good t ∧ (R s t → R (d.pushAbnormal (some a) s) (d.pushAbnormal (some b) t)) := by
  cases hd : d.abnormal.isEmpty with
  | true =>
    rw [d.pushAbnormal_idle _ t hd] at hgood ⊢
    rw [d.pushAbnormal_idle _ s hd]
    exact ⟨hgood, id⟩
  | false =>
    rw [d.pushAbnormal_call b t hd] at hgood ⊢
    rw [d.pushAbnormal_call a s hd]
    exact ⟨h.before _ hgood, fun hR => (h.step _ hR hgood).2⟩

theorem conclude (h : a.Follows b Good R) (r : Rank) (f : Frame) (hgood : Good (r.conclude (some b) t f).2.1) :
    Good t ∧ (R s t → (r.conclude (some a) s f).1 = (r.conclude (some b) t f).1 ∧
      (r.conclude (some a) s f).2.2 = (r.conclude (some b) t f).2.2 ∧
      R (r.conclude (some a) s f).2.1 (r.conclude (some b) t f).2.1) := by
  simp only [Rank.conclude] at hgood ⊢
  obtain ⟨hstart, hpush⟩ := h.push (s := s) _ (h.pushAbnormal (s := s) _ hgood).1
  refine ⟨hstart, fun hR => ?_⟩
  obtain ⟨hdetector, hused, hnext⟩ := hpush hR
  rw [hdetector, hused]
  exact ⟨rfl, rfl, (h.pushAbnormal _ hgood).2 hnext⟩

/-- A rank takes a frame in the same way. -/
theorem process (h : a.Follows b Good R) (r : Rank) (f : Frame) (hgood : Good (r.process (some b) t f).2.1) :
    Good t ∧ (R s t → (r.process (some a) s f).1 = (r.process (some b) t f).1 ∧
      (r.process (some a) s f).2.2 = (r.process (some b) t f).2.2 ∧
      R (r.process (some a) s f).2.1 (r.process (some b) t f).2.1) := by
  unfold Rank.process at hgood ⊢
  split
  · rename_i hr
    rw [if_pos hr] at hgood
    exact ⟨hgood, fun hR => ⟨rfl, rfl, hR⟩⟩
  · rename_i hr
    rw [if_neg hr] at hgood
    split
    · rename_i hf
      rw [if_pos hf] at hgood
      exact ⟨hgood, fun hR => ⟨rfl, rfl, hR⟩⟩
    · rename_i hf
      rw [if_neg hf] at hgood
      cases houtcome : (r.calls.beginFrame.ingest r.counts f).2.2 with
      | error e =>
        simp only [houtcome] at hgood ⊢
        exact ⟨hgood, fun hR => ⟨trivial, trivial, hR⟩⟩
      | ok u =>
        simp only [houtcome] at hgood ⊢
        obtain ⟨hstart, hconclude⟩ := h.conclude (s := s) _ f hgood
        refine ⟨hstart, fun hR => ?_⟩
        obtain ⟨hrank, hreport, hnext⟩ := hconclude hR
        exact ⟨hrank, congrArg FrameStatus.completed hreport, hnext⟩

end Aggregator.Follows

/-! ### Many ranks -/

namespace Ensemble

variable {ι : Type} [DecidableEq ι] {a : ι → Aggregator σ} {b : ι → Aggregator τ} {Good : τ → Prop}
  {R : σ → τ → Prop}

theorem process_of_follows (h : ∀ i, (a i).Follows (b i) Good R) {w : Ensemble ι σ} {v : Ensemble ι τ}
    (hranks : w.ranks = v.ranks) (i : ι) (f : Frame) (hgood : Good (v.process (some ∘ b) i f).1.shared) :
    Good v.shared ∧ (R w.shared v.shared →
      (w.process (some ∘ a) i f).2 = (v.process (some ∘ b) i f).2 ∧
      (w.process (some ∘ a) i f).1.ranks = (v.process (some ∘ b) i f).1.ranks ∧
      R (w.process (some ∘ a) i f).1.shared (v.process (some ∘ b) i f).1.shared) := by
  obtain ⟨hstart, hprocess⟩ := (h i).process (s := w.shared) (v.ranks i) f hgood
  refine ⟨hstart, fun hR => ?_⟩
  obtain ⟨hrank, hstatus, hnext⟩ := hprocess hR
  simp only [process, Function.comp_apply, hranks]
  exact ⟨hstatus, congrArg _ hrank, hnext⟩

/-- Ranks whose aggregators follow those of the same ranks give the same answers to a schedule. -/
theorem processAll_of_follows (h : ∀ i, (a i).Follows (b i) Good R) {w : Ensemble ι σ} {v : Ensemble ι τ}
    (hranks : w.ranks = v.ranks) (schedule : List (ι × Frame))
    (hgood : Good (v.processAll (some ∘ b) schedule).1.shared) :
    Good v.shared ∧ (R w.shared v.shared →
      (w.processAll (some ∘ a) schedule).2 = (v.processAll (some ∘ b) schedule).2 ∧
      (w.processAll (some ∘ a) schedule).1.ranks = (v.processAll (some ∘ b) schedule).1.ranks ∧
      R (w.processAll (some ∘ a) schedule).1.shared (v.processAll (some ∘ b) schedule).1.shared) := by
  induction schedule generalizing w v with
  | nil => exact ⟨hgood, fun hR => ⟨rfl, hranks, hR⟩⟩
  | cons e rest ih =>
    obtain ⟨i, f⟩ := e
    -- that the state in between is good does not depend on the other ensemble
    obtain ⟨hbetween, -⟩ := ih (w := ⟨(v.process (some ∘ b) i f).1.ranks, w.shared⟩) rfl hgood
    obtain ⟨hstart, hfirst⟩ := process_of_follows h hranks i f hbetween
    refine ⟨hstart, fun hR => ?_⟩
    obtain ⟨hstatus, hranks', hnext⟩ := hfirst hR
    obtain ⟨hstatuses, hlast⟩ := (ih hranks' hgood).2 hnext
    exact ⟨congrArg₂ List.cons hstatus hstatuses, hlast⟩

end Ensemble

/-! ### The calls that are made -/

namespace Aggregator

variable (a : Aggregator σ) (b : Aggregator τ) (ok : {ρ : Type} → Query Float ρ → τ → Bool) (R : σ → τ → Prop)

/-- An aggregator that is watched. Beside its state stands whether every call so far has been as it should
be. -/
def watched : Aggregator (τ × Bool) where
  call q t := (((b.call q t.1).1, t.2 && ok q t.1), (b.call q t.1).2)

/-- To be watched changes nothing. -/
theorem follows_watched : b.Follows (b.watched ok) (fun _ => True) fun t u => t = u.1 where
  before _ _ _ := trivial
  step := by
    rintro ρ q _ u rfl -
    exact ⟨rfl, rfl⟩

/-- From related states two aggregators answer a call alike and leave related states, if the call is as it
should be. -/
structure Agrees : Prop where
  call {ρ : Type} (q : Query Float ρ) {s : σ} {t : τ} : R s t → ok q t →
    (a.call q s).2 = (b.call q t).2 ∧ R (a.call q s).1 (b.call q t).1

variable {a b ok R} in
theorem Agrees.follows_watched (h : a.Agrees b ok R) :
    a.Follows (b.watched ok) (fun u => u.2) fun s u => R s u.1 where
  before _ _ hgood := (Bool.and_eq_true_iff.1 hgood).1
  step q _ _ hR hgood := h.call q hR (Bool.and_eq_true_iff.1 hgood).2

end Aggregator

namespace Ensemble

variable {ι : Type} [DecidableEq ι] {a : ι → Aggregator σ} {b : ι → Aggregator τ}
  {ok : {ρ : Type} → Query Float ρ → τ → Bool} {R : σ → τ → Prop}

/-- Whether every call that ranks make when they take the frames of a schedule is as it should be. -/
def callsAll (b : ι → Aggregator τ) (ok : {ρ : Type} → Query Float ρ → τ → Bool) (v : Ensemble ι τ)
    (schedule : List (ι × Frame)) : Bool :=
  let watched : Ensemble ι (τ × Bool) := ⟨v.ranks, v.shared, true⟩
  (watched.processAll (fun i => some ((b i).watched ok)) schedule).1.shared.2

/-- Ranks give the same answers over aggregators that agree on the calls that they make. -/
theorem processAll_of_agrees (h : ∀ i, (a i).Agrees (b i) ok R) {w : Ensemble ι σ} {v : Ensemble ι τ}
    (hranks : w.ranks = v.ranks) (hR : R w.shared v.shared) {schedule : List (ι × Frame)}
    (hcalls : v.callsAll b ok schedule) :
    (w.processAll (some ∘ a) schedule).2 = (v.processAll (some ∘ b) schedule).2 ∧
      (w.processAll (some ∘ a) schedule).1.ranks = (v.processAll (some ∘ b) schedule).1.ranks ∧
      R (w.processAll (some ∘ a) schedule).1.shared (v.processAll (some ∘ b) schedule).1.shared := by
  let watched : Ensemble ι (τ × Bool) := ⟨v.ranks, v.shared, true⟩
  obtain ⟨hanswers, hranks', hrelated⟩ :=
    (processAll_of_follows (fun i => (h i).follows_watched) (v := watched) hranks schedule hcalls).2 hR
  obtain ⟨hanswers₀, hranks₀, hshared⟩ :=
    (processAll_of_follows (fun i => (b i).follows_watched ok) (w := v) (v := watched) rfl schedule trivial).2 rfl
  exact ⟨hanswers.trans hanswers₀.symm, hranks'.trans hranks₀.symm, hshared ▸ hrelated⟩

end Ensemble

end TraceAnomaly
