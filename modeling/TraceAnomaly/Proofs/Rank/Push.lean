import TraceAnomaly.Proofs.Rank.Share
import TraceAnomaly.Proofs.Store.Updates

/-! The push of a frame's statistics, with an aggregator that is absent, answers every call, or fails
every call. What a function is judged by afterwards depends on that and on two settings. -/

namespace TraceAnomaly

variable {α σ : Type} [Scalar α]

/-- The aggregator of a rank, as far as it can be relied on. -/
inductive Link (σ : Type) (α : Type := Float) [Scalar α] where
  | absent
  /-- Every call is answered as by the store that `view` sees. -/
  | working (a : Aggregator σ α) (view : σ → Store α) (h : a.Serves view)
  /-- Every call fails. -/
  | failing (a : Aggregator σ α) (h : a.Fails)

namespace Link

def aggregator? : Link σ α → Option (Aggregator σ α)
  | absent => none
  | working a _ _ => some a
  | failing a _ => some a

abbrev inProcess : Link (Store α) α := working .inProcess id Aggregator.inProcess_serves

def Works : Link σ α → Prop
  | working .. => True
  | _ => False

/-- The statistics that a function is judged by once a batch is sent: the merged ones, the rank's
own, or none. -/
def statistics (l : Link σ α) (c : DetectorConfig) (s : σ) (batch : Keyed UInt64 (PowerSums α))
    (f : UInt64) (own : Option (PowerSums α)) : Option (PowerSums α) :=
  match l, c.pullGlobal, c.onPushFailure with
  | working _ view _, true, _ => some (((view s).updateAll batch).value f)
  | failing .., _, .allNormal => none
  | _, _, _ => own

/-- Verdicts do not depend on the anomalies that the rank has counted. -/
theorem statistics_congr (l : Link σ) (c : DetectorConfig) (s : σ)
    (batch : Keyed UInt64 (PowerSums Float)) (f : UInt64) {own own' : PowerSums Float}
    (h : own.setAbnormal 0 = own'.setAbnormal 0) (t : SigmaThreshold Float) (x : Float) :
    (∃ S, l.statistics c s batch f (some own) = some S ∧ t.Exceeded S x) ↔
      ∃ S, l.statistics c s batch f (some own') = some S ∧ t.Exceeded S x := by
  have hown : t.Exceeded own x ↔ t.Exceeded own' x := by
    rw [← t.exceeded_setAbnormal own 0, h, t.exceeded_setAbnormal]
  unfold statistics
  split <;> simp [hown]

end Link

namespace Detector

variable (d : Detector α) (s : σ)

theorem push_working {a : Aggregator σ α} {view : σ → Store α} (h : a.Serves view)
    (hd : d.unsent.isEmpty = false) :
    ∃ s', view s' = (view s).updateAll d.unsent ∧
      d.push (some a) s = ({ d with
        unsent := Keyed.empty
        merged := if d.config.pullGlobal then d.unsent.relabel ((view s).updateAll d.unsent).value
          else d.merged }, s', d.config.pullGlobal) := by
  have hcall := h (.updateAll d.unsent) s
  cases hs : a.call (.updateAll d.unsent) s with
  | mk s' reply =>
    rw [hs] at hcall
    obtain ⟨hview, rfl⟩ := hcall
    refine ⟨s', hview, ?_⟩
    simp only [push, hd, hs]
    cases d.config.pullGlobal <;> rfl

omit [Scalar α] in
theorem push_failing {a : Aggregator σ α} (h : a.Fails) (hd : d.unsent.isEmpty = false) :
    ∃ s', d.push (some a) s = ({ d with unsent := Keyed.empty, pushFailed := true }, s', false) := by
  have hcall := h (.updateAll d.unsent) s
  cases hs : a.call (.updateAll d.unsent) s with
  | mk s' reply =>
    rw [hs] at hcall
    obtain ⟨e, rfl⟩ := hcall
    refine ⟨s', ?_⟩
    simp only [push, hd, hs]
    rfl

omit [Scalar α] in
theorem push_idle (a : Option (Aggregator σ α)) (hd : d.unsent.isEmpty) : d.push a s = (d, s, false) := by
  cases a <;> simp [push, hd]

/-- Whatever there is to send reaches the store, once. -/
theorem view_push {a : Aggregator σ α} {view : σ → Store α} (h : a.Serves view) :
    view (d.push (some a) s).2.1 = (view s).updateAll d.unsent := by
  cases hd : d.unsent.isEmpty with
  | true =>
    rw [push_idle d s _ hd, (Keyed.isEmpty_iff _).1 hd, Store.updateAll_empty]
  | false =>
    obtain ⟨s', hview, hp⟩ := push_working d s h hd
    rw [hp]
    exact hview

theorem view_pushAbnormal {a : Aggregator σ α} {view : σ → Store α} (h : a.Serves view) :
    view (d.pushAbnormal (some a) s) = (view s).addAbnormalAll d.abnormal := by
  unfold pushAbnormal
  simp only
  split
  · rename_i hd
    rw [(Keyed.isEmpty_iff _).1 hd, Store.addAbnormalAll_empty]
  · exact (h (.addAbnormalAll d.abnormal) s).1

/-- Merged statistics are there just if there was something to send and they are asked for. -/
theorem used_push (l : Link σ α) :
    (d.push l.aggregator? s).2.2 ↔ l.Works ∧ d.config.pullGlobal ∧ ¬ d.unsent.isEmpty := by
  cases hd : d.unsent.isEmpty with
  | true => simp [push_idle d s _ hd]
  | false =>
    cases l with
    | absent => simp [Link.aggregator?, push, Link.Works]
    | working a view h =>
      obtain ⟨s', -, hp⟩ := push_working d s h hd
      simp [Link.aggregator?, hp, Link.Works]
    | failing a h =>
      obtain ⟨s', hp⟩ := push_failing d s h hd
      simp [Link.aggregator?, hp, Link.Works]

omit [Scalar α] in
/-- Whatever the aggregator answers, a push changes nothing or leaves nothing to send. -/
theorem push_cases (a : Option (Aggregator σ α)) :
    (d.push a s).1 = d ∨ ∃ merged failed,
      (d.push a s).1 = { d with unsent := Keyed.empty, merged := merged, pushFailed := failed } := by
  unfold push
  split
  · exact .inl rfl
  · split
    · exact .inl rfl
    · refine .inr ?_
      split
      · split <;> exact ⟨_, _, rfl⟩
      · exact ⟨_, _, rfl⟩

omit [Scalar α] in
/-- A push changes only what is to be sent and what is merged. -/
theorem share_push (a : Option (Aggregator σ α)) (calls : CallStacks) (f : UInt64) :
    ∃ unsent merged failed, share calls (d.push a s).1 f =
      { share calls d f with unsent := unsent, merged := merged, pushFailed := failed } := by
  rcases push_cases d s a with h | ⟨merged, failed, h⟩
  · exact ⟨_, _, _, by rw [h]⟩
  · exact ⟨_, _, _, by rw [h]; rfl⟩

/-- What a function with new samples is judged by after a push. -/
theorem stats?_push (l : Link σ α) (calls : CallStacks) {f : UInt64} {delta : PowerSums α}
    (hf : d.unsent.get? f = some delta) (hm : d.merged.get? f = none) (hp : d.pushFailed = false) :
    (share calls (d.push l.aggregator? s).1 f).stats? =
      l.statistics d.config s d.unsent f (d.own.get? f) := by
  have hd : d.unsent.isEmpty = false := by
    rw [Bool.eq_false_iff, Ne, Keyed.isEmpty_iff]
    intro h
    simp [h] at hf
  have hown : (share calls d f).stats? = d.own.get? f := by simp [Share.stats?, share, hm, hp]
  cases l with
  | absent => exact hown
  | working a view h =>
    obtain ⟨s', -, hpush⟩ := push_working d s h hd
    rw [Link.aggregator?, hpush]
    cases hc : d.config.pullGlobal with
    | true => simp [Share.stats?, share, Link.statistics, hc, Keyed.get?_relabel, hf]
    | false => simp [Share.stats?, share, Link.statistics, hc, hm, hp]
  | failing a h =>
    obtain ⟨s', hpush⟩ := push_failing d s h hd
    rw [Link.aggregator?, hpush]
    cases hc : d.config.onPushFailure with
    | useLocal => simp [Share.stats?, share, Link.statistics, hc, hm]
    | allNormal => simp [Share.stats?, share, Link.statistics, hc, hm]

end Detector

end TraceAnomaly
