import TraceAnomaly.Proofs.Rank.Totals

/-! An aggregator reaches a rank through merged statistics only. If none come back, because they are not
asked for or because every call fails, and the rank then falls back on its own statistics, its answers
and its totals are those of a rank without an aggregator. In two runs with different aggregators the
detectors differ in what waits to be sent and in whether the last push has failed, and nothing that is
reported reads these. -/

namespace TraceAnomaly

variable {σ τ : Type}

/-- No merged statistics come back. -/
def DetectorConfig.Unanswered (c : DetectorConfig) (a : Option (Aggregator σ)) : Prop :=
  c.pullGlobal = false ∨ ∀ b ∈ a, b.Fails

namespace Detector

/-- Two detectors without merged statistics that differ at most in what is left of their pushes. -/
structure Alike (c : DetectorConfig) (d e : Detector) : Prop where
  config : d.config = c
  merged : d.merged = Keyed.empty
  same : ∃ unsent failed, e = { d with unsent := unsent, pushFailed := failed }

/-- A push that brings nothing back leaves its mark in two places. -/
theorem push_unanswered (d : Detector) {a : Option (Aggregator σ)} (h : d.config.Unanswered a) (s : σ) :
    (d.push a s).2.2 = false ∧
      ∃ unsent failed, (d.push a s).1 = { d with unsent := unsent, pushFailed := failed } := by
  cases a with
  | none => exact ⟨rfl, d.unsent, d.pushFailed, rfl⟩
  | some a =>
    cases hd : d.unsent.isEmpty with
    | true =>
      rw [push_idle d s (some a) hd]
      exact ⟨rfl, d.unsent, d.pushFailed, rfl⟩
    | false =>
      rcases h with hpull | hfails
      · cases hs : a.call (.updateAll d.unsent) s with
        | mk s' reply =>
          cases reply with
          | ok merged =>
            simp only [push, hd, hs, hpull]
            exact ⟨rfl, Keyed.empty, d.pushFailed, rfl⟩
          | error e =>
            simp only [push, hd, hs]
            exact ⟨rfl, Keyed.empty, true, rfl⟩
      · obtain ⟨s', hp⟩ := push_failing d s (hfails a rfl) hd
        rw [hp]
        exact ⟨rfl, Keyed.empty, true, rfl⟩

namespace Alike

variable {c : DetectorConfig} {d e : Detector}

theorem refl (hc : d.config = c) (hm : d.merged = Keyed.empty) : Alike c d d :=
  ⟨hc, hm, d.unsent, d.pushFailed, rfl⟩

theorem beginFrame (h : Alike c d e) : Alike c d.beginFrame e.beginFrame := by
  obtain ⟨hc, -, unsent, failed, rfl⟩ := h
  exact refl hc rfl

theorem addSamples (h : Alike c d e) (f : UInt64) (xs : List (Sample Float)) :
    Alike c (d.addSamples f xs) (e.addSamples f xs) := by
  obtain ⟨hc, hm, unsent, failed, rfl⟩ := h
  unfold Detector.addSamples
  split
  · exact ⟨hc, hm, unsent, failed, rfl⟩
  · exact ⟨hc, hm, _, failed, rfl⟩

theorem gather (h : Alike c d e) (calls : CallStacks) :
    Alike c (Rank.gather calls d) (Rank.gather calls e) := by
  unfold Rank.gather
  induction calls.frameFunctions generalizing d e with
  | nil => exact h
  | cons f rest ih => exact ih (h.addSamples f (calls.frameSamples f))

theorem push (h : Alike c d e) {a : Option (Aggregator σ)} {b : Option (Aggregator τ)}
    (ha : c.Unanswered a) (hb : c.Unanswered b) (s : σ) (u : τ) :
    Alike c (d.push a s).1 (e.push b u).1 ∧ (d.push a s).2.2 = false ∧ (e.push b u).2.2 = false := by
  obtain ⟨rfl, hm, unsent, failed, rfl⟩ := h
  obtain ⟨hused, unsent₁, failed₁, hd⟩ := d.push_unanswered ha s
  obtain ⟨hused', unsent₂, failed₂, he⟩ :=
    push_unanswered { d with unsent := unsent, pushFailed := failed } hb u
  refine ⟨?_, hused, hused'⟩
  rw [hd, he]
  exact ⟨rfl, hm, unsent₂, failed₂, rfl⟩

/-- Without merged statistics the rank's own ones apply, whether a push has failed or not. -/
theorem statsFor (h : Alike c d e) (hlocal : c.onPushFailure = .useLocal) (f : UInt64) :
    e.statsFor f = d.statsFor f := by
  obtain ⟨rfl, hm, unsent, failed, rfl⟩ := h
  simp [Detector.statsFor, hm, hlocal]

theorem classify (h : Alike c d e) (hlocal : c.onPushFailure = .useLocal) (f : UInt64)
    (xs : List (Sample Float)) :
    (e.classify f xs).2 = (d.classify f xs).2 ∧
      Alike c (d.classify f xs).1 (e.classify f xs).1 := by
  have hstats := h.statsFor hlocal f
  obtain ⟨hc, hm, unsent, failed, rfl⟩ := h
  simp only [Detector.classify, hstats, true_and]
  split
  · exact ⟨hc, hm, unsent, failed, rfl⟩
  · exact ⟨hc, hm, unsent, failed, rfl⟩

theorem labelFrame (h : Alike c d e) (hlocal : c.onPushFailure = .useLocal) (calls : CallStacks) :
    (Rank.labelFrame calls e).1 = (Rank.labelFrame calls d).1 ∧
      Alike c (Rank.labelFrame calls d).2 (Rank.labelFrame calls e).2 := by
  have hfold : ∀ (fs : List UInt64) (calls : CallStacks) {d e : Detector}, Alike c d e →
      (fs.foldl labelTurn (calls, e)).1 = (fs.foldl labelTurn (calls, d)).1 ∧
        Alike c (fs.foldl labelTurn (calls, d)).2 (fs.foldl labelTurn (calls, e)).2 := by
    intro fs
    induction fs with
    | nil => exact fun _ _ _ h => ⟨rfl, h⟩
    | cons f rest ih =>
      intro calls d e h
      obtain ⟨hlabels, hnext⟩ := h.classify hlocal f (calls.frameSamples f)
      simp only [List.foldl_cons, labelTurn, hlabels]
      exact ih _ hnext
  exact hfold calls.frameFunctions calls h

end Alike

end Detector

namespace Rank

/-- Two ranks that differ at most in what is left of their pushes. -/
structure Alike (c : DetectorConfig) (r q : Rank) : Prop where
  detector : r.detector.Alike c q.detector
  same : q = { r with detector := q.detector }

namespace Alike

variable {c : DetectorConfig} {r q : Rank} {a : Option (Aggregator σ)} {b : Option (Aggregator τ)}

theorem conclude (h : Alike c r q) (hlocal : c.onPushFailure = .useLocal) (ha : c.Unanswered a)
    (hb : c.Unanswered b) (s : σ) (u : τ) (f : Frame) :
    (q.conclude b u f).2.2 = (r.conclude a s f).2.2 ∧
      Alike c (r.conclude a s f).1 (q.conclude b u f).1 := by
  obtain ⟨hdetector, hsame⟩ := h
  obtain ⟨hpush, hused, hused'⟩ := (hdetector.gather r.calls).push ha hb s u
  obtain ⟨hcalls, hlabelled⟩ := hpush.labelFrame hlocal r.calls
  have habnormal : ∀ {d e : Detector}, d.Alike c e → e.abnormal = d.abnormal ∧
      e.functionsOfInterest = d.functionsOfInterest := by
    rintro d _ ⟨-, -, unsent, failed, rfl⟩
    exact ⟨rfl, rfl⟩
  obtain ⟨hcount, hinterest⟩ := habnormal hlabelled
  rw [hsame]
  simp only [Rank.conclude, hused, hused', hcalls, hcount, hinterest, true_and]
  exact ⟨hlabelled, rfl⟩

/-- A frame finds the two ranks alike and leaves them alike, with one answer. -/
theorem process (h : Alike c r q) (hlocal : c.onPushFailure = .useLocal) (ha : c.Unanswered a)
    (hb : c.Unanswered b) (s : σ) (u : τ) (f : Frame) :
    (q.process b u f).2.2 = (r.process a s f).2.2 ∧
      Alike c (r.process a s f).1 (q.process b u f).1 := by
  obtain ⟨hdetector, hsame⟩ := h
  generalize q.detector = e at hdetector hsame
  subst hsame
  have hhalted : ({ r with detector := e } : Rank).isHalted = r.isHalted := rfl
  have hbegun : Alike c (r.ingested f) (({ r with detector := e } : Rank).ingested f) :=
    ⟨hdetector.beginFrame, rfl⟩
  rcases process_outcomes r a s f with
    ⟨hr, hp⟩ | ⟨hr, hf, hp⟩ | ⟨hr, hf, v, hv, hp⟩ | ⟨hr, hf, hok, r', s', report, hq, hp⟩
  · rw [hp]
    simp only [Rank.process, hhalted, hr, if_true, true_and]
    exact ⟨hdetector, rfl⟩
  · rw [hp]
    simp only [Rank.process, hhalted, hr, hf, Bool.false_eq_true, if_false, if_true, true_and]
    exact ⟨hdetector, rfl⟩
  · rw [hp]
    simp only [Rank.process, hhalted, hr, hf, hv, Bool.false_eq_true, if_false, true_and]
    exact ⟨hdetector.beginFrame, rfl⟩
  · obtain ⟨hreport, hnext⟩ := hbegun.conclude hlocal ha hb s u f
    have hp' : ({ r with detector := e } : Rank).process b u f =
        (((({ r with detector := e } : Rank).ingested f).conclude b u f).1,
          ((({ r with detector := e } : Rank).ingested f).conclude b u f).2.1,
          .completed ((({ r with detector := e } : Rank).ingested f).conclude b u f).2.2) := by
      simp only [Rank.process, hhalted, hr, hf, hok, ingested]
      rfl
    rw [hq] at hreport hnext
    rw [hp, hp', hreport]
    exact ⟨rfl, hnext⟩

theorem summary (h : Alike c r q) : q.summary = r.summary := by
  rw [h.same]
  rfl

end Alike

end Rank

namespace Course

/-- The ranks are alike, and their answers are the same. -/
structure Alike (c : DetectorConfig) (x y : Course) : Prop where
  rank : x.rank.Alike c y.rank
  answers : y.answers = x.answers

namespace Alike

variable {c : DetectorConfig} {x y : Course} {a : Option (Aggregator σ)} {b : Option (Aggregator τ)}

theorem takeAll (h : Alike c x y) (hlocal : c.onPushFailure = .useLocal) (ha : c.Unanswered a)
    (hb : c.Unanswered b) {frames : List (σ × Frame)} {others : List (τ × Frame)}
    (hsame : others.map Prod.snd = frames.map Prod.snd) :
    Alike c (x.takeAll a frames) (y.takeAll b others) := by
  induction frames generalizing x y others with
  | nil =>
    obtain rfl : others = [] := by simpa using hsame
    exact h
  | cons e rest ih =>
    obtain ⟨⟨u, f⟩, others, rfl, hf, hrest⟩ := List.map_eq_cons_iff.1 hsame
    obtain rfl : f = e.2 := hf
    obtain ⟨hstatus, hrank⟩ := h.rank.process hlocal ha hb e.1 u e.2
    have hnext : Alike c (x.take a e.1 e.2) (y.take b u e.2) :=
      ⟨hrank, by simp only [take, h.answers, hstatus]⟩
    exact ih hnext hrest

end Alike

/-- Only merged statistics couple a rank to its aggregator. If a rank falls back on its own statistics
and asks for no merged ones, its answers to any frames and its totals are the same with every
aggregator, or none, whatever the shared state is at each frame. If it asks for them and every call
fails, they are those of a rank without an aggregator. -/
theorem takeAll_independent (number : UInt64) (names : FunctionTable) (c : DetectorConfig)
    (hlocal : c.onPushFailure = .useLocal) (frames : List (σ × Frame)) (others : List (τ × Frame))
    (hsame : others.map Prod.snd = frames.map Prod.snd) :
    (c.pullGlobal = false → ∀ (a : Option (Aggregator σ)) (b : Option (Aggregator τ)),
      ((start number names c).takeAll b others).answers =
          ((start number names c).takeAll a frames).answers ∧
        ((start number names c).takeAll b others).rank.summary =
          ((start number names c).takeAll a frames).rank.summary) ∧
    (c.pullGlobal = true → ∀ a : Aggregator σ, a.Fails →
      ((start number names c).takeAll (some a) frames).answers =
          ((start number names c).takeAll (none : Option (Aggregator τ)) others).answers ∧
        ((start number names c).takeAll (some a) frames).rank.summary =
          ((start number names c).takeAll (none : Option (Aggregator τ)) others).rank.summary) := by
  have hstart : Alike c (start number names c) (start number names c) :=
    ⟨⟨.refl rfl rfl, rfl⟩, rfl⟩
  constructor
  · intro hpull a b
    have h := hstart.takeAll hlocal (.inl hpull : c.Unanswered a) (.inl hpull : c.Unanswered b) hsame
    exact ⟨h.answers, h.rank.summary⟩
  · intro _ a hfails
    have ha : c.Unanswered (some a) := .inr fun b hb => Option.some.inj hb ▸ hfails
    have hnone : c.Unanswered (none : Option (Aggregator τ)) := .inr fun b hb => by cases hb
    have h := hstart.takeAll hlocal ha hnone hsame
    exact ⟨h.answers.symm, h.rank.summary.symm⟩

/-- A call that exceeds the rank's own mean, and not the mean of a store with longer calls; the same
with merged statistics asked for that never come. -/
theorem takeAll_independent_of_store :
    let t : Thread := ⟨0, 0, 0⟩
    let frame : Frame := { step := 1, calls := [
      ⟨t, .entry, 1, 0⟩, ⟨t, .exit, 1, 10⟩, ⟨t, .entry, 1, 20⟩, ⟨t, .exit, 1, 30⟩,
      ⟨t, .entry, 1, 40⟩, ⟨t, .exit, 1, 50⟩, ⟨t, .entry, 1, 60⟩, ⟨t, .exit, 1, 160⟩] }
    let store : Store Float := .update .empty 1 (.ofSamples [Binary64.ofNat 500, Binary64.ofNat 900])
    let own : DetectorConfig := { sigma := Binary64.ofNat 1, pullGlobal := false }
    let asking : DetectorConfig := { sigma := Binary64.ofNat 1 }
    let alone (c : DetectorConfig) := (start 0 Keyed.empty c).takeAll (none : Option (Aggregator Unit))
      [((), frame)]
    (alone own).reports.map (·.abnormal.values) = [[1]] ∧
      ((start 0 Keyed.empty own).takeAll (some .inProcess) [(store, frame)]).answers =
        (alone own).answers ∧
      ((start 0 Keyed.empty asking).takeAll (some .unreachable) [(store, frame)]).answers =
        (alone asking).answers := by
  intro t frame store own asking alone
  have hown := (takeAll_independent 0 Keyed.empty own rfl [(store, frame)] [((), frame)] rfl).1 rfl
    (some .inProcess) none
  have hasking := (takeAll_independent 0 Keyed.empty asking rfl [(store, frame)] [((), frame)] rfl).2 rfl
    .unreachable Aggregator.unreachable_fails
  exact ⟨by decide +kernel, hown.1.symm, hasking.1⟩

end Course

end TraceAnomaly
