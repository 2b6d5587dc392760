import Mathlib.Logic.Function.Basic
import TraceAnomaly.Proofs.Rank.Conclusion

/-! Ranks that share a state through aggregators of any kind. Frames that are not completed leave no
trace: if they are left out of a schedule, the same ranks give the same reports for the others and
leave the same shared state. A rank that an aborted frame has halted changes nothing any more. -/

namespace TraceAnomaly

/-- Ranks with the state behind their aggregators. -/
structure Ensemble (ι σ : Type) where
  ranks : ι → Rank
  shared : σ

variable {ι σ : Type}

namespace Rank

variable (r : Rank) (a : Option (Aggregator σ)) (s : σ) (f : Frame)

theorem process_halted (h : r.isHalted) : r.process a s f = (r, s, .skipped f.step) := by
  simp [process, h]

/-- A frame that is not completed does not reach the shared state. The rank has counted it or is
halted. -/
theorem process_incomplete (h : (r.process a s f).2.2.isCompleted = false) :
    (r.process a s f).2.1 = s ∧
      ((r.process a s f).1.isHalted ∨ (r.process a s f).1 = { r with frames := r.frames + 1 }) := by
  rcases process_outcomes r a s f with
    ⟨hr, hp⟩ | ⟨-, -, hp⟩ | ⟨-, -, e, -, hp⟩ | ⟨-, -, -, r', s', report, -, hp⟩
  · rw [hp]
    exact ⟨rfl, .inl hr⟩
  · rw [hp]
    exact ⟨rfl, .inr rfl⟩
  · rw [hp]
    exact ⟨rfl, .inl rfl⟩
  · rw [hp] at h
    simp at h

/-- A violation halts the rank. -/
theorem process_aborted {step : UInt64} {e : IngestError}
    (h : (r.process a s f).2.2 = .aborted step e) :
    (r.process a s f).2.1 = s ∧ (r.process a s f).1.isHalted := by
  rcases process_outcomes r a s f with
    ⟨hr, hp⟩ | ⟨-, -, hp⟩ | ⟨-, -, e, -, hp⟩ | ⟨-, -, -, r', s', report, -, hp⟩
  · rw [hp] at h
    simp at h
  · rw [hp] at h
    simp at h
  · rw [hp]
    exact ⟨rfl, rfl⟩
  · rw [hp] at h
    simp at h

theorem isHalted_of_completed (h : (r.process a s f).2.2.isCompleted) : r.isHalted = false := by
  cases hr : r.isHalted with
  | false => rfl
  | true => simp [process_halted r a s f hr] at h

/-- What becomes of a frame does not depend on how many there were. -/
theorem process_frames (n : UInt64) :
    ∃ m, ({ r with frames := n } : Rank).process a s f =
      ({ (r.process a s f).1 with frames := m }, (r.process a s f).2) := by
  unfold process
  simp only [isHalted]
  split
  · exact ⟨n, rfl⟩
  · split
    · exact ⟨n + 1, rfl⟩
    · split
      · exact ⟨n + 1, rfl⟩
      · exact ⟨n + 1, rfl⟩

end Rank

namespace Ensemble

variable [DecidableEq ι] (a : ι → Option (Aggregator σ))

def process (w : Ensemble ι σ) (i : ι) (f : Frame) : Ensemble ι σ × FrameStatus :=
  let (r, s, status) := (w.ranks i).process (a i) w.shared f
  ({ ranks := Function.update w.ranks i r, shared := s }, status)

def processAll (w : Ensemble ι σ) : List (ι × Frame) → Ensemble ι σ × List FrameStatus
  | [] => (w, [])
  | (i, f) :: rest =>
    let (w, status) := w.process a i f
    let (final, statuses) := processAll w rest
    (final, status :: statuses)

def completed (w : Ensemble ι σ) : List (ι × Frame) → List (ι × Frame)
  | [] => []
  | (i, f) :: rest =>
    let (w, status) := w.process a i f
    if status.isCompleted then (i, f) :: completed w rest else completed w rest

/-- The shared state is the same, and so are the ranks that are still at work, but for the number of
frames that they have looked at. -/
structure Alike (w v : Ensemble ι σ) : Prop where
  shared : v.shared = w.shared
  ranks : ∀ i, (w.ranks i).isHalted = false → ∃ n, v.ranks i = { w.ranks i with frames := n }

namespace Alike

omit [DecidableEq ι] in
theorem refl (w : Ensemble ι σ) : Alike w w where
  shared := rfl
  ranks i _ := ⟨(w.ranks i).frames, rfl⟩

variable {w v : Ensemble ι σ}

/-- A frame that is not completed may be left out. -/
theorem leaveOut (h : Alike w v) {i : ι} {f : Frame} (hf : (w.process a i f).2.isCompleted = false) :
    Alike (w.process a i f).1 v := by
  obtain ⟨hs, hr⟩ := (w.ranks i).process_incomplete (a i) w.shared f hf
  refine ⟨h.shared.trans hs.symm, fun j hj => ?_⟩
  by_cases hij : j = i
  · subst hij
    simp only [process, Function.update_self] at hj ⊢
    rcases hr with hr | hr
    · simp [hr] at hj
    · rw [hr] at hj ⊢
      obtain ⟨n, hn⟩ := h.ranks j hj
      exact ⟨n, hn⟩
  · simp only [process, Function.update_of_ne hij] at hj ⊢
    exact h.ranks j hj

/-- A frame that is completed is completed in the same way. -/
theorem complete (h : Alike w v) {i : ι} {f : Frame} (hf : (w.process a i f).2.isCompleted) :
    (v.process a i f).2 = (w.process a i f).2 ∧ Alike (w.process a i f).1 (v.process a i f).1 := by
  have hi := (w.ranks i).isHalted_of_completed (a i) w.shared f hf
  obtain ⟨n, hn⟩ := h.ranks i hi
  obtain ⟨m, hm⟩ := (w.ranks i).process_frames (a i) w.shared f n
  have hv : (v.ranks i).process (a i) v.shared f =
      ({ ((w.ranks i).process (a i) w.shared f).1 with frames := m },
        ((w.ranks i).process (a i) w.shared f).2) := by
    rw [hn, h.shared, hm]
  refine ⟨by simp [process, hv], by simp [process, hv], fun j hj => ?_⟩
  by_cases hij : j = i
  · subst hij
    exact ⟨m, by simp [process, hv]⟩
  · simp only [process, Function.update_of_ne hij] at hj ⊢
    exact h.ranks j hj

/-- The completed frames of a schedule are completed in the same way without the others. -/
theorem processAll (h : Alike w v) (schedule : List (ι × Frame)) :
    (v.processAll a (w.completed a schedule)).2 = (w.processAll a schedule).2.filter (·.isCompleted) ∧
      Alike (w.processAll a schedule).1 (v.processAll a (w.completed a schedule)).1 := by
  induction schedule generalizing w v with
  | nil => exact ⟨rfl, h⟩
  | cons e rest ih =>
    obtain ⟨i, f⟩ := e
    cases hf : (w.process a i f).2.isCompleted with
    | false =>
      obtain ⟨hstatuses, halike⟩ := ih (h.leaveOut a hf)
      simp only [completed, Ensemble.processAll, hf]
      exact ⟨by simpa [hf] using hstatuses, halike⟩
    | true =>
      obtain ⟨hstatus, hnext⟩ := h.complete a hf
      obtain ⟨hstatuses, halike⟩ := ih hnext
      simp only [completed, Ensemble.processAll, hf, if_true, hstatus]
      exact ⟨by simpa [hf] using hstatuses, halike⟩

end Alike

/-! ### A halted rank -/

variable {w v : Ensemble ι σ} {i : ι}

/-- A halted rank takes no frame any more, and nothing changes. -/
theorem process_halted (h : (w.ranks i).isHalted) (f : Frame) :
    w.process a i f = (w, .skipped f.step) := by
  simp [process, (w.ranks i).process_halted (a i) w.shared f h]

/-- The other ranks leave a halted rank as it is. -/
theorem ranks_processAll (h : (w.ranks i).isHalted) (schedule : List (ι × Frame)) :
    (w.processAll a schedule).1.ranks i = w.ranks i := by
  induction schedule generalizing w with
  | nil => rfl
  | cons e rest ih =>
    obtain ⟨j, f⟩ := e
    have hstep : (w.process a j f).1.ranks i = w.ranks i := by
      by_cases hij : i = j
      · subst hij
        rw [process_halted a h]
      · simp [process, Function.update_of_ne hij]
    exact (ih (hstep ▸ h)).trans hstep

/-- The answers to the frames of a schedule that other ranks take. -/
def others (i : ι) (schedule : List (ι × Frame)) (answers : List FrameStatus) : List FrameStatus :=
  ((schedule.zip answers).filter (·.1.1 ≠ i)).map Prod.snd

theorem others_cons_self (i : ι) (f : Frame) (schedule : List (ι × Frame)) (answer : FrameStatus)
    (answers : List FrameStatus) :
    others i ((i, f) :: schedule) (answer :: answers) = others i schedule answers := by
  simp [others]

theorem others_cons_other {i j : ι} (hj : j ≠ i) (f : Frame) (schedule : List (ι × Frame))
    (answer : FrameStatus) (answers : List FrameStatus) :
    others i ((j, f) :: schedule) (answer :: answers) = answer :: others i schedule answers := by
  simp [others, hj]

structure Apart (i : ι) (w v : Ensemble ι σ) : Prop where
  shared : v.shared = w.shared
  ranks : ∀ j, j ≠ i → v.ranks j = w.ranks j

namespace Apart

theorem process (h : Apart i w v) {j : ι} (hj : j ≠ i) (f : Frame) :
    (v.process a j f).2 = (w.process a j f).2 ∧ Apart i (w.process a j f).1 (v.process a j f).1 := by
  have hv : (v.ranks j).process (a j) v.shared f = (w.ranks j).process (a j) w.shared f := by
    rw [h.shared, h.ranks j hj]
  refine ⟨by simp [Ensemble.process, hv], by simp [Ensemble.process, hv], fun k hk => ?_⟩
  by_cases hkj : k = j
  · subst hkj
    simp [Ensemble.process, hv]
  · simpa [Ensemble.process, Function.update_of_ne hkj] using h.ranks k hk

/-- Without the frames of a halted rank, the others answer in the same way. -/
theorem processAll (h : Apart i w v) (hi : (v.ranks i).isHalted) (schedule : List (ι × Frame)) :
    others i schedule (v.processAll a schedule).2 =
        (w.processAll a (schedule.filter (·.1 ≠ i))).2 ∧
      Apart i (w.processAll a (schedule.filter (·.1 ≠ i))).1 (v.processAll a schedule).1 := by
  induction schedule generalizing w v with
  | nil => exact ⟨rfl, h⟩
  | cons e rest ih =>
    obtain ⟨j, f⟩ := e
    by_cases hj : j = i
    · subst hj
      have hfilter : ((j, f) :: rest).filter (·.1 ≠ j) = rest.filter (·.1 ≠ j) := by simp
      simp only [Ensemble.processAll, process_halted a hi f, others_cons_self, hfilter]
      exact ih h hi
    · obtain ⟨hstatus, hnext⟩ := h.process a hj f
      have hhalted : ((v.process a j f).1.ranks i).isHalted := by
        simpa [Ensemble.process, Function.update_of_ne (Ne.symm hj)] using hi
      obtain ⟨hstatuses, hapart⟩ := ih hnext hhalted
      have hfilter : ((j, f) :: rest).filter (·.1 ≠ i) = (j, f) :: rest.filter (·.1 ≠ i) := by
        simp [hj]
      rw [hfilter]
      exact ⟨(others_cons_other hj ..).trans (congrArg₂ List.cons hstatus hstatuses), hapart⟩

end Apart

/-- If all frames of a schedule are left out that are not completed, then all the others are completed
with the same reports, and the shared state ends the same. In particular, an aborted frame does not
reach the shared state or another rank; from then on its rank skips every frame, and nothing changes
by that; and the answers of the other ranks are those that they give without it. -/
theorem replay_completed (w : Ensemble ι σ) (schedule : List (ι × Frame)) :
    (w.processAll a (w.completed a schedule)).2 = (w.processAll a schedule).2.filter (·.isCompleted) ∧
      (w.processAll a (w.completed a schedule)).1.shared = (w.processAll a schedule).1.shared ∧
      ∀ i f step e, (w.process a i f).2 = .aborted step e →
        let halted := (w.process a i f).1
        halted.shared = w.shared ∧ (∀ j, j ≠ i → halted.ranks j = w.ranks j) ∧
          (∀ later g, (halted.processAll a later).1.process a i g =
            ((halted.processAll a later).1, .skipped g.step)) ∧
          ∀ later,
            others i later (halted.processAll a later).2 =
              (w.processAll a (later.filter (·.1 ≠ i))).2 ∧
            (halted.processAll a later).1.shared =
              (w.processAll a (later.filter (·.1 ≠ i))).1.shared := by
  obtain ⟨hstatuses, halike⟩ := (Alike.refl w).processAll a schedule
  refine ⟨hstatuses, halike.shared, fun i f step e hf => ?_⟩
  obtain ⟨hshared, hhalted⟩ := (w.ranks i).process_aborted (a i) w.shared f hf
  intro halted
  have hi : (halted.ranks i).isHalted := by simpa [halted, process] using hhalted
  have hapart : Apart i w halted := by
    refine ⟨hshared, fun j hj => ?_⟩
    simp [halted, process, Function.update_of_ne hj]
  refine ⟨hshared, hapart.ranks, fun later g => ?_, fun later => ?_⟩
  · exact process_halted a (ranks_processAll a hi later ▸ hi) g
  · obtain ⟨hanswers, hend⟩ := hapart.processAll a hi later
    exact ⟨hanswers, hend.shared⟩

/-- Two ranks with one store. An exit of the wrong function halts the first one; the second is asked
before and after. -/
theorem replay_completed_violation :
    let t : Thread := ⟨0, 0, 0⟩
    let wrong : Frame := { step := 1, calls := [⟨t, .entry, 1, 10⟩, ⟨t, .exit, 2, 20⟩] }
    let right : Frame := { step := 2, calls := [⟨t, .entry, 1, 30⟩, ⟨t, .exit, 1, 40⟩] }
    let a : Bool → Option (Aggregator (Store Float)) := fun _ => some .inProcess
    let w : Ensemble Bool (Store Float) := ⟨fun _ => .start 0 Keyed.empty {}, .empty⟩
    let schedule := [(true, right), (false, wrong), (false, right), (true, right)]
    let halted := (w.process a false wrong).1
    w.completed a schedule = [(true, right), (true, right)] ∧
      (w.processAll a [(true, right), (true, right)]).2 =
        (w.processAll a schedule).2.filter (·.isCompleted) ∧
      (w.process a false wrong).2 = .aborted 1 ⟨1, .functionMismatch t 2 20 0 1⟩ ∧
      halted.shared = w.shared ∧ (halted.process a false right).2 = .skipped 2 ∧
      others false [(true, right)] (halted.processAll a [(true, right)]).2 =
        (w.processAll a [(true, right)]).2 := by
  intro t wrong right a w schedule halted
  have hcompleted : w.completed a schedule = [(true, right), (true, right)] := by decide +kernel
  have haborted : (w.process a false wrong).2 = .aborted 1 ⟨1, .functionMismatch t 2 20 0 1⟩ := by
    decide +kernel
  obtain ⟨hreplay, -, hafter⟩ := replay_completed a w schedule
  obtain ⟨hshared, -, hskipped, hothers⟩ := hafter false wrong _ _ haborted
  refine ⟨hcompleted, hcompleted ▸ hreplay, haborted, hshared, ?_, (hothers [(true, right)]).1⟩
  exact congrArg Prod.snd (hskipped [] right)

end Ensemble

end TraceAnomaly
