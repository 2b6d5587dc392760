import TraceAnomaly.Rank.Basic
import TraceAnomaly.Proofs.CallStack.WellFormed
import TraceAnomaly.Proofs.Outlier.Verdict

/-! A frame seen from one function. What a rank holds about a function changes only when the function
has its turn, in the gathering of statistics and in the labelling, so each of the two passes over the
functions of a frame does to every function what one turn does to it. -/

namespace TraceAnomaly

variable {α : Type} [Scalar α]

def runtimesOf (calls : List CallRecord) : List α :=
  calls.filterMap fun r => r.runtime.map fun t => Scalar.ofNat t.toNat

/-- What a rank holds about one function during a frame. -/
structure Share (α : Type) where
  config : DetectorConfig
  /-- The calls closed in the frame, in closing order. -/
  calls : List CallRecord
  own : Option (PowerSums α)
  unsent : Option (PowerSums α)
  merged : Option (PowerSums α)
  abnormal : Option UInt64
  pushFailed : Bool

def share (calls : CallStacks) (d : Detector α) (f : UInt64) : Share α where
  config := d.config
  calls := calls.closedCalls f
  own := d.own.get? f
  unsent := d.unsent.get? f
  merged := d.merged.get? f
  abnormal := d.abnormal.get? f
  pushFailed := d.pushFailed

namespace Share

variable (v : Share α)

def samples : List (Sample α) := v.calls.filterMap CallRecord.sample?

def gathered : Share α :=
  if v.samples.isEmpty then v
  else
    let add (old : Option (PowerSums α)) := (old.getD .empty).pushAll (v.samples.map Sample.runtime)
    { v with own := some (add v.own), unsent := some (add v.unsent) }

def stats? : Option (PowerSums α) :=
  match v.merged with
  | some s => some s
  | none => if v.pushFailed ∧ v.config.onPushFailure = .allNormal then none else v.own

def labels : List Label := (Classifier.ofConfig v.config α).classify v.samples v.stats?

def labelled : Share α :=
  let n := Label.anomalies v.labels
  { v with
    calls := CallStacks.labelCalls v.calls v.labels
    own := if n = 0 then v.own else some ((v.own.getD .empty).addAbnormal (UInt64.ofNat n))
    abnormal := if n = 0 then v.abnormal else some (v.abnormal.getD 0 + UInt64.ofNat n) }

variable {v}

theorem runtime_samples : v.samples.map Sample.runtime = runtimesOf v.calls := by
  rw [samples, runtimesOf, List.map_filterMap]
  refine List.filterMap_congr fun r _ => ?_
  cases h : r.runtime <;> simp [CallRecord.sample?, h]

theorem length_labels : v.labels.length = v.samples.length :=
  Classifier.length_classify _ _ _

/-- Labelling changes the count of anomalies in the statistics and nothing else. -/
theorem own_labelled :
    (v.labelled.own.getD .empty).setAbnormal 0 = (v.own.getD .empty).setAbnormal 0 := by
  simp only [labelled]
  split <;> rfl

theorem gathered_of_idle (h : v.calls = []) : v.gathered = v := by
  simp [gathered, samples, h]

theorem labelled_of_idle (h : v.calls = []) : v.labelled = v := by
  have hlabels : v.labels = [] := List.length_eq_zero_iff.1 (by simp [length_labels, samples, h])
  cases v
  simp_all [labelled, Label.anomalies, CallStacks.labelCalls]

end Share

/-! ### One turn -/

section Turn

variable (calls : CallStacks) (d : Detector α)

theorem share_addSamples_self (f : UInt64) :
    share calls (d.addSamples f (calls.frameSamples f)) f = (share calls d f).gathered := by
  have hs : (share calls d f).samples = calls.frameSamples f := rfl
  unfold Detector.addSamples Share.gathered
  rw [hs]
  split
  · rfl
  · simp [share, Keyed.get?_alter]

theorem share_addSamples_other {f g : UInt64} (h : g ≠ f) (xs : List (Sample α)) :
    share calls (d.addSamples f xs) g = share calls d g := by
  unfold Detector.addSamples
  split
  · rfl
  · simp [share, Keyed.get?_alter, h]

def labelTurn (p : CallStacks × Detector α) (f : UInt64) : CallStacks × Detector α :=
  (p.1.setLabels f (p.2.classify f (p.1.frameSamples f)).2, (p.2.classify f (p.1.frameSamples f)).1)

theorem share_labelTurn_self (p : CallStacks × Detector α) (f : UInt64) :
    share (labelTurn p f).1 (labelTurn p f).2 f = (share p.1 p.2 f).labelled := by
  have hlabels : (p.2.classify f (p.1.frameSamples f)).2 = (share p.1 p.2 f).labels := rfl
  have hdetector : (p.2.classify f (p.1.frameSamples f)).1 =
      if Label.anomalies (share p.1 p.2 f).labels = 0 then p.2
      else p.2.addAbnormal f (UInt64.ofNat (Label.anomalies (share p.1 p.2 f).labels)) := rfl
  simp only [labelTurn, hlabels, hdetector, Share.labelled]
  generalize (share p.1 p.2 f).labels = ls
  split <;> simp [share, CallStacks.closedCalls_setLabels, Detector.addAbnormal, Keyed.get?_alter]

theorem share_labelTurn_other (p : CallStacks × Detector α) {f g : UInt64} (h : g ≠ f) :
    share (labelTurn p f).1 (labelTurn p f).2 g = share p.1 p.2 g := by
  have hcalls := CallStacks.closedCalls_setLabels p.1 f g (p.2.classify f (p.1.frameSamples f)).2
  rw [if_neg h] at hcalls
  simp only [labelTurn, Detector.classify] at hcalls ⊢
  split <;> simp [share, hcalls, Detector.addAbnormal, Keyed.get?_alter, h]

end Turn

/-! ### One pass -/

/-- If each turn changes what is seen at its own place only, a pass over distinct places changes
what is seen at each of them once. -/
theorem foldl_turns {ι β ν : Type} [DecidableEq ι] (turn : β → ι → β) (view : β → ι → ν) (act : ν → ν)
    (hself : ∀ b i, view (turn b i) i = act (view b i))
    (hother : ∀ b i j, j ≠ i → view (turn b i) j = view b j) {is : List ι} (hnd : is.Nodup) (b : β)
    (j : ι) : view (is.foldl turn b) j = if j ∈ is then act (view b j) else view b j := by
  induction is generalizing b with
  | nil => simp
  | cons i rest ih =>
    obtain ⟨hi, hrest⟩ := List.nodup_cons.1 hnd
    rw [List.foldl_cons, ih hrest]
    by_cases hj : j = i
    · subst hj
      simp [hi, hself]
    · simp [hj, hother b i j hj]

/-- What labels do not change is the same after the labelling. -/
theorem labelFrame_kept {P : CallStacks → Prop} (h : ∀ s f ls, P s → P (s.setLabels f ls))
    {calls : CallStacks} (d : Detector α) (hcalls : P calls) : P (Rank.labelFrame calls d).1 := by
  have hfold : ∀ (fs : List UInt64) (p : CallStacks × Detector α), P p.1 → P (fs.foldl labelTurn p).1 := by
    intro fs
    induction fs with
    | nil => exact fun _ hp => hp
    | cons f rest ih => exact fun p hp => ih _ (h p.1 f _ hp)
  exact hfold calls.frameFunctions (calls, d) hcalls

namespace CallStacks.WellFormed

variable {calls : CallStacks} (h : calls.WellFormed) (d : Detector α)
include h

omit [Scalar α] in
/-- A pass that leaves idle functions alone, seen from any function. -/
theorem share_foldl {β : Type} (turn : β → UInt64 → β) (view : β → UInt64 → Share α)
    (act : Share α → Share α) (hself : ∀ b f, view (turn b f) f = act (view b f))
    (hother : ∀ b f g, g ≠ f → view (turn b f) g = view b g)
    (hidle : ∀ v : Share α, v.calls = [] → act v = v) (b : β)
    (hb : ∀ f, (view b f).calls = calls.closedCalls f) (f : UInt64) :
    view (calls.frameFunctions.foldl turn b) f = act (view b f) := by
  have hnd : calls.frameFunctions.Nodup := Keyed.nodup_keys calls.closed
  rw [foldl_turns turn view act hself hother hnd]
  split
  · rfl
  · rename_i hf
    rw [h.mem_frameFunctions_iff, not_not] at hf
    rw [hidle _ ((hb f).trans hf)]

theorem share_gather (f : UInt64) :
    share calls (Rank.gather calls d) f = (share calls d f).gathered :=
  h.share_foldl (fun (d : Detector α) f => d.addSamples f (calls.frameSamples f)) (share calls)
    Share.gathered
    (share_addSamples_self calls) (fun d _ _ hg => share_addSamples_other calls d hg _)
    (fun _ => Share.gathered_of_idle) d (fun _ => rfl) f

theorem share_labelFrame (f : UInt64) :
    share (Rank.labelFrame calls d).1 (Rank.labelFrame calls d).2 f = (share calls d f).labelled :=
  h.share_foldl labelTurn (fun p => share p.1 p.2) Share.labelled share_labelTurn_self
    (fun p _ _ hg => share_labelTurn_other p hg) (fun _ => Share.labelled_of_idle) (calls, d)
    (fun _ => rfl) f

theorem labelFrame : (Rank.labelFrame calls d).1.WellFormed :=
  labelFrame_kept (fun _ f ls h => h.setLabels f ls) d h

end CallStacks.WellFormed

end TraceAnomaly
