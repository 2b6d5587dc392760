import Mathlib.Data.List.DropRight
import TraceAnomaly.Outlier.Detector
import TraceAnomaly.Proofs.Keyed.Update
import TraceAnomaly.Proofs.Stats.PowerSums

/-! What a detector sends and what it keeps, whatever is done with it in whatever order. Its operations are
written down with what they gave back and what they sent. Between two operations that take away what waits to
be sent, the samples gather, so every sample goes out with the first push behind it that finds an aggregator,
unless a frame begins before; the detector's own statistics are those of the samples and the anomalies of the
frame, or of all frames. -/

namespace TraceAnomaly

/-- What the elements of a list give that no stopping element follows, told by their places. -/
theorem flatMap_rtakeWhile {α β : Type*} (stops : α → Bool) (g : α → List β) (hg : ∀ a, stops a → g a = [])
    (l : List α) : (l.rtakeWhile (!stops ·)).flatMap g =
      ((List.range l.length).filter fun i => (l.drop (i + 1)).all (!stops ·)).flatMap
        fun i => (l[i]?.map g).getD [] := by
  induction l using List.reverseRecOn with
  | nil => rfl
  | append_singleton l a ih =>
    have hdrop : ∀ i ∈ List.range l.length, ((l ++ [a]).drop (i + 1)).all (!stops ·) =
        ((l.drop (i + 1)).all (!stops ·) && !stops a) := fun i hi => by
      rw [List.drop_append_of_le_length (List.mem_range.1 hi), List.all_append, List.all_cons, List.all_nil,
        Bool.and_true]
    have hlast : (l ++ [a]).drop (l.length + 1) = [] := List.drop_eq_nil_of_le (by simp)
    rw [List.length_append, List.length_singleton, List.range_succ, List.filter_append, List.flatMap_append,
      List.filter_congr hdrop]
    cases ha : stops a with
    | true => simp [List.rtakeWhile_concat_neg, ha, hg a ha]
    | false =>
      have hbefore : ∀ i ∈ (List.range l.length).filter (fun i => (l.drop (i + 1)).all (!stops ·)),
          ((l ++ [a])[i]?.map g).getD [] = (l[i]?.map g).getD [] := fun i hi => by
        rw [List.getElem?_append_left (List.mem_range.1 (List.mem_of_mem_filter hi))]
      simp only [Bool.not_false, Bool.and_true]
      rw [List.rtakeWhile_concat_pos _ _ _ (by simp [ha]), List.flatMap_append, ih, List.flatMap_congr hbefore]
      simp [hlast]

def Query.batches {ρ : Type} : Query Float ρ → List (Keyed UInt64 (PowerSums Float))
  | .updateAll batch => [batch]
  | .update .. | .value _ | .values | .addAbnormal .. | .addAbnormalAll _ | .clear => []

/-- The aggregator with a note of the batches that it is sent. -/
def Aggregator.noted {σ : Type} (a : Aggregator σ) :
    Aggregator (σ × List (Keyed UInt64 (PowerSums Float))) where
  call q s := (((a.call q s.1).1, s.2 ++ q.batches), (a.call q s.1).2)

namespace Detector

variable {σ : Type}

inductive Operation (σ : Type) where
  | beginFrame
  | addSamples (function : UInt64) (xs : List (Sample Float))
  | push (a : Option (Aggregator σ))
  | classify (function : UInt64) (xs : List (Sample Float))
  | addAbnormal (function n : UInt64)
  | pushAbnormal (a : Option (Aggregator σ))

/-- What an operation sent and which labels it gave. -/
structure Outcome where
  sent : List (Keyed UInt64 (PowerSums Float)) := []
  labels : List Label := []

def perform (d : Detector) (s : σ) : Operation σ → Detector × σ × Outcome
  | .beginFrame => (d.beginFrame, s, {})
  | .addSamples f xs => (d.addSamples f xs, s, {})
  | .push a =>
    let (d, (s, sent), _) := d.push (a.map Aggregator.noted) (s, [])
    (d, s, { sent := sent })
  | .classify f xs =>
    let (d, labels) := d.classify f xs
    (d, s, { labels := labels })
  | .addAbnormal f n => (d.addAbnormal f n, s, {})
  | .pushAbnormal a =>
    let (s, sent) := d.pushAbnormal (a.map Aggregator.noted) (s, [])
    (d, s, { sent := sent })

abbrev Log (σ : Type) := List (Operation σ × Outcome)

def performAll (d : Detector) (s : σ) : List (Operation σ) → Detector × σ × Log σ
  | [] => (d, s, [])
  | op :: rest =>
    let (d, s, outcome) := d.perform s op
    let (d, s, log) := performAll d s rest
    (d, s, (op, outcome) :: log)

/-! ### What the log says -/

namespace Operation

def added (f : UInt64) : Operation σ → List Float
  | .addSamples g xs => if g = f then xs.map Sample.runtime else []
  | _ => []

def begins : Operation σ → Bool
  | .beginFrame => true
  | _ => false

/-- A push that has an aggregator. -/
def delivers : Operation σ → Bool
  | .push (some _) => true
  | _ => false

/-- The anomalies of a function that an operation records: those it is told, or those it finds. -/
def recorded (f : UInt64) (outcome : Outcome) : Operation σ → UInt64
  | .addAbnormal g n => if g = f then n else 0
  | .classify g _ => if g = f then UInt64.ofNat (Label.anomalies outcome.labels) else 0
  | _ => 0

/-- The detector holds statistics of a function behind an operation that adds samples of it or records its
anomalies. -/
def touches (f : UInt64) (outcome : Outcome) : Operation σ → Bool
  | .addSamples g xs => g = f && !xs.isEmpty
  | .addAbnormal g _ => g = f
  | .classify g _ => g = f && Label.anomalies outcome.labels ≠ 0
  | _ => false

/-- Nothing waits to be sent behind a push that has an aggregator, or where a frame begins. -/
def empties (op : Operation σ) : Bool := op.delivers || op.begins

theorem added_of_empties {op : Operation σ} (h : op.empties) (f : UInt64) : op.added f = [] := by
  cases op <;> first | rfl | cases h

theorem untouched {op : Operation σ} {outcome : Outcome} {f : UInt64} (h : op.touches f outcome = false) :
    op.added f = [] ∧ op.recorded f outcome = 0 := by
  cases op with
  | addSamples g xs =>
    refine ⟨?_, rfl⟩
    by_cases hg : g = f
    · have hxs : xs = [] := by simpa [touches, hg] using h
      simp [added, hxs]
    · simp [added, hg]
  | addAbnormal g n =>
    have hg : g ≠ f := by simpa [touches] using h
    exact ⟨rfl, if_neg hg⟩
  | classify g xs =>
    refine ⟨rfl, ?_⟩
    by_cases hg : g = f
    · have hnone : Label.anomalies outcome.labels = 0 := by simpa [touches, hg] using h
      simp [recorded, hnone]
    · simp [recorded, hg]
  | _ => exact ⟨rfl, rfl⟩

end Operation

namespace Log

variable (log : Log σ)

/-- What the operation at place `i` adds goes out with the operation at place `p`: that one is a push with an
aggregator, and the first one behind `i`, and no frame begins before it. -/
def Ships (i p : ℕ) : Prop :=
  i < p ∧ (∃ e ∈ log[p]?, e.1.delivers) ∧ ∀ e ∈ (log.take p).drop (i + 1), ¬ e.1.delivers ∧ ¬ e.1.begins

instance (i p : ℕ) : Decidable (log.Ships i p) := inferInstanceAs (Decidable (_ ∧ _ ∧ _))

/-- The runtimes of a function that go out with the operation at place `p`, in the order in which they were
added. -/
def shipment (p : ℕ) (f : UInt64) : List Float :=
  ((List.range p).filter (log.Ships · p)).flatMap fun i => (log[i]?.map (·.1.added f)).getD []

/-- The runtimes of a function that wait to be sent. -/
def waiting (f : UInt64) : List Float := (log.rtakeWhile (!·.1.empties)).flatMap (·.1.added f)

/-- What was done in the frame, or in all frames. -/
def span (scope : LocalScope) : Log σ :=
  match scope with
  | .frame => log.rtakeWhile (!·.1.begins)
  | .rank => log

def runtimes (f : UInt64) : List Float := log.flatMap (·.1.added f)

def anomalies (f : UInt64) : UInt64 := log.foldl (fun n e => n + e.1.recorded f e.2) 0

/-- The statistics of a function, if there are samples or anomalies of it. -/
def stats? (f : UInt64) : Option (PowerSums Float) :=
  if log.any fun e => e.1.touches f e.2 then
    some ((PowerSums.ofSamples (log.runtimes f)).setAbnormal (log.anomalies f))
  else none

variable {log} {e : Operation σ × Outcome}

/-- Samples go out at most once. -/
theorem Ships.unique {i p q : ℕ} (hp : log.Ships i p) (hq : log.Ships i q) : p = q := by
  have hearlier : ∀ {p q : ℕ}, log.Ships i p → log.Ships i q → ¬ p < q := by
    intro p q hp hq hlt
    obtain ⟨hip, ⟨e, he, hdelivers⟩, -⟩ := hp
    -- the earlier push would stand between the samples and the later one
    have hbetween : e ∈ (log.take q).drop (i + 1) := by
      refine List.mem_iff_getElem?.2 ⟨p - (i + 1), ?_⟩
      rw [List.getElem?_drop, Nat.add_sub_cancel' hip, List.getElem?_take_of_lt hlt]
      exact he
    exact (hq.2.2 e hbetween).1 hdelivers
  exact Nat.le_antisymm (Nat.not_lt.1 (hearlier hq hp)) (Nat.not_lt.1 (hearlier hp hq))

theorem waiting_concat (f : UInt64) :
    (log ++ [e]).waiting f = if e.1.empties then [] else log.waiting f ++ e.1.added f := by
  cases he : e.1.empties with
  | true => simp [waiting, List.rtakeWhile_concat_neg, he]
  | false => simp [waiting, List.rtakeWhile_concat_pos, he]

theorem span_concat (scope : LocalScope) : (log ++ [e]).span scope =
    if e.1.begins ∧ scope = .frame then [] else log.span scope ++ [e] := by
  cases scope with
  | rank => simp [span]
  | frame =>
    cases he : e.1.begins with
    | true => simp [span, List.rtakeWhile_concat_neg, he]
    | false => simp [span, List.rtakeWhile_concat_pos, he]

theorem getD_stats? (f : UInt64) : (log.stats? f).getD .empty =
    (PowerSums.ofSamples (log.runtimes f)).setAbnormal (log.anomalies f) := by
  rw [stats?]
  split
  · rfl
  · rename_i hnone
    have huntouched : ∀ e ∈ log, e.1.added f = [] ∧ e.1.recorded f e.2 = 0 := fun e he =>
      Operation.untouched (Bool.eq_false_iff.2 fun h => hnone (List.any_eq_true.2 ⟨e, he, h⟩))
    have hruntimes : log.runtimes f = [] := List.flatMap_eq_nil_iff.2 fun e he => (huntouched e he).1
    have hanomalies : log.anomalies f = 0 := by
      refine List.foldlRecOn (motive := (· = 0)) log _ rfl fun n hn e he => ?_
      rw [hn, (huntouched e he).2, UInt64.add_zero]
    rw [hruntimes, hanomalies]
    rfl

theorem stats?_concat (f : UInt64) : Log.stats? (log ++ [e]) f =
    if e.1.touches f e.2 then
      some ((((log.stats? f).getD .empty).pushAll (e.1.added f)).addAbnormal (e.1.recorded f e.2))
    else log.stats? f := by
  have hruntimes : Log.runtimes (log ++ [e]) f = log.runtimes f ++ e.1.added f := by simp [runtimes]
  have hanomalies : Log.anomalies (log ++ [e]) f = log.anomalies f + e.1.recorded f e.2 := by simp [anomalies]
  cases he : e.1.touches f e.2 with
  | true =>
    rw [if_pos rfl, getD_stats?, PowerSums.pushAll_setAbnormal, stats?, hruntimes, hanomalies,
      if_pos (by simp [he])]
    rw [PowerSums.ofSamples, PowerSums.pushAll_append]
    rfl
  | false =>
    have hsame := Operation.untouched he
    have hany : ((log ++ [e]).any fun e => e.1.touches f e.2) = log.any fun e => e.1.touches f e.2 := by
      simp [he]
    rw [stats?, hruntimes, hanomalies, hsame.1, hsame.2, List.append_nil, UInt64.add_zero, hany]
    rfl

theorem shipment_eq {p : ℕ} (he : log[p]? = some e) (f : UInt64) :
    log.shipment p f = if e.1.delivers then Log.waiting (log.take p) f else [] := by
  have hlength : (log.take p).length = p := List.length_take_of_le (List.getElem?_eq_some_iff.1 he).1.le
  split
  · rename_i hdelivers
    have hships : ∀ i ∈ List.range p, decide (log.Ships i p) =
        ((log.take p).drop (i + 1)).all (!·.1.empties) := fun i hi => by
      rw [Bool.eq_iff_iff, decide_eq_true_eq, Ships, he]
      simp [List.mem_range.1 hi, hdelivers, Operation.empties]
    have hget : ∀ i ∈ (List.range p).filter (fun i => ((log.take p).drop (i + 1)).all (!·.1.empties)),
        (log[i]?.map (·.1.added f)).getD [] = ((log.take p)[i]?.map (·.1.added f)).getD [] := fun i hi => by
      rw [List.getElem?_take_of_lt (List.mem_range.1 (List.mem_of_mem_filter hi))]
    have hplaces := flatMap_rtakeWhile (fun e : Operation σ × Outcome => e.1.empties) (fun e => e.1.added f)
      (fun e h => Operation.added_of_empties h f) (log.take p)
    rw [hlength] at hplaces
    rw [shipment, List.filter_congr hships, List.flatMap_congr hget, waiting, hplaces]
  · rename_i hdelivers
    have hnone : (List.range p).filter (log.Ships · p) = [] := by
      refine List.filter_eq_nil_iff.2 fun i _ => ?_
      simp [Ships, he, hdelivers]
    rw [shipment, hnone, List.flatMap_nil]

end Log

/-! ### What the detector holds -/

section Perform

variable (d : Detector) (s : σ) (op : Operation σ) (f : UInt64)

/-- A push that has an aggregator sends what waits, if anything does, and leaves nothing. -/
theorem push_noted (a : Aggregator σ) :
    (d.unsent = Keyed.empty ∧ d.push (some a.noted) (s, []) = (d, (s, []), false)) ∨
    (d.unsent ≠ Keyed.empty ∧ ∃ merged failed s' used, d.push (some a.noted) (s, []) =
      ({ d with unsent := Keyed.empty, merged := merged, pushFailed := failed }, (s', [d.unsent]), used)) := by
  cases hd : d.unsent.isEmpty with
  | true => exact .inl ⟨(Keyed.isEmpty_iff _).1 hd, by simp [push, hd]⟩
  | false =>
    refine .inr ⟨fun h => by simp [(Keyed.isEmpty_iff _).2 h] at hd, ?_⟩
    simp only [push, hd, Aggregator.noted, Query.batches, List.nil_append]
    cases (a.call (.updateAll d.unsent) s).2 with
    | error e => exact ⟨_, _, _, _, rfl⟩
    | ok merged =>
      cases d.config.pullGlobal with
      | true => exact ⟨_, _, _, _, rfl⟩
      | false => exact ⟨_, _, _, _, rfl⟩

/-- Reporting anomalies sends no batch of statistics. -/
theorem pushAbnormal_noted (a : Option (Aggregator σ)) :
    (d.pushAbnormal (a.map Aggregator.noted) (s, [])).2 = [] := by
  cases a with
  | none => rfl
  | some a =>
    simp only [pushAbnormal, Option.map_some]
    split <;> rfl

theorem config_perform : (d.perform s op).1.config = d.config := by
  cases op with
  | push a =>
    cases a with
    | none => rfl
    | some a =>
      rcases push_noted d s a with ⟨-, h⟩ | ⟨-, merged, failed, s', used, h⟩
      · simp [perform, h]
      · simp [perform, h]
  | classify g xs =>
    simp only [perform, classify]
    split <;> rfl
  | addSamples g xs =>
    simp only [perform, addSamples]
    split <;> rfl
  | _ => rfl

/-- An operation adds its samples to what waits, or leaves nothing to wait. -/
theorem get?_unsent_perform : (d.perform s op).1.unsent.get? f =
    if op.empties then none
    else if op.added f = [] then d.unsent.get? f
    else some (((d.unsent.get? f).getD .empty).pushAll (op.added f)) := by
  cases op with
  | beginFrame => rfl
  | addSamples g xs =>
    simp only [perform, addSamples, Operation.empties, Operation.delivers, Operation.begins, Operation.added,
      List.isEmpty_iff]
    by_cases hxs : xs = []
    · simp [hxs]
    · by_cases hg : g = f
      · simp [hxs, hg, Keyed.get?_alter]
      · simp [hxs, hg, Ne.symm hg, Keyed.get?_alter]
  | push a =>
    cases a with
    | none => rfl
    | some a =>
      rcases push_noted d s a with ⟨hd, h⟩ | ⟨-, merged, failed, s', used, h⟩
      · simp [perform, h, hd, Operation.empties, Operation.delivers]
      · simp [perform, h, Operation.empties, Operation.delivers]
  | classify g xs =>
    simp only [perform, classify]
    split <;> rfl
  | addAbnormal g n => rfl
  | pushAbnormal a => rfl

/-- An operation adds its samples and its anomalies to the detector's own statistics, unless it drops them. -/
theorem own_perform : (d.perform s op).1.own.get? f =
    if op.begins ∧ d.config.localScope = .frame then none
    else if op.touches f (d.perform s op).2.2 then
      some ((((d.own.get? f).getD .empty).pushAll (op.added f)).addAbnormal
        (op.recorded f (d.perform s op).2.2))
    else d.own.get? f := by
  cases op with
  | beginFrame =>
    by_cases hscope : d.config.localScope = .frame
    · simp [perform, beginFrame, hscope, Operation.begins]
    · simp [perform, beginFrame, hscope, Operation.touches]
  | addSamples g xs =>
    simp only [Operation.recorded, PowerSums.addAbnormal_zero, perform, addSamples, Operation.begins,
      Operation.added, Operation.touches, List.isEmpty_iff]
    by_cases hxs : xs = []
    · simp [hxs]
    · by_cases hg : g = f
      · simp [hxs, hg, Keyed.get?_alter]
      · simp [hxs, hg, Ne.symm hg, Keyed.get?_alter]
  | push a =>
    cases a with
    | none => rfl
    | some a =>
      rcases push_noted d s a with ⟨-, h⟩ | ⟨-, merged, failed, s', used, h⟩
      · simp [perform, h, Operation.begins, Operation.touches]
      · simp [perform, h, Operation.begins, Operation.touches]
  | classify g xs =>
    simp only [perform, classify, Operation.begins, Operation.added, Operation.recorded, Operation.touches]
    split
    · rename_i hnone
      simp [hnone]
    · rename_i hsome
      by_cases hg : g = f
      · subst g
        simp [addAbnormal, hsome, Keyed.get?_alter, PowerSums.pushAll]
      · simp [addAbnormal, hg, Ne.symm hg, Keyed.get?_alter]
  | addAbnormal g n =>
    by_cases hg : g = f
    · simp [perform, addAbnormal, hg, Keyed.get?_alter, Operation.begins, Operation.touches, Operation.added,
        Operation.recorded, PowerSums.pushAll]
    · simp [perform, addAbnormal, hg, Ne.symm hg, Keyed.get?_alter, Operation.begins, Operation.touches]
  | pushAbnormal a => rfl

/-- Only a push that has an aggregator sends a batch: all that waits, if anything does. -/
theorem sent_perform : (d.perform s op).2.2.sent =
    if op.delivers ∧ d.unsent ≠ Keyed.empty then [d.unsent] else [] := by
  cases op with
  | push a =>
    cases a with
    | none => rfl
    | some a =>
      rcases push_noted d s a with ⟨hd, h⟩ | ⟨hd, merged, failed, s', used, h⟩
      · simp [perform, h, hd]
      · simp [perform, h, hd, Operation.delivers]
  | pushAbnormal a => exact pushAbnormal_noted d s a
  | _ => rfl

end Perform

/-! ### Every order of operations -/

theorem performAll_concat (d : Detector) (s : σ) (ops : List (Operation σ)) (op : Operation σ) :
    d.performAll s (ops ++ [op]) =
      let run := d.performAll s ops
      let after := run.1.perform run.2.1 op
      (after.1, after.2.1, run.2.2 ++ [(op, after.2.2)]) := by
  induction ops generalizing d s with
  | nil => rfl
  | cons first rest ih =>
    simp only [List.cons_append, performAll, ih]

/-- What stands at a place of the log was done to the detector of the operations before it. -/
theorem exists_of_log (d : Detector) (s : σ) (ops : List (Operation σ)) {p : ℕ} {e : Operation σ × Outcome}
    (h : (d.performAll s ops).2.2[p]? = some e) : ∃ before,
      (d.performAll s ops).2.2.take p = (d.performAll s before).2.2 ∧
        e.2 = ((d.performAll s before).1.perform (d.performAll s before).2.1 e.1).2.2 := by
  induction ops using List.reverseRecOn with
  | nil => simp [performAll] at h
  | append_singleton ops op ih =>
    rw [performAll_concat] at h ⊢
    dsimp only at h ⊢
    rcases Nat.lt_trichotomy p (d.performAll s ops).2.2.length with hlt | heq | hgt
    · rw [List.getElem?_append_left hlt] at h
      rw [List.take_append_of_le_length hlt.le]
      exact ih h
    · rw [heq, List.getElem?_concat_length] at h
      obtain rfl := Option.some.inj h
      exact ⟨ops, by rw [heq, List.take_left], rfl⟩
    · have hbehind : (d.performAll s ops).2.2.length + 1 ≤ p := hgt
      rw [List.getElem?_eq_none (by rwa [List.length_append])] at h
      cases h

section Run

variable (config : DetectorConfig) (s : σ) (ops : List (Operation σ)) (f : UInt64)

theorem config_performAll : (({ config := config } : Detector).performAll s ops).1.config = config := by
  induction ops using List.reverseRecOn with
  | nil => rfl
  | append_singleton ops op ih =>
    rw [performAll_concat]
    exact (config_perform _ _ op).trans ih

theorem get?_unsent_performAll :
    (({ config := config } : Detector).performAll s ops).1.unsent.get? f =
      let xs := (({ config := config } : Detector).performAll s ops).2.2.waiting f
      if xs = [] then none else some (.ofSamples xs) := by
  induction ops using List.reverseRecOn with
  | nil => rfl
  | append_singleton ops op ih =>
    rw [performAll_concat]
    dsimp only at ih ⊢
    rw [get?_unsent_perform, Log.waiting_concat, ih]
    generalize (({ config := config } : Detector).performAll s ops).2.2.waiting f = xs
    cases op.empties with
    | true => rfl
    | false =>
      by_cases hadded : op.added f = []
      · simp [hadded]
      · have hgetD : (if xs = [] then none else some (PowerSums.ofSamples xs)).getD .empty =
            PowerSums.ofSamples xs := by
          split
          · subst xs
            rfl
          · rfl
        simp only [Bool.false_eq_true, if_false, hadded, hgetD, List.append_eq_nil_iff, and_false]
        exact congrArg some (PowerSums.pushAll_append _ _ _).symm

/-- The detector's own statistics are those of the frame, or of all frames. -/
theorem own_performAll :
    (({ config := config } : Detector).performAll s ops).1.own.get? f =
      Log.stats? ((({ config := config } : Detector).performAll s ops).2.2.span config.localScope) f := by
  induction ops using List.reverseRecOn with
  | nil => cases config.localScope <;> rfl
  | append_singleton ops op ih =>
    have hconfig := config_performAll config s ops
    rw [performAll_concat]
    dsimp only at ih hconfig ⊢
    rw [own_perform, Log.span_concat, ih, hconfig]
    split
    · rfl
    · rw [Log.stats?_concat]

theorem map_fst_performAll : (({ config := config } : Detector).performAll s ops).2.2.map Prod.fst = ops := by
  induction ops using List.reverseRecOn with
  | nil => rfl
  | append_singleton ops op ih =>
    rw [performAll_concat]
    exact (List.map_append ..).trans (congrArg (· ++ [op]) ih)

end Run

/-- Every operation sends a batch of what goes out with it, or nothing if nothing does. -/
theorem sent_of_log (config : DetectorConfig) (s : σ) (ops : List (Operation σ)) {p : ℕ}
    {e : Operation σ × Outcome} (h : (({ config := config } : Detector).performAll s ops).2.2[p]? = some e) :
    let shipment := Log.shipment (({ config := config } : Detector).performAll s ops).2.2 p
    (e.2.sent = [] ∧ ∀ f, shipment f = []) ∨
    ∃ batch, e.2.sent = [batch] ∧ (∃ f, shipment f ≠ []) ∧
      ∀ f, batch.get? f = if shipment f = [] then none else some (.ofSamples (shipment f)) := by
  obtain ⟨before, htake, hperformed⟩ := exists_of_log _ s ops h
  have he := congrArg Outcome.sent hperformed
  have hshipment := Log.shipment_eq h
  have hunsent := get?_unsent_performAll config s before
  rw [sent_perform] at he
  simp only [htake] at hshipment
  dsimp only at hunsent ⊢
  cases hdelivers : e.1.delivers with
  | false => exact .inl ⟨by simpa [hdelivers] using he, fun f => by simp [hshipment, hdelivers]⟩
  | true =>
    simp only [hdelivers, if_true, true_and] at he hshipment
    simp only [← hshipment] at hunsent
    by_cases hnothing : (({ config := config } : Detector).performAll s before).1.unsent = Keyed.empty
    · refine .inl ⟨by rw [he, if_neg (not_not_intro hnothing)], fun f => by_contra fun hf => ?_⟩
      simpa [hnothing, hf] using hunsent f
    · refine .inr ⟨_, by rw [he, if_pos hnothing], ?_, hunsent⟩
      by_contra hnone
      refine hnothing (Keyed.ext_get? fun f => ?_)
      rw [hunsent, if_pos (by_contra fun hf => hnone ⟨f, hf⟩), Keyed.get?_empty]

/-- Whatever is done with a detector: what is added goes out with one push at most, the first one behind it
that has an aggregator, unless a frame begins before; every batch holds just the statistics of these samples,
in the order in which they were added; and the detector's own statistics are those of the samples and the
anomalies of the frame, or of all frames. -/
theorem samples_sent_once (config : DetectorConfig) (s : σ) (ops : List (Operation σ)) :
    let d := (({ config := config } : Detector).performAll s ops).1
    let log := (({ config := config } : Detector).performAll s ops).2.2
    log.map Prod.fst = ops ∧
    (∀ i p q, log.Ships i p → log.Ships i q → p = q) ∧
    (∀ p e, log[p]? = some e →
      (e.2.sent = [] ∧ ∀ f, log.shipment p f = []) ∨
      ∃ batch, e.2.sent = [batch] ∧ (∃ f, log.shipment p f ≠ []) ∧
        (∀ f, batch.get? f = if log.shipment p f = [] then none else some (.ofSamples (log.shipment p f))) ∧
        ∀ f stats, batch.get? f = some stats → stats.abnormal = 0) ∧
    ∀ f, d.own.get? f = Log.stats? (log.span config.localScope) f := by
  refine ⟨map_fst_performAll config s ops, fun i p q => Log.Ships.unique, fun p e h => ?_,
    own_performAll config s ops⟩
  rcases sent_of_log config s ops h with hnothing | ⟨batch, hsent, hsome, hbatch⟩
  · exact .inl hnothing
  · refine .inr ⟨batch, hsent, hsome, hbatch, fun f stats hstats => ?_⟩
    rw [hbatch] at hstats
    split at hstats
    · cases hstats
    · obtain rfl := Option.some.inj hstats
      exact (congrArg PowerSums.abnormal (PowerSums.setAbnormal_ofSamples _)).symm

/-- A push without an aggregator keeps the samples, a push that fails loses them. -/
theorem samples_sent_once_failed_push :
    let one : Sample Float := ⟨Binary64.ofNat 0, Binary64.ofNat 1⟩
    let two : Sample Float := ⟨Binary64.ofNat 5, Binary64.ofNat 2⟩
    let log := (({ config := {} } : Detector).performAll ()
      [.addSamples 7 [one], .push none, .addSamples 7 [two], .push (some .unreachable), .addSamples 8 [two],
        .push (some .unreachable)]).2.2
    log.Ships 0 3 ∧ log.Ships 2 3 ∧ ¬ log.Ships 0 5 ∧
      (∃ batch, log[3]?.map (·.2.sent) = some [batch] ∧
        batch.get? 7 = some (.ofSamples [one.runtime, two.runtime])) ∧
      ∃ batch, log[5]?.map (·.2.sent) = some [batch] ∧ batch.get? 7 = none := by
  intro one two log
  obtain ⟨-, honce, hsent, -⟩ := samples_sent_once {} ()
    [.addSamples 7 [one], .push none, .addSamples 7 [two], .push (some .unreachable), .addSamples 8 [two],
      .push (some .unreachable)]
  have hfirst : log.Ships 0 3 := by decide
  refine ⟨hfirst, by decide, fun h => absurd (honce 0 3 5 hfirst h) (by decide), ?_, ?_⟩
  · obtain ⟨-, hnone⟩ | ⟨batch, hbatch, -, hget, -⟩ := hsent 3 _ rfl
    · exact absurd (hnone 7) (by decide)
    · exact ⟨batch, congrArg some hbatch, hget 7⟩
  · obtain ⟨-, hnone⟩ | ⟨batch, hbatch, -, hget, -⟩ := hsent 5 _ rfl
    · exact absurd (hnone 8) (by decide)
    · exact ⟨batch, congrArg some hbatch, hget 7⟩

end Detector

end TraceAnomaly
