import Mathlib.Data.List.Dedup
import Mathlib.Data.List.DropRight
import TraceAnomaly.Proofs.Stats.Gathering
import TraceAnomaly.Proofs.Store.Updates

/-! The store as a function of its history. What it holds of a function is made of the queries since the
last reset that name the function, and of no others; a batch is the queries for its functions, asked
one by one in any order; queries that name different functions commute, and in exact arithmetic all do
that are no resets. -/

namespace TraceAnomaly

variable {α ρ : Type}

abbrev AnyQuery (α : Type) := Σ ρ : Type, Query α ρ

namespace Query

/-- The functions that a query names in order to change their statistics. -/
def functions : Query α ρ → List UInt64
  | .update id _ | .addAbnormal id _ => [id]
  | .updateAll batch => batch.keys
  | .addAbnormalAll counts => counts.keys
  | .value _ | .values | .clear => []

def isClear : Query α ρ → Bool
  | .clear => true
  | _ => false

def isMerge : Query α ρ → Bool
  | .update .. | .updateAll _ | .addAbnormal .. | .addAbnormalAll _ => true
  | _ => false

def effect [Scalar α] (f : UInt64) (v : PowerSums α) : Query α ρ → PowerSums α
  | .update id delta => if f = id then v + delta else v
  | .updateAll batch =>
    match batch.get? f with
    | some delta => v + delta
    | none => v
  | .addAbnormal id n => if f = id then v.addAbnormal n else v
  | .addAbnormalAll counts =>
    match counts.get? f with
    | some n => v.addAbnormal n
    | none => v
  | .value _ | .values => v
  | .clear => .empty

variable {f : UInt64} {q : Query α ρ}

theorem isClear_of_isMerge (h : q.isMerge) : q.isClear = false := by
  cases q <;> simp_all [isMerge, isClear]

variable [Scalar α]

theorem effect_of_not_mem (hf : f ∉ q.functions) (hq : q.isClear = false) (v : PowerSums α) :
    q.effect f v = v := by
  cases q with
  | update id delta => simp_all [functions, effect]
  | updateAll batch => simp [effect, Keyed.get?_eq_none_iff.2 hf]
  | value id => rfl
  | values => rfl
  | addAbnormal id n => simp_all [functions, effect]
  | addAbnormalAll counts => simp [effect, Keyed.get?_eq_none_iff.2 hf]
  | clear => simp [isClear] at hq

end Query

namespace Store

variable [Scalar α] (s : Store α)

def run (qs : List (AnyQuery α)) : Store α := qs.foldl (fun s q => (s.answer q.2).1) s

theorem run_concat (qs : List (AnyQuery α)) (q : AnyQuery α) :
    s.run (qs ++ [q]) = ((s.run qs).answer q.2).1 := by
  simp [run]

/-! ### One query -/

variable {s} in
theorem value_of_get? {f : UInt64} {v : PowerSums α} (h : s.get? f = some v) : s.value f = v := by
  rw [value, h, Option.getD_some]

/-- A query that is no reset changes the functions that it names. -/
theorem get?_answer (q : Query α ρ) (hq : q.isClear = false) (f : UInt64) :
    (s.answer q).1.get? f = if f ∈ q.functions then some (q.effect f (s.value f)) else s.get? f := by
  cases q with
  | update id delta =>
    simp only [answer, update, Keyed.get?_alter, Query.functions, List.mem_singleton, Query.effect]
    split <;> simp_all [value]
  | updateAll batch =>
    simp only [answer, get?_updateAll, Query.functions, Query.effect]
    cases hf : batch.get? f with
    | none => simp [Keyed.get?_eq_none_iff.1 hf]
    | some delta => simp [Keyed.mem_keys_iff.2 ⟨delta, hf⟩]
  | value id => simp [answer, Query.functions]
  | values => simp [answer, Query.functions]
  | addAbnormal id n =>
    simp only [answer, addAbnormal, Keyed.get?_alter, Query.functions, List.mem_singleton, Query.effect]
    split <;> simp_all [value]
  | addAbnormalAll counts =>
    simp only [answer, get?_addAbnormalAll, Query.functions, Query.effect]
    cases hf : counts.get? f with
    | none => simp [Keyed.get?_eq_none_iff.1 hf]
    | some n => simp [Keyed.mem_keys_iff.2 ⟨n, hf⟩]
  | clear => simp [Query.isClear] at hq

theorem value_answer (q : Query α ρ) (f : UInt64) :
    (s.answer q).1.value f = q.effect f (s.value f) := by
  cases hq : q.isClear with
  | true =>
    cases q <;> simp_all [Query.isClear, answer, clear, value, Query.effect]
    cases s.get? f <;> rfl
  | false =>
    rw [value, s.get?_answer q hq]
    split
    · rfl
    · rw [Query.effect_of_not_mem ‹_› hq, value]

/-- Nothing makes the store forget a function. -/
theorem mem_keys_answer (q : Query α ρ) (f : UInt64) :
    f ∈ (s.answer q).1.keys ↔ f ∈ s.keys ∨ f ∈ q.functions := by
  cases hq : q.isClear with
  | true =>
    cases q <;> simp_all [Query.isClear, Query.functions, Keyed.mem_keys_iff, answer, clear]
  | false =>
    simp only [Keyed.mem_keys_iff, s.get?_answer q hq]
    split <;> simp_all

/-- Queries whose effects on each function commute. -/
theorem answer_comm {ρ' : Type} {p : Query α ρ} {q : Query α ρ'} (hp : p.isClear = false)
    (hq : q.isClear = false)
    (h : ∀ f v, q.effect f (p.effect f v) = p.effect f (q.effect f v)) :
    ((s.answer p).1.answer q).1 = ((s.answer q).1.answer p).1 := by
  refine Keyed.ext_get? fun f => ?_
  simp only [get?_answer _ _ hp, get?_answer _ _ hq, value_answer]
  by_cases hfp : f ∈ p.functions <;> by_cases hfq : f ∈ q.functions
  · simp [hfp, hfq, h]
  · simp [hfp, hfq, Query.effect_of_not_mem hfq hq]
  · simp [hfp, hfq, Query.effect_of_not_mem hfp hp]
  · simp [hfp, hfq]

/-! ### Many queries -/

theorem run_empty_mem_keys (qs : List (AnyQuery α)) (f : UInt64) :
    f ∈ (empty.run qs).keys ↔ f ∈ qs.flatMap fun q => q.2.functions := by
  induction qs using List.reverseRecOn with
  | nil => exact Iff.rfl
  | append_singleton qs q ih => simp [run_concat, mem_keys_answer, ih]

def sinceClear (qs : List (AnyQuery α)) : List (AnyQuery α) := qs.rtakeWhile fun q => !q.2.isClear

def effects (f : UInt64) (v : PowerSums α) (qs : List (AnyQuery α)) : PowerSums α :=
  qs.foldl (fun v q => q.2.effect f v) v

theorem value_run (qs : List (AnyQuery α)) (f : UInt64) :
    (empty.run qs).value f =
      effects f .empty ((sinceClear qs).filter fun q => f ∈ q.2.functions) := by
  induction qs using List.reverseRecOn with
  | nil => rfl
  | append_singleton qs q ih =>
    rw [run_concat, value_answer, ih]
    cases hq : q.2.isClear with
    | true =>
      have hnil : sinceClear (qs ++ [q]) = [] := List.rtakeWhile_concat_neg _ _ _ (by simp [hq])
      obtain ⟨ρ, q⟩ := q
      cases q <;> simp_all [Query.isClear, Query.effect, effects]
    | false =>
      have hmore : sinceClear (qs ++ [q]) = sinceClear qs ++ [q] :=
        List.rtakeWhile_concat_pos _ _ _ (by simp [hq])
      by_cases hf : f ∈ q.2.functions
      · simp [hmore, hf, effects]
      · simp [hmore, hf, effects, Query.effect_of_not_mem hf hq]

theorem size_run (qs : List (AnyQuery α)) :
    (empty.run qs).size = (qs.flatMap fun q => q.2.functions).dedup.length := by
  have hperm : (empty.run qs).keys.Perm (qs.flatMap fun q => q.2.functions).dedup :=
    (List.perm_ext_iff_of_nodup (Keyed.nodup_keys _) (List.nodup_dedup _)).2 fun f => by
      rw [run_empty_mem_keys, List.mem_dedup]
  exact (List.length_map Prod.fst).symm.trans hperm.length_eq

/-- If queries commute, their order does not matter. -/
theorem run_perm (P : AnyQuery α → Prop)
    (hcomm : ∀ p q, P p → P q → ∀ s : Store α,
      ((s.answer p.2).1.answer q.2).1 = ((s.answer q.2).1.answer p.2).1)
    {qs qs' : List (AnyQuery α)} (h : qs.Perm qs') (hqs : ∀ q ∈ qs, P q) (s : Store α) :
    s.run qs = s.run qs' :=
  h.foldl_eq' (fun p hp q hq s => hcomm p q (hqs p hp) (hqs q hq) s) s

/-! ### Batches -/

/-- Asks for the functions of some entries one after another, and keeps the answers. -/
def answerEach {γ : Type} (query : UInt64 → γ → Query α ρ) (s : Store α) :
    List (UInt64 × γ) → Store α × List (UInt64 × ρ)
  | [] => (s, [])
  | (f, c) :: rest =>
    let (s, reply) := s.answer (query f c)
    let (final, replies) := answerEach query s rest
    (final, (f, reply) :: replies)

/-- A query that changes one function by itself and answers from the new value. -/
structure Simple {γ : Type} (query : UInt64 → γ → Query α ρ) (step : γ → PowerSums α → PowerSums α)
    (read : PowerSums α → ρ) : Prop where
  store : ∀ (s : Store α) f c g, (s.answer (query f c)).1.get? g =
    if g = f then some (step c (s.value f)) else s.get? g
  reply : ∀ (s : Store α) f c, (s.answer (query f c)).2 = read (step c (s.value f))

theorem simple_update : Simple (α := α) .update (fun delta v => v + delta) id where
  store _ _ _ _ := Keyed.get?_alter ..
  reply _ _ _ := value_of_get? ((Keyed.get?_alter ..).trans (if_pos rfl))

theorem simple_addAbnormal :
    Simple (α := α) .addAbnormal (fun n v => v.addAbnormal n) PowerSums.abnormal where
  store _ _ _ _ := Keyed.get?_alter ..
  reply _ _ _ :=
    congrArg PowerSums.abnormal (value_of_get? ((Keyed.get?_alter ..).trans (if_pos rfl)))

namespace Simple

variable {γ : Type} {query : UInt64 → γ → Query α ρ} {step : γ → PowerSums α → PowerSums α}
  {read : PowerSums α → ρ}

/-- Among distinct functions no query sees what another one has changed. -/
theorem answerEach (h : Simple query step read) {es : List (UInt64 × γ)}
    (hes : (es.map Prod.fst).Nodup) (s : Store α) :
    (s.answerEach query es).2 = es.map (fun e => (e.1, read (step e.2 (s.value e.1)))) ∧
      (∀ e ∈ es, (s.answerEach query es).1.get? e.1 = some (step e.2 (s.value e.1))) ∧
      ∀ f ∉ es.map Prod.fst, (s.answerEach query es).1.get? f = s.get? f := by
  induction es generalizing s with
  | nil => exact ⟨rfl, by simp, fun _ _ => rfl⟩
  | cons e rest ih =>
    obtain ⟨f, c⟩ := e
    obtain ⟨hf, hrest⟩ := List.nodup_cons.1 hes
    obtain ⟨hreplies, hin, hout⟩ := ih hrest (s.answer (query f c)).1
    have hother : ∀ g, g ≠ f → (s.answer (query f c)).1.get? g = s.get? g := fun g hg =>
      (h.store s f c g).trans (if_neg hg)
    have hvalue : ∀ e ∈ rest, (s.answer (query f c)).1.value e.1 = s.value e.1 := fun e he =>
      congrArg (·.getD .empty) (hother e.1 (ne_of_mem_of_not_mem (List.mem_map_of_mem he) hf))
    refine ⟨?_, ?_, ?_⟩
    · refine congrArg₂ List.cons (congrArg (Prod.mk f) (h.reply s f c)) (hreplies.trans ?_)
      exact List.map_congr_left fun e he => by rw [hvalue e he]
    · intro e he
      rcases List.mem_cons.1 he with rfl | he
      · exact (hout f hf).trans ((h.store s f c f).trans (if_pos rfl))
      · exact (hin e he).trans (by rw [hvalue e he])
    · intro g hg
      obtain ⟨hgf, hgrest⟩ : g ≠ f ∧ g ∉ rest.map Prod.fst := by simpa using hg
      exact (hout g hgrest).trans (hother g hgf)

/-- A batch is its queries asked one after another, in any order. -/
theorem answerEach_perm (h : Simple query step read) {batch : Keyed UInt64 γ}
    {es : List (UInt64 × γ)} (hes : es.Perm batch.toList) {s t : Store α}
    (hnamed : ∀ f c, batch.get? f = some c → t.get? f = some (step c (s.value f)))
    (hothers : ∀ f, batch.get? f = none → t.get? f = s.get? f) :
    (s.answerEach query es).1 = t ∧
      Keyed.ofList (s.answerEach query es).2 = batch.relabel fun f => read (t.value f) := by
  have hnd : (es.map Prod.fst).Nodup := (hes.map Prod.fst).nodup_iff.2 (Keyed.nodup_keys batch)
  obtain ⟨hreplies, hin, hout⟩ := h.answerEach hnd s
  refine ⟨Keyed.ext_get? fun f => ?_, Keyed.ofList_of_perm ?_⟩
  · cases hf : batch.get? f with
    | none =>
      rw [hothers f hf]
      exact hout f fun hm => Keyed.get?_eq_none_iff.1 hf ((hes.map Prod.fst).mem_iff.1 hm)
    | some c =>
      rw [hnamed f c hf]
      exact hin (f, c) (hes.mem_iff.2 (Keyed.get?_eq_some_iff.1 hf))
  · rw [hreplies]
    refine (hes.map _).trans (.of_eq (List.map_congr_left fun e he => ?_))
    have hvalue : t.value e.1 = step e.2 (s.value e.1) :=
      value_of_get? (hnamed e.1 e.2 (Keyed.get?_eq_some_iff.2 he))
    exact congrArg (fun v => (e.1, read v)) hvalue.symm

end Simple

/-- The answer to a query that adds to statistics depends on the functions that it names. -/
theorem reply_congr {q : Query α ρ} (hq : q.isMerge) {s t : Store α}
    (h : ∀ f ∈ q.functions, s.value f = t.value f) : (s.answer q).2 = (t.answer q).2 := by
  have hvalue : ∀ f ∈ q.functions, (s.answer q).1.value f = (t.answer q).1.value f := fun f hf => by
    rw [value_answer, value_answer, h f hf]
  cases q with
  | update id delta => exact hvalue id (by simp [Query.functions])
  | updateAll batch => exact Keyed.relabel_congr hvalue
  | addAbnormal id n => exact congrArg PowerSums.abnormal (hvalue id (by simp [Query.functions]))
  | addAbnormalAll counts =>
    exact Keyed.relabel_congr fun f hf => congrArg PowerSums.abnormal (hvalue f hf)
  | value id => simp [Query.isMerge] at hq
  | values => simp [Query.isMerge] at hq
  | clear => simp [Query.isMerge] at hq

/-- Queries that name different functions do not see each other. -/
theorem answer_comm_of_disjoint {ρ' : Type} {p : Query α ρ} {q : Query α ρ'} (hp : p.isMerge)
    (hq : q.isMerge) (h : p.functions.Disjoint q.functions) :
    ((s.answer p).1.answer q).1 = ((s.answer q).1.answer p).1 ∧
      ((s.answer p).1.answer q).2 = (s.answer q).2 ∧
      ((s.answer q).1.answer p).2 = (s.answer p).2 := by
  have hp' := Query.isClear_of_isMerge hp
  have hq' := Query.isClear_of_isMerge hq
  refine ⟨s.answer_comm hp' hq' fun f v => ?_, reply_congr hq fun f hf => ?_,
    reply_congr hp fun f hf => ?_⟩
  · by_cases hf : f ∈ p.functions
    · rw [Query.effect_of_not_mem (h hf) hq', Query.effect_of_not_mem (h hf) hq']
    · rw [Query.effect_of_not_mem hf hp', Query.effect_of_not_mem hf hp']
  · rw [value_answer, Query.effect_of_not_mem (fun hfp => h hfp hf) hp']
  · rw [value_answer, Query.effect_of_not_mem (h hf) hq']

/-! ### Exact arithmetic -/

section Exact

variable {K : Type} [Field K] [LinearOrder K] [FloorRing K] [SquareRoot K]

/-- Every query that is no reset adds something to the statistics of a function. -/
theorem exists_effect_eq_add {q : Query K ρ} (hq : q.isClear = false) (f : UInt64) :
    ∃ d : PowerSums K, ∀ v, q.effect f v = v + d := by
  have hnothing : ∀ v : PowerSums K, v = v + .empty := fun v => (PowerSums.add_empty v).symm
  cases q with
  | update id delta =>
    by_cases hf : f = id
    · exact ⟨delta, fun v => if_pos hf⟩
    · exact ⟨.empty, fun v => (if_neg hf).trans (hnothing v)⟩
  | updateAll batch =>
    cases hf : batch.get? f with
    | some delta => exact ⟨delta, fun v => by simp [Query.effect, hf]⟩
    | none => exact ⟨.empty, fun v => by simpa [Query.effect, hf] using hnothing v⟩
  | value id => exact ⟨.empty, hnothing⟩
  | values => exact ⟨.empty, hnothing⟩
  | addAbnormal id n =>
    by_cases hf : f = id
    · exact ⟨.addAbnormal .empty n, fun v => (if_pos hf).trans (PowerSums.addAbnormal_eq_add v n)⟩
    · exact ⟨.empty, fun v => (if_neg hf).trans (hnothing v)⟩
  | addAbnormalAll counts =>
    cases hf : counts.get? f with
    | some n =>
      exact ⟨.addAbnormal .empty n, fun v => by
        simpa [Query.effect, hf] using PowerSums.addAbnormal_eq_add v n⟩
    | none => exact ⟨.empty, fun v => by simpa [Query.effect, hf] using hnothing v⟩
  | clear => simp [Query.isClear] at hq

theorem run_perm_exact {qs qs' : List (AnyQuery K)} (h : qs.Perm qs')
    (hqs : ∀ q ∈ qs, q.2.isClear = false) (s : Store K) : s.run qs = s.run qs' := by
  refine run_perm (·.2.isClear = false) (fun p q hp hq s => s.answer_comm hp hq fun f v => ?_) h hqs s
  obtain ⟨d, hd⟩ := exists_effect_eq_add hp f
  obtain ⟨e, he⟩ := exists_effect_eq_add hq f
  rw [hd, he, he, hd, PowerSums.merge_right_comm]

end Exact

/-- After any queries the store holds of every function what those since the last reset that name it
make of empty statistics, one after another, and it knows the functions that were ever named. Adding to
one function is answered by its new value. A batch is answered by the new values of its functions, and
answer and store are those of asking for them one after another, in any order. Queries that name
different functions commute. In exact arithmetic, so do all queries between two resets. -/
theorem history_per_function (qs : List (AnyQuery α)) :
    (∀ f, (empty.run qs).value f =
      effects f .empty ((sinceClear qs).filter fun q => f ∈ q.2.functions)) ∧
    (empty.run qs).size = (qs.flatMap fun q => q.2.functions).dedup.length ∧
    (∀ s : Store α,
      (∀ f delta, (s.answer (.update f delta)).2 = (s.answer (.update f delta)).1.value f) ∧
      (∀ f n, (s.answer (.addAbnormal f n)).2 = ((s.answer (.addAbnormal f n)).1.value f).abnormal) ∧
      (∀ batch, let batched := s.answer (.updateAll batch)
        batched.2.keys = batch.keys ∧
        (∀ f ∈ batch.keys, batched.2.get? f = some (batched.1.value f)) ∧
        ∀ es, es.Perm batch.toList → (s.answerEach .update es).1 = batched.1 ∧
          Keyed.ofList (s.answerEach .update es).2 = batched.2) ∧
      (∀ counts, let batched := s.answer (.addAbnormalAll counts)
        batched.2.keys = counts.keys ∧
        (∀ f ∈ counts.keys, batched.2.get? f = some (batched.1.value f).abnormal) ∧
        ∀ es, es.Perm counts.toList → (s.answerEach .addAbnormal es).1 = batched.1 ∧
          Keyed.ofList (s.answerEach .addAbnormal es).2 = batched.2) ∧
      ∀ {ρ ρ' : Type} (p : Query α ρ) (q : Query α ρ'), p.isMerge → q.isMerge →
        p.functions.Disjoint q.functions →
        ((s.answer p).1.answer q).1 = ((s.answer q).1.answer p).1 ∧
          ((s.answer p).1.answer q).2 = (s.answer q).2 ∧
          ((s.answer q).1.answer p).2 = (s.answer p).2) ∧
    ∀ (s : Store ℚ) (between between' : List (AnyQuery ℚ)), between.Perm between' →
      (∀ q ∈ between, q.2.isClear = false) → s.run between = s.run between' := by
  have hkeys : ∀ {γ δ : Type} (m : Keyed UInt64 γ) (read : UInt64 → δ),
      (m.relabel read).keys = m.keys ∧ ∀ f ∈ m.keys, (m.relabel read).get? f = some (read f) := by
    refine fun m read => ⟨Keyed.keys_relabel m read, fun f hf => ?_⟩
    obtain ⟨c, hc⟩ := Keyed.mem_keys_iff.1 hf
    rw [Keyed.get?_relabel, hc, Option.map_some]
  refine ⟨value_run qs, size_run qs, fun s => ⟨fun _ _ => rfl, fun _ _ => rfl, fun batch => ?_,
    fun counts => ?_, fun p q hp hq h => s.answer_comm_of_disjoint hp hq h⟩,
    fun s _ _ h hqs => run_perm_exact h hqs s⟩
  · obtain ⟨hk, hget⟩ := hkeys batch (s.updateAll batch).value
    refine ⟨hk, hget, fun es hes => simple_update.answerEach_perm hes (fun f c hf => ?_) fun f hf => ?_⟩
    · exact (get?_updateAll s batch f).trans (by rw [hf])
    · exact (get?_updateAll s batch f).trans (by rw [hf])
  · obtain ⟨hk, hget⟩ := hkeys counts fun f => ((s.addAbnormalAll counts).value f).abnormal
    refine ⟨hk, hget, fun es hes =>
      simple_addAbnormal.answerEach_perm hes (fun f c hf => ?_) fun f hf => ?_⟩
    · exact (get?_addAbnormalAll s counts f).trans (by rw [hf])
    · exact (get?_addAbnormalAll s counts f).trans (by rw [hf])

/-- Two functions are named before a reset. After it a batch names one of them and another one, and an
anomaly is found. -/
theorem history_per_function_batch :
    let batch : Keyed UInt64 (PowerSums ℚ) := .ofList [(1, .ofSamples [3]), (3, .ofSamples [1, 2])]
    let qs : List (AnyQuery ℚ) := [⟨_, .update 1 (.ofSamples [5])⟩, ⟨_, .addAbnormal 2 1⟩, ⟨_, .clear⟩,
      ⟨_, .updateAll batch⟩, ⟨_, .addAbnormal 1 2⟩]
    (empty.run qs).value 1 = (PowerSums.ofSamples [3]).addAbnormal 2 ∧
      (empty.run qs).value 2 = .empty ∧ (empty.run qs).size = 3 ∧
      batch.toList.reverse.Perm batch.toList ∧
      ((empty.run qs).answerEach .update batch.toList.reverse).1 =
        ((empty.run qs).answer (.updateAll batch)).1 ∧
      [1, 3].Disjoint [(2 : UInt64)] ∧
      (((empty.run qs).answer (.updateAll batch)).1.answer (.addAbnormal 2 1)).2 =
        ((empty.run qs).answer (.addAbnormal 2 1)).2 ∧
      (empty.run qs).run [⟨_, .updateAll batch⟩, ⟨_, .addAbnormal 1 2⟩] =
        (empty.run qs).run [⟨_, .addAbnormal 1 2⟩, ⟨_, .updateAll batch⟩] := by
  intro batch qs
  obtain ⟨hvalue, hsize, hanswers, hexact⟩ := history_per_function qs
  obtain ⟨-, -, hbatch, -, hcomm⟩ := hanswers (empty.run qs)
  have hperm : batch.toList.reverse.Perm batch.toList := List.reverse_perm _
  have hdisjoint : [1, 3].Disjoint [(2 : UInt64)] := by simp
  refine ⟨(hvalue 1).trans (by decide +kernel), (hvalue 2).trans (by decide +kernel),
    hsize.trans (by decide), hperm, ((hbatch batch).2.2 _ hperm).1, hdisjoint, ?_, ?_⟩
  · exact (hcomm (.updateAll batch) (.addAbnormal 2 1) rfl rfl hdisjoint).2.1
  · exact hexact _ _ _ (List.Perm.swap ..) (by simp [Query.isClear])

end Store

end TraceAnomaly
