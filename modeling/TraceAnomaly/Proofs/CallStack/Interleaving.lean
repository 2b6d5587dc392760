import Mathlib.Order.MinMax
import TraceAnomaly.Proofs.CallStack.Acceptance
import TraceAnomaly.Proofs.CallStack.Strand

/-! Threads do not interfere. Two sequences of events that agree on every thread have the same answers
and lead to the same stacks, records and depths, but for the numbers of the calls; these are exchanged
one for one, and in order on every thread. -/

namespace TraceAnomaly

namespace History

/-- The numbers of the calls that were opened, with their threads. -/
def openings (H : History) : List (Thread × UInt64) :=
  H.filterMap fun
    | .opened id e => some (e.thread, id)
    | _ => none

theorem map_snd_openings (H : History) : H.openings.map Prod.snd = H.openedIds := by
  rw [openings, List.map_filterMap]
  refine List.filterMap_congr fun h _ => ?_
  cases h <;> rfl

theorem openedIds_on (H : History) (t : Thread) :
    (H.on t).openedIds = (H.openings.filter (·.1 = t)).map Prod.snd := by
  rw [openedIds, on, openings, List.filterMap_filter, List.filter_filterMap, List.map_filterMap]
  refine List.filterMap_congr fun h _ => ?_
  cases h with
  | opened id e => by_cases he : e.thread = t <;> simp [he, Option.filter]
  | closed | discarded | unmatched | released | named => simp

theorem exists_on_of_mem_openedIds {H : History} {id : UInt64} (h : id ∈ H.openedIds) :
    ∃ t, id ∈ (H.on t).openedIds := by
  rw [← map_snd_openings] at h
  obtain ⟨⟨t, id⟩, hid, rfl⟩ := List.mem_map.1 h
  refine ⟨t, ?_⟩
  rw [openedIds_on]
  exact List.mem_map.2 ⟨(t, id), by simp [hid], rfl⟩

theorem sublist_openedIds_on (H : History) (t : Thread) : (H.on t).openedIds.Sublist H.openedIds :=
  List.filter_sublist.filterMap _

/-- A number is given out on one thread. -/
theorem thread_unique {H : History} (hnodup : H.openedIds.Nodup) {t u : Thread} {id : UInt64}
    (ht : id ∈ (H.on t).openedIds) (hu : id ∈ (H.on u).openedIds) : t = u := by
  rw [← map_snd_openings] at hnodup
  rw [openedIds_on] at ht hu
  obtain ⟨p, hp, rfl⟩ := List.mem_map.1 ht
  obtain ⟨q, hq, hpq⟩ := List.mem_map.1 hu
  obtain ⟨hp, hpt⟩ := List.mem_filter.1 hp
  obtain ⟨hq, hqu⟩ := List.mem_filter.1 hq
  have hsame : q = p := List.inj_on_of_nodup_map hnodup hq hp hpq
  subst hsame
  exact (of_decide_eq_true hpt).symm.trans (of_decide_eq_true hqu)

/-- The numbers of enclosing calls with which calls of a function have closed. -/
def depths (H : History) (f : UInt64) : List ℕ :=
  H.filterMap fun
    | .closed call depth _ => if call.function = f then some depth else none
    | _ => none

theorem depths_append (H K : History) (f : UInt64) : (H ++ K).depths f = H.depths f ++ K.depths f :=
  List.filterMap_append

theorem depths_rename (ρ : UInt64 → UInt64) (H : History) (f : UInt64) :
    depths (H.map (Happening.rename ρ)) f = H.depths f := by
  rw [depths, List.filterMap_map]
  refine List.filterMap_congr fun h _ => ?_
  cases h <;> rfl

theorem mem_depths_iff {H : History} {f : UInt64} {d : ℕ} :
    d ∈ H.depths f ↔ ∃ t, d ∈ (H.on t).depths f := by
  simp only [depths, on, List.mem_filterMap, List.mem_filter]
  refine ⟨fun ⟨h, hH, hd⟩ => ?_, fun ⟨t, h, ⟨hH, _⟩, hd⟩ => ⟨h, hH, hd⟩⟩
  cases h with
  | closed call depth x => exact ⟨x.thread, _, ⟨hH, by simp⟩, hd⟩
  | opened | discarded | unmatched | released | named => simp at hd

end History

namespace CallStacks

/-! ### Depths -/

theorem maxDepth_settle (s : CallStacks) (c : CallRecord) (d : ℕ) (f : UInt64) :
    (s.settle c d).maxDepth f = if c.function = f then max (s.maxDepth f) d else s.maxDepth f := by
  rw [settle, maxDepth, Keyed.get?_alter]
  by_cases hf : c.function = f
  · simp [hf, maxDepth]
  · simp [hf, Ne.symm hf, maxDepth]

theorem maxDepth_leave (s : CallStacks) (e : CallEvent) (f : UInt64) :
    (s.leave e).1.maxDepth f = (History.depths [s.departure e] f).foldl max (s.maxDepth f) := by
  rcases departure_cases s e with ⟨-, hs, hd⟩ | ⟨c, outer, -, ⟨hs, hd⟩ | ⟨-, -, hs, hd⟩⟩
  · simp [History.depths, hs, hd]
  · simp [History.depths, hs, hd]
  · by_cases hf : (c.close e.time).function = f <;> simp [History.depths, hs, hd, maxDepth_settle, hf]

theorem maxDepth_attach (s : CallStacks) (e : MessageEvent) (f : UInt64) :
    (s.attach e).1.maxDepth f = s.maxDepth f := by
  rcases attach_cases s e with ⟨-, hs⟩ | ⟨c, outer, -, hs⟩ <;> simp [hs]

theorem maxDepth_apply (s : CallStacks) (e : Event) (f : UInt64) :
    (s.apply e).1.maxDepth f = ((s.happens e).depths f).foldl max (s.maxDepth f) := by
  cases e with
  | message e => exact maxDepth_attach s e f
  | call e =>
    cases hk : e.kind with
    | entry =>
      have hkept : (s.enter e).1.maxDepth f = s.maxDepth f := rfl
      simp [apply, call, hk, happens, History.depths, hkept]
    | exit =>
      simp only [apply, call, hk, happens]
      exact maxDepth_leave s e f

theorem maxDepth_run (s : CallStacks) (es : List Event) (f : UInt64) :
    (s.run es).1.maxDepth f = ((s.runHistory es).depths f).foldl max (s.maxDepth f) := by
  induction es generalizing s with
  | nil => rfl
  | cons e rest ih =>
    rw [run_cons, runHistory_cons, History.depths_append, List.foldl_append, ← maxDepth_apply,
      ← perform_operation, ih]

theorem lt_foldl_max_iff {ds : List ℕ} {n m : ℕ} :
    m < ds.foldl max n ↔ m < n ∨ ∃ d ∈ ds, m < d := by
  induction ds generalizing n with
  | nil => simp
  | cons d rest ih => simp [ih, or_assoc]

/-! ### Two sequences -/

def SameOnThreads (es es' : List Event) : Prop :=
  ∀ t, es.filter (·.thread = t) = es'.filter (·.thread = t)

theorem SameOnThreads.perm {es es' : List Event} (h : SameOnThreads es es') : es.Perm es' := by
  refine List.perm_iff_count.2 fun e => ?_
  have hcount := congrArg (List.count e) (h e.thread)
  rwa [List.count_filter (by simp), List.count_filter (by simp)] at hcount

/-- Two images of one state are images of one another. -/
theorem Mirrors.factor {ρ σ : UInt64 → UInt64} {t : Thread} {a b c : CallStacks}
    (hb : Mirrors σ t a b) (hc : Mirrors (ρ ∘ σ) t a c) : Mirrors ρ t b c where
  functions := hc.functions.trans hb.functions.symm
  stack := by
    rw [hc.stack, hb.stack, List.map_map]
    exact List.map_congr_left fun r _ => (r.rename_rename ρ σ).symm
  closed f := by
    rw [hc.closed, hb.closed, List.map_map]
    exact List.map_congr_left fun r _ => (r.rename_rename ρ σ).symm

/-- A function that takes an ascending list to an ascending list is ascending on it. -/
theorem lt_of_ascending {ρ : UInt64 → UInt64} {ids : List UInt64} (hids : ids.Pairwise (· < ·))
    (hmap : (ids.map ρ).Pairwise (· < ·)) {x y : UInt64} (hx : x ∈ ids) (hy : y ∈ ids) (hxy : x < y) :
    ρ x < ρ y := by
  induction ids with
  | nil => cases hx
  | cons a rest ih =>
    obtain ⟨hleast, hrest⟩ := List.pairwise_cons.1 hids
    rw [List.map_cons, List.pairwise_cons] at hmap
    rcases List.mem_cons.1 hx with rfl | hx'
    · rcases List.mem_cons.1 hy with rfl | hy'
      · exact absurd hxy (UInt64.lt_irrefl _)
      · exact hmap.1 _ (List.mem_map_of_mem hy')
    · rcases List.mem_cons.1 hy with rfl | hy'
      · exact absurd (UInt64.lt_trans hxy (hleast x hx')) (UInt64.lt_irrefl _)
      · exact ih hrest hmap.2 hx' hy'

/-- What is known of a state with its history: no call is lost, and records hold only numbers that were
given out. -/
structure Reached (names : FunctionTable) (H : History) (s : CallStacks) : Prop where
  ledger : Ledger names H s
  numbered : Numbered H s
  wellFormed : s.WellFormed

namespace Reached

variable {names : FunctionTable} {H : History} {s : CallStacks}

theorem performAll (names : FunctionTable) (ops : List Operation) :
    Reached names (({ functions := names } : CallStacks).history ops)
      (({ functions := names } : CallStacks).performAll ops).1 where
  ledger := .performAll names ops
  numbered := Numbered.traced.performAll ops (.initial names)
  wellFormed := wellFormed_kept.performAll ops (.start names)

variable (h : Reached names H s) (es : List Event)
include h

theorem ledger_run : Ledger names (H ++ s.runHistory es) (s.run es).1 :=
  (Ledger.traced names).performAll (es.map Event.operation) h.ledger

/-- The new numbers are those after the old ones. -/
theorem openedIds_run : (s.runHistory es).openedIds =
    (List.range' H.openedIds.length (es.map Event.entries).sum).map UInt64.ofNat := by
  have hall := (h.ledger_run es).opened
  rw [History.openedIds_append, List.length_append, length_openedIds_runHistory,
    List.range_eq_range', ← List.range'_append_1, List.map_append, Nat.zero_add,
    ← List.range_eq_range', ← h.ledger.opened] at hall
  exact List.append_cancel_left hall

variable {es} (hn : H.openedIds.length + (es.map Event.entries).sum < UInt64.size)
include hn

theorem ascending_run : (H ++ s.runHistory es).openedIds.Pairwise (· < ·) := by
  refine (h.ledger_run es).ascending ?_
  rw [History.openedIds_append, List.length_append, length_openedIds_runHistory]
  exact hn

theorem nodup_run : (H.openedIds ++ (s.runHistory es).openedIds).Nodup := by
  have hascending := h.ascending_run hn
  rw [History.openedIds_append] at hascending
  exact hascending.imp UInt64.ne_of_lt

omit hn in
/-- Renaming new numbers changes nothing yet. -/
theorem mirrors_self {ρ : UInt64 → UInt64} (hρ : ∀ id ∈ H.openedIds, ρ id = id) (t : Thread) :
    Mirrors ρ t s s where
  functions := rfl
  stack := by
    have hfixed : (s.stack t).map (CallRecord.rename ρ) = (s.stack t).map id :=
      List.map_congr_left fun r hr =>
        CallRecord.rename_eq_self ρ fun id hid => hρ id (h.numbered.stack t r hr hid)
    rw [hfixed, List.map_id]
  closed f := by
    have hfixed : ((s.closedCalls f).filter (·.thread = t)).map (CallRecord.rename ρ) =
        ((s.closedCalls f).filter (·.thread = t)).map id :=
      List.map_congr_left fun r hr => CallRecord.rename_eq_self ρ fun id hid =>
        hρ id (h.numbered.closed f r (List.mem_filter.1 hr).1 hid)
    rw [hfixed, List.map_id]

/-- The numbers given out on a thread are those that its events take alone, renamed. -/
theorem exists_strand (t : Thread) : ∃ σ : UInt64 → UInt64, (∀ id ∈ H.openedIds, σ id = id) ∧
    ((s.runHistory es).on t).openedIds =
      (s.runHistory (es.filter (·.thread = t))).openedIds.map σ := by
  have hlength : (s.runHistory (es.filter (·.thread = t))).openedIds.length =
      ((s.runHistory es).on t).openedIds.length := by
    rw [length_openedIds_runHistory, length_openedIds_on_runHistory]
  have hfew : H.openedIds.length + ((es.filter (·.thread = t)).map Event.entries).sum < UInt64.size := by
    have hle := ((s.runHistory es).sublist_openedIds_on t).length_le
    rw [length_openedIds_on_runHistory, length_openedIds_runHistory] at hle
    omega
  obtain ⟨-, hnodup, hdisjoint⟩ := List.nodup_append.1 (h.nodup_run hfew)
  obtain ⟨σ, hmap, hfixed⟩ := exists_renaming
    (A := fun _ : Unit => (s.runHistory (es.filter (·.thread = t))).openedIds)
    (B := fun _ => ((s.runHistory es).on t).openedIds) (fun _ _ _ _ _ => rfl) (fun _ => hnodup)
    (fun _ => hlength)
  exact ⟨σ, fun id hid => hfixed id fun _ hnew => hdisjoint id hid id hnew rfl, (hmap ()).symm⟩

/-- One for one, numbers of one sequence can be exchanged for those of the other, in order on every
thread. -/
theorem exists_exchange {es' : List Event} (hsame : SameOnThreads es es') :
    ∃ ρ : UInt64 → UInt64, Function.Injective ρ ∧ (∀ id ∈ H.openedIds, ρ id = id) ∧
      ∀ t, ((s.runHistory es).on t).openedIds.map ρ = ((s.runHistory es').on t).openedIds := by
  have hentries : (es.map Event.entries).sum = (es'.map Event.entries).sum :=
    (hsame.perm.map Event.entries).sum_nat
  have hids : (s.runHistory es').openedIds = (s.runHistory es).openedIds := by
    rw [h.openedIds_run, h.openedIds_run, hentries]
  obtain ⟨-, hnodup, hdisjoint⟩ := List.nodup_append.1 (h.nodup_run hn)
  have hnodup' : (s.runHistory es').openedIds.Nodup := hids ▸ hnodup
  obtain ⟨ρ, hmap, hfixed⟩ := exists_renaming
    (A := fun t => ((s.runHistory es).on t).openedIds)
    (B := fun t => ((s.runHistory es').on t).openedIds)
    (fun _ _ _ => History.thread_unique hnodup)
    (fun t => hnodup.sublist (History.sublist_openedIds_on _ t))
    (fun t => by rw [length_openedIds_on_runHistory, length_openedIds_on_runHistory, hsame t])
  refine ⟨ρ, ?_, fun id hid => hfixed id fun t ht => ?_, hmap⟩
  · refine injective_of_map_eq hmap hfixed (fun _ _ _ => History.thread_unique hnodup')
      (fun t => hnodup'.sublist (History.sublist_openedIds_on _ t)) fun id ⟨t, ht⟩ => ?_
    have hid := (History.sublist_openedIds_on _ t).subset ht
    exact History.exists_on_of_mem_openedIds (hids ▸ hid)
  · exact hdisjoint id hid id ((History.sublist_openedIds_on _ t).subset ht) rfl

/-- The exchange keeps the order of the numbers of a thread. -/
theorem ascending_exchange {es' : List Event} (hsame : SameOnThreads es es') {ρ : UInt64 → UInt64}
    (hold : ∀ id ∈ H.openedIds, ρ id = id)
    (hmap : ∀ t, ((s.runHistory es).on t).openedIds.map ρ = ((s.runHistory es').on t).openedIds)
    (t : Thread) {x y : UInt64} (hx : x ∈ ((H ++ s.runHistory es).on t).openedIds)
    (hy : y ∈ ((H ++ s.runHistory es).on t).openedIds) (hxy : x < y) : ρ x < ρ y := by
  have hn' : H.openedIds.length + (es'.map Event.entries).sum < UInt64.size := by
    rwa [← (hsame.perm.map Event.entries).sum_nat]
  have hfixed : (H.on t).openedIds.map ρ = (H.on t).openedIds.map id :=
    List.map_congr_left fun id hid => hold id ((H.sublist_openedIds_on t).subset hid)
  have himage : ((H ++ s.runHistory es).on t).openedIds.map ρ =
      ((H ++ s.runHistory es').on t).openedIds := by
    rw [History.on_append, History.on_append, History.openedIds_append, History.openedIds_append,
      List.map_append, hmap, hfixed, List.map_id]
  have hascending := (h.ascending_run hn).sublist (History.sublist_openedIds_on _ t)
  have hascending' := (h.ascending_run hn').sublist (History.sublist_openedIds_on _ t)
  rw [← himage] at hascending'
  exact lt_of_ascending hascending hascending' hx hy hxy

/-- Seen from any thread, the two sequences do the same. -/
theorem mirrors_run {es' : List Event} (hsame : SameOnThreads es es') {ρ : UInt64 → UInt64}
    (hold : ∀ id ∈ H.openedIds, ρ id = id)
    (hmap : ∀ t, ((s.runHistory es).on t).openedIds.map ρ = ((s.runHistory es').on t).openedIds)
    (t : Thread) :
    Mirrors ρ t (s.run es).1 (s.run es').1 ∧
      answersOn t es' (s.run es').2 = (answersOn t es (s.run es).2).map (Reply.rename ρ) ∧
      (s.runHistory es').on t = ((s.runHistory es).on t).map (Happening.rename ρ) := by
  obtain ⟨σ, hσ, hids⟩ := h.exists_strand hn t
  have hids' : ((s.runHistory es').on t).openedIds =
      (s.runHistory (es'.filter (·.thread = t))).openedIds.map (ρ ∘ σ) := by
    rw [← hmap t, hids, List.map_map, hsame t]
  have hfixed : ∀ id ∈ H.openedIds, (ρ ∘ σ) id = id := fun id hid => by
    rw [Function.comp_apply, hσ id hid, hold id hid]
  obtain ⟨hone, hreplies, hhistory⟩ := (h.mirrors_self hσ t).run h.wellFormed es hids
  obtain ⟨hother, hreplies', hhistory'⟩ := (h.mirrors_self hfixed t).run h.wellFormed es' hids'
  rw [← hsame t] at hother hreplies' hhistory'
  refine ⟨hone.factor hother, ?_, ?_⟩
  · rw [hreplies', hreplies, List.map_map]
    exact List.map_congr_left fun r _ => (r.rename_rename ρ σ).symm
  · rw [hhistory', hhistory, List.map_map]
    exact List.map_congr_left fun r _ => (r.rename_rename ρ σ).symm

end Reached

/-- Depths depend on what happens on each thread. -/
theorem maxDepth_eq_of_on {s : CallStacks} {es es' : List Event} {ρ : UInt64 → UInt64}
    (h : ∀ t, (s.runHistory es').on t = ((s.runHistory es).on t).map (Happening.rename ρ))
    (f : UInt64) : (s.run es').1.maxDepth f = (s.run es).1.maxDepth f := by
  have hmem : ∀ d, d ∈ (s.runHistory es').depths f ↔ d ∈ (s.runHistory es).depths f := fun d => by
    rw [History.mem_depths_iff, History.mem_depths_iff]
    simp only [h, History.depths_rename]
  refine eq_of_forall_lt_iff fun m => ?_
  rw [maxDepth_run, maxDepth_run, lt_foldl_max_iff, lt_foldl_max_iff]
  simp only [hmem]

/-- Whether a frame is accepted depends on its calls on each thread. -/
theorem isOk_ingest_of_calls (s : CallStacks) {f g : Frame}
    (h : ∀ t, threadCalls t f.calls = threadCalls t g.calls) {n : EventCounts}
    (hf : (s.ingest n f).2.2.isOk) (m : EventCounts) : (s.ingest m g).2.2.isOk := by
  exact (follows_ingest s n f).accepted_eq (follows_ingest s m g) h ▸ hf

/-- From any state that has been reached, two sequences with the same events on every thread do the
same, as long as numbers do not run out. There are other numbers, one for one, in order on every thread
and the same as before for old calls, with which all answers, stacks, and closed calls of each thread
and function agree; and depths agree. Frames with the same calls on every thread, and on every thread
the same messages at each instant, are such sequences, and are both accepted or both rejected. -/
theorem run_of_sameOnThreads (names : FunctionTable) (ops : List Operation) {es es' : List Event}
    (hsame : SameOnThreads es es')
    (hn : (({ functions := names } : CallStacks).history ops).openedIds.length +
      (es.map Event.entries).sum < UInt64.size) :
    let s := (({ functions := names } : CallStacks).performAll ops).1
    let old := ({ functions := names } : CallStacks).history ops
    (∃ ρ : UInt64 → UInt64, Function.Injective ρ ∧ (∀ id ∈ old.openedIds, ρ id = id) ∧
      (∀ t, ∀ x ∈ ((old ++ s.runHistory es).on t).openedIds,
        ∀ y ∈ ((old ++ s.runHistory es).on t).openedIds, x < y → ρ x < ρ y) ∧
      ∀ t, Mirrors ρ t (s.run es).1 (s.run es').1 ∧
        answersOn t es' (s.run es').2 = (answersOn t es (s.run es).2).map (Reply.rename ρ)) ∧
    (∀ f, (s.run es').1.maxDepth f = (s.run es).1.maxDepth f) ∧
    ∀ f g : Frame, f.SameOnThreads g → SameOnThreads f.ordered g.ordered ∧
      ∀ n m, (s.ingest n f).2.2.isOk = (s.ingest m g).2.2.isOk := by
  intro s old
  have h : Reached names old s := .performAll names ops
  obtain ⟨ρ, hinjective, hold, hmap⟩ := h.exists_exchange hn hsame
  have hmirrors := h.mirrors_run hn hsame hold hmap
  refine ⟨⟨ρ, hinjective, hold, fun t x hx y hy hxy => ?_, fun t => ⟨(hmirrors t).1, (hmirrors t).2.1⟩⟩,
    maxDepth_eq_of_on fun t => (hmirrors t).2.2, fun f g hfg => ⟨hfg.ordered, fun n m => ?_⟩⟩
  · exact h.ascending_exchange hn hsame hold hmap t hx hy hxy
  · exact Bool.eq_iff_iff.2 ⟨fun hf => isOk_ingest_of_calls s hfg.calls hf m,
      fun hg => isOk_ingest_of_calls s (fun t => (hfg.calls t).symm) hg n⟩

/-- Two calls of one function, one inside the other call of its thread, told in two orders. -/
theorem run_of_sameOnThreads_swapped :
    let t : Thread := ⟨0, 0, 0⟩
    let u : Thread := ⟨0, 0, 1⟩
    let ops : List Operation := [.enter ⟨t, .entry, 7, 0⟩]
    let ofT : List Event := [.call ⟨t, .entry, 1, 10⟩, .message ⟨t, .send, 0, 1, 8, 15⟩,
      .call ⟨t, .exit, 1, 20⟩, .call ⟨t, .exit, 1, 30⟩]
    let ofU : List Event := [.call ⟨u, .entry, 1, 10⟩, .call ⟨u, .exit, 1, 20⟩]
    let f : Frame := { step := 0, calls := [⟨t, .exit, 7, 40⟩, ⟨u, .entry, 1, 40⟩] }
    let g : Frame := { step := 1, calls := [⟨u, .entry, 1, 40⟩, ⟨t, .exit, 7, 40⟩] }
    let s := (({} : CallStacks).performAll ops).1
    (∃ ρ : UInt64 → UInt64, Function.Injective ρ ∧ ρ 0 = 0 ∧ ρ 1 = 2 ∧ ρ 2 = 1 ∧
      Mirrors ρ t (s.run (ofT ++ ofU)).1 (s.run (ofU ++ ofT)).1) ∧
      (s.run (ofU ++ ofT)).1.maxDepth 1 = (s.run (ofT ++ ofU)).1.maxDepth 1 ∧
      (s.ingest {} f).2.2.isOk = (s.ingest {} g).2.2.isOk := by
  intro t u ops ofT ofU f g s
  have hsame : SameOnThreads (ofT ++ ofU) (ofU ++ ofT) := fun v => by
    by_cases ht : t = v
    · subst ht
      decide
    · by_cases hu : u = v
      · subst hu
        decide
      · simp [ofT, ofU, ht, hu]
  have hfg : f.SameOnThreads g := by
    refine ⟨fun v => ?_, fun v time => rfl⟩
    by_cases ht : t = v
    · subst ht
      decide
    · by_cases hu : u = v
      · subst hu
        decide
      · simp [f, g, ht, hu]
  obtain ⟨⟨ρ, hinjective, hold, -, hmirrors⟩, hdepth, hframes⟩ :=
    run_of_sameOnThreads Keyed.empty ops hsame (by decide)
  have hids : ∀ v, (((s.run (ofU ++ ofT)).1.closedCalls 1).filter (·.thread = v)).map (·.id) =
      ((((s.run (ofT ++ ofU)).1.closedCalls 1).filter (·.thread = v)).map (·.id)).map ρ := fun v => by
    rw [(hmirrors v).1.closed 1, List.map_map, List.map_map]
    rfl
  have hbefore : (((s.run (ofT ++ ofU)).1.closedCalls 1).filter (·.thread = t)).map (·.id) = [1] ∧
      (((s.run (ofT ++ ofU)).1.closedCalls 1).filter (·.thread = u)).map (·.id) = [2] := by decide
  have hafter : (((s.run (ofU ++ ofT)).1.closedCalls 1).filter (·.thread = t)).map (·.id) = [2] ∧
      (((s.run (ofU ++ ofT)).1.closedCalls 1).filter (·.thread = u)).map (·.id) = [1] := by decide
  have ht := hids t
  have hu := hids u
  rw [hbefore.1, hafter.1] at ht
  rw [hbefore.2, hafter.2] at hu
  exact ⟨⟨ρ, hinjective, hold 0 (by decide), by simpa using ht.symm, by simpa using hu.symm,
    (hmirrors t).1⟩, hdepth 1, (hframes f g hfg).2 {} {}⟩

end CallStacks

end TraceAnomaly
