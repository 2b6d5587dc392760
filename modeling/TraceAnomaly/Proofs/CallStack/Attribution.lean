import Mathlib.Data.List.Permutation
import TraceAnomaly.Proofs.CallStack.Attachment
import TraceAnomaly.Proofs.Trace.Moment

/-! Messages belong to the call that runs at their instant. While events are applied, every message goes
to the innermost open call of its thread, at the place of the message among the calls. In a frame whose
calls are in order of time this place is the moment of the message's instant, and the innermost call of
that moment can be told from the entries and exits of the records alone. -/

namespace TraceAnomaly

namespace CallRecord

/-- The call runs at an instant, its entry and its exit included. -/
def RunsAt (r : CallRecord) (τ : UInt64) : Prop := r.entry ≤ τ ∧ ∀ x ∈ r.exit, τ ≤ x

instance (r : CallRecord) (τ : UInt64) : Decidable (r.RunsAt τ) :=
  decidable_of_iff (r.entry ≤ τ ∧ r.exit.all (τ ≤ ·)) (by simp [RunsAt, Option.all_eq_true])

/-- The call was entered before an instant and runs at it. -/
def RunsInto (r : CallRecord) (τ : UInt64) : Prop := r.entry < τ ∧ ∀ x ∈ r.exit, τ ≤ x

/-- A call was made, directly or by way of others, from another one. -/
def Descends (calls : List CallRecord) (c r : CallRecord) : Prop :=
  Relation.TransGen (fun c p => p ∈ calls ∧ c.parent = some p.id) c r

end CallRecord

namespace CallStacks

variable {s : CallStacks} {es : List Event} {t : Thread} {τ : UInt64}

/-- The innermost open call of a thread at an instant. -/
def callAt (s : CallStacks) (es : List Event) (t : Thread) (τ : UInt64) : Option UInt64 :=
  ((s.run (upTo t τ es)).1.stack t).head?.map (·.id)

/-! ### The moment of an instant -/

/-- The events up to the moment of an instant, and those behind it, are accepted. -/
theorem Accepts.moment (h : s.Accepts es) (t : Thread) (τ : UInt64) :
    s.Accepts (upTo t τ es) ∧ (s.run (upTo t τ es)).1.Accepts (since t τ es) :=
  Accepts.append ((upTo_append_since t τ es).symm ▸ h)

theorem mem_outcomes_moment {r : CallRecord} (t : Thread) (τ : UInt64) : r ∈ s.outcomes es ↔
    r ∈ (s.runHistory (upTo t τ es)).closedCalls ∨ r ∈ (s.run (upTo t τ es)).1.outcomes (since t τ es) := by
  rw [← mem_outcomes_append, upTo_append_since]

variable (hs : s.WellFormed) (h : s.Accepts es)
include hs h

/-- An open call of the moment runs at the instant. -/
theorem exists_running
    (hsorted : ((es.filterMap Event.call?).filter (·.thread = t)).Pairwise fun a b => a.time ≤ b.time)
    (hopen : ∀ r ∈ s.stack t, r.entry ≤ τ) {q : CallRecord}
    (hq : q ∈ (s.run (upTo t τ es)).1.stack t) : ∃ r ∈ s.outcomes es, q.Continues r ∧ r.RunsAt τ := by
  have hmoment : (s.run (upTo t τ es)).1.WellFormed := wellFormed_kept.performAll _ hs
  have hthread := (hmoment.of_mem_stack hq).1
  obtain ⟨r, hr, hqr⟩ := survives (h.moment t τ).2 hq
  refine ⟨r, (mem_outcomes_moment t τ).2 (.inr hr), hqr, ?_, fun x hx => ?_⟩
  · have hq' : q ∈ s.outcomes (upTo t τ es) := List.mem_append_left _ ((mem_openCalls_iff _).2 ⟨t, hq⟩)
    rw [hqr.entry]
    rcases entered_outcomes hs hq' with ⟨c, hc, hcq⟩ | ⟨x, hx, -, ht, htime⟩
    · exact hcq.entry ▸ hopen c (hthread ▸ hc)
    · exact htime ▸ (CallEvent.le_of_not_after (not_after_of_mem_upTo hx (ht.trans hthread))).1
  · rcases left_outcomes hmoment hr with hnone | ⟨y, hy, -, ht, htime⟩
    · rw [hnone] at hx
      cases hx
    · obtain rfl : y.time = x := Option.some.inj (htime.symm.trans hx)
      exact le_of_mem_since hsorted hy (ht.trans (hqr.thread.trans hthread))

/-- A call that runs at an instant is open at its moment; or it is entered just then, and another call
is open that is left just then. -/
theorem running_cases {c : CallRecord} (hc : c ∈ s.outcomes es) (hτ : c.RunsAt τ)
    (hsorted : ((es.filterMap Event.call?).filter (·.thread = c.thread)).Pairwise
      fun a b => a.time ≤ b.time) :
    (∃ q ∈ (s.run (upTo c.thread τ es)).1.stack c.thread, q.Continues c) ∨
      τ ≤ c.entry ∧ (s.run (upTo c.thread τ es)).1.stack c.thread ≠ [] := by
  have hmoment : (s.run (upTo c.thread τ es)).1.WellFormed := wellFormed_kept.performAll _ hs
  rcases (mem_outcomes_moment c.thread τ).1 hc with hclosed | hc'
  · -- exits up to the moment are earlier than the instant
    obtain ⟨x, hx, hk, ht, hexit⟩ := left_of_closed hs hclosed
    have hlt := (CallEvent.le_of_not_after (not_after_of_mem_upTo hx ht)).2 hk
    exact absurd (hτ.2 x.time hexit) (UInt64.not_le.2 hlt)
  · rcases entered_outcomes hmoment hc' with hopen | ⟨x, hx, -, ht, htime⟩
    · exact .inl hopen
    · refine .inr ⟨htime ▸ le_of_mem_since hsorted hx ht, ?_⟩
      -- an exit comes first, and is accepted
      obtain ⟨d, rest, hd, hdt, hdk⟩ := exit_of_mem_since hsorted hx ht (htime ▸ hτ.1)
      have hexit := (h.moment c.thread τ).2
      rw [hd] at hexit
      intro hst
      have hempty := hexit.1
      rcases leave_cases (s.run (upTo c.thread τ es)).1 d with ⟨-, hleave⟩ | ⟨q, outer, hq, -⟩
      · simp [apply, call, hdk, hleave, Except.map, Except.isOk, Except.toBool] at hempty
      · rw [hdt, hst] at hq
        cases hq

omit hs h

/-! ### Descendants -/

/-- An open call descends only from calls below the innermost one. -/
theorem descends_below {q c r : CallRecord} {outer calls : List CallRecord}
    (h : Nested t (q :: outer))
    (hcalls : ∀ p ∈ calls, ∀ d ∈ q :: outer, p.id = d.id → d.Continues p)
    (hc : ∃ d ∈ q :: outer, d.Continues c) (hr : c.Descends calls r) :
    r ∈ calls ∧ r.id ∈ outer.map (·.id) := by
  induction hr with
  | single hstep =>
    obtain ⟨hmem, hparent⟩ := hstep
    obtain ⟨d, hd, hdc⟩ := hc
    exact ⟨hmem, h.parent_mem hd (hdc.parent.symm.trans hparent)⟩
  | tail hsteps hstep ih =>
    obtain ⟨hmem, hparent⟩ := hstep
    obtain ⟨hold, hid⟩ := ih
    obtain ⟨d, hd, hdid⟩ := List.mem_map.1 hid
    have hdp := hcalls _ hold d (List.mem_cons_of_mem q hd) hdid.symm
    exact ⟨hmem, h.parent_mem (List.mem_cons_of_mem q hd) (hdp.parent.symm.trans hparent)⟩

section Numbers

variable {names : FunctionTable} {H : History} (hr : Reached names H s) (hacc : s.Accepts es)
  (hn : H.openedIds.length + (es.map Event.entries).sum < UInt64.size)
include hr hacc hn

/-- A record with the number of an open call of a moment is that call later on. -/
theorem continues_of_id {d p : CallRecord} (hd : d ∈ (s.run (upTo t τ es)).1.stack t)
    (hp : p ∈ (s.run es).1.openCalls ++ (s.run es).1.frameCalls) (hid : p.id = d.id) :
    d.Continues p := by
  obtain ⟨r, hrd, hdr⟩ := survives (hacc.moment t τ).2 hd
  have hmem : r ∈ (s.run es).1.openCalls ++ (s.run es).1.frameCalls :=
    Reached.mem_records_of_outcomes ((mem_outcomes_moment t τ).2 (.inr hrd))
  have hnodup := (hr.run es).nodup_records (Reached.length_run hn)
  obtain rfl : p = r := List.inj_on_of_nodup_map hnodup hp hmem (hid.trans hdr.id.symm)
  exact hdr

/-- A call is the innermost one on its own thread only. -/
theorem thread_of_callAt {r : CallRecord} (hrm : r ∈ s.outcomes es)
    (hcall : s.callAt es t τ = some r.id) : t = r.thread := by
  obtain ⟨q, hq, hid⟩ := Option.map_eq_some_iff.1 hcall
  have hmem : q ∈ (s.run (upTo t τ es)).1.stack t := List.mem_of_head? hq
  have hqr := continues_of_id hr hacc hn hmem (Reached.mem_records_of_outcomes hrm) hid.symm
  have hmoment : (s.run (upTo t τ es)).1.WellFormed := wellFormed_kept.performAll _ hr.wellFormed
  exact (hqr.thread.trans (hmoment.of_mem_stack hmem).1).symm

/-- No call that descends from the innermost one of an instant was entered before and runs at it. -/
theorem not_runsInto_of_descends {q r c : CallRecord} {outer : List CallRecord}
    (hq : (s.run (upTo t τ es)).1.stack t = q :: outer) (hqr : q.Continues r)
    (hc : c ∈ s.outcomes es)
    (hsorted : ((es.filterMap Event.call?).filter (·.thread = c.thread)).Pairwise
      fun a b => a.time ≤ b.time)
    (hdesc : c.Descends ((s.run es).1.openCalls ++ (s.run es).1.frameCalls) r) : ¬ c.RunsInto τ := by
  intro hτ
  have hmoment := hr.run (upTo c.thread τ es)
  rcases running_cases hr.wellFormed hacc hc ⟨UInt64.le_of_lt hτ.1, hτ.2⟩ hsorted with hopen | ⟨hle, -⟩
  · -- all calls from which it descends are below the innermost call of its thread
    obtain ⟨p, below, hp⟩ : ∃ p below, (s.run (upTo c.thread τ es)).1.stack c.thread = p :: below := by
      obtain ⟨d, hd, -⟩ := hopen
      exact List.exists_cons_of_ne_nil (List.ne_nil_of_mem hd)
    have hnested := hmoment.wellFormed.nested c.thread
    have hcalls : ∀ p' ∈ (s.run es).1.openCalls ++ (s.run es).1.frameCalls, ∀ d ∈ p :: below,
        p'.id = d.id → d.Continues p' := fun p' hp' d hd hid => by
      rw [← hp] at hd
      exact continues_of_id hr hacc hn hd hp' hid
    rw [hp] at hnested hopen
    obtain ⟨hrm, hid⟩ := descends_below hnested hcalls hopen hdesc
    obtain ⟨d, hd, hdr⟩ := List.mem_map.1 hid
    have hthread : t = c.thread := by
      have hqt : r.thread = t := hqr.thread.trans
        (((hr.run (upTo t τ es)).wellFormed.of_mem_stack (hq ▸ List.mem_cons_self)).1)
      have hdc := (hcalls r hrm d (List.mem_cons_of_mem p hd) hdr.symm).thread
      exact hqt.symm.trans (hdc.trans (hmoment.wellFormed.of_mem_stack (hp ▸ List.mem_cons_of_mem p hd)).1)
    subst hthread
    rw [hp] at hq
    obtain ⟨rfl, rfl⟩ := List.cons.inj hq
    have hfew : H.openedIds.length + ((upTo c.thread τ es).map Event.entries).sum < UInt64.size := by
      rw [← upTo_append_since c.thread τ es, List.map_append, List.sum_append] at hn
      omega
    have hnodup := hmoment.nodup_stack (Reached.length_run hfew) c.thread
    rw [hp, List.map_cons, List.nodup_cons] at hnodup
    exact hnodup.1 (hqr.id ▸ hid)
  · exact absurd hτ.1 (UInt64.not_lt.2 hle)

end Numbers

/-! ### The messages of a frame -/

/-- Without calls of a thread its open calls stay the same. -/
theorem ids_run_quiet (h : ∀ c, .call c ∈ es → c.thread ≠ t) :
    ((s.run es).1.stack t).map (·.id) = (s.stack t).map (·.id) := by
  induction es generalizing s with
  | nil => rfl
  | cons e es ih =>
    rw [run_cons, perform_operation, ih fun c hc => h c (List.mem_cons_of_mem e hc)]
    by_cases ht : t = e.thread
    · cases e with
      | call c => exact absurd ht.symm (h c (by simp))
      | message m =>
        rw [Event.thread_message] at ht
        subst ht
        rcases attach_cases s m with ⟨-, hs⟩ | ⟨c, outer, hst, hs⟩
        · simp [apply, hs]
        · simp [apply, hs, hst]
    · rw [stack_apply_other s e ht]

/-- A message of a frame finds the innermost open call of its instant. -/
theorem callAt_message {f : Frame} {before after : List Event} {m : MessageEvent}
    (h : f.ordered = before ++ .message m :: after) :
    s.callAt f.ordered m.thread m.time = ((s.run before).1.stack m.thread).head?.map (·.id) := by
  obtain ⟨hbefore, hafter⟩ := Frame.around_ordered h
  have hupTo : upTo m.thread m.time f.ordered =
      before ++ .message m :: upTo m.thread m.time after := by
    have hall : ∀ e ∈ before, (!e.isAfter m.thread m.time) = true := by
      intro e he
      cases e with
      | message m' => rfl
      | call c => simpa [Event.isAfter, imp_iff_not_or] using hbefore c he
    rw [h, upTo, List.takeWhile_append_of_pos hall]
    rfl
  have hquiet : ∀ c, .call c ∈ .message m :: upTo m.thread m.time after → c.thread ≠ m.thread :=
    fun c hc => quiet_upTo hafter ((List.mem_cons.1 hc).resolve_left (by simp))
  have hids := ids_run_quiet (s := (s.run before).1) hquiet
  rw [callAt, hupTo, run_append, ← List.head?_map, hids, List.head?_map]

theorem attachments_ordered (f : Frame) : s.attachments f.ordered =
    (f.ordered.filterMap Event.message?).filterMap fun m =>
      (s.callAt f.ordered m.thread m.time).map fun id => (id, m) := by
  have hrest : ∀ after before, f.ordered = before ++ after → (s.run before).1.attachments after =
      (after.filterMap Event.message?).filterMap fun m =>
        (s.callAt f.ordered m.thread m.time).map fun id => (id, m) := by
    intro after
    induction after with
    | nil => intro before _; rfl
    | cons e after ih =>
      intro before h
      have hnext := ih (before ++ [e]) (by simp [h])
      rw [run_concat] at hnext
      cases e with
      | call c =>
        rw [List.filterMap_cons_none (Event.message?_call c)]
        exact hnext
      | message m =>
        have hcall := callAt_message (s := s) h
        rw [List.filterMap_cons_some (Event.message?_message m), List.filterMap_cons, hcall]
        simp only [attachments, attached, hnext]
        cases ((s.run before).1.stack m.thread).head? <;> rfl
  exact hrest f.ordered [] rfl

/-- The messages of a frame that go to a call are those of the instants at which it is the innermost one,
by time. -/
theorem messagesFor_ordered (f : Frame) {id : UInt64}
    (ht : ∀ u τ, s.callAt f.ordered u τ = some id → u = t) :
    messagesFor id (s.attachments f.ordered) =
      ((f.messages.filter fun m => s.callAt f.ordered m.thread m.time = some id).mergeSort
        fun a b => a.time ≤ b.time).map Message.ofEvent := by
  have hplaced : ∀ ms : List MessageEvent, messagesFor id (ms.filterMap fun m =>
      (s.callAt f.ordered m.thread m.time).map fun id => (id, m)) =
        (ms.filter fun m => s.callAt f.ordered m.thread m.time = some id).map Message.ofEvent := by
    intro ms
    induction ms with
    | nil => rfl
    | cons m ms ih =>
      unfold messagesFor at ih ⊢
      cases hm : s.callAt f.ordered m.thread m.time with
      | none => simp [hm, ih]
      | some id' => by_cases hid : id' = id <;> simp [hm, hid, ih]
  have hthread : ∀ ms : List MessageEvent,
      (ms.filter (·.thread = t)).filter (fun m => s.callAt f.ordered m.thread m.time = some id) =
        ms.filter fun m => s.callAt f.ordered m.thread m.time = some id := by
    intro ms
    rw [List.filter_filter]
    refine List.filter_congr fun m _ => ?_
    by_cases hm : s.callAt f.ordered m.thread m.time = some id
    · simp [ht _ _ hm]
    · simp [hm]
  rw [attachments_ordered, hplaced, ← hthread (f.ordered.filterMap Event.message?),
    Frame.messages_ordered, mergeSort_filter MessageEvent.time, hthread]

/-! ### Frames -/

/-- Let a frame have the calls of every thread in order of time, and its messages not earlier than the
entries of the calls that are open before, and let it be accepted. Take the calls that were open before
the frame or are opened in it, as they are afterwards; other records gain nothing. There is a host for
every thread and instant, which is the number of one of these calls or missing. Each call gains the
messages that it hosts, by time, those of one instant in delivery order. A message has a host just if a
call of its thread runs at its instant. The host is such a call, and no call that descends from it was
entered before the instant and runs at it. -/
theorem ingest_attributes (names : FunctionTable) (ops : List Operation) {f : Frame} (hf : f.Timed)
    (n : EventCounts)
    (hn : (({ functions := names } : CallStacks).history ops).openedIds.length +
      f.calls.countP (·.kind = .entry) < UInt64.size)
    (hopen : ∀ m ∈ f.messages,
      ∀ r ∈ (({ functions := names } : CallStacks).performAll ops).1.stack m.thread, r.entry ≤ m.time)
    (hok : ((({ functions := names } : CallStacks).performAll ops).1.ingest n f).2.2.isOk) :
    let s := (({ functions := names } : CallStacks).performAll ops).1
    let s' := (s.ingest n f).1
    let closed := (s.happensAll f.ordered).closedCalls
    let live := s'.openCalls ++ closed
    (live.map (·.id)).Nodup ∧
      (live.map (·.id)).Perm (s.openCalls.map (·.id) ++ (s.happensAll f.ordered).openedIds) ∧
      (∀ k, s'.closedCalls k = s.closedCalls k ++ closed.filter (·.function = k)) ∧
      ∃ host : Thread → UInt64 → Option UInt64,
        (∀ r ∈ live, r.messages = ((s.get? r.id).map (·.messages)).getD [] ++
          ((f.messages.filter fun m => host m.thread m.time = some r.id).mergeSort
            fun a b => a.time ≤ b.time).map Message.ofEvent) ∧
        ∀ m ∈ f.messages,
          ((host m.thread m.time).isSome ↔ ∃ c ∈ live, c.thread = m.thread ∧ c.RunsAt m.time) ∧
          ∀ id, host m.thread m.time = some id → ∃ r ∈ live, r.id = id ∧ r.thread = m.thread ∧
            r.RunsAt m.time ∧
            ∀ c ∈ live, c.Descends (s'.openCalls ++ s'.frameCalls) r → ¬ c.RunsInto m.time := by
  intro s s' closed live
  have h : Reached names _ s := .performAll names ops
  have hacc : s.Accepts f.ordered := accepts_of_applyAll hok
  obtain ⟨hrun, hhistory⟩ : s' = (s.run f.ordered).1 ∧ _ := ingest_run hok
  have hlive : live = s.outcomes f.ordered := by rw [outcomes, ← hrun, ← hhistory]
  have hfew : (({ functions := names } : CallStacks).history ops).openedIds.length +
      (f.ordered.map Event.entries).sum < UInt64.size := by
    rwa [sum_entries, Frame.calls_ordered]
  have hsorted : ∀ t, ((f.ordered.filterMap Event.call?).filter (·.thread = t)).Pairwise
      fun a b => a.time ≤ b.time := fun t => by
    rw [Frame.calls_ordered]
    exact hf t
  have hclosed : closed = (s.runHistory f.ordered).closedCalls := by rw [← hhistory]
  rw [hlive, hrun, hclosed, hhistory]
  refine ⟨h.nodup_outcomes hfew, h.outcomes_perm hacc, fun k => closedCalls_run s f.ordered k,
    s.callAt f.ordered, fun r hr => ?_, fun m hm => ?_⟩
  · rw [h.messages_outcomes f.ordered hfew hr]
    congr 1
    exact messagesFor_ordered f fun u τ hcall => thread_of_callAt h hacc hfew hr hcall
  · cases hst : (s.run (upTo m.thread m.time f.ordered)).1.stack m.thread with
    | nil =>
      have hnone : s.callAt f.ordered m.thread m.time = none := by simp [callAt, hst]
      rw [hnone]
      refine ⟨iff_of_false Bool.false_ne_true ?_, by simp⟩
      rintro ⟨c, hc, ht, hτ⟩
      rcases running_cases h.wellFormed hacc hc hτ (hsorted c.thread) with ⟨q, hq, -⟩ | ⟨-, hne⟩
      · rw [ht, hst] at hq
        cases hq
      · exact hne (ht ▸ hst)
    | cons q outer =>
      have hcall : s.callAt f.ordered m.thread m.time = some q.id := by simp [callAt, hst]
      have hmoment := h.run (upTo m.thread m.time f.ordered)
      have hq : q ∈ (s.run (upTo m.thread m.time f.ordered)).1.stack m.thread := by simp [hst]
      obtain ⟨r, hr, hqr, hτ⟩ := exists_running h.wellFormed hacc (hsorted m.thread) (hopen m hm) hq
      have ht : r.thread = m.thread := hqr.thread.trans (hmoment.wellFormed.of_mem_stack hq).1
      rw [hcall]
      refine ⟨iff_of_true rfl ⟨r, hr, ht, hτ⟩, fun id hid => ?_⟩
      refine ⟨r, hr, hqr.id.trans (Option.some.inj hid), ht, hτ, fun c hc hdesc => ?_⟩
      exact not_runsInto_of_descends h hacc hfew hst hqr hc (hsorted c.thread) hdesc

/-- Messages at the instant at which a call is left and another one is entered and left, at that of an
entry and before it, and one on a thread without calls. -/
theorem ingest_attributes_ties :
    let t : Thread := ⟨0, 0, 0⟩
    let u : Thread := ⟨0, 0, 1⟩
    let ops : List Operation := [.enter ⟨t, .entry, 7, 0⟩]
    let f : Frame := {
      step := 0
      calls := [⟨t, .entry, 1, 10⟩, ⟨t, .exit, 1, 20⟩, ⟨t, .entry, 2, 20⟩, ⟨t, .exit, 2, 20⟩]
      messages := [⟨t, .send, 0, 1, 8, 20⟩, ⟨u, .send, 0, 1, 8, 20⟩, ⟨t, .receive, 0, 1, 8, 10⟩,
        ⟨t, .receive, 0, 1, 8, 5⟩] }
    let s := (({} : CallStacks).performAll ops).1
    let live := (s.ingest {} f).1.openCalls ++ (s.happensAll f.ordered).closedCalls
    live.map (fun r => (r.id, r.messages.map (·.time))) = [(0, [5]), (1, [10, 20]), (2, [])] ∧
      ∃ host : Thread → UInt64 → Option UInt64, (host t 20).isSome ∧ ¬ (host u 20).isSome := by
  intro t u ops f s live
  have hf : f.Timed := fun v => by
    by_cases ht : t = v
    · subst ht
      decide
    · simp [f, ht]
  have hok : (s.ingest {} f).2.2.isOk := by cbv
  obtain ⟨-, -, -, host, -, hhost⟩ := ingest_attributes Keyed.empty ops hf {} (by decide) (by decide) hok
  have hlive : live = [
      { id := 0, name := "<unknown>", thread := t, function := 7, entry := 0, exit := none
        runtime := none, label := .normal, parent := none, children := [1, 2]
        messages := [⟨.receive, 1, 0, 0, 8, 5⟩] },
      { id := 1, name := "<unknown>", thread := t, function := 1, entry := 10, exit := some 20
        runtime := some 10, label := .normal, parent := some 0, children := []
        messages := [⟨.receive, 1, 0, 0, 8, 10⟩, ⟨.send, 0, 1, 0, 8, 20⟩] },
      { id := 2, name := "<unknown>", thread := t, function := 2, entry := 20, exit := some 20
        runtime := some 0, label := .normal, parent := some 0, children := [], messages := [] }] := by
    show (s.ingest {} f).1.openCalls ++ (s.happensAll f.ordered).closedCalls = _
    cbv
  change ∀ m ∈ f.messages, (_ ↔ ∃ c ∈ live, _) ∧ _ at hhost
  rw [hlive] at hhost ⊢
  refine ⟨by decide, host, (hhost ⟨t, .send, 0, 1, 8, 20⟩ (by simp [f])).1.2 (by decide), fun hu => ?_⟩
  have hnone := (hhost ⟨u, .send, 0, 1, 8, 20⟩ (by simp [f])).1.1 hu
  revert hnone
  decide

/-- A message that comes with a later frame than the exit of the call that ran at its instant is
dropped. -/
theorem not_attached_iff_running_of_closed_before :
    let t : Thread := ⟨0, 0, 0⟩
    let m : MessageEvent := ⟨t, .send, 0, 1, 8, 50⟩
    let ops : List Operation := [
      .ingest {} { step := 0, calls := [⟨t, .entry, 1, 0⟩, ⟨t, .exit, 1, 100⟩] }]
    let f : Frame := { step := 1, messages := [m] }
    let s := (({} : CallStacks).performAll ops).1
    let calls := (s.ingest {} f).1.openCalls ++ (s.ingest {} f).1.frameCalls
    f.Timed ∧ (∀ v, s.stack v = []) ∧ (s.ingest {} f).2.2.isOk ∧
      ¬ ((∃ r ∈ calls, .ofEvent m ∈ r.messages) ↔ ∃ c ∈ calls, c.thread = t ∧ c.RunsAt m.time) := by
  intro t m ops f s calls
  have hcalls : calls = [{
      id := 0, name := "<unknown>", thread := t, function := 1, entry := 0, exit := some 100
      runtime := some 100, label := .normal, parent := none, children := [], messages := [] }] := by
    show (s.ingest {} f).1.openCalls ++ (s.ingest {} f).1.frameCalls = _
    cbv
  refine ⟨fun v => by simp [f], (size_eq_zero_iff s).1 (by decide), by cbv, ?_⟩
  rw [hcalls]
  decide

end CallStacks

end TraceAnomaly
