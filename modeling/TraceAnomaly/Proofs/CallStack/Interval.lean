import TraceAnomaly.Proofs.CallStack.Attachment

/-! The times of calls. When the events of every thread come in order of time, no exit is earlier than
the entry of the call that it finds. Then a call that was made from another one lies in the time of that
call, the calls made from one call come one after the other, and together they take no longer than it. -/

namespace TraceAnomaly

namespace CallRecord

/-- A call that was made from `p` runs on its thread and in its time, as far as `p` is over. -/
structure Within (c p : CallRecord) : Prop where
  thread : c.thread = p.thread
  parent : c.parent = some p.id
  entry : p.entry ≤ c.entry
  exit : ∀ y, p.exit = some y → ∃ x, c.exit = some x ∧ x ≤ y

/-- `c` was left no later than `d` was entered. -/
def LeftBefore (c d : CallRecord) : Prop := ∃ x, c.exit = some x ∧ x ≤ d.entry

def duration (r : CallRecord) : ℕ := (r.runtime.getD 0).toNat

end CallRecord

/-- Records of calls whose entries and exits are over by `now`, a time for every thread. -/
structure Timeline (now : Thread → UInt64) (rs : List CallRecord) : Prop where
  entered : ∀ r ∈ rs, r.entry ≤ now r.thread
  left : ∀ r ∈ rs, ∀ x, r.exit = some x → x ≤ now r.thread
  within : ∀ p ∈ rs, ∀ c ∈ rs, c.id ∈ p.children → c.Within p
  /-- The calls made from one call come one after the other. -/
  apart : ∀ p ∈ rs, ∀ c ∈ rs, ∀ d ∈ rs, c.id ∈ p.children → d.id ∈ p.children → c.id < d.id →
    c.LeftBefore d
  ascending : ∀ p ∈ rs, p.children.Pairwise (· < ·)

namespace Timeline

variable {now now' : Thread → UInt64} {rs ms : List CallRecord} {c p n : CallRecord}

theorem nil (now : Thread → UInt64) : Timeline now [] := ⟨by simp, by simp, by simp, by simp, by simp⟩

theorem later (h : Timeline now rs) (hle : ∀ t, now t ≤ now' t) : Timeline now' rs where
  entered r hr := UInt64.le_trans (h.entered r hr) (hle _)
  left r hr x hx := UInt64.le_trans (h.left r hr x hx) (hle _)
  within := h.within
  apart := h.apart
  ascending := h.ascending

theorem subset (h : Timeline now rs) (hsub : ∀ r ∈ ms, r ∈ rs) : Timeline now ms where
  entered r hr := h.entered r (hsub r hr)
  left r hr := h.left r (hsub r hr)
  within p hp c hc := h.within p (hsub p hp) c (hsub c hc)
  apart p hp c hc d hd := h.apart p (hsub p hp) c (hsub c hc) d (hsub d hd)
  ascending p hp := h.ascending p (hsub p hp)

/-- A call that has just been entered. -/
theorem opened (h : Timeline now rs) (hnew : ∀ r ∈ rs, n.id ∉ r.children) (hentry : n.entry = now n.thread)
    (hexit : n.exit = none) (hchildren : n.children = []) : Timeline now (n :: rs) := by
  refine ⟨?_, ?_, ?_, ?_, ?_⟩
  · exact List.forall_mem_cons.2 ⟨UInt64.le_of_eq hentry, h.entered⟩
  · exact List.forall_mem_cons.2 ⟨by simp [hexit], h.left⟩
  · refine List.forall_mem_cons.2 ⟨by simp [hchildren], fun p hp => List.forall_mem_cons.2 ⟨?_, h.within p hp⟩⟩
    exact fun hn => absurd hn (hnew p hp)
  · refine List.forall_mem_cons.2 ⟨by simp [hchildren], fun p hp c hc d hd hcp hdp => ?_⟩
    rcases List.mem_cons.1 hc with rfl | hc
    · exact absurd hcp (hnew p hp)
    · rcases List.mem_cons.1 hd with rfl | hd
      · exact absurd hdp (hnew p hp)
      · exact h.apart p hp c hc d hd hcp hdp
  · exact List.forall_mem_cons.2 ⟨by simp [hchildren], h.ascending⟩

/-- A record is replaced by one of the same call that its caller and its siblings cannot tell from it. -/
theorem replace {c' : CallRecord} (h : Timeline now (c :: rs)) (hid : c'.id = c.id)
    (hthread : c'.thread = c.thread) (hentry : c'.entry = c.entry)
    (hexit : ∀ x, c'.exit = some x → x ≤ now c'.thread) (hcaller : ∀ p, c.Within p → c'.Within p)
    (hbefore : ∀ d, c.LeftBefore d → c'.LeftBefore d)
    (hwithin : ∀ d ∈ c :: rs, d.id ∈ c'.children → d.Within c')
    (hapart : ∀ d ∈ c :: rs, ∀ e ∈ c :: rs, d.id ∈ c'.children → e.id ∈ c'.children → d.id < e.id →
      d.LeftBefore e)
    (hascending : c'.children.Pairwise (· < ·)) : Timeline now (c' :: rs) := by
  have hold : ∀ d ∈ c' :: rs, ∃ d₀ ∈ c :: rs, d₀.id = d.id ∧ d₀.entry = d.entry ∧
      (∀ p, d₀.Within p → d.Within p) ∧ ∀ e, d₀.LeftBefore e → d.LeftBefore e := by
    refine List.forall_mem_cons.2 ⟨⟨c, by simp, hid.symm, hentry.symm, hcaller, hbefore⟩, fun d hd => ?_⟩
    exact ⟨d, List.mem_cons_of_mem _ hd, rfl, rfl, fun _ => id, fun _ => id⟩
  obtain ⟨-, hentered⟩ := List.forall_mem_cons.1 h.entered
  obtain ⟨-, hleft⟩ := List.forall_mem_cons.1 h.left
  obtain ⟨-, hasc⟩ := List.forall_mem_cons.1 h.ascending
  refine ⟨?_, List.forall_mem_cons.2 ⟨hexit, hleft⟩, fun p hp d hd hdp => ?_,
    fun p hp d hd e he hdp hep hlt => ?_, List.forall_mem_cons.2 ⟨hascending, hasc⟩⟩
  · refine List.forall_mem_cons.2 ⟨?_, hentered⟩
    rw [hentry, hthread]
    exact h.entered c List.mem_cons_self
  · obtain ⟨d₀, hd₀, hdid, -, hdwithin, -⟩ := hold d hd
    rw [← hdid] at hdp
    rcases List.mem_cons.1 hp with rfl | hp
    · exact hdwithin _ (hwithin d₀ hd₀ hdp)
    · exact hdwithin p (h.within p (List.mem_cons_of_mem _ hp) d₀ hd₀ hdp)
  · obtain ⟨d₀, hd₀, hdid, -, -, hdbefore⟩ := hold d hd
    obtain ⟨e₀, he₀, heid, heentry, -, -⟩ := hold e he
    rw [← hdid] at hdp hlt
    rw [← heid] at hep hlt
    have hbetween : d₀.LeftBefore e₀ := by
      rcases List.mem_cons.1 hp with rfl | hp
      · exact hapart d₀ hd₀ e₀ he₀ hdp hep hlt
      · exact h.apart p (List.mem_cons_of_mem _ hp) d₀ hd₀ e₀ he₀ hdp hep hlt
    obtain ⟨x, hx, hle⟩ := hdbefore e₀ hbetween
    exact ⟨x, hx, heentry ▸ hle⟩

/-- A call notes a new one that was made from it when all earlier ones had been left. -/
theorem adopted (h : Timeline now (p :: rs)) (hn : n.Within p) (hunique : ∀ r ∈ p :: rs, r.id = n.id → r = n)
    (hearlier : ∀ r ∈ p :: rs, r.id ∈ p.children → r.LeftBefore n)
    (hlast : ∀ id ∈ p.children, id < n.id) : Timeline now (p.addChild n.id :: rs) := by
  have hchild : ∀ r ∈ p :: rs, r.id ∈ (p.addChild n.id).children → r.id ∈ p.children ∨ r = n := by
    intro r hr hrp
    rcases List.mem_append.1 hrp with hrp | hrp
    · exact .inl hrp
    · exact .inr (hunique r hr (List.mem_singleton.1 hrp))
  refine h.replace rfl rfl rfl (h.left p List.mem_cons_self) (fun q hq => ⟨hq.thread, hq.parent, hq.entry, hq.exit⟩)
    (fun d hd => hd) (fun d hd hdp => ?_) (fun d hd e he hdp hep hlt => ?_) ?_
  · rcases hchild d hd hdp with hdp | rfl
    · have hold := h.within p List.mem_cons_self d hd hdp
      exact ⟨hold.thread, hold.parent, hold.entry, hold.exit⟩
    · exact ⟨hn.thread, hn.parent, hn.entry, hn.exit⟩
  · rcases hchild d hd hdp with hold | rfl
    · rcases hchild e he hep with hold' | rfl
      · exact h.apart p List.mem_cons_self d hd e he hold hold' hlt
      · exact hearlier d hd hold
    · rcases hchild e he hep with hold' | rfl
      · exact absurd (UInt64.lt_trans hlt (hlast e.id hold')) (UInt64.lt_irrefl _)
      · exact absurd hlt (UInt64.lt_irrefl _)
  · have hascending := h.ascending p List.mem_cons_self
    simpa [CallRecord.addChild, List.pairwise_append] using ⟨hascending, hlast⟩

/-- An open call is left when all calls made from it have been left. -/
theorem closed (h : Timeline now (c :: rs)) (hopen : c.exit = none)
    (hleft : ∀ d ∈ c :: rs, d.id ∈ c.children → ∃ x, d.exit = some x) :
    Timeline now (c.close (now c.thread) :: rs) := by
  refine h.replace rfl rfl rfl (fun x hx => ?_) (fun p hp => ⟨hp.thread, hp.parent, hp.entry, fun y hy => ?_⟩)
    (fun d hd => ?_) (fun d hd hdc => ?_) (h.apart c List.mem_cons_self) (h.ascending c List.mem_cons_self)
  · exact UInt64.le_of_eq (Option.some.inj hx).symm
  -- no caller of an open call has been left, and nothing has been entered after it
  · obtain ⟨x, hx, -⟩ := hp.exit y hy
    rw [hopen] at hx
    cases hx
  · obtain ⟨x, hx, -⟩ := hd
    rw [hopen] at hx
    cases hx
  · have hold := h.within c List.mem_cons_self d hd hdc
    obtain ⟨x, hx⟩ := hleft d hd hdc
    refine ⟨hold.thread, hold.parent, hold.entry, fun y hy => ⟨x, hx, ?_⟩⟩
    obtain rfl := Option.some.inj hy
    exact hold.thread ▸ h.left d hd x hx

end Timeline

namespace CallStacks

variable {names : FunctionTable} {H : History} {s : CallStacks} {now : Thread → UInt64}

/-! ### Entries and exits -/

section Step

variable (h : Reached names H s) (hn : H.openedIds.length < UInt64.size) (ht : Timeline now s.records)
include h hn ht

/-- A call that was made from an innermost open call has been left. -/
theorem left_of_made {t : Thread} {c d : CallRecord} {outer : List CallRecord}
    (hst : s.stack t = c :: outer) (hd : d ∈ s.records) (hdc : d.id ∈ c.children) : ∃ x, d.exit = some x := by
  have hc : c ∈ s.stack t := by simp [hst]
  have hrecord : c ∈ s.records := (mem_records_iff s).2 (.inl ⟨t, hc⟩)
  have hwithin := ht.within c hrecord d hd hdc
  rcases (mem_records_iff s).1 hd with ⟨u, hu⟩ | ⟨f, hf⟩
  · -- an open call would stand above its caller
    have hthread : u = t := (h.wellFormed.of_mem_stack hu).1.symm.trans
      (hwithin.thread.trans (h.wellFormed.of_mem_stack hc).1)
    subst hthread
    have hnested : Nested u (c :: outer) := hst ▸ h.wellFormed.nested u
    have hbelow := hnested.parent_mem (hst ▸ hu) hwithin.parent
    have hnodup := h.nodup_stack hn u
    rw [hst, List.map_cons, List.nodup_cons] at hnodup
    exact absurd hbelow hnodup.1
  · obtain ⟨-, x, hx, -⟩ := h.wellFormed.finished f d hf
    exact ⟨x, hx⟩

omit ht in
theorem lt_nextId_of_mem {r : CallRecord} (hr : r ∈ s.records) : ∀ id ∈ r.ids, id < s.nextId := by
  intro id hid
  refine h.ledger.lt_nextId hn id ?_
  rcases (mem_records_iff s).1 hr with ⟨t, ht⟩ | ⟨f, hf⟩
  · exact h.numbered.stack t r ht hid
  · exact h.numbered.closed f r hf hid

omit hn in
/-- An innermost open call was entered in time. -/
theorem entry_le_of_top {e : CallEvent} {c : CallRecord} {outer : List CallRecord}
    (hclock : now e.thread = e.time) (hst : s.stack e.thread = c :: outer) :
    c ∈ s.records ∧ c.thread = e.thread ∧ c.exit = none ∧ c.entry ≤ e.time := by
  have hc : c ∈ s.stack e.thread := by simp [hst]
  have hrecord : c ∈ s.records := (mem_records_iff s).2 (.inl ⟨e.thread, hc⟩)
  obtain ⟨hthread, hexit⟩ := h.wellFormed.of_mem_stack hc
  exact ⟨hrecord, hthread, hexit, hclock ▸ hthread ▸ ht.entered c hrecord⟩

theorem timeline_enter {e : CallEvent} (hclock : now e.thread = e.time) :
    Timeline now (s.enter e).1.records := by
  have hfresh : ∀ r ∈ s.records, ∀ id ∈ r.ids, id < s.nextId := fun r hr => lt_nextId_of_mem h hn hr
  have hunnamed : ∀ r ∈ s.records, s.nextId ∉ r.children := fun r hr hid =>
    UInt64.lt_irrefl _ (hfresh r hr s.nextId (by simp [CallRecord.ids, hid]))
  obtain ⟨rest, hrec, hset⟩ := records_setStack s e.thread
  set call := CallRecord.opened s.nextId (s.functions.name e.function) e
    ((s.stack e.thread).head?.map (·.id)) with hcall
  have hrecords : (s.enter e).1.records.Perm (call :: (adopt s.nextId (s.stack e.thread) ++ rest)) :=
    hset (call :: adopt s.nextId (s.stack e.thread))
  have hopened : Timeline now (call :: s.records) := ht.opened hunnamed hclock.symm rfl rfl
  cases hst : s.stack e.thread with
  | nil =>
    rw [hst] at hrec hrecords
    refine hopened.subset fun r hr => ?_
    exact (hrec.cons call).mem_iff.2 (hrecords.mem_iff.1 hr)
  | cons p outer =>
    rw [hst] at hrec hrecords
    obtain ⟨hp, hthread, hexit, hentry⟩ := entry_le_of_top h ht hclock hst
    have hmoved : Timeline now (p :: call :: (outer ++ rest)) := hopened.subset fun r hr =>
      ((hrec.cons call).trans (.swap p call _)).mem_iff.2 hr
    have hold : ∀ r ∈ p :: call :: (outer ++ rest), r = call ∨ r ∈ s.records := fun r hr => by
      rcases List.mem_cons.1 (((hrec.cons call).trans (.swap p call _)).mem_iff.2 hr) with hr | hr
      · exact .inl hr
      · exact .inr hr
    have hwithin : call.Within p := by
      refine ⟨hthread.symm, by simp [hcall, hst, CallRecord.opened], hentry, fun y hy => ?_⟩
      rw [hexit] at hy
      cases hy
    have hadopted : Timeline now (p.addChild call.id :: call :: (outer ++ rest)) := by
      refine hmoved.adopted hwithin (fun r hr hid => ?_) (fun r hr hrp => ?_) fun id hid => ?_
      · rcases hold r hr with rfl | hr
        · rfl
        · exact absurd (hid ▸ hfresh r hr r.id (by simp [CallRecord.ids])) (UInt64.lt_irrefl _)
      · rcases hold r hr with rfl | hr
        · exact absurd hrp (hunnamed p hp)
        · obtain ⟨x, hx⟩ := left_of_made h hn ht hst hr hrp
          have hsame := (ht.within p hp r hr hrp).thread.trans hthread
          refine ⟨x, hx, UInt64.le_trans (ht.left r hr x hx) (UInt64.le_of_eq ?_)⟩
          rw [hsame]
          exact hclock
      · exact hfresh p hp id (by simp [CallRecord.ids, hid])
    refine hadopted.subset fun r hr => ?_
    exact (List.Perm.swap call (p.addChild call.id) _).mem_iff.2 (hrecords.mem_iff.1 hr)

theorem timeline_leave {e : CallEvent} (hclock : now e.thread = e.time) :
    Timeline now (s.leave e).1.records ∧
      ∀ t f entry exit, (s.leave e).2 ≠ .error (.timeReversal t f entry exit) := by
  rcases leave_cases s e with ⟨-, hs⟩ | ⟨c, outer, hst, hs⟩
  · rw [hs]
    exact ⟨ht, by simp⟩
  · obtain ⟨-, hthread, hexit, hentry⟩ := entry_le_of_top h ht hclock hst
    obtain ⟨rest, hrec, hset⟩ := records_setStack s e.thread
    rw [hst] at hrec
    have htop : Timeline now (c :: (outer ++ rest)) := ht.subset fun r hr => hrec.mem_iff.2 hr
    rcases hs with ⟨-, hs⟩ | ⟨-, hlt, -⟩ | ⟨-, -, hs⟩
    · rw [hs]
      exact ⟨htop.subset fun r hr => List.mem_cons_of_mem _ ((hset outer).mem_iff.1 hr), by simp⟩
    · exact absurd hentry (UInt64.not_le.2 hlt)
    · rw [hs]
      refine ⟨?_, by simp⟩
      have hclosed := htop.closed hexit fun d hd hdc =>
        left_of_made h hn ht hst (hrec.mem_iff.2 hd) hdc
      rw [hthread, hclock] at hclosed
      refine hclosed.subset fun r hr => ?_
      exact ((records_settle _ _ _).trans ((hset outer).cons _)).mem_iff.1 hr

theorem timeline_call {e : CallEvent} (hclock : now e.thread = e.time) :
    Timeline now (s.call e).1.records ∧
      ∀ t f entry exit, (s.call e).2 ≠ .error (.timeReversal t f entry exit) := by
  unfold call
  cases e.kind with
  | entry => exact ⟨timeline_enter h hn ht hclock, by simp⟩
  | exit =>
    obtain ⟨htimeline, hreply⟩ := timeline_leave h hn ht hclock
    refine ⟨htimeline, fun t f entry exit hreversal => ?_⟩
    cases hleave : (s.leave e).2 with
    | ok id => simp [hleave, Except.map] at hreversal
    | error v =>
      obtain rfl : v = .timeReversal t f entry exit := by simpa [hleave, Except.map] using hreversal
      exact hreply t f entry exit hleave

end Step

/-! ### Many events -/

def InOrder (es : List CallEvent) : Prop :=
  ∀ t, (es.filter (·.thread = t)).Pairwise fun a b => a.time ≤ b.time

theorem inOrder_iff {es : List CallEvent} : InOrder es ↔
    ∀ e ∈ es, (es.filter (·.thread = e.thread)).Pairwise fun a b => a.time ≤ b.time := by
  refine ⟨fun h e _ => h e.thread, fun h t => ?_⟩
  by_cases ht : ∃ e ∈ es, e.thread = t
  · obtain ⟨e, he, rfl⟩ := ht
    exact h e he
  · have hnone : es.filter (·.thread = t) = [] :=
      List.filter_eq_nil_iff.2 fun e he het => ht ⟨e, he, of_decide_eq_true het⟩
    rw [hnone]
    exact .nil

instance (es : List CallEvent) : Decidable (InOrder es) := decidable_of_iff _ inOrder_iff.symm

theorem InOrder.cons {e : CallEvent} {es : List CallEvent} (h : InOrder (e :: es)) :
    InOrder es ∧ ∀ d ∈ es, d.thread = e.thread → e.time ≤ d.time := by
  refine ⟨fun t => (h t).sublist ((List.sublist_cons_self e es).filter _), fun d hd hthread => ?_⟩
  have hfirst := h e.thread
  rw [List.filter_cons_of_pos (by simp), List.pairwise_cons] at hfirst
  exact hfirst.1 d (List.mem_filter.2 ⟨hd, by simpa using hthread⟩)

/-- As events come in order of time, no exit is earlier than the entry of the call that it finds. -/
theorem timeline_performAll {es : List CallEvent} (hes : InOrder es) (h : Reached names H s)
    (ht : Timeline now s.records) (hnow : ∀ e ∈ es, now e.thread ≤ e.time)
    (hn : H.openedIds.length + es.countP (·.kind = .entry) < UInt64.size) :
    (∃ K later, Reached names K (s.performAll (es.map .call)).1 ∧ K.openedIds.length < UInt64.size ∧
      Timeline later (s.performAll (es.map .call)).1.records) ∧
    ∀ reply ∈ (s.performAll (es.map .call)).2, ∀ t f entry exit,
      reply ≠ .called (.error (.timeReversal t f entry exit)) := by
  induction es generalizing H s now with
  | nil => exact ⟨⟨H, now, h, by simpa using hn, ht⟩, fun reply hreply => by cases hreply⟩
  | cons e es ih =>
    obtain ⟨hrest, hafter⟩ := hes.cons
    obtain ⟨hfirst, hnow⟩ := List.forall_mem_cons.1 hnow
    -- the time of the thread is that of the event from now on
    have hmono : ∀ t, now t ≤ Function.update now e.thread e.time t := fun t => by
      by_cases hte : t = e.thread
      · subst hte
        rwa [Function.update_self]
      · rw [Function.update_of_ne hte]
        exact UInt64.le_refl _
    have hlater : ∀ d ∈ es, Function.update now e.thread e.time d.thread ≤ d.time := fun d hd => by
      by_cases hte : d.thread = e.thread
      · rw [hte, Function.update_self]
        exact hafter d hd hte
      · rw [Function.update_of_ne hte]
        exact hnow d hd
    rw [List.countP_cons] at hn
    obtain ⟨htimeline, hreply⟩ := timeline_call h (by omega) (ht.later hmono) (Function.update_self ..)
    have hfew : (H ++ s.happens (.call e)).openedIds.length + es.countP (·.kind = .entry) < UInt64.size := by
      rw [History.openedIds_append, List.length_append, length_openedIds_happens, Event.entries]
      simp only [decide_eq_true_eq] at hn
      omega
    obtain ⟨hstate, hreplies⟩ := ih hrest (h.apply (.call e)) htimeline hlater hfew
    rw [List.map_cons, performAll_cons]
    refine ⟨hstate, List.forall_mem_cons.2 ⟨fun t f entry exit hreversal => ?_, hreplies⟩⟩
    exact hreply t f entry exit (Reply.called.inj hreversal)

/-! ### Closed calls -/

/-- The closed ones among the calls that were made from a call, in opening order. -/
def closedChildren (s : CallStacks) (r : CallRecord) : List CallRecord :=
  r.children.filterMap fun id => s.frameCalls.find? (·.id = id)

theorem mem_closedChildren_iff (hnodup : (s.frameCalls.map (·.id)).Nodup) {r c : CallRecord} :
    c ∈ s.closedChildren r ↔ c ∈ s.frameCalls ∧ c.id ∈ r.children := by
  rw [closedChildren, List.mem_filterMap]
  constructor
  · rintro ⟨id, hid, hfind⟩
    obtain rfl : c.id = id := by simpa using List.find?_some hfind
    exact ⟨List.mem_of_find?_eq_some hfind, hid⟩
  · rintro ⟨hc, hid⟩
    refine ⟨c.id, hid, ?_⟩
    cases hfind : s.frameCalls.find? (·.id = c.id) with
    | none => exact absurd (decide_eq_true rfl) (List.find?_eq_none.1 hfind c hc)
    | some d =>
      have hsame : d.id = c.id := by simpa using List.find?_some hfind
      rw [List.inj_on_of_nodup_map hnodup (List.mem_of_find?_eq_some hfind) hc hsame]

end CallStacks

/-- Calls one after the other between two times take no longer than the time between. -/
theorem CallRecord.sum_duration_le {cs : List CallRecord} {lo hi : UInt64} (hle : lo ≤ hi)
    (hcs : ∀ c ∈ cs, c.Finished c.function ∧ lo ≤ c.entry ∧ ∀ x, c.exit = some x → x ≤ hi)
    (hapart : cs.Pairwise LeftBefore) : (cs.map duration).sum ≤ (hi - lo).toNat := by
  induction cs generalizing lo with
  | nil => exact Nat.zero_le _
  | cons c cs ih =>
    obtain ⟨⟨⟨-, x, hx, hentry, hruntime⟩, hlo, hhi⟩, hcs⟩ := List.forall_mem_cons.1 hcs
    obtain ⟨hfirst, hapart⟩ := List.pairwise_cons.1 hapart
    have hxhi := hhi x hx
    have hrest := ih hxhi (fun d hd => ?_) hapart
    · have hduration : c.duration = (x - c.entry).toNat := by simp [duration, hruntime]
      rw [List.map_cons, List.sum_cons, hduration]
      rw [UInt64.toNat_sub_of_le _ _ hxhi] at hrest
      rw [UInt64.toNat_sub_of_le _ _ hentry, UInt64.toNat_sub_of_le _ _ hle]
      rw [UInt64.le_iff_toNat_le] at hlo hentry hxhi
      omega
    · obtain ⟨hfinished, -, hexit⟩ := hcs d hd
      obtain ⟨y, hy, hle⟩ := hfirst d hd
      obtain rfl : x = y := Option.some.inj (hx.symm.trans hy)
      exact ⟨hfinished, hle, hexit⟩

namespace CallStacks

/-- When the events of every thread come in order of time, no exit is reported as earlier than the entry,
whatever else fails. A closed call lies in the time of the call that it was made from, if that one is
closed too; the calls made from one call are over one after the other, in the order in which they were
made; and together they take no longer than it. -/
theorem closed_intervals_nest (names : FunctionTable) {es : List CallEvent} (hes : InOrder es)
    (hfew : es.countP (·.kind = .entry) < UInt64.size) :
    let run := ({ functions := names } : CallStacks).performAll (es.map .call)
    let s := run.1
    (∀ reply ∈ run.2, ∀ t f entry exit, reply ≠ .called (.error (.timeReversal t f entry exit))) ∧
      ∀ r ∈ s.frameCalls,
        (∀ c, c ∈ s.closedChildren r ↔ c ∈ s.frameCalls ∧ c.id ∈ r.children) ∧
        (∀ c ∈ s.closedChildren r, ∃ x y, c.exit = some x ∧ r.exit = some y ∧
          r.entry ≤ c.entry ∧ c.entry ≤ x ∧ x ≤ y) ∧
        (s.closedChildren r).Pairwise CallRecord.LeftBefore ∧
        ((s.closedChildren r).map CallRecord.duration).sum ≤ r.duration := by
  intro run s
  have hstart : Reached names [] { functions := names } := ⟨.initial names, .initial names, .start names⟩
  obtain ⟨⟨K, now, hreached, hn, htime⟩, hreplies⟩ := timeline_performAll hes hstart
    (Timeline.nil fun _ => 0) (fun _ _ => UInt64.zero_le) (by simpa [History.openedIds] using hfew)
  have hrecord : ∀ r ∈ s.frameCalls, r ∈ s.records := fun r hr => List.mem_append_right _ hr
  have hfinished : ∀ r ∈ s.frameCalls, r.Finished r.function := fun r hr => by
    obtain ⟨f, hf⟩ := (mem_closed_iff s).1 hr
    have hfun := hreached.wellFormed.finished f r hf
    exact ⟨rfl, hfun.2⟩
  have hnodup : (s.frameCalls.map (·.id)).Nodup := by
    have hall := hreached.nodup_records hn
    rw [List.map_append] at hall
    exact (List.nodup_append.1 hall).2.1
  refine ⟨hreplies, fun r hr => ?_⟩
  obtain ⟨-, y, hy, hry, hruntime⟩ := hfinished r hr
  have hmade : ∀ c ∈ s.closedChildren r, c ∈ s.frameCalls ∧ c.id ∈ r.children :=
    fun c hc => (mem_closedChildren_iff hnodup).1 hc
  have hwithin : ∀ c ∈ s.closedChildren r, c.Within r := fun c hc =>
    htime.within r (hrecord r hr) c (hrecord c (hmade c hc).1) (hmade c hc).2
  have hover : ∀ c ∈ s.closedChildren r, ∀ x, c.exit = some x → x ≤ y := fun c hc x hx => by
    obtain ⟨z, hz, hzy⟩ := (hwithin c hc).exit y hy
    obtain rfl : x = z := Option.some.inj (hx.symm.trans hz)
    exact hzy
  have hapart : (s.closedChildren r).Pairwise CallRecord.LeftBefore := by
    refine List.pairwise_filterMap.2 ((htime.ascending r (hrecord r hr)).imp_of_mem ?_)
    intro i j hi hj hij c hc d hd
    obtain rfl : c.id = i := by simpa using List.find?_some hc
    obtain rfl : d.id = j := by simpa using List.find?_some hd
    exact htime.apart r (hrecord r hr) c (hrecord c (List.mem_of_find?_eq_some hc)) d
      (hrecord d (List.mem_of_find?_eq_some hd)) hi hj hij
  refine ⟨fun c => mem_closedChildren_iff hnodup, fun c hc => ?_, hapart, ?_⟩
  · obtain ⟨-, x, hx, hcx, -⟩ := hfinished c (hmade c hc).1
    exact ⟨x, y, hx, hy, (hwithin c hc).entry, hcx, hover c hc x hx⟩
  · have hduration : r.duration = (y - r.entry).toNat := by simp [CallRecord.duration, hruntime]
    rw [hduration]
    exact CallRecord.sum_duration_le hry
      (fun c hc => ⟨hfinished c (hmade c hc).1, (hwithin c hc).entry, hover c hc⟩) hapart

/-- Two threads with clocks of their own, and a call that is discarded by an exit of its caller. -/
theorem closed_intervals_nest_discarded :
    let t : Thread := ⟨0, 0, 0⟩
    let u : Thread := ⟨0, 0, 1⟩
    let es : List CallEvent := [⟨t, .entry, 1, 10⟩, ⟨u, .entry, 5, 3⟩, ⟨t, .entry, 2, 20⟩,
      ⟨t, .exit, 2, 30⟩, ⟨t, .entry, 3, 30⟩, ⟨t, .entry, 4, 35⟩, ⟨t, .exit, 3, 40⟩, ⟨u, .exit, 5, 4⟩,
      ⟨t, .exit, 3, 50⟩, ⟨t, .exit, 1, 60⟩]
    let s := (({} : CallStacks).performAll (es.map .call)).1
    InOrder es ∧ es.countP (·.kind = .entry) < UInt64.size ∧
      ∃ r ∈ s.frameCalls, r.function = 1 ∧ (s.closedChildren r).map (·.id) = [2, 3] ∧
        ((s.closedChildren r).map CallRecord.duration).sum = 30 ∧ 30 ≤ r.duration ∧ r.duration = 50 := by
  intro t u es s
  have hes : InOrder es := by decide
  have hfew : es.countP (·.kind = .entry) < UInt64.size := by decide
  obtain ⟨-, hnest⟩ := closed_intervals_nest Keyed.empty hes hfew
  have hmem : ∃ r ∈ s.frameCalls, r.function = 1 ∧ (s.closedChildren r).map (·.id) = [2, 3] ∧
      ((s.closedChildren r).map CallRecord.duration).sum = 30 ∧ r.duration = 50 := by decide
  obtain ⟨r, hr, hf, hids, hsum, hduration⟩ := hmem
  obtain ⟨-, -, -, hle⟩ := hnest r hr
  exact ⟨hes, hfew, r, hr, hf, hids, hsum, hsum ▸ hle, hduration⟩

end CallStacks

end TraceAnomaly
