import Mathlib.Data.List.Nodup
import TraceAnomaly.Proofs.CallStack.Conservation

/-! Calls and the calls made from them. A call names its caller, and the caller lists it; the caller may
be open still, or may have been given away with an earlier frame than the call. As long as every exit
fits, all records taken together, those on the stacks, those of the current frame and those released,
are one forest: both directions of the relation agree, and no link leads out of it. -/

namespace TraceAnomaly

/-- The place of a call among the others. -/
structure Links where
  id : UInt64
  thread : Thread
  parent : Option UInt64
  children : List UInt64

def CallRecord.links (r : CallRecord) : Links := ⟨r.id, r.thread, r.parent, r.children⟩

@[simp] theorem CallRecord.links_close (r : CallRecord) (exit : UInt64) :
    (r.close exit).links = r.links := rfl

/-- A call and a possible caller agree on whether one was made from the other, and if it was, then on the
thread of the caller and after it. -/
structure Agree (c p : Links) : Prop where
  linked : c.parent = some p.id ↔ c.id ∈ p.children
  descends : c.id ∈ p.children → c.thread = p.thread ∧ p.id < c.id

namespace Agree

variable {c p : Links}

theorem unrelated (hp : c.parent ≠ some p.id) (hc : c.id ∉ p.children) : Agree c p :=
  ⟨iff_of_false hp hc, fun h => absurd h hc⟩

/-- The calls made from a call do not matter to its caller. -/
theorem withChildren (h : Agree c p) (children : List UInt64) :
    Agree { c with children := children } p :=
  ⟨h.linked, h.descends⟩

/-- A caller agrees with other calls also after a new one. -/
theorem addChild (h : Agree c p) {n : UInt64} (hn : c.id ≠ n) :
    Agree c { p with children := p.children ++ [n] } where
  linked := by simpa [hn] using h.linked
  descends := by simpa [hn] using h.descends

end Agree

/-- Callers and the calls made from them agree. -/
structure Forest (ls : List Links) : Prop where
  distinct : (ls.map (·.id)).Nodup
  agree : ∀ c ∈ ls, ∀ p ∈ ls, Agree c p
  /-- Every number that is named is the number of a call. -/
  known : ∀ r ∈ ls, ∀ id, r.parent = some id ∨ id ∈ r.children → ∃ q ∈ ls, q.id = id
  ascending : ∀ p ∈ ls, p.children.Pairwise (· < ·)

namespace Forest

variable {ls ms : List Links}

theorem perm (h : Forest ls) (hp : ls.Perm ms) : Forest ms where
  distinct := (hp.map _).nodup_iff.1 h.distinct
  agree c hc p hp' := h.agree c (hp.mem_iff.2 hc) p (hp.mem_iff.2 hp')
  known r hr id hid := by
    obtain ⟨q, hq, hid⟩ := h.known r (hp.mem_iff.2 hr) id hid
    exact ⟨q, hp.mem_iff.1 hq, hid⟩
  ascending p hp' := h.ascending p (hp.mem_iff.2 hp')

/-- A number above all others is not named. -/
theorem not_named (h : Forest ls) {n : UInt64} (hn : ∀ r ∈ ls, r.id < n) :
    ∀ r ∈ ls, r.parent ≠ some n ∧ n ∉ r.children := by
  intro r hr
  have hnone : ¬ ∃ q ∈ ls, q.id = n := fun ⟨q, hq, hid⟩ => UInt64.lt_irrefl n (hid ▸ hn q hq)
  exact ⟨fun hp => hnone (h.known r hr n (.inl hp)), fun hc => hnone (h.known r hr n (.inr hc))⟩

/-- A call without a caller. -/
theorem root (h : Forest ls) {n : UInt64} (hn : ∀ r ∈ ls, r.id < n) (t : Thread) :
    Forest (⟨n, t, none, []⟩ :: ls) := by
  have hfresh : ∀ r ∈ ls, r.id ≠ n := fun r hr => UInt64.ne_of_lt (hn r hr)
  have hunnamed := h.not_named hn
  refine ⟨?_, ?_, ?_, ?_⟩
  · simpa using ⟨hfresh, h.distinct⟩
  · simp only [List.forall_mem_cons]
    refine ⟨⟨?_, fun q hq => ?_⟩, fun c hc => ⟨?_, fun q hq => ?_⟩⟩
    · exact .unrelated (by simp) (by simp)
    · exact .unrelated (by simp) (hunnamed q hq).2
    · exact .unrelated (hunnamed c hc).1 (by simp)
    · exact h.agree c hc q hq
  · have hknown := h.known
    grind
  · simpa using h.ascending

/-- A new call with its caller. -/
theorem child {p : Links} (h : Forest (p :: ls)) {n : UInt64} (hn : ∀ r ∈ p :: ls, r.id < n)
    {t : Thread} (ht : p.thread = t) :
    Forest (⟨n, t, some p.id, []⟩ :: { p with children := p.children ++ [n] } :: ls) := by
  have hfresh : ∀ r ∈ p :: ls, r.id ≠ n := fun r hr => UInt64.ne_of_lt (hn r hr)
  obtain ⟨hfreshp, hfresh⟩ := List.forall_mem_cons.1 hfresh
  obtain ⟨hunnamedp, hunnamed⟩ := List.forall_mem_cons.1 (h.not_named hn)
  obtain ⟨hagreep, hagree⟩ := List.forall_mem_cons.1 h.agree
  obtain ⟨hascp, hasc⟩ := List.forall_mem_cons.1 h.ascending
  obtain ⟨hother, hdistinct⟩ := List.nodup_cons.1 h.distinct
  have hother : ∀ q ∈ ls, p.id ≠ q.id := fun q hq hid => hother (List.mem_map.2 ⟨q, hq, hid.symm⟩)
  refine ⟨?_, ?_, ?_, ?_⟩
  · simpa using ⟨⟨Ne.symm hfreshp, hfresh⟩, fun q hq => (hother q hq).symm, hdistinct⟩
  · simp only [List.forall_mem_cons]
    refine ⟨⟨?_, ?_, fun q hq => ?_⟩, ⟨?_, ?_, fun q hq => ?_⟩, fun c hc => ⟨?_, ?_, fun q hq => ?_⟩⟩
    -- the new call has no calls, and no caller but this one
    · exact .unrelated (by simpa using hfreshp) (by simp)
    · exact ⟨by simp, fun _ => ⟨ht.symm, hn p (by simp)⟩⟩
    · exact .unrelated (by simpa using hother q hq) (hunnamed q hq).2
    -- among the others only the list of this caller has changed
    · exact .unrelated hunnamedp.1 (by simp)
    · exact ((hagreep p (by simp)).addChild hfreshp).withChildren _
    · exact (hagreep q (by simp [hq])).withChildren _
    · exact .unrelated (hunnamed c hc).1 (by simp)
    · exact (hagree c hc p (by simp)).addChild (hfresh c hc)
    · exact hagree c hc q (by simp [hq])
  · have hknown := h.known
    simp only [List.forall_mem_cons, List.exists_mem_cons_iff] at hknown ⊢
    grind
  · have hlt : ∀ id ∈ p.children, id < n := fun id hid => by
      obtain ⟨q, hq, rfl⟩ := h.known p (by simp) id (.inr hid)
      exact hn q hq
    simpa [List.pairwise_append] using ⟨⟨hascp, hlt⟩, hasc⟩

end Forest

def Reply.violation? : Reply → Option Violation
  | .left (.error v) => some v
  | .called (.error v) => some v
  | .ingested _ (.error e) => some e.violation
  | _ => none

namespace CallStacks

/-! ### Runs without violations -/

section Violations

variable (s : CallStacks)

theorem discardedIds_departure {e : CallEvent} {id : UInt64} (h : (s.leave e).2 = .ok id) :
    History.discardedIds [s.departure e] = [] := by
  rw [departure, h]
  cases s.stack e.thread <;> rfl

theorem discardedIds_happens {e : Event} {c : EventClass} (h : (s.apply e).2 = .ok c) :
    (s.happens e).discardedIds = [] := by
  cases e with
  | message e => rfl
  | call e =>
    cases hk : e.kind with
    | entry => simp [happens, hk]
    | exit =>
      cases hleave : (s.leave e).2 with
      | ok id => simpa [happens, hk] using discardedIds_departure s hleave
      | error v => simp [apply, call, hk, hleave, Except.map] at h

theorem discardedIds_happensAll (n : EventCounts) (i : ℕ) (es : List Event)
    (h : (s.applyAll n i es).2.2 = .ok ()) : (s.happensAll es).discardedIds = [] := by
  induction es generalizing s n i with
  | nil => rfl
  | cons e rest ih =>
    simp only [applyAll, happensAll] at h ⊢
    cases hr : s.apply e with
    | mk s' outcome =>
      rw [hr] at h
      cases outcome with
      | error v => cases h
      | ok c =>
        have he := discardedIds_happens s (congrArg Prod.snd hr)
        simpa [he] using ih s' _ _ h

theorem discardedIds_happenings (op : Operation) (h : (s.perform op).2.violation? = none) :
    (s.happenings op).discardedIds = [] := by
  cases op with
  | enter | attach | beginFrame | setLabels | releaseFrame | updateFunctions => rfl
  | leave e =>
    cases hleave : (s.leave e).2 with
    | ok id => exact discardedIds_departure s hleave
    | error v => simp [perform, hleave, Reply.violation?] at h
  | call e =>
    cases hcall : (s.call e).2 with
    | ok u =>
      have happly : (s.apply (.call e)).2 = .ok (if e.kind = .entry then .entry else .exit) :=
        congrArg (Except.map _) hcall
      exact discardedIds_happens s happly
    | error v => simp [perform, hcall, Reply.violation?] at h
  | ingest n f =>
    cases hingest : (s.ingest n f).2.2 with
    | ok u => exact discardedIds_happensAll s n 0 f.ordered hingest
    | error v => simp [perform, hingest, Reply.violation?] at h

/-- Without a violation no call is discarded. -/
theorem discardedIds_history (ops : List Operation)
    (h : ∀ r ∈ (s.performAll ops).2, r.violation? = none) : (s.history ops).discardedIds = [] := by
  induction ops generalizing s with
  | nil => rfl
  | cons op ops ih =>
    rw [performAll_cons, List.forall_mem_cons] at h
    rw [history_cons, History.discardedIds_append, discardedIds_happenings s op h.1, ih _ h.2]
    rfl

end Violations

/-! ### The forest of all records -/

theorem map_links_labelCalls (cs : List CallRecord) (ls : List Label) :
    (labelCalls cs ls).map CallRecord.links = cs.map CallRecord.links := by
  fun_induction labelCalls cs ls <;> simp_all [CallRecord.links]

/-- The places of the calls on the stacks, of those of this frame and of those given away. -/
def places (s : CallStacks) (H : History) : List Links :=
  s.records.map CallRecord.links ++ H.releasedCalls.map CallRecord.links

/-- As long as numbers do not run out and no call is discarded, the calls form a forest. -/
structure Linked (start : FunctionTable) (H : History) (s : CallStacks) : Prop where
  ledger : Ledger start H s
  wellFormed : s.WellFormed
  forest : H.openedIds.length < UInt64.size → H.discardedIds = [] → Forest (s.places H)

namespace Linked

variable {start : FunctionTable} {H : History} {s : CallStacks}

theorem initial (start : FunctionTable) : Linked start [] { functions := start } where
  ledger := .initial start
  wellFormed := .start start
  forest _ _ := by
    have hnone : ({ functions := start } : CallStacks).places [] = [] := rfl
    rw [hnone]
    exact ⟨.nil, by simp, by simp, by simp⟩

/-- The next number is above all numbers in use. -/
theorem id_lt (h : Linked start H s) (hn : H.openedIds.length < UInt64.size) :
    ∀ r ∈ s.places H, r.id < s.nextId := by
  intro r hr
  have hmem : r.id ∈ H.openedIds := by
    refine h.ledger.places.mem_iff.2 ?_
    have hid := List.mem_map_of_mem (f := Links.id) hr
    rw [places, List.map_append, List.map_map, List.map_map] at hid
    rcases List.mem_append.1 hid with hid | hid
    · exact List.mem_append_left _ hid
    · exact List.mem_append_right _ (List.mem_append_left _ hid)
  exact h.ledger.lt_nextId hn _ hmem

/-- The places after a stack has changed. -/
theorem places_setStack (s : CallStacks) (H : History) (t : Thread) : ∃ rest,
    (s.places H).Perm ((s.stack t).map CallRecord.links ++ rest) ∧
      ∀ calls, ((s.setStack t calls).places H).Perm (calls.map CallRecord.links ++ rest) := by
  obtain ⟨rest, hrec, hset⟩ := records_setStack s t
  refine ⟨rest.map CallRecord.links ++ H.releasedCalls.map CallRecord.links, ?_, fun calls => ?_⟩
  · simpa [places] using (hrec.map CallRecord.links).append_right (H.releasedCalls.map CallRecord.links)
  · simpa [places] using
      ((hset calls).map CallRecord.links).append_right (H.releasedCalls.map CallRecord.links)

theorem enter (h : Linked start H s) (e : CallEvent) :
    Linked start (H ++ [.opened (s.enter e).2 e]) (s.enter e).1 where
  ledger := h.ledger.enter e
  wellFormed := h.wellFormed.enter e
  forest hn hd := by
    have hn : H.openedIds.length < UInt64.size := by
      simp only [History.openedIds_append, List.length_append] at hn
      omega
    have hlt := h.id_lt hn
    have hforest := h.forest hn (by simpa using hd)
    obtain ⟨rest, hrec, hset⟩ := places_setStack s H e.thread
    have hnested := h.wellFormed.nested e.thread
    have hplaces : (s.enter e).1.places (H ++ [.opened (s.enter e).2 e]) =
        (s.setStack e.thread (.opened s.nextId (s.functions.name e.function) e
          ((s.stack e.thread).head?.map CallRecord.id) :: adopt s.nextId (s.stack e.thread))).places H := by
      simp only [places, History.releasedCalls_append]
      simp [CallStacks.enter, records]
    rw [hplaces]
    refine Forest.perm ?_ (hset _).symm
    have hold := hforest.perm hrec
    have hlt : ∀ r ∈ (s.stack e.thread).map CallRecord.links ++ rest, r.id < s.nextId :=
      fun r hr => hlt r (hrec.mem_iff.2 hr)
    cases hst : s.stack e.thread with
    | nil =>
      rw [hst] at hold hlt
      exact hold.root hlt e.thread
    | cons c outer =>
      rw [hst] at hold hlt hnested
      have hthread : c.thread = e.thread := hnested.1.2.2.1
      exact hold.child hlt hthread

theorem leave (h : Linked start H s) (e : CallEvent) :
    Linked start (H ++ [s.departure e]) (s.leave e).1 where
  ledger := h.ledger.leave e
  wellFormed := h.wellFormed.leave e
  forest hn hd := by
    rcases departure_cases s e with ⟨hst, hs, hdep⟩ | ⟨c, outer, hst, ⟨hs, hdep⟩ | ⟨hf, ht, hs, hdep⟩⟩
    · rw [hdep] at hn hd ⊢
      rw [hs]
      simpa [places] using h.forest (by simpa using hn) (by simpa using hd)
    · simp [hdep] at hd
    · rw [hdep] at hn hd
      obtain ⟨rest, hrec, hset⟩ := places_setStack s H e.thread
      rw [hst] at hrec
      have hold := h.forest (by simpa using hn) (by simpa using hd)
      -- closing a call moves its record and changes none of its links
      have hsettle : ((s.leave e).1.places (H ++ [s.departure e])).Perm
          (c.links :: (s.setStack e.thread outer).places H) := by
        have hrecords := records_settle (s.setStack e.thread outer) (c.close e.time) outer.length
        rw [hs, hdep]
        simpa [places] using
          (hrecords.map CallRecord.links).append_right (H.releasedCalls.map CallRecord.links)
      exact hold.perm (hrec.trans (((hset outer).symm.cons c.links).trans hsettle.symm))

theorem attach (h : Linked start H s) (e : MessageEvent) : Linked start H (s.attach e).1 where
  ledger := h.ledger.attach e
  wellFormed := h.wellFormed.attach e
  forest hn hd := by
    rcases attach_cases s e with ⟨-, hs⟩ | ⟨c, outer, hst, hs⟩
    · rw [hs]
      exact h.forest hn hd
    · obtain ⟨rest, hrec, hset⟩ := places_setStack s H e.thread
      rw [hst] at hrec
      rw [hs]
      exact (h.forest hn hd).perm (hrec.trans (hset (c.addMessage (.ofEvent e) :: outer)).symm)

theorem setLabels (h : Linked start H s) (f : UInt64) (ls : List Label) :
    Linked start H (s.setLabels f ls) where
  ledger := h.ledger.setLabels f ls
  wellFormed := h.wellFormed.setLabels f ls
  forest hn hd := by
    obtain ⟨rest, hold, hnew⟩ := records_setLabels s f ls
    have hsame : (s.records.map CallRecord.links).Perm
        ((s.setLabels f ls).records.map CallRecord.links) := by
      refine (hold.map _).trans (.trans (.of_eq ?_) (hnew.map _).symm)
      simp [map_links_labelCalls]
    exact (h.forest hn hd).perm (hsame.append_right _)

theorem releaseFrame (h : Linked start H s) :
    Linked start (H ++ [.released s.frameCalls]) s.releaseFrame where
  ledger := h.ledger.releaseFrame
  wellFormed := h.wellFormed.releaseFrame
  forest hn hd := by
    have hold := h.forest (by simpa using hn) (by simpa using hd)
    have hmove : (s.frameCalls.map CallRecord.links ++ H.releasedCalls.map CallRecord.links).Perm
        (H.releasedCalls.map CallRecord.links ++ s.frameCalls.map CallRecord.links) :=
      List.perm_append_comm
    rw [places, records, ← frameCalls, List.map_append, List.append_assoc] at hold
    refine hold.perm ?_
    simpa [places] using hmove.append_left (s.running.values.flatten.map CallRecord.links)

theorem traced (start : FunctionTable) : Traced (Linked start) where
  enter _ _ e h := h.enter e
  leave _ _ e h := h.leave e
  attach _ _ e h := h.attach e
  setLabels _ _ f ls h := h.setLabels f ls
  releaseFrame _ _ h := h.releaseFrame
  updateFunctions _ _ names h := ⟨h.ledger.updateFunctions names,
    ⟨h.wellFormed.nested, h.wellFormed.finished, h.wellFormed.occupied⟩,
    fun hn hd => by simpa [places] using h.forest (by simpa using hn) (by simpa using hd)⟩

end Linked

/-- In a run without violations, all calls that are open, closed in this frame or given away with an
earlier one form a forest. Numbers are unique; a call names a caller just if the caller lists the call,
once; no link leads to a call that is lost. Linked calls are on one thread, the caller has the smaller
number, and callers list the calls made from them in opening order. -/
theorem links_agree (names : FunctionTable) (ops : List Operation)
    (hn : (({ functions := names } : CallStacks).history ops).openedIds.length < UInt64.size)
    (hok : ∀ r ∈ (({ functions := names } : CallStacks).performAll ops).2, r.violation? = none) :
    let s := (({ functions := names } : CallStacks).performAll ops).1
    let calls := s.openCalls ++ (s.frameCalls ++
      (({ functions := names } : CallStacks).history ops).releasedCalls)
    (calls.map (·.id)).Nodup ∧
      (∀ c ∈ calls, ∀ p ∈ calls, c.parent = some p.id ↔ c.id ∈ p.children) ∧
      (∀ c ∈ calls, ∀ p ∈ calls, c.parent = some p.id →
        p.children.count c.id = 1 ∧ c.thread = p.thread ∧ p.id < c.id) ∧
      (∀ r ∈ calls, ∀ id, r.parent = some id ∨ id ∈ r.children → ∃ q ∈ calls, q.id = id) ∧
      ∀ p ∈ calls, p.children.Pairwise (· < ·) := by
  intro s calls
  have h : Linked names _ s := (Linked.traced names).performAll ops (.initial names)
  have hperm : (s.places (({ functions := names } : CallStacks).history ops)).Perm
      (calls.map CallRecord.links) := by
    rw [places, ← List.map_append, records, List.append_assoc]
    exact ((openCalls_perm s).symm.append_right _).map _
  have hforest := (h.forest hn (discardedIds_history _ ops hok)).perm hperm
  have hmem : ∀ r ∈ calls, r.links ∈ calls.map CallRecord.links := fun r hr => List.mem_map_of_mem hr
  have hlinked : ∀ c ∈ calls, ∀ p ∈ calls, c.parent = some p.id ↔ c.id ∈ p.children :=
    fun c hc p hp => (hforest.agree _ (hmem c hc) _ (hmem p hp)).linked
  have hascending : ∀ p ∈ calls, p.children.Pairwise (· < ·) := fun p hp => hforest.ascending _ (hmem p hp)
  refine ⟨?_, hlinked, fun c hc p hp hparent => ?_, fun r hr id hid => ?_, hascending⟩
  · have hdistinct := hforest.distinct
    rwa [List.map_map] at hdistinct
  · have hchild := (hlinked c hc p hp).1 hparent
    have hnodup : p.children.Nodup := (hascending p hp).imp UInt64.ne_of_lt
    exact ⟨List.count_eq_one_of_mem hnodup hchild,
      (hforest.agree _ (hmem c hc) _ (hmem p hp)).descends hchild⟩
  · obtain ⟨l, hl, hlid⟩ := hforest.known _ (hmem r hr) id hid
    obtain ⟨q, hq, rfl⟩ := List.mem_map.1 hl
    exact ⟨q, hq, hlid⟩

/-- Calls of one caller in two frames, and a call of another thread. The first call and its own call are
given away while their caller is open. -/
theorem links_agree_across_frames :
    let t : Thread := ⟨0, 0, 0⟩
    let u : Thread := ⟨0, 0, 1⟩
    let ops : List Operation := [
      .enter ⟨t, .entry, 1, 0⟩, .enter ⟨t, .entry, 2, 10⟩, .enter ⟨u, .entry, 1, 10⟩,
      .enter ⟨t, .entry, 3, 20⟩, .leave ⟨t, .exit, 3, 30⟩, .leave ⟨t, .exit, 2, 40⟩, .releaseFrame,
      .ingest {} { step := 1, calls := [⟨t, .entry, 2, 50⟩, ⟨t, .exit, 2, 60⟩, ⟨t, .exit, 1, 70⟩] }]
    let s := (({} : CallStacks).performAll ops).1
    let H := ({} : CallStacks).history ops
    H.releasedCalls.map (fun r => (r.id, r.parent, r.children)) = [(1, some 0, [3]), (3, some 1, [])] ∧
      s.frameCalls.map (fun r => (r.id, r.parent, r.children)) = [(0, none, [1, 4]), (4, some 0, [])] ∧
      ((s.openCalls ++ (s.frameCalls ++ H.releasedCalls)).map (·.id)).Nodup := by
  intro t u ops s H
  exact ⟨by decide, by decide, (links_agree Keyed.empty ops (by decide) (by decide)).1⟩

end CallStacks

end TraceAnomaly
