import TraceAnomaly.Proofs.CallStack.History
import TraceAnomaly.Proofs.CallStack.Nesting

/-! No call is lost, counted twice or closed by the wrong exit. The numbers of the calls that a history
has opened are those of the calls on the stacks, of the calls closed in the current frame, of the
records given away with earlier frames and of the calls discarded. A record that was closed carries
its own entry, the name that its function had then, and the exit that is paired with the entry when
every exit of the thread takes away the innermost open call. -/

namespace TraceAnomaly

/-- Entries and exits that match, last in first out: `Q ::= ε | entry Q exit Q`. -/
inductive Paired : List CallKind → Prop where
  | empty : Paired []
  | call {body rest : List CallKind} (hbody : Paired body) (hrest : Paired rest) :
      Paired (.entry :: (body ++ .exit :: rest))

theorem Paired.append {v w : List CallKind} (hv : Paired v) (hw : Paired w) : Paired (v ++ w) := by
  induction hv with
  | empty => exact hw
  | call hbody _ _ ih => simpa using Paired.call hbody ih

namespace CallRecord

/-- The call was opened by an entry, when functions had these names. -/
def OpenedBy (r : CallRecord) (names : FunctionTable) (e : CallEvent) : Prop :=
  r.thread = e.thread ∧ r.function = e.function ∧ r.entry = e.time ∧ r.name = names.name e.function

@[simp] theorem id_close (r : CallRecord) (exit : UInt64) : (r.close exit).id = r.id := rfl

@[simp] theorem id_addMessage (r : CallRecord) (m : Message) : (r.addMessage m).id = r.id := rfl

end CallRecord

namespace History

/-- The open calls of a thread, innermost first: each was opened by an entry of the thread, and since
then entries and exits of the thread have been paired. -/
def Rooted (start : FunctionTable) (t : Thread) : History → List CallRecord → Prop
  | _, [] => True
  | H, r :: outer =>
    ∃ (before after : History) (e : CallEvent), H = before ++ .opened r.id e :: after ∧ e.thread = t ∧
      r.OpenedBy (before.names start) e ∧ Paired (after.moves t) ∧ Rooted start t before outer

/-- A completed call: it was opened by an entry and closed by the exit of the same thread that is
paired with it. -/
def Lived (start : FunctionTable) (H : History) (r : CallRecord) : Prop :=
  ∃ (before during after : History) (e x : CallEvent) (c : CallRecord) (depth : ℕ),
    H = before ++ .opened r.id e :: (during ++ .closed c depth x :: after) ∧ c.id = r.id ∧
    r.OpenedBy (before.names start) e ∧ x.thread = e.thread ∧ Paired (during.moves e.thread) ∧
    x.Closes e ∧ r.exit = some x.time ∧ r.runtime = some (x.time - e.time)

variable {start : FunctionTable} {t : Thread} {H : History} {calls : List CallRecord} {r : CallRecord}

theorem Rooted.append (h : Rooted start t H calls) {K : History} (hK : Paired (K.moves t)) :
    Rooted start t (H ++ K) calls := by
  cases calls with
  | nil => trivial
  | cons r outer =>
    obtain ⟨before, after, e, rfl, he, hr, hafter, houter⟩ := h
    refine ⟨before, after ++ K, e, by simp, he, hr, ?_, houter⟩
    rw [moves_append]
    exact hafter.append hK

/-- Numbering a new call with the one that made it changes none of this. -/
theorem Rooted.adopt (h : Rooted start t H calls) (id : UInt64) :
    Rooted start t H (CallStacks.adopt id calls) := by
  cases calls with
  | nil => trivial
  | cons r outer => exact h

/-- An exit takes away the innermost call and is paired with its entry. -/
theorem Rooted.leave {outer : List CallRecord} (h : Rooted start t H (r :: outer)) {K : History}
    (hK : K.moves t = [.exit]) : Rooted start t (H ++ K) outer := by
  obtain ⟨before, after, e, rfl, he, -, hafter, houter⟩ := h
  rw [List.append_assoc, List.cons_append]
  refine houter.append ?_
  have hmoves : moves t (.opened r.id e :: (after ++ K)) = .entry :: (moves t after ++ [.exit]) := by
    rw [← hK, ← moves_append]
    simp [moves, on, Happening.thread?, Happening.kind?, he]
  rw [hmoves]
  exact .call hafter .empty

theorem Lived.append (h : Lived start H r) (K : History) : Lived start (H ++ K) r := by
  obtain ⟨before, during, after, e, x, c, depth, rfl, h⟩ := h
  exact ⟨before, during, after ++ K, e, x, c, depth, by simp, h⟩

/-- A call that is closed by an exit that fits. -/
theorem Lived.close {outer : List CallRecord} {x : CallEvent} (h : Rooted start t H (r :: outer))
    (ht : x.thread = t) (hf : r.function = x.function) (hx : r.entry ≤ x.time) (depth : ℕ) :
    Lived start (H ++ [.closed (r.close x.time) depth x]) (r.close x.time) := by
  obtain ⟨before, after, e, rfl, rfl, hr, hafter, -⟩ := h
  have hopened := hr
  obtain ⟨-, hfun, hentry, -⟩ := hr
  refine ⟨before, after, [], e, x, r.close x.time, depth, by simp, rfl, hopened, ht, hafter,
    ⟨hf ▸ hfun, hentry ▸ hx⟩, rfl, ?_⟩
  rw [← hentry]
  rfl

end History

namespace CallStacks

variable (s : CallStacks)

/-- Labels do not change numbers. -/
theorem ids_frameCalls_setLabels (f : UInt64) (ls : List Label) :
    ((s.setLabels f ls).frameCalls.map (·.id)).Perm (s.frameCalls.map (·.id)) := by
  obtain ⟨rest, hold, hnew⟩ := frameCalls_setLabels s f ls
  refine (hnew.map _).trans (.trans (.of_eq ?_) (hold.map _).symm)
  simp [map_id_labelCalls]

theorem mem_frameCalls_setLabels {f : UInt64} {ls : List Label} {r : CallRecord}
    (hr : r ∈ (s.setLabels f ls).frameCalls) : ∃ c ∈ s.frameCalls, ∃ l, r = { c with label := l } := by
  obtain ⟨rest, hold, hnew⟩ := frameCalls_setLabels s f ls
  rcases List.mem_append.1 (hnew.mem_iff.1 hr) with hr | hr
  · obtain ⟨c, hc, l, hl⟩ := mem_labelCalls hr
    exact ⟨c, hold.mem_iff.2 (List.mem_append_left _ hc), l, hl⟩
  · exact ⟨r, hold.mem_iff.2 (List.mem_append_right _ hr), r.label, rfl⟩

/-- The innermost call of a thread leaves its stack. -/
theorem ids_pop {t : Thread} {c : CallRecord} {outer : List CallRecord} (hst : s.stack t = c :: outer) :
    (s.records.map (·.id)).Perm (c.id :: (s.setStack t outer).records.map (·.id)) := by
  obtain ⟨rest, hrec, hset⟩ := records_setStack s t
  rw [hst] at hrec
  exact (hrec.map _).trans (((hset outer).map _).symm.cons c.id)

/-- The numbers of the calls that a history has opened, with what has become of them. -/
structure Ledger (start : FunctionTable) (H : History) (s : CallStacks) : Prop where
  functions : s.functions = H.names start
  nextId : s.nextId = UInt64.ofNat H.openedIds.length
  opened : H.openedIds = (List.range H.openedIds.length).map UInt64.ofNat
  places : H.openedIds.Perm
    (s.records.map (·.id) ++ (H.releasedCalls.map (·.id) ++ H.discardedIds))
  closed : (H.closedCalls.map (·.id)).Perm
    (s.frameCalls.map (·.id) ++ H.releasedCalls.map (·.id))
  rooted : ∀ t, H.Rooted start t (s.stack t)
  lived : ∀ r ∈ s.frameCalls ++ H.releasedCalls, H.Lived start r

namespace Ledger

variable {start : FunctionTable} {H : History} {s : CallStacks}

theorem initial (start : FunctionTable) : Ledger start [] { functions := start } where
  functions := rfl
  nextId := rfl
  opened := rfl
  places := .refl _
  closed := .refl _
  rooted _ := trivial
  lived r hr := by simp [frameCalls, History.releasedCalls] at hr

theorem enter (h : Ledger start H s) (e : CallEvent) :
    Ledger start (H ++ [.opened (s.enter e).2 e]) (s.enter e).1 where
  functions := by
    rw [History.names_append]
    exact h.functions
  nextId := by
    have hnext : (s.enter e).1.nextId = s.nextId + 1 := rfl
    simp [hnext, h.nextId, UInt64.ofNat_add]
  opened := by
    have hid : (s.enter e).2 = UInt64.ofNat H.openedIds.length := h.nextId
    simp [hid, List.range_succ, ← h.opened]
  places := by
    have hid : (s.enter e).2 = s.nextId := rfl
    have hids := (ids_enter s e).symm.append_right (H.releasedCalls.map (·.id) ++ H.discardedIds)
    simpa [hid] using (List.perm_append_singleton _ _).trans ((h.places.cons s.nextId).trans hids)
  closed := by
    have hcalls : (s.enter e).1.frameCalls = s.frameCalls := rfl
    simpa [hcalls] using h.closed
  rooted t := by
    rw [stack_enter]
    split
    · rename_i ht
      subst ht
      refine ⟨H, [], e, rfl, rfl, ⟨rfl, rfl, rfl, ?_⟩, .empty, (h.rooted _).adopt _⟩
      simp [CallRecord.opened, h.functions]
    · rename_i ht
      refine (h.rooted t).append ?_
      simpa [Ne.symm ht] using Paired.empty
  lived r hr := by
    have hcalls : (s.enter e).1.frameCalls = s.frameCalls := rfl
    exact (h.lived r (by simpa [hcalls] using hr)).append _

/-- The innermost call of a thread has left its stack; the others stay where they are. -/
theorem rooted_pop (h : Ledger start H s) {t : Thread} {c : CallRecord} {outer : List CallRecord}
    (hst : s.stack t = c :: outer) {K : History} (hself : K.moves t = [.exit])
    (hother : ∀ u, u ≠ t → K.moves u = []) (u : Thread) :
    (H ++ K).Rooted start u ((s.setStack t outer).stack u) := by
  rw [stack_setStack]
  split
  · rename_i hu
    subst hu
    exact (hst ▸ h.rooted u : H.Rooted start u (c :: outer)).leave hself
  · rename_i hu
    exact (h.rooted u).append (hother u hu ▸ .empty)

theorem leave (h : Ledger start H s) (e : CallEvent) :
    Ledger start (H ++ [s.departure e]) (s.leave e).1 := by
  rcases departure_cases s e with
    ⟨hst, hs, hd⟩ | ⟨c, outer, hst, ⟨hs, hd⟩ | ⟨hf, ht, hs, hd⟩⟩
  · rw [hs, hd]
    refine ⟨by simpa using h.functions, by simpa using h.nextId, by simpa using h.opened,
      by simpa using h.places, by simpa using h.closed, fun t => ?_,
      fun r hr => (h.lived r (by simpa using hr)).append _⟩
    by_cases he : e.thread = t
    · rw [← he, hst]
      trivial
    · exact (h.rooted t).append (by simpa [he] using Paired.empty)
  · rw [hs, hd]
    refine ⟨by simpa using h.functions, by simpa using h.nextId, by simpa using h.opened, ?_,
      by simpa using h.closed, h.rooted_pop hst (by simp) fun u hu => by simp [hu.symm],
      fun r hr => (h.lived r (by simpa using hr)).append _⟩
    have hpop := h.places.trans ((ids_pop s hst).append_right _)
    have hlast := (List.perm_append_singleton c.id
      ((s.setStack e.thread outer).records.map (·.id) ++ (H.releasedCalls.map (·.id) ++ H.discardedIds))).symm
    simpa using hpop.trans hlast
  · rw [hs, hd]
    have hfresh := frameCalls_settle (s.setStack e.thread outer) (c.close e.time) outer.length
    refine ⟨by simpa using h.functions, by simpa using h.nextId, by simpa using h.opened, ?_, ?_,
      h.rooted_pop hst (by simp) fun u hu => by simp [hu.symm], fun r hr => ?_⟩
    · have hsettle := (records_settle (s.setStack e.thread outer) (c.close e.time) outer.length).map (·.id)
      have hids := (ids_pop s hst).trans hsettle.symm
      simpa using h.places.trans (hids.append_right _)
    · have hlast := (List.perm_append_singleton c.id (H.closedCalls.map (·.id))).trans (h.closed.cons c.id)
      have hnew := ((hfresh.map (·.id)).append_right (H.releasedCalls.map (·.id))).symm
      simpa using hlast.trans hnew
    · rcases List.mem_append.1 hr with hr | hr
      · rcases List.mem_cons.1 (hfresh.mem_iff.1 hr) with rfl | hr
        · exact .close (hst ▸ h.rooted e.thread) rfl hf ht _
        · exact (h.lived r (List.mem_append_left _ hr)).append _
      · exact (h.lived r (List.mem_append_right _ (by simpa using hr))).append _

theorem attach (h : Ledger start H s) (e : MessageEvent) : Ledger start H (s.attach e).1 := by
  rcases attach_cases s e with ⟨-, hs⟩ | ⟨c, outer, hst, hs⟩
  · rw [hs]
    exact h
  · rw [hs]
    obtain ⟨rest, hrec, hset⟩ := records_setStack s e.thread
    refine ⟨h.functions, h.nextId, h.opened, ?_, h.closed, fun t => ?_, h.lived⟩
    · have hids : (s.records.map (·.id)).Perm
          ((s.setStack e.thread (c.addMessage (.ofEvent e) :: outer)).records.map (·.id)) := by
        rw [hst] at hrec
        simpa using (hrec.map (·.id)).trans
          ((hset (c.addMessage (.ofEvent e) :: outer)).map (·.id)).symm
      exact h.places.trans (hids.append_right _)
    · rw [stack_setStack]
      split
      · rename_i ht
        subst ht
        have htop : H.Rooted start e.thread (c :: outer) := hst ▸ h.rooted e.thread
        exact htop
      · exact h.rooted t

theorem setLabels (h : Ledger start H s) (f : UInt64) (ls : List Label) :
    Ledger start H (s.setLabels f ls) := by
  have hids := ids_frameCalls_setLabels s f ls
  have hrecords : ((s.setLabels f ls).records.map (·.id)).Perm (s.records.map (·.id)) := by
    simp only [records, running_setLabels, List.map_append]
    exact hids.append_left _
  refine ⟨?_, ?_, h.opened, h.places.trans (hrecords.symm.append_right _),
    h.closed.trans (hids.symm.append_right _), fun t => ?_, fun r hr => ?_⟩
  · simpa using h.functions
  · simpa using h.nextId
  · simpa using h.rooted t
  · rcases List.mem_append.1 hr with hr | hr
    · obtain ⟨c, hc, l, rfl⟩ := mem_frameCalls_setLabels s hr
      have hlived := h.lived c (List.mem_append_left _ hc)
      exact hlived
    · exact h.lived r (List.mem_append_right _ hr)

theorem releaseFrame (h : Ledger start H s) :
    Ledger start (H ++ [.released s.frameCalls]) s.releaseFrame where
  functions := by simpa using h.functions
  nextId := by simpa using h.nextId
  opened := by simpa using h.opened
  places := by
    have hplaces := h.places
    rw [records, List.map_append, List.append_assoc] at hplaces
    have hmove : (s.frameCalls.map (·.id) ++ (H.releasedCalls.map (·.id) ++ H.discardedIds)).Perm
        (H.releasedCalls.map (·.id) ++ (s.frameCalls.map (·.id) ++ H.discardedIds)) := by
      simpa using List.perm_append_comm.append_right H.discardedIds
    simpa using hplaces.trans (hmove.append_left _)
  closed := by simpa using h.closed.trans List.perm_append_comm
  rooted t := (h.rooted t).append (by simpa using Paired.empty)
  lived r hr := by
    refine (h.lived r ?_).append _
    simpa [or_comm] using hr

theorem updateFunctions (h : Ledger start H s) (names : FunctionTable) :
    Ledger start (H ++ [.named names]) (s.updateFunctions names) where
  functions := by simp [CallStacks.updateFunctions, h.functions]
  nextId := by simpa using h.nextId
  opened := by simpa using h.opened
  places := by simpa using h.places
  closed := by simpa using h.closed
  rooted t := (h.rooted t).append (by simpa using Paired.empty)
  lived r hr := (h.lived r (by simpa using hr)).append _

theorem traced (start : FunctionTable) : Traced (Ledger start) where
  enter _ _ e h := h.enter e
  leave _ _ e h := h.leave e
  attach _ _ e h := h.attach e
  setLabels _ _ f ls h := h.setLabels f ls
  releaseFrame _ _ h := h.releaseFrame
  updateFunctions _ _ names h := h.updateFunctions names

theorem performAll (start : FunctionTable) (ops : List Operation) :
    Ledger start (({ functions := start } : CallStacks).history ops)
      (({ functions := start } : CallStacks).performAll ops).1 :=
  (traced start).performAll ops (initial start)

/-- As long as numbers do not run out, every new number is larger than all earlier ones. -/
theorem ascending (h : Ledger start H s) (hn : H.openedIds.length < UInt64.size) :
    H.openedIds.Pairwise (· < ·) := by
  rw [h.opened, List.pairwise_map]
  refine List.pairwise_lt_range.imp_of_mem fun {i j} hi hj hij => ?_
  have hi' := List.mem_range.1 hi
  have hj' := List.mem_range.1 hj
  rw [UInt64.lt_iff_toNat_lt, UInt64.toNat_ofNat_of_lt' (by omega), UInt64.toNat_ofNat_of_lt' (by omega)]
  exact hij

/-- The next number is larger than all numbers given out. -/
theorem lt_nextId (h : Ledger start H s) (hn : H.openedIds.length < UInt64.size) :
    ∀ id ∈ H.openedIds, id < s.nextId := by
  intro id hid
  rw [h.opened] at hid
  obtain ⟨i, hi, rfl⟩ := List.mem_map.1 hid
  have hi' := List.mem_range.1 hi
  rw [h.nextId, UInt64.lt_iff_toNat_lt, UInt64.toNat_ofNat_of_lt' (by omega), UInt64.toNat_ofNat_of_lt' hn]
  exact hi'

/-- A call that was opened is open, closed or discarded. -/
theorem calls (h : Ledger start H s) : H.openedIds.Perm
    (s.openCalls.map (·.id) ++ (H.closedCalls.map (·.id) ++ H.discardedIds)) := by
  have hplaces := h.places
  rw [records, List.map_append, List.append_assoc] at hplaces
  refine hplaces.trans (((openCalls_perm s).symm.map _).append ?_)
  rw [← List.append_assoc]
  exact h.closed.symm.append_right _

/-- Every exit that found an open call has taken one away. -/
theorem size_eq (h : Ledger start H s) :
    s.size + (H.closedCalls.length + H.discardedIds.length) = H.openedIds.length := by
  have hplaces := h.places.length_eq
  have hclosed := h.closed.length_eq
  have hrecords : s.records.length = s.size + s.frameCalls.length := by
    rw [size_eq_length, (openCalls_perm s).length_eq]
    exact List.length_append
  simp only [List.length_append, List.length_map] at hplaces hclosed
  omega

end Ledger

/-- After every history with fewer entries than there are numbers, the numbers given out are ascending
and each is found in one place: among the open calls, among the calls closed in this frame, among the
records released, or among the calls discarded. Closed were the calls of this frame and the released
ones. Open calls stand on the stack of the thread that entered them, and closed ones carry the data of
their entry and of the exit paired with it. The open calls are as many as the entries that no exit has
taken away. -/
theorem openedIds_conserved (names : FunctionTable) (ops : List Operation)
    (hn : (({ functions := names } : CallStacks).history ops).openedIds.length < UInt64.size) :
    let s := (({ functions := names } : CallStacks).performAll ops).1
    let H := ({ functions := names } : CallStacks).history ops
    let places := s.openCalls.map (·.id) ++ (s.frameCalls.map (·.id) ++
      (H.releasedCalls.map (·.id) ++ H.discardedIds))
    H.openedIds.Pairwise (· < ·) ∧ H.openedIds.Perm places ∧ places.Nodup ∧
      (H.closedCalls.map (·.id)).Perm (s.frameCalls.map (·.id) ++ H.releasedCalls.map (·.id)) ∧
      (∀ t, H.Rooted names t (s.stack t)) ∧
      (∀ r ∈ s.frameCalls ++ H.releasedCalls, H.Lived names r) ∧
      s.size + (H.closedCalls.length + H.discardedIds.length) = H.openedIds.length := by
  intro s H places
  have h : Ledger names H s := Ledger.performAll names ops
  have hascending := h.ascending hn
  have hplaces : H.openedIds.Perm places := by
    refine h.places.trans ?_
    rw [records, List.map_append, List.append_assoc]
    exact ((openCalls_perm s).symm.map _).append_right _
  refine ⟨hascending, hplaces, hplaces.nodup_iff.1 ?_, h.closed, h.rooted, h.lived, h.size_eq⟩
  exact hascending.imp UInt64.ne_of_lt

/-- A call discarded by an exit of its caller, a frame released with one call in it, a function that is
renamed, and a call left open on another thread. -/
theorem openedIds_conserved_renamed :
    let t : Thread := ⟨0, 0, 0⟩
    let u : Thread := ⟨0, 0, 1⟩
    let ops : List Operation := [
      .enter ⟨t, .entry, 1, 10⟩, .enter ⟨t, .entry, 2, 20⟩, .leave ⟨t, .exit, 1, 30⟩,
      .enter ⟨u, .entry, 3, 30⟩, .updateFunctions (.ofList [(1, "solve")]), .leave ⟨t, .exit, 1, 40⟩,
      .beginFrame, .leave ⟨t, .exit, 1, 50⟩]
    let run := ({} : CallStacks).performAll ops
    let H := ({} : CallStacks).history ops
    H.openedIds = [0, 1, 2] ∧ run.1.size = 1 ∧ H.discardedIds = [1] ∧
      H.releasedCalls.map (·.name) = ["<unknown>"] ∧ ∀ r ∈ H.releasedCalls, H.Lived Keyed.empty r := by
  intro t u ops run H
  obtain ⟨-, -, -, -, -, hlived, hsize⟩ := openedIds_conserved Keyed.empty ops (by decide)
  have hopened : H.openedIds = [0, 1, 2] := by decide
  have hclosed : H.closedCalls.length = 1 := by decide
  have hdiscarded : H.discardedIds = [1] := by decide
  refine ⟨hopened, ?_, hdiscarded, by decide, fun r hr => hlived r (List.mem_append_right _ hr)⟩
  have hcount : run.1.size + (H.closedCalls.length + H.discardedIds.length) = H.openedIds.length := hsize
  rw [hclosed, hdiscarded, hopened] at hcount
  simpa using hcount

end CallStacks

end TraceAnomaly
