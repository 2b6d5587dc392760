import TraceAnomaly.Proofs.CallStack.Records

/-! Messages do not matter to calls. Merging messages into a frame leaves its calls in the order of
delivery, and the stacks without their messages go through the same states, with the same
violations, as if no message had been delivered. -/

namespace TraceAnomaly

def Event.call? : Event → Option CallEvent
  | .call e => some e
  | .message _ => none

@[simp] theorem Event.call?_call (e : CallEvent) : (Event.call e).call? = some e := rfl

@[simp] theorem Event.call?_message (e : MessageEvent) : (Event.message e).call? = none := rfl

namespace Frame

def silent (f : Frame) : Frame := { f with messages := [] }

theorem calls_messages (ms : List MessageEvent) : (ms.map Event.message).filterMap Event.call? = [] := by
  simp

theorem calls_merge (waiting : Keyed Thread (List MessageEvent)) (cs : List CallEvent) :
    (merge waiting cs).filterMap Event.call? = cs := by
  induction cs generalizing waiting with
  | nil => exact calls_messages _
  | cons c rest ih =>
    simp only [merge]
    split
    · simp [ih]
    · rw [List.filterMap_append, calls_messages]
      simp [ih]

/-- The calls are processed in the order of delivery. -/
theorem calls_ordered (f : Frame) : f.ordered.filterMap Event.call? = f.calls :=
  calls_merge _ f.calls

theorem merge_empty (cs : List CallEvent) : merge Keyed.empty cs = cs.map .call := by
  induction cs with
  | nil => rfl
  | cons c rest ih => simp [merge, ih]

theorem ordered_silent (f : Frame) : f.silent.ordered = f.calls.map .call :=
  merge_empty f.calls

end Frame

def IngestError.unplaced (e : IngestError) : IngestError := { e with index := 0 }

def CallRecord.silent (r : CallRecord) : CallRecord := { r with messages := [] }

namespace CallStacks

def silent (s : CallStacks) : CallStacks :=
  { s with
    running := s.running.mapValues (List.map CallRecord.silent)
    closed := s.closed.mapValues (List.map CallRecord.silent) }

variable (s : CallStacks)

@[simp] theorem stack_silent (t : Thread) : s.silent.stack t = (s.stack t).map CallRecord.silent := by
  simp only [stack, silent, Keyed.get?_mapValues]
  cases s.running.get? t <;> rfl

theorem silent_setStack (t : Thread) (calls : List CallRecord) :
    (s.setStack t calls).silent = s.silent.setStack t (calls.map CallRecord.silent) := by
  simp [silent, setStack, Keyed.mapValues_insert]

theorem silent_settle (c : CallRecord) (d : Nat) :
    (s.settle c d).silent = s.silent.settle c.silent d := by
  have hclosed := Keyed.mapValues_alter s.closed c.function (List.map CallRecord.silent)
    (fun old => old.getD [] ++ [c]) (fun old => old.getD [] ++ [c.silent])
    (by cases s.closed.get? c.function <;> simp)
  simp only [silent, settle, hclosed]
  rfl

theorem map_silent_adopt (id : UInt64) (calls : List CallRecord) :
    (adopt id calls).map CallRecord.silent = adopt id (calls.map CallRecord.silent) := by
  cases calls <;> rfl

theorem silent_enter (e : CallEvent) : (s.enter e).1.silent = (s.silent.enter e).1 := by
  have hparent : ((s.stack e.thread).map CallRecord.silent).head?.map (·.id) =
      (s.stack e.thread).head?.map (·.id) := by
    cases s.stack e.thread <;> rfl
  have hset := silent_setStack s e.thread
    (.opened s.nextId (s.functions.name e.function) e ((s.stack e.thread).head?.map (·.id)) ::
      adopt s.nextId (s.stack e.thread))
  simp only [enter, stack_silent, hparent, ← map_silent_adopt]
  exact congrArg (fun s' : CallStacks => { s' with nextId := s.nextId + 1 }) hset

theorem silent_leave (e : CallEvent) :
    (s.leave e).1.silent = (s.silent.leave e).1 ∧ (s.leave e).2 = (s.silent.leave e).2 := by
  unfold leave
  rw [stack_silent]
  cases s.stack e.thread with
  | nil => exact ⟨rfl, rfl⟩
  | cons c outer =>
    simp only [List.map_cons, ← silent_setStack, List.length_map, CallRecord.silent]
    split_ifs
    · exact ⟨rfl, rfl⟩
    · exact ⟨rfl, rfl⟩
    · exact ⟨silent_settle _ _ _, rfl⟩

theorem silent_call (e : CallEvent) :
    (s.call e).1.silent = (s.silent.call e).1 ∧ (s.call e).2 = (s.silent.call e).2 := by
  unfold call
  split
  · exact ⟨silent_enter s e, rfl⟩
  · exact ⟨(silent_leave s e).1, congrArg (Except.map fun _ => ()) (silent_leave s e).2⟩

theorem silent_apply_call (e : CallEvent) :
    (s.apply (.call e)).1.silent = (s.silent.apply (.call e)).1 ∧
      (s.apply (.call e)).2 = (s.silent.apply (.call e)).2 :=
  ⟨(silent_call s e).1, congrArg (Except.map _) (silent_call s e).2⟩

/-- A message is accepted and changes nothing but messages. -/
theorem silent_apply_message (e : MessageEvent) :
    (s.apply (.message e)).1.silent = s.silent ∧ ∃ c, (s.apply (.message e)).2 = .ok c := by
  refine ⟨?_, _, rfl⟩
  rcases attach_cases s e with ⟨-, hs⟩ | ⟨c, outer, hst, hs⟩
  · simp only [apply, hs]
  · have hsame : (c.addMessage (.ofEvent e) :: outer).map CallRecord.silent =
        s.silent.stack e.thread := by
      rw [stack_silent, hst]
      rfl
    simp only [apply, hs, silent_setStack, hsame]
    exact setStack_stack s.silent (by simp [hst])

/-- Events are applied as if there were only the calls. Counts, and the place of a violation, are
not compared as they include the messages. -/
theorem silent_applyAll (es : List Event) (n m : EventCounts) (i j : ℕ) :
    let run := s.applyAll n i es
    let quiet := s.silent.applyAll m j ((es.filterMap Event.call?).map .call)
    run.1.silent = quiet.1 ∧
      run.2.2.mapError IngestError.unplaced = quiet.2.2.mapError IngestError.unplaced := by
  induction es generalizing s n m i j with
  | nil => exact ⟨rfl, rfl⟩
  | cons e rest ih =>
    cases e with
    | message e =>
      obtain ⟨hsilent, c, hc⟩ := silent_apply_message s e
      have hstep : s.apply (.message e) = ((s.apply (.message e)).1, .ok c) := Prod.ext rfl hc
      rw [List.filterMap_cons_none (Event.call?_message e), ← hsilent]
      simp only [applyAll]
      rw [hstep]
      exact ih _ _ m _ j
    | call e =>
      obtain ⟨hstate, hreply⟩ := silent_apply_call s e
      rw [List.filterMap_cons_some (Event.call?_call e), List.map_cons]
      simp only [applyAll]
      cases hr : s.apply (.call e) with
      | mk s' reply =>
        have hq : s.silent.apply (.call e) = (s'.silent, reply) := by
          rw [hr] at hstate hreply
          exact Prod.ext hstate.symm hreply.symm
        rw [hq]
        cases reply with
        | error v => exact ⟨rfl, rfl⟩
        | ok c => exact ih s' _ _ _ _

theorem silent_ingest (n m : EventCounts) (f : Frame) :
    (s.ingest n f).1.silent = (s.silent.ingest m f.silent).1 ∧
      (s.ingest n f).2.2.mapError IngestError.unplaced =
        (s.silent.ingest m f.silent).2.2.mapError IngestError.unplaced := by
  simpa [ingest, Frame.ordered_silent, Frame.calls_ordered] using
    silent_applyAll s f.ordered n m 0 0

theorem silent_frameCalls : s.silent.frameCalls = s.frameCalls.map CallRecord.silent := by
  simp [frameCalls, silent, List.map_flatten]

end CallStacks

end TraceAnomaly
