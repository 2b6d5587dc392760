import TraceAnomaly.Proofs.CallStack.Nesting
import TraceAnomaly.Proofs.CallStack.Silence
import TraceAnomaly.Proofs.CallStack.WellFormed

/-! Which traces the call stacks accept. The entries of the calls on a thread's stack are what a scan
of the thread's call events has pending, one event after another, whatever the other threads do,
where frames begin and end, and which messages come with them. So a list of frames is accepted just
if the call events of every thread are unfinished words, and then the stacks hold the unmatched
entries. -/

namespace TraceAnomaly

@[simp] theorem isOk_map {ε α β : Type} (f : α → β) (x : Except ε α) : (x.map f).isOk = x.isOk := by
  cases x <;> rfl

def CallRecord.entryEvent (r : CallRecord) : CallEvent := ⟨r.thread, .entry, r.function, r.entry⟩

def threadCalls (t : Thread) (w : List CallEvent) : List CallEvent := w.filter (·.thread = t)

@[simp] theorem threadCalls_append (t : Thread) (v w : List CallEvent) :
    threadCalls t (v ++ w) = threadCalls t v ++ threadCalls t w :=
  List.filter_append ..

theorem threadCalls_singleton (t : Thread) (e : CallEvent) :
    threadCalls t [e] = if e.thread = t then [e] else [] := by
  simp only [threadCalls, List.filter_cons, List.filter_nil, decide_eq_true_eq]

/-- A frame, or a mark between frames. -/
inductive Delivery where
  | frame (counts : EventCounts) (frame : Frame)
  | beginFrame
  | releaseFrame

namespace Delivery

def operation : Delivery → Operation
  | frame n f => .ingest n f
  | beginFrame => .beginFrame
  | releaseFrame => .releaseFrame

def calls : Delivery → List CallEvent
  | frame _ f => f.calls
  | beginFrame => []
  | releaseFrame => []

def silent : Delivery → Delivery
  | frame n f => .frame n f.silent
  | beginFrame => .beginFrame
  | releaseFrame => .releaseFrame

end Delivery

/-- The calls of a thread in frames delivered one after another. -/
def threadWord (t : Thread) (ds : List Delivery) : List CallEvent :=
  threadCalls t (ds.flatMap Delivery.calls)

namespace Reply

def accepted : Reply → Bool
  | .ingested _ outcome => outcome.isOk
  | _ => true

/-- What a reply says about calls: a violation without its place, records without messages. -/
def silent : Reply → Reply
  | .ingested _ outcome => .ingested {} (outcome.mapError IngestError.unplaced)
  | .released calls => .released (calls.map CallRecord.silent)
  | r => r

end Reply

namespace CallStacks

open Nesting

def deliver (s : CallStacks) (ds : List Delivery) : CallStacks × List Reply :=
  s.performAll (ds.map Delivery.operation)

/-- The entries of the open calls of a thread, innermost first. -/
def pending (s : CallStacks) (t : Thread) : List CallEvent := (s.stack t).map CallRecord.entryEvent

/-- From `s` to `s'` the stacks do as the scans of all threads: they accept what every scan accepts,
ending with the same entries, and reject what some scan rejects. -/
def Follows (s : CallStacks) (w : List CallEvent) (s' : CallStacks) : Bool → Prop
  | true => ∀ t, scan (s.pending t) (threadCalls t w) = some (s'.pending t)
  | false => ∃ t, scan (s.pending t) (threadCalls t w) = none

namespace Follows

variable {s s' s'' : CallStacks} {v w : List CallEvent} {b : Bool}

theorem refl (s : CallStacks) : Follows s [] s true := fun _ => rfl

/-- Pending entries are all that counts. -/
theorem congr (h : Follows s w s' b) (hp : ∀ t, s''.pending t = s'.pending t) : Follows s w s'' b := by
  cases b with
  | true => exact fun t => (h t).trans (congrArg some (hp t).symm)
  | false => exact h

theorem append (hv : Follows s v s' true) (hw : Follows s' w s'' b) : Follows s (v ++ w) s'' b := by
  have hscan : ∀ t, scan (s.pending t) (threadCalls t (v ++ w)) =
      scan (s'.pending t) (threadCalls t w) := fun t => by
    rw [threadCalls_append, scan_append, hv t, Option.bind_some]
  cases b with
  | true => exact fun t => (hscan t).trans (hw t)
  | false => exact hw.imp fun t ht => (hscan t).trans ht

/-- What is rejected stays rejected. -/
theorem rejected (hv : Follows s v s' false) (w : List CallEvent) (s'' : CallStacks) :
    Follows s (v ++ w) s'' false := by
  obtain ⟨t, ht⟩ := hv
  exact ⟨t, by rw [threadCalls_append, scan_append, ht, Option.bind_none]⟩

/-- One event of a thread, accepted. -/
theorem one {e : CallEvent} (he : step (s.pending e.thread) e = some (s'.pending e.thread))
    (hother : ∀ t, t ≠ e.thread → s'.pending t = s.pending t) : Follows s [e] s' true := by
  intro t
  rw [threadCalls_singleton]
  split
  · rename_i h
    subst h
    simp [he]
  · rename_i h
    simp [hother t (Ne.symm h)]

/-- One event of a thread, rejected. -/
theorem one_rejected {e : CallEvent} (he : step (s.pending e.thread) e = none) (s' : CallStacks) :
    Follows s [e] s' false :=
  ⟨e.thread, by simp [threadCalls_singleton, he]⟩

/-- Only the pending entries of the first state count. -/
theorem of_pending {s₀ : CallStacks} (h : Follows s w s' b) (hp : ∀ t, s₀.pending t = s.pending t) :
    Follows s₀ w s' b := by
  cases b with
  | true => exact fun t => (hp t).symm ▸ h t
  | false => exact h.imp fun t ht => (hp t).symm ▸ ht

/-- Whether calls are accepted depends on the calls of each thread. -/
theorem accepted_eq {b' : Bool} (hv : Follows s v s' b) (hw : Follows s w s'' b')
    (h : ∀ t, threadCalls t v = threadCalls t w) : b = b' := by
  cases b with
  | true =>
    cases b' with
    | true => rfl
    | false =>
      obtain ⟨t, ht⟩ := hw
      rw [← h t, hv t] at ht
      cases ht
  | false =>
    cases b' with
    | false => rfl
    | true =>
      obtain ⟨t, ht⟩ := hv
      rw [h t, hw t] at ht
      cases ht

end Follows

/-! ### Steps -/

variable (s : CallStacks)

theorem pending_setStack (t u : Thread) (calls : List CallRecord) :
    (s.setStack t calls).pending u = if u = t then calls.map CallRecord.entryEvent else s.pending u := by
  simp only [pending, stack_setStack]
  split <;> rfl

theorem entryEvent_adopt (id : UInt64) (calls : List CallRecord) :
    (adopt id calls).map CallRecord.entryEvent = calls.map CallRecord.entryEvent := by
  cases calls <;> rfl

theorem follows_enter {e : CallEvent} (he : e.kind = .entry) : Follows s [e] (s.enter e).1 true := by
  have hopened : ∀ id name parent, (CallRecord.opened id name e parent).entryEvent = e := by
    intros
    cases e
    simp_all [CallRecord.opened, CallRecord.entryEvent]
  refine .one ?_ fun t ht => ?_
  · rw [step_entry _ he]
    simp [pending, stack_enter, hopened, entryEvent_adopt]
  · simp [pending, stack_enter, ht]

theorem follows_leave {e : CallEvent} (he : e.kind = .exit) :
    Follows s [e] (s.leave e).1 (s.leave e).2.isOk := by
  rcases leave_cases s e with
    ⟨hst, hs⟩ | ⟨c, outer, hst, ⟨hf, hs⟩ | ⟨hf, ht, hs⟩ | ⟨hf, ht, hs⟩⟩
  · exact hs ▸ .one_rejected (by simp [pending, hst, step_exit_nil he]) _
  all_goals
    have hstep : step (s.pending e.thread) e = if e.Closes c.entryEvent then
        some (outer.map CallRecord.entryEvent) else none := by
      rw [pending, hst, List.map_cons, step_exit_cons _ he]
  · have hc : ¬ e.Closes c.entryEvent := fun h => hf h.1.symm
    exact hs ▸ .one_rejected (by rw [hstep, if_neg hc]) _
  · have hc : ¬ e.Closes c.entryEvent := fun h => UInt64.not_le.2 ht h.2
    exact hs ▸ .one_rejected (by rw [hstep, if_neg hc]) _
  · have hc : e.Closes c.entryEvent := ⟨hf.symm, ht⟩
    rw [hs]
    refine .one ?_ fun t ht => ?_
    · rw [hstep, if_pos hc]
      simp [pending]
    · simp [pending, ht]

theorem pending_attach (e : MessageEvent) (t : Thread) : (s.attach e).1.pending t = s.pending t := by
  rcases attach_cases s e with ⟨-, hs⟩ | ⟨c, outer, hst, hs⟩
  · rw [hs]
  · rw [hs, pending_setStack]
    split
    · rename_i ht
      subst ht
      rw [pending, hst]
      rfl
    · rfl

theorem follows_call (e : CallEvent) : Follows s [e] (s.call e).1 (s.call e).2.isOk := by
  unfold call
  split
  · exact follows_enter s ‹_›
  · rw [isOk_map]
    exact follows_leave s ‹_›

theorem follows_apply (e : Event) : Follows s e.call?.toList (s.apply e).1 (s.apply e).2.isOk := by
  cases e with
  | call e =>
    have hok : (s.apply (.call e)).2.isOk = (s.call e).2.isOk := isOk_map _ _
    rw [hok]
    exact follows_call s e
  | message e => exact (Follows.refl s).congr (pending_attach s e)

theorem follows_applyAll (es : List Event) (n : EventCounts) (i : ℕ) :
    Follows s (es.filterMap Event.call?) (s.applyAll n i es).1 (s.applyAll n i es).2.2.isOk := by
  induction es generalizing s n i with
  | nil => exact .refl s
  | cons e rest ih =>
    have he := follows_apply s e
    have hcons : (e :: rest).filterMap Event.call? = e.call?.toList ++ rest.filterMap Event.call? := by
      cases e <;> rfl
    rw [hcons]
    simp only [applyAll]
    split
    · rename_i s' v hr
      rw [hr] at he
      exact he.rejected _ _
    · rename_i s' c hr
      rw [hr] at he
      exact he.append (ih s' _ _)

theorem follows_ingest (n : EventCounts) (f : Frame) :
    Follows s f.calls (s.ingest n f).1 (s.ingest n f).2.2.isOk := by
  have h := follows_applyAll s f.ordered n 0
  rwa [Frame.calls_ordered] at h

theorem follows_perform (d : Delivery) :
    Follows s d.calls (s.perform d.operation).1 (s.perform d.operation).2.accepted := by
  cases d with
  | frame n f => exact follows_ingest s n f
  | beginFrame => exact .refl s
  | releaseFrame => exact .refl s

theorem follows_deliver (ds : List Delivery) :
    Follows s (ds.flatMap Delivery.calls) (s.deliver ds).1 ((s.deliver ds).2.all Reply.accepted) := by
  induction ds generalizing s with
  | nil => exact .refl s
  | cons d ds ih =>
    have hd := follows_perform s d
    rw [List.flatMap_cons]
    simp only [deliver, List.map_cons, performAll_cons, List.all_cons]
    cases hr : (s.perform d.operation).2.accepted with
    | true =>
      rw [hr] at hd
      exact hd.append (ih (s.perform d.operation).1)
    | false =>
      rw [hr] at hd
      exact hd.rejected _ _

/-! ### Messages -/

theorem silent_perform (d : Delivery) :
    (s.perform d.operation).1.silent = (s.silent.perform d.silent.operation).1 ∧
      (s.perform d.operation).2.silent = (s.silent.perform d.silent.operation).2.silent := by
  cases d with
  | frame n f =>
    obtain ⟨hstate, hreply⟩ := silent_ingest s n n f
    exact ⟨hstate, congrArg (Reply.ingested {}) hreply⟩
  | beginFrame => exact ⟨rfl, rfl⟩
  | releaseFrame =>
    refine ⟨rfl, congrArg Reply.released ?_⟩
    rw [silent_frameCalls, List.map_map]
    rfl

theorem silent_deliver (ds : List Delivery) :
    (s.deliver ds).1.silent = (s.silent.deliver (ds.map Delivery.silent)).1 ∧
      (s.deliver ds).2.map Reply.silent =
        (s.silent.deliver (ds.map Delivery.silent)).2.map Reply.silent := by
  induction ds generalizing s with
  | nil => exact ⟨rfl, rfl⟩
  | cons d ds ih =>
    obtain ⟨hstate, hreply⟩ := silent_perform s d
    have hrest := ih (s.perform d.operation).1
    rw [hstate] at hrest
    exact ⟨hrest.1, congrArg₂ List.cons hreply hrest.2⟩

/-! ### Traces -/

section Traces

variable (names : FunctionTable) (ds : List Delivery)

/-- Accepted are the traces whose words are unfinished. -/
theorem all_accepted_iff : (({ functions := names } : CallStacks).deliver ds).2.all Reply.accepted ↔
    ∀ t, ∃ us, Unfinished (threadWord t ds) us := by
  have h := follows_deliver { functions := names } ds
  cases hr : (({ functions := names } : CallStacks).deliver ds).2.all Reply.accepted with
  | true =>
    rw [hr] at h
    exact iff_of_true rfl fun t => ⟨_, unfinished_of_scan (h t)⟩
  | false =>
    rw [hr] at h
    obtain ⟨t, ht⟩ := h
    exact iff_of_false Bool.false_ne_true fun hall => scan_eq_none_iff.1 ht (hall t)

variable {names ds}

theorem stack_of_accepted
    (hr : (({ functions := names } : CallStacks).deliver ds).2.all Reply.accepted) {t : Thread}
    {us : List CallEvent} (hus : Unfinished (threadWord t ds) us) :
    (((({ functions := names } : CallStacks).deliver ds).1.stack t).reverse.map
      CallRecord.entryEvent) = us := by
  have h := follows_deliver { functions := names } ds
  rw [hr] at h
  have hscan := (h t).symm.trans (scan_eq_some_iff.2 hus)
  rw [List.map_reverse]
  exact List.reverse_eq_iff.2 (Option.some.inj hscan)

theorem size_eq_zero_of_accepted
    (hr : (({ functions := names } : CallStacks).deliver ds).2.all Reply.accepted) :
    (({ functions := names } : CallStacks).deliver ds).1.size = 0 ↔
      ∀ t, Balanced (threadWord t ds) := by
  rw [size_eq_zero_iff]
  refine forall_congr' fun t => ?_
  obtain ⟨us, hus⟩ := (all_accepted_iff names ds).1 hr t
  rw [← Unfinished.nil_iff]
  constructor
  · intro hnil
    have hempty : [] = us := by simpa [hnil] using stack_of_accepted hr hus
    exact hempty ▸ hus
  · intro hbal
    simpa using stack_of_accepted hr hbal

end Traces

/-- A list of frames is accepted, with or without marks between them, just if every thread's calls
are unfinished, that is, begin a balanced word. Then each stack holds the thread's unmatched entries,
and no call is open just if all words are balanced. Messages change neither which frames are accepted
nor anything in the records but messages. -/
theorem deliver_accepted_iff (names : FunctionTable) (ds : List Delivery) :
    let start : CallStacks := { functions := names }
    let run := start.deliver ds
    let quiet := start.deliver (ds.map Delivery.silent)
    (run.2.all Reply.accepted ↔ ∀ t, ∃ us, Unfinished (threadWord t ds) us) ∧
      (run.2.all Reply.accepted ↔ ∀ t, ∃ rest, Balanced (threadWord t ds ++ rest)) ∧
      (run.2.all Reply.accepted →
        (∀ t us, Unfinished (threadWord t ds) us →
          (run.1.stack t).reverse.map CallRecord.entryEvent = us) ∧
        (run.1.size = 0 ↔ ∀ t, Balanced (threadWord t ds))) ∧
      run.1.silent = quiet.1 ∧ run.2.map Reply.silent = quiet.2.map Reply.silent := by
  intro start run quiet
  have hiff : run.2.all Reply.accepted ↔ ∀ t, ∃ us, Unfinished (threadWord t ds) us :=
    all_accepted_iff names ds
  refine ⟨hiff, ?_, fun hr => ⟨fun t us => stack_of_accepted hr, size_eq_zero_of_accepted hr⟩,
    silent_deliver start ds⟩
  simpa only [unfinished_iff_completable] using hiff

/-- A call that makes another one, which exchanges a message and is left in the next frame. -/
theorem deliver_accepted_across_frames :
    let t : Thread := ⟨0, 0, 0⟩
    let outer : CallEvent := ⟨t, .entry, 1, 10⟩
    let ds : List Delivery := [
      .frame {} { step := 0, calls := [outer, ⟨t, .entry, 2, 20⟩], messages := [⟨t, .send, 0, 1, 8, 25⟩] },
      .releaseFrame,
      .frame {} { step := 1, calls := [⟨t, .exit, 2, 30⟩] }]
    let run := ({} : CallStacks).deliver ds
    run.2.all Reply.accepted ∧ (run.1.stack t).reverse.map CallRecord.entryEvent = [outer] ∧
      run.1.size ≠ 0 := by
  intro t outer ds run
  have hword : Unfinished (threadWord t ds) [outer] :=
    .opened .empty rfl (.balanced (.call rfl rfl (by decide) .empty .empty))
  have hother : ∀ u, u ≠ t → threadWord u ds = [] := fun u hu => by
    simp [threadWord, threadCalls, ds, outer, Delivery.calls, hu.symm]
  obtain ⟨hiff, -, hstate, -⟩ := deliver_accepted_iff Keyed.empty ds
  have hacc : run.2.all Reply.accepted := hiff.2 fun u => by
    by_cases hu : u = t
    · exact ⟨_, hu ▸ hword⟩
    · exact ⟨[], hother u hu ▸ .balanced .empty⟩
  obtain ⟨hstack, hsize⟩ := hstate hacc
  refine ⟨hacc, hstack t _ hword, fun h => ?_⟩
  have := (hstack t _ hword).symm.trans (hstack t _ (.balanced (hsize.1 h t)))
  exact List.cons_ne_nil _ _ this

end CallStacks

end TraceAnomaly
