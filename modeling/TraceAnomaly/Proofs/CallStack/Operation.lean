import Mathlib.Algebra.GroupWithZero.Nat
import TraceAnomaly.CallStack.Ingest

/-! Everything that can be asked of the call stacks, as data. A history is a list of operations; its
answers are a list of replies. A property that the six basic operations keep is kept by every
history. -/

namespace TraceAnomaly

inductive Operation where
  | enter (event : CallEvent)
  | leave (event : CallEvent)
  | call (event : CallEvent)
  | attach (event : MessageEvent)
  | ingest (counts : EventCounts) (frame : Frame)
  | beginFrame
  | setLabels (function : UInt64) (labels : List Label)
  | releaseFrame
  | updateFunctions (names : FunctionTable)

inductive Reply where
  /-- The number of the call that was opened. -/
  | opened (id : UInt64)
  | left (outcome : Except Violation UInt64)
  | called (outcome : Except Violation Unit)
  | attached (found : Bool)
  | ingested (counts : EventCounts) (outcome : Except IngestError Unit)
  | released (calls : List CallRecord)
  | done

/-- An entry, an exit or a message. -/
def Operation.isEvent : Operation → Bool
  | .enter _ => true
  | .leave _ => true
  | .call _ => true
  | .attach _ => true
  | _ => false

/-- How many calls an event opens. -/
def Event.entries : Event → Nat
  | .call e => if e.kind = .entry then 1 else 0
  | .message _ => 0

/-- The events that have been applied, of events whose places count from `index`: all of them, or those in front of
the first violation. -/
def Event.applied (index : Nat) (es : List Event) : Except IngestError Unit → List Event
  | .ok () => es
  | .error e => es.take (e.index - index)

/-- How many calls an operation opened. -/
def Operation.entries : Operation → Reply → Nat
  | .enter _, _ => 1
  | .call e, _ => if e.kind = .entry then 1 else 0
  | .ingest _ f, .ingested _ outcome => ((Event.applied 0 f.ordered outcome).map Event.entries).sum
  | _, _ => 0

def Operation.allEntries : List Operation → List Reply → Nat
  | op :: ops, r :: rs => op.entries r + allEntries ops rs
  | _, _ => 0

namespace CallStacks

def perform (s : CallStacks) : Operation → CallStacks × Reply
  | .enter e => ((s.enter e).1, .opened (s.enter e).2)
  | .leave e => ((s.leave e).1, .left (s.leave e).2)
  | .call e => ((s.call e).1, .called (s.call e).2)
  | .attach e => ((s.attach e).1, .attached (s.attach e).2)
  | .ingest n f => ((s.ingest n f).1, .ingested (s.ingest n f).2.1 (s.ingest n f).2.2)
  | .beginFrame => (s.beginFrame, .done)
  | .setLabels f ls => (s.setLabels f ls, .done)
  | .releaseFrame => (s.releaseFrame, .released s.frameCalls)
  | .updateFunctions names => (s.updateFunctions names, .done)

def performAll (s : CallStacks) : List Operation → CallStacks × List Reply
  | [] => (s, [])
  | op :: ops =>
    let rest := (s.perform op).1.performAll ops
    (rest.1, (s.perform op).2 :: rest.2)

@[simp] theorem performAll_cons (s : CallStacks) (op : Operation) (ops : List Operation) :
    s.performAll (op :: ops) = (((s.perform op).1.performAll ops).1,
      (s.perform op).2 :: ((s.perform op).1.performAll ops).2) := rfl

theorem performAll_append (s : CallStacks) (ops later : List Operation) :
    s.performAll (ops ++ later) = (((s.performAll ops).1.performAll later).1,
      (s.performAll ops).2 ++ ((s.performAll ops).1.performAll later).2) := by
  induction ops generalizing s with
  | nil => rfl
  | cons op ops ih => simp [ih]

/-- What remains true of the call stacks under every basic operation. -/
structure Kept (P : CallStacks → Prop) : Prop where
  enter : ∀ s e, P s → P (s.enter e).1
  leave : ∀ s e, P s → P (s.leave e).1
  attach : ∀ s e, P s → P (s.attach e).1
  setLabels : ∀ s f ls, P s → P (s.setLabels f ls)
  releaseFrame : ∀ s, P s → P s.releaseFrame
  updateFunctions : ∀ s names, P s → P (s.updateFunctions names)

namespace Kept

variable {P : CallStacks → Prop} (h : Kept P) {s : CallStacks}
include h

theorem call (e : CallEvent) (hs : P s) : P (s.call e).1 := by
  unfold CallStacks.call
  split
  · exact h.enter s e hs
  · exact h.leave s e hs

theorem apply (e : Event) (hs : P s) : P (s.apply e).1 := by
  cases e with
  | call e => exact h.call e hs
  | message e => exact h.attach s e hs

theorem applyAll (n : EventCounts) (i : Nat) (es : List Event) (hs : P s) :
    P (s.applyAll n i es).1 := by
  induction es generalizing s n i with
  | nil => exact hs
  | cons e rest ih =>
    have he := h.apply e hs
    simp only [CallStacks.applyAll]
    split <;> rename_i heq <;> rw [heq] at he
    · exact he
    · exact ih _ _ he

theorem ingest (n : EventCounts) (f : Frame) (hs : P s) : P (s.ingest n f).1 :=
  h.applyAll n 0 f.ordered hs

theorem perform (op : Operation) (hs : P s) : P (s.perform op).1 := by
  cases op with
  | enter e => exact h.enter s e hs
  | leave e => exact h.leave s e hs
  | call e => exact h.call e hs
  | attach e => exact h.attach s e hs
  | ingest n f => exact h.ingest n f hs
  | beginFrame => exact h.releaseFrame s hs
  | setLabels f ls => exact h.setLabels s f ls hs
  | releaseFrame => exact h.releaseFrame s hs
  | updateFunctions names => exact h.updateFunctions s names hs

theorem performAll (ops : List Operation) (hs : P s) : P (s.performAll ops).1 := by
  induction ops generalizing s with
  | nil => exact hs
  | cons op ops ih => exact ih (h.perform op hs)

end Kept

end CallStacks

end TraceAnomaly
