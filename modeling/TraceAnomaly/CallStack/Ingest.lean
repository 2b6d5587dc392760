import TraceAnomaly.CallStack.Engine
import TraceAnomaly.Trace.Delivery

/-! Applying whole frames to the call stacks, with a count of what happened. -/
namespace TraceAnomaly

/-- What can happen to an event. -/
inductive EventClass where
  | entry
  | exit
  | send
  | receive
  /-- A message on a thread without an open call. -/
  | orphan
  | violation
deriving DecidableEq, Repr

namespace EventClass

def all : List EventClass := [entry, exit, send, receive, orphan, violation]

def name : EventClass → String
  | entry => "entry"
  | exit => "exit"
  | send => "send"
  | receive => "recv"
  | orphan => "orphan_comm"
  | violation => "violation"

end EventClass

/-- How many events of each class there were. -/
structure EventCounts where
  entry : UInt64 := 0
  exit : UInt64 := 0
  send : UInt64 := 0
  receive : UInt64 := 0
  orphan : UInt64 := 0
  violation : UInt64 := 0
deriving DecidableEq, Repr

namespace EventCounts

def count (n : EventCounts) : EventClass → UInt64
  | .entry => n.entry
  | .exit => n.exit
  | .send => n.send
  | .receive => n.receive
  | .orphan => n.orphan
  | .violation => n.violation

def record (n : EventCounts) : EventClass → EventCounts
  | .entry => { n with entry := n.entry + 1 }
  | .exit => { n with exit := n.exit + 1 }
  | .send => { n with send := n.send + 1 }
  | .receive => { n with receive := n.receive + 1 }
  | .orphan => { n with orphan := n.orphan + 1 }
  | .violation => { n with violation := n.violation + 1 }

/-- The classes that occurred, with their counts. -/
def nonzero (n : EventCounts) : List (EventClass × UInt64) :=
  (EventClass.all.map fun c => (c, n.count c)).filter (·.2 ≠ 0)

def total (n : EventCounts) : UInt64 := (EventClass.all.map n.count).foldl (· + ·) 0

end EventCounts

/-- The first violation in a frame, with the place of its event in processing order. -/
structure IngestError where
  index : Nat
  violation : Violation
deriving DecidableEq, Repr

def IngestError.message (e : IngestError) : String :=
  s!"call-stack violation at event {e.index}: {e.violation.message}"

namespace CallStacks

/-- Applies one event and tells what happened. -/
def apply (s : CallStacks) : Event → CallStacks × Except Violation EventClass
  | .call e =>
    let (s, outcome) := s.call e
    (s, outcome.map fun _ => if e.kind = .entry then .entry else .exit)
  | .message e =>
    let (s, attached) := s.attach e
    (s, .ok (if attached then (if e.kind = .send then .send else .receive) else .orphan))

/-- Applies events up to the first violation; `index` is the place of the first event. -/
def applyAll (s : CallStacks) (n : EventCounts) (index : Nat) :
    List Event → CallStacks × EventCounts × Except IngestError Unit
  | [] => (s, n, .ok ())
  | e :: rest =>
    match s.apply e with
    | (s, .error v) => (s, n.record .violation, .error ⟨index, v⟩)
    | (s, .ok c) => applyAll s (n.record c) (index + 1) rest

/-- Applies the events of a frame in processing order, up to the first violation. -/
def ingest (s : CallStacks) (n : EventCounts) (f : Frame) :
    CallStacks × EventCounts × Except IngestError Unit :=
  s.applyAll n 0 f.ordered

end CallStacks

end TraceAnomaly
