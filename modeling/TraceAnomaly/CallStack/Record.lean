import TraceAnomaly.Outlier.Label
import TraceAnomaly.Trace.Codec

/-! Records of single function calls, with their place in the call tree and the messages that were
exchanged while they ran. -/
namespace TraceAnomaly

open Json (Codec Fields)
open Json.Codec (word text list nullable record)

/-- A message of a call, by sending and receiving rank. -/
structure Message where
  kind : MessageKind
  source : UInt64
  target : UInt64
  tag : UInt64
  bytes : UInt64
  time : UInt64
deriving DecidableEq, Repr

namespace Message

/-- A sent message goes from the thread's rank to the partner, a received one the other way. -/
def ofEvent (e : MessageEvent) : Message :=
  match e.kind with
  | .send => ⟨.send, e.thread.rank, e.partner, e.tag, e.bytes, e.time⟩
  | .receive => ⟨.receive, e.partner, e.thread.rank, e.tag, e.bytes, e.time⟩

def codec : Codec Message :=
  (record (.required "kind" MessageKind.codec <| .required "src" word <| .required "dst" word <|
      .required "tag" word <| .required "bytes" word <| .required "ts" word .nil)).as
    (fun m => (m.kind, m.source, m.target, m.tag, m.bytes, m.time, ()))
    (fun (kind, source, target, tag, bytes, time, ()) => ⟨kind, source, target, tag, bytes, time⟩)

end Message

/-- One call of a function. It is open while it has no exit. -/
structure CallRecord where
  id : UInt64
  name : String
  thread : Thread
  function : UInt64
  entry : UInt64
  exit : Option UInt64
  runtime : Option UInt64
  label : Label
  parent : Option UInt64
  /-- The calls made from this one, in opening order. -/
  children : List UInt64
  messages : List Message
deriving DecidableEq, Repr

namespace CallRecord

/-- A call that has just been entered. -/
def opened (id : UInt64) (name : String) (e : CallEvent) (parent : Option UInt64) : CallRecord where
  id := id
  name := name
  thread := e.thread
  function := e.function
  entry := e.time
  exit := none
  runtime := none
  label := .normal
  parent := parent
  children := []
  messages := []

/-- Records the exit of a call that was entered no later. -/
def close (r : CallRecord) (exit : UInt64) : CallRecord :=
  { r with exit := some exit, runtime := some (exit - r.entry) }

def addChild (r : CallRecord) (id : UInt64) : CallRecord := { r with children := r.children ++ [id] }

def addMessage (r : CallRecord) (m : Message) : CallRecord :=
  { r with messages := r.messages ++ [m] }

def isOpen (r : CallRecord) : Bool := r.exit.isNone

def isAnomalous (r : CallRecord) : Bool := r.label = .anomalous

/-- Entry and runtime of a completed call. -/
def sample? {α : Type} [Scalar α] (r : CallRecord) : Option (Sample α) :=
  r.runtime.map fun t => ⟨Scalar.ofNat r.entry.toNat, Scalar.ofNat t.toNat⟩

/-- How a record is called in messages. -/
def idText (id : UInt64) : String := s!"exec#{id}"

def codec : Codec CallRecord :=
  (record (.required "id" word <| .required "func_name" text <| .required "pid" word <|
      .required "rid" word <| .required "tid" word <| .required "func_id" word <|
      .required "entry" word <| .optional "exit" (nullable word) <|
      .optional "runtime" (nullable word) <| .required "label" Label.codec <|
      .optional "parent" (nullable word) <| .required "children" (list word) <|
      .required "messages" (list Message.codec) .nil)).as
    (fun r => (r.id, r.name, r.thread.process, r.thread.rank, r.thread.number, r.function, r.entry,
      some r.exit, some r.runtime, r.label, some r.parent, r.children, r.messages, ()))
    (fun (id, name, p, k, n, function, entry, exit, runtime, label, parent, children, messages, ()) =>
      ⟨id, name, ⟨p, k, n⟩, function, entry, exit.join, runtime.join, label, parent.join, children,
        messages⟩)

end CallRecord

end TraceAnomaly
