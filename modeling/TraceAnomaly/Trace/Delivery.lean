import TraceAnomaly.Trace.Event

/-! The order in which the events of a frame are processed. Calls keep the order of delivery. Each
message goes in front of the first call event of its own thread that comes after it, and an exit at
the same instant comes after it too, so a message belongs to the call running at its time. Messages
behind the last call event of their thread form the tail, thread by thread. -/
namespace TraceAnomaly.Frame

/-- The messages of each thread by time, those of one instant in delivery order. -/
def byThread (ms : List MessageEvent) : Keyed Thread (List MessageEvent) :=
  (ms.foldr (fun m threads => threads.alter m.thread fun old => m :: old.getD []) Keyed.empty).mapValues
    (List.mergeSort · (·.time ≤ ·.time))

/-- Whether a message is processed in front of a call event of its thread that comes later. -/
def precedes (c : CallEvent) (m : MessageEvent) : Bool :=
  m.time < c.time || (m.time == c.time && c.kind == .exit)

/-- Merges waiting messages into call events. -/
def merge (waiting : Keyed Thread (List MessageEvent)) : List CallEvent → List Event
  | [] => waiting.values.flatten.map .message
  | c :: rest =>
    match waiting.get? c.thread with
    | none => .call c :: merge waiting rest
    | some ms =>
      (ms.takeWhile (precedes c)).map .message ++
        .call c :: merge (waiting.insert c.thread (ms.dropWhile (precedes c))) rest

/-- The events of a frame in processing order. -/
def ordered (f : Frame) : List Event := merge (byThread f.messages) f.calls

end TraceAnomaly.Frame
