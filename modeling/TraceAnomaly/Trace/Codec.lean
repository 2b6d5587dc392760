import TraceAnomaly.Json.Codec
import TraceAnomaly.Trace.Event

/-! The JSON form of events, frames and function tables. -/
namespace TraceAnomaly

open Json (Codec Fields)
open Json.Codec (word text list table variant record)

def CallKind.label : CallKind → String
  | .entry => "ENTRY"
  | .exit => "EXIT"

def MessageKind.label : MessageKind → String
  | .send => "SEND"
  | .receive => "RECV"

def CallKind.codec : Codec CallKind := variant label [.entry, .exit]

def MessageKind.codec : Codec MessageKind := variant label [.send, .receive]

def Thread.codec : Codec Thread :=
  (record (.required "pid" word <| .required "rid" word <| .required "tid" word .nil)).as
    (fun t => (t.process, t.rank, t.number, ()))
    (fun (p, r, n, ()) => ⟨p, r, n⟩)

def CallEvent.codec : Codec CallEvent :=
  (record (.required "pid" word <| .required "rid" word <| .required "tid" word <|
      .required "kind" CallKind.codec <| .required "func_id" word <| .required "ts" word .nil)).as
    (fun e => (e.thread.process, e.thread.rank, e.thread.number, e.kind, e.function, e.time, ()))
    (fun (p, r, n, kind, function, time, ()) => ⟨⟨p, r, n⟩, kind, function, time⟩)

def MessageEvent.codec : Codec MessageEvent :=
  (record (.required "pid" word <| .required "rid" word <| .required "tid" word <|
      .required "kind" MessageKind.codec <| .required "tag" word <| .required "partner" word <|
      .required "bytes" word <| .required "ts" word .nil)).as
    (fun e => (e.thread.process, e.thread.rank, e.thread.number, e.kind, e.tag, e.partner, e.bytes,
      e.time, ()))
    (fun (p, r, n, kind, tag, partner, bytes, time, ()) =>
      ⟨⟨p, r, n⟩, kind, tag, partner, bytes, time⟩)

def Frame.codec : Codec Frame :=
  (record (.required "step" word <| .optional "call_events" (list CallEvent.codec) <|
      .optional "comm_events" (list MessageEvent.codec) .nil)).as
    (fun f => (f.step, some f.calls, some f.messages, ()))
    (fun (step, calls, messages, ()) => ⟨step, calls.getD [], messages.getD []⟩)

def FunctionTable.codec : Codec FunctionTable := table text

end TraceAnomaly
