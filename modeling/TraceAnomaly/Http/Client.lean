import TraceAnomaly.Http.Service
import TraceAnomaly.Store.Aggregator

/-! The store of a server behind its JSON messages. A client sends queries as requests and reads the
answers from the responses, over any transport. -/
namespace TraceAnomaly.Http

open Json (Codec)

/-- A way for requests to reach a state. There is no response when nobody answers. -/
abbrev Transport (σ : Type) := Request → σ → σ × Option Response

/-- The store of a server, reached without messages. -/
def Service.direct : Aggregator Service where
  call q s := ((s.ask q).1, .ok (s.ask q).2)

namespace Transport

/-- A network on which no request arrives. -/
def disconnected {σ : Type} : Transport σ := fun _ s => (s, none)

/-- A connection to a server, which answers as long as it has not been asked to stop. -/
def connected (seconds : Float) : Transport Service := fun r s =>
  if s.isCancelled then (s, none)
  else
    let (s, reply) := s.respond seconds r
    (s, some reply)

end Transport

structure Client where
  /-- The address of the server, without slashes at its end. -/
  endpoint : String

namespace Client

/-- A client of the server at an address. -/
def ofAddress (address : String) : Client :=
  ⟨String.ofList (address.toList.reverse.dropWhile (· = '/')).reverse⟩

/-- What follows host and port in the endpoint. -/
def basePath (c : Client) : String :=
  match (Text.dropText "http://".toList c.endpoint.toList).or
      (Text.dropText "https://".toList c.endpoint.toList) with
  | some rest => String.ofList (rest.dropWhile (· ≠ '/'))
  | none => ""

/-- A request to a path below the endpoint, with a document as body if there is one. -/
def request (c : Client) (path : String) (body : Option (List Char)) : Request where
  method := "POST"
  target := c.basePath ++ path
  contentType := body.map fun _ => "application/json"
  body := Text.encode (body.getD [])

/-- The body in which a query travels. -/
def body {ρ : Type} : Query Float ρ → Option (List Char)
  | .update id delta => some (StatBody.codec.write ⟨id, delta⟩)
  | .updateAll batch => some (statsCodec.write batch)
  | .addAbnormal id n => some (AbnormalBody.codec.write ⟨id, n⟩)
  | .addAbnormalAll counts => some (abnormalsCodec.write counts)
  | .value _ | .values | .clear => none

/-- The codec of the answer to a query. -/
def answerCodec {ρ : Type} : Query Float ρ → Codec ρ
  | .update id _ | .value id => StatBody.codec.as (⟨id, ·⟩) StatBody.stat
  | .updateAll _ => statsCodec
  | .values => snapshotCodec
  | .addAbnormal id _ => AbnormalBody.codec.as (⟨id, ·⟩) AbnormalBody.abnormal
  | .addAbnormalAll _ => abnormalsCodec
  | .clear => messageCodec.as (fun () => "") fun _ => ()

/-- The body of a response that is no refusal. -/
def received (path : String) : Option Response → Except CallCause (List Char)
  | none => .error (.unreachable path)
  | some r =>
    if r.status = .ok then .ok r.body
    else .error (.status r.status.code r.status.reason path)

/-- The answer to a query. -/
def answer {ρ : Type} (q : Query Float ρ) (r : Option Response) : Except CallCause ρ := do
  let text ← received q.path r
  match (answerCodec q).read text with
  | .ok a => .ok a
  | .error _ => .error (.undecodable q.path)

variable {σ : Type}

/-- The queries of a client over a transport. -/
def aggregator (c : Client) (send : Transport σ) : Aggregator σ where
  call q s :=
    let (s, r) := send (c.request q.path (body q)) s
    (s, (answer q r).mapError (⟨q.purpose, ·⟩))

/-- Asks the server to stop, and gives its reply. -/
def shutdown (c : Client) (send : Transport σ) (s : σ) : σ × Except CallCause String :=
  let (s, r) := send (c.request "/shutdown" none) s
  (s, (received "/shutdown" r).map String.ofList)

end Client

end TraceAnomaly.Http
