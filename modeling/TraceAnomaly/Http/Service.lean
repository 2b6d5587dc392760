import TraceAnomaly.Http.Body
import TraceAnomaly.Http.ContentType
import TraceAnomaly.Http.Metrics
import TraceAnomaly.Http.Route
import TraceAnomaly.Store.Dump

/-! The server of the shared statistics. It answers one request at a time: reads what a body says,
puts the query to its store and writes the answer down. A request that is refused changes nothing
but the count of refusals. -/
namespace TraceAnomaly.Http

open Json (Codec Fault)

structure Service where
  store : Store Float := Store.empty
  metrics : Metrics := {}
  /-- Where dumps go. -/
  dumpPath : Option String := none
  files : Files := {}
  /-- Whether somebody has asked the server to stop. -/
  isCancelled : Bool := false

/-- The largest body that is read, in bytes. -/
def bodyLimit : Nat := 2 * 1024 * 1024

/-- What a request says in its body, or the response that refuses it. -/
def readBody {α : Type} (c : Codec α) (r : Request) : Except Response α :=
  if !(r.contentType.any isJson) then
    .error (.text .unsupportedMediaType "Expected request with `Content-Type: application/json`")
  else if bodyLimit < r.body.length then
    .error (.text .payloadTooLarge "Failed to buffer the request body")
  else
    match c.readStart r.body with
    | .ok a => .ok a
    | .error .malformed => .error (.text .badRequest "Failed to parse the request body as JSON")
    | .error .mismatched =>
      .error (.text .unprocessableContent
        "Failed to deserialize the JSON body into the target type")

namespace Service

def record (s : Service) (route : Route) (outcome : Outcome) : Service :=
  { s with metrics := s.metrics.record route.name outcome }

/-- Refuses a request. -/
def refuse (s : Service) (route : Route) (reply : Response) : Service × Response :=
  (s.record route .error, reply)

/-- Puts a query to the store. -/
def ask {ρ : Type} (s : Service) (q : Query Float ρ) : Service × ρ :=
  ({ s with store := (s.store.answer q).1 }, (s.store.answer q).2)

/-- Counts a merge that took the given time. -/
def recordMerge (s : Service) (route : Route) (seconds : Float) : Service :=
  { s with metrics := s.metrics.recordMerge route.name seconds s.store.size }

/-- Answers a request whose body holds what is to be merged into the store. -/
def merge {α ρ : Type} (s : Service) (route : Route) (seconds : Float) (r : Request)
    (c : Codec α) (query : α → Query Float ρ) (reply : α → ρ → List Char) : Service × Response :=
  match readBody c r with
  | .error refusal => s.refuse route refusal
  | .ok a =>
    let (s, result) := s.ask (query a)
    (s.recordMerge route seconds, .json (reply a result))

/-- Answers a request whose body holds statistics of several functions. -/
def mergeBatch (s : Service) (seconds : Float) (r : Request) : Service × Response :=
  match readBody statsCodec r with
  | .error refusal => s.refuse .updateAll refusal
  | .ok batch =>
    let (s, stats) := s.ask (.updateAll batch)
    let s := { s with metrics := s.metrics.recordBatch batch.size }
    (s.recordMerge .updateAll seconds, .json (statsCodec.write stats))

/-- Writes a dump to the configured path. -/
def writeDump (s : Service) : Service × Response :=
  match s.dumpPath with
  | none => s.refuse .dump (.text .badRequest "no dump path configured")
  | some path =>
    match s.store.dump path s.files with
    | .error e => s.refuse .dump (.text .serverError e.message)
    | .ok files =>
      ({ s.record .dump .ok with files := files },
        .json (DumpBody.codec.write ⟨path, UInt64.ofNat s.store.rows.length⟩))

/-- Answers a request at a route that takes its method. A merge takes the given time. -/
def handle (s : Service) (seconds : Float) (r : Request) (route : Route) : Service × Response :=
  match route with
  | .update =>
    s.merge route seconds r StatBody.codec (fun b => .update b.id b.stat) fun b stat =>
      StatBody.codec.write ⟨b.id, stat⟩
  | .updateAll => s.mergeBatch seconds r
  | .value id =>
    match pathId id with
    | none => s.refuse route (.text .badRequest "Invalid URL")
    | some id =>
      let (s, stat) := s.ask (.value id)
      (s.record route .ok, .json (StatBody.codec.write ⟨id, stat⟩))
  | .values =>
    let (s, stats) := s.ask .values
    (s.record route .ok, .json (snapshotCodec.write stats))
  | .addAbnormal =>
    s.merge route seconds r AbnormalBody.codec (fun b => .addAbnormal b.id b.abnormal) fun b n =>
      AbnormalBody.codec.write ⟨b.id, n⟩
  | .addAbnormalAll =>
    s.merge route seconds r abnormalsCodec .addAbnormalAll fun _ => abnormalsCodec.write
  | .clear =>
    let (s, ()) := s.ask .clear
    (s.record route .ok, .json (messageCodec.write "parameter server cleared"))
  | .dump => s.writeDump
  | .shutdown =>
    ({ s.record route .ok with isCancelled := true },
      .text .ok "parameter server shutting down")
  | .metrics => (s, .text .ok s.metrics.text)
  | .health => (s, .text .ok "ok")

/-- The response without its body, if the method asks for that. -/
def withoutBody (method : String) (r : Response) : Response :=
  if method = "HEAD" then { r with body := [] } else r

/-- Answers a request. -/
def respond (s : Service) (seconds : Float) (r : Request) : Service × Response :=
  match Route.ofTarget r.target with
  | none => (s, .bare .notFound)
  | some route =>
    if route.accepts r.method then
      let (s, reply) := s.handle seconds r route
      (s, withoutBody r.method reply)
    else (s, .bare .methodNotAllowed)

/-- Answers requests in order, until one of them asks the server to stop. -/
def respondAll (s : Service) (seconds : Float) : List Request → Service × List Response
  | [] => (s, [])
  | r :: rest =>
    if s.isCancelled then (s, [])
    else
      let (s, reply) := s.respond seconds r
      let (s, replies) := respondAll s seconds rest
      (s, reply :: replies)

/-- Asks the server to stop. -/
def cancel (s : Service) : Service := { s with isCancelled := true }

end Service

end TraceAnomaly.Http
