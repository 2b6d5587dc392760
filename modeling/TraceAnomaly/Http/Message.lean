import TraceAnomaly.Text.Lines

/-! Requests and responses, as far as the server of the shared statistics looks at them. -/
namespace TraceAnomaly.Http

structure Request where
  method : String
  /-- The path with everything behind it, as it was sent. -/
  target : String
  /-- The header of this name, if it is there and text. -/
  contentType : Option String := none
  body : List UInt8 := []
deriving DecidableEq, Repr

inductive Status where
  | ok
  | badRequest
  | notFound
  | methodNotAllowed
  | payloadTooLarge
  | unsupportedMediaType
  | unprocessableContent
  | serverError
deriving DecidableEq, Repr

namespace Status

def code : Status → Nat
  | ok => 200
  | badRequest => 400
  | notFound => 404
  | methodNotAllowed => 405
  | payloadTooLarge => 413
  | unsupportedMediaType => 415
  | unprocessableContent => 422
  | serverError => 500

def reason : Status → String
  | ok => "OK"
  | badRequest => "Bad Request"
  | notFound => "Not Found"
  | methodNotAllowed => "Method Not Allowed"
  | payloadTooLarge => "Payload Too Large"
  | unsupportedMediaType => "Unsupported Media Type"
  | unprocessableContent => "Unprocessable Entity"
  | serverError => "Internal Server Error"

end Status

/-- Whether a response carries plain text or a JSON document. -/
inductive MediaType where
  | text
  | json
deriving DecidableEq, Repr

structure Response where
  status : Status
  mediaType : MediaType
  body : List Char
deriving DecidableEq, Repr

namespace Response

def text (status : Status) (body : String) : Response := ⟨status, .text, body.toList⟩

/-- A response without content. -/
def bare (status : Status) : Response := text status ""

/-- A successful answer with a document. -/
def json (body : List Char) : Response := ⟨.ok, .json, body⟩

end Response

end TraceAnomaly.Http
