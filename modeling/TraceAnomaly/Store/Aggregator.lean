import TraceAnomaly.Store.Basic

/-! How a rank reaches the shared statistics. An aggregator carries queries to whatever state is
behind it, and every call may fail. -/
namespace TraceAnomaly

/-- What went wrong between a query and its reply. -/
inductive CallCause where
  /-- Nobody answered. -/
  | unreachable (path : String)
  /-- The answer was a refusal. -/
  | status (code : Nat) (reason path : String)
  /-- The answer was no reply of the expected form. -/
  | undecodable (path : String)
deriving DecidableEq, Repr

def CallCause.message : CallCause → String
  | .unreachable path => s!"requesting {path}"
  | .status code reason path => s!"unexpected status {code} {reason} from {path}"
  | .undecodable path => s!"decoding response from {path}"

/-- A call that failed, with what it was to do. -/
structure CallError where
  purpose : String
  cause : CallCause
deriving DecidableEq, Repr

def CallError.message (e : CallError) : String := s!"{e.purpose}: {e.cause.message}"

/-- What a query is for. -/
def Query.purpose {α ρ : Type} : Query α ρ → String
  | .update id _ => s!"updating function {id}"
  | .updateAll _ => "updating statistics"
  | .value id => s!"fetching function {id}"
  | .values => "fetching statistics"
  | .addAbnormal id _ => s!"adding abnormal count for function {id}"
  | .addAbnormalAll _ => "adding abnormal counts"
  | .clear => "clearing parameter server"

/-- Where a query goes on a server. -/
def Query.path {α ρ : Type} : Query α ρ → String
  | .update _ _ => "/update"
  | .updateAll _ => "/update_all"
  | .value id => s!"/stat/{id}"
  | .values => "/stat"
  | .addAbnormal _ _ => "/add_abnormal"
  | .addAbnormalAll _ => "/add_abnormal_all"
  | .clear => "/clear"

/-- A way to have queries answered by a state. -/
structure Aggregator (σ : Type) (α : Type := Float) where
  call : {ρ : Type} → Query α ρ → σ → σ × Except CallError ρ

namespace Aggregator

variable {α : Type}

/-- The store itself. Never fails. -/
def inProcess [Scalar α] : Aggregator (Store α) α where
  call r s := ((s.answer r).1, .ok (s.answer r).2)

/-- Nobody answers. -/
def unreachable {σ : Type} : Aggregator σ α where
  call r s := (s, .error ⟨r.purpose, .unreachable r.path⟩)

end Aggregator

end TraceAnomaly
