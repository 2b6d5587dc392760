import TraceAnomaly.Rank.Basic
import TraceAnomaly.Rank.Sink
import TraceAnomaly.Trace.Source

/-! A whole run: frames are read, processed and reported one after another, until the source ends,
the rank halts, or reading or writing fails. -/
namespace TraceAnomaly

/-- Why a run ended early. -/
inductive RunError where
  | reading (cause : ReadError)
  | writing (step : UInt64) (sink : String) (cause : WritePart)
deriving DecidableEq, Repr

/-- What a run was doing when it failed. -/
def RunError.message : RunError → String
  | .reading _ => "reading next frame"
  | .writing step sink _ => s!"writing frame {step} to {sink}"

/-- The causes of a failed run, outermost first. -/
def RunError.contexts (e : RunError) : List String :=
  match e with
  | .reading cause => [e.message, cause.message]
  | .writing _ _ cause => [e.message, cause.message]

/-- The states of all parties of a run. -/
structure Run (σ ω : Type) (α : Type := Float) where
  rank : Rank α
  shared : σ
  output : ω
  /-- What has not been read. -/
  items : List (Except ReadError Frame)

namespace Run

variable {α σ ω : Type} [Scalar α]

/-- Processes the items of a source. -/
def drain (a : Option (Aggregator σ α)) (sink : Sink ω) (rank : Rank α) (shared : σ) (output : ω) :
    List (Except ReadError Frame) → Run σ ω α × Except RunError Unit
  | [] => (⟨rank, shared, output, []⟩, .ok ())
  | .error e :: rest => (⟨rank, shared, output, rest⟩, .error (.reading e))
  | .ok f :: rest =>
    match rank.process a shared f with
    | (rank, shared, .completed report) =>
      match sink.write report output with
      | (output, .ok ()) => drain a sink rank shared output rest
      | (output, .error part) =>
        (⟨rank, shared, output, rest⟩, .error (.writing report.step sink.name part))
    | (rank, shared, .empty _) => drain a sink rank shared output rest
    | (rank, shared, _) => (⟨rank, shared, output, rest⟩, .ok ())

end Run

namespace Rank

variable {α σ ω : Type} [Scalar α]

/-- Takes the function names of a source and processes its frames. -/
def run (r : Rank α) (a : Option (Aggregator σ α)) (shared : σ) (source : Source) (sink : Sink ω)
    (output : ω) : Run σ ω α × Except RunError Summary :=
  let r := { r with calls := r.calls.updateFunctions source.functions }
  let (final, outcome) := Run.drain a sink r shared output source.items
  (final, outcome.map fun _ => final.rank.summary)

end Rank

end TraceAnomaly
