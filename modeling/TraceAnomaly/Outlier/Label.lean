import TraceAnomaly.Scalar
import TraceAnomaly.Json.Codec

/-! Samples and their labels. -/
namespace TraceAnomaly

/-- What a classifier sees of a completed call. -/
structure Sample (α : Type) where
  entry : α
  runtime : α
deriving DecidableEq, Repr

/-- The classification of one call, with the codes 1 and -1. -/
inductive Label where
  | normal
  | anomalous
deriving DecidableEq, Repr, Inhabited

namespace Label

def code : Label → Int
  | normal => 1
  | anomalous => -1

def ofCode? (n : Int) : Option Label := [normal, anomalous].find? (code · = n)

/-- The complaint about a number that is no label. -/
def invalidMessage (n : Int) : String := s!"invalid label {n}, expected 1 or -1"

def codec : Json.Codec Label := .code code [normal, anomalous]

/-- The number of anomalies among labels. -/
def anomalies (labels : List Label) : Nat := labels.count anomalous

end Label

end TraceAnomaly
