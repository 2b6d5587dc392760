import TraceAnomaly.Files
import TraceAnomaly.Store.Basic

/-! The dump of a store: a JSON document with a row of numbers for every function. -/
namespace TraceAnomaly

open Json (Codec)

namespace PowerSums

/-- The numbers that a dump shows: mean, deviation and the power sums. -/
def row (s : PowerSums Float) : List Float :=
  [s.mean, s.deviation, s.weight, s.sum, s.squares]

end PowerSums

/-- Why a dump could not be written. -/
inductive DumpError where
  /-- The directory could not be created. -/
  | directory (path : String)
  /-- The file could not be written. -/
  | file (path : String)
deriving DecidableEq, Repr

def DumpError.message : DumpError → String
  | .directory path => s!"creating directory {path}"
  | .file path => s!"writing {path}"

namespace Store

/-- The rows under their functions' decimal numbers, in the order of these texts. -/
def rows (s : Store Float) : List (String × List Float) :=
  (s.toList.map fun (id, v) => (toString id, v.row)).mergeSort (·.1 ≤ ·.1)

/-- The rows as a document; a number that is not finite is `null`. -/
def document (s : Store Float) : Json :=
  .object (s.rows.map fun (key, row) => (key.toList, (Codec.list Codec.real).encode row))

def dumpText (s : Store Float) : List Char := s.document.indented 0

/-- Writes the dump to a path, whose directory is created if need be. -/
def dump (s : Store Float) (path : String) (fs : Files) : Except DumpError Files := do
  let fs ←
    match Files.parent path with
    | none | some "" => .ok fs
    | some directory =>
      match fs.createDirectories directory with
      | some fs => .ok fs
      | none => .error (.directory directory)
  match fs.write path (Text.encode s.dumpText) with
  | some fs => .ok fs
  | none => .error (.file path)

end Store

end TraceAnomaly
