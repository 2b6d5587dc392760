import TraceAnomaly.Keyed
import TraceAnomaly.Text.Lines

/-! A tree of directories and files, with paths written as texts. Paths are taken step by step from
the working directory, or from the root when they start with a slash, and every step but the last
must reach a directory. -/
namespace TraceAnomaly

/-- A node of the tree by the names that lead to it from the root. -/
abbrev Place := List String

inductive Entry where
  | directory
  | file (content : List UInt8)
deriving DecidableEq

/-- The entries below the root. -/
structure Files where
  entries : Keyed Place Entry := Keyed.empty
  /-- Where relative paths start. -/
  working : Place := []

namespace Files

/-- The names in a path. Empty ones come from slashes at its ends or next to each other. -/
def names (path : String) : List String :=
  if path.isEmpty then [] else (path.toList.splitOn '/').map String.ofList

/-- The place that a path starts from. -/
def origin (fs : Files) (path : String) : Place :=
  if path.toList.head? = some '/' then [] else fs.working

/-- Whether an entry can have this name. -/
def isName (name : String) : Bool := name.utf8ByteSize ≤ 255 && !name.toList.contains '\x00'

def isDirectory (fs : Files) (place : Place) : Bool :=
  place.isEmpty || fs.entries.get? place == some .directory

/-- The place that names lead to. The last name need not be there yet. -/
def walk (fs : Files) (place : Place) : List String → Option Place
  | [] => some place
  | name :: rest =>
    if !fs.isDirectory place then none
    else if name = "" ∨ name = "." then walk fs place rest
    else if name = ".." then walk fs place.dropLast rest
    else if isName name then walk fs (place ++ [name]) rest
    else none

/-- The place of a path, unless it is empty. -/
def locate (fs : Files) (path : String) : Option Place :=
  if path.isEmpty then none else fs.walk (fs.origin path) (names path)

/-- Whether a path leads to a directory. -/
def hasDirectory (fs : Files) (path : String) : Bool := (fs.locate path).any fs.isDirectory

/-- The content of a file. -/
def read (fs : Files) (path : String) : Option (List UInt8) :=
  match (fs.locate path).bind fs.entries.get? with
  | some (.file content) => some content
  | _ => none

/-- Creates a file or replaces its content. -/
def write (fs : Files) (path : String) (content : List UInt8) : Option Files :=
  match fs.locate path with
  | none => none
  | some place =>
    if fs.isDirectory place then none
    else some { fs with entries := fs.entries.insert place (.file content) }

/-- Creates the directories that names lead through, as far as they are missing. -/
def createFrom (fs : Files) (place : Place) : List String → Option Files
  | [] => some fs
  | name :: rest =>
    if name = "" ∨ name = "." then createFrom fs place rest
    else if name = ".." then createFrom fs place.dropLast rest
    else
      let next := place ++ [name]
      match fs.entries.get? next with
      | some .directory => createFrom fs next rest
      | some (.file _) => none
      | none =>
        if isName name then
          createFrom { fs with entries := fs.entries.insert next .directory } next rest
        else none

/-- Creates a directory and the directories above it, as far as they are missing. -/
def createDirectories (fs : Files) (path : String) : Option Files :=
  fs.createFrom (fs.origin path) (names path)

/-- Drops slashes and names that stay in place from the end of a path, read backwards. -/
def dropIdle : List Char → List Char
  | '.' :: '/' :: rest => dropIdle ('/' :: rest)
  | '/' :: c :: rest => dropIdle (c :: rest)
  | cs => cs

/-- The directory part of a path as it is written. It is empty for a single name, and the root and
the empty path have none. -/
def parent (path : String) : Option String :=
  match dropIdle path.toList.reverse with
  | [] => none
  | ['/'] => none
  | cs => some (String.ofList (dropIdle (cs.dropWhile (· ≠ '/'))).reverse)

end Files

end TraceAnomaly
