import Std.Time.DateTime
import TraceAnomaly.CommandLine.Program

/-! The program on a real machine: it takes the files from the disk and puts the changed ones back.
There is no network, so that clients find nobody and a server ends when the standard input does. -/

open TraceAnomaly

namespace TraceAnomaly.CommandLine

/-- Adds what the disk holds at a path, and the directory around it. -/
def adopt (fs : Files) (path : String) : IO Files := do
  let place := (← IO.currentDir) / path
  let withParent (fs : Files) : IO Files := do
    match Files.parent path with
    | none | some "" => pure fs
    | some directory =>
      if ← ((← IO.currentDir) / directory).isDir then
        pure ((fs.createDirectories directory).getD fs)
      else pure fs
  if ← place.isDir then pure ((fs.createDirectories path).getD fs)
  else
    let fs ← withParent fs
    if ← place.pathExists then
      pure ((fs.write path (← IO.FS.readBinFile place).toList).getD fs)
    else pure fs

/-- The paths that an invocation names. -/
def Invocation.paths (i : Invocation) : List String :=
  i.configPath.toList ++
    match i.command with
    | .analyze a => a.input :: a.output.toList
    | _ => []

/-- The paths that a run writes to. -/
def outputPaths (fs : Files) (arguments : List String) : List String :=
  match Task.ofArguments fs arguments with
  | .ok (.analyze _ a) => a.output.toList
  | .ok (.serve c) => c.server.dumpPath.toList
  | _ => []

/-- Writes a file to the disk if a run has changed it. -/
def putBack (old new : Files) (path : String) : IO Unit := do
  match new.read path with
  | none => pure ()
  | some content =>
    if old.read path ≠ some content then
      match Files.parent path with
      | none | some "" => pure ()
      | some directory => IO.FS.createDirAll directory
      IO.FS.writeBinFile path ⟨content.toArray⟩

/-- A time as it is written in reports, to the thousandth of a second. -/
def timestampText (t : Std.Time.PlainDateTime) : String :=
  let digits (width n : Nat) := String.ofList (Decimal.padded width n)
  let year := digits 4 (t.date.year : Int).toNat
  let month := digits 2 t.date.month.val.toNat
  let day := digits 2 t.date.day.val.toNat
  let hour := digits 2 t.time.hour.val.toNat
  let minute := digits 2 t.time.minute.val.toNat
  let second := digits 2 t.time.second.val.toNat
  let thousandths := digits 3 (t.time.nanosecond.val.toNat / 1000000)
  s!"{year}-{month}-{day}T{hour}:{minute}:{second}.{thousandths}Z"

/-- The time of writing, in universal time. -/
def now : IO String := do
  pure (timestampText (.ofWallTime ((← Std.Time.Timestamp.now).toWallTime .zero)))

end TraceAnomaly.CommandLine

open CommandLine in
def main (arguments : List String) : IO UInt32 := do
  let paths :=
    match Invocation.ofArguments arguments with
    | .ok i => i.paths
    | .error _ => []
  let files ← paths.foldlM adopt {}
  if let .ok (.serve _) := Task.ofArguments files arguments then
    let _ ← (← IO.getStdin).readToEnd
  let outcome := run arguments
    { files := files, shared := (), send := .disconnected, timestamp := ← now }
  IO.print (String.ofList outcome.output)
  for path in outputPaths files arguments do
    putBack files outcome.files path
  if let .failed why := outcome.ending then
    IO.eprintln s!"Error: {why.message}"
  pure outcome.ending.code.toUInt32
