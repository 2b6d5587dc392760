import TraceAnomaly.Config.Basic
import TraceAnomaly.Files
import TraceAnomaly.Yaml.Record

/-! Settings as they are written in a file. Every field may be missing. -/
namespace TraceAnomaly

open Yaml (Node)
open Yaml.Node (fields? field)

def LofConfig.ofNode? (n : Node) : Option LofConfig := do
  let d : LofConfig := {}
  let fs ← n.fields? ["n_neighbors", "leaf_size", "metric", "contamination"]
  some
    { neighbours := ← field fs "n_neighbors" Node.word? d.neighbours
      leafSize := ← field fs "leaf_size" Node.word? d.leafSize
      metric := ← field fs "metric" (Node.variant? Metric.name Metric.all) d.metric
      contamination := ← field fs "contamination" Node.real? d.contamination }

def DetectorConfig.ofNode? (n : Node) : Option DetectorConfig := do
  let d : DetectorConfig := {}
  let fs ← n.fields? ["algorithm", "sigma", "min_samples", "local_scope", "pull_global",
    "on_push_failure", "max_depth_of_interest", "lof"]
  some
    { algorithm := ← field fs "algorithm" (Node.variant? Algorithm.name Algorithm.all) d.algorithm
      sigma := ← field fs "sigma" Node.real? d.sigma
      minSamples := ← field fs "min_samples" Node.word? d.minSamples
      localScope :=
        ← field fs "local_scope" (Node.variant? LocalScope.name LocalScope.all) d.localScope
      pullGlobal := ← field fs "pull_global" Node.bool? d.pullGlobal
      onPushFailure :=
        ← field fs "on_push_failure" (Node.variant? FailurePolicy.name FailurePolicy.all)
          d.onPushFailure
      interestDepth := ← field fs "max_depth_of_interest" Node.word? d.interestDepth
      lof := ← field fs "lof" LofConfig.ofNode? d.lof }

def ServerConfig.ofNode? (n : Node) : Option ServerConfig := do
  let d : ServerConfig := {}
  let fs ← n.fields? ["addr", "dump_path"]
  some
    { address := ← field fs "addr" Node.text? d.address
      dumpPath := ← field fs "dump_path" Node.optionalText? d.dumpPath }

def ClientConfig.ofNode? (n : Node) : Option ClientConfig := do
  let d : ClientConfig := {}
  let duration? (n : Node) : Option Duration := do Duration.ofText? (← n.text?).toList
  let fs ← n.fields? ["endpoint", "timeout"]
  some
    { endpoint := ← field fs "endpoint" Node.text? d.endpoint
      timeout := ← field fs "timeout" duration? d.timeout }

namespace Config

def ofNode? (n : Node) : Option Config := do
  let d : Config := {}
  let fs ← n.fields? ["log_level", "server", "client", "detector"]
  some
    { logLevel := ← field fs "log_level" Node.text? d.logLevel
      server := ← field fs "server" ServerConfig.ofNode? d.server
      client := ← field fs "client" ClientConfig.ofNode? d.client
      detector := ← field fs "detector" DetectorConfig.ofNode? d.detector }

/-- Why no settings came from a file. -/
inductive LoadError where
  /-- The file is missing, or it is not text. -/
  | unreadable (path : String)
  /-- The text has a mistake or holds something else. -/
  | unparsable (path : String)
  | invalid (fault : Fault)

def LoadError.message : LoadError → String
  | .unreadable path => s!"reading config file {path}"
  | .unparsable path => s!"parsing config file {path}"
  | .invalid fault => fault.message

/-- The settings in a text at a path. -/
def ofText (path : String) (cs : List Char) : Except LoadError Config :=
  match (Yaml.document cs).bind ofNode? with
  | none => .error (.unparsable path)
  | some c => c.check.mapError .invalid |>.map fun () => c

/-- The settings in a file. -/
def load (fs : Files) (path : String) : Except LoadError Config :=
  match (fs.read path).bind Text.decode with
  | none => .error (.unreadable path)
  | some cs => ofText path cs

end Config

end TraceAnomaly
