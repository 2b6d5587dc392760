/-! What the program can be asked to do. -/
namespace TraceAnomaly.CommandLine

/-- The analysis of one trace. -/
structure Analysis where
  input : String
  /-- Where reports go; without a path it is the standard output. -/
  output : Option String := none
  rank : UInt64 := 0
  /-- Whether the server is asked to stop at the end. -/
  stopsServer : Bool := false
deriving DecidableEq, Repr

inductive Command where
  | server
  | analyze (analysis : Analysis)
  | version
deriving DecidableEq, Repr

/-- A command and what holds for all of them. -/
structure Invocation where
  configPath : Option String := none
  logLevel : Option String := none
  command : Command
deriving DecidableEq, Repr

/-- What can be explained. -/
inductive Topic where
  | program
  | server
  | analyze
  | version
  | help
deriving DecidableEq, Repr

/-- Why arguments are no invocation. -/
inductive Interruption where
  | help (topic : Topic)
  | misuse
deriving DecidableEq, Repr

namespace Topic

/-- The topic of a command, by its name. -/
def ofName? : String → Option Topic
  | "server" => some server
  | "analyze" => some analyze
  | "version" => some version
  | "help" => some help
  | _ => none

/-- The lines that explain a topic. -/
def lines : Topic → List String
  | program =>
    ["Streaming call-stack reconstruction and anomaly detection for instrumented HPC ranks",
      "",
      "Usage: perfsentry [OPTIONS] <COMMAND>",
      "",
      "Commands:",
      "  server   Run the parameter server until SIGINT/SIGTERM or POST /shutdown",
      "  analyze  Process one rank's NDJSON frame trace",
      "  version  Print version information and exit",
      "  help     Print this message or the help of the given subcommand(s)",
      "",
      "Options:",
      "  -c, --config <CONFIG>        Path to the YAML configuration file. " ++
        "Defaults apply when omitted",
      "      --log-level <LOG_LEVEL>  Logging verbosity level (trace, debug, info, warn, error). " ++
        "Overrides `log_level` from the configuration file",
      "  -h, --help                   Print help"]
  | server =>
    ["Run the parameter server until SIGINT/SIGTERM or POST /shutdown",
      "",
      "Usage: perfsentry server",
      "",
      "Options:",
      "  -h, --help  Print help"]
  | analyze =>
    ["Process one rank's NDJSON frame trace",
      "",
      "Usage: perfsentry analyze [OPTIONS] --input <INPUT>",
      "",
      "Options:",
      "  -i, --input <INPUT>    Input trace, one JSON frame per line",
      "  -o, --output <OUTPUT>  Output file for labelled frames. Defaults to stdout",
      "      --rank <RANK>      Rank id stamped on every output frame [default: 0]",
      "      --shutdown-server  Ask the parameter server to shut down once this rank is done",
      "  -h, --help             Print help"]
  | version =>
    ["Print version information and exit",
      "",
      "Usage: perfsentry version",
      "",
      "Options:",
      "  -h, --help  Print help"]
  | help =>
    ["Print this message or the help of the given subcommand(s)",
      "",
      "Usage: perfsentry help [COMMAND]...",
      "",
      "Arguments:",
      "  [COMMAND]...  Print help for the subcommand(s)"]

end Topic

/-- The lines that explain the version. -/
def versionLines : List String := ["perfsentry 0.1.0 (commit: unknown, linux/x86_64)"]

end TraceAnomaly.CommandLine
