import TraceAnomaly.CommandLine.Arguments
import TraceAnomaly.Config.Document
import TraceAnomaly.Config.LogFilter
import TraceAnomaly.Http.Address
import TraceAnomaly.Http.Client
import TraceAnomaly.Rank.Run

/-! What the program does with its arguments. Arguments come first, then the configuration, then the
log filter, and only then the command itself. All that is around the program is given to it: the
files, the network with whatever is behind it, and the time. -/
namespace TraceAnomaly.CommandLine

/-- Why the program fails. -/
inductive Failure where
  | config (path : String) (cause : Config.LoadError)
  | logFilter (text : String)
  /-- There is no file. -/
  | opening (path : String)
  /-- The first line cannot be read. -/
  | reading (path : String) (cause : ReadError)
  | creating (path : String)
  | running (cause : RunError)
  /-- The server did not stop when asked. -/
  | stopping (cause : CallCause)
  | starting (cause : Http.ListenError)
  | dumping (path : String) (cause : DumpError)

/-- What the program says about a failure, without what caused it. -/
def Failure.message : Failure → String
  | .config path _ => s!"loading config from {path}"
  | .logFilter text => s!"invalid log level: {text}"
  | .opening path => s!"opening trace file {path}"
  | .reading path _ => s!"reading trace file {path}"
  | .creating path => s!"creating output {path}"
  | .running cause => cause.message
  | .stopping _ => "shutting down parameter server"
  | .starting _ => "starting parameter server"
  | .dumping path _ => s!"dumping statistics to {path}"

inductive Ending where
  | done
  | failed (why : Failure)
  | misused

/-- The exit code. -/
def Ending.code : Ending → UInt8
  | done => 0
  | failed _ => 1
  | misused => 2

/-- What the program was asked to do, with its settings. -/
inductive Task where
  | explain (lines : List String)
  | serve (config : Config)
  | analyze (config : Config) (analysis : Analysis)

namespace Task

/-- The settings for a command. -/
def settings (fs : Files) (i : Invocation) : Except Failure Config := do
  let config ←
    match i.configPath with
    | none => .ok {}
    | some path => (Config.load fs path).mapError (.config path)
  let filter := config.logFilter i.logLevel
  if LogFilter.isValid filter then .ok config else .error (.logFilter filter)

/-- What an invocation asks for. The version needs no settings. -/
def ofInvocation (fs : Files) (i : Invocation) : Except Failure Task :=
  match i.command with
  | .version => .ok (.explain versionLines)
  | .server => (settings fs i).map serve
  | .analyze a => (settings fs i).map (analyze · a)

def ofArguments (fs : Files) (arguments : List String) : Except Ending Task :=
  match Invocation.ofArguments arguments with
  | .error (.help topic) => .ok (.explain topic.lines)
  | .error .misuse => .error .misused
  | .ok i => (ofInvocation fs i).mapError .failed

end Task

/-- Starts a server with an empty store. -/
def startServer (c : ServerConfig) (fs : Files) : Except Failure Http.Service :=
  match Http.listen c.address with
  | .ok _ => .ok { dumpPath := c.dumpPath, files := fs }
  | .error e => .error (.starting e)

/-- Stops a server, which leaves a dump behind if it has a path for it. -/
def stopServer (s : Http.Service) : Except Failure Files :=
  match s.dumpPath with
  | none => .ok s.files
  | some path => (s.store.dump path s.files).mapError (.dumping path)

/-- Runs a server for some requests, each of which takes the given time to merge. -/
def serve (c : ServerConfig) (fs : Files) (seconds : Float) (requests : List Http.Request) :
    Except Failure (List Http.Response × Except Failure Files) := do
  let (s, replies) := (← startServer c fs).respondAll seconds requests
  .ok (replies, stopServer s)

/-- What is around the program. -/
structure Surroundings (σ : Type) where
  files : Files
  /-- What the servers hold that clients can reach. -/
  shared : σ
  /-- How clients reach them. -/
  send : Http.Transport σ
  timestamp : String

/-- What a run of the program leaves behind. -/
structure Outcome (σ : Type) where
  ending : Ending
  /-- What has been written to the standard output. -/
  output : List Char := []
  files : Files
  shared : σ

namespace Analysis

variable {σ : Type}

/-- The trace at a path. A directory can be opened but not read. -/
def openTrace (fs : Files) (path : String) : Except Failure Source :=
  match fs.read path with
  | some bytes => (Source.read (Text.linesOfBytes bytes)).mapError (.reading path)
  | none => .error (if fs.hasDirectory path then .reading path (.unreadable 1) else .opening path)

/-- The client of the server that is configured, if one is. -/
def client? (c : Config) : Option Http.Client :=
  if c.client.endpoint.isEmpty then none else some (.ofAddress c.client.endpoint)

/-- Asks the server to stop, if that is wanted and there is one. -/
def askToStop (a : Analysis) (c : Config) (send : Http.Transport σ) (s : σ) : σ × Ending :=
  match client? c with
  | some client =>
    if a.stopsServer then
      let (s, reply) := client.shutdown send s
      (s, match reply with
        | .ok _ => .done
        | .error cause => .failed (.stopping cause))
    else (s, .done)
  | none => (s, .done)

/-- Processes a trace, and gives the reports with the new state and the way it ended. -/
def process (a : Analysis) (c : Config) (e : Surroundings σ) (sink : String) (source : Source) :
    List Char × σ × Ending :=
  let rank := Rank.start a.rank Keyed.empty c.detector
  let (final, result) :=
    rank.run ((client? c).map (·.aggregator e.send)) e.shared source (.lines sink e.timestamp) {}
  (final.output.text,
    match result with
    | .ok _ => a.askToStop c e.send final.shared
    | .error cause => (final.shared, .failed (.running cause)))

def run (a : Analysis) (c : Config) (e : Surroundings σ) : Outcome σ :=
  match openTrace e.files a.input with
  | .error why => { ending := .failed why, files := e.files, shared := e.shared }
  | .ok source =>
    match a.output with
    | none =>
      let (text, shared, ending) := a.process c e "stdout" source
      { ending := ending, output := text, files := e.files, shared := shared }
    | some path =>
      match e.files.write path [] with
      | none => { ending := .failed (.creating path), files := e.files, shared := e.shared }
      | some files =>
        let (text, shared, ending) := a.process c e path source
        { ending := ending, files := (files.write path (Text.encode text)).getD files, shared := shared }

end Analysis

/-- Runs the program. A server that it starts gets no requests. -/
def run {σ : Type} (arguments : List String) (e : Surroundings σ) : Outcome σ :=
  match Task.ofArguments e.files arguments with
  | .error ending => { ending := ending, files := e.files, shared := e.shared }
  | .ok (.explain lines) =>
    { ending := .done
      output := lines.flatMap fun line => line.toList ++ ['\n']
      files := e.files
      shared := e.shared }
  | .ok (.analyze c a) => a.run c e
  | .ok (.serve c) =>
    match serve c.server e.files 0 [] with
    | .ok (_, .ok files) => { ending := .done, files := files, shared := e.shared }
    | .ok (_, .error why) | .error why =>
      { ending := .failed why, files := e.files, shared := e.shared }

end TraceAnomaly.CommandLine
