import TraceAnomaly.CommandLine.Switch
import TraceAnomaly.Decimal.Basic

/-! The arguments of the program: general switches, the name of a command and its switches. No switch
is given twice. -/
namespace TraceAnomaly.CommandLine

/-- A setting that has not been made before. -/
def once {α : Type} (old : Option α) (new : α) : Except Interruption (Option α) :=
  if old.isSome then .error .misuse else .ok (some new)

/-- A setting that is a path. Paths are not empty. -/
def oncePath (old : Option String) (new : String) : Except Interruption (Option String) :=
  if new.isEmpty then .error .misuse else once old new

/-- A setting that is a number. -/
def onceWord (old : Option UInt64) (new : String) : Except Interruption (Option UInt64) :=
  match Decimal.word? new.toList with
  | some n => once old n
  | none => .error .misuse

/-- The settings for all commands. -/
structure General where
  configPath : Option String := none
  logLevel : Option String := none

def General.switches : List (Switch General) :=
  [{ letter := some 'c'
     name := "config"
     effect := .value fun v s => do .ok { s with configPath := ← oncePath s.configPath v } },
    { name := "log-level"
      effect := .value fun v s => do .ok { s with logLevel := ← once s.logLevel v } },
    .help .program]

/-- The settings of an analysis. -/
structure AnalysisSettings where
  input : Option String := none
  output : Option String := none
  rank : Option UInt64 := none
  stopsServer : Option Unit := none

namespace AnalysisSettings

def switches : List (Switch AnalysisSettings) :=
  [{ letter := some 'i'
     name := "input"
     effect := .value fun v s => do .ok { s with input := ← oncePath s.input v } },
    { letter := some 'o'
      name := "output"
      effect := .value fun v s => do .ok { s with output := ← oncePath s.output v } },
    { name := "rank"
      effect := .value fun v s => do .ok { s with rank := ← onceWord s.rank v } },
    { name := "shutdown-server"
      effect := .flag fun s => do .ok { s with stopsServer := ← once s.stopsServer () } },
    .help .analyze]

/-- The analysis that was asked for. It needs an input. -/
def analysis (s : AnalysisSettings) : Except Interruption Analysis :=
  match s.input with
  | some input => .ok ⟨input, s.output, s.rank.getD 0, s.stopsServer.isSome⟩
  | none => .error .misuse

end AnalysisSettings

/-- The explanation of what the names lead to. Only the program itself has commands. -/
def Interruption.ofNames : List String → Interruption
  | [] => .help .program
  | [name] => (Topic.ofName? name).elim .misuse .help
  | _ => .misuse

/-- The command that arguments start with. -/
def Command.ofArguments : List String → Except Interruption Command
  | "server" :: rest => do
    let () ← applyAll [.help .server] () rest
    .ok .server
  | "analyze" :: rest => do
    let settings ← applyAll AnalysisSettings.switches {} rest
    .ok (.analyze (← settings.analysis))
  | "version" :: rest => do
    let () ← applyAll [.help .version] () rest
    .ok .version
  | "help" :: names => .error (.ofNames names)
  | _ => .error .misuse

/-- What arguments ask for. -/
def Invocation.ofArguments (arguments : List String) : Except Interruption Invocation := do
  let (general, rest) ← applySwitches General.switches {} arguments
  .ok ⟨general.configPath, general.logLevel, ← Command.ofArguments rest⟩

end TraceAnomaly.CommandLine
