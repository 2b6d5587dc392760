import TraceAnomaly.CommandLine.Basic

/-! Switches: arguments that start with a hyphen. A switch has a name behind two hyphens and maybe a
letter behind one. Its value, if it takes one, is written behind an equals sign, right behind the
letter, or as the next argument. Switches are read in order up to the first plain word. -/
namespace TraceAnomaly.CommandLine

variable {σ : Type}

/-- What a switch does to the settings. -/
inductive Effect (σ : Type) where
  | flag (apply : σ → Except Interruption σ)
  | value (apply : String → σ → Except Interruption σ)

structure Switch (σ : Type) where
  letter : Option Char := none
  name : String
  effect : Effect σ

/-- The switch that asks for an explanation. -/
def Switch.help (topic : Topic) : Switch σ :=
  { letter := some 'h', name := "help", effect := .flag fun _ => .error (.help topic) }

/-- What an argument is to a list of switches. -/
inductive Argument (σ : Type) where
  /-- No switch. -/
  | word
  /-- A switch with all that belongs to it. -/
  | complete (apply : σ → Except Interruption σ)
  /-- A switch whose value is the next argument. -/
  | awaiting (apply : String → σ → Except Interruption σ)
  | mistake

namespace Argument

/-- A switch with what is written behind its name. -/
def ofName : Effect σ → List Char → Argument σ
  | .flag apply, [] => complete apply
  | .value apply, [] => awaiting apply
  | .value apply, '=' :: value => complete (apply (String.ofList value))
  | _, _ => mistake

/-- A switch with what is written behind its letter. Nothing can follow a flag. -/
def ofLetter : Effect σ → List Char → Argument σ
  | .flag apply, [] => complete apply
  | .flag apply, _ => complete fun s => do
    let _ ← apply s
    .error .misuse
  | .value apply, [] => awaiting apply
  | .value apply, '=' :: value => complete (apply (String.ofList value))
  | .value apply, value => complete (apply (String.ofList value))

def read (switches : List (Switch σ)) (argument : String) : Argument σ :=
  match argument.toList with
  | '-' :: '-' :: rest =>
    let name := String.ofList (rest.takeWhile (· ≠ '='))
    match switches.find? (·.name = name) with
    | some s => ofName s.effect (rest.dropWhile (· ≠ '='))
    | none => mistake
  | '-' :: c :: rest =>
    match switches.find? (·.letter = some c) with
    | some s => ofLetter s.effect rest
    | none => mistake
  | _ => word

end Argument

/-- Whether an argument is written as a switch. A lone hyphen is not. -/
def isSwitch (argument : String) : Bool :=
  match argument.toList with
  | '-' :: _ :: _ => true
  | _ => false

/-- Applies the switches at the front of the arguments, and gives the arguments from the first word
on. Two lone hyphens end the switches like a word does. -/
def applySwitches (switches : List (Switch σ)) (s : σ) :
    List String → Except Interruption (σ × List String)
  | [] => .ok (s, [])
  | argument :: rest =>
    if argument = "--" then .ok (s, argument :: rest)
    else
      match Argument.read switches argument with
      | .word => .ok (s, argument :: rest)
      | .mistake => .error .misuse
      | .complete apply => do applySwitches switches (← apply s) rest
      | .awaiting apply =>
        match rest with
        | [] => .error .misuse
        | value :: rest =>
          if isSwitch value then .error .misuse
          else do applySwitches switches (← apply value s) rest

/-- Applies arguments that are switches only. -/
def applyAll (switches : List (Switch σ)) (s : σ) (arguments : List String) :
    Except Interruption σ := do
  match ← applySwitches switches s arguments with
  | (s, []) | (s, ["--"]) => .ok s
  | _ => .error .misuse

end TraceAnomaly.CommandLine
