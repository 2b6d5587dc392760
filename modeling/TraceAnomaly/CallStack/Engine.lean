import TraceAnomaly.CallStack.Record

/-! Reconstruction of nested calls. Every thread has a stack of open calls; an exit closes the call
on top of its thread's stack. Calls closed during the current frame wait by function until the
frame is released. -/
namespace TraceAnomaly

/-- Why an exit cannot close the call on top of its thread's stack. -/
inductive Violation where
  /-- The thread has no open call. -/
  | emptyStack (thread : Thread) (function time : UInt64)
  /-- The top call is one of another function. -/
  | functionMismatch (thread : Thread) (function time openId openFunction : UInt64)
  /-- The exit is earlier than the entry. -/
  | timeReversal (thread : Thread) (function entry exit : UInt64)
deriving DecidableEq, Repr

def Violation.message : Violation → String
  | .emptyStack t f time => s!"exit of function {f} at {time} on {t.text}: no open call"
  | .functionMismatch t f time id g =>
    s!"exit of function {f} at {time} on {t.text}: top of stack is {CallRecord.idText id} (function {g})"
  | .timeReversal t f entry exit =>
    s!"exit of function {f} on {t.text}: exit {exit} precedes entry {entry}"

structure CallStacks where
  functions : FunctionTable := Keyed.empty
  nextId : UInt64 := 0
  /-- The open calls of each thread, innermost first. -/
  running : Keyed Thread (List CallRecord) := Keyed.empty
  /-- The calls closed in this frame by function, in closing order. -/
  closed : Keyed UInt64 (List CallRecord) := Keyed.empty
  /-- The largest number of enclosing calls with which a call of each function has closed. -/
  depths : Keyed UInt64 Nat := Keyed.empty
deriving DecidableEq

namespace CallStacks

/-- The open calls of a thread, innermost first. -/
def stack (s : CallStacks) (t : Thread) : List CallRecord := (s.running.get? t).getD []

def setStack (s : CallStacks) (t : Thread) (calls : List CallRecord) : CallStacks :=
  { s with running := s.running.insert t calls }

/-- Adds function names; new names replace old ones. -/
def updateFunctions (s : CallStacks) (names : FunctionTable) : CallStacks :=
  { s with functions := s.functions.insertAll names.toList }

/-- Notes a new call with the call that made it. -/
def adopt (id : UInt64) : List CallRecord → List CallRecord
  | [] => []
  | caller :: outer => caller.addChild id :: outer

/-- Opens a call on top of its thread's stack. -/
def enter (s : CallStacks) (e : CallEvent) : CallStacks × UInt64 :=
  let calls := s.stack e.thread
  let call := CallRecord.opened s.nextId (s.functions.name e.function) e (calls.head?.map CallRecord.id)
  ({ s.setStack e.thread (call :: adopt s.nextId calls) with nextId := s.nextId + 1 }, s.nextId)

/-- Moves a call that has been closed from its stack to the calls of this frame. -/
def settle (s : CallStacks) (call : CallRecord) (depth : Nat) : CallStacks :=
  { s with
    closed := s.closed.alter call.function fun old => old.getD [] ++ [call]
    depths := s.depths.alter call.function fun old => max (old.getD 0) depth }

/-- Closes the call on top of the thread's stack. The call leaves the stack also when it does not
fit the exit, and is then discarded. -/
def leave (s : CallStacks) (e : CallEvent) : CallStacks × Except Violation UInt64 :=
  match s.stack e.thread with
  | [] => (s, .error (.emptyStack e.thread e.function e.time))
  | call :: outer =>
    let s := s.setStack e.thread outer
    if call.function ≠ e.function then
      (s, .error (.functionMismatch e.thread e.function e.time call.id call.function))
    else if e.time < call.entry then
      (s, .error (.timeReversal e.thread e.function call.entry e.time))
    else
      (s.settle (call.close e.time) outer.length, .ok call.id)

def call (s : CallStacks) (e : CallEvent) : CallStacks × Except Violation Unit :=
  match e.kind with
  | .entry => ((s.enter e).1, .ok ())
  | .exit => ((s.leave e).1, (s.leave e).2.map fun _ => ())

/-- Attaches a message to the innermost open call of its thread, and tells whether there is one. -/
def attach (s : CallStacks) (e : MessageEvent) : CallStacks × Bool :=
  match s.stack e.thread with
  | [] => (s, false)
  | top :: outer => (s.setStack e.thread (top.addMessage (.ofEvent e) :: outer), true)

/-- The functions with a call closed in this frame. -/
def frameFunctions (s : CallStacks) : List UInt64 := s.closed.keys

/-- The calls of a function closed in this frame, in closing order. -/
def closedCalls (s : CallStacks) (function : UInt64) : List CallRecord :=
  (s.closed.get? function).getD []

def frameSamples {α : Type} [Scalar α] (s : CallStacks) (function : UInt64) : List (Sample α) :=
  (s.closedCalls function).filterMap CallRecord.sample?

/-- Labels calls in order, as far as there are labels. -/
def labelCalls : List CallRecord → List Label → List CallRecord
  | c :: cs, l :: ls => { c with label := l } :: labelCalls cs ls
  | cs, _ => cs

def setLabels (s : CallStacks) (function : UInt64) (labels : List Label) : CallStacks :=
  match s.closed.get? function with
  | none => s
  | some calls => { s with closed := s.closed.insert function (labelCalls calls labels) }

/-- The calls closed in this frame, by function and then in closing order. -/
def frameCalls (s : CallStacks) : List CallRecord := s.closed.values.flatten

/-- Forgets the calls closed in this frame. -/
def releaseFrame (s : CallStacks) : CallStacks := { s with closed := Keyed.empty }

/-- Starts a frame without closed calls. -/
def beginFrame (s : CallStacks) : CallStacks := s.releaseFrame

/-- All open calls by thread, outermost first. -/
def openCalls (s : CallStacks) : List CallRecord := (s.running.values.map List.reverse).flatten

/-- The number of open calls. -/
def size (s : CallStacks) : Nat := (s.running.values.map List.length).foldl (· + ·) 0

def maxDepth (s : CallStacks) (function : UInt64) : Nat := (s.depths.get? function).getD 0

/-- The record with a given number, open or closed in this frame. -/
def get? (s : CallStacks) (id : UInt64) : Option CallRecord :=
  (s.openCalls ++ s.frameCalls).find? (·.id = id)

end CallStacks

end TraceAnomaly
