import TraceAnomaly.Proofs.CallStack.Records

/-! The reconstruction with all records in one arena, under their numbers. Stacks, and the index of
the calls closed in a frame, hold numbers only, so a record changes without being moved, and whether
the four maps fit together is a matter of an invariant. -/

namespace TraceAnomaly

structure CallArena where
  functions : FunctionTable := Keyed.empty
  nextId : UInt64 := 0
  /-- The records of the open calls and of those closed in this frame. -/
  arena : Keyed UInt64 CallRecord := Keyed.empty
  /-- The numbers of the open calls of each thread, innermost first. -/
  running : Keyed Thread (List UInt64) := Keyed.empty
  /-- The numbers of the calls closed in this frame by function, in closing order. -/
  closed : Keyed UInt64 (List UInt64) := Keyed.empty
  /-- The largest number of enclosing calls with which a call of each function has closed. -/
  depths : Keyed UInt64 Nat := Keyed.empty

namespace CallArena

def stack (a : CallArena) (t : Thread) : List UInt64 := (a.running.get? t).getD []

def setStack (a : CallArena) (t : Thread) (ids : List UInt64) : CallArena :=
  { a with running := a.running.insert t ids }

def updateFunctions (a : CallArena) (names : FunctionTable) : CallArena :=
  { a with functions := a.functions.insertAll names.toList }

/-- Opens a call on top of its thread's stack and notes it with the call that made it. -/
def enter (a : CallArena) (e : CallEvent) : CallArena × UInt64 :=
  let ids := a.stack e.thread
  let call := CallRecord.opened a.nextId (a.functions.name e.function) e ids.head?
  let arena :=
    match ids.head? with
    | none => a.arena
    | some parent => a.arena.modify parent (·.addChild a.nextId)
  ({ a.setStack e.thread (a.nextId :: ids) with
      nextId := a.nextId + 1
      arena := arena.insert a.nextId call }, a.nextId)

/-- Puts a closed call back under its number and into the index. -/
def settle (a : CallArena) (id : UInt64) (call : CallRecord) (depth : Nat) : CallArena :=
  { a with
    closed := a.closed.alter call.function fun old => old.getD [] ++ [id]
    depths := a.depths.alter call.function fun old => max (old.getD 0) depth
    arena := a.arena.insert id call }

/-- Closes the call on top of the thread's stack. Its number leaves the stack first and its record
leaves the arena; only a call that fits the exit is put back. -/
def leave (a : CallArena) (e : CallEvent) : CallArena × Except Violation UInt64 :=
  match a.stack e.thread with
  | [] => (a, .error (.emptyStack e.thread e.function e.time))
  | id :: outer =>
    let a := a.setStack e.thread outer
    match a.arena.get? id with
    | none => (a, .error (.emptyStack e.thread e.function e.time))
    | some call =>
      let a := { a with arena := a.arena.erase id }
      if call.function ≠ e.function then
        (a, .error (.functionMismatch e.thread e.function e.time id call.function))
      else if e.time < call.entry then
        (a, .error (.timeReversal e.thread e.function call.entry e.time))
      else
        (a.settle id (call.close e.time) outer.length, .ok id)

def call (a : CallArena) (e : CallEvent) : CallArena × Except Violation Unit :=
  match e.kind with
  | .entry => ((a.enter e).1, .ok ())
  | .exit => ((a.leave e).1, (a.leave e).2.map fun _ => ())

/-- Attaches a message to the innermost open call of its thread, and tells whether there is one. -/
def attach (a : CallArena) (e : MessageEvent) : CallArena × Bool :=
  match (a.stack e.thread).head?.bind fun id => (a.arena.get? id).map fun r => (id, r) with
  | none => (a, false)
  | some (id, r) => ({ a with arena := a.arena.insert id (r.addMessage (.ofEvent e)) }, true)

def apply (a : CallArena) : Event → CallArena × Except Violation EventClass
  | .call e =>
    let (a, outcome) := a.call e
    (a, outcome.map fun _ => if e.kind = .entry then .entry else .exit)
  | .message e =>
    let (a, attached) := a.attach e
    (a, .ok (if attached then (if e.kind = .send then .send else .receive) else .orphan))

/-- Applies events up to the first violation; `index` is the place of the first event. -/
def applyAll (a : CallArena) (n : EventCounts) (index : Nat) :
    List Event → CallArena × EventCounts × Except IngestError Unit
  | [] => (a, n, .ok ())
  | e :: rest =>
    match a.apply e with
    | (a, .error v) => (a, n.record .violation, .error ⟨index, v⟩)
    | (a, .ok c) => applyAll a (n.record c) (index + 1) rest

def ingest (a : CallArena) (n : EventCounts) (f : Frame) :
    CallArena × EventCounts × Except IngestError Unit :=
  a.applyAll n 0 f.ordered

/-- Labels records in order, as far as there are labels. -/
def relabel (arena : Keyed UInt64 CallRecord) : List UInt64 → List Label → Keyed UInt64 CallRecord
  | id :: ids, l :: ls => relabel (arena.modify id fun r => { r with label := l }) ids ls
  | _, _ => arena

def setLabels (a : CallArena) (function : UInt64) (labels : List Label) : CallArena :=
  match a.closed.get? function with
  | none => a
  | some ids => { a with arena := relabel a.arena ids labels }

def takeAll (arena : Keyed UInt64 CallRecord) :
    List UInt64 → Keyed UInt64 CallRecord × List CallRecord
  | [] => (arena, [])
  | id :: ids =>
    let rest := takeAll (arena.erase id) ids
    (rest.1, (arena.get? id).toList ++ rest.2)

/-- Takes the calls closed in this frame out of the arena, by function and then in closing order. -/
def releaseFrame (a : CallArena) : CallArena × List CallRecord :=
  let taken := takeAll a.arena a.closed.values.flatten
  ({ a with arena := taken.1, closed := Keyed.empty }, taken.2)

/-- Starts a frame; what is left over of the last one is released. -/
def beginFrame (a : CallArena) : CallArena :=
  if a.closed.isEmpty then a else a.releaseFrame.1

/-- The records of all open calls by thread, outermost first, as far as the arena has them. -/
def openCalls (a : CallArena) : List CallRecord :=
  (a.running.values.map List.reverse).flatten.filterMap a.arena.get?

def size (a : CallArena) : Nat := (a.running.values.map List.length).foldl (· + ·) 0

def maxDepth (a : CallArena) (function : UInt64) : Nat := (a.depths.get? function).getD 0

def perform (a : CallArena) : Operation → CallArena × Reply
  | .enter e => ((a.enter e).1, .opened (a.enter e).2)
  | .leave e => ((a.leave e).1, .left (a.leave e).2)
  | .call e => ((a.call e).1, .called (a.call e).2)
  | .attach e => ((a.attach e).1, .attached (a.attach e).2)
  | .ingest n f => ((a.ingest n f).1, .ingested (a.ingest n f).2.1 (a.ingest n f).2.2)
  | .beginFrame => (a.beginFrame, .done)
  | .setLabels f ls => (a.setLabels f ls, .done)
  | .releaseFrame => (a.releaseFrame.1, .released a.releaseFrame.2)
  | .updateFunctions names => (a.updateFunctions names, .done)

def performAll (a : CallArena) : List Operation → CallArena × List Reply
  | [] => (a, [])
  | op :: ops =>
    let rest := (a.perform op).1.performAll ops
    (rest.1, (a.perform op).2 :: rest.2)

end CallArena

end TraceAnomaly
