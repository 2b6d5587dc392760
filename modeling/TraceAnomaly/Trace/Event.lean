import TraceAnomaly.Keyed

/-! What an instrumented program reports: calls entered and left and messages sent and received, on
threads of processes of ranks, delivered in frames. -/
namespace TraceAnomaly

/-- A thread, by process, rank and thread number. -/
structure Thread where
  process : UInt64
  rank : UInt64
  number : UInt64
deriving DecidableEq, Repr

namespace Thread

/-- Threads are ordered by process, then rank, then number. -/
instance : Ord Thread where
  compare := compareLex (compareOn process) (compareLex (compareOn rank) (compareOn number))

instance : Std.TransOrd Thread :=
  inferInstanceAs (Std.TransCmp
    (compareLex (compareOn process) (compareLex (compareOn rank) (compareOn number))))

instance : Std.LawfulEqOrd Thread where
  eq_of_compare {a b} h := by
    have h : compareLex (compareOn process) (compareLex (compareOn rank) (compareOn number)) a b = .eq := h
    simp only [compareLex_eq_eq, compareOn, Std.LawfulEqCmp.compare_eq_iff_eq] at h
    cases a
    cases b
    simp_all

def text (t : Thread) : String := s!"{t.process}:{t.rank}:{t.number}"

end Thread

inductive CallKind where
  | entry
  | exit
deriving DecidableEq, Repr

def CallKind.text : CallKind → String
  | .entry => "entry"
  | .exit => "exit"

inductive MessageKind where
  | send
  | receive
deriving DecidableEq, Repr

def MessageKind.text : MessageKind → String
  | .send => "send"
  | .receive => "recv"

/-- A call entered or left. -/
structure CallEvent where
  thread : Thread
  kind : CallKind
  function : UInt64
  time : UInt64
deriving DecidableEq, Repr

/-- A message sent to a partner rank or received from one. -/
structure MessageEvent where
  thread : Thread
  kind : MessageKind
  tag : UInt64
  partner : UInt64
  bytes : UInt64
  time : UInt64
deriving DecidableEq, Repr

/-- The events delivered in one step. -/
structure Frame where
  step : UInt64
  calls : List CallEvent := []
  messages : List MessageEvent := []
deriving DecidableEq, Repr

namespace Frame

def size (f : Frame) : Nat := f.calls.length + f.messages.length

def isEmpty (f : Frame) : Bool := f.calls.isEmpty && f.messages.isEmpty

end Frame

/-- An event of either sort. -/
inductive Event where
  | call (event : CallEvent)
  | message (event : MessageEvent)
deriving DecidableEq, Repr

namespace Event

def time : Event → UInt64
  | call e => e.time
  | message e => e.time

def thread : Event → Thread
  | call e => e.thread
  | message e => e.thread

end Event

/-- The names of functions. -/
abbrev FunctionTable := Keyed UInt64 String

namespace FunctionTable

/-- The name of a function, or a word for unknown ones. -/
def name (t : FunctionTable) (function : UInt64) : String := (t.get? function).getD "<unknown>"

end FunctionTable

end TraceAnomaly
