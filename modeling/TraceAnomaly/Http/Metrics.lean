import TraceAnomaly.Keyed
import TraceAnomaly.Decimal.Shortest

/-! What a server counts about its requests, and the text that shows the counts. -/
namespace TraceAnomaly.Http

/-- Where a number is expected, a word stands for its value. -/
instance coeWord : Coe UInt64 Nat := ⟨UInt64.toNat⟩

/-- Observations by upper bounds. -/
structure Histogram where
  /-- Each upper bound with the number of observations that do not exceed it. -/
  buckets : List (Float × UInt64)
  sum : Float := Binary64.ofNat 0
  count : UInt64 := 0

def Histogram.observe (h : Histogram) (x : Float) : Histogram where
  buckets := h.buckets.map fun (bound, n) => (bound, if x ≤ bound then n + 1 else n)
  sum := h.sum + x
  count := h.count + 1

/-- No batches yet. -/
def noBatches : Histogram where
  buckets := [1, 4, 16, 64, 256, 1024, 4096].map fun n => (Binary64.ofNat n, 0)

/-- No durations yet. The bounds are in seconds. -/
def noDurations : Histogram where
  buckets := [(1, -6), (5, -6), (1, -5), (5, -5), (1, -4), (5, -4), (1, -3), (5, -3)].map fun (m, e) =>
    (Binary64.ofDecimal m e, 0)

/-- Whether a request was answered as asked. -/
inductive Outcome where
  | ok
  | error
deriving DecidableEq, Repr

def Outcome.name : Outcome → String
  | .ok => "ok"
  | .error => "error"

structure Metrics where
  /-- The requests by route and outcome. -/
  requests : Keyed (List String) UInt64 := Keyed.empty
  /-- How many functions there were in a batch. -/
  batches : Histogram := noBatches
  /-- The functions that the store held after the last merge. -/
  functions : Int64 := 0
  /-- How long merges took, by route. -/
  merges : Keyed String Histogram := Keyed.empty

namespace Metrics

def record (m : Metrics) (route : String) (outcome : Outcome) : Metrics :=
  { m with requests := m.requests.alter [route, outcome.name] fun old => old.getD 0 + 1 }

def recordBatch (m : Metrics) (functions : Nat) : Metrics :=
  { m with batches := m.batches.observe (Binary64.ofNat functions) }

/-- Records a merge that took some seconds and left a store with some functions. -/
def recordMerge (m : Metrics) (route : String) (seconds : Float) (functions : Nat) : Metrics :=
  { m.record route .ok with
    functions := Int64.ofNat functions
    merges := m.merges.alter route fun old => (old.getD noDurations).observe seconds }

/-- The number of requests of a route with an outcome. -/
def requestsOf (m : Metrics) (route : String) (outcome : Outcome) : UInt64 :=
  (m.requests.get? [route, outcome.name]).getD 0

/-- A line with a value under a name and labels. Every value is shown as a binary64 number. -/
def sampleLine (name : String) (labels : List (String × String)) (value : Float) : String :=
  let shown := labels.map fun (label, text) => label ++ "=\"" ++ text ++ "\""
  let braced := if labels.isEmpty then "" else "\x7b" ++ ",".intercalate shown ++ "\x7d"
  name ++ braced ++ " " ++ String.ofList (Decimal.plain value)

/-- The lines that open a family of values. -/
def familyLines (name help kind : String) : List String :=
  ["# HELP " ++ name ++ " " ++ help, "# TYPE " ++ name ++ " " ++ kind]

/-- The lines of a histogram. -/
def histogramLines (name : String) (labels : List (String × String)) (h : Histogram) : List String :=
  let bucket (bound : String) (n : UInt64) :=
    sampleLine (name ++ "_bucket") (labels ++ [("le", bound)]) (Binary64.ofNat n)
  (h.buckets.map fun (bound, n) => bucket (String.ofList (Decimal.plain bound)) n) ++
    [bucket "+Inf" h.count, sampleLine (name ++ "_sum") labels h.sum,
      sampleLine (name ++ "_count") labels (Binary64.ofNat h.count)]

def functionLines (m : Metrics) : List String :=
  let name := "perfsentry_ps_functions_tracked"
  let count := Binary64.signed (m.functions < 0) (Binary64.ofNat m.functions.toInt.natAbs)
  familyLines name "Number of functions held by the store." "gauge" ++ [sampleLine name [] count]

def mergeLines (m : Metrics) : List String :=
  let name := "perfsentry_ps_merge_duration_seconds"
  if m.merges.isEmpty then []
  else
    familyLines name "Time spent merging a request into the store." "histogram" ++
      m.merges.toList.flatMap fun (route, h) => histogramLines name [("route", route)] h

def requestLines (m : Metrics) : List String :=
  let name := "perfsentry_ps_requests_total"
  if m.requests.isEmpty then []
  else
    familyLines name "Parameter server requests by route and status." "counter" ++
      m.requests.toList.map fun (labels, n) =>
        sampleLine name (["route", "status"].zip labels) (Binary64.ofNat n)

def batchLines (m : Metrics) : List String :=
  let name := "perfsentry_ps_update_batch_size"
  familyLines name "Number of functions per update_all request." "histogram" ++
    histogramLines name [] m.batches

/-- All lines, by name. A family without values has none. -/
def lines (m : Metrics) : List String :=
  m.functionLines ++ m.mergeLines ++ m.requestLines ++ m.batchLines

def text (m : Metrics) : String := "".intercalate (m.lines.map (· ++ "\n"))

end Metrics

end TraceAnomaly.Http
