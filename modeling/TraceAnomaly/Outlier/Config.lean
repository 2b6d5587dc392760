import TraceAnomaly.Decimal.Shortest
import TraceAnomaly.Json.Codec

/-! The settings of anomaly detection. -/
namespace TraceAnomaly

open Json (Codec Fields)

/-- How calls are classified. -/
inductive Algorithm where
  /-- By a threshold on the statistics of all calls of a function. -/
  | streaming
  /-- By the density of the calls of a function in one frame. -/
  | batch
deriving DecidableEq, Repr

/-- How long a rank keeps its own statistics. -/
inductive LocalScope where
  | frame
  | rank
deriving DecidableEq, Repr

/-- What counts when the aggregator cannot be reached. -/
inductive FailurePolicy where
  /-- The rank's own statistics. -/
  | useLocal
  /-- Nothing: all calls are normal. -/
  | allNormal
deriving DecidableEq, Repr

/-- The distance between two samples. -/
inductive Metric where
  | euclidean
  | manhattan
  | chebyshev
deriving DecidableEq, Repr

structure LofConfig where
  neighbours : UInt64 := 20
  /-- Accepted for index structures; the search for neighbours is exhaustive. -/
  leafSize : UInt64 := 30
  metric : Metric := .euclidean
  /-- The largest fraction of samples to be called anomalous. -/
  contamination : Float := Binary64.ofDecimal 1 (-1)

structure DetectorConfig where
  algorithm : Algorithm := .streaming
  /-- How many deviations above the mean a normal runtime may be. -/
  sigma : Float := Binary64.ofNat 12
  /-- The threshold applies once there are more samples than this. -/
  minSamples : UInt64 := 1
  localScope : LocalScope := .frame
  /-- Whether calls are classified against merged statistics. -/
  pullGlobal : Bool := true
  onPushFailure : FailurePolicy := .useLocal
  /-- Functions nested at least this deep are not of interest. -/
  interestDepth : UInt64 := 10
  lof : LofConfig := {}

def Algorithm.name : Algorithm → String
  | .streaming => "streaming"
  | .batch => "batch"

def LocalScope.name : LocalScope → String
  | .frame => "frame"
  | .rank => "rank"

def FailurePolicy.name : FailurePolicy → String
  | .useLocal => "local"
  | .allNormal => "normal"

def Metric.name : Metric → String
  | .euclidean => "euclidean"
  | .manhattan => "manhattan"
  | .chebyshev => "chebyshev"

def Algorithm.all : List Algorithm := [.streaming, .batch]

def LocalScope.all : List LocalScope := [.frame, .rank]

def FailurePolicy.all : List FailurePolicy := [.useLocal, .allNormal]

def Metric.all : List Metric := [.euclidean, .manhattan, .chebyshev]

namespace LofConfig

def codec : Codec LofConfig :=
  (Codec.record (.optional "n_neighbors" Codec.word <| .optional "leaf_size" Codec.word <|
      .optional "metric" (Codec.variant Metric.name Metric.all) <|
      .optional "contamination" Codec.real .nil)).as
    (fun c => (some c.neighbours, some c.leafSize, some c.metric, some c.contamination, ()))
    (fun (neighbours, leafSize, metric, contamination, ()) =>
      let d : LofConfig := {}
      ⟨neighbours.getD d.neighbours, leafSize.getD d.leafSize, metric.getD d.metric,
        contamination.getD d.contamination⟩)

end LofConfig

namespace DetectorConfig

def codec : Codec DetectorConfig :=
  (Codec.record (.optional "algorithm" (Codec.variant Algorithm.name Algorithm.all) <|
      .optional "sigma" Codec.real <| .optional "min_samples" Codec.word <|
      .optional "local_scope" (Codec.variant LocalScope.name LocalScope.all) <|
      .optional "pull_global" Codec.bool <|
      .optional "on_push_failure" (Codec.variant FailurePolicy.name FailurePolicy.all) <|
      .optional "max_depth_of_interest" Codec.word <| .optional "lof" LofConfig.codec .nil)).as
    (fun c => (some c.algorithm, some c.sigma, some c.minSamples, some c.localScope,
      some c.pullGlobal, some c.onPushFailure, some c.interestDepth, some c.lof, ()))
    (fun (algorithm, sigma, minSamples, localScope, pullGlobal, onPushFailure, interestDepth, lof,
        ()) =>
      let d : DetectorConfig := {}
      ⟨algorithm.getD d.algorithm, sigma.getD d.sigma, minSamples.getD d.minSamples,
        localScope.getD d.localScope, pullGlobal.getD d.pullGlobal,
        onPushFailure.getD d.onPushFailure, interestDepth.getD d.interestDepth, lof.getD d.lof⟩)

/-- What is wrong with the settings of a detector. -/
inductive Fault where
  | sigma (value : Float)
  | interestDepth
  | neighbours
  | leafSize
  | contamination (value : Float)

def Fault.message : Fault → String
  | .sigma x => s!"detector.sigma must be a positive number, got {String.ofList (Decimal.plain x)}"
  | .interestDepth => "detector.max_depth_of_interest must be positive"
  | .neighbours => "detector.lof.n_neighbors must be positive"
  | .leafSize => "detector.lof.leaf_size must be positive"
  | .contamination x =>
    s!"detector.lof.contamination must be in (0, 0.5], got {String.ofList (Decimal.plain x)}"

/-- The first thing that is wrong with the settings, if any. -/
def check (c : DetectorConfig) : Except Fault Unit :=
  if !(c.sigma.isFinite && Binary64.ofNat 0 < c.sigma) then .error (.sigma c.sigma)
  else if c.interestDepth = 0 then .error .interestDepth
  else if c.lof.neighbours = 0 then .error .neighbours
  else if c.lof.leafSize = 0 then .error .leafSize
  else if !(Binary64.ofNat 0 < c.lof.contamination &&
      c.lof.contamination ≤ Binary64.ofDecimal 5 (-1)) then
    .error (.contamination c.lof.contamination)
  else .ok ()

end DetectorConfig

end TraceAnomaly
