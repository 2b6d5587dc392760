import TraceAnomaly.Main
import TraceAnomaly.Proofs.CallStack.Acceptance
import TraceAnomaly.Proofs.CallStack.Representation
import TraceAnomaly.Proofs.Rank.Fleet
import TraceAnomaly.Proofs.Rank.Verdict
import TraceAnomaly.Proofs.CallStack.Conservation
import TraceAnomaly.Proofs.Rank.Replay
import TraceAnomaly.Proofs.Rank.Consistency
import TraceAnomaly.Proofs.Rank.Totals
import TraceAnomaly.Proofs.CallStack.Renaming
import TraceAnomaly.Proofs.CallStack.Strand
import TraceAnomaly.Proofs.CallStack.Interleaving
import TraceAnomaly.Proofs.Rank.Independence
import TraceAnomaly.Proofs.CallStack.Forest
import TraceAnomaly.Proofs.CallStack.Cut
import TraceAnomaly.Proofs.CallStack.Attribution
import TraceAnomaly.Proofs.Http.Interchange
import TraceAnomaly.Proofs.Json.Arrangement
import TraceAnomaly.Proofs.Outlier.Shipment
import TraceAnomaly.Proofs.Trace.Placement
import TraceAnomaly.Proofs.Json.Refusal
import TraceAnomaly.Proofs.Rank.Report
import TraceAnomaly.Proofs.Http.Lossless
import TraceAnomaly.Proofs.Json.Printed
import TraceAnomaly.Proofs.Text.Lines
import TraceAnomaly.Proofs.Trace.Reader
import TraceAnomaly.Proofs.Trace.RoundTrip
import TraceAnomaly.Proofs.CallStack.Violation
import TraceAnomaly.Proofs.CallStack.Release
import TraceAnomaly.Proofs.CallStack.Depth
import TraceAnomaly.Proofs.Rank.Interest
import TraceAnomaly.Proofs.CallStack.Interval
import TraceAnomaly.Proofs.Rank.Alone
import TraceAnomaly.Proofs.Outlier.Limit
import TraceAnomaly.Proofs.Rank.Failure
import TraceAnomaly.Proofs.Outlier.Density
import TraceAnomaly.Proofs.Outlier.Neighbours
import TraceAnomaly.Proofs.Stats.Guarded
import TraceAnomaly.Proofs.Outlier.ExactDensity
import TraceAnomaly.Proofs.Outlier.Densest
import TraceAnomaly.Proofs.Http.Bundle
import TraceAnomaly.Proofs.Trace.Position
import TraceAnomaly.Proofs.Rank.Career
import TraceAnomaly.Proofs.Rank.Run
import TraceAnomaly.Proofs.Outlier.Nearest
import TraceAnomaly.Proofs.Rank.Lines
import TraceAnomaly.Proofs.Json.Indented
import TraceAnomaly.Proofs.Store.Dump
import TraceAnomaly.Proofs.Http.Tally
