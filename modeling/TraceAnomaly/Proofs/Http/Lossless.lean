import TraceAnomaly.Proofs.Http.Message
import TraceAnomaly.Proofs.Rank.Report

/-! The formats of traces, reports and messages lose nothing. Every value reads back from its text, in whatever
order the members of its objects are written; only numbers that are not finite have no text that is read, and
what holds one is refused. -/

namespace TraceAnomaly

open Json (Codec)

variable {α : Type} {c : Codec α} {a : α}

/-- The codec writes the value, and reads it back from every text of it. -/
structure Json.Codec.Lossless (c : Codec α) (a : α) : Prop where
  writes : c.Writes a (c.write a)
  read : ∀ text, c.Writes a text → c.read text = .ok a

/-- The codec writes the value, but refuses every text of it. -/
structure Json.Codec.Refused (c : Codec α) (a : α) : Prop where
  writes : c.Writes a (c.write a)
  read : ∀ text, c.Writes a text → ∃ e, c.read text = .error e

theorem Json.Codec.Restores.lossless (h : c.Restores a) : c.Lossless a :=
  ⟨Json.Codec.writes_write h.writable, fun _ => h.read_of_writes⟩

theorem Json.Codec.Refuses.refused (h : c.Refuses a) : c.Refused a :=
  ⟨Json.Codec.writes_write h.writable, fun _ => h.read_of_writes⟩

/-- Whatever is written reads back, but for sums that are not finite: these are refused, and so is every message
with such sums. -/
theorem formats_lossless :
    (∀ e, CallEvent.codec.Lossless e) ∧ (∀ e, MessageEvent.codec.Lossless e) ∧ (∀ f, Frame.codec.Lossless f) ∧
    (∀ t, FunctionTable.codec.Lossless t) ∧ (∀ r, CallRecord.codec.Lossless r) ∧
    (∀ r, FrameReport.codec.Lossless r) ∧ (∀ b, Http.AbnormalBody.codec.Lossless b) ∧
    (∀ counts, Http.abnormalsCodec.Lossless counts) ∧
    (∀ s, (s.IsFinite → PowerSums.codec.Lossless s) ∧ (¬ s.IsFinite → PowerSums.codec.Refused s)) ∧
    (∀ b : Http.StatBody, (b.stat.IsFinite → Http.StatBody.codec.Lossless b) ∧
      (¬ b.stat.IsFinite → Http.StatBody.codec.Refused b)) ∧
    ∀ stats : Keyed UInt64 (PowerSums Float),
      ((∀ e ∈ stats.toList, e.2.IsFinite) →
        Http.statsCodec.Lossless stats ∧ Http.snapshotCodec.Lossless stats) ∧
      ((∃ e ∈ stats.toList, ¬ e.2.IsFinite) →
        Http.statsCodec.Refused stats ∧ Http.snapshotCodec.Refused stats) := by
  refine ⟨fun e => e.restores_codec.lossless, fun e => e.restores_codec.lossless,
    fun f => f.restores_codec.lossless, fun t => (FunctionTable.restores_codec t).lossless,
    fun r => r.restores_codec.lossless, fun r => r.restores_codec.lossless,
    fun b => b.restores_codec.lossless, fun counts => (Http.restores_abnormalsCodec counts).lossless,
    fun s => ⟨fun h => (PowerSums.restores_codec h).lossless, fun h => (PowerSums.refuses_codec h).refused⟩,
    fun b => ⟨fun h => (Http.StatBody.restores_codec h).lossless,
      fun h => (Http.StatBody.refuses_codec h).refused⟩,
    fun stats => ⟨fun h => ?_, ?_⟩⟩
  · exact ⟨(Http.restores_statsCodec h).lossless, (Http.restores_snapshotCodec h).lossless⟩
  · rintro ⟨e, he, h⟩
    exact ⟨(Http.refuses_statsCodec he h).refused, (Http.refuses_snapshotCodec he h).refused⟩

/-- A batch with one infinite sum is refused, and without it the batch reads back. -/
theorem formats_lossless_infinite :
    let infinite : PowerSums Float := ⟨Binary64.ofNat 1, Binary64.infinity, Binary64.ofNat 0, 3⟩
    let finite : PowerSums Float := ⟨Binary64.ofNat 1, Binary64.ofNat 7, Binary64.ofNat 49, 3⟩
    ¬ infinite.IsFinite ∧ (∃ e, Http.statsCodec.read
        (Http.statsCodec.write (Keyed.ofList [(2, finite), (5, infinite)])) = .error e) ∧
      finite.IsFinite ∧ Http.statsCodec.read (Http.statsCodec.write (Keyed.ofList [(2, finite)])) =
        .ok (Keyed.ofList [(2, finite)]) := by
  intro infinite finite
  obtain ⟨-, -, -, -, -, -, -, -, -, -, hbatch⟩ := formats_lossless
  have hinfinite : ¬ infinite.IsFinite := fun h => absurd h.sum (by decide)
  have hfinite : finite.IsFinite := ⟨by decide, by decide, by decide⟩
  refine ⟨hinfinite, ?_, hfinite, ?_⟩
  · have hrefused := ((hbatch (Keyed.ofList [(2, finite), (5, infinite)])).2
      ⟨(5, infinite), List.mem_cons_of_mem _ (List.mem_singleton_self _), hinfinite⟩).1
    exact hrefused.read _ hrefused.writes
  · have hlossless := ((hbatch (Keyed.ofList [(2, finite)])).1 fun e he => by
      obtain rfl := List.mem_singleton.1 he
      exact hfinite).1
    exact hlossless.read _ hlossless.writes

end TraceAnomaly
