import TraceAnomaly.Http.Client
import TraceAnomaly.Proofs.Json.Refusal

/-! Messages whose numbers are finite read back. What a client sends says what it was made from, and so does
what the server answers. A message with a number that is not finite is refused. -/

namespace TraceAnomaly

structure PowerSums.IsFinite (s : PowerSums Float) : Prop where
  weight : s.weight.isFinite
  sum : s.sum.isFinite
  squares : s.squares.isFinite

theorem PowerSums.isFinite_empty : (PowerSums.empty : PowerSums Float).IsFinite :=
  ⟨by decide, by decide, by decide⟩

theorem PowerSums.restores_codec {s : PowerSums Float} (h : s.IsFinite) : PowerSums.codec.Restores s := by
  refine Json.Codec.Restores.as (Json.Codec.restores_tuple trivial ?_) rfl
  exact ⟨Json.Codec.restores_real h.weight, Json.Codec.restores_real h.sum, Json.Codec.restores_real h.squares,
    Json.Codec.restores_word _, trivial⟩

theorem PowerSums.writable_codec (s : PowerSums Float) : Json.Writable (PowerSums.codec.encode s) := by
  refine Json.Codec.writable_tuple trivial ?_
  simp only [Json.Fields.entries, List.forall_mem_cons]
  exact ⟨Json.Codec.writable_real _, Json.Codec.writable_real _, Json.Codec.writable_real _,
    (Json.Codec.restores_word _).writable, by simp⟩

theorem PowerSums.refuses_codec {s : PowerSums Float} (h : ¬ s.IsFinite) : PowerSums.codec.Refuses s := by
  refine .as _ (Json.Codec.refuses_tuple trivial s.writable_codec ?_)
  by_cases hweight : s.weight.isFinite
  · by_cases hsum : s.sum.isFinite
    · have hsquares : ¬ s.squares.isFinite := fun hsquares => h ⟨hweight, hsum, hsquares⟩
      exact .inr (.inr (.inl (Json.Codec.refuses_real hsquares)))
    · exact .inr (.inl (Json.Codec.refuses_real hsum))
  · exact .inl (Json.Codec.refuses_real hweight)

namespace Http

open Json (Codec)

variable {α : Type}

theorem restores_single {c : Codec α} {a : α} (name : String) (h : c.Restores a) :
    (single name c).Restores a := by
  refine Json.Codec.Restores.as (Json.Codec.restores_record (List.nodup_singleton name) ?_) rfl
  exact ⟨h, trivial⟩

theorem StatBody.restores_codec {b : StatBody} (h : b.stat.IsFinite) : StatBody.codec.Restores b := by
  refine Json.Codec.Restores.as (Json.Codec.restores_record (by decide) ?_) rfl
  exact ⟨Json.Codec.restores_word _, PowerSums.restores_codec h, trivial⟩

theorem AbnormalBody.restores_codec (b : AbnormalBody) : AbnormalBody.codec.Restores b := by
  refine Json.Codec.Restores.as (Json.Codec.restores_record (by decide) ?_) rfl
  exact ⟨Json.Codec.restores_word _, Json.Codec.restores_word _, trivial⟩

theorem restores_statsCodec {batch : Keyed UInt64 (PowerSums Float)}
    (h : ∀ e ∈ batch.toList, e.2.IsFinite) : statsCodec.Restores batch :=
  restores_single "stats" (Json.Codec.restores_table fun e he => PowerSums.restores_codec (h e he))

theorem restores_snapshotCodec {stats : Keyed UInt64 (PowerSums Float)}
    (h : ∀ e ∈ stats.toList, e.2.IsFinite) : snapshotCodec.Restores stats :=
  restores_single "ps" (Json.Codec.restores_table fun e he => PowerSums.restores_codec (h e he))

theorem restores_abnormalsCodec (counts : Keyed UInt64 UInt64) : abnormalsCodec.Restores counts :=
  restores_single "abnormals" (Json.Codec.restores_table fun _ _ => Json.Codec.restores_word _)

theorem restores_messageCodec (text : String) : messageCodec.Restores text :=
  restores_single "message" (Json.Codec.restores_text text)

/-! ### Numbers that are not finite -/

theorem refuses_single {c : Codec α} {a : α} (name : String) (h : c.Refuses a) : (single name c).Refuses a := by
  refine .as _ (Json.Codec.refuses_record (List.nodup_singleton name) (Json.Codec.writable_record ?_) (.inl h))
  simpa [Json.Fields.entries] using h.writable

theorem StatBody.refuses_codec {b : StatBody} (h : ¬ b.stat.IsFinite) : StatBody.codec.Refuses b := by
  refine .as _ (Json.Codec.refuses_record (by decide) (Json.Codec.writable_record ?_)
    (.inr (.inl (PowerSums.refuses_codec h))))
  simp only [Json.Fields.entries, List.forall_mem_cons]
  exact ⟨(Json.Codec.restores_word _).writable, PowerSums.writable_codec _, by simp⟩

theorem refuses_statsCodec {batch : Keyed UInt64 (PowerSums Float)} {e : UInt64 × PowerSums Float}
    (he : e ∈ batch.toList) (h : ¬ e.2.IsFinite) : statsCodec.Refuses batch :=
  refuses_single "stats" (Json.Codec.refuses_table (fun e _ => e.2.writable_codec) he (PowerSums.refuses_codec h))

theorem refuses_snapshotCodec {stats : Keyed UInt64 (PowerSums Float)} {e : UInt64 × PowerSums Float}
    (he : e ∈ stats.toList) (h : ¬ e.2.IsFinite) : snapshotCodec.Refuses stats :=
  refuses_single "ps" (Json.Codec.refuses_table (fun e _ => e.2.writable_codec) he (PowerSums.refuses_codec h))

end Http

end TraceAnomaly
