import TraceAnomaly.Proofs.Trace.Codec
import TraceAnomaly.Rank.Report

/-! The records of calls and the reports of frames read back, open calls and roots with their missing fields as
well. -/

namespace TraceAnomaly

open Json (IsNumeral)
open Json.Codec

theorem Label.restores_codec (l : Label) : Label.codec.Restores l := by
  cases l with
  | normal => exact restores_code (Json.isNumeral_writeWord 1) rfl rfl
  | anomalous => exact restores_code (Json.isNumeral_spell true (Json.spells_writeWord 1) none) rfl rfl

theorem Message.restores_codec (m : Message) : Message.codec.Restores m := by
  refine .as (restores_record (by decide) ?_) rfl
  exact ⟨MessageKind.restores_codec _, restores_word _, restores_word _, restores_word _, restores_word _,
    restores_word _, trivial⟩

theorem restores_nullable_word (n : Option UInt64) : (nullable word).Restores n := by
  cases n with
  | none => exact restores_nullable_none
  | some n => exact (restores_word n).nullable (by simp [word])

theorem CallRecord.restores_codec (r : CallRecord) : CallRecord.codec.Restores r := by
  -- the fields that may be `null` are there all the same
  have hoptional : ∀ (n : Option UInt64), ∀ x ∈ some n, (nullable word).Restores x := fun _ x _ =>
    restores_nullable_word x
  refine .as (restores_record (by decide) ?_) rfl
  exact ⟨restores_word _, restores_text _, restores_word _, restores_word _, restores_word _, restores_word _,
    restores_word _, hoptional _, hoptional _, Label.restores_codec _, hoptional _,
    restores_list fun _ _ => restores_word _, restores_list fun m _ => Message.restores_codec m, trivial⟩

theorem FrameReport.restores_codec (r : FrameReport) : FrameReport.codec.Restores r := by
  refine .as (restores_record (by decide) ?_) rfl
  exact ⟨restores_word _, restores_word _, restores_list fun r _ => CallRecord.restores_codec r,
    restores_list fun _ _ => restores_word _, restores_table fun _ _ => restores_word _, restores_bool _, trivial⟩

end TraceAnomaly
