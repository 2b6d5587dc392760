import TraceAnomaly.Proofs.Json.Codec
import TraceAnomaly.Trace.Codec

/-! Events, frames and function tables read back, whatever is in them. -/

namespace TraceAnomaly

open Json.Codec

theorem CallKind.restores_codec (k : CallKind) : CallKind.codec.Restores k :=
  restores_variant (by cases k <;> decide)

theorem MessageKind.restores_codec (k : MessageKind) : MessageKind.codec.Restores k :=
  restores_variant (by cases k <;> decide)

theorem CallEvent.restores_codec (e : CallEvent) : CallEvent.codec.Restores e := by
  refine .as (restores_record (by decide) ?_) rfl
  exact ⟨restores_word _, restores_word _, restores_word _, CallKind.restores_codec _, restores_word _,
    restores_word _, trivial⟩

theorem MessageEvent.restores_codec (e : MessageEvent) : MessageEvent.codec.Restores e := by
  refine .as (restores_record (by decide) ?_) rfl
  exact ⟨restores_word _, restores_word _, restores_word _, MessageKind.restores_codec _, restores_word _,
    restores_word _, restores_word _, restores_word _, trivial⟩

theorem Frame.restores_codec (f : Frame) : Frame.codec.Restores f := by
  refine .as (restores_record (by decide) ?_) rfl
  refine ⟨restores_word _, fun calls hcalls => ?_, fun messages hmessages => ?_, trivial⟩
  · exact restores_list fun e _ => CallEvent.restores_codec e
  · exact restores_list fun e _ => MessageEvent.restores_codec e

theorem FunctionTable.restores_codec (t : FunctionTable) : FunctionTable.codec.Restores t :=
  restores_table fun _ _ => restores_text _

end TraceAnomaly
