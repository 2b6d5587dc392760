import TraceAnomaly.Store.Basic

/-! The JSON bodies that travel between ranks and the server of the shared statistics. -/
namespace TraceAnomaly.Http

open Json (Codec)
open Json.Codec (word text table record)

/-- The statistics of one function. -/
structure StatBody where
  id : UInt64
  stat : PowerSums Float

/-- The anomalies of one function. -/
structure AbnormalBody where
  id : UInt64
  abnormal : UInt64

/-- Where statistics were written to and how many functions there were. -/
structure DumpBody where
  path : String
  functions : UInt64

def StatBody.codec : Codec StatBody :=
  (record (.required "id" word <| .required "stat" PowerSums.codec .nil)).as
    (fun b => (b.id, b.stat, ())) (fun (id, stat, ()) => ⟨id, stat⟩)

def AbnormalBody.codec : Codec AbnormalBody :=
  (record (.required "id" word <| .required "abnormal" word .nil)).as
    (fun b => (b.id, b.abnormal, ())) (fun (id, abnormal, ()) => ⟨id, abnormal⟩)

def DumpBody.codec : Codec DumpBody :=
  (record (.required "path" text <| .required "functions" word .nil)).as
    (fun b => (b.path, b.functions, ())) (fun (path, functions, ()) => ⟨path, functions⟩)

/-- A record with one field. -/
def single {α : Type} (name : String) (c : Codec α) : Codec α :=
  (record (.required name c .nil)).as (fun a => (a, ())) (fun (a, ()) => a)

/-- A batch of statistics. -/
def statsCodec : Codec (Keyed UInt64 (PowerSums Float)) := single "stats" (table PowerSums.codec)

/-- All statistics of a store. -/
def snapshotCodec : Codec (Keyed UInt64 (PowerSums Float)) := single "ps" (table PowerSums.codec)

/-- A batch of anomaly counts. -/
def abnormalsCodec : Codec (Keyed UInt64 UInt64) := single "abnormals" (table word)

/-- A remark without further data. -/
def messageCodec : Codec String := single "message" text

end TraceAnomaly.Http
