import TraceAnomaly.Http.Service
import TraceAnomaly.Proofs.Json.Indented
import TraceAnomaly.Proofs.Json.Refusal
import TraceAnomaly.Proofs.Store.History
import TraceAnomaly.Proofs.Text.Lines

/-! What a dump tells of a store. It is one document with a row for every function, in the order of the bytes of
their decimal numbers, and whatever is in the store, the numbers of a row read back. -/

namespace TraceAnomaly

open Json (Codec Writable IsSpelling readText readFront writeWord)

/-! ### Bytes of decimal numbers -/

namespace Text

theorem le_nine {c : Char} (h : Decimal.isDigit c) : c.val.toNat ≤ 57 := by
  have hdigit : '0' ≤ c ∧ c ≤ '9' := by simpa [Decimal.isDigit] using h
  exact hdigit.2

theorem encode_cons_digit {c : Char} (h : Decimal.isDigit c) (cs : List Char) :
    encode (c :: cs) = c.val.toUInt8 :: encode cs := by
  rw [encode_cons, utf8EncodeChar_of_lt (Nat.lt_of_le_of_lt (le_nine h) (by decide))]
  rfl

/-- Decimal numbers have the same order as texts and as bytes. -/
theorem encode_lt {cs ds : List Char} (hcs : ∀ c ∈ cs, Decimal.isDigit c) (hds : ∀ d ∈ ds, Decimal.isDigit d)
    (h : cs < ds) : encode cs < encode ds := by
  induction cs generalizing ds with
  | nil =>
    cases ds with
    | nil => cases h
    | cons d ds =>
      rw [encode_nil, encode_cons_digit (hds d (List.mem_cons_self ..))]
      exact List.nil_lt_cons _ _
  | cons c cs ih =>
    cases ds with
    | nil => cases h
    | cons d ds =>
      obtain ⟨hc, hcs⟩ := List.forall_mem_cons.1 hcs
      obtain ⟨hd, hds⟩ := List.forall_mem_cons.1 hds
      rw [encode_cons_digit hc, encode_cons_digit hd, List.cons_lt_cons_iff]
      refine (List.cons_lt_cons_iff.1 h).imp (fun hlt => ?_) fun ⟨heq, hlt⟩ => ⟨by rw [heq], ih hcs hds hlt⟩
      have hsmaller : c.val.toNat < d.val.toNat := hlt
      have hsmall := le_nine hd
      rw [UInt8.lt_iff_toNat_lt, UInt32.toNat_toUInt8, UInt32.toNat_toUInt8]
      omega

end Text

/-! ### Files -/

namespace Files

variable {fs fs' : Files} {path : String} {content : List UInt8}

theorem isDirectory_insert_file {place : Place} (h : fs.isDirectory place = false) (other : Place) :
    isDirectory { fs with entries := fs.entries.insert place (.file content) } other = fs.isDirectory other := by
  simp only [isDirectory, Bool.or_eq_false_iff] at h ⊢
  rw [Keyed.get?_insert]
  by_cases hother : other = place
  · rw [if_pos hother, hother, h.1, h.2]
    rfl
  · rw [if_neg hother]

theorem walk_congr (h : ∀ place, fs'.isDirectory place = fs.isDirectory place) (place : Place)
    (names : List String) : fs'.walk place names = fs.walk place names := by
  induction names generalizing place with
  | nil => rfl
  | cons name rest ih => simp only [walk, h, ih]

/-- What has been written to a path is what is read there. -/
theorem read_write (h : fs.write path content = some fs') : fs'.read path = some content := by
  unfold write at h
  split at h
  · cases h
  · rename_i place hplace
    split at h
    · cases h
    · rename_i hdirectory
      obtain rfl := Option.some.inj h
      have hlocate : locate { fs with entries := fs.entries.insert place (.file content) } path = some place := by
        rw [← hplace, locate, locate]
        exact congrArg _ (walk_congr (isDirectory_insert_file (by simpa using hdirectory)) _ _)
      rw [read, hlocate, Option.bind_some, Keyed.get?_insert, if_pos rfl]

end Files

/-! ### Rows -/

def finite? (x : Float) : Option Float := if x.isFinite then some x else none

def rowCodec : Codec (List (Option Float)) := (Codec.nullable Codec.real).list

theorem decode_nullable_real (x : Float) :
    (Codec.nullable Codec.real).decode (Codec.real.encode x) = .ok (finite? x) := by
  by_cases h : x.isFinite
  · obtain ⟨v, hv⟩ := Json.Codec.exists_kind_of_isFinite h
    have hnull : Codec.real.encode x ≠ .null := by simp [Codec.real, hv]
    rw [finite?, if_pos h]
    exact ((Json.Codec.restores_real h).nullable hnull).decode_encode
  · rw [finite?, if_neg h, Json.Codec.encode_real_of_not_isFinite h]
    rfl

theorem decode_row (xs : List Float) : rowCodec.decode (Codec.real.list.encode xs) = .ok (xs.map finite?) := by
  change (xs.map Codec.real.encode).mapM (Codec.nullable Codec.real).decode = _
  induction xs with
  | nil => rfl
  | cons x xs ih =>
    rw [List.map_cons, List.mapM_cons, decode_nullable_real, ih]
    rfl

namespace Store

variable (s : Store Float)

theorem toList_toString (f : UInt64) : (toString f).toList = writeWord f := String.toList_ofList

theorem isDigit_toString (f : UInt64) : ∀ c ∈ (toString f).toList, Decimal.isDigit c := by
  rw [toList_toString]
  exact fun c => Decimal.isDigit_of_mem_digits

theorem toString_injective {f g : UInt64} (h : toString f = toString g) : f = g := by
  have hread := Json.readWord_writeWord f
  rw [← toList_toString, h, toList_toString, Json.readWord_writeWord] at hread
  exact (Except.ok.inj hread).symm

theorem rows_perm : s.rows.Perm (s.toList.map fun e => (toString e.1, e.2.row)) := List.mergeSort_perm _ _

variable {s} in
theorem mem_rows {r : String × List Float} :
    r ∈ s.rows ↔ ∃ f v, s.get? f = some v ∧ r = (toString f, v.row) := by
  rw [s.rows_perm.mem_iff, List.mem_map]
  constructor
  · rintro ⟨⟨f, v⟩, he, rfl⟩
    exact ⟨f, v, Keyed.get?_eq_some_iff.2 he, rfl⟩
  · rintro ⟨f, v, hv, rfl⟩
    exact ⟨(f, v), Keyed.get?_eq_some_iff.1 hv, rfl⟩

theorem length_rows : s.rows.length = s.size := by
  rw [s.rows_perm.length_eq, List.length_map]
  rfl

theorem nodup_keys_rows : (s.rows.map Prod.fst).Nodup := by
  have hkeys : (s.keys.map toString).Nodup := (Keyed.nodup_keys s).map fun _ _ => toString_injective
  refine ((s.rows_perm.map Prod.fst).trans (.of_eq ?_)).nodup_iff.2 hkeys
  rw [Keyed.keys_eq, List.map_map, List.map_map]
  rfl

/-- The rows ascend strictly: no two functions have one decimal number. -/
theorem pairwise_rows : s.rows.Pairwise fun a b => a.1 < b.1 := by
  have hsorted : s.rows.Pairwise fun a b => decide (a.1 ≤ b.1) = true :=
    List.pairwise_mergeSort (fun a b c hab hbc => decide_eq_true
      (String.le_trans (of_decide_eq_true hab : a.1 ≤ b.1) (of_decide_eq_true hbc : b.1 ≤ c.1)))
      (fun a b => by simpa using String.le_total a.1 b.1) _
  have hdistinct : s.rows.Pairwise fun a b => a.1 ≠ b.1 := List.pairwise_map.1 s.nodup_keys_rows
  refine (hsorted.and hdistinct).imp fun ⟨hle, hne⟩ => ?_
  exact lt_of_le_of_ne (of_decide_eq_true hle) hne

/-- The document has one member for every function, in the order of the bytes of the keys, and each one holds the
numbers of its function, `null` where a number is not finite. -/
structure DescribedBy (members : List (List Char × Json)) : Prop where
  length : members.length = s.size
  ascending : members.Pairwise fun m n => Text.encode m.1 < Text.encode n.1
  tracked : ∀ m ∈ members, ∃ f v, s.get? f = some v ∧ m.1 = (toString f).toList ∧ readText m.1 = .ok (toString f) ∧
    rowCodec.decode m.2 =
      .ok [finite? v.mean, finite? v.deviation, finite? v.weight, finite? v.sum, finite? v.squares]
  complete : ∀ f v, s.get? f = some v → ∃ m ∈ members, m.1 = (toString f).toList

theorem writable_document : Writable s.document := by
  refine .object (fun m hm => ?_) fun m hm => ?_
  · obtain ⟨r, hr, rfl⟩ := List.mem_map.1 hm
    obtain ⟨f, v, -, rfl⟩ := mem_rows.1 hr
    have hkey := Json.isSpelling_writeWord f
    rwa [← toList_toString] at hkey
  · obtain ⟨r, -, rfl⟩ := List.mem_map.1 hm
    refine .array fun x hx => ?_
    obtain ⟨x, -, rfl⟩ := List.mem_map.1 hx
    exact Json.Codec.writable_real x

theorem exists_describedBy : ∃ members, readFront s.dumpText = (.object members, []) ∧ s.DescribedBy members := by
  refine ⟨_, Json.readFront_indented_whole s.writable_document 0, ?_, ?_, fun m hm => ?_, fun f v hv => ?_⟩
  · rw [List.length_map, length_rows]
  · rw [List.pairwise_map]
    refine List.Pairwise.imp_of_mem (fun {a b} ha hb hab => ?_) s.pairwise_rows
    obtain ⟨f, v, -, rfl⟩ := mem_rows.1 ha
    obtain ⟨g, w, -, rfl⟩ := mem_rows.1 hb
    have hlt : (toString f).toList < (toString g).toList := String.lt_iff_toList_lt.1 hab
    exact Text.encode_lt (isDigit_toString f) (isDigit_toString g) hlt
  · obtain ⟨r, hr, rfl⟩ := List.mem_map.1 hm
    obtain ⟨f, v, hv, rfl⟩ := mem_rows.1 hr
    refine ⟨f, v, hv, rfl, ?_, decode_row v.row⟩
    have hkey := Json.readText_escape (toString f)
    rwa [Json.escape_of_digits (isDigit_toString f)] at hkey
  · exact ⟨_, List.mem_map_of_mem (mem_rows.2 ⟨f, v, hv, rfl⟩), rfl⟩

end Store

/-! ### Functions without samples -/

def Query.sampled {α ρ : Type} : Query α ρ → List UInt64
  | .update id _ => [id]
  | .updateAll batch => batch.keys
  | _ => []

/-- Where no samples are added, the row stays as it is. -/
theorem Query.row_effect {ρ : Type} {q : Query Float ρ} (hq : q.isClear = false) {f : UInt64} (hf : f ∉ q.sampled)
    (v : PowerSums Float) : (q.effect f v).row = v.row := by
  cases q with
  | update id delta => rw [effect, if_neg (by simpa [sampled] using hf)]
  | updateAll batch => rw [effect, Keyed.get?_eq_none_iff.2 hf]
  | value id => rfl
  | values => rfl
  | addAbnormal id n =>
    rw [effect]
    split <;> rfl
  | addAbnormalAll counts =>
    rw [effect]
    split <;> rfl
  | clear => cases hq

namespace Store

theorem row_effects {f : UInt64} {qs : List (AnyQuery Float)}
    (h : ∀ q ∈ qs, q.2.isClear = false ∧ f ∉ q.2.sampled) (v : PowerSums Float) :
    (effects f v qs).row = v.row := by
  induction qs generalizing v with
  | nil => rfl
  | cons q qs ih =>
    obtain ⟨⟨hclear, hf⟩, hqs⟩ := List.forall_mem_cons.1 h
    exact (ih hqs (q.2.effect f v)).trans (Query.row_effect hclear hf v)

/-- What has been given no samples since the last reset has the row of nothing, with an infinite deviation. -/
theorem row_of_not_sampled {qs : List (AnyQuery Float)} {f : UInt64} (h : ∀ q ∈ sinceClear qs, f ∉ q.2.sampled) :
    ((empty.run qs).value f).row = PowerSums.empty.row := by
  rw [value_run]
  refine row_effects (fun q hq => ?_) _
  have hsince := List.mem_of_mem_filter hq
  exact ⟨by simpa using List.mem_rtakeWhile_imp hsince, h q hsince⟩

/-! ### The dump -/

/-- Whatever directories a dump has made, its text is written last. -/
theorem exists_write_of_dump {s : Store Float} {path : String} {fs fs' : Files} (h : s.dump path fs = .ok fs') :
    ∃ fs₁ : Files, fs₁.write path (Text.encode s.dumpText) = some fs' := by
  unfold dump at h
  dsimp only [bind, Except.bind] at h
  split at h
  case h_3 directory _ hparent =>
    cases hmade : fs.createDirectories directory with
    | none =>
      rw [hmade] at h
      cases h
    | some fs₁ =>
      rw [hmade] at h
      dsimp only at h
      split at h
      · rename_i fs₂ hwrite
        exact ⟨fs₁, hwrite.trans (congrArg some (Except.ok.inj h))⟩
      · cases h
  all_goals
    split at h
    · rename_i fs₂ hwrite
      exact ⟨fs, hwrite.trans (congrArg some (Except.ok.inj h))⟩
    · cases h

theorem read_dump {s : Store Float} {path : String} {fs fs' : Files} (h : s.dump path fs = .ok fs') :
    fs'.read path = some (Text.encode s.dumpText) := by
  obtain ⟨fs₁, hwrite⟩ := exists_write_of_dump h
  exact Files.read_write hwrite

/-- A dump is one document that describes the whole store, and it is what is read at the path afterwards. The
number of its rows, which the server answers with, is that of the functions. A function that has been given no
samples since the last reset has no deviation in its row. -/
theorem dump_describes :
    (∀ s : Store Float, ∃ members, readFront s.dumpText = (.object members, []) ∧ s.DescribedBy members) ∧
    (∀ (qs : List (AnyQuery Float)) (f : UInt64) (v : PowerSums Float), (empty.run qs).get? f = some v →
      (∀ q ∈ sinceClear qs, f ∉ q.2.sampled) →
      v.row.map finite? = [some (Binary64.ofNat 0), none, some (Binary64.ofNat 0), some (Binary64.ofNat 0),
        some (Binary64.ofNat 0)]) ∧
    (∀ (s : Store Float) (path : String) (fs fs' : Files), s.dump path fs = .ok fs' →
      fs'.read path = some (Text.encode s.dumpText) ∧ (fs'.read path).bind Text.decode = some s.dumpText) ∧
    ∀ (service : Http.Service) (path : String) (fs : Files), service.dumpPath = some path →
      service.store.dump path service.files = .ok fs →
      service.writeDump.2 = .json (Http.DumpBody.codec.write ⟨path, UInt64.ofNat service.store.size⟩) := by
  refine ⟨exists_describedBy, fun qs f v hv h => ?_, fun s path fs fs' h => ?_, fun service path fs hpath h => ?_⟩
  · have hrow := row_of_not_sampled h
    rw [value_of_get? hv] at hrow
    rw [hrow]
    decide +kernel
  · have hread := read_dump h
    refine ⟨hread, ?_⟩
    rw [hread, Option.bind_some, Text.decode_encode]
  · rw [Http.Service.writeDump, hpath]
    simp only [h, length_rows]

/-- Two samples of function ten and one anomaly of function nine, of which ten stands first and nine has no
deviation. -/
theorem dump_describes_anomaly_only :
    let qs : List (AnyQuery Float) :=
      [⟨_, .update 10 (.ofSamples [Binary64.ofNat 2, Binary64.ofNat 4])⟩, ⟨_, .addAbnormal 9 1⟩]
    let s := empty.run qs
    let service : Http.Service := { store := s, dumpPath := some "stats.json" }
    (∃ members, readFront s.dumpText = (.object members, []) ∧ s.DescribedBy members ∧ members.length = 2) ∧
      Text.encode "10".toList < Text.encode "9".toList ∧
      (∃ v, s.get? 9 = some v ∧ finite? v.deviation = none) ∧
      (∃ fs, s.dump "stats.json" {} = .ok fs ∧ fs.read "stats.json" = some (Text.encode s.dumpText)) ∧
      service.writeDump.2 = .json (Http.DumpBody.codec.write ⟨"stats.json", 2⟩) := by
  intro qs s service
  obtain ⟨hall, hrow, hread, hanswer⟩ := dump_describes
  obtain ⟨members, hfront, hmembers⟩ := hall s
  have hsize : s.size = 2 := (size_run qs).trans (by decide)
  have hnine : s.get? 9 = some (PowerSums.empty.addAbnormal 1) := by decide +kernel
  have hdump : ∃ fs, s.dump "stats.json" {} = .ok fs := by
    have hparent : Files.parent "stats.json" = some "" := by decide +kernel
    refine ⟨{ entries := Keyed.empty.insert ["stats.json"] (.file (Text.encode s.dumpText)) }, ?_⟩
    simp only [dump, hparent]
    rfl
  obtain ⟨fs, hfs⟩ := hdump
  refine ⟨⟨members, hfront, hmembers, hmembers.length.trans hsize⟩, by decide +kernel, ⟨_, hnine, ?_⟩,
    ⟨fs, hfs, (hread s _ _ _ hfs).1⟩, ?_⟩
  · have hnone := hrow qs 9 _ hnine (by decide)
    exact (List.cons.inj (List.cons.inj hnone).2).1
  · have hreply := hanswer service "stats.json" fs rfl hfs
    rwa [show service.store.size = 2 from hsize] at hreply

end Store

end TraceAnomaly
