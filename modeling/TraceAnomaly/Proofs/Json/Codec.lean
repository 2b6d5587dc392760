import TraceAnomaly.Proofs.Json.Arrangement
import TraceAnomaly.Proofs.Json.Bytes
import TraceAnomaly.Proofs.Keyed.Update

/-! Codecs that give a value back, in whatever order the members of objects are written. Each way to build a
codec from others keeps that property, so a message reads back as soon as the numbers in it do. -/

namespace TraceAnomaly.Json

variable {α β σ : Type}

/-- The codec reads the value back from the text that it writes for it, and from every arrangement of it. -/
structure Codec.Restores (c : Codec α) (a : α) : Prop where
  writable : Writable (c.encode a)
  decode_rearranged : ∀ j, Rearranged (c.encode a) j → c.decode j = .ok a

/-- A text of a value: what the codec writes for it, with the members of objects in some order. -/
def Codec.Writes (c : Codec α) (a : α) (text : List Char) : Prop :=
  ∃ j, Rearranged (c.encode a) j ∧ text = j.compact

theorem Codec.writes_write {c : Codec α} {a : α} (h : Writable (c.encode a)) : c.Writes a (c.write a) :=
  ⟨_, h.rearranged_self, rfl⟩

/-- The document in a text is all there is to read. -/
theorem Codec.read_compact (c : Codec α) {j : Json} (h : Writable j) : c.read j.compact = c.decode j := by
  have hfront := readFront_compact h Stops.nil
  rw [List.append_nil, show tokens [] = [] by rw [tokens]] at hfront
  rw [read, hfront]
  cases hj : c.decode j with
  | error e => simp only [hj]; rfl
  | ok a => simp only [hj]; rfl

namespace Codec.Restores

variable {c : Codec α} {a : α}

theorem decode_encode (h : c.Restores a) : c.decode (c.encode a) = .ok a :=
  h.decode_rearranged _ h.writable.rearranged_self

/-- What holds no other documents has one arrangement. -/
theorem of_isAtom (hatom : (c.encode a).isAtom) (hwritable : Writable (c.encode a))
    (hdecode : c.decode (c.encode a) = .ok a) : c.Restores a :=
  ⟨hwritable, fun j hj => by rw [hj.eq_of_isAtom hatom, hdecode]⟩

theorem readStart_write (h : c.Restores a) : c.readStart (c.write a) = .ok a := by
  have hfront := readFront_compact h.writable Stops.nil
  rw [List.append_nil] at hfront
  rw [readStart, write, ofBytes_encode, hfront, h.decode_encode]

theorem read_of_writes (h : c.Restores a) {text : List Char} (htext : c.Writes a text) :
    c.read text = .ok a := by
  obtain ⟨j, hj, rfl⟩ := htext
  rw [c.read_compact (h.writable.of_rearranged hj), h.decode_rearranged j hj]

theorem read_write (h : c.Restores a) : c.read (c.write a) = .ok a :=
  h.read_of_writes (writes_write h.writable)

end Codec.Restores

/-! ### Single values -/

theorem spells_writeWord (n : UInt64) : Spells (writeWord n) [] := by
  by_cases hn : n.toNat = 0
  · rw [writeWord, hn]
    exact ⟨fun _ => Decimal.isDigit_of_mem_digits, by simp, .inl rfl⟩
  · exact spells_digits (Nat.pos_of_ne_zero hn) (by simp)

theorem writeWord_eq_spell (n : UInt64) : writeWord n = Decimal.minus false (spell (writeWord n) [] none) := by
  simp [Decimal.minus, spell, pointed, powered]

theorem isNumeral_writeWord (n : UInt64) : IsNumeral (writeWord n) := by
  rw [writeWord_eq_spell]
  exact isNumeral_spell false (spells_writeWord n) none

theorem escape_of_digits {cs : List Char} (h : ∀ c ∈ cs, Decimal.isDigit c) : escape cs = cs := by
  have hchar : ∀ c, Decimal.isDigit c → escapeChar c = [c] := by
    intro c hc
    have hne : ∀ d, Decimal.isDigit d = false → c ≠ d := fun _ => Decimal.ne_of_isDigit hc
    have hlow : 48 ≤ c.toNat := (by simpa [Decimal.isDigit] using hc : '0' ≤ c ∧ c ≤ '9').1
    have hge : ¬ c < ' ' := fun hlt => by
      have : c.toNat < 32 := hlt
      omega
    unfold escapeChar
    split
    all_goals first | exact absurd rfl (hne _ rfl) | rw [if_neg hge]
  induction cs with
  | nil => rfl
  | cons c cs ih =>
    rw [escape, List.flatMap_cons, hchar c (h c (List.mem_cons_self ..)), ← escape,
      ih fun d hd => h d (List.mem_cons_of_mem c hd), List.singleton_append]

theorem isSpelling_writeWord (n : UInt64) : IsSpelling (writeWord n) :=
  escape_of_digits (spells_writeWord n).whole_digits ▸ isSpelling_escape (writeWord n)

theorem readWord_writeWord (n : UInt64) : readWord (writeWord n) = .ok n := by
  have hdigits := (spells_writeWord n).whole_digits
  obtain ⟨c, cs, hcs⟩ := List.exists_cons_of_ne_nil (spells_writeWord n).ne_nil
  have hc : Decimal.isDigit c := hdigits c (hcs ▸ List.mem_cons_self ..)
  have hintegral : isIntegral (writeWord n) := by
    rw [isIntegral, List.all_eq_true]
    exact fun d hd => by simp [hdigits d hd]
  have hread : readInteger (writeWord n) = n.toNat := by
    have hvalue : (Decimal.ofDigits (writeWord n) : ℤ) = n.toNat := by
      rw [writeWord, Decimal.ofDigits_digits]
    rw [← hvalue, hcs]
    unfold readInteger
    split
    · rename_i heq
      cases heq
      exact absurd hc (by decide)
    · rename_i heq
      cases heq
      exact absurd hc (by decide)
    · rfl
  have hzero : writeWord n ≠ ['-', '0'] := fun h => by
    rw [hcs] at h
    cases h
    exact absurd hc (by decide)
  have hmax : (n.toNat : ℤ) ≤ UInt64.size - 1 := by
    have := n.toNat_lt
    simp only [UInt64.size]
    omega
  rw [readWord, readBounded, hread, if_pos ⟨hintegral, hzero, Int.natCast_nonneg _, hmax⟩]
  simp [Except.map]

theorem readText_escape (s : String) : readText (escape s.toList) = .ok s := by
  rw [readText, unescape_escape]
  exact congrArg Except.ok String.ofList_toList

namespace Codec

theorem restores_word (n : UInt64) : word.Restores n :=
  .of_isAtom rfl (.number (isNumeral_writeWord n)) (readWord_writeWord n)

theorem exists_kind_of_isFinite {x : Float} (h : x.isFinite) : ∃ v, Binary64.kind x = .finite v := by
  have hfinite : x.toModel.unpack.isFinite = true := h
  rw [Binary64.kind]
  cases hx : x.toModel.unpack with
  | notANumber => simp [hx, Float.Model.UnpackedFloat.isFinite] at hfinite
  | infinity s => simp [hx, Float.Model.UnpackedFloat.isFinite] at hfinite
  | zero s => exact ⟨_, rfl⟩
  | finite s m e hm => exact ⟨_, rfl⟩

theorem restores_real {x : Float} (h : x.isFinite) : real.Restores x := by
  obtain ⟨v, hv⟩ := exists_kind_of_isFinite h
  obtain ⟨whole, fraction, power, htext, hspells, -⟩ := exists_writeReal_eq hv
  have hencode : real.encode x = .number (writeReal x v) := by simp only [real, hv]
  refine .of_isAtom (by rw [hencode]; rfl) ?_ ?_
  · rw [hencode, htext]
    exact .number (isNumeral_spell v.negative hspells power)
  · rw [hencode]
    simp only [real, readReal_writeReal hv]

theorem restores_bool (b : Bool) : bool.Restores b := .of_isAtom rfl (.bool b) rfl

theorem restores_text (s : String) : text.Restores s :=
  .of_isAtom rfl (.string (isSpelling_escape _)) (readText_escape s)

/-- A value is found again under its name if no other one has it. -/
theorem restores_variant {name : α → String} {values : List α} {a : α}
    (h : values.find? (name · = name a) = some a) : (variant name values).Restores a := by
  refine .of_isAtom rfl (.string (isSpelling_escape _)) ?_
  simp only [variant, readText_escape]
  change variant.named name values (name a) = _
  rw [variant.named, h]

/-- A value is found again under its code if no other one has it. -/
theorem restores_code {code : α → Int} {values : List α} {a : α}
    (hnumeral : IsNumeral (toString (code a)).toList)
    (hread : readBounded (-128) 127 (toString (code a)).toList = .ok (code a))
    (h : values.find? (code · = code a) = some a) : (Codec.code code values).Restores a := by
  refine .of_isAtom rfl (.number hnumeral) ?_
  simp only [Codec.code, hread, bind, Except.bind, h]

section Combined

variable {c : Codec α}

theorem Restores.as {toBase : β → α} {ofBase : α → β} {b : β} (h : c.Restores (toBase b))
    (hback : ofBase (toBase b) = b) : (c.as toBase ofBase).Restores b where
  writable := h.writable
  decode_rearranged j hj := by
    change (c.decode j).map ofBase = _
    rw [h.decode_rearranged j hj, Except.map, hback]

theorem read_as (c : Codec α) (toBase : β → α) (ofBase : α → β) (cs : List Char) :
    (c.as toBase ofBase).read cs = (c.read cs).map ofBase := by
  simp only [read, Codec.as]
  cases c.decode (readFront cs).1 with
  | error e => rfl
  | ok a =>
    by_cases h : (readFront cs).2 = []
    · simp [Except.map, bind, Except.bind, h]
    · simp [Except.map, bind, Except.bind, h]

theorem Restores.nullable {a : α} (h : c.Restores a) (hnull : c.encode a ≠ .null) :
    c.nullable.Restores (some a) where
  writable := h.writable
  decode_rearranged j hj := by
    have hj : Rearranged (c.encode a) j := hj
    -- what is not `null` is left to the codec inside
    have hne : j ≠ .null := by
      rintro rfl
      generalize c.encode a = k at hj hnull
      cases hj
      exact hnull rfl
    simp only [Codec.nullable, h.decode_rearranged j hj]
    rfl

theorem restores_nullable_none : c.nullable.Restores none := .of_isAtom rfl .null rfl

theorem restores_list {as : List α} (h : ∀ a ∈ as, c.Restores a) : c.list.Restores as where
  writable := by
    refine .array fun v hv => ?_
    obtain ⟨a, ha, rfl⟩ := List.mem_map.1 hv
    exact (h a ha).writable
  decode_rearranged j hj := by
    cases hj with
    | @array _ items hitems =>
      change items.mapM c.decode = _
      rw [List.forall₂_map_left_iff] at hitems
      induction hitems with
      | nil => rfl
      | @cons a v rest items hav _ ih =>
        obtain ⟨ha, hrest⟩ := List.forall_mem_cons.1 h
        rw [List.mapM_cons, ha.decode_rearranged v hav, ih hrest]
        rfl

theorem readKey_writeWord (n : UInt64) : readKey (writeWord n) = .ok n := by
  have hscan := (isNumeral_writeWord n).scans [] Stops.nil
  rw [List.append_nil] at hscan
  rw [readKey, hscan]
  simp only [readWord_writeWord]
  rfl

theorem writable_table {m : Keyed UInt64 α} (h : ∀ e ∈ m.toList, Writable (c.encode e.2)) :
    Writable ((table c).encode m) := by
  refine .object (fun e he => ?_) (fun e he => ?_)
  · obtain ⟨⟨k, a⟩, -, rfl⟩ := List.mem_map.1 he
    exact isSpelling_writeWord k
  · obtain ⟨⟨k, a⟩, hm, rfl⟩ := List.mem_map.1 he
    exact h _ hm

/-- A table reads back entry by entry. -/
theorem restores_table {m : Keyed UInt64 α} (h : ∀ e ∈ m.toList, c.Restores e.2) :
    (table c).Restores m where
  writable := writable_table fun e he => (h e he).writable
  decode_rearranged j hj := by
    obtain ⟨members, rfl, es, hperm, hpairs⟩ := Rearranged.members_map hj
    have hes : ∀ e ∈ es, c.Restores e.2 := fun e he => h e (hperm.mem_iff.2 he)
    have hfold : ∀ start : Keyed UInt64 α, members.foldlM (fun m member => do
        let n ← readKey member.1
        let a ← c.decode member.2
        .ok (m.insert n a)) start = Except.ok (start.insertAll es) := by
      clear hperm hj
      induction hpairs with
      | nil => exact fun _ => rfl
      | @cons e member es members hmember _ ih =>
        intro start
        obtain ⟨he, hrest⟩ := List.forall_mem_cons.1 hes
        rw [List.foldlM_cons, ← hmember.1]
        simp only [readKey_writeWord, he.decode_rearranged _ hmember.2]
        exact ih hrest (start.insert e.1 e.2)
    exact (hfold Keyed.empty).trans (congrArg Except.ok (Keyed.ofList_of_perm hperm.symm))

end Combined

end Codec

/-! ### Records -/

namespace Fields

def names : {β σ : Type} → Fields β σ → List String
  | _, _, .nil => []
  | _, _, .required n _ rest => n :: rest.names
  | _, _, .optional n _ rest => n :: rest.names

/-- Every field that has a value is restored by its codec. -/
def Restores : {β σ : Type} → Fields β σ → β → Prop
  | _, _, .nil, () => True
  | _, _, .required _ c rest, (a, b) => c.Restores a ∧ rest.Restores b
  | _, _, .optional _ c rest, (a, b) => (∀ x ∈ a, c.Restores x) ∧ rest.Restores b

/-- The slots that hold a record. -/
def slots : {β σ : Type} → Fields β σ → β → σ
  | _, _, .nil, () => ()
  | _, _, .required _ _ rest, (a, b) => (some a, rest.slots b)
  | _, _, .optional _ _ rest, (a, b) => (a, rest.slots b)

def Complete : {β σ : Type} → Fields β σ → β → Prop
  | _, _, .nil, () => True
  | _, _, .required _ _ rest, (_, b) => rest.Complete b
  | _, _, .optional _ _ rest, (a, b) => a.isSome ∧ rest.Complete b

/-- The fields that have a value, by name. -/
def entries : {β σ : Type} → Fields β σ → β → List (String × Json)
  | _, _, .nil, () => []
  | _, _, .required n c rest, (a, b) => (n, c.encode a) :: rest.entries b
  | _, _, .optional n c rest, (some a, b) => (n, c.encode a) :: rest.entries b
  | _, _, .optional _ _ rest, (none, b) => rest.entries b

/-- The slots when the fields of some names have been read. -/
def filled : {β σ : Type} → Fields β σ → β → (String → Bool) → σ
  | _, _, .nil, (), _ => ()
  | _, _, .required n _ rest, (a, b), seen => (if seen n then some a else none, rest.filled b seen)
  | _, _, .optional n _ rest, (a, b), seen => (if seen n then a else none, rest.filled b seen)

variable {fs : Fields β σ} {b : β}

/-- Reads the members of an object into the slots of their fields. -/
def takeAll (isSealed : Bool) (fs : Fields β σ) (members : List (List Char × Json)) (slots : σ) : Except Fault σ :=
  members.foldlM (fun slots member => do fs.take isSealed (← readText member.1) member.2 slots) slots

theorem ofMembers_eq (isSealed : Bool) (fs : Fields β σ) (members : List (List Char × Json)) :
    fs.ofMembers isSealed members = fs.takeAll isSealed members fs.noSlots >>= fs.finish := rfl

theorem takeAll_cons (isSealed : Bool) (name : String) (v : Json) (members : List (List Char × Json)) (slots : σ) :
    fs.takeAll isSealed ((escape name.toList, v) :: members) slots =
      fs.take isSealed name v slots >>= fs.takeAll isSealed members := by
  rw [takeAll, List.foldlM_cons]
  simp only [readText_escape]
  rfl

theorem toMembers_eq (fs : Fields β σ) (b : β) :
    fs.toMembers b = (fs.entries b).map fun e => (escape e.1.toList, e.2) := by
  induction fs with
  | nil => rfl
  | required n c rest ih => exact congrArg _ (ih b.2)
  | optional n c rest ih =>
    obtain ⟨_ | a, b⟩ := b
    · exact ih b
    · exact congrArg _ (ih b)

/-- A complete record lists the values of its fields. -/
theorem toItems_eq (hcomplete : fs.Complete b) : fs.toItems b = (fs.entries b).map Prod.snd := by
  induction fs with
  | nil => rfl
  | required n c rest ih => exact congrArg _ (ih hcomplete)
  | optional n c rest ih =>
    obtain ⟨_ | a, b⟩ := b
    · cases hcomplete.1
    · exact congrArg _ (ih hcomplete.2)

theorem entries_sublist (fs : Fields β σ) (b : β) : ((fs.entries b).map Prod.fst).Sublist fs.names := by
  induction fs with
  | nil => exact .slnil
  | required n c rest ih => exact (ih b.2).cons_cons n
  | optional n c rest ih =>
    obtain ⟨_ | a, b⟩ := b
    · exact (ih b).cons n
    · exact (ih b).cons_cons n

theorem name_mem_of_mem_entries {e : String × Json} (he : e ∈ fs.entries b) : e.1 ∈ fs.names :=
  (entries_sublist fs b).subset (List.mem_map_of_mem he)

theorem Restores.writable (h : fs.Restores b) : ∀ e ∈ fs.entries b, Writable e.2 := by
  induction fs with
  | nil => exact fun _ he => nomatch he
  | required n c rest ih => exact List.forall_mem_cons.2 ⟨h.1.writable, ih h.2⟩
  | optional n c rest ih =>
    obtain ⟨_ | a, b⟩ := b
    · exact ih h.2
    · exact List.forall_mem_cons.2 ⟨(h.1 a rfl).writable, ih h.2⟩

theorem finish_slots (fs : Fields β σ) (b : β) : fs.finish (fs.slots b) = .ok b := by
  induction fs with
  | nil => rfl
  | required n c rest ih => rw [slots, finish, ih]; rfl
  | optional n c rest ih => rw [slots, finish, ih]; rfl

theorem filled_none (fs : Fields β σ) (b : β) : fs.filled b (fun _ => false) = fs.noSlots := by
  induction fs with
  | nil => rfl
  | required n c rest ih => exact Prod.ext rfl (ih b.2)
  | optional n c rest ih => exact Prod.ext rfl (ih b.2)

theorem filled_congr {seen other : String → Bool} (h : ∀ n ∈ fs.names, seen n = other n) :
    fs.filled b seen = fs.filled b other := by
  induction fs with
  | nil => rfl
  | required n c rest ih =>
    obtain ⟨hn, hrest⟩ := List.forall_mem_cons.1 h
    rw [filled, filled, hn, ih hrest]
  | optional n c rest ih =>
    obtain ⟨hn, hrest⟩ := List.forall_mem_cons.1 h
    rw [filled, filled, hn, ih hrest]

/-- The slots of other fields stay as they are. -/
theorem filled_other {n : String} (hn : n ∉ fs.names) (seen : String → Bool) :
    fs.filled b (fun m => seen m || m == n) = fs.filled b seen :=
  filled_congr fun m hm => by
    have hne : m ≠ n := fun heq => hn (heq ▸ hm)
    simp [hne]

/-- When every field with a value has been read, the slots hold the record. -/
theorem filled_eq_slots {seen : String → Bool} (h : ∀ e ∈ fs.entries b, seen e.1) :
    fs.filled b seen = fs.slots b := by
  induction fs with
  | nil => rfl
  | required n c rest ih =>
    obtain ⟨hn, hrest⟩ := List.forall_mem_cons.1 h
    rw [filled, slots, if_pos hn, ih hrest]
  | optional n c rest ih =>
    obtain ⟨_ | a, b⟩ := b
    · rw [filled, slots, ite_self, ih h]
    · obtain ⟨hn, hrest⟩ := List.forall_mem_cons.1 h
      rw [filled, slots, if_pos hn, ih hrest]

/-- A member fills the slot of its field and no other. -/
theorem take_filled (isSealed : Bool) (hnames : fs.names.Nodup) (h : fs.Restores b) {e : String × Json}
    (he : e ∈ fs.entries b) {v : Json} (hv : Rearranged e.2 v) {seen : String → Bool} (hnew : seen e.1 = false) :
    fs.take isSealed e.1 v (fs.filled b seen) = .ok (fs.filled b fun n => seen n || n == e.1) := by
  induction fs with
  | nil => cases he
  | required n c rest ih =>
    obtain ⟨a, b⟩ := b
    obtain ⟨hn, hrest⟩ := List.nodup_cons.1 hnames
    rcases List.mem_cons.1 he with rfl | he
    · simp [filled, take, fill, hnew, h.1.decode_rearranged v hv, filled_other hn, Except.map]
    · have hne : n ≠ e.1 := fun heq => hn (heq ▸ name_mem_of_mem_entries he)
      simp [filled, take, hne, ih hrest h.2 he, Except.map]
  | optional n c rest ih =>
    obtain ⟨hn, hrest⟩ := List.nodup_cons.1 hnames
    have hlater : ∀ {a b}, (optional n c rest).Restores (a, b) → e ∈ rest.entries b →
        (optional n c rest).take isSealed e.1 v ((optional n c rest).filled (a, b) seen) =
          .ok ((optional n c rest).filled (a, b) fun n => seen n || n == e.1) := fun {a b} h he => by
      have hne : n ≠ e.1 := fun heq => hn (heq ▸ name_mem_of_mem_entries he)
      simp [filled, take, hne, ih hrest h.2 he, Except.map]
    obtain ⟨_ | a, b⟩ := b
    · exact hlater h he
    · rcases List.mem_cons.1 he with rfl | he
      · simp [filled, take, fill, hnew, (h.1 a rfl).decode_rearranged v hv, filled_other hn, Except.map]
      · exact hlater h he

/-- Members in any order fill the slots of their fields. -/
theorem takeAll_filled (isSealed : Bool) (hnames : fs.names.Nodup) (h : fs.Restores b) {es : List (String × Json)}
    {members : List (List Char × Json)} (hes : ∀ e ∈ es, e ∈ fs.entries b) (hdistinct : (es.map Prod.fst).Nodup)
    (hpairs : List.Forall₂ (fun e l => escape e.1.toList = l.1 ∧ Rearranged e.2 l.2) es members)
    (seen : String → Bool) (hnew : ∀ e ∈ es, seen e.1 = false) :
    fs.takeAll isSealed members (fs.filled b seen) =
      .ok (fs.filled b fun n => seen n || (es.map Prod.fst).contains n) := by
  induction hpairs generalizing seen with
  | nil => simp [takeAll, pure, Except.pure]
  | @cons e l es members hl _ ih =>
    obtain ⟨he, hes⟩ := List.forall_mem_cons.1 hes
    obtain ⟨hfresh, hdistinct⟩ := List.nodup_cons.1 hdistinct
    obtain ⟨hnow, hnew⟩ := List.forall_mem_cons.1 hnew
    obtain ⟨k, v⟩ := l
    obtain rfl : _ = k := hl.1
    rw [takeAll_cons, take_filled isSealed hnames h he hl.2 hnow]
    refine (ih hes hdistinct _ fun e' he' => ?_).trans ?_
    · have hne : e'.1 ≠ e.1 := fun heq => hfresh (heq ▸ List.mem_map_of_mem he')
      simp [hnew e' he', hne]
    · simp [Bool.or_assoc]

theorem writable_toMembers (h : ∀ e ∈ fs.entries b, Writable e.2) : Writable (.object (fs.toMembers b)) := by
  rw [toMembers_eq]
  refine .object (fun m hm => ?_) (fun m hm => ?_)
  · obtain ⟨e, -, rfl⟩ := List.mem_map.1 hm
    exact isSpelling_escape _
  · obtain ⟨e, he, rfl⟩ := List.mem_map.1 hm
    exact h e he

theorem ofMembers_rearranged (isSealed : Bool) (hnames : fs.names.Nodup) (h : fs.Restores b) {j : Json}
    (hj : Rearranged (.object (fs.toMembers b)) j) :
    ∃ members, j = .object members ∧ fs.ofMembers isSealed members = .ok b := by
  rw [toMembers_eq] at hj
  obtain ⟨members, rfl, es, hperm, hpairs⟩ := hj.members_map
  refine ⟨members, rfl, ?_⟩
  have hdistinct : (es.map Prod.fst).Nodup :=
    ((hperm.map Prod.fst).nodup_iff).1 ((entries_sublist fs b).nodup hnames)
  have htake := takeAll_filled isSealed hnames h (fun e he => hperm.mem_iff.2 he) hdistinct hpairs
    (fun _ => false) fun _ _ => rfl
  rw [filled_none, filled_eq_slots fun e he => by simpa using ⟨e.2, hperm.mem_iff.1 he⟩] at htake
  rw [ofMembers_eq, htake]
  exact finish_slots fs b

/-- A complete record is listed item by item. -/
theorem ofItems_rearranged (hcomplete : fs.Complete b) (h : fs.Restores b) {items : List Json}
    (hitems : List.Forall₂ Rearranged (fs.toItems b) items) : fs.ofItems items = .ok b := by
  induction fs generalizing items with
  | nil =>
    cases hitems
    rfl
  | required n c rest ih =>
    cases hitems with
    | @cons _ v _ vs hv hvs =>
      rw [ofItems, h.1.decode_rearranged v hv, ih hcomplete h.2 hvs]
      rfl
  | optional n c rest ih =>
    obtain ⟨_ | a, b⟩ := b
    · cases hcomplete.1
    · cases hitems with
      | @cons _ v _ vs hv hvs =>
        rw [ofItems, (h.1 a rfl).decode_rearranged v hv, ih hcomplete.2 h.2 hvs]
        rfl

end Fields

namespace Codec

variable {fs : Fields β σ} {b : β} {isSealed : Bool}

theorem writable_record (h : ∀ e ∈ fs.entries b, Writable e.2) : Writable ((record fs isSealed).encode b) :=
  Fields.writable_toMembers h

theorem restores_record (hnames : fs.names.Nodup) (h : fs.Restores b) : (record fs isSealed).Restores b where
  writable := Fields.writable_toMembers h.writable
  decode_rearranged j hj := by
    obtain ⟨members, rfl, hread⟩ := Fields.ofMembers_rearranged isSealed hnames h hj
    exact hread

theorem writable_tuple (hcomplete : fs.Complete b) (h : ∀ e ∈ fs.entries b, Writable e.2) :
    Writable ((tuple fs).encode b) := by
  refine .array fun v hv => ?_
  rw [Fields.toItems_eq hcomplete] at hv
  obtain ⟨e, he, rfl⟩ := List.mem_map.1 hv
  exact h e he

theorem restores_tuple (hcomplete : fs.Complete b) (h : fs.Restores b) : (tuple fs).Restores b where
  writable := writable_tuple hcomplete h.writable
  decode_rearranged j hj := by
    cases hj with
    | array hitems => exact Fields.ofItems_rearranged hcomplete h hitems

end Codec

/-! ### Members without a field -/

/-- Members of this name make no difference to what is read, wherever they stand. -/
def Codec.PassesOver (c : Codec α) (name : String) : Prop :=
  ∀ front v back, v.isWhole → c.decode (.object (front ++ (escape name.toList, v) :: back)) =
    c.decode (.object (front ++ back))

theorem Fields.take_other {fs : Fields β σ} {name : String} (hname : name ∉ fs.names) {v : Json}
    (hv : v.isWhole) (slots : σ) : fs.take false name v slots = .ok slots := by
  induction fs with
  | nil => simp [take, hv]
  | required n c rest ih =>
    obtain ⟨hne, hrest⟩ := not_or.1 (hname ∘ List.mem_cons.2)
    rw [take, if_neg (Ne.symm hne), ih hrest]
    rfl
  | optional n c rest ih =>
    obtain ⟨hne, hrest⟩ := not_or.1 (hname ∘ List.mem_cons.2)
    rw [take, if_neg (Ne.symm hne), ih hrest]
    rfl

/-- A record passes over the members that it has no field for. -/
theorem Codec.passesOver_record {fs : Fields β σ} {name : String} (hname : name ∉ fs.names) :
    (record fs).PassesOver name := by
  intro front v back hv
  have htake : ∀ slots, fs.takeAll false (front ++ (escape name.toList, v) :: back) slots =
      fs.takeAll false (front ++ back) slots := by
    intro slots
    rw [Fields.takeAll, List.foldlM_append, Fields.takeAll, List.foldlM_append]
    refine congrArg _ (funext fun slots => ?_)
    change fs.takeAll false ((escape name.toList, v) :: back) slots = _
    rw [Fields.takeAll_cons, Fields.take_other hname hv]
    rfl
  change fs.ofMembers false _ = fs.ofMembers false _
  rw [Fields.ofMembers_eq, htake, ← Fields.ofMembers_eq]

theorem Codec.PassesOver.as {c : Codec α} {name : String} (h : c.PassesOver name) (toBase : β → α)
    (ofBase : α → β) : (c.as toBase ofBase).PassesOver name :=
  fun front v back hv => congrArg (Except.map ofBase) (h front v back hv)

end TraceAnomaly.Json
