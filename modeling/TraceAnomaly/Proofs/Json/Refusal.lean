import TraceAnomaly.Proofs.Json.Codec

/-! Values that do not read back. A number that is not finite has no numeral, and the `null` that is written in
its place is no number. What holds such a number somewhere is refused as a whole, in whatever order its members
are written, so it is never taken for another value. -/

namespace TraceAnomaly.Json

variable {α β σ : Type}

/-- The codec has a text for the value but refuses to read it, and every arrangement of it. -/
structure Codec.Refuses (c : Codec α) (a : α) : Prop where
  writable : Writable (c.encode a)
  decode_rearranged : ∀ j, Rearranged (c.encode a) j → ∃ e, c.decode j = .error e

theorem Codec.Refuses.read_of_writes {c : Codec α} {a : α} (h : c.Refuses a) {text : List Char}
    (htext : c.Writes a text) : ∃ e, c.read text = .error e := by
  obtain ⟨j, hj, rfl⟩ := htext
  rw [c.read_compact (h.writable.of_rearranged hj)]
  exact h.decode_rearranged j hj

theorem Codec.Refuses.read_write {c : Codec α} {a : α} (h : c.Refuses a) : ∃ e, c.read (c.write a) = .error e :=
  h.read_of_writes (writes_write h.writable)

theorem Codec.Refuses.readStart_write {c : Codec α} {a : α} (h : c.Refuses a) :
    ∃ e, c.readStart (c.write a) = .error e := by
  have hfront := readFront_compact h.writable Stops.nil
  rw [List.append_nil] at hfront
  rw [readStart, write, ofBytes_encode, hfront]
  exact h.decode_rearranged _ h.writable.rearranged_self

section Failure

variable {ε : Type}

theorem exists_error_map {x : Except ε α} (h : ∃ e, x = .error e) (f : α → β) : ∃ e, x.map f = .error e := by
  obtain ⟨e, rfl⟩ := h
  exact ⟨e, rfl⟩

/-- Two steps fail if the first one does, or the second one does whatever the first one gives. -/
theorem exists_error_bind {x : Except ε α} {f : α → Except ε β}
    (h : (∃ e, x = .error e) ∨ ∀ a, ∃ e, f a = .error e) : ∃ e, x >>= f = .error e := by
  cases x with
  | error e => exact ⟨e, rfl⟩
  | ok a =>
    rcases h with ⟨e, he⟩ | h
    · cases he
    · exact h a

/-- A loop fails that has an element on which every turn fails. -/
theorem exists_error_foldlM {f : σ → α → Except ε σ} {l : List α} {a : α} (ha : a ∈ l)
    (hfails : ∀ s, ∃ e, f s a = .error e) (s : σ) : ∃ e, l.foldlM f s = .error e := by
  induction l generalizing s with
  | nil => cases ha
  | cons b l ih =>
    rw [List.foldlM_cons]
    rcases List.mem_cons.1 ha with rfl | ha
    · exact exists_error_bind (.inl (hfails s))
    · exact exists_error_bind (.inr (ih ha))

end Failure

namespace Codec

/-! ### Single values -/

theorem encode_real_of_not_isFinite {x : Float} (h : ¬ x.isFinite) : real.encode x = .null := by
  have hfinite : ¬ x.toModel.unpack.isFinite = true := h
  cases hx : x.toModel.unpack with
  | notANumber => simp only [real, Binary64.kind, hx]
  | infinity s => simp only [real, Binary64.kind, hx]
  | zero s => exact absurd (by rw [hx]; rfl) hfinite
  | finite s m e hm => exact absurd (by rw [hx]; rfl) hfinite

theorem writable_real (x : Float) : Writable (real.encode x) := by
  by_cases h : x.isFinite
  · exact (restores_real h).writable
  · rw [encode_real_of_not_isFinite h]
    exact .null

theorem refuses_real {x : Float} (h : ¬ x.isFinite) : real.Refuses x where
  writable := writable_real x
  decode_rearranged j hj := by
    rw [encode_real_of_not_isFinite h] at hj
    cases hj
    exact ⟨_, rfl⟩

theorem Refuses.as {c : Codec α} {toBase : β → α} (ofBase : α → β) {b : β} (h : c.Refuses (toBase b)) :
    (c.as toBase ofBase).Refuses b where
  writable := h.writable
  decode_rearranged j hj := by
    exact exists_error_map (h.decode_rearranged j hj) ofBase

/-- One entry is enough. -/
theorem refuses_table {c : Codec α} {m : Keyed UInt64 α} (hwritable : ∀ e ∈ m.toList, Writable (c.encode e.2))
    {e : UInt64 × α} (he : e ∈ m.toList) (h : c.Refuses e.2) : (table c).Refuses m where
  writable := writable_table hwritable
  decode_rearranged j hj := by
    obtain ⟨members, rfl, es, hperm, hpairs⟩ := Rearranged.members_map hj
    obtain ⟨⟨k, v⟩, hmember, hkey, hvalue⟩ := exists_of_mem_right hpairs.flip (hperm.mem_iff.1 he)
    obtain rfl : writeWord e.1 = k := hkey
    refine exists_error_foldlM hmember (fun m => ?_) Keyed.empty
    simp only [readKey_writeWord]
    exact exists_error_bind (.inr fun _ => exists_error_bind (.inl (h.decode_rearranged v hvalue)))

end Codec

/-! ### Records -/

namespace Fields

/-- Some field has a value that its codec refuses. -/
def Refuses : {β σ : Type} → Fields β σ → β → Prop
  | _, _, .nil, () => False
  | _, _, .required _ c rest, (a, b) => c.Refuses a ∨ rest.Refuses b
  | _, _, .optional _ c rest, (a, b) => (∃ x ∈ a, c.Refuses x) ∨ rest.Refuses b

variable {fs : Fields β σ} {b : β}

/-- A slot does not take what its codec refuses, whether it is free or not. -/
theorem fill_refused {c : Codec α} {a : α} (h : c.Refuses a) {v : Json} (hv : Rearranged (c.encode a) v)
    (slot : Option α) : ∃ err, fill c v slot = .error err := by
  cases slot with
  | some _ => exact ⟨_, rfl⟩
  | none =>
    rw [fill]
    exact exists_error_map (h.decode_rearranged v hv) some

theorem exists_refused (hnames : fs.names.Nodup) (h : fs.Refuses b) : ∃ e ∈ fs.entries b,
    ∀ isSealed v, Rearranged e.2 v → ∀ slots, ∃ err, fs.take isSealed e.1 v slots = .error err := by
  induction fs with
  | nil => cases h
  | required n c rest ih =>
    obtain ⟨hn, hrest⟩ := List.nodup_cons.1 hnames
    rcases h with ha | hb
    · refine ⟨_, List.mem_cons_self .., fun isSealed v hv slots => ?_⟩
      rw [take, if_pos rfl]
      exact exists_error_map (fill_refused ha hv slots.1) _
    · obtain ⟨e, he, htake⟩ := ih hrest hb
      have hne : n ≠ e.1 := fun heq => hn (heq ▸ name_mem_of_mem_entries he)
      refine ⟨e, List.mem_cons_of_mem _ he, fun isSealed v hv slots => ?_⟩
      rw [take, if_neg hne]
      exact exists_error_map (htake isSealed v hv slots.2) _
  | optional n c rest ih =>
    obtain ⟨hn, hrest⟩ := List.nodup_cons.1 hnames
    rcases h with ⟨a, ha, hrefuses⟩ | hb
    · obtain ⟨_, b⟩ := b
      obtain rfl : _ = some a := ha
      refine ⟨_, List.mem_cons_self .., fun isSealed v hv slots => ?_⟩
      rw [take, if_pos rfl]
      exact exists_error_map (fill_refused hrefuses hv slots.1) _
    · obtain ⟨e, he, htake⟩ := ih hrest hb
      have hne : n ≠ e.1 := fun heq => hn (heq ▸ name_mem_of_mem_entries he)
      have hentry : e ∈ (optional n c rest).entries b := by
        obtain ⟨_ | a, b⟩ := b
        · exact he
        · exact List.mem_cons_of_mem _ he
      refine ⟨e, hentry, fun isSealed v hv slots => ?_⟩
      rw [take, if_neg hne]
      exact exists_error_map (htake isSealed v hv slots.2) _

/-- An object is refused if one of its members is. -/
theorem ofMembers_error {isSealed : Bool} {members : List (List Char × Json)} {name : String} {v : Json}
    (hmember : (escape name.toList, v) ∈ members)
    (htake : ∀ slots, ∃ err, fs.take isSealed name v slots = .error err) :
    ∃ err, fs.ofMembers isSealed members = .error err := by
  have hall : ∃ err, fs.takeAll isSealed members fs.noSlots = .error err := by
    refine exists_error_foldlM hmember (fun slots => ?_) fs.noSlots
    rw [readText_escape]
    exact htake slots
  exact exists_error_bind (.inl hall)

theorem ofMembers_refused (isSealed : Bool) (hnames : fs.names.Nodup) (h : fs.Refuses b) {j : Json}
    (hj : Rearranged (.object (fs.toMembers b)) j) :
    ∃ members, j = .object members ∧ ∃ err, fs.ofMembers isSealed members = .error err := by
  rw [toMembers_eq] at hj
  obtain ⟨members, rfl, es, hperm, hpairs⟩ := hj.members_map
  obtain ⟨e, he, htake⟩ := exists_refused hnames h
  obtain ⟨⟨k, v⟩, hmember, hkey, hvalue⟩ := exists_of_mem_right hpairs.flip (hperm.mem_iff.1 he)
  obtain rfl : _ = k := hkey
  exact ⟨members, rfl, ofMembers_error hmember (htake isSealed v hvalue)⟩

/-- A sealed record has no slot for a member without a field. -/
theorem take_unknown {name : String} (hname : name ∉ fs.names) (v : Json) (slots : σ) :
    ∃ err, fs.take true name v slots = .error err := by
  induction fs with
  | nil => exact ⟨_, rfl⟩
  | required n c rest ih =>
    rw [take, if_neg (List.ne_of_not_mem_cons hname).symm]
    exact exists_error_map (ih (List.not_mem_of_not_mem_cons hname) slots.2) _
  | optional n c rest ih =>
    rw [take, if_neg (List.ne_of_not_mem_cons hname).symm]
    exact exists_error_map (ih (List.not_mem_of_not_mem_cons hname) slots.2) _

theorem ofMembers_unknown {name : String} (hname : name ∉ fs.names) {members : List (List Char × Json)} {v : Json}
    (hmember : (escape name.toList, v) ∈ members) : ∃ err, fs.ofMembers true members = .error err :=
  ofMembers_error hmember (take_unknown hname v)

/-- Members of other names leave the slot of the first field as it is. -/
theorem takeAll_other {α : Type} {isSealed : Bool} {n : String} {c : Codec α} {members : List (List Char × Json)}
    (hmembers : ∀ m ∈ members, ∃ name, n ≠ name ∧ m.1 = escape name.toList) {slots final : Option α × σ}
    (htake : (required n c fs).takeAll isSealed members slots = .ok final) : final.1 = slots.1 := by
  induction members generalizing slots with
  | nil =>
    obtain rfl := Except.ok.inj htake
    rfl
  | cons m members ih =>
    obtain ⟨⟨name, hne, hkey⟩, hmore⟩ := List.forall_mem_cons.1 hmembers
    obtain ⟨k, v⟩ := m
    obtain rfl : k = _ := hkey
    rw [takeAll_cons, take, if_neg hne] at htake
    cases hrest : fs.take isSealed name v slots.2 with
    | error e =>
      rw [hrest] at htake
      cases htake
    | ok next =>
      rw [hrest] at htake
      change (required n c fs).takeAll isSealed members (slots.1, next) = .ok final at htake
      exact (ih hmore htake :)

/-- A record is not read from members that lack its first field. -/
theorem ofMembers_missing {α : Type} (isSealed : Bool) {n : String} {c : Codec α} {members : List (List Char × Json)}
    (hmembers : ∀ m ∈ members, ∃ name, n ≠ name ∧ m.1 = escape name.toList) :
    ∃ err, (required n c fs).ofMembers isSealed members = .error err := by
  rw [ofMembers_eq]
  cases htake : (required n c fs).takeAll isSealed members (required n c fs).noSlots with
  | error e => exact ⟨e, rfl⟩
  | ok slots =>
    obtain ⟨slot, slots⟩ := slots
    obtain rfl : slot = none := takeAll_other hmembers htake
    exact ⟨_, rfl⟩

/-- The reader of the items comes to the refused one, unless it stops before. -/
theorem ofItems_refused (hcomplete : fs.Complete b) (h : fs.Refuses b) {items : List Json}
    (hitems : List.Forall₂ Rearranged (fs.toItems b) items) : ∃ err, fs.ofItems items = .error err := by
  induction fs generalizing items with
  | nil => cases h
  | required n c rest ih =>
    cases hitems with
    | @cons _ v _ vs hv hvs =>
      rw [ofItems]
      rcases h with ha | hb
      · exact exists_error_bind (.inl (ha.decode_rearranged v hv))
      · exact exists_error_bind (.inr fun _ => exists_error_map (ih hcomplete hb hvs) _)
  | optional n c rest ih =>
    obtain ⟨_ | a, b⟩ := b
    · cases hcomplete.1
    · cases hitems with
      | @cons _ v _ vs hv hvs =>
        rw [ofItems]
        rcases h with ⟨x, hx, ha⟩ | hb
        · obtain rfl : a = x := Option.some.inj hx
          exact exists_error_bind (.inl (ha.decode_rearranged v hv))
        · exact exists_error_bind (.inr fun _ => exists_error_map (ih hcomplete.2 hb hvs) _)

end Fields

namespace Codec

variable {fs : Fields β σ} {b : β} {isSealed : Bool}

theorem refuses_record (hnames : fs.names.Nodup) (hwritable : Writable ((record fs isSealed).encode b))
    (h : fs.Refuses b) : (record fs isSealed).Refuses b where
  writable := hwritable
  decode_rearranged j hj := by
    obtain ⟨members, rfl, hread⟩ := Fields.ofMembers_refused isSealed hnames h hj
    exact hread

theorem refuses_tuple (hcomplete : fs.Complete b) (hwritable : Writable ((tuple fs).encode b))
    (h : fs.Refuses b) : (tuple fs).Refuses b where
  writable := hwritable
  decode_rearranged j hj := by
    cases hj with
    | array hitems => exact Fields.ofItems_refused hcomplete h hitems

end Codec

end TraceAnomaly.Json
