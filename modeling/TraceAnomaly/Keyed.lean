/-! Finite maps whose entries stand in strictly ascending key order. A map is determined by its
look-ups, so tables and stores are compared with plain equality and listed in one order. -/
namespace TraceAnomaly

/-- A finite map from `κ` to `α`. -/
structure Keyed (κ α : Type) [Ord κ] where
  entries : List (κ × α)
  ascending : entries.Pairwise fun a b => compare a.1 b.1 = .lt := by simp
deriving DecidableEq

namespace Keyed

variable {κ α β : Type} [Ord κ]

/-- The value at `k` in an ascending list. -/
def find (k : κ) : List (κ × α) → Option α
  | [] => none
  | (l, a) :: rest =>
    match compare k l with
    | .lt => none
    | .eq => some a
    | .gt => find k rest

/-- Puts `f (old value)` at `k` in an ascending list. -/
def place (k : κ) (f : Option α → α) : List (κ × α) → List (κ × α)
  | [] => [(k, f none)]
  | (l, a) :: rest =>
    match compare k l with
    | .lt => (k, f none) :: (l, a) :: rest
    | .eq => (l, f (some a)) :: rest
    | .gt => (l, a) :: place k f rest

def empty : Keyed κ α := { entries := [] }

instance : EmptyCollection (Keyed κ α) := ⟨empty⟩

instance : Inhabited (Keyed κ α) := ⟨empty⟩

def get? (m : Keyed κ α) (k : κ) : Option α := find k m.entries

def contains (m : Keyed κ α) (k : κ) : Bool := (m.get? k).isSome

def toList (m : Keyed κ α) : List (κ × α) := m.entries

def keys (m : Keyed κ α) : List κ := m.entries.map Prod.fst

def values (m : Keyed κ α) : List α := m.entries.map Prod.snd

def size (m : Keyed κ α) : Nat := m.entries.length

def isEmpty (m : Keyed κ α) : Bool := m.entries.isEmpty

def mapValues (f : α → β) (m : Keyed κ α) : Keyed κ β where
  entries := m.entries.map fun e => (e.1, f e.2)
  ascending := by simpa [List.pairwise_map] using m.ascending

section Update

variable [Std.TransOrd κ]

omit [Std.TransOrd κ] in
theorem mem_place {k : κ} {f : Option α → α} {e : κ × α} {es : List (κ × α)}
    (h : e ∈ place k f es) : e.1 = k ∨ ∃ b, (e.1, b) ∈ es := by
  induction es with
  | nil => simp_all [place]
  | cons head rest ih =>
    obtain ⟨l, a⟩ := head
    simp only [place] at h
    split at h
    · rcases List.mem_cons.1 h with rfl | h
      · exact .inl rfl
      · exact .inr ⟨e.2, h⟩
    · rcases List.mem_cons.1 h with rfl | h
      · exact .inr ⟨a, by simp⟩
      · exact .inr ⟨e.2, List.mem_cons_of_mem _ h⟩
    · rcases List.mem_cons.1 h with rfl | h
      · exact .inr ⟨a, by simp⟩
      · rcases ih h with h | ⟨b, h⟩
        · exact .inl h
        · exact .inr ⟨b, List.mem_cons_of_mem _ h⟩

theorem place_ascending {k : κ} {f : Option α → α} {es : List (κ × α)}
    (h : es.Pairwise fun a b => compare a.1 b.1 = .lt) :
    (place k f es).Pairwise fun a b => compare a.1 b.1 = .lt := by
  induction es with
  | nil => simp [place]
  | cons head rest ih =>
    obtain ⟨l, a⟩ := head
    have hl := List.pairwise_cons.1 h
    simp only [place]
    split
    · rename_i hk
      refine List.pairwise_cons.2 ⟨fun e he => ?_, h⟩
      rcases List.mem_cons.1 he with rfl | he
      · exact hk
      · exact Std.TransCmp.lt_trans hk (hl.1 e he)
    · exact List.pairwise_cons.2 ⟨fun e he => hl.1 e he, hl.2⟩
    · rename_i hk
      refine List.pairwise_cons.2 ⟨fun e he => ?_, ih hl.2⟩
      rcases mem_place he with he | ⟨b, he⟩
      · simpa [he] using Std.OrientedCmp.lt_of_gt hk
      · exact hl.1 (e.1, b) he

/-- Replaces the value at `k` by `f` of the old one. -/
def alter (m : Keyed κ α) (k : κ) (f : Option α → α) : Keyed κ α where
  entries := place k f m.entries
  ascending := place_ascending m.ascending

def insert (m : Keyed κ α) (k : κ) (a : α) : Keyed κ α := m.alter k fun _ => a

/-- Adds the entries of a list in turn, so that a later entry replaces an earlier one. -/
def insertAll (m : Keyed κ α) (es : List (κ × α)) : Keyed κ α :=
  es.foldl (fun m e => m.insert e.1 e.2) m

def ofList (es : List (κ × α)) : Keyed κ α := empty.insertAll es

end Update

end Keyed

end TraceAnomaly
