import TraceAnomaly.Store.Aggregator
import TraceAnomaly.Proofs.Keyed.Update

/-! What a batch does to the store: each function in the batch is updated once, and the others stay
as they are. Aggregators are told apart by how far they can be relied on. -/

namespace TraceAnomaly

theorem Keyed.get?_relabel {κ α β : Type} [Ord κ] [Std.LawfulEqOrd κ] (m : Keyed κ α) (f : κ → β)
    (k : κ) : (m.relabel f).get? k = (m.get? k).map fun _ => f k := by
  change find k (m.entries.map fun e => (e.1, f e.1)) = (find k m.entries).map fun _ => f k
  induction m.entries with
  | nil => rfl
  | cons e rest ih =>
    obtain ⟨l, a⟩ := e
    cases hc : compare k l with
    | lt => simp [find, hc]
    | gt => simpa [find, hc] using ih
    | eq =>
      obtain rfl := Std.LawfulEqCmp.eq_of_compare hc
      simp [find]

theorem Keyed.keys_relabel {κ α β : Type} [Ord κ] (m : Keyed κ α) (f : κ → β) :
    (m.relabel f).keys = m.keys := by
  simp [Keyed.relabel, Keyed.keys]

theorem Keyed.relabel_congr {κ α β : Type} [Ord κ] {m : Keyed κ α} {f g : κ → β}
    (h : ∀ k ∈ m.keys, f k = g k) : m.relabel f = m.relabel g :=
  Keyed.ext_entries (List.map_congr_left fun e he => by rw [h e.1 (List.mem_map_of_mem he)])

namespace Store

variable {α : Type} [Scalar α] (s : Store α)

theorem get?_updateAll (batch : Keyed UInt64 (PowerSums α)) (f : UInt64) :
    (s.updateAll batch).get? f =
      match batch.get? f with
      | none => s.get? f
      | some delta => some (s.value f + delta) := by
  refine (Keyed.get?_foldl_alter_toList
    (fun _ delta (old : Option (PowerSums α)) => old.getD .empty + delta) batch s f).trans ?_
  cases batch.get? f <;> rfl

theorem get?_addAbnormalAll (counts : Keyed UInt64 UInt64) (f : UInt64) :
    (s.addAbnormalAll counts).get? f =
      match counts.get? f with
      | none => s.get? f
      | some n => some ((s.value f).addAbnormal n) := by
  refine (Keyed.get?_foldl_alter_toList
    (fun _ n (old : Option (PowerSums α)) => (old.getD .empty).addAbnormal n) counts s f).trans ?_
  cases counts.get? f <;> rfl

@[simp] theorem updateAll_empty : s.updateAll Keyed.empty = s := rfl

@[simp] theorem addAbnormalAll_empty : s.addAbnormalAll Keyed.empty = s := rfl

end Store

namespace Aggregator

variable {α σ : Type}

/-- Every call is answered as by the store that `view` sees. -/
def Serves [Scalar α] (a : Aggregator σ α) (view : σ → Store α) : Prop :=
  ∀ {ρ : Type} (q : Query α ρ) (s : σ),
    view (a.call q s).1 = ((view s).answer q).1 ∧ (a.call q s).2 = .ok ((view s).answer q).2

def Fails (a : Aggregator σ α) : Prop :=
  ∀ {ρ : Type} (q : Query α ρ) (s : σ), ∃ e, (a.call q s).2 = .error e

theorem inProcess_serves [Scalar α] : (inProcess : Aggregator (Store α) α).Serves id := fun _ _ => ⟨rfl, rfl⟩

theorem unreachable_fails : (unreachable : Aggregator σ α).Fails := fun _ _ => ⟨_, rfl⟩

end Aggregator

end TraceAnomaly
