import TraceAnomaly.Proofs.Http.Carriage
import TraceAnomaly.Proofs.Rank.Following

/-! Clients of a server and the store in the same process are interchangeable. Over transports that deliver,
carried calls of any number of clients are answered as by the store itself, and the server's store stays
equal to it; ranks with such clients therefore give the same answers to every schedule of frames. -/

namespace TraceAnomaly

namespace Aggregator

variable {ι σ : Type}

/-- Calls of several parties one after another, with the replies. -/
def callAll (a : ι → Aggregator σ) : List (ι × AnyQuery Float) → σ → σ × List (Σ ρ : Type, Except CallError ρ)
  | [], s => (s, [])
  | (i, q) :: rest, s =>
    let (s, reply) := (a i).call q.2 s
    let (s, replies) := callAll a rest s
    (s, ⟨q.1, reply⟩ :: replies)

end Aggregator

namespace Http

instance (s : Store Float) {ρ : Type} (q : Query Float ρ) : Decidable (Carried s q) :=
  decidable_of_iff ((∀ delta ∈ q.submitted, delta.IsFinite) ∧ (s.answer q).1.IsFinite ∧
      ∀ text ∈ Client.body q, (Text.encode text).length ≤ bodyLimit)
    ⟨fun ⟨h₁, h₂, h₃⟩ => ⟨h₁, h₂, h₃⟩, fun h => ⟨h.submitted, h.stored, h.fits⟩⟩

def Carries : Store Float → List (AnyQuery Float) → Prop
  | _, [] => True
  | s, q :: rest => Carried s q.2 ∧ Carries (s.answer q.2).1 rest

instance decidableCarries : (s : Store Float) → (qs : List (AnyQuery Float)) → Decidable (Carries s qs)
  | _, [] => .isTrue trivial
  | s, q :: rest =>
    have := decidableCarries (s.answer q.2).1 rest
    inferInstanceAs (Decidable (Carried s q.2 ∧ Carries (s.answer q.2).1 rest))

theorem Carries.take {s : Store Float} {qs : List (AnyQuery Float)} (h : Carries s qs) (k : ℕ) :
    Carries s (qs.take k) := by
  induction qs generalizing s k with
  | nil => simpa using h
  | cons q rest ih =>
    cases k with
    | zero => trivial
    | succ k => exact ⟨h.1, ih h.2 k⟩

namespace Client

/-- A client and the store agree on the calls that are carried. -/
theorem Delivers.agrees {c : Client} {send : Transport Service} (h : c.Delivers send) :
    (c.aggregator send).Agrees .inProcess (fun q s => Carried s q)
      fun s t => s.store = t ∧ s.isCancelled = false where
  call := by
    rintro ρ q s _ ⟨rfl, hs⟩ hq
    exact h.call hs (of_decide_eq_true hq)

variable {ι : Type} {clients : ι → Client} {send : ι → Transport Service}

/-- Carried calls through clients are calls of the store. -/
theorem callAll_eq (hsend : ∀ i, (clients i).Delivers (send i)) {s : Service} (hs : s.isCancelled = false)
    {calls : List (ι × AnyQuery Float)} (hcalls : Carries s.store (calls.map Prod.snd)) :
    let remote := Aggregator.callAll (fun i => (clients i).aggregator (send i)) calls s
    let direct := Aggregator.callAll (fun _ => .inProcess) calls s.store
    remote.2 = direct.2 ∧ remote.1.store = direct.1 ∧
      ∀ reply ∈ remote.2, ∃ answer, reply.2 = .ok answer := by
  induction calls generalizing s with
  | nil => exact ⟨rfl, rfl, nofun⟩
  | cons e rest ih =>
    obtain ⟨i, q⟩ := e
    obtain ⟨hreply, hstore, hnext⟩ := (hsend i).call hs hcalls.1
    obtain ⟨hreplies, hlast, hanswers⟩ := ih hnext (hstore ▸ hcalls.2)
    rw [hstore] at hreplies hlast
    simp only [Aggregator.callAll, hreply]
    refine ⟨congrArg _ hreplies, hlast, fun reply hmem => ?_⟩
    rcases List.mem_cons.1 hmem with rfl | hmem
    · exact ⟨_, rfl⟩
    · exact hanswers reply hmem

/-- Clients and the store in the same process are interchangeable. Over transports that deliver, every carried
call succeeds with the reply of the store itself, and after each call the two stores are equal; and ranks
that make carried calls give the same answers, become the same ranks and leave the same store. -/
theorem interchangeable [DecidableEq ι] (hsend : ∀ i, (clients i).Delivers (send i)) {s : Service}
    (hs : s.isCancelled = false) :
    let remote (i : ι) : Aggregator Service := (clients i).aggregator (send i)
    let direct (_ : ι) : Aggregator (Store Float) := .inProcess
    (∀ calls : List (ι × AnyQuery Float), Carries s.store (calls.map Prod.snd) →
      (Aggregator.callAll remote calls s).2 = (Aggregator.callAll direct calls s.store).2 ∧
      (∀ reply ∈ (Aggregator.callAll remote calls s).2, ∃ answer, reply.2 = .ok answer) ∧
      ∀ k, (Aggregator.callAll remote (calls.take k) s).1.store =
        (Aggregator.callAll direct (calls.take k) s.store).1) ∧
    ∀ (ranks : ι → Rank) (schedule : List (ι × Frame)),
      Ensemble.callsAll direct (fun q t => Carried t q) ⟨ranks, s.store⟩ schedule →
      let remotely := (Ensemble.mk ranks s).processAll (fun i => some (remote i)) schedule
      let directly := (Ensemble.mk ranks s.store).processAll (fun i => some (direct i)) schedule
      remotely.2 = directly.2 ∧ remotely.1.ranks = directly.1.ranks ∧ remotely.1.shared.store = directly.1.shared := by
  intro remote direct
  refine ⟨fun calls hcalls => ?_, fun ranks schedule hcalls => ?_⟩
  · obtain ⟨hreplies, -, hanswers⟩ := callAll_eq hsend hs hcalls
    refine ⟨hreplies, hanswers, fun k => ?_⟩
    have hcalls' : Carries s.store ((calls.take k).map Prod.snd) := List.map_take ▸ hcalls.take k
    exact (callAll_eq hsend hs hcalls').2.1
  · obtain ⟨hanswers, hranks, hstore, -⟩ := Ensemble.processAll_of_agrees (fun i => (hsend i).agrees)
      (w := ⟨ranks, s⟩) (v := ⟨ranks, s.store⟩) rfl ⟨rfl, hs⟩ hcalls
    exact ⟨hanswers, hranks, hstore⟩

/-- Two clients of one server, with calls of their own and with a rank behind each. The call of the last
frame is slower than the mean of the three. -/
theorem interchangeable_two_clients :
    let client : Bool → Client := fun _ => .ofAddress "http://127.0.0.1:8080/"
    let remote (i : Bool) : Aggregator Service := (client i).aggregator (.connected 0)
    let direct (_ : Bool) : Aggregator (Store Float) := .inProcess
    let delta : PowerSums Float := ⟨Binary64.ofNat 1, Binary64.ofNat 2, Binary64.ofNat 4, 0⟩
    let calls : List (Bool × AnyQuery Float) := [(true, ⟨_, .update 7 delta⟩), (false, ⟨_, .value 7⟩),
      (false, ⟨_, .addAbnormal 7 2⟩), (true, ⟨_, .values⟩), (true, ⟨_, .clear⟩)]
    let s : Service := {}
    let t : Thread := ⟨0, 0, 0⟩
    let frame (start stop : UInt64) : Frame := { step := start, calls := [⟨t, .entry, 1, start⟩, ⟨t, .exit, 1, stop⟩] }
    let ranks : Bool → Rank := fun _ => .start 0 Keyed.empty { sigma := Binary64.ofNat 0 }
    let schedule : List (Bool × Frame) := [(true, frame 0 10), (false, frame 5 15), (true, frame 20 50)]
    let remotely := (Ensemble.mk ranks s).processAll (fun i => some (remote i)) schedule
    let directly := (Ensemble.mk ranks s.store).processAll (fun i => some (direct i)) schedule
    (∀ i, (client i).Delivers (.connected 0)) ∧ s.isCancelled = false ∧
      Carries s.store (calls.map Prod.snd) ∧
      (Aggregator.callAll remote calls s).2 = (Aggregator.callAll direct calls s.store).2 ∧
      (Aggregator.callAll remote (calls.take 3) s).1.store = (Store.empty.update 7 delta).addAbnormal 7 2 ∧
      Ensemble.callsAll direct (fun q t => Carried t q) ⟨ranks, s.store⟩ schedule ∧
      remotely.2 = directly.2 ∧ remotely.1.shared.store = directly.1.shared ∧
      directly.2.map (fun status => status.report?.map (·.anomalies)) = [some 0, some 0, some 1] := by
  intro client remote direct delta calls s t frame ranks schedule remotely directly
  have hdelivers : ∀ i, (client i).Delivers (.connected 0) := fun i => delivers_connected (by decide +kernel) 0
  have hcarries : Carries s.store (calls.map Prod.snd) := by decide +kernel
  have hcalls : Ensemble.callsAll direct (fun q t => Carried t q) ⟨ranks, s.store⟩ schedule := by
    decide +kernel
  have hdirect : (Aggregator.callAll direct (calls.take 3) s.store).1 =
      (Store.empty.update 7 delta).addAbnormal 7 2 := by decide +kernel
  have hanomalies : directly.2.map (fun status => status.report?.map (·.anomalies)) = [some 0, some 0, some 1] := by
    decide +kernel
  obtain ⟨hclients, hranks⟩ := interchangeable hdelivers (s := s) rfl
  obtain ⟨hreplies, -, hstores⟩ := hclients calls hcarries
  obtain ⟨hanswers, -, hstore⟩ := hranks ranks schedule hcalls
  have hthird := hstores 3
  beta_reduce at hanswers hstore
  simp only [remotely, directly, remote, direct] at hdirect hcalls hanomalies ⊢
  rw [hdirect] at hthird
  exact ⟨hdelivers, rfl, hcarries, hreplies, hthird, hcalls, hanswers, hstore, hanomalies⟩

end Client

end Http

end TraceAnomaly
