import TraceAnomaly.Proofs.Http.Message
import TraceAnomaly.Proofs.Http.Refinement

/-! A call over a network that delivers is a call of the store. The request says what the query was, the
server asks its store the same, and the client reads from the reply what the store said, as long as the
sums are numbers and the body is not too long. -/

namespace TraceAnomaly

instance (s : PowerSums Float) : Decidable s.IsFinite :=
  decidable_of_iff (s.weight.isFinite ∧ s.sum.isFinite ∧ s.squares.isFinite)
    ⟨fun ⟨h₁, h₂, h₃⟩ => ⟨h₁, h₂, h₃⟩, fun h => ⟨h.weight, h.sum, h.squares⟩⟩

def Store.IsFinite (s : Store Float) : Prop := ∀ e ∈ s.toList, e.2.IsFinite

instance (s : Store Float) : Decidable s.IsFinite := inferInstanceAs (Decidable (∀ e ∈ s.toList, e.2.IsFinite))

theorem Store.IsFinite.value {s : Store Float} (h : s.IsFinite) (id : UInt64) : (s.value id).IsFinite := by
  rw [Store.value]
  cases hid : s.get? id with
  | none => exact PowerSums.isFinite_empty
  | some v => exact h (id, v) (Keyed.get?_eq_some_iff.1 hid)

/-- The statistics that a query hands over. -/
def Query.submitted {ρ : Type} : Query Float ρ → List (PowerSums Float)
  | .update _ delta => [delta]
  | .updateAll batch => batch.toList.map Prod.snd
  | .value _ | .values | .addAbnormal .. | .addAbnormalAll _ | .clear => []

/-- The statistics that an answer to a query hands back. -/
def Query.returned {ρ : Type} : Query Float ρ → ρ → List (PowerSums Float)
  | .update .., stat | .value _, stat => [stat]
  | .updateAll _, stats | .values, stats => stats.toList.map Prod.snd
  | .addAbnormal .., _ | .addAbnormalAll _, _ | .clear, _ => []

namespace Http

open Json (Codec)

/-! ### Numbers in paths -/

theorem percentBytes_eq_encode {cs : List Char} (h : ∀ c ∈ cs, c ≠ '%') : percentBytes cs = Text.encode cs := by
  induction cs with
  | nil => rw [percentBytes, Text.encode_eq, List.flatMap_nil]
  | cons c cs ih =>
    rw [percentBytes, ih fun d hd => h d (List.mem_cons_of_mem c hd), ← Text.encode_append, List.singleton_append]
    · rintro a b rest rfl
      exact absurd rfl (h '%' (List.mem_cons_self ..))

/-- The digits of a number stand for it. -/
theorem pathId_digits (id : UInt64) : pathId (Decimal.digits id.toNat) = some id := by
  have hdigit : ∀ c ∈ Decimal.digits id.toNat, Decimal.isDigit c := fun _ => Decimal.isDigit_of_mem_digits
  have hnatural : Decimal.natural? (Decimal.digits id.toNat) = some id.toNat := by
    unfold Decimal.natural?
    split
    · rename_i ds hds
      exact absurd (hds ▸ List.mem_cons_self ..) (Decimal.not_mem_digits rfl id.toNat)
    · simpa [Decimal.digits_ne_nil] using hdigit
  have hpercent : ∀ c ∈ Decimal.digits id.toNat, c ≠ '%' := fun c hc => Decimal.ne_of_isDigit (hdigit c hc) rfl
  rw [pathId, percentBytes_eq_encode hpercent, Text.decode_encode, Option.bind_some, Decimal.word?, hnatural,
    Option.bind_some, if_pos id.toNat_lt, UInt64.ofNat_toNat]

/-! ### Calls -/

/-- A call that is carried: the sums it hands over and those it leaves in the store are numbers, and its body
fits into a request. -/
structure Carried (s : Store Float) {ρ : Type} (q : Query Float ρ) : Prop where
  submitted : ∀ delta ∈ q.submitted, delta.IsFinite
  stored : (s.answer q).1.IsFinite
  fits : ∀ text ∈ Client.body q, (Text.encode text).length ≤ bodyLimit

theorem Carried.returned {s : Store Float} {ρ : Type} {q : Query Float ρ} (h : Carried s q) :
    ∀ v ∈ q.returned (s.answer q).2, v.IsFinite := by
  have hstored := h.stored
  intro v hv
  cases q with
  | update id delta => exact List.mem_singleton.1 hv ▸ hstored.value id
  | updateAll batch =>
    obtain ⟨e, he, rfl⟩ := List.mem_map.1 hv
    obtain ⟨e', -, rfl⟩ := List.mem_map.1 he
    exact hstored.value e'.1
  | value id => exact List.mem_singleton.1 hv ▸ hstored.value id
  | values =>
    obtain ⟨e, he, rfl⟩ := List.mem_map.1 hv
    exact hstored e he
  | _ => cases hv

namespace Client

/-- How the server words the answer to a query. -/
def document {ρ : Type} : Query Float ρ → ρ → List Char
  | .update id _, stat | .value id, stat => StatBody.codec.write ⟨id, stat⟩
  | .updateAll _, stats => statsCodec.write stats
  | .values, stats => snapshotCodec.write stats
  | .addAbnormal id _, n => AbnormalBody.codec.write ⟨id, n⟩
  | .addAbnormalAll _, counts => abnormalsCodec.write counts
  | .clear, _ => messageCodec.write "parameter server cleared"

variable {s : Store Float} {ρ : Type} {q : Query Float ρ}

theorem path_value (id : UInt64) :
    (Query.value (α := Float) id).path = "/stat/" ++ String.ofList (Decimal.digits id.toNat) := rfl

theorem path_of_target {r : Request} {place : String} (h : r.target = place) (hplace : '?' ∉ place.toList) :
    r.path = place := by
  have hall : ∀ c ∈ place.toList, decide (c ≠ '?') := by
    intro c hc
    refine decide_eq_true ?_
    rintro rfl
    exact hplace hc
  rw [Request.path, h, List.takeWhile_eq_self_iff.2 hall, String.ofList_toList]

theorem holds_of_restores {α : Type} {c : Codec α} {a : α} {r : Request} (h : c.Restores a)
    (htype : r.contentType = some "application/json") (hbody : r.body = c.write a)
    (hfits : (Text.encode (c.write a)).length ≤ bodyLimit) : Holds c r a where
  announced := ⟨_, htype, by decide⟩
  fits := hbody ▸ hfits
  spelled := hbody ▸ h.readStart_write

/-- The server reads the query that the client has written. -/
theorem asks_request (hsubmitted : ∀ delta ∈ q.submitted, delta.IsFinite)
    (hfits : ∀ text ∈ body q, (Text.encode text).length ≤ bodyLimit) {r : Request} (hmethod : r.method = "POST")
    (htarget : r.target = q.path) (htype : r.contentType = (body q).map fun _ => "application/json") (hbody : r.body = (body q).getD []) :
    Asks r ⟨q, document q⟩ := by
  cases q with
  | update id delta =>
    exact .update (b := ⟨id, delta⟩) ⟨hmethod, path_of_target htarget (by decide)⟩
      (holds_of_restores (StatBody.restores_codec (hsubmitted delta (List.mem_singleton_self _))) htype hbody
        (hfits _ rfl))
  | updateAll batch =>
    have hbatch : ∀ e ∈ batch.toList, e.2.IsFinite := fun e he =>
      hsubmitted e.2 (List.mem_map_of_mem he)
    exact .updateAll ⟨hmethod, path_of_target htarget (by decide)⟩
      (holds_of_restores (restores_statsCodec hbatch) htype hbody (hfits _ rfl))
  | value id =>
    have hplain : '?' ∉ (Route.value (Decimal.digits id.toNat)).place := fun h =>
      (List.mem_append.1 h).elim (by decide) (Decimal.not_mem_digits (by decide) _)
    rw [place_value] at hplain
    have hposted : Posted r ("/stat/" ++ String.ofList (Decimal.digits id.toNat)) :=
      ⟨hmethod, path_of_target (htarget.trans (path_value id)) hplain⟩
    exact .value hposted (Decimal.not_mem_digits (by decide) _) (pathId_digits id)
  | values => exact .values ⟨hmethod, path_of_target htarget (by decide)⟩
  | addAbnormal id n =>
    exact .addAbnormal (b := ⟨id, n⟩) ⟨hmethod, path_of_target htarget (by decide)⟩
      (holds_of_restores (AbnormalBody.restores_codec _) htype hbody (hfits _ rfl))
  | addAbnormalAll counts =>
    exact .addAbnormalAll ⟨hmethod, path_of_target htarget (by decide)⟩
      (holds_of_restores (restores_abnormalsCodec counts) htype hbody (hfits _ rfl))
  | clear => exact .clear ⟨hmethod, path_of_target htarget (by decide)⟩

/-- The client reads what the server has worded. -/
theorem read_document {a : ρ} (h : ∀ v ∈ q.returned a, v.IsFinite) :
    (answerCodec q).read (document q a) = .ok a := by
  cases q with
  | update id delta => exact ((StatBody.restores_codec (h a (List.mem_singleton_self _))).as rfl).read_write
  | updateAll batch => exact (restores_statsCodec fun e he => h e.2 (List.mem_map_of_mem he)).read_write
  | value id => exact ((StatBody.restores_codec (h a (List.mem_singleton_self _))).as rfl).read_write
  | values => exact (restores_snapshotCodec fun e he => h e.2 (List.mem_map_of_mem he)).read_write
  | addAbnormal id n => exact ((AbnormalBody.restores_codec _).as rfl).read_write
  | addAbnormalAll counts => exact (restores_abnormalsCodec _).read_write
  | clear =>
    rw [answerCodec, Codec.read_as, document, (restores_messageCodec _).read_write]
    rfl

/-- A transport that delivers the requests of a client to a running server, below whatever path the client
expects it, and brings the replies back. -/
def Delivers (c : Client) (send : Transport Service) : Prop :=
  ∀ (path : String) (body : Option (List Char)) (s : Service), s.isCancelled = false → ∃ seconds,
    let reply := s.respond seconds { c.request path body with target := path }
    send (c.request path body) s = (reply.1, some reply.2)

/-- A connection delivers what a client sends that expects the server at its root. -/
theorem delivers_connected {c : Client} (h : c.basePath = "") (seconds : Float) :
    c.Delivers (.connected seconds) := by
  intro path body s hs
  refine ⟨seconds, ?_⟩
  rw [Transport.connected, hs, request, h, String.empty_append]
  rfl

theorem answer_json (q : Query Float ρ) (text : List Char) : answer q (some (.json text)) =
    match (answerCodec q).read text with
    | .ok a => .ok a
    | .error _ => .error (.undecodable q.path) := by
  rw [answer, received, Response.json, if_pos rfl]
  rfl

/-- What is asked through a client reaches the store, and comes back as the client reads the reply. -/
theorem Delivers.call_of_asks {c : Client} {send : Transport Service} (h : c.Delivers send) {s : Service}
    (hs : s.isCancelled = false) {q : Query Float ρ} (hsubmitted : ∀ delta ∈ q.submitted, delta.IsFinite)
    (hfits : ∀ text ∈ body q, (Text.encode text).length ≤ bodyLimit) :
    ((c.aggregator send).call q s).2 =
        (answer q (some (.json (document q (s.store.answer q).2)))).mapError (⟨q.purpose, ·⟩) ∧
      ((c.aggregator send).call q s).1.store = (s.store.answer q).1 ∧
      ((c.aggregator send).call q s).1.isCancelled = false := by
  obtain ⟨seconds, hsend⟩ := h q.path (body q) s hs
  have hasks : Asks { c.request q.path (body q) with target := q.path } ⟨q, document q⟩ :=
    asks_request hsubmitted hfits rfl rfl rfl rfl
  obtain ⟨hreply, hstore, hcancelled⟩ := s.respond_of_asks seconds hasks
  refine ⟨?_, ?_, ?_⟩
  · simp only [aggregator, hsend, hreply]
  · simpa only [aggregator, hsend] using hstore
  · simpa only [aggregator, hsend] using hcancelled.trans hs

/-- A call through a client is a call of the store, and the server goes on. -/
theorem Delivers.call {c : Client} {send : Transport Service} (h : c.Delivers send) {s : Service}
    (hs : s.isCancelled = false) {q : Query Float ρ} (hq : Carried s.store q) :
    ((c.aggregator send).call q s).2 = .ok (s.store.answer q).2 ∧
      ((c.aggregator send).call q s).1.store = (s.store.answer q).1 ∧
      ((c.aggregator send).call q s).1.isCancelled = false := by
  obtain ⟨hreply, hrest⟩ := h.call_of_asks hs hq.submitted hq.fits
  rw [hreply, answer_json, read_document hq.returned]
  exact ⟨rfl, hrest⟩

end Client

end Http

end TraceAnomaly
