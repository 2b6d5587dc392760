import Mathlib.Data.Option.Basic
import TraceAnomaly.Http.Service
import TraceAnomaly.Proofs.Store.History
import TraceAnomaly.Proofs.Text.Encoding

/-! What requests ask of the store. A request that is posted to a place of the store with what is expected
there is a query, and the reply words the answer of the store; every other request is refused or concerns
the server alone. -/

namespace TraceAnomaly.Http

open Json (Codec)

/-! ### Places -/

/-- The path of a request, without what follows a question mark. -/
def Request.path (r : Request) : String := String.ofList (r.target.toList.takeWhile (· ≠ '?'))

def Route.place : Route → List Char
  | .update => "/update".toList
  | .updateAll => "/update_all".toList
  | .value piece => "/stat/".toList ++ piece
  | .values => "/stat".toList
  | .addAbnormal => "/add_abnormal".toList
  | .addAbnormalAll => "/add_abnormal_all".toList
  | .clear => "/clear".toList
  | .dump => "/dump".toList
  | .shutdown => "/shutdown".toList
  | .metrics => "/metrics".toList
  | .health => "/healthz".toList

theorem place_value (piece : List Char) :
    (Route.value piece).place = ("/stat/" ++ String.ofList piece).toList :=
  ((String.toList_append ..).trans (congrArg _ String.toList_ofList)).symm

/-- What stands for a number in a path is one piece of it. -/
def Route.IsProper : Route → Prop
  | .value piece => piece ≠ [] ∧ '/' ∉ piece
  | _ => True

theorem dropText_eq_some_iff {w cs rest : List Char} : Text.dropText w cs = some rest ↔ cs = w ++ rest := by
  induction w generalizing cs with
  | nil => simp [Text.dropText]
  | cons c w ih =>
    cases cs with
    | nil => simp [Text.dropText]
    | cons d cs =>
      by_cases h : c = d
      · simp [Text.dropText, h, ih]
      · simp [Text.dropText, h, Ne.symm h]

theorem ofTarget_eq_some_iff {r : Request} {route : Route} :
    Route.ofTarget r.target = some route ↔ r.path.toList = route.place ∧ route.IsProper := by
  constructor
  · intro h
    unfold Route.ofTarget at h
    split at h
    case h_11 =>
      split at h
      · rename_i piece hpiece
        split at h
        · cases h
        · rename_i hproper
          cases h
          simp only [not_or, List.contains_iff_mem] at hproper
          exact ⟨dropText_eq_some_iff.1 hpiece, hproper⟩
      · cases h
    all_goals
      rename_i hpath
      cases h
      exact ⟨congrArg String.toList hpath, trivial⟩
  · rintro ⟨hpath, hproper⟩
    cases route with
    | value piece =>
      have hother : ∀ place : String, place.toList.take 6 ≠ "/stat/".toList → r.path ≠ place := by
        rintro place h rfl
        rw [hpath] at h
        exact h rfl
      have hdrop : Text.dropText "/stat/".toList
          (String.ofList (r.target.toList.takeWhile (· ≠ '?'))).toList = some piece :=
        dropText_eq_some_iff.2 hpath
      unfold Route.ofTarget
      split
      case h_11 =>
        simp only [hdrop, List.contains_iff_mem]
        exact if_neg (not_or.2 hproper)
      all_goals
        rename_i h
        exact absurd h (hother _ (by decide))
    | _ =>
      have hpath' := String.toList_inj.1 hpath
      unfold Route.ofTarget
      unfold Request.path at hpath'
      rw [hpath']
      rfl

/-! ### Bodies -/

/-- The body of a request is announced as JSON, is not too long, and spells a value. -/
structure Holds {α : Type} (c : Codec α) (r : Request) (a : α) : Prop where
  announced : ∃ t, r.contentType = some t ∧ isJson t
  fits : r.body.length ≤ bodyLimit
  spelled : c.readStart r.body = .ok a

section Body

variable {α : Type} {c : Codec α} {r : Request}

theorem any_isJson_iff : r.contentType.any isJson = true ↔ ∃ t, r.contentType = some t ∧ isJson t := by
  cases r.contentType <;> simp

/-- Why a body is not read, with the status that says so. -/
theorem readBody_error_cases {reply : Response} (h : readBody c r = .error reply) :
    (reply.status = .unsupportedMediaType ∧ ¬ ∃ t, r.contentType = some t ∧ isJson t) ∨
      (reply.status = .payloadTooLarge ∧ bodyLimit < r.body.length) ∨
      (reply.status = .badRequest ∧ c.readStart r.body = .error .malformed) ∨
      (reply.status = .unprocessableContent ∧ c.readStart r.body = .error .mismatched) := by
  unfold readBody at h
  split at h
  · rename_i hjson
    cases h
    exact .inl ⟨rfl, fun ht => by simp [any_isJson_iff.2 ht] at hjson⟩
  · split at h
    · rename_i hlong
      cases h
      exact .inr (.inl ⟨rfl, hlong⟩)
    · split at h
      · cases h
      · rename_i hb
        cases h
        exact .inr (.inr (.inl ⟨rfl, hb⟩))
      · rename_i hb
        cases h
        exact .inr (.inr (.inr ⟨rfl, hb⟩))

theorem readBody_eq_ok_iff {a : α} : readBody c r = .ok a ↔ Holds c r a := by
  constructor
  · intro h
    unfold readBody at h
    split at h
    · cases h
    · split at h
      · cases h
      · split at h
        · rename_i hjson hfits _ b hb
          cases h
          exact ⟨any_isJson_iff.1 (by simpa using hjson), Nat.not_lt.1 hfits, hb⟩
        · cases h
        · cases h
  · rintro ⟨hjson, hfits, hb⟩
    rw [readBody, if_neg (by simpa using any_isJson_iff.2 hjson), if_neg (by omega), hb]

end Body

/-! ### Requests -/

/-- A query with the document that words its answer. -/
structure Inquiry where
  {Answer : Type}
  query : Query Float Answer
  document : Answer → List Char

def Posted (r : Request) (place : String) : Prop := r.method = "POST" ∧ r.path = place

/-- The request asks to be shown a place, perhaps without a body. -/
def Shown (r : Request) (place : String) : Prop := (r.method = "GET" ∨ r.method = "HEAD") ∧ r.path = place

/-- What a request asks of the store. -/
inductive Asks (r : Request) : Inquiry → Prop
  | update {b : StatBody} (hr : Posted r "/update") (hb : Holds StatBody.codec r b) :
      Asks r ⟨.update b.id b.stat, fun stat => StatBody.codec.write ⟨b.id, stat⟩⟩
  | updateAll {batch} (hr : Posted r "/update_all") (hb : Holds statsCodec r batch) :
      Asks r ⟨.updateAll batch, statsCodec.write⟩
  | value {piece id} (hr : Posted r ("/stat/" ++ String.ofList piece)) (hpiece : '/' ∉ piece)
      (hid : pathId piece = some id) : Asks r ⟨.value id, fun stat => StatBody.codec.write ⟨id, stat⟩⟩
  | values (hr : Posted r "/stat") : Asks r ⟨.values, snapshotCodec.write⟩
  | addAbnormal {b : AbnormalBody} (hr : Posted r "/add_abnormal") (hb : Holds AbnormalBody.codec r b) :
      Asks r ⟨.addAbnormal b.id b.abnormal, fun n => AbnormalBody.codec.write ⟨b.id, n⟩⟩
  | addAbnormalAll {counts} (hr : Posted r "/add_abnormal_all") (hb : Holds abnormalsCodec r counts) :
      Asks r ⟨.addAbnormalAll counts, abnormalsCodec.write⟩
  | clear (hr : Posted r "/clear") : Asks r ⟨.clear, fun _ => messageCodec.write "parameter server cleared"⟩

/-- The request is for the server and not for its store. -/
inductive IsForServer (r : Request) : Prop
  | dump (hr : Posted r "/dump")
  | shutdown (hr : Posted r "/shutdown")
  | metrics (hr : Shown r "/metrics")
  | health (hr : Shown r "/healthz")

inductive Expects : {α : Type} → Route → Codec α → Prop
  | update : Expects .update StatBody.codec
  | updateAll : Expects .updateAll statsCodec
  | addAbnormal : Expects .addAbnormal AbnormalBody.codec
  | addAbnormalAll : Expects .addAbnormalAll abnormalsCodec

/-- Why a request is refused, with the status that says so. -/
inductive Refused (r : Request) : Status → Prop
  | unknownRoute (hr : Route.ofTarget r.target = none) : Refused r .notFound
  | wrongMethod {route} (hr : Route.ofTarget r.target = some route) (hm : route.accepts r.method = false) :
      Refused r .methodNotAllowed
  | notAnnounced {route} {α : Type} {c : Codec α} (hr : Route.ofTarget r.target = some route)
      (hc : Expects route c) (h : ¬ ∃ t, r.contentType = some t ∧ isJson t) : Refused r .unsupportedMediaType
  | tooLong {route} {α : Type} {c : Codec α} (hr : Route.ofTarget r.target = some route)
      (hc : Expects route c) (h : bodyLimit < r.body.length) : Refused r .payloadTooLarge
  | malformed {route} {α : Type} {c : Codec α} (hr : Route.ofTarget r.target = some route)
      (hc : Expects route c) (h : c.readStart r.body = .error .malformed) : Refused r .badRequest
  | mismatched {route} {α : Type} {c : Codec α} (hr : Route.ofTarget r.target = some route)
      (hc : Expects route c) (h : c.readStart r.body = .error .mismatched) : Refused r .unprocessableContent
  | noNumber {piece} (hr : Route.ofTarget r.target = some (.value piece)) (h : pathId piece = none) :
      Refused r .badRequest

theorem refused_of_readBody {r : Request} {route : Route} {α : Type} {c : Codec α}
    (hr : Route.ofTarget r.target = some route) (hc : Expects route c) {reply : Response}
    (h : readBody c r = .error reply) : Refused r reply.status := by
  obtain ⟨hstatus, hwhy⟩ | ⟨hstatus, hwhy⟩ | ⟨hstatus, hwhy⟩ | ⟨hstatus, hwhy⟩ := readBody_error_cases h
  all_goals rw [hstatus]
  · exact .notAnnounced hr hc hwhy
  · exact .tooLong hr hc hwhy
  · exact .malformed hr hc hwhy
  · exact .mismatched hr hc hwhy

def Route.inquiry? (r : Request) : Route → Option Inquiry
  | .update => (readBody StatBody.codec r).toOption.map fun b =>
    ⟨.update b.id b.stat, fun stat => StatBody.codec.write ⟨b.id, stat⟩⟩
  | .updateAll => (readBody statsCodec r).toOption.map fun batch => ⟨.updateAll batch, statsCodec.write⟩
  | .value piece => (pathId piece).map fun id => ⟨.value id, fun stat => StatBody.codec.write ⟨id, stat⟩⟩
  | .values => some ⟨.values, snapshotCodec.write⟩
  | .addAbnormal => (readBody AbnormalBody.codec r).toOption.map fun b =>
    ⟨.addAbnormal b.id b.abnormal, fun n => AbnormalBody.codec.write ⟨b.id, n⟩⟩
  | .addAbnormalAll => (readBody abnormalsCodec r).toOption.map fun counts =>
    ⟨.addAbnormalAll counts, abnormalsCodec.write⟩
  | .clear => some ⟨.clear, fun _ => messageCodec.write "parameter server cleared"⟩
  | .dump | .shutdown | .metrics | .health => none

/-- The inquiry of a request, if it asks something of the store. -/
def inquiry? (r : Request) : Option Inquiry :=
  if r.method = "POST" then (Route.ofTarget r.target).bind (Route.inquiry? r) else none

theorem pathId_nil : pathId [] = none := by
  have hbytes : percentBytes [] = Text.encode [] := by
    rw [percentBytes, Text.encode_eq, List.flatMap_nil]
  rw [pathId, hbytes, Text.decode_encode]
  rfl

theorem toOption_eq_some_iff {α ε : Type} {e : Except ε α} {a : α} : e.toOption = some a ↔ e = .ok a := by
  cases e <;> simp [Except.toOption]

section Places

variable {r : Request} {route : Route} {q : Inquiry}

/-- What is posted to a place and holds what is expected there asks for the inquiry of the place. -/
theorem asks_of_inquiry? (hm : r.method = "POST") (hpath : r.path.toList = route.place) (hproper : route.IsProper)
    (hq : route.inquiry? r = some q) : Asks r q := by
  have hposted : ∀ place : String, route.place = place.toList → Posted r place := fun place hplace =>
    ⟨hm, String.toList_inj.1 (hpath.trans hplace)⟩
  have hholds : ∀ {α : Type} {c : Codec α} {a : α}, (readBody c r).toOption = some a → Holds c r a := fun ha =>
    readBody_eq_ok_iff.1 (toOption_eq_some_iff.1 ha)
  cases route with
  | update =>
    obtain ⟨b, hb, rfl⟩ := Option.map_eq_some_iff.1 hq
    exact .update (hposted _ rfl) (hholds hb)
  | updateAll =>
    obtain ⟨b, hb, rfl⟩ := Option.map_eq_some_iff.1 hq
    exact .updateAll (hposted _ rfl) (hholds hb)
  | value piece =>
    obtain ⟨id, hid, rfl⟩ := Option.map_eq_some_iff.1 hq
    exact .value (hposted _ (place_value piece)) hproper.2 hid
  | values =>
    cases hq
    exact .values (hposted _ rfl)
  | addAbnormal =>
    obtain ⟨b, hb, rfl⟩ := Option.map_eq_some_iff.1 hq
    exact .addAbnormal (hposted _ rfl) (hholds hb)
  | addAbnormalAll =>
    obtain ⟨b, hb, rfl⟩ := Option.map_eq_some_iff.1 hq
    exact .addAbnormalAll (hposted _ rfl) (hholds hb)
  | clear =>
    cases hq
    exact .clear (hposted _ rfl)
  | _ => cases hq

/-- Everything that can be asked has its place. -/
theorem Asks.exists_route (h : Asks r q) : r.method = "POST" ∧
    ∃ route : Route, (r.path.toList = route.place ∧ route.IsProper) ∧ route.inquiry? r = some q := by
  cases h with
  | update hr hb =>
    refine ⟨hr.1, .update, ⟨congrArg String.toList hr.2, trivial⟩, ?_⟩
    rw [Route.inquiry?, readBody_eq_ok_iff.2 hb]
    rfl
  | updateAll hr hb =>
    refine ⟨hr.1, .updateAll, ⟨congrArg String.toList hr.2, trivial⟩, ?_⟩
    rw [Route.inquiry?, readBody_eq_ok_iff.2 hb]
    rfl
  | @value piece id hr hpiece hid =>
    have hne : piece ≠ [] := by
      rintro rfl
      rw [pathId_nil] at hid
      cases hid
    refine ⟨hr.1, .value piece, ⟨(congrArg String.toList hr.2).trans (place_value piece).symm, hne, hpiece⟩, ?_⟩
    rw [Route.inquiry?, hid]
    rfl
  | values hr => exact ⟨hr.1, .values, ⟨congrArg String.toList hr.2, trivial⟩, rfl⟩
  | addAbnormal hr hb =>
    refine ⟨hr.1, .addAbnormal, ⟨congrArg String.toList hr.2, trivial⟩, ?_⟩
    rw [Route.inquiry?, readBody_eq_ok_iff.2 hb]
    rfl
  | addAbnormalAll hr hb =>
    refine ⟨hr.1, .addAbnormalAll, ⟨congrArg String.toList hr.2, trivial⟩, ?_⟩
    rw [Route.inquiry?, readBody_eq_ok_iff.2 hb]
    rfl
  | clear hr => exact ⟨hr.1, .clear, ⟨congrArg String.toList hr.2, trivial⟩, rfl⟩

theorem inquiry?_eq_some_iff : inquiry? r = some q ↔ Asks r q := by
  constructor
  · intro h
    unfold inquiry? at h
    split at h
    · rename_i hm
      obtain ⟨route, hroute, hq⟩ := Option.bind_eq_some_iff.1 h
      obtain ⟨hpath, hproper⟩ := ofTarget_eq_some_iff.1 hroute
      exact asks_of_inquiry? hm hpath hproper hq
    · cases h
  · intro h
    obtain ⟨hm, route, hroute, hq⟩ := h.exists_route
    rw [inquiry?, if_pos hm, ofTarget_eq_some_iff.2 hroute, Option.bind_some, hq]

end Places

end TraceAnomaly.Http
