import TraceAnomaly.Proofs.Http.Carriage

/-! Replies that bundle the statistics of many functions. A client reads such a reply as a whole, so one function
with a sum that has left the range of numbers hides all others in it: the server still merges and answers, but
the client gets an error. A query for one function is answered whatever the others hold. -/

namespace TraceAnomaly.Http.Client

open Json (Codec)

variable {ρ : Type} {q : Query Float ρ}

/-- A reply is not read if some sum in it is no number. -/
theorem read_document_error {a : ρ} (h : ¬ ∀ v ∈ q.returned a, v.IsFinite) :
    ∃ e, (answerCodec q).read (document q a) = .error e := by
  simp only [not_forall] at h
  obtain ⟨v, hv, hnot⟩ := h
  cases q with
  | update id delta =>
    obtain rfl := List.mem_singleton.1 hv
    exact ((StatBody.refuses_codec (b := ⟨id, v⟩) hnot).as StatBody.stat).read_write
  | value id =>
    obtain rfl := List.mem_singleton.1 hv
    exact ((StatBody.refuses_codec (b := ⟨id, v⟩) hnot).as StatBody.stat).read_write
  | updateAll batch =>
    obtain ⟨e, he, rfl⟩ := List.mem_map.1 hv
    exact (refuses_statsCodec he hnot).read_write
  | values =>
    obtain ⟨e, he, rfl⟩ := List.mem_map.1 hv
    exact (refuses_snapshotCodec he hnot).read_write
  | _ => cases hv

theorem answer_document (q : Query Float ρ) (a : ρ) : answer q (some (.json (document q a))) =
    if ∀ v ∈ q.returned a, v.IsFinite then .ok a else .error (.undecodable q.path) := by
  rw [answer_json]
  split_ifs with h
  · rw [read_document h]
  · obtain ⟨e, he⟩ := read_document_error h
    rw [he]

/-- A call gives all that the store has answered, or nothing of it. -/
theorem Delivers.call_all_or_nothing {c : Client} {send : Transport Service} (h : c.Delivers send) {s : Service}
    (hs : s.isCancelled = false) (hsubmitted : ∀ delta ∈ q.submitted, delta.IsFinite)
    (hfits : ∀ text ∈ body q, (Text.encode text).length ≤ bodyLimit) :
    (((c.aggregator send).call q s).2 =
        if ∀ v ∈ q.returned (s.store.answer q).2, v.IsFinite then .ok (s.store.answer q).2
        else .error ⟨q.purpose, .undecodable q.path⟩) ∧
      ((c.aggregator send).call q s).1.store = (s.store.answer q).1 := by
  obtain ⟨hreply, hstore, -⟩ := h.call_of_asks hs hsubmitted hfits
  refine ⟨?_, hstore⟩
  rw [hreply, answer_document]
  split_ifs <;> rfl

/-! ### Batches that are refused -/

/-- Why the server does not read a batch: it is too long, or it holds a sum that is no number. -/
def refusals : List Status := [.payloadTooLarge, .badRequest, .unprocessableContent]

theorem readBody_batch_error {r : Request} {batch : Keyed UInt64 (PowerSums Float)}
    (htype : r.contentType = some "application/json") (hbody : r.body = statsCodec.write batch)
    (h : bodyLimit < r.body.length ∨ ∃ e ∈ batch.toList, ¬ e.2.IsFinite) :
    ∃ reply, readBody statsCodec r = .error reply ∧ reply.status ∈ refusals := by
  cases hb : readBody statsCodec r with
  | error reply =>
    refine ⟨reply, rfl, ?_⟩
    obtain ⟨-, hnone⟩ | ⟨hstatus, -⟩ | ⟨hstatus, -⟩ | ⟨hstatus, -⟩ := readBody_error_cases hb
    · exact absurd ⟨_, htype, by decide⟩ hnone
    all_goals
      rw [hstatus]
      decide
  | ok a =>
    have hholds := readBody_eq_ok_iff.1 hb
    rcases h with hlong | ⟨e, he, hnot⟩
    · exact absurd hholds.fits (Nat.not_le.2 hlong)
    · obtain ⟨fault, hfault⟩ := (refuses_statsCodec he hnot).readStart_write
      have hspelled := hholds.spelled
      rw [hbody, hfault] at hspelled
      cases hspelled

theorem Delivers.call_refused_batch {c : Client} {send : Transport Service} (h : c.Delivers send) {s : Service}
    (hs : s.isCancelled = false) {batch : Keyed UInt64 (PowerSums Float)}
    (hbatch : bodyLimit < (Text.encode (statsCodec.write batch)).length ∨ ∃ e ∈ batch.toList, ¬ e.2.IsFinite) :
    (∃ status ∈ refusals, ((c.aggregator send).call (.updateAll batch) s).2 =
        .error ⟨"updating statistics", .status status.code status.reason "/update_all"⟩) ∧
      ((c.aggregator send).call (.updateAll batch) s).1.store = s.store := by
  obtain ⟨seconds, hsend⟩ := h "/update_all" (body (.updateAll batch)) s hs
  set r : Request := { c.request "/update_all" (body (.updateAll batch)) with target := "/update_all" }
  obtain ⟨reply, hreply, hstatus⟩ := readBody_batch_error (r := r) rfl rfl hbatch
  have hroute : Route.ofTarget "/update_all" = some .updateAll := by decide
  have hrespond : s.respond seconds r = s.refuse .updateAll reply := by
    rw [s.respond_of_accepts seconds (r := r) hroute rfl]
    simp only [Service.handle, Service.mergeBatch, hreply]
    rfl
  rw [hrespond] at hsend
  have hne : reply.status ≠ .ok := by
    intro hok
    rw [hok] at hstatus
    exact absurd hstatus (by decide)
  have hcall : (c.aggregator send).call (.updateAll batch) s = ((s.refuse .updateAll reply).1,
      (answer (.updateAll batch) (some reply)).mapError (⟨"updating statistics", ·⟩)) := by
    simp only [aggregator]
    rw [show (Query.updateAll batch).path = "/update_all" from rfl, hsend]
    rfl
  rw [hcall]
  refine ⟨⟨reply.status, hstatus, ?_⟩, rfl⟩
  rw [answer, received, if_neg hne]
  rfl

/-! ### Bundles -/

/-- What a client gets over HTTP from a running server, whatever has been merged into its store before. A query
for all functions is answered just if all stored sums are numbers, a query for one just if its own are. A batch
that is not refused is merged in any case, and answered just if the merged sums of all its functions are
numbers. -/
theorem bundles_all_or_nothing {c : Client} {send : Transport Service} (h : c.Delivers send) {s : Service}
    (hs : s.isCancelled = false) :
    let remote := c.aggregator send
    (((remote.call .values s).2 = if s.store.IsFinite then .ok s.store
        else .error ⟨"fetching statistics", .undecodable "/stat"⟩) ∧ (remote.call .values s).1.store = s.store) ∧
      (∀ g, (remote.call (.value g) s).2 = if (s.store.value g).IsFinite then .ok (s.store.value g)
        else .error ⟨(Query.value (α := Float) g).purpose, .undecodable (Query.value (α := Float) g).path⟩) ∧
      ∀ batch : Keyed UInt64 (PowerSums Float),
        let merged := s.store.updateAll batch
        let reply := (remote.call (.updateAll batch) s).2
        let after := (remote.call (.updateAll batch) s).1.store
        ((Text.encode (statsCodec.write batch)).length ≤ bodyLimit → (∀ e ∈ batch.toList, e.2.IsFinite) →
          after = merged ∧
            reply = if ∀ e ∈ batch.toList, (merged.value e.1).IsFinite then .ok (batch.relabel merged.value)
              else .error ⟨"updating statistics", .undecodable "/update_all"⟩) ∧
        (bodyLimit < (Text.encode (statsCodec.write batch)).length ∨ (∃ e ∈ batch.toList, ¬ e.2.IsFinite) →
          after = s.store ∧ ∃ status ∈ refusals,
            reply = .error ⟨"updating statistics", .status status.code status.reason "/update_all"⟩) := by
  intro remote
  have hvalues : (∀ v ∈ (Query.values (α := Float)).returned s.store, v.IsFinite) ↔ s.store.IsFinite :=
    List.forall_mem_map
  refine ⟨?_, fun g => ?_, fun batch => ⟨fun hfits hbatch => ?_, fun hbatch => ?_⟩⟩
  · obtain ⟨hreply, hstore⟩ := h.call_all_or_nothing hs (q := .values) nofun nofun
    exact ⟨hreply.trans (if_congr hvalues rfl rfl), hstore⟩
  · obtain ⟨hreply, -⟩ := h.call_all_or_nothing hs (q := .value g) nofun nofun
    exact hreply.trans (if_congr List.forall_mem_singleton rfl rfl)
  · have hsubmitted : ∀ delta ∈ (Query.updateAll batch).submitted, delta.IsFinite := by
      intro delta hdelta
      obtain ⟨e, he, rfl⟩ := List.mem_map.1 hdelta
      exact hbatch e he
    have hbody : ∀ text ∈ body (.updateAll batch), (Text.encode text).length ≤ bodyLimit := by
      rintro text ⟨⟩
      exact hfits
    obtain ⟨hreply, hstore⟩ := h.call_all_or_nothing hs hsubmitted hbody
    refine ⟨hstore, hreply.trans (if_congr ?_ rfl rfl)⟩
    simp only [Query.returned, Store.answer, Keyed.relabel, Keyed.toList, List.map_map, List.forall_mem_map]
    rfl
  · obtain ⟨hreply, hstore⟩ := h.call_refused_batch hs hbatch
    exact ⟨hstore, hreply⟩

/-- A store with sums close to the end of the range: it is answered as a whole, until a batch takes one of its
functions out of the range. Then neither the batch nor the store is, but the other function is on its own. -/
theorem bundles_all_or_nothing_overflow :
    let c : Client := ⟨"http://localhost:8000"⟩
    let remote := c.aggregator (.connected 0)
    let heavy : PowerSums Float := ⟨Binary64.ofNat 1, Binary64.ofDecimal 1 308, Binary64.ofNat 4, 0⟩
    let light : PowerSums Float := ⟨Binary64.ofNat 1, Binary64.ofNat 2, Binary64.ofNat 4, 0⟩
    let s : Service := { store := Keyed.ofList [(1, heavy), (2, light)] }
    let batch := Keyed.ofList [(1, heavy), (2, light)]
    let reply := (remote.call (.updateAll batch) s).2
    let after := (remote.call (.updateAll batch) s).1
    c.Delivers (.connected 0) ∧ s.isCancelled = false ∧ (remote.call .values s).2 = .ok s.store ∧
      reply = .error ⟨"updating statistics", .undecodable "/update_all"⟩ ∧
      after.isCancelled = false ∧ after.store = s.store.updateAll batch ∧
      (remote.call .values after).2 = .error ⟨"fetching statistics", .undecodable "/stat"⟩ ∧
      (remote.call (.value 2) after).2 = .ok (light + light) := by
  intro c remote heavy light s batch reply after
  have hdelivers : c.Delivers (.connected 0) := delivers_connected (by decide +kernel) 0
  have hbatch : ∀ e ∈ batch.toList, e.2.IsFinite := by decide +kernel
  have hfits : (Text.encode (statsCodec.write batch)).length ≤ bodyLimit := by decide +kernel
  have hbefore : s.store.IsFinite := by decide +kernel
  have hmerged : ¬ ∀ e ∈ batch.toList, ((s.store.updateAll batch).value e.1).IsFinite := by decide +kernel
  have hstored : ¬ (s.store.updateAll batch).IsFinite := by decide +kernel
  have hlight : ((s.store.updateAll batch).value 2).IsFinite ∧
      (s.store.updateAll batch).value 2 = light + light := by decide +kernel
  have hrunning : ((c.aggregator (.connected 0)).call (.updateAll batch) s).1.isCancelled = false := by
    decide +kernel
  obtain ⟨⟨hvalues, -⟩, -, hmerge⟩ := bundles_all_or_nothing hdelivers (s := s) rfl
  obtain ⟨hafter, hreply⟩ := (hmerge batch).1 hfits hbatch
  obtain ⟨⟨hlost, -⟩, hone, -⟩ := bundles_all_or_nothing hdelivers hrunning
  rw [hafter, if_neg hstored] at hlost
  have hother := hone 2
  rw [hafter, if_pos hlight.1, hlight.2] at hother
  rw [if_pos hbefore] at hvalues
  rw [if_neg hmerged] at hreply
  simp only [reply, after, remote]
  exact ⟨hdelivers, rfl, hvalues, hreply, hrunning, hafter, hlost, hother⟩

/-- Three requests with finite numbers that are all accepted. The first function is then out of range, and the
second, whose sums are small, can no longer be had together with it, while the store itself still gives it. -/
theorem hidden_by_overflow :
    let post (body : String) : Request := ⟨"POST", "/update", some "application/json", body.toList⟩
    let heavy := post "\x7b\"id\":1,\"stat\":[0,1e308,0,0]\x7d"
    let answered := Service.respondAll {} 0 [heavy, heavy, post "\x7b\"id\":2,\"stat\":[1,2,4,0]\x7d"]
    let s := answered.1
    let remote := Client.aggregator ⟨"http://localhost:8000"⟩ (.connected 0)
    let light : PowerSums Float := ⟨Binary64.ofNat 1, Binary64.ofNat 2, Binary64.ofNat 4, 0⟩
    let batch := Keyed.ofList [(1, light), (2, light)]
    answered.2.map (·.status) = [.ok, .ok, .ok] ∧ s.isCancelled = false ∧ s.store.get? 2 = some light ∧
      light.IsFinite ∧ (s.respond 0 ⟨"POST", "/stat", none, []⟩).2 =
        .json "\x7b\"ps\":\x7b\"1\":[0.0,null,0.0,0],\"2\":[1.0,2.0,4.0,0]\x7d\x7d".toList ∧
      (remote.call .values s).2 = .error ⟨"fetching statistics", .undecodable "/stat"⟩ ∧
      (s.store.updateAll batch).get? 2 = some (light + light) ∧ (light + light).IsFinite ∧
      (remote.call (.updateAll batch) s).2 = .error ⟨"updating statistics", .undecodable "/update_all"⟩ ∧
      (Aggregator.inProcess.call .values s.store).2 = .ok s.store := by
  intro post heavy answered s remote light batch
  have hdelivers : Client.Delivers ⟨"http://localhost:8000"⟩ (.connected 0) :=
    delivers_connected (by decide +kernel) 0
  have hrunning : s.isCancelled = false := by decide +kernel
  have hfits : ∀ text ∈ body (.updateAll batch), (Text.encode text).length ≤ bodyLimit := by decide +kernel
  have hvalues : ¬ ∀ v ∈ (Query.values (α := Float)).returned s.store, v.IsFinite := by decide +kernel
  have hmerged : ¬ ∀ v ∈ (Query.updateAll batch).returned (s.store.answer (.updateAll batch)).2, v.IsFinite := by
    decide +kernel
  refine ⟨by decide +kernel, hrunning, by decide +kernel, by decide +kernel, by decide +kernel, ?_,
    by decide +kernel, by decide +kernel, ?_, rfl⟩
  · exact (hdelivers.call_all_or_nothing hrunning (q := .values) nofun nofun).1.trans (if_neg hvalues)
  · exact (hdelivers.call_all_or_nothing hrunning (by decide +kernel) hfits).1.trans (if_neg hmerged)

end TraceAnomaly.Http.Client
