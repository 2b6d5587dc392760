import TraceAnomaly.Proofs.Http.Inquiry

/-! The server refines its store. A request that asks something of the store has exactly the effect of its
query and is answered by it; every other request leaves the store alone. So after any requests the store is
the one that the queries alone would have made. -/

namespace TraceAnomaly.Http

open Json (Codec)

namespace Service

variable (s : Service) (seconds : Float) {r : Request} {route : Route} {q : Inquiry}

/-! ### One request -/

theorem merge_of_ok {α ρ : Type} {c : Codec α} {a : α} (h : readBody c r = .ok a) (query : α → Query Float ρ)
    (reply : α → ρ → List Char) :
    let result := s.merge route seconds r c query reply
    result.2 = .json (reply a (s.store.answer (query a)).2) ∧ result.1.store = (s.store.answer (query a)).1 ∧
      result.1.isCancelled = s.isCancelled := by
  simp only [merge, h]
  exact ⟨rfl, rfl, rfl⟩

theorem merge_of_error {α ρ : Type} {c : Codec α} {refusal : Response} (h : readBody c r = .error refusal)
    (query : α → Query Float ρ) (reply : α → ρ → List Char) :
    s.merge route seconds r c query reply = s.refuse route refusal := by
  simp only [merge, h]

/-- A request with an inquiry is answered by its query. -/
theorem handle_of_inquiry (h : route.inquiry? r = some q) :
    let result := s.handle seconds r route
    result.2 = .json (q.document (s.store.answer q.query).2) ∧ result.1.store = (s.store.answer q.query).1 ∧
      result.1.isCancelled = s.isCancelled := by
  cases route with
  | update =>
    obtain ⟨b, hb, rfl⟩ := Option.map_eq_some_iff.1 h
    exact s.merge_of_ok seconds (toOption_eq_some_iff.1 hb) _ _
  | updateAll =>
    obtain ⟨b, hb, rfl⟩ := Option.map_eq_some_iff.1 h
    simp only [handle, mergeBatch, toOption_eq_some_iff.1 hb]
    exact ⟨rfl, rfl, rfl⟩
  | value piece =>
    obtain ⟨id, hid, rfl⟩ := Option.map_eq_some_iff.1 h
    simp only [handle, hid]
    exact ⟨rfl, rfl, rfl⟩
  | values =>
    cases h
    exact ⟨rfl, rfl, rfl⟩
  | addAbnormal =>
    obtain ⟨b, hb, rfl⟩ := Option.map_eq_some_iff.1 h
    exact s.merge_of_ok seconds (toOption_eq_some_iff.1 hb) _ _
  | addAbnormalAll =>
    obtain ⟨b, hb, rfl⟩ := Option.map_eq_some_iff.1 h
    exact s.merge_of_ok seconds (toOption_eq_some_iff.1 hb) _ _
  | clear =>
    cases h
    exact ⟨rfl, rfl, rfl⟩
  | _ => cases h

theorem toOption_eq_none_iff {α ε : Type} {e : Except ε α} : e.toOption = none ↔ ∃ x, e = .error x := by
  cases e <;> simp [Except.toOption]

/-- A request without one is refused, or it is for the server. -/
theorem handle_of_none (hr : Route.ofTarget r.target = some route) (h : route.inquiry? r = none) :
    let result := s.handle seconds r route
    result.1.store = s.store ∧ (result.1.isCancelled = s.isCancelled ∨ route = .shutdown) ∧
      (Refused r result.2.status ∨ route ∈ [.dump, .shutdown, .metrics, .health]) := by
  cases route with
  | update =>
    obtain ⟨reply, hb⟩ := toOption_eq_none_iff.1 (Option.map_eq_none_iff.1 h)
    simp only [handle, s.merge_of_error seconds hb]
    exact ⟨rfl, .inl rfl, .inl (refused_of_readBody hr .update hb)⟩
  | updateAll =>
    obtain ⟨reply, hb⟩ := toOption_eq_none_iff.1 (Option.map_eq_none_iff.1 h)
    simp only [handle, mergeBatch, hb]
    exact ⟨rfl, .inl rfl, .inl (refused_of_readBody hr .updateAll hb)⟩
  | value piece =>
    have hid := Option.map_eq_none_iff.1 h
    simp only [handle, hid]
    exact ⟨rfl, .inl rfl, .inl (.noNumber hr hid)⟩
  | values => cases h
  | addAbnormal =>
    obtain ⟨reply, hb⟩ := toOption_eq_none_iff.1 (Option.map_eq_none_iff.1 h)
    simp only [handle, s.merge_of_error seconds hb]
    exact ⟨rfl, .inl rfl, .inl (refused_of_readBody hr .addAbnormal hb)⟩
  | addAbnormalAll =>
    obtain ⟨reply, hb⟩ := toOption_eq_none_iff.1 (Option.map_eq_none_iff.1 h)
    simp only [handle, s.merge_of_error seconds hb]
    exact ⟨rfl, .inl rfl, .inl (refused_of_readBody hr .addAbnormalAll hb)⟩
  | clear => cases h
  | dump =>
    have hdump : s.writeDump.1.store = s.store ∧ s.writeDump.1.isCancelled = s.isCancelled := by
      unfold writeDump
      split
      · exact ⟨rfl, rfl⟩
      · split <;> exact ⟨rfl, rfl⟩
    exact ⟨hdump.1, .inl hdump.2, .inr (by simp)⟩
  | shutdown => exact ⟨rfl, .inr rfl, .inr (by simp)⟩
  | metrics => exact ⟨rfl, .inl rfl, .inr (by simp)⟩
  | health => exact ⟨rfl, .inl rfl, .inr (by simp)⟩

theorem respond_of_accepts (hr : Route.ofTarget r.target = some route) (hm : route.accepts r.method) :
    s.respond seconds r =
      ((s.handle seconds r route).1, withoutBody r.method (s.handle seconds r route).2) := by
  simp only [respond, hr, hm]
  rfl

/-- What a request asks of the store is answered by the store. -/
theorem respond_of_asks (h : Asks r q) :
    (s.respond seconds r).2 = .json (q.document (s.store.answer q.query).2) ∧
      (s.respond seconds r).1.store = (s.store.answer q.query).1 ∧
      (s.respond seconds r).1.isCancelled = s.isCancelled := by
  obtain ⟨hm, route, hroute, hq⟩ := h.exists_route
  have haccepts : route.accepts r.method := by
    rw [hm]
    cases route <;> first | rfl | cases hq
  rw [s.respond_of_accepts seconds (ofTarget_eq_some_iff.2 hroute) haccepts, hm]
  exact s.handle_of_inquiry seconds hq

theorem status_withoutBody (method : String) (reply : Response) :
    (withoutBody method reply).status = reply.status := by
  unfold withoutBody
  split <;> rfl

theorem posted_of_ofTarget {place : String} (hr : Route.ofTarget r.target = some route)
    (hplace : route.place = place.toList) (hm : r.method = "POST") : Posted r place :=
  ⟨hm, String.toList_inj.1 ((ofTarget_eq_some_iff.1 hr).1.trans hplace)⟩

theorem isForServer_of_route (hr : Route.ofTarget r.target = some route) (hm : route.accepts r.method)
    (h : route ∈ [.dump, .shutdown, .metrics, .health]) : IsForServer r := by
  have hpath := (ofTarget_eq_some_iff.1 hr).1
  simp only [List.mem_cons, List.not_mem_nil, or_false] at h
  rcases h with rfl | rfl | rfl | rfl
  · exact .dump (posted_of_ofTarget hr rfl (by simpa [Route.accepts] using hm))
  · exact .shutdown (posted_of_ofTarget hr rfl (by simpa [Route.accepts] using hm))
  · exact .metrics ⟨by simpa [Route.accepts] using hm, String.toList_inj.1 hpath⟩
  · exact .health ⟨by simpa [Route.accepts] using hm, String.toList_inj.1 hpath⟩

/-- A request that asks nothing of the store leaves it alone, and is refused or for the server. -/
theorem respond_of_not_asks (h : ∀ q, ¬ Asks r q) :
    (s.respond seconds r).1.store = s.store ∧
      ((s.respond seconds r).1.isCancelled = s.isCancelled ∨ Posted r "/shutdown") ∧
      (Refused r (s.respond seconds r).2.status ∨ IsForServer r) := by
  cases hroute : Route.ofTarget r.target with
  | none =>
    have hrespond : s.respond seconds r = (s, .bare .notFound) := by simp only [respond, hroute]
    rw [hrespond]
    exact ⟨rfl, .inl rfl, .inl (.unknownRoute hroute)⟩
  | some route =>
    cases hm : route.accepts r.method with
    | false =>
      have hrespond : s.respond seconds r = (s, .bare .methodNotAllowed) := by
        simp only [respond, hroute, hm]
        rfl
      rw [hrespond]
      exact ⟨rfl, .inl rfl, .inl (.wrongMethod hroute hm)⟩
    | true =>
      have hnone : route.inquiry? r = none := by
        refine Option.eq_none_iff_forall_not_mem.2 fun q hq => ?_
        by_cases hpost : r.method = "POST"
        · refine h q (inquiry?_eq_some_iff.1 ?_)
          rw [inquiry?, if_pos hpost, hroute, Option.bind_some]
          exact hq
        · -- what takes another method asks nothing
          cases route with
          | metrics => cases hq
          | health => cases hq
          | _ => exact absurd hm (by simp [Route.accepts, hpost])
      obtain ⟨hstore, hcancelled, hreply⟩ := s.handle_of_none seconds hroute hnone
      rw [s.respond_of_accepts seconds hroute hm, status_withoutBody]
      refine ⟨hstore, hcancelled.imp_right ?_, hreply.imp_right (isForServer_of_route hroute hm)⟩
      rintro rfl
      exact posted_of_ofTarget hroute rfl (by simpa [Route.accepts] using hm)

/-! ### Many requests -/

end Service

/-- The query of a request that changes what the store holds. -/
def writing? (r : Request) : Option (AnyQuery Float) :=
  (inquiry? r).bind fun q => if q.query.isMerge || q.query.isClear then some ⟨q.Answer, q.query⟩ else none

namespace Service

variable (s : Service) (seconds : Float)

/-- One request does to the store what its query does, if it has one. -/
theorem store_respond (r : Request) :
    (s.respond seconds r).1.store = s.store.run (writing? r).toList := by
  cases hq : inquiry? r with
  | none =>
    have hnot : ∀ q, ¬ Asks r q := fun q h => by
      rw [inquiry?_eq_some_iff.2 h] at hq
      cases hq
    rw [writing?, hq, (s.respond_of_not_asks seconds hnot).1]
    rfl
  | some q =>
    rw [writing?, hq, (s.respond_of_asks seconds (inquiry?_eq_some_iff.1 hq)).2.1, Option.bind_some]
    split
    · rfl
    · -- what neither merges nor clears only reads
      rename_i hread
      obtain ⟨query, document⟩ := q
      cases query <;> first | rfl | exact absurd rfl hread

/-- After requests that were all answered, the store is what their queries alone would have made. -/
theorem store_respondAll (rs : List Request) :
    (s.respondAll seconds rs).1.store =
      s.store.run ((rs.take (s.respondAll seconds rs).2.length).filterMap writing?) := by
  induction rs generalizing s with
  | nil => rfl
  | cons r rest ih =>
    rw [respondAll]
    split
    · rfl
    · dsimp only
      rw [ih, store_respond, List.length_cons, List.take_succ_cons, List.filterMap_cons]
      cases writing? r with
      | none => rfl
      | some q => simp [Store.run]

/-- Every answered request meets the server as the requests before it have left it. -/
theorem respondAll_step {rs : List Request} {k : ℕ} {r : Request} {reply : Response} (hr : rs[k]? = some r)
    (hreply : (s.respondAll seconds rs).2[k]? = some reply) :
    reply = ((s.respondAll seconds (rs.take k)).1.respond seconds r).2 ∧
      (s.respondAll seconds (rs.take (k + 1))).1 =
        ((s.respondAll seconds (rs.take k)).1.respond seconds r).1 ∧
      (s.respondAll seconds (rs.take k)).2.length = k ∧
      (s.respondAll seconds (rs.take (k + 1))).2.length = k + 1 := by
  induction rs generalizing s k with
  | nil => simp at hr
  | cons r₀ rest ih =>
    rw [respondAll] at hreply
    split at hreply
    · simp at hreply
    · rename_i hrunning
      cases k with
      | zero =>
        obtain rfl : r₀ = r := by simpa using hr
        obtain rfl : (s.respond seconds r₀).2 = reply := by simpa using hreply
        simp [respondAll, hrunning]
      | succ k =>
        obtain ⟨h1, h2, h3, h4⟩ := ih (s.respond seconds r₀).1 (by simpa using hr) (by simpa using hreply)
        simp only [List.take_succ_cons, respondAll, hrunning]
        exact ⟨h1, h2, congrArg (· + 1) h3, congrArg (· + 1) h4⟩

/-- Every request is answered until one has asked the server to stop. -/
theorem respondAll_answers (hrunning : s.isCancelled = false) (rs : List Request) :
    (s.respondAll seconds rs).2.length = rs.length ∨
      ∃ stop, (rs.take (s.respondAll seconds rs).2.length).getLast? = some stop ∧ Posted stop "/shutdown" := by
  induction rs generalizing s with
  | nil => exact .inl rfl
  | cons r rest ih =>
    simp only [respondAll, hrunning]
    cases hnext : (s.respond seconds r).1.isCancelled with
    | false =>
      rcases ih (s.respond seconds r).1 hnext with h | ⟨stop, hstop, hposted⟩
      · exact .inl (congrArg (· + 1) h)
      · refine .inr ⟨stop, ?_, hposted⟩
        simp only [List.length_cons, List.take_succ_cons, List.getLast?_cons, hstop, Option.getD_some,
          if_neg Bool.false_ne_true]
    | true =>
      have hposted : Posted r "/shutdown" := by
        by_cases hasks : ∃ q, Asks r q
        · obtain ⟨q, hq⟩ := hasks
          rw [(s.respond_of_asks seconds hq).2.2, hrunning] at hnext
          cases hnext
        · have hnot := (s.respond_of_not_asks seconds (not_exists.1 hasks)).2.1
          rw [hnext, hrunning] at hnot
          exact hnot.resolve_left (by decide)
      have hrest : (respondAll (s.respond seconds r).1 seconds rest).2 = [] := by
        cases rest <;> simp [respondAll, hnext]
      exact .inr ⟨r, by simp [hrest], hposted⟩

/-- The server refines its store. While it answers, the store is the one that the queries so far have made
of an empty one, reads, refusals and requests for the server left out. A request that asks something of the
store is answered by what the store says to the query at that point, and has the effect of the query. Any
other request changes nothing, and is refused for one of the reasons for that or is for the server. All
requests are answered up to one that asks the server to stop. -/
theorem respondAll_refines_store {s : Service} (hempty : s.store = Store.empty) (hrunning : s.isCancelled = false)
    (seconds : Float) (rs : List Request) :
    let replies := (s.respondAll seconds rs).2
    let after (k : ℕ) : Store Float := (s.respondAll seconds (rs.take k)).1.store
    let plain (k : ℕ) : Store Float := Store.empty.run ((rs.take k).filterMap writing?)
    (replies.length = rs.length ∨
        ∃ stop, (rs.take replies.length).getLast? = some stop ∧ Posted stop "/shutdown") ∧
      (s.respondAll seconds rs).1.store = plain replies.length ∧
      ∀ k r reply, rs[k]? = some r → replies[k]? = some reply →
        after k = plain k ∧ after (k + 1) = plain (k + 1) ∧
        (∀ q, Asks r q → reply = .json (q.document ((plain k).answer q.query).2) ∧
          plain (k + 1) = ((plain k).answer q.query).1) ∧
        ((∀ q, ¬ Asks r q) → plain (k + 1) = plain k ∧ (Refused r reply.status ∨ IsForServer r)) := by
  intro replies after plain
  refine ⟨s.respondAll_answers seconds hrunning rs, ?_, fun k r reply hr hreply => ?_⟩
  · rw [s.store_respondAll seconds rs, hempty]
  · obtain ⟨hanswer, hnext, hlength, hlength'⟩ := s.respondAll_step seconds hr hreply
    have hk : after k = plain k := by
      simp only [after, plain, s.store_respondAll, hempty, hlength, List.take_take, Nat.min_self]
    have hk' : after (k + 1) = plain (k + 1) := by
      simp only [after, plain, s.store_respondAll, hempty, hlength', List.take_take, Nat.min_self]
    set before := (s.respondAll seconds (rs.take k)).1 with hbefore
    have hstep : plain (k + 1) = (before.respond seconds r).1.store := by
      rw [← hk', ← hnext]
    have hstart : before.store = plain k := hk
    refine ⟨hk, hk', fun q hq => ?_, fun hnone => ?_⟩
    · obtain ⟨hdocument, hstore, -⟩ := before.respond_of_asks seconds hq
      rw [hanswer, hstep, hstore, hdocument, hstart]
      exact ⟨rfl, rfl⟩
    · obtain ⟨hstore, -, hreply⟩ := before.respond_of_not_asks seconds hnone
      rw [hanswer, hstep, hstore, hstart]
      exact ⟨rfl, hreply⟩

/-- Between an update and a look at its function come a batch with one bad entry, a request that is not posted, a
body that is no text, a content type without an end, and an update with a byte behind its document that no text
has. The last one counts. Then the server is asked to stop. -/
theorem respondAll_refines_store_bad_batch :
    let post (place body : String) : Request := ⟨"POST", place, some "application/json", body.toList⟩
    let good := post "/update" "\x7b\"id\":7,\"stat\":[1.0,2.0,4.0,0]\x7d"
    let bad := post "/update_all" "\x7b\"stats\":\x7b\"7\":[1.0,2.0,4.0,0],\"8\":[1.0]\x7d\x7d"
    let rs := [good, bad, { good with method := "GET" }, { good with body := [0xff] },
      { good with contentType := some "application/json; charset" }, { good with body := good.body ++ [0xff] },
      post "/stat/7" "", post "/shutdown" "", good]
    let delta : PowerSums Float := ⟨Binary64.ofNat 1, Binary64.ofNat 2, Binary64.ofNat 4, 0⟩
    let once := Store.empty.update 7 delta
    let twice := once.update 7 delta
    let s : Service := {}
    let replies := (s.respondAll 0 rs).2
    s.store = Store.empty ∧ s.isCancelled = false ∧
      replies.map (·.status) = [.ok, .unprocessableContent, .methodNotAllowed, .badRequest, .unsupportedMediaType,
        .ok, .ok, .ok] ∧
      (s.respondAll 0 rs).1.store = twice ∧
      (s.respondAll 0 (rs.take 2)).1.store = (s.respondAll 0 (rs.take 1)).1.store ∧
      ∃ reply, replies[6]? = some reply ∧ reply = .json (StatBody.codec.write ⟨7, twice.value 7⟩) := by
  intro post good bad rs delta once twice s replies
  have hstatuses : replies.map (·.status) = [.ok, .unprocessableContent, .methodNotAllowed, .badRequest,
      .unsupportedMediaType, .ok, .ok, .ok] := by decide +kernel
  have hlength : replies.length = 8 := by
    rw [← List.length_map (·.status), hstatuses]
    rfl
  have hplain : ∀ k ∈ [6, 7, 8], Store.empty.run ((rs.take k).filterMap writing?) = twice := by decide +kernel
  have hget : ∀ l : List Response, l.length = 8 → ∀ k < 8, ∃ reply, l[k]? = some reply :=
    fun l hl k hk => ⟨_, List.getElem?_eq_getElem (hl ▸ hk)⟩
  obtain ⟨-, hfinal, hsteps⟩ := respondAll_refines_store (s := s) rfl rfl 0 rs
  refine ⟨rfl, rfl, hstatuses, ?_, ?_, ?_⟩
  · rw [hfinal, hlength]
    exact hplain 8 (by decide)
  · obtain ⟨reply, hreply⟩ := hget replies hlength 1 (by decide)
    obtain ⟨hafter, hafter', -, hother⟩ := hsteps 1 bad reply rfl hreply
    have hnot : ∀ q, ¬ Asks bad q := fun q hq => by
      have hnone : (inquiry? bad).isNone := by decide +kernel
      rw [inquiry?_eq_some_iff.2 hq] at hnone
      cases hnone
    beta_reduce at hafter hafter' hother
    exact hafter'.trans ((hother hnot).1.trans hafter.symm)
  · obtain ⟨reply, hreply⟩ := hget replies hlength 6 (by decide)
    obtain ⟨-, -, hasks, -⟩ := hsteps 6 (post "/stat/7" "") reply rfl hreply
    have hvalue : Asks (post "/stat/7" "")
        ⟨.value 7, fun stat => StatBody.codec.write ⟨7, stat⟩⟩ :=
      have hposted : Posted (post "/stat/7" "") ("/stat/" ++ String.ofList ['7']) := ⟨rfl, by decide⟩
      .value hposted (by decide) (by decide +kernel)
    beta_reduce at hasks
    rw [hplain 6 (by decide)] at hasks
    exact ⟨reply, hreply, (hasks _ hvalue).1⟩

end Service

end TraceAnomaly.Http
