import TraceAnomaly.Proofs.Http.Refinement
import TraceAnomaly.Proofs.Binary64.Monotone

/-! What the server counts is what has happened. Every answered request adds to the metrics just what its reply
says of it, so after any requests the counts can be read off the requests and their replies, and the number of
functions is that of the store, also where a request has not refreshed it. Counts are 64-bit words. Sums are
binary64 numbers, exact up to 53 bits. -/

namespace TraceAnomaly.Http

/-! ### What there is to count -/

def Route.isCounted : Route → Bool
  | .metrics | .health => false
  | _ => true

def mergingNames : List String := ["update", "update_all", "add_abnormal", "add_abnormal_all"]

def Response.outcome (reply : Response) : Outcome := if reply.status = .ok then .ok else .error

/-- The name and the outcome of an answered request that has reached a route which is counted. -/
def counted? (e : Request × Response) : Option (String × Outcome) :=
  match Route.ofTarget e.1.target with
  | none => none
  | some route => if route.accepts e.1.method ∧ route.isCounted then some (route.name, e.2.outcome) else none

/-- The batch of an answered request that has merged one. -/
def batch? (e : Request × Response) : Option (Keyed UInt64 (PowerSums Float)) :=
  if counted? e = some ("update_all", .ok) then (readBody statsCodec e.1).toOption else none

/-- How many distinct functions there were in each of the merged batches. -/
def batchSizes (log : List (Request × Response)) : List ℕ :=
  (log.filterMap batch?).map fun batch => batch.keys.dedup.length

theorem batchSizes_of_ne {e : Request × Response} (h : counted? e ≠ some ("update_all", .ok)) :
    batchSizes [e] = [] := by
  have hnone : batch? e = none := if_neg h
  simp [batchSizes, hnone]

theorem batchSizes_of_readBody {e : Request × Response} {batch : Keyed UInt64 (PowerSums Float)}
    (h : counted? e = some ("update_all", .ok)) (hbody : readBody statsCodec e.1 = .ok batch) :
    batchSizes [e] = [batch.size] := by
  have hbatch : batch? e = some batch := by
    rw [batch?, if_pos h, hbody]
    rfl
  have hdistinct : batch.keys.dedup.length = batch.size := by
    rw [(Keyed.nodup_keys batch).dedup]
    exact List.length_map _
  simp [batchSizes, hbatch, hdistinct]

/-! ### Metrics -/

namespace Metrics

variable (m : Metrics)

def mergesOf (route : String) : UInt64 := ((m.merges.get? route).map Histogram.count).getD 0

theorem name_injective {o o' : Outcome} (h : o.name = o'.name) : o = o' := by
  cases o <;> cases o' <;> first | rfl | exact absurd h (by decide)

@[simp] theorem requestsOf_record (l l' : String) (o o' : Outcome) :
    (m.record l o).requestsOf l' o' = m.requestsOf l' o' + if (l, o) = (l', o') then 1 else 0 := by
  rw [requestsOf, record, Keyed.get?_alter, requestsOf]
  by_cases h : (l, o) = (l', o')
  · obtain ⟨rfl, rfl⟩ := Prod.mk.inj h
    rw [if_pos rfl, if_pos rfl, Option.getD_some]
  · have hkeys : [l', o'.name] ≠ [l, o.name] := fun hkeys => by
      obtain ⟨rfl, hname⟩ := List.cons.inj hkeys
      exact h (by rw [name_injective (List.cons.inj hname).1])
    rw [if_neg hkeys, if_neg h, add_zero]

@[simp] theorem requestsOf_recordBatch (n : ℕ) (l : String) (o : Outcome) :
    (m.recordBatch n).requestsOf l o = m.requestsOf l o := rfl

@[simp] theorem requestsOf_recordMerge (l l' : String) (o : Outcome) (seconds : Float) (functions : ℕ) :
    (m.recordMerge l seconds functions).requestsOf l' o =
      m.requestsOf l' o + if (l, Outcome.ok) = (l', o) then 1 else 0 :=
  m.requestsOf_record l l' .ok o

@[simp] theorem mergesOf_record (l l' : String) (o : Outcome) : (m.record l o).mergesOf l' = m.mergesOf l' := rfl

@[simp] theorem mergesOf_recordBatch (n : ℕ) (l : String) : (m.recordBatch n).mergesOf l = m.mergesOf l := rfl

@[simp] theorem mergesOf_recordMerge (l l' : String) (seconds : Float) (functions : ℕ) :
    (m.recordMerge l seconds functions).mergesOf l' = m.mergesOf l' + if l = l' then 1 else 0 := by
  rw [mergesOf, recordMerge, Keyed.get?_alter, mergesOf]
  by_cases h : l = l'
  · subst h
    rw [if_pos rfl, if_pos rfl]
    cases hold : m.merges.get? l <;> rfl
  · rw [if_neg (Ne.symm h), if_neg h, add_zero]

@[simp] theorem batches_record (l : String) (o : Outcome) : (m.record l o).batches = m.batches := rfl

@[simp] theorem batches_recordMerge (l : String) (seconds : Float) (functions : ℕ) :
    (m.recordMerge l seconds functions).batches = m.batches := rfl

@[simp] theorem functions_record (l : String) (o : Outcome) : (m.record l o).functions = m.functions := rfl

@[simp] theorem functions_recordMerge (l : String) (seconds : Float) (functions : ℕ) :
    (m.recordMerge l seconds functions).functions = Int64.ofNat functions := rfl

end Metrics

/-! ### One request -/

/-- What an answered request does to the metrics: nothing, if it reached no route that is counted, and otherwise
what its outcome says. Only a merge changes the number of functions, and then it is recorded. -/
inductive Tallied (s : Service) (seconds : Float) (s' : Service) (e : Request × Response) : Prop
  | passed (hcounted : counted? e = none) (hsize : s'.store.size = s.store.size) (hmetrics : s'.metrics = s.metrics)
  | refused {l : String} (hcounted : counted? e = some (l, .error)) (hsize : s'.store.size = s.store.size)
      (hmetrics : s'.metrics = s.metrics.record l .error)
  | answered {l : String} (hcounted : counted? e = some (l, .ok)) (hl : l ∉ mergingNames)
      (hsize : s'.store.size = s.store.size) (hmetrics : s'.metrics = s.metrics.record l .ok)
  | merged {l : String} (hcounted : counted? e = some (l, .ok)) (hl : l ∈ mergingNames) (hbatch : l ≠ "update_all")
      (hmetrics : s'.metrics = s.metrics.recordMerge l seconds s'.store.size)
  | batched {batch : Keyed UInt64 (PowerSums Float)} (hcounted : counted? e = some ("update_all", .ok))
      (hbody : readBody statsCodec e.1 = .ok batch)
      (hmetrics : s'.metrics = (s.metrics.recordBatch batch.size).recordMerge "update_all" seconds s'.store.size)

theorem outcome_withoutBody (method : String) (reply : Response) :
    (Service.withoutBody method reply).outcome = reply.outcome := by
  rw [Response.outcome, Service.status_withoutBody, Response.outcome]

theorem outcome_of_readBody {α : Type} {c : Json.Codec α} {r : Request} {reply : Response}
    (h : readBody c r = .error reply) : reply.outcome = .error := by
  obtain ⟨hstatus, -⟩ | ⟨hstatus, -⟩ | ⟨hstatus, -⟩ | ⟨hstatus, -⟩ := readBody_error_cases h
  all_goals
    rw [Response.outcome, hstatus]
    rfl

namespace Service

variable (s : Service) (seconds : Float) {r : Request} {route : Route}

section Reached

variable (hr : Route.ofTarget r.target = some route) (hm : route.accepts r.method)
include hr hm

theorem counted?_eq (hroute : route.isCounted) (reply : Response) :
    counted? (r, withoutBody r.method reply) = some (route.name, reply.outcome) := by
  simp only [counted?, hr, hm, hroute, and_self, if_true, outcome_withoutBody]

theorem tallied_refuse (hroute : route.isCounted) {reply : Response} (hreply : reply.outcome = .error) :
    Tallied s seconds (s.refuse route reply).1 (r, withoutBody r.method (s.refuse route reply).2) := by
  refine .refused (l := route.name) ?_ rfl rfl
  rw [counted?_eq hr hm hroute]
  exact congrArg _ (congrArg _ hreply)

theorem tallied_merge {α ρ : Type} {c : Json.Codec α} (query : α → Query Float ρ) (reply : α → ρ → List Char)
    (hroute : route.isCounted) (hname : route.name ∈ mergingNames) (hbatch : route.name ≠ "update_all") :
    Tallied s seconds (s.merge route seconds r c query reply).1
      (r, withoutBody r.method (s.merge route seconds r c query reply).2) := by
  cases hb : readBody c r with
  | error refusal =>
    rw [s.merge_of_error seconds hb]
    exact s.tallied_refuse seconds hr hm hroute (outcome_of_readBody hb)
  | ok a =>
    simp only [merge, hb]
    exact .merged (counted?_eq hr hm hroute _) hname hbatch rfl

theorem tallied_handle :
    Tallied s seconds (s.handle seconds r route).1 (r, withoutBody r.method (s.handle seconds r route).2) := by
  cases route with
  | update => exact s.tallied_merge seconds hr hm _ _ rfl (by decide) (by decide)
  | updateAll =>
    cases hb : readBody statsCodec r with
    | error refusal =>
      simp only [handle, mergeBatch, hb]
      exact s.tallied_refuse seconds hr hm rfl (outcome_of_readBody hb)
    | ok batch =>
      simp only [handle, mergeBatch, hb]
      exact .batched (counted?_eq hr hm rfl _) hb rfl
  | value piece =>
    cases hid : pathId piece with
    | none =>
      simp only [handle, hid]
      exact s.tallied_refuse seconds hr hm rfl rfl
    | some id =>
      simp only [handle, hid]
      exact .answered (counted?_eq hr hm rfl _) (show "stat" ∉ mergingNames by decide) rfl rfl
  | values => exact .answered (counted?_eq hr hm rfl _) (by decide) rfl rfl
  | addAbnormal => exact s.tallied_merge seconds hr hm _ _ rfl (by decide) (by decide)
  | addAbnormalAll => exact s.tallied_merge seconds hr hm _ _ rfl (by decide) (by decide)
  | clear =>
    refine .answered (counted?_eq hr hm rfl _) (by decide) ?_ rfl
    exact List.length_map _
  | dump =>
    simp only [handle, writeDump]
    split
    · exact s.tallied_refuse seconds hr hm rfl rfl
    · split
      · exact s.tallied_refuse seconds hr hm rfl rfl
      · exact .answered (counted?_eq hr hm rfl _) (by decide) rfl rfl
  | shutdown => exact .answered (counted?_eq hr hm rfl _) (by decide) rfl rfl
  | metrics => exact .passed (by simp [counted?, hr, Route.isCounted]) rfl rfl
  | health => exact .passed (by simp [counted?, hr, Route.isCounted]) rfl rfl

end Reached

theorem tallied_respond (r : Request) : Tallied s seconds (s.respond seconds r).1 (r, (s.respond seconds r).2) := by
  cases hr : Route.ofTarget r.target with
  | none =>
    simp only [respond, hr]
    exact .passed (by simp [counted?, hr]) rfl rfl
  | some route =>
    cases hm : route.accepts r.method with
    | true =>
      rw [s.respond_of_accepts seconds hr hm]
      exact s.tallied_handle seconds hr hm
    | false =>
      simp only [respond, hr, hm]
      exact .passed (by simp [counted?, hr, hm]) rfl rfl

/-! ### Many requests -/

/-- The metrics are those of these requests with their replies, and the number of functions is that of the store. -/
structure Agrees (log : List (Request × Response)) : Prop where
  requests : ∀ l o, s.metrics.requestsOf l o = UInt64.ofNat (log.countP fun e => counted? e = some (l, o))
  functions : s.metrics.functions = Int64.ofNat s.store.size
  /-- Every accepted batch is observed, and no other. -/
  accepted : s.metrics.batches.count = s.metrics.requestsOf "update_all" .ok
  batches : s.metrics.batches.count = UInt64.ofNat (batchSizes log).length
  batchSum : s.metrics.batches.sum =
    (batchSizes log).foldl (fun total n => total + Binary64.ofNat n) (Binary64.ofNat 0)
  batchTotal : (batchSizes log).sum ≤ 2 ^ 53 → s.metrics.batches.sum = Binary64.ofNat (batchSizes log).sum
  merges : ∀ l ∈ mergingNames, s.metrics.mergesOf l = s.metrics.requestsOf l .ok
  /-- Nothing else is timed. -/
  untimed : ∀ l ∉ mergingNames, s.metrics.mergesOf l = 0

theorem agrees_empty {s : Service} (hstore : s.store = Store.empty) (hmetrics : s.metrics = {}) : s.Agrees [] := by
  constructor
  all_goals rw [hmetrics]
  · exact fun _ _ => rfl
  · rw [hstore]
    rfl
  · rfl
  · rfl
  · rfl
  · exact fun _ => rfl
  · exact fun _ _ => rfl
  · exact fun _ _ => rfl

variable {s seconds}

/-- One more request, where every metric grows by what the request is to add to it. -/
theorem Agrees.concat {s' : Service} {log : List (Request × Response)} {e : Request × Response} (h : s.Agrees log)
    (hrequests : ∀ l o, s'.metrics.requestsOf l o =
      s.metrics.requestsOf l o + if counted? e = some (l, o) then 1 else 0)
    (hfunctions : s'.metrics.functions = Int64.ofNat s'.store.size)
    (haccepted : (batchSizes [e]).length = if counted? e = some ("update_all", .ok) then 1 else 0)
    (hcount : s'.metrics.batches.count =
      s.metrics.batches.count + if counted? e = some ("update_all", .ok) then 1 else 0)
    (hsum : s'.metrics.batches.sum =
      (batchSizes [e]).foldl (fun total n => total + Binary64.ofNat n) s.metrics.batches.sum)
    (hmerges : ∀ l, s'.metrics.mergesOf l =
      s.metrics.mergesOf l + if l ∈ mergingNames ∧ counted? e = some (l, .ok) then 1 else 0) :
    s'.Agrees (log ++ [e]) := by
  have hlog : batchSizes (log ++ [e]) = batchSizes log ++ batchSizes [e] := by
    rw [batchSizes, batchSizes, batchSizes, List.filterMap_append, List.map_append]
  have hbatchSum : s'.metrics.batches.sum =
      (batchSizes (log ++ [e])).foldl (fun total n => total + Binary64.ofNat n) (Binary64.ofNat 0) := by
    rw [hsum, h.batchSum, hlog, List.foldl_append]
  refine ⟨fun l o => ?_, hfunctions, ?_, ?_, hbatchSum, fun hmax => ?_, fun l hl => ?_, fun l hl => ?_⟩
  · rw [hrequests, h.requests, List.countP_append, List.countP_singleton, UInt64.ofNat_add,
      apply_ite UInt64.ofNat]
    simp only [decide_eq_true_eq]
    rfl
  · rw [hcount, h.accepted, hrequests]
  · rw [hcount, h.batches, hlog, List.length_append, haccepted, UInt64.ofNat_add, apply_ite UInt64.ofNat]
    rfl
  · rw [hbatchSum, Binary64.foldl_ofNat_add (by rwa [Nat.zero_add]), Nat.zero_add]
  · rw [hmerges, h.merges l hl, hrequests]
    simp only [hl, true_and]
  · rw [hmerges, h.untimed l hl, if_neg fun hboth => hl hboth.1]
    rfl

/-- An answered request adds to the metrics what it is to add to them. -/
theorem Agrees.step {s' : Service} {log : List (Request × Response)} {e : Request × Response} (h : s.Agrees log)
    (he : Tallied s seconds s' e) : s'.Agrees (log ++ [e]) := by
  cases he with
  | passed hcounted hsize hmetrics =>
    have hbatch := batchSizes_of_ne (e := e) (by simp [hcounted])
    refine h.concat ?_ ?_ ?_ ?_ ?_ ?_
    all_goals simp [hmetrics, hcounted, hbatch, hsize, h.functions]
  | refused hcounted hsize hmetrics =>
    have hbatch := batchSizes_of_ne (e := e) (by simp [hcounted])
    refine h.concat ?_ ?_ ?_ ?_ ?_ ?_
    all_goals simp [hmetrics, hcounted, hbatch, hsize, h.functions]
  | @answered l hcounted hl hsize hmetrics =>
    have hne : l ≠ "update_all" := fun heq => hl (heq ▸ by decide)
    have hbatch := batchSizes_of_ne (e := e) (by simp [hcounted, hne])
    refine h.concat ?_ ?_ ?_ ?_ ?_ fun l' => ?_
    · simp [hmetrics, hcounted]
    · simp [hmetrics, hsize, h.functions]
    · simp [hcounted, hbatch, hne]
    · simp [hmetrics, hcounted, hne]
    · simp [hmetrics, hbatch]
    · have hother : ¬ (l' ∈ mergingNames ∧ l = l') := fun ⟨hmem, heq⟩ => hl (heq ▸ hmem)
      simp [hmetrics, hcounted, hother]
  | @merged l hcounted hl hne hmetrics =>
    have hbatch := batchSizes_of_ne (e := e) (by simp [hcounted, hne])
    refine h.concat ?_ ?_ ?_ ?_ ?_ fun l' => ?_
    · simp [hmetrics, hcounted]
    · simp [hmetrics]
    · simp [hcounted, hbatch, hne]
    · simp [hmetrics, hcounted, hne]
    · simp [hmetrics, hbatch]
    · have hmem : l' ∈ mergingNames ∧ l = l' ↔ l = l' := and_iff_right_of_imp fun heq => heq ▸ hl
      simp [hmetrics, hcounted, hmem]
  | @batched batch hcounted hbody hmetrics =>
    have hbatch := batchSizes_of_readBody hcounted hbody
    refine h.concat ?_ ?_ ?_ ?_ ?_ fun l' => ?_
    · simp [hmetrics, hcounted]
    · simp [hmetrics]
    · simp [hcounted, hbatch]
    · simp [hmetrics, hcounted, Metrics.recordBatch, Histogram.observe]
    · simp [hmetrics, hbatch, Metrics.recordBatch, Histogram.observe]
    · have hmem : l' ∈ mergingNames ∧ "update_all" = l' ↔ "update_all" = l' :=
        and_iff_right_of_imp fun heq => heq ▸ by decide
      simp [hmetrics, hcounted, hmem]

/-- Answers requests one after another, each merge in the time that comes with its request, and keeps the requests
with their replies. -/
def serve (s : Service) : List (Float × Request) → Service × List (Request × Response)
  | [] => (s, [])
  | (seconds, r) :: rest =>
    let (next, reply) := s.respond seconds r
    let (final, log) := serve next rest
    (final, (r, reply) :: log)

theorem map_fst_serve (s : Service) (rs : List (Float × Request)) :
    (s.serve rs).2.map Prod.fst = rs.map Prod.snd := by
  induction rs generalizing s with
  | nil => rfl
  | cons r rest ih => exact congrArg _ (ih (s.respond r.1 r.2).1)

theorem serve_take (s : Service) (rs : List (Float × Request)) (k : ℕ) :
    (s.serve (rs.take k)).2 = (s.serve rs).2.take k := by
  induction rs generalizing s k with
  | nil => simp [serve]
  | cons r rest ih =>
    cases k with
    | zero => rfl
    | succ k => exact congrArg _ (ih (s.respond r.1 r.2).1 k)

theorem Agrees.serve {log : List (Request × Response)} (h : s.Agrees log) (rs : List (Float × Request)) :
    (s.serve rs).1.Agrees (log ++ (s.serve rs).2) := by
  induction rs generalizing s log with
  | nil =>
    rw [Service.serve, List.append_nil]
    exact h
  | cons r rest ih =>
    have hrest := ih (h.step (s.tallied_respond r.1 r.2))
    rwa [List.append_assoc, List.singleton_append] at hrest

theorem Agrees.respondAll {log : List (Request × Response)} (h : s.Agrees log) (seconds : Float)
    (rs : List Request) :
    (s.respondAll seconds rs).1.Agrees (log ++ rs.zip (s.respondAll seconds rs).2) := by
  induction rs generalizing s log with
  | nil =>
    rw [Service.respondAll, List.zip_nil_left, List.append_nil]
    exact h
  | cons r rest ih =>
    rw [Service.respondAll]
    split
    · rw [List.zip_nil_right, List.append_nil]
      exact h
    · have hrest := ih (h.step (s.tallied_respond seconds r))
      rwa [List.append_assoc, List.singleton_append] at hrest

/-- After each of any requests to a server that starts empty, the metrics are those of the requests so far with their
replies. So they are for a server that stops when it is asked to. -/
theorem metrics_agree (hstore : s.store = Store.empty) (hmetrics : s.metrics = {}) :
    (∀ rs : List (Float × Request), (s.serve rs).2.map Prod.fst = rs.map Prod.snd ∧
      ∀ k, (s.serve (rs.take k)).1.Agrees ((s.serve rs).2.take k)) ∧
      ∀ (seconds : Float) (rs : List Request),
        (s.respondAll seconds rs).1.Agrees (rs.zip (s.respondAll seconds rs).2) := by
  have hempty := agrees_empty hstore hmetrics
  refine ⟨fun rs => ⟨s.map_fst_serve rs, fun k => ?_⟩, hempty.respondAll⟩
  rw [← serve_take]
  exact hempty.serve (rs.take k)

/-- A batch of two functions, a batch that is refused, one that is not posted, a reset, and a look at the metrics. -/
theorem metrics_agree_refused_batch :
    let post (place body : String) : Float × Request := (0, ⟨"POST", place, some "application/json", body.toList⟩)
    let good := post "/update_all" "\x7b\"stats\":\x7b\"7\":[1.0,2.0,4.0,0],\"8\":[1.0,2.0,4.0,1]\x7d\x7d"
    let bad := post "/update_all" "\x7b\"stats\":\x7b\"9\":[1.0]\x7d\x7d"
    let rs := [good, bad, (0, { good.2 with method := "GET" }), post "/clear" "", (0, ⟨"GET", "/metrics", none, []⟩)]
    let s : Service := {}
    let m := (s.serve rs).1.metrics
    s.store = Store.empty ∧ (m.requestsOf "update_all" .ok = 1 ∧ m.requestsOf "update_all" .error = 1) ∧
      (m.requestsOf "clear" .ok = 1 ∧ m.requestsOf "metrics" .ok = 0) ∧
      m.functions = Int64.ofNat (s.serve rs).1.store.size ∧
      (m.batches.count = 1 ∧ m.batches.sum = Binary64.ofNat 2) ∧ m.mergesOf "update_all" = 1 := by
  intro post good bad rs s m
  have hlog : (s.serve rs).2.map counted? =
      [some ("update_all", .ok), some ("update_all", .error), none, some ("clear", .ok), none] := by
    decide +kernel
  have hsizes : batchSizes (s.serve rs).2 = [2] := by decide +kernel
  have hall : (s.serve rs).1.Agrees (s.serve rs).2 := by
    obtain ⟨-, hprefix⟩ := (metrics_agree (s := s) rfl rfl).1 rs
    have hwhole := hprefix 5
    rwa [List.take_of_length_le (by simp [rs]), List.take_of_length_le] at hwhole
    rw [← List.length_map counted?, hlog]
    decide
  have hrequests : ∀ l o, m.requestsOf l o = UInt64.ofNat ([some ("update_all", Outcome.ok),
      some ("update_all", .error), none, some ("clear", .ok), none].count (some (l, o))) := fun l o => by
    rw [hall.requests, ← hlog, List.count_eq_countP, List.countP_map]
    exact congrArg _ (List.countP_congr fun e _ => by simp)
  have hcount := hall.accepted
  rw [hrequests] at hcount
  refine ⟨rfl, ⟨hrequests .., hrequests ..⟩, ⟨hrequests .., hrequests ..⟩, hall.functions, ⟨hcount, ?_⟩, ?_⟩
  · have htotal := hall.batchTotal
    rw [hsizes] at htotal
    exact htotal (by decide)
  · rw [hall.merges "update_all" (by decide), hrequests]
    rfl

end Service

end TraceAnomaly.Http
