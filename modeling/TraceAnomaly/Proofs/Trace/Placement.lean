import TraceAnomaly.Proofs.Trace.Moment

/-! Where every event of a frame is processed. Under way, the waiting messages are one list, by thread and
then by time; each call takes from it what it follows, and what no call follows comes last. So the calls keep
their order, a message stands right in front of the first call of its thread that comes after it, and the
order in which messages of different threads or instants were delivered does not matter. -/

namespace TraceAnomaly

/-- A call of the message's own thread that comes after it. -/
def CallEvent.Follows (c : CallEvent) (m : MessageEvent) : Prop := c.thread = m.thread ∧ c.After m.time

instance (c : CallEvent) (m : MessageEvent) : Decidable (c.Follows m) :=
  inferInstanceAs (Decidable (c.thread = m.thread ∧ c.After m.time))

namespace Frame

def Followed (cs : List CallEvent) (m : MessageEvent) : Prop := ∃ c ∈ cs, c.Follows m

instance (cs : List CallEvent) (m : MessageEvent) : Decidable (Followed cs m) :=
  inferInstanceAs (Decidable (∃ c ∈ cs, c.Follows m))

theorem followed_cons {c : CallEvent} {cs : List CallEvent} {m : MessageEvent} :
    Followed (c :: cs) m ↔ c.Follows m ∨ Followed cs m := by
  simp [Followed]

/-! ### One list of waiting messages -/

/-- Puts the messages of a list in front of the first call that follows them. -/
def place (waiting : List MessageEvent) : List CallEvent → List Event
  | [] => waiting.map .message
  | c :: rest =>
    (waiting.filter (c.Follows ·)).map .message ++ .call c :: place (waiting.filter (¬ c.Follows ·)) rest

def Timely (waiting : Keyed Thread (List MessageEvent)) : Prop :=
  ∀ t ms, waiting.get? t = some ms → ms.Pairwise fun a b => a.time ≤ b.time

theorem timely_byThread (ms : List MessageEvent) : Timely (byThread ms) := by
  intro t waiting ht
  have hget := getD_get?_byThread ms t
  rw [ht, Option.getD_some] at hget
  exact hget ▸ sorted_mergeSort MessageEvent.time _

/-- Of messages in order of time, a call of their thread follows those up to the first that it does not
follow. -/
theorem span_precedes {c : CallEvent} {ms : List MessageEvent}
    (htime : ms.Pairwise fun a b => a.time ≤ b.time) (hthread : ∀ m ∈ ms, m.thread = c.thread) :
    ms.takeWhile (precedes c) = ms.filter (c.Follows ·) ∧
      ms.dropWhile (precedes c) = ms.filter (¬ c.Follows ·) := by
  induction ms with
  | nil => exact ⟨rfl, rfl⟩
  | cons m ms ih =>
    obtain ⟨hleast, htime⟩ := List.pairwise_cons.1 htime
    obtain ⟨hm, hthread⟩ := List.forall_mem_cons.1 hthread
    have hfollows : c.Follows m ↔ precedes c m := by
      rw [precedes_iff]
      exact and_iff_right hm.symm
    by_cases hc : precedes c m
    · have hf := hfollows.2 hc
      simp [hc, hf, ih htime hthread]
    · have hnone : ∀ n ∈ m :: ms, ¬ c.Follows n := by
        refine List.forall_mem_cons.2 ⟨fun hf => hc (hfollows.1 hf), fun n hn hf => ?_⟩
        exact hc (precedes_iff.2 (hf.2.anti (hleast n hn)))
      have hf := List.filter_eq_nil_iff.2
        (fun n hn => by simpa using hnone n hn : ∀ n ∈ m :: ms, ¬ decide (c.Follows n))
      have hall := List.filter_eq_self.2
        (fun n hn => by simpa using hnone n hn : ∀ n ∈ m :: ms, decide (¬ c.Follows n))
      rw [hf, hall]
      simp [hc]

def left (waiting : Keyed Thread (List MessageEvent)) (c : CallEvent) : Keyed Thread (List MessageEvent) :=
  waiting.mapValues (·.filter (¬ c.Follows ·))

theorem get?_left_eq_some {waiting : Keyed Thread (List MessageEvent)} {c : CallEvent} {t : Thread}
    {ms : List MessageEvent} (h : (left waiting c).get? t = some ms) :
    ∃ all, waiting.get? t = some all ∧ ms = all.filter (¬ c.Follows ·) := by
  rw [left, Keyed.get?_mapValues, Option.map_eq_some_iff] at h
  obtain ⟨all, hall, rfl⟩ := h
  exact ⟨all, hall, rfl⟩

theorem Timely.left {waiting : Keyed Thread (List MessageEvent)} (h : Timely waiting) (c : CallEvent) :
    Timely (left waiting c) := by
  intro t ms ht
  obtain ⟨all, hall, rfl⟩ := get?_left_eq_some ht
  exact (h t all hall).filter _

section Sorted

variable {waiting : Keyed Thread (List MessageEvent)} (h : Sorted waiting) {c : CallEvent}
include h

theorem Sorted.left (c : CallEvent) : Sorted (left waiting c) := by
  intro t ms ht m hm
  obtain ⟨all, hall, rfl⟩ := get?_left_eq_some ht
  exact h t all hall m (List.mem_of_mem_filter hm)

/-- A call leaves the messages of other threads alone. -/
theorem get?_left_other {t : Thread} (ht : t ≠ c.thread) : (left waiting c).get? t = waiting.get? t := by
  rw [left, Keyed.get?_mapValues]
  cases hget : waiting.get? t with
  | none => rfl
  | some ms =>
    have hall : ∀ m ∈ ms, decide (¬ c.Follows m) := fun m hm =>
      decide_eq_true fun hf => ht ((h t ms hget m hm).symm.trans hf.1.symm)
    rw [Option.map_some, List.filter_eq_self.2 hall]

theorem left_of_none (hnone : waiting.get? c.thread = none) : left waiting c = waiting := by
  refine Keyed.ext_get? fun t => ?_
  by_cases ht : t = c.thread
  · rw [ht, left, Keyed.get?_mapValues, hnone, Option.map_none]
  · exact get?_left_other h ht

theorem left_of_some {ms : List MessageEvent} (hms : waiting.get? c.thread = some ms) :
    left waiting c = waiting.insert c.thread (ms.filter (¬ c.Follows ·)) := by
  refine Keyed.ext_get? fun t => ?_
  rw [Keyed.get?_insert]
  split
  · rename_i ht
    rw [ht, left, Keyed.get?_mapValues, hms, Option.map_some]
  · rename_i ht
    exact get?_left_other h ht

/-- What a call takes stands among the messages of its thread. -/
theorem filter_follows (c : CallEvent) : waiting.values.flatten.filter (c.Follows ·) =
    ((waiting.get? c.thread).getD []).filter (c.Follows ·) := by
  rw [← Keyed.filter_flatten_values waiting MessageEvent.thread h, List.filter_filter]
  refine List.filter_congr fun m _ => ?_
  by_cases hf : c.Follows m
  · simp [hf, hf.1]
  · simp [hf]

/-- Merging takes from the messages of each thread what placing takes from one list of all. -/
theorem merge_eq_place (htime : Timely waiting) (cs : List CallEvent) :
    merge waiting cs = place waiting.values.flatten cs := by
  induction cs generalizing waiting with
  | nil => rfl
  | cons c rest ih =>
    have hleft : waiting.values.flatten.filter (¬ c.Follows ·) = (left waiting c).values.flatten := by
      rw [left, Keyed.values_mapValues, List.filter_flatten]
    rw [place, filter_follows h, hleft, ← ih (h.left c) (htime.left c), merge]
    cases hms : waiting.get? c.thread with
    | none => simp [left_of_none h hms]
    | some ms =>
      obtain ⟨htake, hdrop⟩ := span_precedes (htime _ _ hms) (h _ _ hms)
      simp only [htake, hdrop, left_of_some h hms, Option.getD_some]

end Sorted

/-! ### What waits at the start -/

/-- The messages of a frame by thread, those of a thread by time, those of one instant as delivered. -/
def queue (ms : List MessageEvent) : List MessageEvent := (byThread ms).values.flatten

theorem ordered_eq_place (f : Frame) : f.ordered = place (queue f.messages) f.calls :=
  merge_eq_place (sorted_byThread f.messages) (timely_byThread f.messages) f.calls

theorem filter_queue (ms : List MessageEvent) (t : Thread) : (queue ms).filter (·.thread = t) =
    (ms.filter (·.thread = t)).mergeSort fun a b => a.time ≤ b.time := by
  rw [queue, Keyed.filter_flatten_values _ MessageEvent.thread (sorted_byThread ms), getD_get?_byThread]

theorem queue_perm (ms : List MessageEvent) : (queue ms).Perm ms := by
  refine List.perm_iff_count.2 fun m => ?_
  have hcount : ∀ ns : List MessageEvent, (ns.filter (·.thread = m.thread)).count m = ns.count m :=
    fun ns => List.count_filter (decide_eq_true rfl)
  rw [← hcount, filter_queue, (List.mergeSort_perm _ _).count_eq, hcount]

theorem queue_grouped (ms : List MessageEvent) :
    (queue ms).Pairwise fun a b => (compare a.thread b.thread).isLE :=
  Keyed.pairwise_flatten_values (byThread ms) MessageEvent.thread (sorted_byThread ms)

/-- The queue depends on the messages of every thread and instant in their order, and on nothing else. -/
theorem queue_congr {ms ns : List MessageEvent} (h : ∀ t τ, (ms.filter (·.thread = t)).filter (·.time = τ) =
    (ns.filter (·.thread = t)).filter (·.time = τ)) : queue ms = queue ns := by
  have hsorted : ∀ t, (ms.filter (·.thread = t)).mergeSort (fun a b => a.time ≤ b.time) =
      (ns.filter (·.thread = t)).mergeSort fun a b => a.time ≤ b.time := fun t => by
    refine eq_mergeSort MessageEvent.time (sorted_mergeSort MessageEvent.time _) fun τ => ?_
    rw [filter_mergeSort MessageEvent.time, h]
  have hnone : ∀ t, ms.filter (·.thread = t) = [] ↔ ns.filter (·.thread = t) = [] := fun t => by
    rw [← List.length_eq_zero_iff, ← List.length_eq_zero_iff, ← (List.mergeSort_perm _ _).length_eq,
      hsorted, (List.mergeSort_perm _ _).length_eq]
  have hthreads : byThread ms = byThread ns := Keyed.ext_get? fun t => by
    simp only [get?_byThread, hsorted, hnone]
  rw [queue, hthreads, queue]

/-! ### Placing -/

theorem place_perm (ws : List MessageEvent) (cs : List CallEvent) :
    (place ws cs).Perm (cs.map .call ++ ws.map .message) := by
  induction cs generalizing ws with
  | nil => exact List.Perm.refl _
  | cons c rest ih =>
    have hsplit : ((ws.filter (c.Follows ·)).map Event.message ++
        (ws.filter (¬ c.Follows ·)).map Event.message).Perm (ws.map .message) := by
      rw [← List.map_append]
      exact (by simpa using List.filter_append_perm (c.Follows ·) ws : List.Perm _ ws).map _
    refine (((ih _).cons _).append_left _).trans (List.perm_middle.trans (.cons _ ?_))
    exact (List.perm_append_comm_assoc _ _ _).trans (hsplit.append_left _)

/-- The messages that no call follows come last, and no others. -/
theorem exists_place_eq (ws : List MessageEvent) (cs : List CallEvent) : ∃ front,
    place ws cs = front ++ (ws.filter (¬ Followed cs ·)).map .message ∧
      ∀ m, .message m ∈ front → Followed cs m := by
  induction cs generalizing ws with
  | nil => exact ⟨[], by simp [place, Followed], by simp⟩
  | cons c rest ih =>
    obtain ⟨front, hfront, hfollowed⟩ := ih (ws.filter (¬ c.Follows ·))
    refine ⟨(ws.filter (c.Follows ·)).map .message ++ .call c :: front, ?_, fun m hm => ?_⟩
    · have hrest : (ws.filter (¬ c.Follows ·)).filter (¬ Followed rest ·) =
          ws.filter (¬ Followed (c :: rest) ·) := by
        rw [List.filter_filter]
        refine List.filter_congr fun m _ => ?_
        simp [followed_cons, Bool.and_comm]
      rw [place, hfront, hrest, List.append_assoc, List.cons_append]
    · rw [followed_cons]
      rcases List.mem_append.1 hm with hm | hm
      · obtain ⟨n, hn, he⟩ := List.mem_map.1 hm
        obtain rfl := Event.message.inj he
        exact .inl (of_decide_eq_true (List.mem_filter.1 hn).2)
      · exact .inr (hfollowed m ((List.mem_cons.1 hm).resolve_left (by simp)))

theorem mem_of_message_mem_place {ws : List MessageEvent} {cs : List CallEvent} {m : MessageEvent}
    (h : Event.message m ∈ place ws cs) : m ∈ ws := by
  have hevent := (place_perm _ _).mem_iff.1 h
  simp only [List.mem_append, List.mem_map, reduceCtorEq, and_false, exists_false, false_or] at hevent
  obtain ⟨n, hn, he⟩ := hevent
  exact Event.message.inj he ▸ hn

/-- A message that a call follows stands in front of the first such call, with only messages of its own
thread between them. -/
theorem place_split {ws : List MessageEvent} {cs : List CallEvent} {before after : List Event}
    {m : MessageEvent} (h : place ws cs = before ++ .message m :: after) (hm : Followed cs m) :
    ∃ (between : List MessageEvent) (c : CallEvent) (rest : List Event),
      after = between.map Event.message ++ .call c :: rest ∧ c.Follows m ∧
      (∀ n ∈ between, n.thread = m.thread) ∧ ∀ d ∈ before.filterMap Event.call?, ¬ d.Follows m := by
  induction cs generalizing ws before with
  | nil => simp [Followed] at hm
  | cons c rest ih =>
    rw [place, List.append_eq_append_iff] at h
    rcases h with ⟨more, rfl, hmore⟩ | ⟨block, hblock, hafter⟩
    · -- the message stands behind this call, which does not follow it
      obtain _ | ⟨e, more⟩ := more
      · cases (List.cons.inj hmore).1
      obtain ⟨rfl, hrest⟩ := List.cons.inj hmore
      have hc : ¬ c.Follows m := by
        have hmem : Event.message m ∈ place (ws.filter (¬ c.Follows ·)) rest :=
          hrest ▸ List.mem_append_right _ (List.mem_cons_self ..)
        exact of_decide_eq_true (List.mem_filter.1 (mem_of_message_mem_place hmem)).2
      obtain ⟨between, d, tail, hafter, hd, hbetween, hfirst⟩ :=
        ih hrest ((followed_cons.1 hm).resolve_left hc)
      refine ⟨between, d, tail, hafter, hd, hbetween, ?_⟩
      rw [List.filterMap_append, calls_messages, List.nil_append,
        List.filterMap_cons_some (Event.call?_call c)]
      exact List.forall_mem_cons.2 ⟨hc, hfirst⟩
    · -- the message is one of those that this call takes
      obtain _ | ⟨e, block⟩ := block
      · cases (List.cons.inj hafter).1
      obtain ⟨rfl, rfl⟩ := List.cons.inj hafter
      obtain ⟨early, late, htaken, rfl, hlate⟩ := List.map_eq_append_iff.1 hblock
      obtain ⟨n, between, rfl, hn, rfl⟩ := List.map_eq_cons_iff.1 hlate
      obtain rfl := Event.message.inj hn
      have hfollows : ∀ x ∈ n :: between, c.Follows x := fun x hx => by
        have hx' : x ∈ ws.filter (c.Follows ·) := htaken ▸ List.mem_append_right _ hx
        exact of_decide_eq_true (List.mem_filter.1 hx').2
      obtain ⟨hfollow, hothers⟩ := List.forall_mem_cons.1 hfollows
      refine ⟨between, c, _, rfl, hfollow, fun x hx => (hothers x hx).1.symm.trans hfollow.1, ?_⟩
      rw [calls_messages]
      exact fun d hd => nomatch hd

/-! ### One thread in order of time -/

theorem le_of_mem_dropWhile {c : CallEvent} {ms : List MessageEvent}
    (hms : ms.Pairwise fun a b => a.time ≤ b.time) {m : MessageEvent}
    (hm : m ∈ ms.dropWhile (precedes c)) : c.time ≤ m.time := by
  have hhead := List.head?_dropWhile_not (precedes c) ms
  have hsorted := hms.sublist (List.dropWhile_sublist (precedes c))
  cases hdrop : ms.dropWhile (precedes c) with
  | nil =>
    rw [hdrop] at hm
    cases hm
  | cons n rest =>
    rw [hdrop] at hm hhead hsorted
    have hn : ¬ c.After n.time := by
      rw [← precedes_iff]
      simpa using hhead
    have hle := (CallEvent.le_of_not_after hn).1
    rcases List.mem_cons.1 hm with rfl | hm
    · exact hle
    · exact UInt64.le_trans hle (List.rel_of_pairwise_cons hsorted hm)

theorem mem_mergeOne {ms : List MessageEvent} {cs : List CallEvent} {e : Event} (h : e ∈ mergeOne ms cs) :
    (∃ m ∈ ms, e = .message m) ∨ ∃ c ∈ cs, e = .call c := by
  cases e with
  | message m =>
    have hm : m ∈ (mergeOne ms cs).filterMap Event.message? := List.mem_filterMap.2 ⟨_, h, rfl⟩
    exact .inl ⟨m, messages_mergeOne ms cs ▸ hm, rfl⟩
  | call c =>
    have hc : c ∈ (mergeOne ms cs).filterMap Event.call? := List.mem_filterMap.2 ⟨_, h, rfl⟩
    exact .inr ⟨c, calls_mergeOne ms cs ▸ hc, rfl⟩

/-- If the calls of a thread are in order of time, so are all its events. -/
theorem pairwise_mergeOne {ms : List MessageEvent} {cs : List CallEvent}
    (hms : ms.Pairwise fun a b => a.time ≤ b.time) (hcs : cs.Pairwise fun a b => a.time ≤ b.time) :
    (mergeOne ms cs).Pairwise fun a b => a.time ≤ b.time := by
  induction cs generalizing ms with
  | nil => exact List.pairwise_map.2 hms
  | cons c cs ih =>
    obtain ⟨hfirst, hcs⟩ := List.pairwise_cons.1 hcs
    have hearly : ∀ m ∈ ms.takeWhile (precedes c), m.time ≤ c.time := fun m hm =>
      (precedes_iff.1 (List.mem_takeWhile_imp hm)).le
    have hlate : ∀ e ∈ mergeOne (ms.dropWhile (precedes c)) cs, c.time ≤ e.time := fun e he => by
      rcases mem_mergeOne he with ⟨m, hm, rfl⟩ | ⟨d, hd, rfl⟩
      · exact le_of_mem_dropWhile hms hm
      · exact hfirst d hd
    rw [mergeOne, List.pairwise_append, List.pairwise_cons, List.pairwise_map]
    refine ⟨hms.sublist (List.takeWhile_sublist _), ⟨hlate, ih (hms.sublist (List.dropWhile_sublist _)) hcs⟩, ?_⟩
    intro e he d hd
    obtain ⟨m, hm, rfl⟩ := List.mem_map.1 he
    rcases List.mem_cons.1 hd with rfl | hd
    · exact hearly m hm
    · exact UInt64.le_trans (hearly m hm) (hlate d hd)

/-! ### The order of a frame -/

/-- What it means that events are in the processing order of a frame. -/
structure ProcessingOrder (f : Frame) (es : List Event) : Prop where
  /-- Every call and every message is there, and nothing else. -/
  perm : es.Perm (f.calls.map .call ++ f.messages.map .message)
  /-- The calls keep their order. -/
  calls : es.filterMap Event.call? = f.calls
  /-- The messages of a thread come in order of time. -/
  timed : ∀ t, ((es.filterMap Event.message?).filter (·.thread = t)).Pairwise fun a b => a.time ≤ b.time
  /-- Those of one instant come in the order of delivery. -/
  ties : ∀ t τ, ((es.filterMap Event.message?).filter (·.thread = t)).filter (·.time = τ) =
    (f.messages.filter (·.thread = t)).filter (·.time = τ)
  /-- A message that some call follows stands in front of the first one that does, with only messages of
  its own thread between them. -/
  placed : ∀ before m after, es = before ++ .message m :: after → Followed f.calls m →
    ∃ (between : List MessageEvent) (c : CallEvent) (rest : List Event),
      after = between.map .message ++ .call c :: rest ∧ c.Follows m ∧
        (∀ n ∈ between, n.thread = m.thread) ∧ ∀ d ∈ before.filterMap Event.call?, ¬ d.Follows m
  /-- The other messages are the tail, thread by thread. -/
  tail : ∃ (front : List Event) (rest : List MessageEvent), es = front ++ rest.map .message ∧
    (∀ m, .message m ∈ front → Followed f.calls m) ∧ (∀ m ∈ rest, ¬ Followed f.calls m) ∧
      rest.Pairwise fun a b => (compare a.thread b.thread).isLE

theorem processingOrder_ordered (f : Frame) : ProcessingOrder f f.ordered where
  perm := by
    rw [ordered_eq_place]
    exact (place_perm _ _).trans (((queue_perm f.messages).map _).append_left _)
  calls := calls_ordered f
  timed t := by
    rw [messages_ordered]
    exact sorted_mergeSort MessageEvent.time _
  ties t τ := by rw [messages_ordered, filter_mergeSort MessageEvent.time]
  placed before m after h hm := place_split ((ordered_eq_place f).symm.trans h) hm
  tail := by
    obtain ⟨front, hfront, hfollowed⟩ := exists_place_eq (queue f.messages) f.calls
    refine ⟨front, _, (ordered_eq_place f).trans hfront, hfollowed, fun m hm => ?_, ?_⟩
    · exact of_decide_eq_true (List.mem_filter.1 hm).2
    · exact (queue_grouped f.messages).filter _

/-- The processing order of a frame puts every event at its place. A thread whose calls
are in order of time is processed in order of time, and the order does not change with the delivery of
messages of different threads or instants. -/
theorem ordered_exact (f : Frame) : ProcessingOrder f f.ordered ∧ f.ordered.length = f.size ∧
    (∀ t, (f.calls.filter (·.thread = t)).Pairwise (fun a b => a.time ≤ b.time) →
      (f.ordered.filter (·.thread = t)).Pairwise fun a b => a.time ≤ b.time) ∧
    ∀ ms : List MessageEvent, (∀ t τ, (ms.filter (·.thread = t)).filter (·.time = τ) =
      (f.messages.filter (·.thread = t)).filter (·.time = τ)) →
        { f with messages := ms }.ordered = f.ordered := by
  refine ⟨processingOrder_ordered f, ?_, fun t ht => ?_, fun ms hms => ?_⟩
  · rw [(processingOrder_ordered f).perm.length_eq, List.length_append, List.length_map, List.length_map, size]
  · rw [filter_ordered]
    exact pairwise_mergeOne (sorted_mergeSort MessageEvent.time _) ht
  · rw [ordered_eq_place, ordered_eq_place, queue_congr hms]

/-- Calls that are not in order of time, a message at the instant of an exit, one that no call follows, and
two threads whose messages are delivered the other way round. -/
theorem ordered_exact_two_threads :
    let t : Thread := ⟨0, 0, 0⟩
    let u : Thread := ⟨0, 0, 1⟩
    let m : MessageEvent := ⟨t, .send, 0, 1, 8, 20⟩
    let n : MessageEvent := ⟨u, .send, 0, 1, 8, 20⟩
    let k : MessageEvent := ⟨t, .receive, 0, 1, 8, 40⟩
    let f : Frame := {
      step := 0
      calls := [⟨t, .entry, 1, 10⟩, ⟨u, .entry, 2, 30⟩, ⟨t, .exit, 1, 20⟩, ⟨t, .entry, 3, 5⟩]
      messages := [k, m, n] }
    f.ordered = [.call ⟨t, .entry, 1, 10⟩, .message n, .call ⟨u, .entry, 2, 30⟩, .message m,
        .call ⟨t, .exit, 1, 20⟩, .call ⟨t, .entry, 3, 5⟩, .message k] ∧
      Followed f.calls m ∧ ¬ Followed f.calls k ∧
      { f with messages := [n, k, m] }.ordered = f.ordered := by
  intro t u m n k f
  have hms : ∀ v τ, ([n, k, m].filter (·.thread = v)).filter (·.time = τ) =
      (f.messages.filter (·.thread = v)).filter (·.time = τ) := fun v τ => by
    by_cases hv : v = u
    · subst hv
      rfl
    · have hn : ¬ n.thread = v := Ne.symm hv
      simp only [f, List.filter_cons, hn, decide_false, Bool.false_eq_true, if_false, List.filter_nil]
  have hvalues : (byThread f.messages).values =
      [[k, m].mergeSort (·.time ≤ ·.time), [n].mergeSort (·.time ≤ ·.time)] := rfl
  have hqueue : queue f.messages = [m, k, n] := by
    rw [queue, hvalues]
    simp [List.mergeSort, List.MergeSort.Internal.splitInTwo, m, k]
  refine ⟨?_, by decide, by decide, (ordered_exact f).2.2.2 _ hms⟩
  rw [ordered_eq_place, hqueue]
  decide

end Frame

end TraceAnomaly
