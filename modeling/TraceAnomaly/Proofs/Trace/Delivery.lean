import TraceAnomaly.Proofs.Keyed.Update
import TraceAnomaly.Proofs.StableSort
import TraceAnomaly.Trace.Delivery

/-! The processing order of a frame, seen from one thread: the messages of the thread by time, merged
into its call events. So the order on each thread depends on the calls of the thread and on its
messages of every instant, and not on how those of different threads or instants were delivered. -/

namespace TraceAnomaly

@[simp] theorem Event.thread_call (e : CallEvent) : (call e).thread = e.thread := rfl

@[simp] theorem Event.thread_message (e : MessageEvent) : (message e).thread = e.thread := rfl

namespace Frame

/-! ### Waiting messages -/

theorem get?_byThread (ms : List MessageEvent) (t : Thread) : (byThread ms).get? t =
    if ms.filter (·.thread = t) = [] then none
    else some ((ms.filter (·.thread = t)).mergeSort fun a b => a.time ≤ b.time) := by
  have hcollect : ∀ ms : List MessageEvent, (ms.foldr (fun m threads =>
      threads.alter m.thread fun old => m :: old.getD []) (Keyed.empty : Keyed Thread _)).get? t =
        if ms.filter (·.thread = t) = [] then none else some (ms.filter (·.thread = t)) := by
    intro ms
    induction ms with
    | nil => rfl
    | cons m rest ih =>
      rw [List.foldr_cons, Keyed.get?_alter, List.filter_cons]
      by_cases hm : m.thread = t
      · subst hm
        rw [ih]
        by_cases hrest : rest.filter (·.thread = m.thread) = []
        · simp [hrest]
        · simp [hrest]
      · simp [hm, Ne.symm hm, ih]
  rw [byThread, Keyed.get?_mapValues, hcollect ms]
  split <;> rfl

theorem getD_get?_byThread (ms : List MessageEvent) (t : Thread) :
    ((byThread ms).get? t).getD [] = (ms.filter (·.thread = t)).mergeSort fun a b => a.time ≤ b.time := by
  rw [get?_byThread]
  split
  · rename_i hnone
    rw [hnone, List.mergeSort_nil]
    rfl
  · rfl

/-- Waiting messages stand under their threads. -/
def Sorted (waiting : Keyed Thread (List MessageEvent)) : Prop :=
  ∀ t ms, waiting.get? t = some ms → ∀ m ∈ ms, m.thread = t

theorem sorted_byThread (ms : List MessageEvent) : Sorted (byThread ms) := by
  intro t waiting ht m hm
  have hget := getD_get?_byThread ms t
  rw [ht, Option.getD_some] at hget
  rw [hget, List.mem_mergeSort] at hm
  simpa using (List.mem_filter.1 hm).2

theorem Sorted.insert {waiting : Keyed Thread (List MessageEvent)} (h : Sorted waiting) {t : Thread}
    {ms : List MessageEvent} (hms : ∀ m ∈ ms, m.thread = t) : Sorted (waiting.insert t ms) := by
  intro u later hu
  rw [Keyed.get?_insert] at hu
  split at hu
  · rename_i hut
    rw [← Option.some.inj hu, hut]
    exact hms
  · exact h u later hu

/-! ### One thread -/

/-- Merges the waiting messages of one thread into its call events. -/
def mergeOne (waiting : List MessageEvent) : List CallEvent → List Event
  | [] => waiting.map .message
  | c :: rest =>
    (waiting.takeWhile (precedes c)).map .message ++
      .call c :: mergeOne (waiting.dropWhile (precedes c)) rest

/-- A message that precedes the next call comes first. -/
theorem mergeOne_of_precedes {m : MessageEvent} {c : CallEvent} (h : precedes c m)
    (ms : List MessageEvent) (cs : List CallEvent) :
    mergeOne (m :: ms) (c :: cs) = .message m :: mergeOne ms (c :: cs) := by
  simp [mergeOne, h]

/-- A call comes first if the next message does not precede it. -/
theorem mergeOne_of_not_precedes {ms : List MessageEvent} {c : CallEvent}
    (h : ∀ m, ms.head? = some m → ¬ precedes c m) (cs : List CallEvent) :
    mergeOne ms (c :: cs) = .call c :: mergeOne ms cs := by
  cases ms with
  | nil => simp [mergeOne]
  | cons m ms => simp [mergeOne, h m rfl]

theorem filter_merge {waiting : Keyed Thread (List MessageEvent)} (h : Sorted waiting)
    (calls : List CallEvent) (t : Thread) :
    (merge waiting calls).filter (·.thread = t) =
      mergeOne ((waiting.get? t).getD []) (calls.filter (·.thread = t)) := by
  induction calls generalizing waiting with
  | nil =>
    have hthread := Keyed.filter_flatten_values waiting MessageEvent.thread h t
    rw [merge, List.filter_map, List.filter_nil, mergeOne, ← hthread]
    rfl
  | cons c rest ih =>
    cases hc : waiting.get? c.thread with
    | none =>
      by_cases ht : c.thread = t
      · subst ht
        simp [merge, hc, ih h, mergeOne]
      · simp [merge, hc, ih h, ht]
    | some ms =>
      have hms := h c.thread ms hc
      have htake : ∀ m ∈ ms.takeWhile (precedes c), m.thread = c.thread := fun m hm =>
        hms m ((List.takeWhile_sublist _).subset hm)
      have hnext : Sorted (waiting.insert c.thread (ms.dropWhile (precedes c))) :=
        h.insert fun m hm => hms m ((List.dropWhile_sublist _).subset hm)
      by_cases ht : c.thread = t
      · subst ht
        have hfilter : ((ms.takeWhile (precedes c)).map Event.message).filter (·.thread = c.thread) =
            (ms.takeWhile (precedes c)).map Event.message := by
          simpa [List.filter_eq_self] using htake
        simp [merge, hc, ih hnext, mergeOne, hfilter, Keyed.get?_insert]
      · have hfilter : ((ms.takeWhile (precedes c)).map Event.message).filter (·.thread = t) = [] := by
          refine List.filter_eq_nil_iff.2 fun e he => ?_
          obtain ⟨m, hm, rfl⟩ := List.mem_map.1 he
          simpa [htake m hm] using ht
        simp [merge, hc, ih hnext, hfilter, ht, Keyed.get?_insert, Ne.symm ht]

/-- The events of a thread in processing order. -/
theorem filter_ordered (f : Frame) (t : Thread) : f.ordered.filter (·.thread = t) =
    mergeOne ((f.messages.filter (·.thread = t)).mergeSort fun a b => a.time ≤ b.time)
      (f.calls.filter (·.thread = t)) := by
  rw [ordered, filter_merge (sorted_byThread f.messages), getD_get?_byThread]

/-- Frames with the same calls on every thread, and on every thread the same messages at each instant. -/
structure SameOnThreads (f g : Frame) : Prop where
  calls : ∀ t, f.calls.filter (·.thread = t) = g.calls.filter (·.thread = t)
  messages : ∀ t time, (f.messages.filter (·.thread = t)).filter (·.time = time) =
    (g.messages.filter (·.thread = t)).filter (·.time = time)

theorem SameOnThreads.ordered {f g : Frame} (h : SameOnThreads f g) (t : Thread) :
    f.ordered.filter (·.thread = t) = g.ordered.filter (·.thread = t) := by
  rw [filter_ordered, filter_ordered, h.calls]
  congr 1
  refine eq_mergeSort MessageEvent.time (sorted_mergeSort MessageEvent.time _) fun time => ?_
  exact (filter_mergeSort MessageEvent.time _ time).trans (h.messages t time)

end Frame

end TraceAnomaly
