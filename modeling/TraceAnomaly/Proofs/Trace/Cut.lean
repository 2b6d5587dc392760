import TraceAnomaly.Proofs.Trace.Delivery

/-! A frame that is cut in two at an instant. If the calls of every thread are in order of time, then on
each thread the events of the whole frame in processing order are those of the first part followed by
those of the second. -/

namespace TraceAnomaly

namespace Frame

/-- The calls of every thread are in order of time. -/
def Timed (f : Frame) : Prop :=
  ∀ t, (f.calls.filter (·.thread = t)).Pairwise fun a b => a.time ≤ b.time

def before (f : Frame) (T : UInt64) : Frame :=
  { f with calls := f.calls.filter (·.time < T), messages := f.messages.filter (·.time < T) }

def since (f : Frame) (T : UInt64) : Frame :=
  { f with calls := f.calls.filter (T ≤ ·.time), messages := f.messages.filter (T ≤ ·.time) }

/-! ### One thread -/

/-- Messages before an instant precede a call that is not before it. -/
theorem precedes_of_lt_of_le {m : MessageEvent} {c : CallEvent} {T : UInt64} (hm : m.time < T)
    (hc : T ≤ c.time) : precedes c m := by
  simp [precedes, UInt64.lt_of_lt_of_le hm hc]

theorem not_precedes_of_lt_of_le {m : MessageEvent} {c : CallEvent} {T : UInt64} (hc : c.time < T)
    (hm : T ≤ m.time) : ¬ precedes c m := by
  have hlt := UInt64.lt_of_lt_of_le hc hm
  simp [precedes, UInt64.not_lt.2 (UInt64.le_of_lt hlt), (UInt64.ne_of_lt hlt).symm]

theorem mergeOne_append {ms ns : List MessageEvent} {cs ds : List CallEvent} {T : UInt64}
    (hms : ∀ m ∈ ms, m.time < T) (hcs : ∀ c ∈ cs, c.time < T) (hns : ∀ m ∈ ns, T ≤ m.time)
    (hds : ∀ c ∈ ds, T ≤ c.time) :
    mergeOne (ms ++ ns) (cs ++ ds) = mergeOne ms cs ++ mergeOne ns ds := by
  induction cs generalizing ms with
  | nil =>
    cases ds with
    | nil => simp [mergeOne]
    | cons d ds =>
      have hall : ∀ m ∈ ms, precedes d m := fun m hm =>
        precedes_of_lt_of_le (hms m hm) (hds d (by simp))
      simp [mergeOne, List.takeWhile_append_of_pos hall, List.dropWhile_append_of_pos hall]
  | cons c cs ih =>
    obtain ⟨hc, hcs⟩ := List.forall_mem_cons.1 hcs
    -- the messages before the instant are used up by and by
    induction ms with
    | nil =>
      have hlate : ∀ m, ns.head? = some m → ¬ precedes c m := fun m hm =>
        not_precedes_of_lt_of_le hc (hns m (List.mem_of_head? hm))
      have hrest : mergeOne ([] ++ ns) (cs ++ ds) = mergeOne [] cs ++ mergeOne ns ds :=
        ih (by simp) hcs
      rw [List.nil_append] at hrest
      rw [List.nil_append, List.cons_append, mergeOne_of_not_precedes hlate,
        mergeOne_of_not_precedes (by simp), List.cons_append, hrest]
    | cons m ms ihm =>
      by_cases hm : precedes c m
      · rw [List.cons_append, List.cons_append, mergeOne_of_precedes hm, mergeOne_of_precedes hm,
          List.cons_append]
        exact congrArg _ (ihm fun m hm => hms m (by simp [hm]))
      · rw [List.cons_append, List.cons_append, mergeOne_of_not_precedes (by simpa using hm),
          mergeOne_of_not_precedes (by simpa using hm), List.cons_append]
        exact congrArg _ (ih hms hcs)

/-! ### All threads -/

variable {f : Frame}

/-- The calls of a thread before an instant come in front of those after it. -/
theorem Timed.calls (h : f.Timed) (T : UInt64) (t : Thread) : f.calls.filter (·.thread = t) =
    (f.before T).calls.filter (·.thread = t) ++ (f.since T).calls.filter (·.thread = t) := by
  have hlate : (f.calls.filter (·.thread = t)).Pairwise
      fun a b => decide (T ≤ a.time) → decide (T ≤ b.time) :=
    (h t).imp fun hab ha => by simpa using UInt64.le_trans (of_decide_eq_true ha) hab
  have hcut := (filter_not_append_filter hlate).symm
  simpa only [before, since, ← decide_not, UInt64.not_le, List.filter_comm] using hcut

theorem messages_cut (f : Frame) (T : UInt64) (t : Thread) :
    (f.messages.filter (·.thread = t)).mergeSort (fun a b => a.time ≤ b.time) =
      ((f.before T).messages.filter (·.thread = t)).mergeSort (fun a b => a.time ≤ b.time) ++
        ((f.since T).messages.filter (·.thread = t)).mergeSort (fun a b => a.time ≤ b.time) := by
  have hlate : ((f.messages.filter (·.thread = t)).mergeSort fun a b => a.time ≤ b.time).Pairwise
      fun a b => decide (T ≤ a.time) → decide (T ≤ b.time) :=
    (sorted_mergeSort MessageEvent.time _).imp fun hab ha => by
      simpa using UInt64.le_trans (of_decide_eq_true ha) hab
  have hcut := (filter_not_append_filter hlate).symm
  simpa only [mergeSort_filter MessageEvent.time, before, since, ← decide_not, UInt64.not_le,
    List.filter_comm] using hcut

/-- On each thread, the events before an instant are processed first, and then the others. -/
theorem Timed.ordered (h : f.Timed) (T : UInt64) (t : Thread) : f.ordered.filter (·.thread = t) =
    (f.before T).ordered.filter (·.thread = t) ++ (f.since T).ordered.filter (·.thread = t) := by
  rw [filter_ordered, filter_ordered, filter_ordered, messages_cut f T t, h.calls T t]
  apply mergeOne_append (T := T)
  · intro m hm
    rw [List.mem_mergeSort] at hm
    simpa [before] using (List.mem_filter.1 (List.mem_filter.1 hm).1).2
  · intro c hc
    simpa [before] using (List.mem_filter.1 (List.mem_filter.1 hc).1).2
  · intro m hm
    rw [List.mem_mergeSort] at hm
    simpa [since] using (List.mem_filter.1 (List.mem_filter.1 hm).1).2
  · intro c hc
    simpa [since] using (List.mem_filter.1 (List.mem_filter.1 hc).1).2

end Frame

end TraceAnomaly
