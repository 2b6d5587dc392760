import Mathlib.Data.List.TakeWhile
import TraceAnomaly.Proofs.CallStack.Silence
import TraceAnomaly.Proofs.Trace.Cut

/-! Where a message stands among the calls of its thread. A call comes after an instant if it is later,
or is an exit at the instant. In a frame whose calls are in order of time, a message is processed at the
moment of its instant: behind all calls of the thread up to the first one that comes after it. -/

namespace TraceAnomaly

def Event.message? : Event → Option MessageEvent
  | .call _ => none
  | .message m => some m

@[simp] theorem Event.message?_call (e : CallEvent) : (Event.call e).message? = none := rfl

@[simp] theorem Event.message?_message (m : MessageEvent) : (Event.message m).message? = some m := rfl

/-- The calls of a thread are the calls of its events. -/
theorem calls_filter (t : Thread) (es : List Event) : (es.filter (·.thread = t)).filterMap Event.call? =
    (es.filterMap Event.call?).filter (·.thread = t) := by
  rw [List.filterMap_filter, List.filter_filterMap]
  refine List.filterMap_congr fun e _ => ?_
  cases e with
  | message m => by_cases hm : m.thread = t <;> simp [hm]
  | call c => by_cases hc : c.thread = t <;> simp [hc, Option.filter]

/-- A call that comes after an instant, at which its thread still runs what ran before it. -/
def CallEvent.After (c : CallEvent) (τ : UInt64) : Prop := τ < c.time ∨ c.time = τ ∧ c.kind = .exit

instance (c : CallEvent) (τ : UInt64) : Decidable (c.After τ) :=
  inferInstanceAs (Decidable (τ < c.time ∨ c.time = τ ∧ c.kind = .exit))

theorem CallEvent.After.le {c : CallEvent} {τ : UInt64} (h : c.After τ) : τ ≤ c.time := by
  rcases h with h | ⟨h, -⟩
  · exact UInt64.le_of_lt h
  · exact h ▸ UInt64.le_refl _

theorem CallEvent.After.anti {c : CallEvent} {σ τ : UInt64} (h : c.After τ) (hle : σ ≤ τ) :
    c.After σ := by
  rcases h with h | ⟨h, hk⟩
  · exact .inl (UInt64.lt_of_le_of_lt hle h)
  · rcases UInt64.lt_or_eq_of_le hle with hlt | heq
    · exact .inl (h ▸ hlt)
    · exact .inr ⟨h.trans heq.symm, hk⟩

/-- Up to an instant: an exit that does not come after it is earlier. -/
theorem CallEvent.le_of_not_after {c : CallEvent} {τ : UInt64} (h : ¬ c.After τ) :
    c.time ≤ τ ∧ (c.kind = .exit → c.time < τ) := by
  have hle : c.time ≤ τ := UInt64.not_lt.1 fun hlt => h (.inl hlt)
  refine ⟨hle, fun hk => ?_⟩
  rcases UInt64.lt_or_eq_of_le hle with hlt | heq
  · exact hlt
  · exact absurd (.inr ⟨heq, hk⟩) h

namespace Frame

theorem precedes_iff {c : CallEvent} {m : MessageEvent} : precedes c m ↔ c.After m.time := by
  simp only [precedes, CallEvent.After, Bool.or_eq_true, decide_eq_true_eq, Bool.and_eq_true,
    beq_iff_eq]
  rw [eq_comm (a := m.time)]

/-! ### The messages of a thread -/

theorem messages_mergeOne (ms : List MessageEvent) (cs : List CallEvent) :
    (mergeOne ms cs).filterMap Event.message? = ms := by
  have hmap : ∀ ms : List MessageEvent, (ms.map Event.message).filterMap Event.message? = ms := by
    intro ms
    induction ms with
    | nil => rfl
    | cons m ms ih => simp [ih]
  induction cs generalizing ms with
  | nil => exact hmap ms
  | cons c cs ih =>
    rw [mergeOne, List.filterMap_append, hmap, List.filterMap_cons_none (Event.message?_call c), ih,
      List.takeWhile_append_dropWhile]

theorem calls_mergeOne (ms : List MessageEvent) (cs : List CallEvent) :
    (mergeOne ms cs).filterMap Event.call? = cs := by
  induction cs generalizing ms with
  | nil => exact calls_messages ms
  | cons c cs ih => rw [mergeOne, List.filterMap_append, calls_messages]; simp [ih]

/-- The messages of a thread are processed by time, those of one instant in delivery order. -/
theorem messages_ordered (f : Frame) (t : Thread) :
    (f.ordered.filterMap Event.message?).filter (·.thread = t) =
      (f.messages.filter (·.thread = t)).mergeSort fun a b => a.time ≤ b.time := by
  rw [← messages_mergeOne ((f.messages.filter (·.thread = t)).mergeSort fun a b => a.time ≤ b.time)
    (f.calls.filter (·.thread = t)), ← filter_ordered, List.filter_filterMap, List.filterMap_filter]
  refine List.filterMap_congr fun e _ => ?_
  cases e with
  | call e => by_cases he : e.thread = t <;> simp [he]
  | message m => by_cases hm : m.thread = t <;> simp [hm, Option.filter]

/-! ### The place of a message -/

/-- A message stands between the calls that do not come after its instant and the first that does. -/
theorem around_mergeOne {ms : List MessageEvent} (hms : ms.Pairwise fun a b => a.time ≤ b.time)
    {cs : List CallEvent} {before after : List Event} {m : MessageEvent}
    (h : mergeOne ms cs = before ++ .message m :: after) :
    (∀ c ∈ before.filterMap Event.call?, ¬ c.After m.time) ∧
      ∀ c, (after.filterMap Event.call?).head? = some c → c.After m.time := by
  induction cs generalizing ms before with
  | nil =>
    have hcalls := calls_mergeOne ms []
    rw [h, List.filterMap_append, List.append_eq_nil_iff,
      List.filterMap_cons_none (Event.call?_message m)] at hcalls
    simp [hcalls.1, hcalls.2]
  | cons c cs ih =>
    induction ms generalizing before with
    | nil =>
      have hmessages := messages_mergeOne [] (c :: cs)
      rw [h] at hmessages
      simp at hmessages
    | cons m₀ ms ihm =>
      obtain ⟨hleast, hrest⟩ := List.pairwise_cons.1 hms
      by_cases hm : precedes c m₀
      · rw [mergeOne_of_precedes hm] at h
        cases before with
        | nil =>
          obtain ⟨hfirst, rfl⟩ := List.cons.inj h
          obtain rfl := Event.message.inj hfirst
          refine ⟨by simp, fun d hd => ?_⟩
          rw [calls_mergeOne, List.head?_cons] at hd
          exact Option.some.inj hd ▸ precedes_iff.1 hm
        | cons e before =>
          obtain ⟨rfl, htail⟩ := List.cons.inj h
          rw [List.filterMap_cons_none (Event.call?_message m₀)]
          exact ihm hrest htail
      · rw [mergeOne_of_not_precedes (by simpa using hm)] at h
        cases before with
        | nil => cases (List.cons.inj h).1
        | cons e before =>
          obtain ⟨rfl, htail⟩ := List.cons.inj h
          obtain ⟨hbefore, hafter⟩ := ih hms htail
          rw [List.filterMap_cons_some (Event.call?_call c)]
          refine ⟨List.forall_mem_cons.2 ⟨fun hc => ?_, hbefore⟩, hafter⟩
          -- the message is not earlier than the first one, which already follows the call
          have hmem : m ∈ m₀ :: ms := by
            rw [← messages_mergeOne (m₀ :: ms) cs, htail]
            simp
          have hle : m₀.time ≤ m.time := by
            rcases List.mem_cons.1 hmem with rfl | hmem
            · exact UInt64.le_refl _
            · exact hleast m hmem
          exact hm (precedes_iff.2 (hc.anti hle))

theorem around_ordered {f : Frame} {before after : List Event} {m : MessageEvent}
    (h : f.ordered = before ++ .message m :: after) :
    (∀ c, .call c ∈ before → c.thread = m.thread → ¬ c.After m.time) ∧
      ∀ c, ((after.filterMap Event.call?).filter (·.thread = m.thread)).head? = some c →
        c.After m.time := by
  have hone := filter_ordered f m.thread
  rw [h, List.filter_append, List.filter_cons_of_pos (by simp)] at hone
  obtain ⟨hbefore, hafter⟩ := around_mergeOne (sorted_mergeSort MessageEvent.time _) hone.symm
  rw [calls_filter] at hafter
  refine ⟨fun c hc ht => hbefore c ?_, hafter⟩
  exact List.mem_filterMap.2 ⟨.call c, List.mem_filter.2 ⟨hc, decide_eq_true ht⟩, rfl⟩

end Frame

/-! ### The moment of an instant -/

/-- Whether an event is a call of a thread that comes after an instant. -/
def Event.isAfter (t : Thread) (τ : UInt64) : Event → Bool
  | .call c => c.thread = t ∧ c.After τ
  | .message _ => false

/-- The events up to the first call of a thread that comes after an instant. -/
def upTo (t : Thread) (τ : UInt64) (es : List Event) : List Event := es.takeWhile (!·.isAfter t τ)

/-- The first call of a thread that comes after an instant, and the events from there on. -/
def since (t : Thread) (τ : UInt64) (es : List Event) : List Event := es.dropWhile (!·.isAfter t τ)

section Moment

variable {t : Thread} {τ : UInt64} {es : List Event} {c : CallEvent}

theorem upTo_append_since (t : Thread) (τ : UInt64) (es : List Event) :
    upTo t τ es ++ since t τ es = es :=
  List.takeWhile_append_dropWhile

theorem not_after_of_mem_upTo (h : .call c ∈ upTo t τ es) (ht : c.thread = t) : ¬ c.After τ := by
  have hc := List.mem_takeWhile_imp h
  simpa [Event.isAfter, ht] using hc

theorem since_cases (t : Thread) (τ : UInt64) (es : List Event) : since t τ es = [] ∨
    ∃ c rest, since t τ es = .call c :: rest ∧ c.thread = t ∧ c.After τ := by
  cases h : since t τ es with
  | nil => exact .inl rfl
  | cons e rest =>
    have hhead := List.head?_dropWhile_not (!·.isAfter t τ) es
    have he : e.isAfter t τ := by
      rw [show es.dropWhile (!·.isAfter t τ) = e :: rest from h] at hhead
      simpa using hhead
    cases e with
    | message m => cases he
    | call c =>
      obtain ⟨ht, hc⟩ := of_decide_eq_true he
      exact .inr ⟨c, rest, rfl, ht, hc⟩

section Sorted

variable
  (hsorted : ((es.filterMap Event.call?).filter (·.thread = t)).Pairwise fun a b => a.time ≤ b.time)
include hsorted

/-- The first call behind the moment is the earliest. -/
theorem head_since_le {d : CallEvent} {rest : List Event} (hd : since t τ es = .call d :: rest)
    (hdt : d.thread = t) (h : .call c ∈ rest) (ht : c.thread = t) : d.time ≤ c.time := by
  rw [← upTo_append_since t τ es, hd, List.filterMap_append, List.filter_append,
    List.filterMap_cons_some (Event.call?_call d), List.filter_cons_of_pos (by simpa using hdt)] at hsorted
  refine List.rel_of_pairwise_cons (List.pairwise_append.1 hsorted).2.1 (List.mem_filter.2 ⟨?_, ?_⟩)
  · exact List.mem_filterMap.2 ⟨.call c, h, rfl⟩
  · exact decide_eq_true ht

/-- Behind the moment there are no earlier calls of the thread. -/
theorem le_of_mem_since (h : .call c ∈ since t τ es) (ht : c.thread = t) : τ ≤ c.time := by
  rcases since_cases t τ es with hnil | ⟨d, rest, hd, hdt, hdτ⟩
  · rw [hnil] at h
    cases h
  · rw [hd] at h
    rcases List.mem_cons.1 h with hcd | hc
    · obtain rfl := Event.call.inj hcd
      exact hdτ.le
    · exact UInt64.le_trans hdτ.le (head_since_le hsorted hd hdt hc ht)

/-- If a call behind the moment is not later than the instant, the first call behind the moment is an
exit. -/
theorem exit_of_mem_since (h : .call c ∈ since t τ es) (ht : c.thread = t) (hle : c.time ≤ τ) :
    ∃ d rest, since t τ es = .call d :: rest ∧ d.thread = t ∧ d.kind = .exit := by
  rcases since_cases t τ es with hnil | ⟨d, rest, hd, hdt, hlt | ⟨hdτ, hdk⟩⟩
  · rw [hnil] at h
    cases h
  · have hdc : d.time ≤ c.time := by
      rw [hd] at h
      rcases List.mem_cons.1 h with hcd | hc
      · exact Event.call.inj hcd ▸ UInt64.le_refl _
      · exact head_since_le hsorted hd hdt hc ht
    exact absurd (UInt64.le_trans hdc hle) (UInt64.not_le.2 hlt)
  · exact ⟨d, rest, hd, hdt, hdk⟩

end Sorted

/-- Up to the moment there are no calls of the thread if its next call comes after the instant. -/
theorem quiet_upTo
    (h : ∀ d, ((es.filterMap Event.call?).filter (·.thread = t)).head? = some d → d.After τ)
    (hc : .call c ∈ upTo t τ es) : c.thread ≠ t := by
  induction es with
  | nil => cases hc
  | cons e es ih =>
    intro ht
    by_cases he : e.isAfter t τ
    · simp [upTo, he] at hc
    · have hcons : upTo t τ (e :: es) = e :: upTo t τ es := by simp [upTo, he]
      rw [hcons] at hc
      cases e with
      | message m =>
        rw [List.filterMap_cons_none (Event.call?_message m)] at h
        exact ih h ((List.mem_cons.1 hc).resolve_left (by simp)) ht
      | call d =>
        rw [List.filterMap_cons_some (Event.call?_call d)] at h
        by_cases hd : d.thread = t
        · rw [List.filter_cons_of_pos (by simpa using hd), List.head?_cons] at h
          exact he (decide_eq_true ⟨hd, h d rfl⟩)
        · rw [List.filter_cons_of_neg (by simpa using hd)] at h
          rcases List.mem_cons.1 hc with hcd | hc
          · exact hd (Event.call.inj hcd ▸ ht)
          · exact ih h hc ht

end Moment

end TraceAnomaly
