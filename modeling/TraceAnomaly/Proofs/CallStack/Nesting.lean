import TraceAnomaly.Trace.Event
import Mathlib.Data.List.Induction

/-! The language of nested calls, as a grammar and as a scan with a stack. A word of call events is
unfinished if it consists of balanced parts with unmatched entries between them; these are the
prefixes of balanced words, and the scan accepts just them and ends with the unmatched entries. -/

namespace TraceAnomaly

/-- The exit `x` fits the entry `e`. -/
def CallEvent.Closes (x e : CallEvent) : Prop := x.function = e.function ∧ e.time ≤ x.time

instance (x e : CallEvent) : Decidable (x.Closes e) := inferInstanceAs (Decidable (_ ∧ _))

namespace Nesting

/-- Every entry is matched: `B ::= ε | entry B exit B`. -/
inductive Balanced : List CallEvent → Prop where
  | empty : Balanced []
  | call {e x : CallEvent} {body rest : List CallEvent} (he : e.kind = .entry) (hx : x.kind = .exit)
      (hc : x.Closes e) (hbody : Balanced body) (hrest : Balanced rest) :
      Balanced (e :: (body ++ x :: rest))

/-- Some entries are not matched yet: `P ::= B | B entry P`. The second list has these entries,
outermost first. -/
inductive Unfinished : List CallEvent → List CallEvent → Prop where
  | balanced {w : List CallEvent} (hw : Balanced w) : Unfinished w []
  | opened {w rest us : List CallEvent} {e : CallEvent} (hw : Balanced w) (he : e.kind = .entry)
      (hrest : Unfinished rest us) : Unfinished (w ++ e :: rest) (e :: us)

theorem Balanced.append {v w : List CallEvent} (hv : Balanced v) (hw : Balanced w) :
    Balanced (v ++ w) := by
  induction hv with
  | empty => exact hw
  | call he hx hc hbody _ _ ih =>
    simpa using Balanced.call he hx hc hbody ih

namespace Unfinished

variable {w us : List CallEvent}

theorem nil_iff : Unfinished w [] ↔ Balanced w :=
  ⟨fun h => by cases h; assumption, .balanced⟩

theorem enter (h : Unfinished w us) {e : CallEvent} (he : e.kind = .entry) :
    Unfinished (w ++ [e]) (us ++ [e]) := by
  induction h with
  | balanced hw => exact .opened hw he (.balanced .empty)
  | opened hw he' _ ih => simpa using Unfinished.opened hw he' ih

/-- An exit that fits the innermost unmatched entry matches it. -/
theorem close {c x : CallEvent} (h : Unfinished w (us ++ [c])) (hx : x.kind = .exit)
    (hc : x.Closes c) : Unfinished (w ++ [x]) us := by
  generalize hvs : us ++ [c] = vs at h
  induction h generalizing us with
  | balanced _ => simp at hvs
  | @opened w rest vs e hw he hrest ih =>
    cases us with
    | nil =>
      obtain ⟨rfl, rfl⟩ := List.cons.inj hvs
      have := hw.append (.call he hx hc (nil_iff.1 hrest) .empty)
      exact .balanced (by simpa using this)
    | cons u us =>
      obtain ⟨rfl, htail⟩ := List.cons.inj hvs
      simpa using Unfinished.opened hw he (ih htail)

end Unfinished

/-! ### Scanning -/

/-- One event, with the unmatched entries in front of it, innermost first. -/
def step (pending : List CallEvent) (e : CallEvent) : Option (List CallEvent) :=
  match e.kind, pending with
  | .entry, _ => some (e :: pending)
  | .exit, [] => none
  | .exit, c :: outer => if e.Closes c then some outer else none

def scan (pending : List CallEvent) : List CallEvent → Option (List CallEvent)
  | [] => some pending
  | e :: w => (step pending e).bind (scan · w)

@[simp] theorem scan_nil (pending : List CallEvent) : scan pending [] = some pending := rfl

@[simp] theorem scan_cons (pending w : List CallEvent) (e : CallEvent) :
    scan pending (e :: w) = (step pending e).bind (scan · w) := rfl

theorem scan_append (pending v w : List CallEvent) :
    scan pending (v ++ w) = (scan pending v).bind (scan · w) := by
  induction v generalizing pending with
  | nil => rfl
  | cons e v ih => cases h : step pending e <;> simp [h, ih]

theorem step_entry (pending : List CallEvent) {e : CallEvent} (he : e.kind = .entry) :
    step pending e = some (e :: pending) := by
  simp [step, he]

theorem step_exit_nil {x : CallEvent} (hx : x.kind = .exit) : step [] x = none := by
  simp [step, hx]

theorem step_exit_cons (outer : List CallEvent) {x c : CallEvent} (hx : x.kind = .exit) :
    step (c :: outer) x = if x.Closes c then some outer else none := by
  simp [step, hx]

theorem Balanced.scan {w : List CallEvent} (h : Balanced w) (pending : List CallEvent) :
    scan pending w = some pending := by
  induction h generalizing pending with
  | empty => rfl
  | call he hx hc _ _ ihb ihr => simp [step_entry, step_exit_cons, scan_append, *]

theorem Unfinished.scan {w us : List CallEvent} (h : Unfinished w us) (pending : List CallEvent) :
    scan pending w = some (us.reverse ++ pending) := by
  induction h generalizing pending with
  | balanced hw => simpa using hw.scan pending
  | opened hw he _ ih => simp [scan_append, hw.scan, step_entry _ he, ih]

/-- What the scan has accepted is unfinished, with the entries that it ends with. -/
theorem unfinished_of_scan {w pending : List CallEvent} (h : scan [] w = some pending) :
    Unfinished w pending.reverse := by
  induction w using List.reverseRecOn generalizing pending with
  | nil =>
    obtain rfl : [] = pending := by simpa using h
    exact .balanced .empty
  | append_singleton w e ih =>
    rw [scan_append] at h
    obtain ⟨before, hw, hstep⟩ := Option.bind_eq_some_iff.1 h
    replace hstep : step before e = some pending := by simpa using hstep
    have hb := ih hw
    cases he : e.kind with
    | entry =>
      rw [step_entry _ he, Option.some.injEq] at hstep
      rw [← hstep, List.reverse_cons]
      exact hb.enter he
    | exit =>
      cases before with
      | nil => simp [step_exit_nil he] at hstep
      | cons c outer =>
        rw [step_exit_cons _ he] at hstep
        split at hstep
        · rename_i hc
          rw [← Option.some.inj hstep]
          exact (List.reverse_cons ▸ hb).close he hc
        · simp at hstep

theorem scan_eq_some_iff {w us : List CallEvent} :
    scan [] w = some us.reverse ↔ Unfinished w us :=
  ⟨fun h => by simpa using unfinished_of_scan h, fun h => by simpa using h.scan []⟩

theorem scan_eq_none_iff {w : List CallEvent} :
    scan [] w = none ↔ ¬ ∃ us, Unfinished w us := by
  rw [Option.eq_none_iff_forall_ne_some]
  refine ⟨fun h ⟨us, hus⟩ => h _ (by simpa using hus.scan []), fun h us hus => ?_⟩
  exact h ⟨_, unfinished_of_scan hus⟩

/-- Exits at the instants of unmatched entries match them. -/
theorem scan_closing (pending : List CallEvent) :
    scan pending (pending.map fun e => { e with kind := .exit }) = some [] := by
  induction pending with
  | nil => rfl
  | cons e rest ih => simpa [step, CallEvent.Closes] using ih

/-- The unfinished words are the prefixes of balanced ones. -/
theorem unfinished_iff_completable {w : List CallEvent} :
    (∃ us, Unfinished w us) ↔ ∃ v, Balanced (w ++ v) := by
  constructor
  · rintro ⟨us, hus⟩
    refine ⟨us.reverse.map fun e => { e with kind := .exit }, Unfinished.nil_iff.1 ?_⟩
    have h : scan [] (w ++ us.reverse.map fun e => { e with kind := .exit }) = some [] := by
      rw [scan_append, hus.scan, List.append_nil]
      exact scan_closing us.reverse
    exact unfinished_of_scan h
  · rintro ⟨v, hv⟩
    have h := hv.scan []
    rw [scan_append] at h
    obtain ⟨pending, hw, -⟩ := Option.bind_eq_some_iff.1 h
    exact ⟨_, unfinished_of_scan hw⟩

end Nesting

end TraceAnomaly
