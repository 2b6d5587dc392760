import Mathlib.Data.List.Induction
import Mathlib.Order.Bounds.Defs
import TraceAnomaly.Proofs.CallStack.Interleaving

/-! How deep calls are nested. The calls that are open on a thread can be told from its history: an entry
opens a call, and every exit, whether it fits or not, takes away the innermost one. A call is closed with
as many calls around it as were open on its thread when it was opened, and these are its caller, the
caller of that, and so on. -/

namespace TraceAnomaly

namespace Happening

/-- The numbers of the open calls of a thread, innermost first, when this happens after `ids`. -/
def openIds (t : Thread) (ids : List UInt64) : Happening → List UInt64
  | opened id e => if e.thread = t then id :: ids else ids
  | closed _ _ x => if x.thread = t then ids.tail else ids
  | discarded _ x => if x.thread = t then ids.tail else ids
  | unmatched x => if x.thread = t then ids.tail else ids
  | released _ => ids
  | named _ => ids

variable {h : Happening} {t : Thread}

theorem openIds_other (ht : h.thread? ≠ some t) (ids : List UInt64) : h.openIds t ids = ids := by
  cases h <;> simp_all [openIds]

theorem openIds_silent (hk : h.kind? = none) (ids : List UInt64) : h.openIds t ids = ids := by
  cases h <;> simp_all [openIds]

theorem openIds_entry (ht : h.thread? = some t) (hk : h.kind? = some .entry) (ids : List UInt64) :
    ∃ id, h.openIds t ids = id :: ids := by
  cases h with
  | opened id e => exact ⟨id, by simp_all [openIds]⟩
  | closed | discarded | unmatched | released | named => simp at hk

theorem openIds_exit (ht : h.thread? = some t) (hk : h.kind? = some .exit) (ids : List UInt64) :
    h.openIds t ids = ids.tail := by
  cases h with
  | closed | discarded | unmatched => simp_all [openIds]
  | opened | released | named => simp at hk

end Happening

namespace History

/-- The numbers of the calls that are open on a thread after a history, innermost first. -/
def openIds (t : Thread) (H : History) : List UInt64 := H.foldl (Happening.openIds t) []

variable {H K : History} {t : Thread}

theorem openIds_concat (t : Thread) (H : History) (h : Happening) :
    (H ++ [h]).openIds t = h.openIds t (H.openIds t) := by
  rw [openIds, List.foldl_concat]
  rfl

/-- Paired entries and exits leave the open calls as they are. -/
theorem foldl_openIds_of_paired {w : List CallKind} (hw : Paired w) {L : History}
    (ht : ∀ h ∈ L, h.thread? = some t) (hL : L.filterMap Happening.kind? = w) (ids : List UInt64) :
    L.foldl (Happening.openIds t) ids = ids := by
  have hskip : ∀ (L : History) (ids : List UInt64), (∀ h ∈ L, h.kind? = none) →
      L.foldl (Happening.openIds t) ids = ids := by
    intro L ids hL
    induction L with
    | nil => rfl
    | cons h rest ih =>
      rw [List.foldl_cons, Happening.openIds_silent (hL h (by simp)) ids]
      exact ih fun k hk => hL k (List.mem_cons_of_mem _ hk)
  induction hw generalizing L ids with
  | empty => exact hskip L ids (List.filterMap_eq_nil_iff.1 hL)
  | call _ _ ihbody ihrest =>
    obtain ⟨L₁, e, L₂, rfl, hL₁, he, hL₂⟩ := List.filterMap_eq_cons_iff.1 hL
    obtain ⟨L₃, L₄, rfl, hL₃, hL₄⟩ := List.filterMap_eq_append_iff.1 hL₂
    obtain ⟨L₅, x, L₆, rfl, hL₅, hx, hL₆⟩ := List.filterMap_eq_cons_iff.1 hL₄
    simp only [List.forall_mem_append, List.forall_mem_cons] at ht
    obtain ⟨-, hte, ht₃, -, htx, ht₆⟩ := ht
    obtain ⟨id, hentry⟩ := Happening.openIds_entry hte he ids
    simp only [List.foldl_append, List.foldl_cons]
    rw [hskip L₁ ids hL₁, hentry, ihbody ht₃ hL₃, hskip L₅ _ hL₅, Happening.openIds_exit htx hx,
      List.tail_cons, ihrest ht₆ hL₆]

theorem foldl_openIds_on (K : History) (ids : List UInt64) :
    K.foldl (Happening.openIds t) ids = (K.on t).foldl (Happening.openIds t) ids := by
  induction K generalizing ids with
  | nil => rfl
  | cons h K ih =>
    rw [List.foldl_cons, ih]
    by_cases ht : h.thread? = some t
    · have hon : on t (h :: K) = h :: on t K := List.filter_cons_of_pos (decide_eq_true ht)
      rw [hon, List.foldl_cons]
    · have hon : on t (h :: K) = on t K := List.filter_cons_of_neg fun hc => ht (of_decide_eq_true hc)
      rw [hon, Happening.openIds_other ht]

theorem openIds_append_of_paired (H : History) (hK : Paired (K.moves t)) :
    (H ++ K).openIds t = H.openIds t := by
  have hon : ∀ h ∈ K.on t, h.thread? = some t := fun h hh => of_decide_eq_true (List.mem_filter.1 hh).2
  rw [openIds, List.foldl_append, foldl_openIds_on]
  exact foldl_openIds_of_paired hK hon rfl _

/-- A call that has been opened is the innermost one again once the entries and exits behind it are
paired. -/
theorem openIds_opened (before : History) (id : UInt64) {during : History} {e : CallEvent}
    (ht : e.thread = t) (hduring : Paired (during.moves t)) :
    (before ++ .opened id e :: during).openIds t = id :: before.openIds t := by
  rw [List.append_cons, openIds_append_of_paired _ hduring, openIds_concat]
  simp [Happening.openIds, ht]

/-! ### Callers -/

/-- The call `id` was opened when `parent` was the innermost open call of its thread. -/
def Made (H : History) (id : UInt64) (parent : Option UInt64) : Prop :=
  ∃ (before after : History) (e : CallEvent),
    H = before ++ .opened id e :: after ∧ parent = (before.openIds e.thread).head?

/-- There are `n` calls in the chain of callers that begins with a call, if there is one. -/
inductive Ancestors (H : History) : Option UInt64 → ℕ → Prop where
  | none : Ancestors H none 0
  | caller {id : UInt64} {parent : Option UInt64} {n : ℕ} (hmade : H.Made id parent)
      (h : Ancestors H parent n) : Ancestors H (some id) (n + 1)

theorem Made.append {id : UInt64} {parent : Option UInt64} (h : H.Made id parent) (K : History) :
    (H ++ K).Made id parent := by
  obtain ⟨before, after, e, rfl, hparent⟩ := h
  exact ⟨before, after ++ K, e, by simp, hparent⟩

theorem Ancestors.append {parent : Option UInt64} {n : ℕ} (h : H.Ancestors parent n) (K : History) :
    (H ++ K).Ancestors parent n := by
  induction h with
  | none => exact .none
  | caller hmade _ ih => exact .caller (hmade.append K) ih

/-- An open call was made by the one around it. -/
theorem made_of_suffix {id : UInt64} {outer : List UInt64} (h : id :: outer <:+ H.openIds t) :
    H.Made id outer.head? := by
  induction H using List.reverseRecOn with
  | nil => simp [openIds] at h
  | append_singleton H y ih =>
    rw [openIds_concat] at h
    by_cases ht : y.thread? = some t
    · cases y with
      | opened id' e =>
        obtain rfl : e.thread = t := by simpa using ht
        rw [Happening.openIds, if_pos rfl, List.suffix_cons_iff] at h
        rcases h with h | h
        · obtain ⟨rfl, rfl⟩ := List.cons.inj h
          exact ⟨H, [], e, rfl, rfl⟩
        · exact (ih h).append _
      | closed | discarded | unmatched =>
        rw [Happening.openIds_exit ht rfl] at h
        exact (ih (h.trans (List.tail_suffix _))).append _
      | released | named => simp at ht
    · rw [Happening.openIds_other ht] at h
      exact (ih h).append _

theorem ancestors_of_suffix {ids : List UInt64} (h : ids <:+ H.openIds t) :
    H.Ancestors ids.head? ids.length := by
  induction ids with
  | nil => exact .none
  | cons id outer ih => exact .caller (made_of_suffix h) (ih ((List.suffix_cons id outer).trans h))

theorem opened_split_unique (hnodup : H.openedIds.Nodup) {before after before' after' : History}
    {id : UInt64} {e e' : CallEvent} (h : H = before ++ .opened id e :: after)
    (h' : H = before' ++ .opened id e' :: after') : before = before' ∧ e = e' := by
  -- otherwise the number would have been given out twice
  have htwice : ∀ {before between after : History} {e e' : CallEvent},
      H ≠ before ++ .opened id e :: (between ++ .opened id e' :: after) := by
    rintro before between after e e' rfl
    simp [openedIds, List.nodup_append] at hnodup
  rcases List.append_eq_append_iff.1 (h.symm.trans h') with ⟨as, rfl, has⟩ | ⟨as, rfl, has⟩
  · cases as with
    | nil =>
      obtain ⟨hsame, -⟩ := List.cons.inj has
      cases hsame
      exact ⟨(List.append_nil _).symm, rfl⟩
    | cons a as =>
      obtain ⟨rfl, rfl⟩ := List.cons.inj has
      exact absurd h htwice
  · cases as with
    | nil =>
      obtain ⟨hsame, -⟩ := List.cons.inj has
      cases hsame
      exact ⟨List.append_nil _, rfl⟩
    | cons a as =>
      obtain ⟨rfl, rfl⟩ := List.cons.inj has
      exact absurd h' htwice

theorem Made.unique (hnodup : H.openedIds.Nodup) {id : UInt64} {p q : Option UInt64} (hp : H.Made id p)
    (hq : H.Made id q) : p = q := by
  obtain ⟨before, after, e, h, rfl⟩ := hp
  obtain ⟨before', after', e', h', rfl⟩ := hq
  obtain ⟨rfl, rfl⟩ := opened_split_unique hnodup h h'
  rfl

/-- The chain of callers has one length as long as no number is given out twice. -/
theorem Ancestors.unique (hnodup : H.openedIds.Nodup) {parent : Option UInt64} {m n : ℕ}
    (hm : H.Ancestors parent m) (hn : H.Ancestors parent n) : m = n := by
  induction hm generalizing n with
  | none =>
    cases hn
    rfl
  | caller hmade _ ih =>
    cases hn with
    | caller hmade' hrest =>
      obtain rfl := hmade.unique hnodup hmade'
      rw [ih hrest]

/-! ### Closed calls -/

theorem exists_closed_of_mem {r : CallRecord} (hr : r ∈ H.closedCalls) :
    ∃ depth x, Happening.closed r depth x ∈ H := by
  obtain ⟨y, hy, hclosed⟩ := List.mem_filterMap.1 hr
  cases y with
  | closed c depth x =>
    obtain rfl : c = r := Option.some.inj hclosed
    exact ⟨depth, x, hy⟩
  | opened | discarded | unmatched | released | named => cases hclosed

/-- A call was opened when `n` calls were open on its thread, and closed by the exit that is paired with
its entry. -/
def ClosedUnder (H : History) (r : CallRecord) (n : ℕ) : Prop :=
  ∃ (before during after : History) (e x : CallEvent) (depth : ℕ),
    H = before ++ .opened r.id e :: (during ++ .closed r depth x :: after) ∧
    e.thread = r.thread ∧ x.thread = r.thread ∧ Paired (during.moves r.thread) ∧
    (before.openIds r.thread).length = n

/-- Before the exit `x` a call was opened as its record tells, and the exit is paired with the entry. -/
def ClosedBy (pre : History) (r : CallRecord) (depth : ℕ) (x : CallEvent) : Prop :=
  ∃ (before during : History) (e : CallEvent), pre = before ++ .opened r.id e :: during ∧
    e.thread = r.thread ∧ x.thread = r.thread ∧ Paired (during.moves r.thread) ∧
    r.parent = (before.openIds r.thread).head? ∧ (before.openIds r.thread).length = depth

/-- Whether calls were opened as the exits that close them tell. -/
def Measured (H : History) : Prop :=
  ∀ pre r depth x post, H = pre ++ .closed r depth x :: post → ClosedBy pre r depth x

theorem Measured.concat (h : Measured H) {y : Happening}
    (hy : ∀ r depth x, y = .closed r depth x → H.ClosedBy r depth x) : Measured (H ++ [y]) := by
  intro pre r depth x post hsplit
  rcases List.eq_nil_or_concat post with rfl | ⟨post', z, rfl⟩
  · obtain ⟨rfl, hlast⟩ := List.append_inj' hsplit rfl
    exact hy r depth x (List.cons.inj hlast).1
  · rw [List.concat_eq_append, ← List.cons_append, ← List.append_assoc] at hsplit
    exact h pre r depth x post' (List.append_inj' hsplit rfl).1

namespace Measured

theorem nil : Measured [] := fun pre r depth x post h => by simp at h

variable {r : CallRecord} {n : ℕ} (h : Measured H)
include h

/-- A closing, with all that came before. -/
theorem closedBy_of_mem {depth : ℕ} {x : CallEvent} (hmem : .closed r depth x ∈ H) :
    ∃ pre post, H = pre ++ .closed r depth x :: post ∧ ClosedBy pre r depth x := by
  obtain ⟨pre, post, hsplit⟩ := List.append_of_mem hmem
  exact ⟨pre, post, hsplit, h pre r depth x post hsplit⟩

theorem closedUnder_of_mem {depth : ℕ} {x : CallEvent} (hmem : .closed r depth x ∈ H) :
    H.ClosedUnder r depth := by
  obtain ⟨pre, post, rfl, before, during, e, rfl, he, hx, hduring, -, hdepth⟩ := h.closedBy_of_mem hmem
  exact ⟨before, during, post, e, x, depth, by simp, he, hx, hduring, hdepth⟩

theorem exists_closedUnder (hr : r ∈ H.closedCalls) : ∃ n, H.ClosedUnder r n := by
  obtain ⟨depth, x, hx⟩ := exists_closed_of_mem hr
  exact ⟨depth, h.closedUnder_of_mem hx⟩

theorem closedUnder_of_mem_depths {f : UInt64} (hn : n ∈ H.depths f) :
    ∃ r, r.function = f ∧ H.ClosedUnder r n := by
  obtain ⟨y, hy, hdepth⟩ := List.mem_filterMap.1 hn
  cases y with
  | closed c depth x =>
    simp only [Option.ite_none_right_eq_some, Option.some.injEq] at hdepth
    obtain ⟨hf, rfl⟩ := hdepth
    exact ⟨c, hf, h.closedUnder_of_mem hy⟩
  | opened | discarded | unmatched | released | named => cases hdepth

/-- The exit that is paired with the entry tells the same depth. -/
theorem depth_eq (hr : H.ClosedUnder r n) :
    (∃ x, .closed r n x ∈ H) ∧ ∃ before after, H = before ++ after ∧
      r.parent = (before.openIds r.thread).head? ∧ (before.openIds r.thread).length = n := by
  obtain ⟨before, during, after, e, x, depth, rfl, he, hx, hduring, hn⟩ := hr
  obtain ⟨before', during', e', hpre, he', -, hduring', hparent, hdepth⟩ :=
    h (before ++ .opened r.id e :: during) r depth x after (by simp)
  have hopen := openIds_opened before r.id he hduring
  rw [hpre, openIds_opened before' r.id he' hduring'] at hopen
  obtain ⟨-, hsame⟩ := List.cons.inj hopen
  rw [hsame] at hparent hdepth
  obtain rfl : depth = n := hdepth.symm.trans hn
  exact ⟨⟨x, by simp⟩, before, _, rfl, hparent, hn⟩

theorem mem_depths (hr : H.ClosedUnder r n) : n ∈ H.depths r.function := by
  obtain ⟨⟨x, hx⟩, -⟩ := h.depth_eq hr
  exact List.mem_filterMap.2 ⟨_, hx, if_pos rfl⟩

/-- The calls around a call when it was opened are its caller, the caller of that, and so on. -/
theorem ancestors (hr : H.ClosedUnder r n) : H.Ancestors r.parent n := by
  obtain ⟨-, before, after, rfl, hparent, rfl⟩ := h.depth_eq hr
  rw [hparent]
  exact (ancestors_of_suffix List.suffix_rfl).append after

theorem made (hr : r ∈ H.closedCalls) : H.Made r.id r.parent := by
  obtain ⟨depth, x, hx⟩ := exists_closed_of_mem hr
  obtain ⟨pre, post, rfl, before, during, e, rfl, he, -, -, hparent, -⟩ := h.closedBy_of_mem hx
  exact ⟨before, during ++ .closed r depth x :: post, e, by simp, he ▸ hparent⟩

end Measured

end History

namespace CallStacks

variable {start : FunctionTable} {H : History} {s : CallStacks}

/-! ### The stacks -/

theorem foldl_max_mem (ds : List ℕ) (n : ℕ) : ds.foldl max n = n ∨ ds.foldl max n ∈ ds := by
  induction ds generalizing n with
  | nil => exact .inl rfl
  | cons d rest ih =>
    rw [List.foldl_cons]
    rcases ih (max n d) with h | h
    · rw [h]
      rcases max_choice n d with hd | hd
      · exact .inl hd
      · exact .inr (by simp [hd])
    · exact .inr (List.mem_cons_of_mem _ h)

/-- The largest depth is kept while calls close. -/
theorem maxDepth_traced (d : UInt64 → ℕ) :
    Traced fun H s => ∀ f, s.maxDepth f = (H.depths f).foldl max (d f) where
  enter H s e h f := by
    have hnone : History.depths [.opened (s.enter e).2 e] f = [] := rfl
    rw [History.depths_append, hnone, List.append_nil]
    exact h f
  leave H s e h f := by rw [maxDepth_leave, h, History.depths_append, List.foldl_append]
  attach H s e h f := by rw [maxDepth_attach, h]
  setLabels H s g ls h f := by
    rw [← h]
    unfold setLabels
    split <;> rfl
  releaseFrame H s h f := by
    have hnone : History.depths [.released s.frameCalls] f = [] := rfl
    rw [History.depths_append, hnone, List.append_nil]
    exact h f
  updateFunctions H s names h f := by
    have hnone : History.depths [.named names] f = [] := rfl
    rw [History.depths_append, hnone, List.append_nil]
    exact h f

theorem maxDepth_performAll (s : CallStacks) (ops : List Operation) (f : UInt64) :
    (s.performAll ops).1.maxDepth f = ((s.history ops).depths f).foldl max (s.maxDepth f) :=
  Traced.performAll (H := []) (maxDepth_traced s.maxDepth) ops (fun _ => rfl) f

theorem maxDepth_le_performAll (s : CallStacks) (ops : List Operation) (f : UInt64) :
    s.maxDepth f ≤ (s.performAll ops).1.maxDepth f := by
  rw [maxDepth_performAll]
  exact Nat.le_of_not_lt fun hlt => Nat.lt_irrefl _ (lt_foldl_max_iff.2 (.inl hlt))

/-- What a history tells of the nesting of calls. -/
structure Nests (start : FunctionTable) (H : History) (s : CallStacks) : Prop where
  wellFormed : s.WellFormed
  ledger : Ledger start H s
  stack : ∀ t, (s.stack t).map (·.id) = H.openIds t
  measured : H.Measured
  maxDepth : ∀ f, s.maxDepth f = (H.depths f).foldl max 0

namespace Nests

theorem initial (start : FunctionTable) : Nests start [] { functions := start } where
  wellFormed := .start start
  ledger := .initial start
  stack _ := rfl
  measured := .nil
  maxDepth _ := rfl

variable (h : Nests start H s)
include h

theorem stack_enter (e : CallEvent) (t : Thread) :
    ((s.enter e).1.stack t).map (·.id) = History.openIds t (H ++ [.opened (s.enter e).2 e]) := by
  have hid : (s.enter e).2 = s.nextId := rfl
  rw [CallStacks.stack_enter, History.openIds_concat, Happening.openIds, hid]
  by_cases ht : e.thread = t
  · subst ht
    simp [map_id_adopt, h.stack, CallRecord.opened]
  · rw [if_neg ht, if_neg (Ne.symm ht), h.stack]

theorem stack_leave (e : CallEvent) (t : Thread) :
    ((s.leave e).1.stack t).map (·.id) = History.openIds t (H ++ [s.departure e]) := by
  obtain ⟨hthread, hkind⟩ := departure_exit s e
  rw [CallStacks.stack_leave, History.openIds_concat]
  split
  · rename_i ht
    rw [Happening.openIds_exit (ht ▸ hthread) hkind, ← h.stack, List.map_tail]
  · rename_i ht
    rw [Happening.openIds_other fun hc => ht (Option.some.inj (hthread.symm.trans hc)).symm, h.stack]

/-- An exit that fits closes a call that was opened as it tells. -/
theorem closedBy {e : CallEvent} {c : CallRecord} {outer : List CallRecord}
    (hst : s.stack e.thread = c :: outer) : H.ClosedBy (c.close e.time) outer.length e := by
  have hrooted : H.Rooted start e.thread (c :: outer) := hst ▸ h.ledger.rooted e.thread
  obtain ⟨before, during, opening, hsplit, he, -, hduring, -⟩ := hrooted
  have hthread : c.thread = e.thread := (h.wellFormed.of_mem_stack (by rw [hst]; simp)).1
  have hnested : Nested e.thread (c :: outer) := hst ▸ h.wellFormed.nested e.thread
  obtain ⟨⟨-, -, -, hparent⟩, -⟩ := hnested
  -- the calls around the closed one were open when it was opened
  have hopen := h.stack e.thread
  rw [hst, hsplit, History.openIds_opened before c.id he hduring] at hopen
  obtain ⟨-, houter⟩ := List.cons.inj hopen
  refine ⟨before, during, opening, hsplit, he.trans hthread.symm, hthread.symm, ?_, ?_, ?_⟩
  · exact hthread.symm ▸ hduring
  · rw [CallRecord.close, hthread, ← houter, hparent, List.head?_map]
  · rw [CallRecord.close, hthread, ← houter, List.length_map]

omit h in
theorem traced (start : FunctionTable) : Traced (Nests start) where
  enter H s e h := ⟨h.wellFormed.enter e, h.ledger.enter e, h.stack_enter e,
    h.measured.concat (by simp), (maxDepth_traced fun _ => 0).enter H s e h.maxDepth⟩
  leave H s e h := by
    refine ⟨h.wellFormed.leave e, h.ledger.leave e, h.stack_leave e, h.measured.concat ?_,
      (maxDepth_traced fun _ => 0).leave H s e h.maxDepth⟩
    intro r depth x hclosed
    rcases departure_cases s e with ⟨-, -, hd⟩ | ⟨c, outer, hst, ⟨-, hd⟩ | ⟨-, -, -, hd⟩⟩
    · cases hd.symm.trans hclosed
    · cases hd.symm.trans hclosed
    · cases hd.symm.trans hclosed
      exact h.closedBy hst
  attach H s e h := by
    refine ⟨h.wellFormed.attach e, h.ledger.attach e, fun t => ?_, h.measured,
      (maxDepth_traced fun _ => 0).attach H s e h.maxDepth⟩
    rw [← h.stack]
    rcases attach_cases s e with ⟨-, hs⟩ | ⟨c, outer, hst, hs⟩
    · rw [hs]
    · by_cases ht : t = e.thread
      · simp [hs, ht, hst]
      · simp [hs, ht]
  setLabels H s f ls h := ⟨h.wellFormed.setLabels f ls, h.ledger.setLabels f ls,
    fun t => by simpa using h.stack t, h.measured,
    (maxDepth_traced fun _ => 0).setLabels H s f ls h.maxDepth⟩
  releaseFrame H s h := ⟨h.wellFormed.releaseFrame, h.ledger.releaseFrame,
    fun t => by
      rw [History.openIds_concat]
      exact h.stack t,
    h.measured.concat (by simp), (maxDepth_traced fun _ => 0).releaseFrame H s h.maxDepth⟩
  updateFunctions H s names h := ⟨wellFormed_kept.updateFunctions s names h.wellFormed,
    h.ledger.updateFunctions names, fun t => by
      rw [History.openIds_concat]
      exact h.stack t,
    h.measured.concat (by simp), (maxDepth_traced fun _ => 0).updateFunctions H s names h.maxDepth⟩

/-- The largest depth is the greatest number of calls that a closed call had around it. -/
theorem isGreatest_maxDepth (f : UInt64) :
    IsGreatest {n | n = 0 ∨ ∃ r, r.function = f ∧ H.ClosedUnder r n} (s.maxDepth f) := by
  rw [h.maxDepth]
  refine ⟨(foldl_max_mem _ 0).imp_right h.measured.closedUnder_of_mem_depths, ?_⟩
  rintro n (rfl | ⟨r, rfl, hr⟩)
  · exact Nat.zero_le _
  · refine Nat.le_of_not_lt fun hlt => Nat.lt_irrefl _ (lt_foldl_max_iff.2 (.inr ⟨n, ?_, hlt⟩))
    exact h.measured.mem_depths hr

/-- Open and closed calls name the call that they were made by. -/
theorem made {r : CallRecord} (hr : r ∈ s.openCalls ++ H.closedCalls) : H.Made r.id r.parent := by
  rcases List.mem_append.1 hr with hr | hr
  · obtain ⟨t, ht⟩ := (mem_openCalls_iff s).1 hr
    obtain ⟨inner, outer, hst⟩ := List.append_of_mem ht
    obtain ⟨-, -, -, hparent⟩ := (h.wellFormed.nested t).running hst
    have hsuffix : r.id :: outer.map (·.id) <:+ H.openIds t := by
      rw [← h.stack, hst, List.map_append]
      exact List.suffix_append _ _
    rw [hparent, ← List.head?_map]
    exact History.made_of_suffix hsuffix
  · exact h.measured.made hr

end Nests

end CallStacks

end TraceAnomaly
