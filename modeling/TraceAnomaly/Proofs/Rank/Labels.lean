import TraceAnomaly.Proofs.Rank.Totals

/-! The labels in a report are the answers of the classifier for the samples in the report, function by function,
against the statistics that apply to the function. -/

namespace TraceAnomaly

variable {α σ : Type} [Scalar α]

namespace FrameReport

variable (report : FrameReport) (f : UInt64)

/-- The calls of a function in a report, in closing order, as samples. -/
def samples : List (Sample α) :=
  (report.calls.filter (·.function = f)).filterMap CallRecord.sample?

def labels : List Label := (report.calls.filter (·.function = f)).map CallRecord.label

theorem forall_normal_of_labels (h : ∀ f, ∀ l ∈ report.labels f, l = .normal) :
    ∀ call ∈ report.calls, call.label = .normal := fun call hcall =>
  h call.function call.label (List.mem_map_of_mem (List.mem_filter.2 ⟨hcall, by simp⟩))

end FrameReport

theorem filterMap_sample?_labelCalls (cs : List CallRecord) (ls : List Label) :
    (CallStacks.labelCalls cs ls).filterMap (CallRecord.sample? (α := α)) = cs.filterMap CallRecord.sample? := by
  fun_induction CallStacks.labelCalls cs ls with
  | case1 c cs l ls ih =>
    simp only [List.filterMap_cons, ih]
    rfl
  | case2 cs ls _ => rfl

theorem map_label_labelCalls {cs : List CallRecord} {ls : List Label} (h : ls.length = cs.length) :
    (CallStacks.labelCalls cs ls).map CallRecord.label = ls := by
  induction cs generalizing ls with
  | nil =>
    rw [List.length_eq_zero_iff.1 h]
    rfl
  | cons c rest ih =>
    cases ls with
    | nil => simp at h
    | cons l ls => exact congrArg (l :: ·) (ih (by simpa using h))

namespace Rank.Ready

variable {r r' : Rank α} {l : Link σ α} {s s' : σ} {frame : Frame} {report : FrameReport}
  (h : r.Ready) (hr : r.conclude l.aggregator? s frame = (r', s', report))
include h hr

theorem samples_eq {β : Type} [Scalar β] (f : UInt64) :
    report.samples f = (r.calls.closedCalls f).filterMap (CallRecord.sample? (α := β)) := by
  rw [FrameReport.samples, h.filter_calls hr, filterMap_sample?_labelCalls]

/-- Every call in a report is a sample. -/
theorem length_samples_report {β : Type} [Scalar β] (f : UInt64) :
    (report.samples (α := β) f).length = (report.calls.filter (·.function = f)).length := by
  rw [h.samples_eq hr, h.filter_calls hr, CallStacks.length_labelCalls]
  refine List.filterMap_length_eq_length.2 fun c hc => ?_
  obtain ⟨x, hx⟩ := h.runtime_of_mem hc
  simp [CallRecord.sample?, hx]

/-- The labels of a function go by its samples and the statistics it is judged by. -/
theorem labels_eq (f : UInt64) : report.labels f =
    (Classifier.ofConfig r.detector.config α).classify (report.samples f)
      (l.statistics r.detector.config s report.batch f
        (some (((r.detector.own.get? f).getD .empty).pushAll (report.runtimes f)))) := by
  rw [FrameReport.labels, h.filter_calls hr, map_label_labelCalls (h.length_labels _ s f), h.samples_eq hr]
  by_cases hf : r.calls.closedCalls f = []
  · have hnone : ∀ labels : List Label, labels.length = 0 → labels = [] := fun _ => List.length_eq_zero_iff.1
    rw [hnone (r.judged l.aggregator? s f).labels (by rw [h.length_labels, hf]; rfl), hf]
    exact (hnone _ (Classifier.length_classify _ _ _)).symm
  · rw [Share.labels, h.config_judged, h.stats?_judged l s hf, h.batch_eq hr, h.runtimes_eq hr]
    rfl

end Rank.Ready

/-- A frame that is reported has been ingested and concluded. -/
theorem Rank.conclude_of_report? {r : Rank α} {a : Option (Aggregator σ α)} {s : σ} {f : Frame}
    {report : FrameReport} (h : (r.process a s f).2.2.report? = some report) :
    ∃ r' s', (r.ingested f).conclude a s f = (r', s', report) := by
  rcases Rank.process_outcomes r a s f with
    ⟨-, hp⟩ | ⟨-, -, hp⟩ | ⟨-, -, e, -, hp⟩ | ⟨-, -, -, r', s', report', hr, hp⟩
  · simp [hp, FrameStatus.report?] at h
  · simp [hp, FrameStatus.report?] at h
  · simp [hp, FrameStatus.report?] at h
  · obtain rfl : report' = report := by simpa [hp, FrameStatus.report?] using h
    exact ⟨r', s', hr⟩

/-- A report that a rank with some settings can give. -/
def DetectorConfig.Yields (c : DetectorConfig) (a : Option (Aggregator σ α)) (report : FrameReport) : Prop :=
  ∃ (r r' : Rank α) (s s' : σ) (frame : Frame), r.Ready ∧ r.detector.config = c ∧
    (c.localScope = .frame → r.detector.own = Keyed.empty) ∧ r.conclude a s frame = (r', s', report)

namespace Course

variable {names : FunctionTable} {c : DetectorConfig} {p : Course α}

theorem Sound.yields_process (h : Sound names c p) (a : Option (Aggregator σ α)) (s : σ) (f : Frame)
    {report : FrameReport} (hreport : (p.rank.process a s f).2.2.report? = some report) : c.Yields a report := by
  obtain ⟨r', s', hr⟩ := Rank.conclude_of_report? hreport
  refine ⟨p.rank.ingested f, r', s, s', f, .of_ingested h.calls rfl rfl, h.config, fun hscope => ?_, hr⟩
  have hown : (p.rank.ingested f).detector.own =
      if p.rank.detector.config.localScope = .frame then Keyed.empty else p.rank.detector.own := rfl
  rw [hown, h.config, if_pos hscope]

theorem Sound.yields_takeAll (h : Sound names c p) (a : Option (Aggregator σ α)) (frames : List (σ × Frame))
    (hp : ∀ report ∈ p.reports, c.Yields a report) :
    ∀ report ∈ (p.takeAll a frames).reports, c.Yields a report := by
  induction frames generalizing p with
  | nil => exact hp
  | cons e rest ih =>
    refine ih (h.take a e.1 e.2) fun report hreport => ?_
    simp only [Course.reports, Course.take, List.filterMap_append, List.mem_append] at hreport
    rcases hreport with hold | hnew
    · exact hp report hold
    · exact h.yields_process a e.1 e.2 (by simpa using hnew)

/-- Every report in the course of a rank is one that a rank with its settings can give. -/
theorem yields_start (a : Option (Aggregator σ α)) (number : UInt64) (names : FunctionTable) (c : DetectorConfig)
    (frames : List (σ × Frame)) :
    ∀ report ∈ ((Course.start number names c α).takeAll a frames).reports, c.Yields a report :=
  (Sound.start number names c).yields_takeAll a frames (by simp [start, reports])

end Course

end TraceAnomaly
