import TraceAnomaly.Proofs.Rank.Conclusion

/-! The labels of a rank under the threshold classifier, over any history of frames and whatever the
other ranks have done to the shared statistics in between: every label is the verdict of the
statistics that apply on the runtime of its own call. -/

namespace TraceAnomaly

variable {σ : Type}

/-- The earlier reports whose runtimes a rank's own statistics still hold. -/
def DetectorConfig.remembered (c : DetectorConfig) (reports : List FrameReport) : List FrameReport :=
  match c.localScope with
  | .frame => []
  | .rank => reports

def ownStatistics (reports : List FrameReport) (f : UInt64) : PowerSums Float :=
  .ofSamples (reports.flatMap (·.runtimes f))

namespace Rank

/-- Takes frames one after another, with the shared state as each of them finds it, and collects the
reports. -/
def processAll (a : Option (Aggregator σ)) (r : Rank) : List (σ × Frame) → Rank × List FrameReport
  | [] => (r, [])
  | (s, f) :: rest =>
    let (r, _, status) := r.process a s f
    let (final, reports) := processAll a r rest
    (final, status.report?.toList ++ reports)

/-- The rank has given these reports so far. -/
structure Reported (c : DetectorConfig) (reports : List FrameReport) (r : Rank) : Prop where
  calls : r.calls.WellFormed
  config : r.detector.config = c
  own : c.localScope = .rank → ∀ f,
    ((r.detector.own.get? f).getD .empty).setAbnormal 0 = ownStatistics reports f

namespace Reported

variable {c : DetectorConfig} {reports : List FrameReport} {r : Rank}

theorem start (number : UInt64) (names : FunctionTable) (c : DetectorConfig) :
    Reported c [] (.start number names c) where
  calls := .start names
  config := rfl
  own _ _ := rfl

/-- At the beginning of a frame the rank's own statistics hold what is remembered. -/
theorem own_beginFrame (h : Reported c reports r) (f : UInt64) :
    ((r.detector.beginFrame.own.get? f).getD .empty).setAbnormal 0 =
      ownStatistics (c.remembered reports) f := by
  simp only [Detector.beginFrame, DetectorConfig.remembered, h.config]
  cases hc : c.localScope with
  | frame => rfl
  | rank => exact h.own hc f

theorem ownStatistics_append (reports : List FrameReport) (report : FrameReport) (f : UInt64) :
    ownStatistics (reports ++ [report]) f = (ownStatistics reports f).pushAll (report.runtimes f) := by
  simp [ownStatistics, PowerSums.ofSamples, PowerSums.pushAll_append]

theorem process (h : Reported c reports r) (l : Link σ) (s : σ) (f : Frame) :
    Reported c (reports ++ (r.process l.aggregator? s f).2.2.report?.toList)
      (r.process l.aggregator? s f).1 := by
  have hcalls := wellFormed_process h.calls l.aggregator? s f
  rcases process_cases r l.aggregator? s f with
    ⟨q, r', s', report, hq_calls, hdetector, hq, hp⟩ | ⟨r', status, hp, hstatus, -, hdetector⟩
  · have hready := Ready.of_ingested h.calls hq_calls hdetector
    rw [hp] at hcalls ⊢
    refine ⟨hcalls, ?_, fun hc g => ?_⟩
    · rw [hready.config_eq hq, hdetector]
      exact h.config
    · rw [hready.own_eq hq, hdetector, h.own_beginFrame, DetectorConfig.remembered, hc]
      exact (ownStatistics_append reports report g).symm
  · rw [hp] at hcalls ⊢
    simp only [FrameStatus.report?_eq_none hstatus, Option.toList_none, List.append_nil]
    refine ⟨hcalls, ?_, fun hc g => ?_⟩
    · rcases hdetector with hdetector | hdetector <;> rw [hdetector] <;> exact h.config
    · rcases hdetector with hdetector | hdetector <;> rw [hdetector]
      · exact h.own hc g
      · rw [h.own_beginFrame, DetectorConfig.remembered, hc]

theorem processAll (h : Reported c reports r) (l : Link σ) (history : List (σ × Frame)) :
    Reported c (reports ++ (r.processAll l.aggregator? history).2)
      (r.processAll l.aggregator? history).1 := by
  induction history generalizing r reports with
  | nil => simpa [Rank.processAll] using h
  | cons e rest ih =>
    obtain ⟨s, f⟩ := e
    simpa [Rank.processAll] using ih (h.process l s f)

end Reported

/-- In every report of a rank under the threshold classifier, a call is anomalous just if its runtime
exceeds the statistics that its function is judged by: with a working aggregator that merged
statistics are asked of, those of the store once the batch of the report is merged; with a failing
one and the policy that all is normal, none; otherwise the rank's own, of this frame or of all frames
up to it. Merged statistics are said to be used just in the first case, if a call was closed. -/
theorem label_eq_anomalous_iff (l : Link σ) (number : UInt64) (names : FunctionTable)
    (c : DetectorConfig) (hc : c.algorithm = .streaming) (history : List (σ × Frame)) {r r' : Rank}
    {earlier : List FrameReport} {s s' : σ} {f : Frame} {report : FrameReport}
    (hhistory : (Rank.start number names c).processAll l.aggregator? history = (r, earlier))
    (hframe : r.process l.aggregator? s f = (r', s', .completed report)) :
    (∀ call ∈ report.calls, ∃ x, call.runtime = some x ∧ (call.label = .anomalous ↔
      ∃ S, l.statistics c s report.batch call.function
          (some (ownStatistics (c.remembered earlier ++ [report]) call.function)) = some S ∧
        c.minSamples < S.count ∧ S.mean + c.sigma * S.deviation < Binary64.ofNat x.toNat)) ∧
    (report.usedMerged ↔ l.Works ∧ c.pullGlobal ∧ report.calls ≠ []) := by
  have h : Reported c earlier r := by
    simpa [hhistory] using (Reported.start number names c).processAll l history
  rcases process_cases r l.aggregator? s f with
    ⟨q, r'', s'', report', hcalls, hdetector, hq, hp⟩ | ⟨r'', status, hp, hnone, -, -⟩
  · rw [hframe] at hp
    obtain ⟨rfl, rfl, rfl⟩ : r' = r'' ∧ s' = s'' ∧ report = report' := by simpa using hp
    have hready := Ready.of_ingested h.calls hcalls hdetector
    have hconfig : q.detector.config = c := by
      rw [hdetector]
      exact h.config
    refine ⟨fun call hcall => ?_, by rw [hready.usedMerged_iff hq, hconfig]⟩
    obtain ⟨x, hx, hlabel⟩ := hready.label_iff hq (by rw [hconfig, hc]) hcall
    refine ⟨x, hx, hlabel.trans ?_⟩
    rw [hconfig]
    refine l.statistics_congr c s report.batch call.function ?_ ⟨c.sigma, c.minSamples⟩ _
    rw [← PowerSums.pushAll_setAbnormal, hdetector, h.own_beginFrame,
      ← Reported.ownStatistics_append, ownStatistics, PowerSums.setAbnormal_ofSamples]
  · rw [hframe] at hp
    obtain ⟨-, -, hstatus⟩ : r' = r'' ∧ s' = s ∧ .completed report = status := by simpa using hp
    exact absurd hstatus.symm (hnone report)

/-- Three calls of one length, then a fourth that exceeds one deviation above the merged mean. -/
theorem label_eq_anomalous_iff_outlier :
    let t : Thread := ⟨0, 0, 0⟩
    let frame : Frame := { step := 1, calls := [
      ⟨t, .entry, 1, 0⟩, ⟨t, .exit, 1, 10⟩, ⟨t, .entry, 1, 20⟩, ⟨t, .exit, 1, 30⟩,
      ⟨t, .entry, 1, 40⟩, ⟨t, .exit, 1, 50⟩, ⟨t, .entry, 1, 60⟩, ⟨t, .exit, 1, 160⟩] }
    let c : DetectorConfig := { sigma := Binary64.ofNat 1 }
    ∃ r earlier r' s' report,
      (Rank.start 0 Keyed.empty c).processAll Link.inProcess.aggregator? [(Store.empty, { step := 0 })] =
        (r, earlier) ∧
      r.process Link.inProcess.aggregator? Store.empty frame = (r', s', .completed report) ∧
      report.usedMerged ∧ ∃ call ∈ report.calls, ∃ x S, call.runtime = some x ∧
        some (Store.value (Store.updateAll Store.empty report.batch) call.function) = some S ∧
        c.minSamples < S.count ∧ S.mean + c.sigma * S.deviation < Binary64.ofNat x.toNat := by
  intro t frame c
  have hlabels : (((Rank.start 0 Keyed.empty c).processAll Link.inProcess.aggregator?
      [(Store.empty, { step := 0 })]).1.process Link.inProcess.aggregator? Store.empty frame).2.2.report?.map
      (fun report => report.calls.map (·.label)) = some [.normal, .normal, .normal, .anomalous] := by
    decide +kernel
  obtain ⟨⟨r, earlier⟩, hhistory⟩ : ∃ run, (Rank.start 0 Keyed.empty c).processAll
    Link.inProcess.aggregator? [(Store.empty, { step := 0 })] = run := ⟨_, rfl⟩
  rw [hhistory] at hlabels
  obtain ⟨⟨r', s', status⟩, hframe⟩ : ∃ out,
    r.process Link.inProcess.aggregator? Store.empty frame = out := ⟨_, rfl⟩
  rw [hframe] at hlabels
  obtain ⟨report, hreport, hcalls⟩ := Option.map_eq_some_iff.1 hlabels
  obtain rfl := FrameStatus.report?_eq_some hreport
  have h := label_eq_anomalous_iff .inProcess 0 Keyed.empty c rfl _ hhistory hframe
  have hmem : Label.anomalous ∈ report.calls.map (·.label) := by simp [hcalls]
  obtain ⟨call, hcall, hlabel⟩ := List.mem_map.1 hmem
  obtain ⟨x, hx, hiff⟩ := h.1 call hcall
  obtain ⟨S, hS, hcount, hexceeds⟩ := hiff.1 hlabel
  have hused : report.usedMerged := h.2.2 ⟨trivial, rfl, List.ne_nil_of_mem hcall⟩
  exact ⟨r, earlier, r', s', report, hhistory, hframe, hused, call, hcall, x, S, hx, hS, hcount, hexceeds⟩

end Rank

end TraceAnomaly
