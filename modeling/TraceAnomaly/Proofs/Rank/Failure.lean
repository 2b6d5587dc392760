import TraceAnomaly.Proofs.Outlier.Density
import TraceAnomaly.Proofs.Rank.Labels

/-! A rank whose aggregator fails every call, under the policy that all calls are then normal. No statistics
apply, so the threshold classifier calls nothing anomalous. The density classifier needs no statistics and
answers as ever: the policy does not reach it. -/

namespace TraceAnomaly

variable {σ : Type}

theorem Link.statistics_failing {a : Aggregator σ} (ha : a.Fails) {c : DetectorConfig}
    (hpolicy : c.onPushFailure = .allNormal) (s : σ) (batch : Keyed UInt64 (PowerSums Float)) (f : UInt64)
    (own : Option (PowerSums Float)) : (failing a ha).statistics c s batch f own = none := by
  unfold statistics
  rw [hpolicy]

theorem Classifier.classify_none_of_streaming {c : DetectorConfig} (h : c.algorithm = .streaming)
    (xs : List (Sample Float)) : ∀ l ∈ (ofConfig c).classify xs none, l = .normal := by
  intro l hl
  rw [ofConfig, h] at hl
  obtain ⟨x, -, rfl⟩ := List.mem_map.1 hl
  rfl

namespace Rank.Ready

variable {r r' : Rank} {s s' : σ} {frame : Frame} {report : FrameReport} {a : Option (Aggregator σ)}
  (h : r.Ready) (hr : r.conclude a s frame = (r', s', report))
include h hr

/-- A report without anomalous calls counts no anomalies and names no functions. -/
theorem nothing_of_normal (hnormal : ∀ call ∈ report.calls, call.label = .normal) :
    report.abnormal = Keyed.empty ∧ report.functionsOfInterest = [] := by
  have hnone (f : UInt64) : report.anomalous f = 0 := by
    rw [FrameReport.anomalous, List.countP_eq_zero]
    intro call hcall
    simp [CallRecord.isAnomalous, hnormal call (List.mem_filter.1 hcall).1]
  have habnormal : report.abnormal = Keyed.empty := Keyed.ext_get? fun f => by
    rw [h.get?_abnormal hr, if_pos (hnone f)]
    rfl
  refine ⟨habnormal, ?_⟩
  have hinterest : report.functionsOfInterest = r'.detector.functionsOfInterest r'.calls.maxDepth ∧
      report.abnormal = r'.detector.abnormal := by
    cases hr
    exact ⟨rfl, rfl⟩
  rw [hinterest.1, Detector.functionsOfInterest, ← hinterest.2, habnormal]
  rfl

end Rank.Ready

/-- Two short calls and a long one, which stands out by density. -/
theorem DensityClassifier.classify_long_call :
    let c : LofConfig := { neighbours := 1, metric := .chebyshev }
    let xs : List (Sample Float) := [⟨Binary64.ofNat 0, Binary64.ofNat 10⟩,
      ⟨Binary64.ofNat 20, Binary64.ofNat 10⟩, ⟨Binary64.ofNat 40, Binary64.ofNat 500⟩]
    ((ofConfig c).classify xs)[2]? = some .anomalous := by
  intro c xs
  have hnear : (ofConfig c).neighbourhoods xs =
      [[(1, Binary64.ofNat 20)], [(0, Binary64.ofNat 20)], [(0, Binary64.ofNat 490)]] := by
    have hk : min (ofConfig c).neighbours (xs.length - 1) = 1 := by decide +kernel
    rw [neighbourhoods, hk]
    simp only [xs, List.zipIdx_cons, List.zipIdx_nil, List.map_cons, List.map_nil]
    -- seen from each call the others are in order of distance already
    rw [nearest_of_pairwise (l := [(1, Binary64.ofNat 20), (2, Binary64.ofNat 490)]) (by decide +kernel)
        (by decide +kernel),
      nearest_of_pairwise (l := [(0, Binary64.ofNat 20), (2, Binary64.ofNat 490)]) (by decide +kernel)
        (by decide +kernel),
      nearest_of_pairwise (l := [(0, Binary64.ofNat 490), (1, Binary64.ofNat 490)]) (by decide +kernel)
        (by decide +kernel)]
    rfl
  rw [classify, if_neg (by decide), label_iff (sound_factors (by decide) (by decide) xs), factors,
    if_neg (by decide), hnear]
  exact ⟨_, rfl, by decide +kernel, by decide +kernel⟩

namespace Course

/-- Functions are classified without statistics. -/
theorem labels_eq_of_failing {a : Aggregator σ} (ha : a.Fails) (number : UInt64) (names : FunctionTable)
    {c : DetectorConfig} (hpolicy : c.onPushFailure = .allNormal) (frames : List (σ × Frame)) :
    ∀ report ∈ ((Course.start number names c).takeAll (some a) frames).reports, ∀ f,
      report.labels f = (Classifier.ofConfig c).classify (report.samples f) none := by
  intro report hreport f
  obtain ⟨r, r', s, s', frame, hready, rfl, -, hr⟩ := yields_start (some a) number names c frames report hreport
  have heq := hready.labels_eq (l := .failing a ha) hr f
  rwa [Link.statistics_failing ha hpolicy] at heq

/-- With the policy that all is normal and an aggregator that fails every call, no report is said to use merged
statistics, and functions are labelled without any. Under the threshold classifier all calls are then
normal, and nothing is counted or of interest; the labels of the density classifier are what they are with
any aggregator. -/
theorem labels_of_failing {a : Aggregator σ} (ha : a.Fails) (number : UInt64) (names : FunctionTable)
    {c : DetectorConfig} (hpolicy : c.onPushFailure = .allNormal) (frames : List (σ × Frame)) :
    let p := (Course.start number names c).takeAll (some a) frames
    (∀ report ∈ p.reports, report.usedMerged = false) ∧
      (c.algorithm = .streaming →
        (∀ report ∈ p.reports, (∀ call ∈ report.calls, call.label = .normal) ∧
          report.abnormal = Keyed.empty ∧ report.functionsOfInterest = []) ∧
        p.rank.summary.anomalies = 0) ∧
      (c.algorithm = .batch → ∀ report ∈ p.reports, ∀ f,
        report.labels f = (DensityClassifier.ofConfig c.lof).classify (report.samples f)) := by
  intro p
  have hyields := yields_start (some a) number names c frames
  have hlabels := labels_eq_of_failing ha number names hpolicy frames
  refine ⟨fun report hreport => ?_, fun hstreaming => ?_, fun hbatch report hreport f => ?_⟩
  · obtain ⟨r, r', s, s', frame, hready, rfl, -, hr⟩ := hyields report hreport
    rw [Bool.eq_false_iff]
    intro hused
    exact ((hready.usedMerged_iff (l := .failing a ha) hr).1 hused).1
  · have hnormal : ∀ report ∈ p.reports, ∀ call ∈ report.calls, call.label = .normal := by
      intro report hreport
      refine report.forall_normal_of_labels fun f l hl => ?_
      rw [hlabels report hreport f] at hl
      exact Classifier.classify_none_of_streaming hstreaming _ l hl
    refine ⟨fun report hreport => ⟨hnormal report hreport, ?_⟩, ?_⟩
    · obtain ⟨r, r', s, s', frame, hready, -, -, hr⟩ := hyields report hreport
      exact hready.nothing_of_normal hr (hnormal report hreport)
    · have htotals := ((Sound.start number names c).takeAll (some a) frames).totals
      have hzero : (p.reports.map fun report => report.calls.countP CallRecord.isAnomalous).sum = 0 := by
        refine List.sum_eq_zero_iff_forall_eq_nat.2 fun n hn => ?_
        obtain ⟨report, hreport, rfl⟩ := List.mem_map.1 hn
        rw [List.countP_eq_zero]
        intro call hcall
        simp [CallRecord.isAnomalous, hnormal report hreport call hcall]
      exact htotals.anomalies.trans (congrArg UInt64.ofNat hzero)
  · rw [hlabels report hreport f, Classifier.ofConfig, hbatch]
    rfl

/-- Three short calls and a long one, which is anomalous by the rank's own statistics. -/
theorem labels_of_failing_long_call :
    let t : Thread := ⟨0, 0, 0⟩
    let frame : Frame := { step := 1, calls := [
      ⟨t, .entry, 1, 0⟩, ⟨t, .exit, 1, 10⟩, ⟨t, .entry, 1, 20⟩, ⟨t, .exit, 1, 30⟩,
      ⟨t, .entry, 1, 40⟩, ⟨t, .exit, 1, 50⟩, ⟨t, .entry, 1, 60⟩, ⟨t, .exit, 1, 160⟩] }
    let c : DetectorConfig := { sigma := Binary64.ofNat 1, onPushFailure := .allNormal }
    let course (c : DetectorConfig) :=
      (start 0 Keyed.empty c).takeAll (some (.unreachable : Aggregator Unit)) [((), frame)]
    (course { c with onPushFailure := .useLocal }).rank.summary.anomalies = 1 ∧
      (course c).reports.map (·.calls.length) = [4] ∧
      (∀ report ∈ (course c).reports, report.functionsOfInterest = []) ∧
      (course c).rank.summary.anomalies = 0 := by
  intro t frame c course
  obtain ⟨-, hstreaming, -⟩ :=
    labels_of_failing Aggregator.unreachable_fails 0 Keyed.empty (c := c) rfl [((), frame)]
  obtain ⟨hreports, hanomalies⟩ := hstreaming rfl
  exact ⟨by decide +kernel, by decide +kernel, fun report hreport => (hreports report hreport).2.2, hanomalies⟩

/-- Under the density classifier the last of three calls is anomalous in spite of the policy. -/
theorem anomalous_of_failing_batch :
    let t : Thread := ⟨0, 0, 0⟩
    let frame : Frame := { step := 1, calls := [
      ⟨t, .entry, 1, 0⟩, ⟨t, .exit, 1, 10⟩, ⟨t, .entry, 1, 20⟩, ⟨t, .exit, 1, 30⟩,
      ⟨t, .entry, 1, 40⟩, ⟨t, .exit, 1, 540⟩] }
    let c : DetectorConfig :=
      { algorithm := .batch, onPushFailure := .allNormal, lof := { neighbours := 1, metric := .chebyshev } }
    let p := (start 0 Keyed.empty c).takeAll (some (.unreachable : Aggregator Unit)) [((), frame)]
    ∃ report ∈ p.reports, ∃ call ∈ report.calls, call.label = .anomalous := by
  intro t frame c p
  obtain ⟨report, hreport⟩ : ∃ report, ((Rank.start 0 Keyed.empty c).process
      (some (.unreachable : Aggregator Unit)) () frame).2.2.report? = some report :=
    Option.isSome_iff_exists.1 (by decide +kernel)
  have hmem : report ∈ p.reports := by simp [p, reports, takeAll, take, start, hreport]
  let xs : List (Sample Float) := [⟨Binary64.ofNat 0, Binary64.ofNat 10⟩,
    ⟨Binary64.ofNat 20, Binary64.ofNat 10⟩, ⟨Binary64.ofNat 40, Binary64.ofNat 500⟩]
  have hsamples : report.samples 1 = xs := by
    obtain ⟨r', s', hr⟩ := Rank.conclude_of_report? hreport
    have hready := Rank.Ready.of_ingested (q := (Rank.start 0 Keyed.empty c).ingested frame)
      (Sound.start 0 Keyed.empty c).calls rfl rfl
    rw [hready.samples_eq (l := .failing _ Aggregator.unreachable_fails) hr]
    decide +kernel
  have hlabels := labels_eq_of_failing Aggregator.unreachable_fails 0 Keyed.empty (c := c) rfl [((), frame)]
    report hmem 1
  have hlast : ((DensityClassifier.ofConfig c.lof).classify xs)[2]? = some .anomalous :=
    DensityClassifier.classify_long_call
  have hanomalous : Label.anomalous ∈ report.labels 1 := by
    rw [hlabels, hsamples]
    exact List.mem_of_getElem? hlast
  obtain ⟨call, hcall, hlabel⟩ := List.mem_map.1 hanomalous
  exact ⟨report, hmem, call, (List.mem_filter.1 hcall).1, hlabel⟩

end Course

end TraceAnomaly
