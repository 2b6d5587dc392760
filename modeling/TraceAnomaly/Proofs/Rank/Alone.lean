import TraceAnomaly.Proofs.Binary64.Monotone
import TraceAnomaly.Proofs.Outlier.Minority
import TraceAnomaly.Proofs.Rank.Labels

/-! A streaming rank without an aggregator that forgets its statistics with every frame. It judges the calls
of a function in a frame against nothing but themselves, so that few of them can be anomalous. -/

namespace TraceAnomaly

variable {α σ : Type} [Scalar α]

namespace DetectorConfig

def threshold (c : DetectorConfig) (α : Type := Float) [Scalar α] : SigmaThreshold α :=
  ⟨Scalar.ofBinary64 c.sigma, c.minSamples⟩

noncomputable def exactThreshold (c : DetectorConfig) : SigmaThreshold ℝ :=
  ⟨Binary64.value c.sigma, c.minSamples⟩

theorem sigma_exactThreshold (c : DetectorConfig) : c.exactThreshold.sigma = Binary64.value c.sigma := rfl

end DetectorConfig

namespace FrameReport

variable (report : FrameReport) (f : UInt64)

/-- No call of a function is labelled anomalous, and none is counted as such. -/
def Spares : Prop := (∀ l ∈ report.labels f, l = .normal) ∧ report.abnormal.get? f = none

theorem map_runtime_samples : (report.samples (α := α) f).map Sample.runtime = report.runtimes f := by
  rw [samples, runtimes, runtimesOf, List.map_filterMap]
  refine List.filterMap_congr fun r _ => ?_
  cases h : r.runtime <;> simp [CallRecord.sample?, h]

omit [Scalar α] in
theorem count_labels : (report.labels f).count .anomalous = report.anomalous f := by
  rw [labels, anomalous, List.count_eq_countP, List.countP_map]
  rfl

end FrameReport

namespace Rank.Ready

variable {s s' : σ} {frame : Frame} {report : FrameReport}

theorem labels_eq_classifyOwn {r r' : Rank α} (h : r.Ready)
    (hr : r.conclude (none : Option (Aggregator σ α)) s frame = (r', s', report))
    (hstreaming : r.detector.config.algorithm = .streaming) (hown : r.detector.own = Keyed.empty) (f : UInt64) :
    report.labels f = (r.detector.config.threshold α).classifyOwn (report.samples f) := by
  have hlabels := h.labels_eq (l := .absent) hr f
  rw [hown, Keyed.get?_empty, Option.getD_none, ← PowerSums.ofSamples, ← report.map_runtime_samples] at hlabels
  rw [hlabels, Classifier.ofConfig, hstreaming]
  rfl

theorem normal_of_few {r r' : Rank α} (h : r.Ready)
    (hr : r.conclude (none : Option (Aggregator σ α)) s frame = (r', s', report))
    (hsigma : 0 ≤ Binary64.value r.detector.config.sigma) {f : UInt64}
    (hfew : (report.calls.filter (·.function = f)).length ≤ 1 + Binary64.value r.detector.config.sigma ^ 2) :
    ∀ l ∈ r.detector.config.exactThreshold.classifyOwn (report.samples f), l = .normal := by
  refine SigmaThreshold.classifyOwn_of_few (Rat.cast_nonneg.2 hsigma) _ ?_
  rw [h.length_samples_report (l := .absent) hr, DetectorConfig.sigma_exactThreshold]
  exact_mod_cast hfew

/-! ### Exact arithmetic -/

variable {r r' : Rank ℝ} (h : r.Ready)
  (hr : r.conclude (none : Option (Aggregator σ ℝ)) s frame = (r', s', report))
  (hstreaming : r.detector.config.algorithm = .streaming) (hown : r.detector.own = Keyed.empty)
  (hsigma : 0 ≤ Binary64.value r.detector.config.sigma) (f : UInt64)
include h hr hstreaming hown

theorem labels_eq_exact : report.labels f = r.detector.config.exactThreshold.classifyOwn (report.samples f) :=
  h.labels_eq_classifyOwn hr hstreaming hown f

include hsigma

theorem anomalous_mul_lt (hpos : 0 < report.anomalous f) :
    report.anomalous f * (1 + Binary64.value r.detector.config.sigma ^ 2) <
      (report.calls.filter (·.function = f)).length := by
  have ht : 0 ≤ r.detector.config.exactThreshold.sigma := Rat.cast_nonneg.2 hsigma
  have hminority := SigmaThreshold.count_classifyOwn_mul_lt ht (report.samples f)
  rw [← h.labels_eq_exact hr hstreaming hown, report.count_labels, h.length_samples_report (l := .absent) hr,
    DetectorConfig.sigma_exactThreshold] at hminority
  exact_mod_cast hminority hpos

theorem spares_of_few (hfew : (report.calls.filter (·.function = f)).length ≤
    1 + Binary64.value r.detector.config.sigma ^ 2) : report.Spares f := by
  have hnormal : ∀ l ∈ report.labels f, l = .normal := by
    rw [h.labels_eq_exact hr hstreaming hown]
    exact h.normal_of_few hr hsigma hfew
  have hnone : report.anomalous f = 0 := by
    rw [← report.count_labels, List.count_eq_zero]
    exact fun hl => nomatch hnormal _ hl
  exact ⟨hnormal, by rw [h.get?_abnormal hr, if_pos hnone]⟩

end Rank.Ready

namespace SigmaThreshold

open Course

/-- In exact arithmetic the samples that are anomalous among `n`, judged against the statistics of all of them,
are fewer than `n / (1 + σ²)` if there are any. So equal samples are all normal. A streaming rank without an
aggregator that forgets its statistics with every frame labels the calls of a function by this classification,
and in exact arithmetic it finds nothing among at most `1 + σ²` calls of the function in a frame, which are 145
by default. In binary64 it labels by the same classification in binary64. -/
theorem anomalous_minority (t : SigmaThreshold ℝ) (ht : 0 ≤ t.sigma) (xs : List (Sample ℝ)) :
    (0 < (t.classifyOwn xs).count .anomalous →
        (t.classifyOwn xs).count .anomalous * (1 + t.sigma ^ 2) < xs.length) ∧
      (∀ m, (∀ x ∈ xs, x.runtime = m) → ∀ l ∈ t.classifyOwn xs, l = .normal) ∧
      ∀ (number : UInt64) (names : FunctionTable) (c : DetectorConfig), c.algorithm = .streaming →
        c.localScope = .frame → 0 ≤ Binary64.value c.sigma → ∀ frames : List (σ × Frame),
        (∀ report ∈ ((start number names c ℝ).takeAll none frames).reports, ∀ f,
          report.labels f = c.exactThreshold.classifyOwn (report.samples f) ∧
          (0 < report.anomalous f → report.anomalous f * (1 + Binary64.value c.sigma ^ 2) <
            (report.calls.filter (·.function = f)).length) ∧
          ((report.calls.filter (·.function = f)).length ≤ 1 + Binary64.value c.sigma ^ 2 → report.Spares f) ∧
          (c.sigma = ({} : DetectorConfig).sigma → (report.calls.filter (·.function = f)).length ≤ 145 →
            report.Spares f)) ∧
        ∀ report ∈ ((start number names c).takeAll none frames).reports, ∀ f,
          report.labels f = c.threshold.classifyOwn (report.samples f) ∧
          ((report.calls.filter (·.function = f)).length ≤ 1 + Binary64.value c.sigma ^ 2 →
            ∀ l ∈ c.exactThreshold.classifyOwn (report.samples f), l = .normal) ∧
          (c.sigma = ({} : DetectorConfig).sigma → (report.calls.filter (·.function = f)).length ≤ 145 →
            ∀ l ∈ c.exactThreshold.classifyOwn (report.samples f), l = .normal) := by
  refine ⟨count_classifyOwn_mul_lt ht xs, fun m => classifyOwn_of_equal ht xs,
    fun number names c hstreaming hscope hsigma frames => ?_⟩
  have hdefault : ∀ n : ℕ, c.sigma = ({} : DetectorConfig).sigma → n ≤ 145 →
      (n : ℚ) ≤ 1 + Binary64.value c.sigma ^ 2 := fun n hc hn => by
    have hvalue : Binary64.value ({} : DetectorConfig).sigma = 12 := by decide +kernel
    rw [hc, hvalue]
    norm_num
    exact_mod_cast hn
  refine ⟨fun report hreport f => ?_, fun report hreport f => ?_⟩
  · obtain ⟨r, r', s, s', frame, hready, rfl, hown, hr⟩ := yields_start none number names c frames report hreport
    have hfew := hready.spares_of_few hr hstreaming (hown hscope) hsigma f
    exact ⟨hready.labels_eq_exact hr hstreaming (hown hscope) f,
      hready.anomalous_mul_lt hr hstreaming (hown hscope) hsigma f, hfew,
      fun hc hlength => hfew (hdefault _ hc hlength)⟩
  · obtain ⟨r, r', s, s', frame, hready, rfl, hown, hr⟩ := yields_start none number names c frames report hreport
    have hfew := hready.normal_of_few hr hsigma (f := f)
    exact ⟨hready.labels_eq_classifyOwn hr hstreaming (hown hscope) f, hfew,
      fun hc hlength => hfew (hdefault _ hc hlength)⟩

/-- One call among ten that exceeds the mean by three deviations, under a limit of two, and four calls in a
frame of a rank with default settings, in exact arithmetic and in binary64. -/
theorem anomalous_minority_one_of_ten :
    let t : SigmaThreshold ℝ := ⟨2, 1⟩
    let xs : List (Sample ℝ) := ⟨0, 100⟩ :: List.replicate 9 ⟨0, 0⟩
    let thread : Thread := ⟨0, 0, 0⟩
    let frame : Frame := { step := 1, calls := [
      ⟨thread, .entry, 1, 0⟩, ⟨thread, .exit, 1, 10⟩, ⟨thread, .entry, 1, 20⟩, ⟨thread, .exit, 1, 30⟩,
      ⟨thread, .entry, 1, 40⟩, ⟨thread, .exit, 1, 50⟩, ⟨thread, .entry, 1, 60⟩, ⟨thread, .exit, 1, 160⟩] }
    let exact := (start 0 Keyed.empty {} ℝ).takeAll (none : Option (Aggregator Unit ℝ)) [((), frame)]
    let p := (start 0 Keyed.empty {}).takeAll (none : Option (Aggregator Unit)) [((), frame)]
    (0 ≤ t.sigma ∧ (t.classifyOwn xs).count .anomalous = 1 ∧ 1 * (1 + t.sigma ^ 2) < xs.length) ∧
      (exact.reports.map (·.calls.length) = [4] ∧ ∀ report ∈ exact.reports, report.Spares 1) ∧
      p.reports.map (·.calls.length) = [4] ∧ ∀ report ∈ p.reports,
        ∀ l ∈ ({} : DetectorConfig).exactThreshold.classifyOwn (report.samples 1), l = .normal := by
  intro t xs thread frame exact p
  have ht : 0 ≤ t.sigma := zero_le_two
  have hruntimes : xs.map Sample.runtime = 100 :: List.replicate 9 0 := by simp [xs]
  have haverage : PowerSums.average (100 :: List.replicate 9 (0 : ℝ)) = 10 := by norm_num [PowerSums.average]
  have hspread : Scalar.sqrt (PowerSums.spread (100 :: List.replicate 9 (0 : ℝ))) = 30 := by
    have hroot : PowerSums.spread (100 :: List.replicate 9 (0 : ℝ)) = 30 ^ 2 := by
      norm_num [PowerSums.spread, haverage]
    rw [hroot]
    exact Real.sqrt_sq (by norm_num)
  have hlimit : t.limit? (.ofSamples (100 :: List.replicate 9 (0 : ℝ))) = some 70 := by
    have hcount : ¬ (PowerSums.ofSamples (100 :: List.replicate 9 (0 : ℝ))).count ≤ t.minSamples := by
      rw [UInt64.not_le, UInt64.lt_iff_toNat_lt, PowerSums.count_ofSamples]
      decide
    rw [limit?, if_neg hcount, PowerSums.deviation?_ofSamples (by simp), hspread,
      PowerSums.mean_ofSamples (by simp), haverage]
    norm_num [t]
  have hcount : (t.classifyOwn xs).count .anomalous = 1 := by
    rw [classifyOwn, hruntimes, classify, hlimit]
    norm_num [xs, label, Scalar.lt, List.count_replicate, show Label.normal ≠ .anomalous by decide]
  obtain ⟨hminority, -, hrank⟩ := anomalous_minority t ht xs
  obtain ⟨hexact, hbinary⟩ := hrank 0 Keyed.empty {} rfl rfl (by decide +kernel) [((), frame)]
  -- which calls there are does not depend on the arithmetic
  have hfewExact : ∀ report ∈ exact.reports, (report.calls.filter (·.function = 1)).length ≤ 145 := by
    decide +kernel
  have hfew : ∀ report ∈ p.reports, (report.calls.filter (·.function = 1)).length ≤ 145 := by decide +kernel
  rw [hcount] at hminority
  refine ⟨⟨ht, hcount, by simpa using hminority one_pos⟩, ⟨by decide +kernel, fun report hreport => ?_⟩,
    by decide +kernel, fun report hreport => ?_⟩
  · exact (hexact report hreport 1).2.2.2 rfl (hfewExact report hreport)
  · exact (hbinary report hreport 1).2.2 rfl (hfew report hreport)

-- In binary64 the mean of equal runtimes may be rounded to a number below them.
example : let x : Sample Float := ⟨Binary64.ofNat 0, Binary64.ofNat 950247477050560256⟩
    ({} : DetectorConfig).threshold.classifyOwn [x, x, x] = [.anomalous, .anomalous, .anomalous] := by
  decide +kernel

end SigmaThreshold

end TraceAnomaly
