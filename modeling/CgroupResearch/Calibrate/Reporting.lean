import CgroupResearch.Calibrate.Accept
import CgroupResearch.Calibrate.RowOrder

/-!
# Every end of the worker is reported

`main` of the calibration worker catches a `CalibrationError` and writes it to the report; another
exception ends it without one. There are such: a timing file with a row that is too short or has an
infinite number of cycles, and a split that may leave no pair above the threshold, where
`bootstrap_threshold` looks for a median behind the last one. Apart from these, whatever the
arguments and the files hold, the worker leaves a report, and the daemon accepts it or rejects it
for what it says (`worker_always_reports`).

* `reported_analyzeRun`: a run is analyzed, or a `CalibrationError` says why not.
-/

namespace CgroupResearch

open scoped List

/-! ## No other exception -/

/-- No exception but a `CalibrationError`. -/
def Reported {α : Type} (x : Except WorkerError α) : Prop := x ≠ .error .uncaught

theorem reported_ok {α : Type} (a : α) : Reported (.ok a) := by
  intro h
  cases h

theorem reported_calibrationError {α : Type} (text : String) :
    Reported (.error (.calibrationError text) : Except WorkerError α) := by
  intro h
  cases h

/-- Steps one after the other. -/
theorem Reported.bind {α β : Type} {x : Except WorkerError α} {f : α → Except WorkerError β}
    (hx : Reported x) (hf : ∀ a, x = .ok a → Reported (f a)) : Reported (x >>= f) := by
  cases x with
  | error e =>
    intro h
    cases h
    exact hx rfl
  | ok a => exact hf a rfl

/-! ## Moderate files -/

/-- The number of cycles in a row, if it has one, is below `2 ^ 50`. -/
def TimingRow.Moderate (row : TimingRow) : Prop :=
  ∀ pair cycles, row.parse = .latency pair cycles → |cycles| ≤ 2 ^ 50

/-- Latencies of moderate rows are moderate. -/
theorem moderate_appendAll {rows : List TimingRow} (h : ∀ row ∈ rows, row.Moderate)
    {es : List ((ℕ × ℕ) × ℤ)} (hes : ParsesTo rows es) :
    (PairLatencies.empty.appendAll es).Moderate := by
  have hcycles : ∀ e ∈ es, |e.2| ≤ 2 ^ 50 := by
    intro e he
    have hmem : ParsedRow.latency e.1 e.2 ∈ rows.map TimingRow.parse := by
      rw [hes]
      exact List.mem_map_of_mem he
    obtain ⟨row, hrow, hparse⟩ := List.mem_map.1 hmem
    exact h row hrow e.1 e.2 hparse
  intro item hitem x hx
  have hvalue : Histogram.valueAt Prod.fst latencies (PairLatencies.empty.appendAll es).items
      item.1 = latencies item :=
    Histogram.valueAt_of_mem (PairLatencies.empty.appendAll es).keys_nodup hitem
  rw [valueAt_appendAll] at hvalue
  have hmem : x ∈ latencies item := Multiset.mem_coe.2 hx
  rw [← hvalue, ← Multiset.sum_coe] at hmem
  obtain ⟨values, hvalues, hxvalues⟩ := Multiset.mem_join.1 hmem
  obtain ⟨entry, hentry, rfl⟩ := List.mem_map.1 (Multiset.mem_coe.1 hvalues)
  obtain ⟨e, he, rfl⟩ := List.mem_map.1 (List.mem_filter.1 hentry).1
  obtain rfl : x = e.2 := List.mem_singleton.1 (Multiset.mem_coe.1 hxvalues)
  exact hcycles e he

/-- The rows are long enough, and hold moderate numbers of cycles and no infinite ones. -/
def TimingCsv.Finite (csv : TimingCsv) : Prop :=
  ∀ row ∈ csv.rows, row.Moderate ∧ row.Complete

/-! ## Loading -/

/-- Complete rows are loaded, or a message names the first bad one. -/
theorem reported_loadRows {path : String} {lineNo : ℕ} {rows : List TimingRow}
    {pairs : PairLatencies} (h : ∀ row ∈ rows, row.Complete) :
    Reported (loadRows path lineNo rows pairs) := by
  induction rows generalizing lineNo pairs with
  | nil => exact reported_ok pairs
  | cons row rows ih =>
    rw [List.forall_mem_cons] at h
    rw [loadRows]
    cases hrow : row.parse with
    | latency pair cycles => exact ih h.2
    | malformed => exact reported_calibrationError _
    | uncaught => exact absurd hrow h.1.parse_ne_uncaught

theorem reported_loadPairLatencies {csv : TimingCsv} (h : csv.Finite) :
    Reported (loadPairLatencies csv) := by
  have hrows : Reported (loadRows csv.path 2 csv.rows .empty) :=
    reported_loadRows fun row hrow => (h row hrow).2
  rw [loadPairLatencies]
  split_ifs
  · exact reported_calibrationError _
  · cases hload : loadRows csv.path 2 csv.rows .empty with
    | error e =>
      intro herror
      cases herror
      exact hrows hload
    | ok pairs =>
      dsimp only
      split_ifs
      · exact reported_calibrationError _
      · exact reported_ok _

/-- The latencies of a file are moderate if its rows are. -/
theorem moderate_of_loadPairLatencies {csv : TimingCsv} {pairs : PairLatencies} (hcsv : csv.Finite)
    (h : loadPairLatencies csv = .ok pairs) : pairs.Moderate := by
  obtain ⟨-, ⟨es, hes, rfl⟩, -⟩ := loadPairLatencies_eq_ok_iff.1 h
  exact moderate_appendAll (fun row hrow => (hcsv row hrow).1) hes

/-- The threshold of moderate latencies is found, or a `CalibrationError` says why not. -/
theorem reported_bootstrapThresholdFloat {pairs : PairLatencies} (h : pairs.Moderate)
    (hlength : pairs.items.length < 2 ^ 63) {minHighPairs : ℤ} (hhigh : 1 ≤ minHighPairs)
    {minHighFraction minLowFraction : Double} (hhighFraction : isFraction minHighFraction = true)
    (hlowFraction : isFraction minLowFraction = true) (minGapCycles : Double) :
    Reported (bootstrapThresholdFloat pairs minHighPairs minHighFraction minLowFraction
      minGapCycles) := by
  obtain ⟨highShare, hhighShare⟩ := exists_ceilShare hlength hhighFraction
  obtain ⟨lowShare, hlowShare⟩ := exists_ceilShare hlength hlowFraction
  have hhalf : ∀ x ∈ sortedMedians pairs, HalfInteger x := by
    intro x hx
    rw [sortedMedians, (List.perm_insertionSort _ _).mem_iff] at hx
    exact halfInteger_of_mem h hx
  -- a median above the threshold is left, so that there is one behind each position
  have hpositions : ∀ i ∈ floatPositions pairs.items.length (max 1 lowShare)
      (max minHighPairs highShare), i + 1 < (sortedMedians pairs).length := by
    intro i hi
    rw [floatPositions, List.mem_range'_1] at hi
    rw [length_sortedMedians]
    omega
  have hloop := floatGapLoop_eq hhalf
    (floatPositions pairs.items.length (max 1 lowShare) (max minHighPairs highShare)) none
  have hfound := gapLoop_eq hpositions
  rw [Option.map_none] at hloop
  rw [bootstrapThresholdFloat, floatMedians_eq h]
  simp only [List.length_map, length_sortedMedians, requiredHighFloat, requiredLowFloat,
    hhighShare, hlowShare, Option.map_some, hloop]
  split_ifs
  · exact reported_calibrationError _
  · cases hbest : gapLoop (sortedMedians pairs)
        (floatPositions pairs.items.length (max 1 lowShare) (max minHighPairs highShare)) none with
    | error e =>
      rw [hfound] at hbest
      cases hbest
    | ok found =>
      cases found with
      | none => exact reported_calibrationError _
      | some best =>
        obtain ⟨hlo, hhi⟩ := halfInteger_edges hhalf hbest
        simp only [Except.toOption, Option.map_some, GapCandidate.toFloat,
          floorDouble_middle hlo hhi]
        split_ifs
        · exact reported_calibrationError _
        · exact reported_ok _

/-! ## The analysis -/

section

variable {σ : Type} {random : PyRandom σ} {args : WorkerArgs}

theorem reported_validateArgs (args : WorkerArgs) : Reported (validateArgs args) := by
  rw [validateArgs]
  split_ifs
  · exact reported_calibrationError _
  · exact reported_calibrationError _
  · exact reported_calibrationError _
  · split
    · exact reported_calibrationError _
    · exact reported_ok _

theorem reported_validateCsvHeader (csv : TimingCsv) : Reported (validateCsvHeader csv) := by
  rw [validateCsvHeader]
  split_ifs
  · exact reported_calibrationError _
  · split
    · exact reported_calibrationError _
    · dsimp only
      split_ifs
      · exact reported_ok _
      · exact reported_calibrationError _

theorem reported_validateHeaders (csvs : List TimingCsv) : Reported (validateHeaders csvs) := by
  induction csvs with
  | nil => exact reported_ok ()
  | cons csv csvs ih => exact (reported_validateCsvHeader csv).bind fun _ _ => ih

/-- Arguments that are let pass have fractions between 0 and 1. -/
theorem isFraction_of_validateArgs (h : validateArgs args = .ok ()) :
    ∀ option ∈ args.fractions, isFraction option.2 = true := by
  rw [validateArgs] at h
  split_ifs at h
  split at h
  · cases h
  · next hnone =>
    intro option hoption
    have hpass := List.find?_eq_none.1 hnone option hoption
    rwa [Bool.not_eq_true, Bool.not_eq_false'] at hpass

/-- A run is analyzed, or a `CalibrationError` says why not. -/
theorem reported_analyzeRun (hvalid : validateArgs args = .ok ()) (hhigh : 1 ≤ args.minHighPairs)
    {runId : ℕ} {csv : TimingCsv} (hcsv : csv.Finite) (hlength : csv.rows.length < 2 ^ 63) :
    Reported (analyzeRun args runId csv) := by
  have hfractions := isFraction_of_validateArgs hvalid
  have hhighFraction := hfractions ("--min-high-fraction", args.minHighFraction)
    (by simp [WorkerArgs.fractions])
  have hlowFraction := hfractions ("--min-low-fraction", args.minLowFraction)
    (by simp [WorkerArgs.fractions])
  rw [analyzeRun]
  refine (reported_loadPairLatencies hcsv).bind fun pairs hpairs => ?_
  have hpairsLength := (length_pairs_le hpairs).trans_lt hlength
  refine (reported_bootstrapThresholdFloat (moderate_of_loadPairLatencies hcsv hpairs)
    hpairsLength hhigh hhighFraction hlowFraction _).bind fun threshold _ => ?_
  rw [consistencyFilter_eq]
  dsimp only
  split_ifs
  · exact reported_calibrationError _
  · exact reported_ok _

/-- All runs are analyzed, or a message names the first that cannot be. -/
theorem reported_analyzeFiles (hvalid : validateArgs args = .ok ()) (hhigh : 1 ≤ args.minHighPairs)
    {csvs : List TimingCsv} (hcsvs : ∀ csv ∈ csvs, csv.Finite)
    (hlength : ∀ csv ∈ csvs, csv.rows.length < 2 ^ 63) {runId : ℕ} :
    Reported (analyzeFiles args runId csvs) := by
  induction csvs generalizing runId with
  | nil => exact reported_ok []
  | cons csv csvs ih =>
    rw [List.forall_mem_cons] at hcsvs hlength
    rw [analyzeFiles]
    refine (reported_analyzeRun hvalid hhigh hcsvs.1 hlength.1).bind fun run _ => ?_
    exact (ih hcsvs.2 hlength.2).bind fun runs _ => reported_ok _

theorem reported_ensureClassCounts (name : String) (records : List LabelledPair)
    (minConflicts : ℤ) : Reported (ensureClassCounts name records minConflicts) := by
  rw [ensureClassCounts]
  split_ifs
  · exact reported_calibrationError _
  · exact reported_calibrationError _
  · exact reported_ok _

theorem reported_mapError {α : Type} (x : Except String α) :
    Reported (x.mapError .calibrationError) := by
  cases x with
  | error text => exact reported_calibrationError text
  | ok a => exact reported_ok a

/-- The splits are analyzed, or a message says what they lack. -/
theorem reported_analyzeSplits (runs : List AnalyzedRun) (splits : RunSplits) :
    Reported (analyzeSplits random args runs splits) := by
  rw [analyzeSplits]
  refine (reported_ensureClassCounts _ _ _).bind fun _ _ => ?_
  refine (reported_ensureClassCounts _ _ _).bind fun _ _ => ?_
  refine (reported_ensureClassCounts _ _ _).bind fun _ _ => ?_
  refine (reported_mapError _).bind fun discovered _ => ?_
  dsimp only
  split_ifs
  · exact reported_calibrationError _
  · exact reported_ok _

/-- The analysis of some files succeeds, or a `CalibrationError` says why not. -/
theorem reported_workerAnalysis (hhigh : 1 ≤ args.minHighPairs) {csvs : List TimingCsv}
    (hne : csvs ≠ []) (hcsvs : ∀ csv ∈ csvs, csv.Finite)
    (hlength : (csvs.map (·.rows.length)).sum < 2 ^ 63) :
    Reported (workerAnalysis random args csvs) := by
  refine (reported_validateArgs args).bind fun _ hvalid => ?_
  refine (reported_validateHeaders csvs).bind fun _ _ => ?_
  have hlengths : ∀ csv ∈ csvs, csv.rows.length < 2 ^ 63 := fun csv hcsv =>
    (List.single_le_sum (by simp) _ (List.mem_map_of_mem hcsv)).trans_lt hlength
  refine (reported_analyzeFiles hvalid hhigh hcsvs hlengths).bind fun runs hruns => ?_
  have hruns_ne : runs.map (·.kept) ≠ [] := by
    intro hnil
    rw [List.map_eq_nil_iff.1 hnil] at hruns
    exact hne (analyzeFiles_eq_nil hruns)
  have hfractions := isFraction_of_validateArgs hvalid
  obtain ⟨splits, hsplits⟩ := exists_splitRuns random.shuffles hruns_ne
    (hfractions ("--tune-fraction", args.tuneFraction) (by simp [WorkerArgs.fractions]))
    (hfractions ("--holdout-fraction", args.holdoutFraction) (by simp [WorkerArgs.fractions]))
    ((length_kept_le hruns).trans_lt hlength) (random.new args.seed)
  rw [hsplits]
  exact reported_analyzeSplits runs splits

variable {sha256 : List Char → Vector UInt8 32} {generatedUnixNs : ℤ} {hardware : Hardware}
  {report : RunsAnalysis → Analysis} {csvs : List TimingCsv}

/-- Whatever the arguments and the files hold, in complete rows with moderate numbers of cycles, the
    worker leaves a report and exits with 0 or 2, and the daemon accepts the report or rejects it
    as a report of a failure; it does not come to an exit code without a report, or to a report
    that it cannot read. And each analysis has such a report, at any time, on any host. -/
theorem worker_always_reports (cfg : CalibrationConfig) (hhigh : 1 ≤ args.minHighPairs)
    (hmany : args.maxMasks ≤ 32) (hne : csvs ≠ []) (hcsvs : ∀ csv ∈ csvs, csv.Finite)
    (hwords : ∀ csv ∈ csvs, ∀ row ∈ csv.rows, row.Words)
    (hlength : (csvs.map (·.rows.length)).sum < 2 ^ 63)
    (hreport : ∀ o, workerAnalysis random args csvs = .ok o → Reports args o (report o))
    (hsize : ∀ file, (workerEnd args sha256 generatedUnixNs hardware report
      (workerAnalysis random args csvs)).report = some file →
        file.length ≤ calibrationJsonMaxBytes) :
    let w := workerEnd args sha256 generatedUnixNs hardware report
      (workerAnalysis random args csvs)
    ((w.exitCode = 0 ∨ w.exitCode = 2) ∧ w.report.isSome = true ∧
      ((calibrationVerdict cfg w.exitCode w.report).1 = .ok ∨
        (calibrationVerdict cfg w.exitCode w.report).1 = .errRejected)) ∧
    ∀ o, workerAnalysis random args csvs = .ok o → ∀ settings, ∃ a, Reports args o a ∧
      a.generatedUnixNs = generatedUnixNs ∧ a.hardware = hardware ∧ a.args = settings := by
  refine ⟨?_, fun o ho settings => exists_reports (analyzeRuns_of_workerAnalysis ho) hlength
    generatedUnixNs hardware settings⟩
  have hreported : Reported (workerAnalysis random args csvs) :=
    reported_workerAnalysis hhigh hne hcsvs hlength
  cases hanalysis : workerAnalysis random args csvs with
  | error e =>
    rw [hanalysis] at hsize hreported
    cases e with
    | uncaught => exact absurd rfl hreported
    | calibrationError text =>
      refine ⟨.inr rfl, rfl, .inr ?_⟩
      obtain ⟨out, hload, -⟩ := load_errorPayload generatedUnixNs hardware (PyStr.ofString text)
        (hsize _ rfl) (cfg.resultPath.getD [])
      rw [workerEnd, calibrationVerdict]
      simp only [hload, ne_eq, OfNat.ofNat_ne_zero, not_false_eq_true, if_true]
  | ok o =>
    rw [hanalysis] at hsize
    cases hsuccess : o.success args with
    | true =>
      obtain ⟨out, hverdict, -⟩ := @verdict_of_success _ random args sha256 generatedUnixNs hardware
        report csvs o cfg hwords hmany hanalysis hsuccess (hreport o hanalysis) (hsize _ rfl)
      refine ⟨.inl ?_, rfl, .inl ?_⟩
      · rw [workerEnd, hsuccess]
        rfl
      · rw [hverdict]
    | false =>
      have hw : workerEnd args sha256 generatedUnixNs hardware report (.ok o) =
          ⟨2, some (atomicWriteJson ((report o).result sha256))⟩ := by
        rw [workerEnd, hsuccess]
        rfl
      have hload : (calibrationLoadResult (cfg.resultPath.getD [])
          (some (atomicWriteJson ((report o).result sha256)))).1 = .errRejected :=
        calibrationLoadResult_failed sha256 ((hreport o hanalysis).success.trans hsuccess)
          (hsize _ rfl)
      rw [hw]
      refine ⟨.inr rfl, rfl, .inr ?_⟩
      rw [calibrationVerdict]
      simp only [hload, ne_eq, OfNat.ofNat_ne_zero, not_false_eq_true, if_true]

end

/-- The two files hold complete rows with moderate numbers of cycles. -/
theorem finite_two : ∀ csv ∈ [firstRun, lastRun], csv.Finite := by
  have hrow : ∀ (a1 a2 : ℕ) (cycles : ℚ), |⌊cycles⌋| ≤ 2 ^ 50 →
      (timingRow a1 a2 cycles).Moderate ∧ (timingRow a1 a2 cycles).Complete := by
    intro a1 a2 cycles hcycles
    refine ⟨fun pair n hparse => ?_, nofun, nofun, nofun, nofun⟩
    cases hparse
    exact hcycles
  simp only [TimingCsv.Finite, firstRun, lastRun, timingCsv, List.forall_mem_cons,
    List.not_mem_nil, false_implies, implies_true, and_true]
  exact ⟨⟨hrow _ _ _ (by norm_num), hrow _ _ _ (by norm_num), hrow _ _ _ (by norm_num),
    hrow _ _ _ (by norm_num)⟩, hrow _ _ _ (by norm_num), hrow _ _ _ (by norm_num)⟩

/-- Two runs leave a report. -/
theorem worker_always_reports_two :
    let w := workerEnd smallArgs (fun _ => sha256OneMask) 0 twoRunsReport.hardware
      (fun _ => twoRunsReport) (workerAnalysis unitRandom smallArgs [firstRun, lastRun])
    ((w.exitCode = 0 ∨ w.exitCode = 2) ∧ w.report.isSome = true ∧
      ((calibrationVerdict calibrationExample w.exitCode w.report).1 = .ok ∨
        (calibrationVerdict calibrationExample w.exitCode w.report).1 = .errRejected)) ∧
    ∀ o, workerAnalysis unitRandom smallArgs [firstRun, lastRun] = .ok o → ∀ settings, ∃ a,
      Reports smallArgs o a ∧ a.generatedUnixNs = 0 ∧ a.hardware = twoRunsReport.hardware ∧
        a.args = settings := by
  have hsize : ∀ file, (workerEnd smallArgs (fun _ => sha256OneMask) 0 twoRunsReport.hardware
      (fun _ => twoRunsReport) (workerAnalysis unitRandom smallArgs [firstRun, lastRun])).report =
        some file → file.length ≤ calibrationJsonMaxBytes := by
    intro file hfile
    obtain ⟨o, ho⟩ := exists_workerAnalysis_two
    rw [ho] at hfile
    rw [← Option.some.inj hfile]
    exact size_twoRunsReport
  exact @worker_always_reports Unit unitRandom smallArgs (fun _ => sha256OneMask) 0
    twoRunsReport.hardware (fun _ => twoRunsReport) [firstRun, lastRun] calibrationExample
    (by decide) (by decide) (List.cons_ne_nil _ _) finite_two words_two (by decide)
    (fun o ho => (workerAnalysis_two ho).2) hsize

end CgroupResearch
