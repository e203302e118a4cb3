import CgroupResearch.Calibrate.Analyze
import CgroupResearch.Calibrate.Report
import CgroupResearch.Lib.PrintedDouble

/-!
# The report of an analysis

The report holds what the analysis has found (`Reports`), with its `double`s as the decimals that
`float.__repr__` writes for them. A rate is computed in a few operations from counts below
`2 ^ 63`, each of which rounds: the decimal is within a factor of two of the exact rate
(`computes_countRatio`, `computes_f1Score`), which is what reading it back relies on. So each
analysis of fewer than `2 ^ 63` rows has a report (`exists_reports`).
-/

namespace CgroupResearch

open CNumber Double

/-! ## The rates -/

/-- A positive rate, of fewer than `2 ^ 64`. -/
structure IsRate (q : ℚ) : Prop where
  lower : (2 : ℚ) ^ (-64 : ℤ) ≤ q
  upper : q ≤ 1

theorem isRate_of_le {a b : ℕ} (ha : a ≠ 0) (hab : a ≤ b) (hb : b < 2 ^ 64) :
    IsRate (a / b : ℚ) := by
  have hapos : (1 : ℚ) ≤ a := by exact_mod_cast Nat.one_le_iff_ne_zero.2 ha
  have hbpos : (0 : ℚ) < b := by exact_mod_cast (Nat.pos_of_ne_zero ha).trans_le hab
  have hble : (b : ℚ) ≤ 2 ^ 64 := by exact_mod_cast hb.le
  constructor
  · rw [le_div_iff₀ hbpos]
    calc (2 : ℚ) ^ (-64 : ℤ) * b ≤ 2 ^ (-64 : ℤ) * 2 ^ 64 := by gcongr
      _ = 1 := by norm_num
      _ ≤ a := hapos
  · rw [div_le_one hbpos]
    exact_mod_cast hab

section

variable {p q : ℚ}

theorem IsRate.pos (h : IsRate q) : 0 < q := lt_of_lt_of_le (by positivity) h.lower

theorem IsRate.middling (h : IsRate q) : Middling q where
  lower := (zpow_le_zpow_right₀ (by norm_num) (by norm_num)).trans h.lower
  upper := h.upper.trans (by norm_num)

theorem IsRate.middling_add (hp : IsRate p) (hq : IsRate q) : Middling (p + q) where
  lower := hp.middling.lower.trans (le_add_of_nonneg_right hq.pos.le)
  upper := by linarith [hp.upper, hq.upper]

theorem IsRate.middling_two_mul (hp : IsRate p) : Middling (2 * p) := by
  rw [two_mul]
  exact hp.middling_add hp

/-- No step of the F1 score leaves the normal numbers. -/
theorem IsRate.middling_two_mul_mul (hp : IsRate p) (hq : IsRate q) : Middling (2 * p * q) := by
  have hp0 := hp.pos
  have hq0 := hq.pos
  constructor
  · calc (2 : ℚ) ^ (-200 : ℤ) ≤ 2 * 2 ^ (-64 : ℤ) * 2 ^ (-64 : ℤ) := by norm_num
      _ ≤ 2 * p * q := by gcongr <;> first | exact hp.lower | exact hq.lower
  · calc 2 * p * q ≤ 2 * 1 * 1 := by gcongr <;> first | exact hp.upper | exact hq.upper
      _ ≤ 2 ^ 200 := by norm_num

end

theorem countRatio_zero (b : ℕ) : countRatio 0 b = .ofRat 0 := by
  rw [countRatio]
  split_ifs
  · rfl
  · rw [Nat.cast_zero, zero_div, Double.round, abs_zero, toDouble_eq_fin (n := 0) (by norm_num)
      (by norm_num), roundMagnitude_zero]
    rfl

/-- A rate is rounded once. -/
theorem approx_countRatio {a b : ℕ} (ha : a ≠ 0) (hab : a ≤ b) (hb : b < 2 ^ 64) :
    Approx roundingFactor (countRatio a b) (a / b) := by
  rw [countRatio, if_neg (by omega)]
  exact approx_round (isRate_of_le ha hab hb).middling

/-- A printed rate computes the exact one. -/
theorem computes_countRatio {x : PyFloat} {a b : ℕ} (h : x.Prints (countRatio a b)) (hab : a ≤ b)
    (hb : b < 2 ^ 64) : x.Computes (a / b) := by
  rcases eq_or_ne a 0 with rfl | ha
  · rw [countRatio_zero] at h
    rw [Nat.cast_zero, zero_div]
    exact h.computes_zero
  · exact h.computes (approx_countRatio ha hab hb) (by norm_num [roundingFactor])
      (isRate_of_le ha hab hb).middling

/-- The F1 score, as `evaluate` computes it from the precision and the recall. -/
def f1Score (precision «recall» : Double) : Double :=
  let sum := precision.add «recall»
  if sum.eq (.ofRat 0) then .ofRat 0
  else (((Double.ofRat 2).mul precision).mul «recall»).div sum

theorem f1Score_zero : f1Score (.ofRat 0) (.ofRat 0) = .ofRat 0 := by
  have hsum : (Double.ofRat 0).add (.ofRat 0) = .ofRat 0 := by norm_num [ofRat, add, value]
  rw [f1Score, hsum]
  exact if_pos (by decide)

/-- The F1 score is rounded from a number near the harmonic mean of the exact rates. -/
theorem f1Score_eq {tp fp fn : ℕ} (hne : tp ≠ 0) (hlt : tp + fp + fn < 2 ^ 63) :
    ∃ v, f1Score (countRatio tp (tp + fp)) (countRatio tp (tp + fn)) = toDouble false v ∧
      Within (roundingFactor ^ 6) v ((2 * tp : ℕ) / (2 * tp + fp + fn : ℕ)) := by
  have hpos : (0 : ℚ) < tp := by exact_mod_cast Nat.pos_of_ne_zero hne
  have hp := approx_countRatio hne (Nat.le_add_right tp fp) (by omega)
  have hr := approx_countRatio hne (Nat.le_add_right tp fn) (by omega)
  have hprate := isRate_of_le hne (Nat.le_add_right tp fp) (by omega)
  have hrrate := isRate_of_le hne (Nat.le_add_right tp fn) (by omega)
  have hmean : ((2 : ℚ) * (tp / (tp + fp : ℕ)) * (tp / (tp + fn : ℕ))) /
      (tp / (tp + fp : ℕ) + tp / (tp + fn : ℕ)) =
        (2 * tp : ℕ) / (2 * tp + fp + fn : ℕ) := by
    push_cast
    field_simp
    ring
  have htwo := (approx_ofRat (q := 2) (by norm_num)).mul hp (by norm_num [roundingFactor])
    hprate.middling_two_mul
  obtain ⟨v, hnum, hv⟩ := htwo.mul hr (by norm_num [roundingFactor])
    (hprate.middling_two_mul_mul hrrate)
  obtain ⟨w, hsum, hw⟩ := hp.add hr (by norm_num [roundingFactor]) (hprate.middling_add hrrate)
  have hwpos := hw.left_pos
  have hne_zero : Double.eq (.fin false w) (.ofRat 0) = false := by
    simp [Double.eq, le, ofRat, value, hwpos]
  refine ⟨v / w, ?_, ?_⟩
  · rw [f1Score, hnum, hsum]
    simp only [hne_zero, Bool.false_eq_true, if_false]
    rw [Double.div, if_neg hwpos.ne', Bool.xor_false]
  · rw [← hmean]
    exact (hv.div hw).mono (by ring_nf; exact le_rfl)

/-- A printed F1 score computes the exact one. -/
theorem computes_f1Score {x : PyFloat} {tp fp fn : ℕ} (hlt : tp + fp + fn < 2 ^ 63)
    (h : x.Prints (f1Score (countRatio tp (tp + fp)) (countRatio tp (tp + fn)))) :
    x.Computes ((2 * tp : ℕ) / (2 * tp + fp + fn : ℕ)) := by
  rcases eq_or_ne tp 0 with rfl | hne
  · rw [countRatio_zero, countRatio_zero, f1Score_zero] at h
    rw [Nat.mul_zero, Nat.cast_zero, zero_div]
    exact h.computes_zero
  · obtain ⟨v, hv, hwithin⟩ := f1Score_eq hne hlt
    have hrate := (isRate_of_le (a := 2 * tp) (b := 2 * tp + fp + fn) (by omega) (by omega)
      (by omega)).middling
    rw [hv] at h
    exact h.computes (approx_toDouble hwithin (by norm_num [roundingFactor]) hrate)
      (by norm_num [roundingFactor]) hrate

/-- Every F1 score can be printed. -/
theorem exists_prints_f1Score {tp fp fn : ℕ} (hlt : tp + fp + fn < 2 ^ 63) :
    ∃ x : PyFloat, x.Prints (f1Score (countRatio tp (tp + fp)) (countRatio tp (tp + fn))) := by
  rcases eq_or_ne tp 0 with rfl | hne
  · rw [countRatio_zero, countRatio_zero, f1Score_zero]
    exact ⟨_, .zero false⟩
  · obtain ⟨v, hv, hwithin⟩ := f1Score_eq hne hlt
    rw [hv]
    exact PyFloat.exists_prints false hwithin.left_pos.le

/-! ## The parts of a report -/

/-- The metrics of a report are those that `evaluate` has returned, with the rates printed. -/
structure Metrics.Prints (m : Metrics) (t : TuneMetrics) : Prop where
  tp : m.tp = t.tp
  tn : m.tn = t.tn
  fp : m.fp = t.fp
  fn : m.fn = t.fn
  accuracy : m.accuracy.Prints t.accuracy
  precision : m.precision.Prints t.precision
  «recall» : m.recall.Prints t.recall
  f1 : m.f1.Prints t.f1

/-- The threshold of a report, with its edges and its gap printed. -/
structure ThresholdInfo.Prints (t : ThresholdInfo) (f : FloatThreshold) : Prop where
  thresholdCycles : t.thresholdCycles = f.thresholdCycles
  lowEdgeCycles : t.lowEdgeCycles.Prints f.lowEdgeCycles
  highEdgeCycles : t.highEdgeCycles.Prints f.highEdgeCycles
  gapCycles : t.gapCycles.Prints f.gapCycles
  totalPairs : t.totalPairs = f.totalPairs
  lowPairs : t.lowPairs = f.lowPairs
  highPairs : t.highPairs = f.highPairs

/-- The summary of a run. -/
structure RunSummary.Prints (s : RunSummary) (r : AnalyzedRun) : Prop where
  csv : s.csv = PyStr.ofString r.csv
  threshold : s.threshold.Prints r.threshold
  rawUniquePairs : s.rawUniquePairs = r.rawUniquePairs
  consistentPairs : s.consistentPairs = r.kept.length
  droppedInconsistentPairs : s.droppedInconsistentPairs = r.dropped
  consistentConflicts : s.consistentConflicts = conflictCount r.kept

/-- The diagnostics of a report. -/
structure Gf2Diagnostics.Prints (g : Gf2Diagnostics) (d : DiscoverDiagnostics) : Prop where
  activeBitPositions : g.activeBitPositions = d.activeBitPositions
  conflictRecords : g.conflictRecords = d.conflictRecords
  subsampleSize : g.subsampleSize = d.subsampleSize
  rounds : g.rounds = d.rounds
  successfulRounds : g.successfulRounds = d.successfulRounds
  successfulRoundRate : g.successfulRoundRate.Prints d.successfulRoundRate
  nullityHistogram : g.nullityHistogram = d.nullityHistogram
  rawCandidateCount : g.rawCandidateCount = d.rawCandidateCount
  filteredCandidateCount : g.filteredCandidateCount = d.filteredCandidateCount

/-- An entry of the history. -/
structure SelectionStep.Prints (s : SelectionStep) (t : TuneStep) : Prop where
  mask : formatMask s.mask = t.mask
  frequency : (s.frequency : ℤ) = t.frequency
  tuneMetrics : s.tuneMetrics.Prints t.tuneMetrics

/-- The sizes of the splits. -/
def RunSplits.sizes (s : RunSplits) : Splits where
  fitPairs := s.fit.length
  fitConflicts := conflictCount s.fit
  tunePairs := s.tune.length
  tuneConflicts := conflictCount s.tune
  holdoutPairs := s.holdout.length
  holdoutConflicts := conflictCount s.holdout

/-- The report of an analysis. The time, the host and the settings in it are arbitrary. -/
structure Reports (args : WorkerArgs) (o : RunsAnalysis) (a : Analysis) : Prop where
  success : a.success = o.success args
  runs : List.Forall₂ RunSummary.Prints a.runs o.runs
  splits : a.splits = o.splits.sizes
  gf2Diag : a.gf2Diag.Prints o.discovered.diagnostics
  candidates : a.candidates = o.discovered.candidates.length
  history : List.Forall₂ SelectionStep.Prints a.history o.history
  masks : a.selectedMasks = o.selectedMasks
  fitMetrics : a.fitMetrics.Prints o.fitMetrics
  tuneMetrics : a.tuneMetrics.Prints o.tuneMetrics
  holdoutMetrics : a.holdoutMetrics.Prints o.holdoutMetrics

/-! ## Metrics -/

/-- Each record is counted once. -/
theorem evaluate_total (records : List PairRecord) (masks : List ℕ) :
    (evaluate records masks).tp + (evaluate records masks).tn + (evaluate records masks).fp +
      (evaluate records masks).fn = records.length := by
  induction records with
  | nil => rfl
  | cons r records ih =>
    rw [List.length_cons, ← ih]
    simp only [evaluate, List.countP_cons]
    cases predictSameBank r.diff masks <;> cases r.labelConflict <;> simp <;> omega

theorem exists_prints_round (q : ℚ) : ∃ x : PyFloat, x.Prints (.round q) :=
  PyFloat.exists_prints _ (abs_nonneg q)

/-- Every rate can be printed. -/
theorem exists_prints_countRatio (a b : ℕ) : ∃ x : PyFloat, x.Prints (countRatio a b) := by
  rw [countRatio]
  split_ifs
  · exact ⟨_, .zero false⟩
  · exact exists_prints_round _

/-- The metrics of fewer than `2 ^ 63` records can be printed, and meet what is asked of the
    metrics of a report. -/
theorem exists_metrics {records : List PairRecord} (masks : List ℕ)
    (hlt : records.length < 2 ^ 63) : ∃ m : Metrics, m.Prints (evaluate records masks) := by
  have htotal := evaluate_total records masks
  set t := evaluate records masks with ht
  have haccuracy : t.accuracy = countRatio (t.tp + t.tn) (t.tp + t.tn + t.fp + t.fn) := rfl
  have hprecision : t.precision = countRatio t.tp (t.tp + t.fp) := rfl
  have hrecall : t.recall = countRatio t.tp (t.tp + t.fn) := rfl
  have hf1 : t.f1 = f1Score t.precision t.recall := rfl
  obtain ⟨accuracy, hacc⟩ := exists_prints_countRatio (t.tp + t.tn) (t.tp + t.tn + t.fp + t.fn)
  obtain ⟨precision, hprec⟩ := exists_prints_countRatio t.tp (t.tp + t.fp)
  obtain ⟨«recall», hrec⟩ := exists_prints_countRatio t.tp (t.tp + t.fn)
  obtain ⟨f1, hscore⟩ := @exists_prints_f1Score t.tp t.fp t.fn (by omega)
  refine ⟨⟨t.tp, t.tn, t.fp, t.fn, accuracy, precision, «recall», f1, by omega,
    computes_countRatio hacc (by omega) (by omega), computes_countRatio hprec (by omega) (by omega),
    computes_countRatio hrec (by omega) (by omega), computes_f1Score (by omega) hscore⟩,
    rfl, rfl, rfl, rfl, ?_, ?_, ?_, ?_⟩
  · rwa [haccuracy]
  · rwa [hprecision]
  · rwa [hrecall]
  · rwa [hf1, hprecision, hrecall]

/-! ## Runs -/

/-- A sum is printed, whatever it is of. -/
theorem exists_prints_add (x y : Double) : ∃ z : PyFloat, z.Prints (x.add y) := by
  cases x with
  | nan => exact ⟨_, .nan⟩
  | inf s =>
    cases y with
    | nan => exact ⟨_, .nan⟩
    | inf s' =>
      rw [Double.add]
      split_ifs
      · exact ⟨_, .inf s⟩
      · exact ⟨_, .nan⟩
    | fin s' b => exact ⟨_, .inf s⟩
  | fin s a =>
    cases y with
    | nan => exact ⟨_, .nan⟩
    | inf s' => exact ⟨_, .inf s'⟩
    | fin s' b =>
      rw [Double.add]
      split_ifs
      · exact ⟨_, .zero _⟩
      · exact exists_prints_round _

/-- The gap that is found is between two of the medians. -/
theorem floatGapLoop_mem {medians : List Double} {positions : List ℕ} {best : Option FloatGap}
    {b : FloatGap}
    (hbest : ∀ b ∈ best, b.lo ∈ medians ∧ b.hi ∈ medians ∧ b.gap = b.hi.sub b.lo)
    (h : floatGapLoop medians positions best = some (some b)) :
    b.lo ∈ medians ∧ b.hi ∈ medians ∧ b.gap = b.hi.sub b.lo := by
  induction positions generalizing best with
  | nil => exact hbest b (Option.some.inj h)
  | cons i rest ih =>
    rw [floatGapLoop] at h
    cases hlo : medians[i]? with
    | none =>
      rw [hlo] at h
      cases h
    | some lo =>
      cases hhi : medians[i + 1]? with
      | none =>
        rw [hlo, hhi] at h
        cases h
      | some hi =>
        simp only [hlo, hhi] at h
        split_ifs at h
        · exact ih hbest h
        · refine ih (fun c hc => ?_) h
          cases hc
          exact ⟨List.mem_of_getElem? hlo, List.mem_of_getElem? hhi, rfl⟩
        · exact ih hbest h

/-- Every threshold that is found can be printed. -/
theorem exists_thresholdInfo {pairs : PairLatencies} {minHighPairs : ℤ}
    {minHighFraction minLowFraction minGapCycles : Double} {f : FloatThreshold}
    (h : bootstrapThresholdFloat pairs minHighPairs minHighFraction minLowFraction minGapCycles =
      .ok f) : ∃ t : ThresholdInfo, t.Prints f := by
  have hmedians : ∀ x ∈ floatMedians pairs, ∃ y : PyFloat, y.Prints x := by
    intro x hx
    rw [floatMedians, (List.perm_insertionSort _ _).mem_iff] at hx
    obtain ⟨item, -, rfl⟩ := List.mem_map.1 hx
    exact exists_prints_round _
  rw [bootstrapThresholdFloat] at h
  split at h
  · split_ifs at h
    split at h
    · cases h
    · cases h
    next best hbest =>
    split_ifs at h
    split at h
    · cases h
    cases h
    obtain ⟨hlo, hhi, hgap⟩ := floatGapLoop_mem (by simp) hbest
    obtain ⟨lo, hlo⟩ := hmedians _ hlo
    obtain ⟨hi, hhi⟩ := hmedians _ hhi
    obtain ⟨gap, hprints⟩ := exists_prints_add best.hi best.lo.neg
    exact ⟨⟨_, lo, hi, gap, _, _, _⟩, rfl, hlo, hhi, by rwa [hgap], rfl, rfl, rfl⟩
  · cases h

/-- For each of some values there is one in a relation to it. -/
theorem exists_forall₂ {α β : Type} {R : α → β → Prop} {l : List β} (h : ∀ b ∈ l, ∃ a, R a b) :
    ∃ k, List.Forall₂ R k l := by
  induction l with
  | nil => exact ⟨[], .nil⟩
  | cons b l ih =>
    rw [List.forall_mem_cons] at h
    obtain ⟨a, ha⟩ := h.1
    obtain ⟨k, hk⟩ := ih h.2
    exact ⟨a :: k, hk.cons ha⟩

section

variable {args : WorkerArgs}

/-- Every run that is analyzed can be printed. -/
theorem exists_runSummary {runId : ℕ} {csv : TimingCsv} {run : AnalyzedRun}
    (h : analyzeRun args runId csv = .ok run) : ∃ s : RunSummary, s.Prints run := by
  obtain ⟨pairs, threshold, -, hthreshold, -, rfl⟩ := analyzeRun_eq_ok_iff.1 h
  obtain ⟨info, hinfo⟩ := exists_thresholdInfo hthreshold
  exact ⟨⟨_, info, _, _, _, _⟩, rfl, hinfo, rfl, rfl, rfl, rfl⟩

theorem exists_runSummaries {runId : ℕ} {csvs : List TimingCsv} {runs : List AnalyzedRun}
    (h : analyzeFiles args runId csvs = .ok runs) :
    ∃ summaries, List.Forall₂ RunSummary.Prints summaries runs := by
  refine exists_forall₂ fun run hrun => ?_
  induction csvs generalizing runId runs with
  | nil =>
    cases h
    cases hrun
  | cons csv csvs ih =>
    obtain ⟨first, hfirst, h⟩ := Except.bind_eq_ok.1 h
    obtain ⟨rest, hrest, h⟩ := Except.bind_eq_ok.1 h
    cases h
    rcases List.mem_cons.1 hrun with rfl | hmem
    · exact exists_runSummary hfirst
    · exact ih hrest hmem

/-! ### The number of the kept pairs -/

theorem length_accumulate_le (e : (ℕ × ℕ) × List ℤ) (items : List ((ℕ × ℕ) × List ℤ)) :
    (Histogram.accumulate Prod.fst mergeLatencies e items).length ≤ items.length + 1 := by
  induction items with
  | nil => rfl
  | cons x items ih =>
    rw [Histogram.accumulate]
    split_ifs
    · exact Nat.le_succ _
    · exact Nat.succ_le_succ ih

/-- There are no more pairs than rows. -/
theorem length_pairs_le {csv : TimingCsv} {pairs : PairLatencies}
    (h : loadPairLatencies csv = .ok pairs) : pairs.items.length ≤ csv.rows.length := by
  obtain ⟨-, ⟨es, hes, rfl⟩, -⟩ := loadPairLatencies_eq_ok_iff.1 h
  have hlength : es.length = csv.rows.length := by
    have hmap := congrArg List.length hes
    rwa [List.length_map, List.length_map, eq_comm] at hmap
  have hfold : ∀ (es : List ((ℕ × ℕ) × ℤ)) (pairs : PairLatencies),
      (pairs.appendAll es).items.length ≤ pairs.items.length + es.length := by
    intro es
    induction es with
    | nil => exact fun _ => le_rfl
    | cons e es ih =>
      intro pairs
      have hstep : (pairs.append e.1 e.2).items.length ≤ pairs.items.length + 1 :=
        length_accumulate_le _ _
      have hrest := ih (pairs.append e.1 e.2)
      rw [List.length_cons]
      exact hrest.trans (by omega)
  have hall := hfold es .empty
  rw [hlength] at hall
  exact hall.trans (le_of_eq (zero_add _))

/-- There are no more kept pairs than rows. -/
theorem length_kept_le {csvs : List TimingCsv} {runId : ℕ} {runs : List AnalyzedRun}
    (h : analyzeFiles args runId csvs = .ok runs) :
    (runs.map (·.kept)).flatten.length ≤ (csvs.map (·.rows.length)).sum := by
  induction csvs generalizing runId runs with
  | nil =>
    cases h
    exact le_rfl
  | cons csv csvs ih =>
    obtain ⟨run, hrun, h⟩ := Except.bind_eq_ok.1 h
    obtain ⟨rest, hrest, h⟩ := Except.bind_eq_ok.1 h
    cases h
    obtain ⟨pairs, threshold, hpairs, -, -, rfl⟩ := analyzeRun_eq_ok_iff.1 hrun
    rw [List.map_cons, List.flatten_cons, List.length_append, List.map_cons, List.sum_cons]
    refine Nat.add_le_add ?_ (ih hrest)
    rw [List.length_map]
    exact (List.length_filter_le _ _).trans (length_pairs_le hpairs)

end

/-! ## The history -/

section

variable {candidateCounts : List (ℕ × ℤ)} {tuneRecords : List PairRecord} {minImprovement : Double}

/-- The metrics of the best candidate are those of `evaluate`. -/
theorem bestLoop_metrics {selected remaining : List ℕ} {best : Option BestMask} {b : BestMask}
    (hbest : ∀ b ∈ best, b.metrics = evaluate tuneRecords (selected ++ [b.mask]))
    (h : bestLoop candidateCounts tuneRecords selected remaining best = some b) :
    b.metrics = evaluate tuneRecords (selected ++ [b.mask]) := by
  induction remaining generalizing best with
  | nil => exact hbest b h
  | cons mask remaining ih =>
    rw [bestLoop] at h
    dsimp only at h
    split_ifs at h
    · exact ih hbest h
    · refine ih (fun c hc => ?_) h
      cases hc
      rfl
    · exact ih hbest h

/-- What can be in the history: the frequency of a mask, and metrics of `evaluate`. -/
def FromEvaluate (candidateCounts : List (ℕ × ℤ)) (tuneRecords : List PairRecord) (t : TuneStep) :
    Prop :=
  ∃ mask masks, t.mask = formatMask mask ∧ t.frequency = countOf candidateCounts mask ∧
    t.tuneMetrics = evaluate tuneRecords masks

theorem selectLoop_history (n : ℕ) {selected remaining : List ℕ} {current : TuneMetrics}
    {history : List TuneStep}
    (h : ∀ t ∈ history, FromEvaluate candidateCounts tuneRecords t) :
    ∀ t ∈ (selectLoop candidateCounts tuneRecords minImprovement n selected remaining current
      history).2, FromEvaluate candidateCounts tuneRecords t := by
  induction n generalizing selected remaining current history with
  | zero => exact h
  | succ n ih =>
    rw [selectLoop]
    split
    · exact h
    next best hbest =>
    split
    · exact h
    · refine ih fun t ht => ?_
      rcases List.mem_append.1 ht with ht | ht
      · exact h t ht
      · rw [List.mem_singleton.1 ht]
        exact ⟨best.mask, _, rfl, rfl, bestLoop_metrics (by simp) hbest⟩

/-- The frequencies are counts. -/
theorem countOf_nonneg (counts : PyCounter) (mask : ℕ) :
    0 ≤ countOf (counts.map fun x => (x.1, (x.2 : ℤ))) mask := by
  rw [countOf]
  cases hlookup : (counts.map fun x => (x.1, (x.2 : ℤ))).lookup mask with
  | none => exact le_rfl
  | some c =>
    obtain ⟨_, _, hmem, -⟩ := List.lookup_eq_some_iff.1 hlookup
    have hc : (mask, c) ∈ counts.map fun x => (x.1, (x.2 : ℤ)) := by
      rw [hmem]
      exact List.mem_append_right _ List.mem_cons_self
    obtain ⟨x, -, hx⟩ := List.mem_map.1 hc
    cases hx
    exact Int.natCast_nonneg _

end

/-- Every turn of the selection can be printed. -/
theorem exists_history {discovered : Discovered} {tuneRecords : List PairRecord} {maxMasks : ℤ}
    {minImprovement : Double} {selected : List ℕ} {history : List TuneStep}
    (hlt : tuneRecords.length < 2 ^ 63)
    (h : selectMasksGreedy discovered.candidates
      (discovered.counts.map fun x => (x.1, (x.2 : ℤ))) tuneRecords maxMasks minImprovement =
        (selected, history)) :
    ∃ steps, List.Forall₂ SelectionStep.Prints steps history := by
  refine exists_forall₂ fun t ht => ?_
  rw [selectMasksGreedy] at h
  have hfrom := @selectLoop_history (discovered.counts.map fun x => (x.1, (x.2 : ℤ))) tuneRecords
    minImprovement maxMasks.toNat [] discovered.candidates (evaluate tuneRecords []) []
    (List.forall_mem_nil _)
  rw [h] at hfrom
  obtain ⟨mask, masks, hmask, hfrequency, hmetrics⟩ := hfrom t ht
  obtain ⟨m, hm⟩ := exists_metrics masks hlt
  obtain ⟨n, hn⟩ := Int.eq_ofNat_of_zero_le (countOf_nonneg discovered.counts mask)
  exact ⟨⟨mask, n, m⟩, hmask.symm, by rw [hfrequency, hn], by rwa [hmetrics]⟩

/-! ## The report -/

section

variable {σ : Type} {random : PyRandom σ} {args : WorkerArgs} {o : RunsAnalysis}
  {csvs : List TimingCsv}

/-- The splits have no more records than the files have rows. -/
theorem length_splits_le (h : analyzeRuns random args csvs = .ok o) :
    o.splits.fit.length + o.splits.tune.length + o.splits.holdout.length ≤
      (csvs.map (·.rows.length)).sum := by
  obtain ⟨hfiles, hsplits, -⟩ := analyzeRuns_eq_ok h
  have hlength := (splitRuns_perm hsplits).length_eq
  rw [List.length_append, List.length_append] at hlength
  rw [hlength]
  exact length_kept_le hfiles

/-- What is said about the candidates can be printed. -/
theorem exists_gf2Diagnostics {fitRecords : List PairRecord} {p : DiscoverParams} {s : σ}
    {rng : Sampler σ} {d : Discovered} (h : discoverCandidates rng fitRecords p s = .ok d) :
    ∃ g : Gf2Diagnostics, g.Prints d.diagnostics := by
  have hrate : ∃ x : PyFloat, x.Prints d.diagnostics.successfulRoundRate := by
    rw [discoverCandidates] at h
    dsimp only at h
    split_ifs at h
    cases h
    exact exists_prints_countRatio _ _
  obtain ⟨rate, hrate⟩ := hrate
  exact ⟨⟨_, _, _, _, _, rate, _, _, _⟩, rfl, rfl, rfl, rfl, rfl, hrate, rfl, rfl, rfl⟩

/-- Each analysis of fewer than `2 ^ 63` rows has a report, with whatever time, host and settings
    in it. -/
theorem exists_reports (h : analyzeRuns random args csvs = .ok o)
    (hlt : (csvs.map (·.rows.length)).sum < 2 ^ 63) (generatedUnixNs : ℤ) (hardware : Hardware)
    (settings : Settings) :
    ∃ a, Reports args o a ∧ a.generatedUnixNs = generatedUnixNs ∧ a.hardware = hardware ∧
      a.args = settings := by
  have hlength := length_splits_le h
  obtain ⟨hfiles, -, hchosen⟩ := analyzeRuns_eq_ok h
  obtain ⟨runs, hruns⟩ := exists_runSummaries hfiles
  obtain ⟨gf2Diag, hgf2⟩ := exists_gf2Diagnostics hchosen.discovered
  obtain ⟨history, hhistory⟩ :=
    exists_history (by rw [List.length_map]; omega) hchosen.selected
  obtain ⟨fit, hfit⟩ := @exists_metrics (o.splits.fit.map (·.toRecord)) o.selectedMasks
    (by rw [List.length_map]; omega)
  obtain ⟨tune, htune⟩ := @exists_metrics (o.splits.tune.map (·.toRecord)) o.selectedMasks
    (by rw [List.length_map]; omega)
  obtain ⟨holdout, hholdout⟩ := @exists_metrics (o.splits.holdout.map (·.toRecord)) o.selectedMasks
    (by rw [List.length_map]; omega)
  rw [← hchosen.fitMetrics] at hfit
  rw [← hchosen.tuneMetrics] at htune
  rw [← hchosen.holdoutMetrics] at hholdout
  exact ⟨⟨o.success args, generatedUnixNs, hardware, runs, o.splits.sizes, gf2Diag,
    o.discovered.candidates.length, history, o.selectedMasks, fit, tune, holdout, settings⟩,
    ⟨rfl, hruns, rfl, hgf2, rfl, hhistory, rfl, hfit, htune, hholdout⟩, rfl, rfl, rfl⟩

end

end CgroupResearch
