import CgroupResearch.Calibrate.Discover
import CgroupResearch.Calibrate.FloatThreshold
import CgroupResearch.Lib.Except

/-!
# The analysis of the timing runs

`analyze_runs` of `kk_calibrate.py`, from the rows of the timing files to the masks and the
acceptance gate, and the checks that `main` makes before (`validate_args`). Each run has a
threshold of its own and keeps the pairs that are labelled consistently; the kept pairs are split,
the candidates are found in the fit, chosen on the tuning set, and judged on the holdout.

The columns of a row are taken as `parse_hex_address` and `float` read them, the rows as the `csv`
module does.
-/

namespace CgroupResearch

/-! ## The timing files -/

/-- A column of a row, as it is read: a row may be too short for it (it is `None` then), and it may
    be no number. -/
inductive TimingField (α : Type)
  | missing
  | malformed
  | number (a : α)
  deriving DecidableEq, Repr

/-- A row of a timing file: its columns, whose addresses have no sign, and what it prints as. -/
structure TimingRow where
  a1 : TimingField ℕ
  a2 : TimingField ℕ
  elapsedCycles : TimingField Double
  repr : String
  deriving DecidableEq, Repr

/-- A timing file that the `csv` module reads, if it is there: whether it is and is not empty, its
    first row, what the names in it print as, and the other rows. -/
structure TimingCsv where
  path : String
  created : Bool
  fieldnames : Option (List String)
  headerRepr : String
  rows : List TimingRow
  deriving DecidableEq, Repr

/-- What the loop of `load_pair_latencies` makes of a row; `uncaught` is an exception that it does
    not catch. -/
inductive ParsedRow
  | latency (pair : ℕ × ℕ) (cycles : ℤ)
  | malformed
  | uncaught
  deriving DecidableEq, Repr

/-- The body of the `try` of `load_pair_latencies`. It reads one column after the other. A missing
    column has no `strip`: that `AttributeError` is not caught. `int` truncates a number, raises a
    `ValueError` for NaN, and for an infinity an `OverflowError`, which is not caught either. -/
def TimingRow.parse (row : TimingRow) : ParsedRow :=
  match row.a1, row.a2, row.elapsedCycles with
  | .missing, _, _ => .uncaught
  | .malformed, _, _ => .malformed
  | .number _, .missing, _ => .uncaught
  | .number _, .malformed, _ => .malformed
  | .number _, .number _, .missing => .uncaught
  | .number _, .number _, .malformed => .malformed
  | .number _, .number _, .number .nan => .malformed
  | .number _, .number _, .number (.inf _) => .uncaught
  | .number a1, .number a2, .number (.fin neg mag) =>
    .latency (a1, a2) (if neg then -⌊mag⌋ else ⌊mag⌋)

/-- A row is read without an exception that is not caught: it is long enough, and its number of
    cycles is not infinite. -/
structure TimingRow.Complete (row : TimingRow) : Prop where
  a1 : row.a1 ≠ .missing
  a2 : row.a2 ≠ .missing
  elapsedCycles : row.elapsedCycles ≠ .missing
  finite : ∀ neg, row.elapsedCycles ≠ .number (.inf neg)

/-- A row with all its fields and finitely many cycles is read, or refused with a message. -/
theorem TimingRow.Complete.parse_ne_uncaught {row : TimingRow} (h : row.Complete) :
    row.parse ≠ .uncaught := by
  obtain ⟨ha1, ha2, hcycles, hfinite⟩ := h
  rw [TimingRow.parse]
  split
  · next hmissing => exact absurd hmissing ha1
  · exact fun hparse => ParsedRow.noConfusion hparse
  · next hmissing => exact absurd hmissing ha2
  · exact fun hparse => ParsedRow.noConfusion hparse
  · next hmissing => exact absurd hmissing hcycles
  · exact fun hparse => ParsedRow.noConfusion hparse
  · exact fun hparse => ParsedRow.noConfusion hparse
  · next hinf => exact absurd hinf (hfinite _)
  · exact fun hparse => ParsedRow.noConfusion hparse

/-- White space, for `str.strip`. -/
def isPySpace (c : Char) : Bool :=
  let n := c.toNat
  9 ≤ n && n ≤ 13 || 28 ≤ n && n ≤ 32 || n == 0x85 || n == 0xa0 || n == 0x1680 ||
    0x2000 ≤ n && n ≤ 0x200a || n == 0x2028 || n == 0x2029 || n == 0x202f || n == 0x205f ||
    n == 0x3000

/-- `str.strip`. -/
def pyStrip (s : String) : List Char := (s.toList.dropWhile isPySpace).rdropWhile isPySpace

/-- The columns that `validate_csv_header` requires, sorted. -/
def csvColumns : List String := ["a1", "a2", "elapsed_cycles", "v_a1", "v_a2"]

/-- `validate_csv_header`. -/
def validateCsvHeader (csv : TimingCsv) : Except WorkerError Unit :=
  if !csv.created then
    .error (.calibrationError ("timing CSV was not created: " ++ csv.path))
  else
    match csv.fieldnames with
    | none => .error (.calibrationError ("empty timing CSV: " ++ csv.path))
    | some names =>
      let header := names.map pyStrip
      if csvColumns.all fun column => header.contains column.toList then
        .ok ()
      else
        .error (.calibrationError ("unexpected CSV header in " ++ csv.path ++ ": " ++
          csv.headerRepr ++ "; required=['a1', 'a2', 'elapsed_cycles', 'v_a1', 'v_a2']"))

/-- The latencies of two entries of one pair. -/
def mergeLatencies (x e : (ℕ × ℕ) × List ℤ) : (ℕ × ℕ) × List ℤ := (x.1, x.2 ++ e.2)

theorem fst_mergeLatencies (x e : (ℕ × ℕ) × List ℤ) : (mergeLatencies x e).1 = x.1 := rfl

/-- No pairs. -/
def PairLatencies.empty : PairLatencies := ⟨[], List.nodup_nil, List.forall_mem_nil _⟩

/-- A pair that is kept has a latency. -/
theorem values_ne_nil_accumulate {items : List ((ℕ × ℕ) × List ℤ)}
    (h : ∀ item ∈ items, item.2 ≠ []) (pair : ℕ × ℕ) (cycles : ℤ) :
    ∀ item ∈ Histogram.accumulate Prod.fst mergeLatencies (pair, [cycles]) items,
      item.2 ≠ [] := by
  induction items with
  | nil => simp [Histogram.accumulate]
  | cons x items ih =>
    rw [List.forall_mem_cons] at h
    rw [Histogram.accumulate]
    split_ifs
    · exact List.forall_mem_cons.2 ⟨by simp [mergeLatencies], h.2⟩
    · exact List.forall_mem_cons.2 ⟨h.1, ih h.2⟩

/-- `pairs[(a1, a2)].append(cycles)`. -/
def PairLatencies.append (pairs : PairLatencies) (pair : ℕ × ℕ) (cycles : ℤ) : PairLatencies where
  items := Histogram.accumulate Prod.fst mergeLatencies (pair, [cycles]) pairs.items
  keys_nodup := Histogram.Distinct.accumulate fst_mergeLatencies pairs.keys_nodup _
  values_ne_nil := values_ne_nil_accumulate pairs.values_ne_nil pair cycles

/-- The loop of `load_pair_latencies`. -/
def loadRows (path : String) :
    (lineNo : ℕ) → List TimingRow → PairLatencies → Except WorkerError PairLatencies
  | _, [], pairs => .ok pairs
  | lineNo, row :: rows, pairs =>
    match row.parse with
    | .latency pair cycles => loadRows path (lineNo + 1) rows (pairs.append pair cycles)
    | .malformed => .error (.calibrationError
        (path ++ ":" ++ toString lineNo ++ ": malformed timing row: " ++ row.repr))
    | .uncaught => .error .uncaught

/-- The columns that `load_pair_latencies` requires, sorted. -/
def requiredColumns : List String := ["a1", "a2", "elapsed_cycles"]

/-- `load_pair_latencies`. -/
def loadPairLatencies (csv : TimingCsv) : Except WorkerError PairLatencies :=
  if csv.fieldnames.all fun names => !requiredColumns.all (names.contains ·) then
    .error (.calibrationError
      (csv.path ++ ": missing required columns ['a1', 'a2', 'elapsed_cycles']"))
  else
    match loadRows csv.path 2 csv.rows .empty with
    | .error e => .error e
    | .ok pairs =>
      if pairs.items = [] then
        .error (.calibrationError (csv.path ++ ": no address pairs loaded"))
      else
        .ok pairs

/-- The rows parse to some latencies. -/
def ParsesTo (rows : List TimingRow) (es : List ((ℕ × ℕ) × ℤ)) : Prop :=
  rows.map TimingRow.parse = es.map fun e => .latency e.1 e.2

theorem parsesTo_cons {row : TimingRow} {rows : List TimingRow} {es : List ((ℕ × ℕ) × ℤ)} :
    ParsesTo (row :: rows) es ↔
      ∃ e es', es = e :: es' ∧ row.parse = .latency e.1 e.2 ∧ ParsesTo rows es' := by
  constructor
  · intro h
    cases es with
    | nil => cases h
    | cons e es =>
      obtain ⟨he, hes⟩ := List.cons.inj h
      exact ⟨e, es, rfl, he, hes⟩
  · rintro ⟨e, es, rfl, he, hes⟩
    rw [ParsesTo, List.map_cons, List.map_cons, he, hes]

/-- The entries of latencies. -/
def entriesOf (es : List ((ℕ × ℕ) × ℤ)) : List ((ℕ × ℕ) × List ℤ) := es.map fun e => (e.1, [e.2])

/-- The pairs with some latencies added. -/
def PairLatencies.appendAll (pairs : PairLatencies) (es : List ((ℕ × ℕ) × ℤ)) : PairLatencies :=
  es.foldl (fun pairs e => pairs.append e.1 e.2) pairs

/-- The latencies of the rows are appended to those of their pairs. -/
theorem items_appendAll (pairs : PairLatencies) (es : List ((ℕ × ℕ) × ℤ)) :
    (pairs.appendAll es).items =
      Histogram.accumulateAll Prod.fst mergeLatencies (entriesOf es) pairs.items := by
  induction es generalizing pairs with
  | nil => rfl
  | cons e es ih => exact ih (pairs.append e.1 e.2)

/-- Loading succeeds if each row parses, and adds the latencies of the rows. -/
theorem loadRows_eq_ok_iff (path : String) (lineNo : ℕ) {rows : List TimingRow}
    {pairs pairs' : PairLatencies} :
    loadRows path lineNo rows pairs = .ok pairs' ↔
      ∃ es, ParsesTo rows es ∧ pairs' = pairs.appendAll es := by
  induction rows generalizing lineNo pairs with
  | nil =>
    constructor
    · intro h
      cases h
      exact ⟨[], rfl, rfl⟩
    · rintro ⟨es, hes, rfl⟩
      rw [ParsesTo, List.map_nil, eq_comm, List.map_eq_nil_iff] at hes
      rw [hes]
      rfl
  | cons row rows ih =>
    rw [loadRows]
    simp only [parsesTo_cons]
    cases hrow : row.parse with
    | latency pair cycles =>
      dsimp only
      rw [ih]
      constructor
      · rintro ⟨es, hes, rfl⟩
        exact ⟨(pair, cycles) :: es, ⟨(pair, cycles), es, rfl, rfl, hes⟩, rfl⟩
      · rintro ⟨_, ⟨e, es, rfl, he, hes⟩, rfl⟩
        cases he
        exact ⟨es, hes, rfl⟩
    | malformed =>
      constructor
      · intro h
        cases h
      · rintro ⟨_, ⟨e, es, -, he, -⟩, -⟩
        cases he
    | uncaught =>
      constructor
      · intro h
        cases h
      · rintro ⟨_, ⟨e, es, -, he, -⟩, -⟩
        cases he

/-- The pairs of a file, if its rows parse and there are some. -/
theorem loadPairLatencies_eq_ok_iff {csv : TimingCsv} {pairs : PairLatencies} :
    loadPairLatencies csv = .ok pairs ↔
      (csv.fieldnames.all fun names => !requiredColumns.all (names.contains ·)) = false ∧
      (∃ es, ParsesTo csv.rows es ∧ pairs = PairLatencies.empty.appendAll es) ∧
      pairs.items ≠ [] := by
  rw [loadPairLatencies]
  cases hnames : csv.fieldnames.all fun names => !requiredColumns.all (names.contains ·) with
  | true => simp
  | false =>
    rw [if_neg Bool.false_ne_true, ← loadRows_eq_ok_iff csv.path 2]
    cases hrows : loadRows csv.path 2 csv.rows .empty with
    | error e => simp
    | ok loaded =>
      dsimp only
      split_ifs with hnil
      · simp only [true_and, false_iff, not_and, not_not]
        intro h
        rwa [← Except.ok.inj h]
      · simp only [true_and]
        constructor
        · intro h
          exact ⟨h, by rwa [← Except.ok.inj h]⟩
        · exact And.left

/-! ## Arguments -/

/-- The arguments of the worker that `validate_args` and `analyze_runs` look at, with their
    defaults. -/
structure WorkerArgs where
  runs : ℤ := 3
  memoryPercent : Double := .ofRat 25
  measurements : ℤ := 500
  timingRounds : ℤ := 50
  minHighPairs : ℤ := 20
  minHighFraction : Double := .round (1 / 1000)
  minLowFraction : Double := .round (1 / 2)
  minGapCycles : Double := .ofRat 8
  minRunConflicts : ℤ := 50
  seed : ℤ := 20260708
  tuneFraction : Double := .round (1 / 4)
  holdoutFraction : Double := .round (1 / 5)
  minFitConflicts : ℤ := 50
  minTuneConflicts : ℤ := 20
  minHoldoutConflicts : ℤ := 20
  gf2Rounds : ℤ := 60
  gf2Subsample : ℤ := 100
  minPositiveZeroRate : Double := .round (95 / 100)
  maxCandidates : ℤ := 128
  maxMasks : ℤ := 16
  minMaskImprovement : Double := .round (1 / 1000)
  minSuccessfulRoundRate : Double := .round (8 / 10)
  minHoldoutPrecision : Double := .round (9 / 10)
  minHoldoutRecall : Double := .round (8 / 10)
  deriving DecidableEq, Repr

/-- The options that have to be in `[0, 1]`, with their values. -/
def WorkerArgs.fractions (args : WorkerArgs) : List (String × Double) :=
  [("--min-high-fraction", args.minHighFraction), ("--min-low-fraction", args.minLowFraction),
    ("--tune-fraction", args.tuneFraction), ("--holdout-fraction", args.holdoutFraction),
    ("--min-positive-zero-rate", args.minPositiveZeroRate),
    ("--min-successful-round-rate", args.minSuccessfulRoundRate),
    ("--min-holdout-precision", args.minHoldoutPrecision),
    ("--min-holdout-recall", args.minHoldoutRecall)]

/-- `validate_args`. -/
def validateArgs (args : WorkerArgs) : Except WorkerError Unit :=
  if args.runs < 1 then
    .error (.calibrationError "--runs must be >= 1")
  else if !(Double.lt (.ofRat 0) args.memoryPercent &&
      Double.le args.memoryPercent (.ofRat 100)) then
    .error (.calibrationError "--memory-percent must be in (0, 100]")
  else if args.measurements < 1 ∨ args.timingRounds < 1 then
    .error (.calibrationError "measurement counts must be positive")
  else
    match args.fractions.find? fun option => !isFraction option.2 with
    | some option => .error (.calibrationError (option.1 ++ " must be in [0,1]"))
    | none => .ok ()

/-! ## The analysis -/

/-- A run of the worker after its analysis: `run_summary`, and the pairs that are kept. -/
structure AnalyzedRun where
  runId : ℕ
  csv : String
  threshold : FloatThreshold
  rawUniquePairs : ℕ
  kept : List LabelledPair
  dropped : ℕ
  deriving DecidableEq, Repr

/-- The conflicts among some records. -/
def conflictCount (records : List LabelledPair) : ℕ := records.countP (·.labelConflict)

/-- The body of the loop of `analyze_runs` over the files. -/
def analyzeRun (args : WorkerArgs) (runId : ℕ) (csv : TimingCsv) :
    Except WorkerError AnalyzedRun := do
  let pairs ← loadPairLatencies csv
  let threshold ← bootstrapThresholdFloat pairs args.minHighPairs args.minHighFraction
    args.minLowFraction args.minGapCycles
  match consistencyFilter runId pairs threshold.thresholdCycles with
  | none => .error .uncaught
  | some (kept, dropped) =>
    if conflictCount kept < args.minRunConflicts then
      .error (.calibrationError ("run " ++ toString runId ++ ": only " ++
        toString (conflictCount kept) ++ " consistent conflicts; minimum required is " ++
        toString args.minRunConflicts))
    else
      .ok ⟨runId, csv.path, threshold, pairs.items.length, kept, dropped⟩

/-- The loop of `analyze_runs` over the files, from the place `runId` on. -/
def analyzeFiles (args : WorkerArgs) :
    (runId : ℕ) → List TimingCsv → Except WorkerError (List AnalyzedRun)
  | _, [] => .ok []
  | runId, csv :: csvs => do
    let run ← analyzeRun args runId csv
    let runs ← analyzeFiles args (runId + 1) csvs
    return run :: runs

/-- `ensure_class_counts`. -/
def ensureClassCounts (name : String) (records : List LabelledPair) (minConflicts : ℤ) :
    Except WorkerError Unit :=
  if conflictCount records < minConflicts then
    .error (.calibrationError (name ++ ": only " ++ toString (conflictCount records) ++
      " conflict pairs; minimum required is " ++ toString minConflicts))
  else if records.length - conflictCount records = 0 then
    .error (.calibrationError (name ++ ": no non-conflict pairs"))
  else
    .ok ()

/-- The fields of the records that the later steps look at. -/
def LabelledPair.toRecord (r : LabelledPair) : PairRecord := ⟨r.diff, r.labelConflict⟩

/-- `random.Random`: the generator for a seed, its shuffles and its samples. -/
structure PyRandom (σ : Type) where
  new : ℤ → σ
  shuffles : Rng σ LabelledPair
  samples : Sampler σ

/-- What `analyze_runs` has when it builds its result. -/
structure RunsAnalysis where
  runs : List AnalyzedRun
  splits : RunSplits
  discovered : Discovered
  selectedMasks : List ℕ
  history : List TuneStep
  fitMetrics : TuneMetrics
  tuneMetrics : TuneMetrics
  holdoutMetrics : TuneMetrics
  deriving DecidableEq, Repr

/-- The acceptance gate of `analyze_runs`. -/
def RunsAnalysis.success (args : WorkerArgs) (o : RunsAnalysis) : Bool :=
  Double.le args.minSuccessfulRoundRate o.discovered.diagnostics.successfulRoundRate &&
    Double.le args.minHoldoutPrecision o.holdoutMetrics.precision &&
    Double.le args.minHoldoutRecall o.holdoutMetrics.recall && !o.selectedMasks.isEmpty

section

variable {σ : Type} (random : PyRandom σ) (args : WorkerArgs)

/-- `analyze_runs` after the loop over the files: the masks of some splits. -/
def analyzeSplits (runs : List AnalyzedRun) (splits : RunSplits) :
    Except WorkerError RunsAnalysis := do
  ensureClassCounts "fit" splits.fit args.minFitConflicts
  ensureClassCounts "tune" splits.tune args.minTuneConflicts
  ensureClassCounts "holdout" splits.holdout args.minHoldoutConflicts
  let fit := splits.fit.map (·.toRecord)
  let tune := splits.tune.map (·.toRecord)
  let discovered ← (discoverCandidates random.samples fit ⟨args.gf2Rounds, args.gf2Subsample,
    args.minPositiveZeroRate, args.maxCandidates⟩ (random.new (args.seed + 101))).mapError
      .calibrationError
  let (selectedMasks, history) := selectMasksGreedy discovered.candidates
    (discovered.counts.map fun x => (x.1, (x.2 : ℤ))) tune args.maxMasks args.minMaskImprovement
  if selectedMasks = [] then
    .error (.calibrationError "greedy tune selection produced no masks")
  else
    .ok {
      runs := runs
      splits := splits
      discovered := discovered
      selectedMasks := selectedMasks
      history := history
      fitMetrics := evaluate fit selectedMasks
      tuneMetrics := evaluate tune selectedMasks
      holdoutMetrics := evaluate (splits.holdout.map (·.toRecord)) selectedMasks }

/-- `analyze_runs`. -/
def analyzeRuns (csvs : List TimingCsv) : Except WorkerError RunsAnalysis := do
  let runs ← analyzeFiles args 0 csvs
  match splitRuns random.shuffles (runs.map (·.kept)) args.tuneFraction args.holdoutFraction
      (random.new args.seed) with
  | none => .error .uncaught
  | some splits => analyzeSplits random args runs splits

/-! ## An analysis that succeeds -/

/-- What `analyzeSplits` has found, in terms of what its steps return. -/
structure SplitsAnalyzed (o : RunsAnalysis) : Prop where
  discovered : discoverCandidates random.samples (o.splits.fit.map (·.toRecord))
    ⟨args.gf2Rounds, args.gf2Subsample, args.minPositiveZeroRate, args.maxCandidates⟩
    (random.new (args.seed + 101)) = .ok o.discovered
  selected : selectMasksGreedy o.discovered.candidates
    (o.discovered.counts.map fun x => (x.1, (x.2 : ℤ))) (o.splits.tune.map (·.toRecord))
    args.maxMasks args.minMaskImprovement = (o.selectedMasks, o.history)
  ne_nil : o.selectedMasks ≠ []
  fitMetrics : o.fitMetrics = evaluate (o.splits.fit.map (·.toRecord)) o.selectedMasks
  tuneMetrics : o.tuneMetrics = evaluate (o.splits.tune.map (·.toRecord)) o.selectedMasks
  holdoutMetrics : o.holdoutMetrics =
    evaluate (o.splits.holdout.map (·.toRecord)) o.selectedMasks

variable {random args} {o : RunsAnalysis}

/-- A run that is analyzed: its pairs, its threshold, and the pairs on one side of it. -/
theorem analyzeRun_eq_ok_iff {runId : ℕ} {csv : TimingCsv} {run : AnalyzedRun} :
    analyzeRun args runId csv = .ok run ↔
      ∃ pairs threshold, loadPairLatencies csv = .ok pairs ∧
        bootstrapThresholdFloat pairs args.minHighPairs args.minHighFraction args.minLowFraction
          args.minGapCycles = .ok threshold ∧
        args.minRunConflicts ≤ conflictCount run.kept ∧
        run = ⟨runId, csv.path, threshold, pairs.items.length,
          (pairs.items.filter (OneSided threshold.thresholdCycles ·)).map
            (labelled runId threshold.thresholdCycles),
          pairs.items.countP (¬ OneSided threshold.thresholdCycles ·)⟩ := by
  rw [analyzeRun]
  constructor
  · intro h
    obtain ⟨pairs, hpairs, h⟩ := Except.bind_eq_ok.1 h
    obtain ⟨threshold, hthreshold, h⟩ := Except.bind_eq_ok.1 h
    rw [consistencyFilter_eq] at h
    dsimp only at h
    split_ifs at h with hconflicts
    cases h
    exact ⟨pairs, threshold, hpairs, hthreshold, not_lt.1 hconflicts, rfl⟩
  · rintro ⟨pairs, threshold, hpairs, hthreshold, hconflicts, rfl⟩
    simp only [hpairs, hthreshold, consistencyFilter_eq, bind, Except.bind]
    rw [if_neg (not_lt.2 hconflicts)]

/-- What an analysis of the splits that succeeds has found. -/
theorem analyzeSplits_eq_ok {runs : List AnalyzedRun} {splits : RunSplits}
    (h : analyzeSplits random args runs splits = .ok o) :
    o.runs = runs ∧ o.splits = splits ∧ SplitsAnalyzed random args o := by
  rw [analyzeSplits] at h
  obtain ⟨_, -, h⟩ := Except.bind_eq_ok.1 h
  obtain ⟨_, -, h⟩ := Except.bind_eq_ok.1 h
  obtain ⟨_, -, h⟩ := Except.bind_eq_ok.1 h
  obtain ⟨discovered, hdiscovered, h⟩ := Except.bind_eq_ok.1 h
  dsimp only at h
  split_ifs at h with hnil
  cases h
  exact ⟨rfl, rfl, Except.eq_ok_of_mapError hdiscovered, rfl, hnil, rfl, rfl, rfl⟩

/-- An analysis that succeeds has analyzed each file, and has split the kept pairs. -/
theorem analyzeRuns_eq_ok {csvs : List TimingCsv} (h : analyzeRuns random args csvs = .ok o) :
    analyzeFiles args 0 csvs = .ok o.runs ∧
      splitRuns random.shuffles (o.runs.map (·.kept)) args.tuneFraction args.holdoutFraction
        (random.new args.seed) = some o.splits ∧ SplitsAnalyzed random args o := by
  rw [analyzeRuns] at h
  obtain ⟨runs, hruns, h⟩ := Except.bind_eq_ok.1 h
  split at h
  · cases h
  · next splits hsplits =>
    obtain ⟨rfl, rfl, hchosen⟩ := analyzeSplits_eq_ok h
    exact ⟨hruns, hsplits, hchosen⟩

/-! ## The holdout is not looked at -/

/-- The last file is analyzed after the others. -/
theorem analyzeFiles_concat {front : List TimingCsv} {last : TimingCsv} {runId : ℕ}
    {runs : List AnalyzedRun} (h : analyzeFiles args runId (front ++ [last]) = .ok runs) :
    ∃ before run, analyzeFiles args runId front = .ok before ∧
      analyzeRun args (runId + front.length) last = .ok run ∧ runs = before ++ [run] := by
  induction front generalizing runId runs with
  | nil =>
    obtain ⟨run, hrun, h⟩ := Except.bind_eq_ok.1 h
    cases h
    exact ⟨[], run, rfl, hrun, rfl⟩
  | cons csv front ih =>
    obtain ⟨first, hfirst, h⟩ := Except.bind_eq_ok.1 h
    obtain ⟨rest, hrest, h⟩ := Except.bind_eq_ok.1 h
    cases h
    obtain ⟨before, run, hbefore, hrun, rfl⟩ := ih hrest
    refine ⟨first :: before, run, ?_, ?_, rfl⟩
    · rw [analyzeFiles, hfirst, hbefore]
      rfl
    · rwa [List.length_cons, add_comm front.length 1, ← add_assoc]

theorem analyzeFiles_eq_nil {csvs : List TimingCsv} {runId : ℕ}
    (h : analyzeFiles args runId csvs = .ok []) : csvs = [] := by
  cases csvs with
  | nil => rfl
  | cons csv csvs =>
    obtain ⟨run, -, h⟩ := Except.bind_eq_ok.1 h
    obtain ⟨runs, -, h⟩ := Except.bind_eq_ok.1 h
    cases h

/-- With two runs or more, the last one is the holdout, and the generator sees the others only. -/
theorem splitRuns_concat {σ : Type} (rng : Rng σ LabelledPair) {runs : List (List LabelledPair)}
    (hne : runs ≠ []) (last : List LabelledPair) (tuneFraction holdoutFraction : Double) (s : σ) :
    splitRuns rng (runs ++ [last]) tuneFraction holdoutFraction s =
      (stratifiedSplit rng runs.flatten tuneFraction s).map fun split =>
        ⟨split.1, split.2.1, last⟩ := by
  obtain ⟨run, rest, rfl⟩ := List.exists_cons_of_ne_nil hne
  have hmap : ∀ x : Option (List LabelledPair × List LabelledPair × σ),
      (x >>= fun split => some (⟨split.1, split.2.1, last⟩ : RunSplits)) =
        x.map fun split => ⟨split.1, split.2.1, last⟩ := by
    intro x
    cases x <;> rfl
  rw [← hmap]
  cases rest with
  | nil => simp [splitRuns]
  | cons run' rest =>
    have hdrop : (run' :: (rest ++ [last])).dropLast = run' :: rest :=
      show (run' :: rest ++ [last]).dropLast = run' :: rest from List.dropLast_concat
    simp [splitRuns, hdrop]

/-- The last of two runs or more is the holdout, and it is not looked at before the masks are
    chosen: whatever it holds, the masks, their history and the candidates are those of the other
    runs. -/
theorem holdout_unseen {front : List TimingCsv} {last last' : TimingCsv} {o' : RunsAnalysis}
    (hne : front ≠ []) (h : analyzeRuns random args (front ++ [last]) = .ok o)
    (h' : analyzeRuns random args (front ++ [last']) = .ok o') :
    o.selectedMasks = o'.selectedMasks ∧ o.history = o'.history ∧
      o.discovered = o'.discovered ∧ o.fitMetrics = o'.fitMetrics ∧
      o.tuneMetrics = o'.tuneMetrics ∧
      ∃ run, analyzeRun args front.length last = .ok run ∧ o.splits.holdout = run.kept := by
  obtain ⟨hfiles, hsplits, hchosen⟩ := analyzeRuns_eq_ok h
  obtain ⟨hfiles', hsplits', hchosen'⟩ := analyzeRuns_eq_ok h'
  obtain ⟨before, run, hbefore, hrun, hruns⟩ := analyzeFiles_concat hfiles
  obtain ⟨before', run', hbefore', -, hruns'⟩ := analyzeFiles_concat hfiles'
  obtain rfl : before = before' := Except.ok.inj (hbefore.symm.trans hbefore')
  have hbefore_ne : before.map (·.kept) ≠ [] := by
    rintro hnil
    rw [List.map_eq_nil_iff.1 hnil] at hbefore
    exact hne (analyzeFiles_eq_nil hbefore)
  rw [hruns, List.map_append, List.map_singleton, splitRuns_concat _ hbefore_ne] at hsplits
  rw [hruns', List.map_append, List.map_singleton, splitRuns_concat _ hbefore_ne] at hsplits'
  -- both analyses have the one split of the other runs
  obtain ⟨split, hsplit, hs⟩ := Option.map_eq_some_iff.1 hsplits
  obtain ⟨split', hsplit', hs'⟩ := Option.map_eq_some_iff.1 hsplits'
  obtain rfl : split = split' := Option.some.inj (hsplit.symm.trans hsplit')
  have hfit : o.splits.fit = o'.splits.fit := by rw [← hs, ← hs']
  have htune : o.splits.tune = o'.splits.tune := by rw [← hs, ← hs']
  have hdiscovered : o.discovered = o'.discovered := by
    have hok := hchosen.discovered
    rw [hfit, hchosen'.discovered] at hok
    exact (Except.ok.inj hok).symm
  have hselected := hchosen.selected
  rw [hdiscovered, htune, hchosen'.selected] at hselected
  obtain ⟨hmasks, hhistory⟩ := Prod.mk.inj hselected
  refine ⟨hmasks.symm, hhistory.symm, hdiscovered, ?_, ?_, run, ?_, ?_⟩
  · rw [hchosen.fitMetrics, hchosen'.fitMetrics, hfit, hmasks]
  · rw [hchosen.tuneMetrics, hchosen'.tuneMetrics, htune, hmasks]
  · rwa [zero_add] at hrun
  · rw [← hs]

end

/-- A row for a pair. -/
def timingRow (a1 a2 : ℕ) (cycles : ℚ) : TimingRow :=
  ⟨.number a1, .number a2, .number (.ofRat cycles), ""⟩

/-- A file with some rows. -/
def timingCsv (rows : List TimingRow) : TimingCsv :=
  ⟨"timing_run.csv", true, some csvColumns, "['a1', 'a2', 'elapsed_cycles', 'v_a1', 'v_a2']", rows⟩

/-- A run in which the addresses with equal parities under the mask 6 conflict. -/
def firstRun : TimingCsv :=
  timingCsv [timingRow 0 6 100, timingRow 8 14 102, timingRow 0 2 10, timingRow 0 4 12]

/-- Another such run. -/
def lastRun : TimingCsv := timingCsv [timingRow 16 22 90, timingRow 0 2 10]

/-- A run in which others conflict. -/
def otherRun : TimingCsv := timingCsv [timingRow 16 22 10, timingRow 0 2 90]

/-- Arguments for small runs. -/
def smallArgs : WorkerArgs :=
  { minHighPairs := 1, minHighFraction := .ofRat 0, minLowFraction := .ofRat 0,
    minRunConflicts := 1, tuneFraction := .ofRat (1 / 2), minFitConflicts := 1,
    minTuneConflicts := 1, minHoldoutConflicts := 1, gf2Rounds := 1 }

/-- A generator without a state. -/
def unitRandom : PyRandom Unit := ⟨fun _ => (), reverseRng, firstSampler⟩

/-- The masks of two runs are accepted on the second, and of another second run are the same, but
    rejected. -/
theorem holdout_unseen_two :
    ∃ o o', analyzeRuns unitRandom smallArgs [firstRun, lastRun] = .ok o ∧
      analyzeRuns unitRandom smallArgs [firstRun, otherRun] = .ok o' ∧
      o.success smallArgs = true ∧ o'.success smallArgs = false ∧
      o.selectedMasks = o'.selectedMasks := by
  have hgood : (analyzeRuns unitRandom smallArgs [firstRun, lastRun]).toOption.map
      (·.success smallArgs) = some true := by decide +kernel
  have hbad : (analyzeRuns unitRandom smallArgs [firstRun, otherRun]).toOption.map
      (·.success smallArgs) = some false := by decide +kernel
  obtain ⟨o, ho, hsuccess⟩ := Option.map_eq_some_iff.1 hgood
  obtain ⟨o', ho', hfailed⟩ := Option.map_eq_some_iff.1 hbad
  exact ⟨o, o', Except.eq_ok_of_toOption ho, Except.eq_ok_of_toOption ho', hsuccess, hfailed,
    (holdout_unseen (List.cons_ne_nil firstRun []) (Except.eq_ok_of_toOption ho)
      (Except.eq_ok_of_toOption ho')).1⟩

end CgroupResearch
