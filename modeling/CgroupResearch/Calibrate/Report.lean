import CgroupResearch.Lib.PyJson

/-!
# The calibration report

The dictionary that the calibration worker writes to `dram-map.json`: the result of
`analyze_runs` in `kk_calibrate.py`, with the entry `collector` that `main` adds. The numbers
in it come from the analysis and are arbitrary here, but for what `evaluate` makes of counts.
Strings from outside (host, processor, paths) are arbitrary.
-/

namespace CgroupResearch

open PyJson

/-! ## Numbers and masks -/

/-- `Metrics`, as `evaluate` returns it: counts of the records of a list, of which there are
    less than `2 ^ 63`, and rates of them (`0 / 0` being zero). -/
structure Metrics where
  tp : ℕ
  tn : ℕ
  fp : ℕ
  fn : ℕ
  accuracy : PyFloat
  precision : PyFloat
  «recall» : PyFloat
  f1 : PyFloat
  total_lt : tp + tn + fp + fn < 2 ^ 63
  accuracy_computes : accuracy.Computes ((tp + tn : ℕ) / (tp + tn + fp + fn : ℕ))
  precision_computes : precision.Computes (tp / (tp + fp : ℕ))
  recall_computes : «recall».Computes (tp / (tp + fn : ℕ))
  f1_computes : f1.Computes ((2 * tp : ℕ) / (2 * tp + fp + fn : ℕ))

/-- `asdict` of `Metrics`. -/
def Metrics.asdict (m : Metrics) : PyJson :=
  object [("tp", .int m.tp), ("tn", .int m.tn), ("fp", .int m.fp), ("fn", .int m.fn),
    ("accuracy", .float m.accuracy), ("precision", .float m.precision),
    ("recall", .float m.recall), ("f1", .float m.f1)]

/-- The format `016x`. -/
def format016x (m : ℕ) : List Char :=
  let ds := Nat.toDigits 16 m
  List.replicate (16 - ds.length) '0' ++ ds

/-- The format `0x{m:016x}` of masks. -/
def formatMask (m : ℕ) : List Char := '0' :: 'x' :: format016x m

/-- `hexdigest` of a hash. -/
def hexdigest (digest : List UInt8) : List Char :=
  digest.flatMap fun b => [hexDigit (b.toNat / 16), hexDigit b.toNat]

/-- `mask_set_id`, with the hash function as a parameter. -/
def maskSetId (sha256 : List Char → Vector UInt8 32) (masks : List ℕ) : List Char :=
  let raw := [','].intercalate (masks.map format016x)
  (hexdigest (sha256 raw).toList).take 16

/-- A string of the program itself. -/
def literal (s : String) : PyJson := .str (PyStr.ofString s)

/-! ## The parts of the report -/

/-- `ThresholdInfo`. -/
structure ThresholdInfo where
  thresholdCycles : ℤ
  lowEdgeCycles : PyFloat
  highEdgeCycles : PyFloat
  gapCycles : PyFloat
  totalPairs : ℕ
  lowPairs : ℕ
  highPairs : ℕ

/-- `asdict` of `ThresholdInfo`. -/
def ThresholdInfo.asdict (t : ThresholdInfo) : PyJson :=
  object [("threshold_cycles", .int t.thresholdCycles), ("low_edge_cycles", .float t.lowEdgeCycles),
    ("high_edge_cycles", .float t.highEdgeCycles), ("gap_cycles", .float t.gapCycles),
    ("total_pairs", .int t.totalPairs), ("low_pairs", .int t.lowPairs),
    ("high_pairs", .int t.highPairs)]

/-- A run, as `run_summary` has it: `run_id` is its place. -/
structure RunSummary where
  csv : PyStr
  threshold : ThresholdInfo
  rawUniquePairs : ℕ
  consistentPairs : ℕ
  droppedInconsistentPairs : ℕ
  consistentConflicts : ℕ

/-- `run_summary`. -/
def RunSummary.asdict (runId : ℕ) (r : RunSummary) : PyJson :=
  object [("run_id", .int runId), ("csv", .str r.csv), ("threshold", r.threshold.asdict),
    ("raw_unique_pairs", .int r.rawUniquePairs), ("consistent_pairs", .int r.consistentPairs),
    ("dropped_inconsistent_pairs", .int r.droppedInconsistentPairs),
    ("consistent_conflicts", .int r.consistentConflicts),
    ("consistent_non_conflicts", .int (r.consistentPairs - r.consistentConflicts))]

/-- What `hardware_fingerprint` finds. -/
structure Hardware where
  hostname : PyStr
  machine : PyStr
  platform : PyStr
  kernel : PyStr
  cpuModel : PyStr
  memTotalKib : Option ℤ

/-- `hardware_fingerprint`. -/
def Hardware.asdict (h : Hardware) : PyJson :=
  object [("hostname", .str h.hostname), ("machine", .str h.machine),
    ("platform", .str h.platform), ("kernel", .str h.kernel), ("cpu_model", .str h.cpuModel),
    ("mem_total_kib", h.memTotalKib.elim .null .int)]

/-- The sizes of the splits. -/
structure Splits where
  fitPairs : ℕ
  fitConflicts : ℕ
  tunePairs : ℕ
  tuneConflicts : ℕ
  holdoutPairs : ℕ
  holdoutConflicts : ℕ
  deriving DecidableEq

/-- The entry `splits`. -/
def Splits.asdict (s : Splits) : PyJson :=
  object [("fit_pairs", .int s.fitPairs), ("fit_conflicts", .int s.fitConflicts),
    ("tune_pairs", .int s.tunePairs), ("tune_conflicts", .int s.tuneConflicts),
    ("holdout_pairs", .int s.holdoutPairs), ("holdout_conflicts", .int s.holdoutConflicts)]

/-- The diagnostics of `discover_candidates`. -/
structure Gf2Diagnostics where
  activeBitPositions : List ℕ
  conflictRecords : ℕ
  subsampleSize : ℤ
  rounds : ℤ
  successfulRounds : ℕ
  successfulRoundRate : PyFloat
  nullityHistogram : List (ℕ × ℕ)
  rawCandidateCount : ℕ
  filteredCandidateCount : ℕ

/-- The entry `gf2`. -/
def Gf2Diagnostics.asdict (g : Gf2Diagnostics) : PyJson :=
  object [("active_bit_positions", .list (g.activeBitPositions.map fun i : ℕ => .int i)),
    ("conflict_records", .int g.conflictRecords), ("subsample_size", .int g.subsampleSize),
    ("rounds", .int g.rounds), ("successful_rounds", .int g.successfulRounds),
    ("successful_round_rate", .float g.successfulRoundRate),
    ("nullity_histogram",
      .dict (g.nullityHistogram.map fun m => (.ofList (Nat.toDigits 10 m.1), .int m.2))),
    ("raw_candidate_count", .int g.rawCandidateCount),
    ("filtered_candidate_count", .int g.filteredCandidateCount)]

/-- A step of `select_masks_greedy`. -/
structure SelectionStep where
  mask : ℕ
  frequency : ℕ
  tuneMetrics : Metrics

/-- An entry of `history`. -/
def SelectionStep.asdict (s : SelectionStep) : PyJson :=
  object [("mask", .str (.ofList (formatMask s.mask))), ("weight", .int (s.mask.bits.count true)),
    ("frequency", .int s.frequency), ("tune_metrics", s.tuneMetrics.asdict)]

/-- The settings of the worker that the report repeats. -/
structure Settings where
  minSuccessfulRoundRate : PyFloat
  minHoldoutPrecision : PyFloat
  minHoldoutRecall : PyFloat
  kkMain : PyStr
  memoryPercent : PyFloat
  measurements : ℤ
  timingRounds : ℤ
  inputCsvMode : Bool

/-- What `analyze_runs` has when it builds its result: `success` is what the acceptance gate
    says. -/
structure Analysis where
  success : Bool
  generatedUnixNs : ℤ
  hardware : Hardware
  runs : List RunSummary
  splits : Splits
  gf2Diag : Gf2Diagnostics
  candidates : ℕ
  history : List SelectionStep
  selectedMasks : List ℕ
  fitMetrics : Metrics
  tuneMetrics : Metrics
  holdoutMetrics : Metrics
  args : Settings

namespace Analysis

variable (sha256 : List Char → Vector UInt8 32) (a : Analysis)

/-- The entry `selection`. -/
def selection : PyJson :=
  object [("candidate_masks", .int a.candidates),
    ("selected_mask_count", .int a.selectedMasks.length),
    ("history", .list (a.history.map SelectionStep.asdict))]

/-- The entry `metrics`. -/
def metrics : PyJson :=
  object [("fit", a.fitMetrics.asdict), ("tune", a.tuneMetrics.asdict),
    ("holdout", a.holdoutMetrics.asdict)]

/-- The entry `acceptance`. -/
def acceptance : PyJson :=
  object [("min_successful_round_rate", .float a.args.minSuccessfulRoundRate),
    ("min_holdout_precision", .float a.args.minHoldoutPrecision),
    ("min_holdout_recall", .float a.args.minHoldoutRecall), ("passed", .bool a.success)]

/-- The entry `notes`. -/
def notes : PyJson :=
  .list [literal "Threshold is bootstrapped independently for each timing run.",
    literal "Consistency filtering is strict: all repeated measurements for a pair must agree.",
    literal "The final holdout run is not used for GF(2) discovery or mask selection.",
    literal
      "Row-mask recovery is intentionally omitted; Strategy B needs PA-to-bank class only."]

/-- The entry `collector`, which `main` adds. -/
def collector : PyJson :=
  object [("kk_main", .str a.args.kkMain), ("memory_percent", .float a.args.memoryPercent),
    ("measurements", .int a.args.measurements), ("timing_rounds", .int a.args.timingRounds),
    ("run_count", .int a.runs.length), ("input_csv_mode", .bool a.args.inputCsvMode)]

/-- The entries of the result. -/
def entries : List (String × PyJson) :=
  [("status", literal (if a.success then "success" else "failed")),
    ("schema_version", .int 1),
    ("generated_unix_ns", .int a.generatedUnixNs),
    ("hardware", a.hardware.asdict),
    ("split_mode",
      literal (if 2 ≤ a.runs.length then "cross-run-holdout" else "single-run-pair-split")),
    ("runs", .list (a.runs.mapIdx RunSummary.asdict)),
    ("splits", a.splits.asdict),
    ("gf2", a.gf2Diag.asdict),
    ("selection", a.selection),
    ("bank_masks", .list (a.selectedMasks.map fun m => .str (.ofList (formatMask m)))),
    ("mask_set_id", .str (.ofList (maskSetId sha256 a.selectedMasks))),
    ("metrics", a.metrics),
    ("acceptance", a.acceptance),
    ("notes", notes),
    ("collector", a.collector)]

/-- The result of `analyze_runs`, with the entry that `main` adds. -/
def result : PyJson := object (a.entries sha256)

end Analysis

/-- What `atomic_write_json` writes. -/
def atomicWriteJson (payload : PyJson) : List Char := payload.dump ++ ['\n']

end CgroupResearch
