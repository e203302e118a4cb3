import CgroupResearch.Calibrate.ErrorReport
import CgroupResearch.Calibrate.Printed

/-!
# What an accepted calibration promises

The end of the worker (`main` of `kk_calibrate.py`): it analyzes the timing files, writes a report,
and exits with a code; `calibration_run` of the daemon reads both. It accepts them if, and only if,
the analysis has passed its gate (`accepted_iff_success`), and the daemon then has a mapping
(`accepted_mapping`): its masks are those of the analysis, its classes are balanced, and on the
pairs of the holdout the comparison of classes, as the daemon makes it, is as precise as the gate
asks for and recalls as many of the conflicts.

* `selectMasksGreedy_subset`: the masks are among the candidates;
* `lt_of_mem_candidates`: the candidates are words, if the addresses are;
* `calibrationLoadResult_success`, `calibrationLoadResult_failed`: what the loader makes of a
  report;
* `countP_sameClass`: the daemon compares classes as the gate has predicted them.
-/

namespace CgroupResearch

open CString PyJson Gf2
open scoped List

/-! ## The end of the worker -/

/-- What the worker leaves: its exit code, and its report. -/
structure WorkerEnd where
  exitCode : ℤ
  report : Option (List Char)

section

variable {σ : Type} (random : PyRandom σ) (args : WorkerArgs)
  (sha256 : List Char → Vector UInt8 32) (generatedUnixNs : ℤ) (hardware : Hardware)

/-- The loop of `main` over the files. -/
def validateHeaders : List TimingCsv → Except WorkerError Unit
  | [] => .ok ()
  | csv :: csvs => do
    validateCsvHeader csv
    validateHeaders csvs

/-- `main` of the worker on its files, up to its analysis. -/
def workerAnalysis (csvs : List TimingCsv) : Except WorkerError RunsAnalysis := do
  validateArgs args
  validateHeaders csvs
  analyzeRuns random args csvs

/-- The end of `main` of the worker, with the report `report` of its analysis. An exception that it
    does not catch ends it with the code 1. -/
def workerEnd (report : RunsAnalysis → Analysis) : Except WorkerError RunsAnalysis → WorkerEnd
  | .ok o =>
    ⟨if o.success args then 0 else 2, some (atomicWriteJson ((report o).result sha256))⟩
  | .error (.calibrationError text) =>
    ⟨2, some (atomicWriteJson
      (errorPayload generatedUnixNs hardware (PyStr.ofString text)))⟩
  | .error .uncaught => ⟨1, none⟩

end

/-! ## The masks -/

section

variable {candidateCounts : List (ℕ × ℤ)} {tuneRecords : List PairRecord} {minImprovement : Double}

theorem mem_of_bestLoop {selected remaining : List ℕ} {best : Option BestMask} {b : BestMask}
    (h : bestLoop candidateCounts tuneRecords selected remaining best = some b) :
    b.mask ∈ remaining ∨ best = some b := by
  induction remaining generalizing best with
  | nil => exact .inr h
  | cons mask remaining ih =>
    rw [bestLoop] at h
    dsimp only at h
    split_ifs at h
    · exact (ih h).imp_left (List.mem_cons_of_mem mask)
    · rcases ih h with hmem | hbest
      · exact .inl (List.mem_cons_of_mem mask hmem)
      · cases hbest
        exact .inl List.mem_cons_self
    · exact (ih h).imp_left (List.mem_cons_of_mem mask)

/-- The loop adds masks that remain, and no more than it has turns. -/
theorem selectLoop_subset (n : ℕ) {selected remaining : List ℕ} {current : TuneMetrics}
    {history : List TuneStep} :
    (∀ mask ∈ (selectLoop candidateCounts tuneRecords minImprovement n selected remaining current
        history).1, mask ∈ selected ∨ mask ∈ remaining) ∧
      (selectLoop candidateCounts tuneRecords minImprovement n selected remaining current
        history).1.length ≤ selected.length + n := by
  induction n generalizing selected remaining current history with
  | zero => exact ⟨fun _ => .inl, le_rfl⟩
  | succ n ih =>
    rw [selectLoop]
    split
    · exact ⟨fun _ => .inl, Nat.le_add_right _ _⟩
    next best hbest =>
    split
    · exact ⟨fun _ => .inl, Nat.le_add_right _ _⟩
    · have hmem := (mem_of_bestLoop hbest).resolve_right fun h => by cases h
      obtain ⟨hsubset, hlength⟩ := @ih (selected ++ [best.mask]) (remaining.erase best.mask)
        best.metrics (history ++ [⟨formatMask best.mask, bitCount best.mask,
          countOf candidateCounts best.mask, best.metrics⟩])
      constructor
      · intro mask hmask
        rcases hsubset mask hmask with hselected | hremaining
        · rcases List.mem_append.1 hselected with hselected | hlast
          · exact .inl hselected
          · rw [List.mem_singleton.1 hlast]
            exact .inr hmem
        · exact .inr (List.mem_of_mem_erase hremaining)
      · rw [List.length_append, List.length_singleton] at hlength
        omega

end

/-- Masks are chosen from the candidates, and no more than are asked for. -/
theorem selectMasksGreedy_subset {candidates : List ℕ} {candidateCounts : List (ℕ × ℤ)}
    {tuneRecords : List PairRecord} {maxMasks : ℤ} {minImprovement : Double} {selected : List ℕ}
    {history : List TuneStep}
    (h : selectMasksGreedy candidates candidateCounts tuneRecords maxMasks minImprovement =
      (selected, history)) :
    (∀ mask ∈ selected, mask ∈ candidates) ∧ selected.length ≤ maxMasks.toNat := by
  have hloop := @selectLoop_subset candidateCounts tuneRecords minImprovement maxMasks.toNat []
    candidates (evaluate tuneRecords []) []
  rw [selectMasksGreedy] at h
  rw [h, List.length_nil, zero_add] at hloop
  exact ⟨fun mask hmask => (hloop.1 mask hmask).resolve_left List.not_mem_nil, hloop.2⟩

section

variable {σ : Type} {rng : Sampler σ} {fitRecords : List PairRecord} {p : DiscoverParams} {s : σ}

theorem activeUnion_lt (h : ∀ r ∈ fitRecords, r.diff < 2 ^ 64) :
    activeUnion fitRecords < 2 ^ 64 := by
  have hfold : ∀ (records : List PairRecord) (union : ℕ), union < 2 ^ 64 →
      (∀ r ∈ records, r.diff < 2 ^ 64) →
      records.foldl (fun union rec => union ||| rec.diff) union < 2 ^ 64 := by
    intro records
    induction records with
    | nil => exact fun union hunion _ => hunion
    | cons r records ih =>
      intro union hunion hrecords
      rw [List.forall_mem_cons] at hrecords
      exact ih _ (Nat.or_lt_two_pow hunion hrecords.1) hrecords.2
  exact hfold fitRecords 0 (by norm_num) h

/-- The candidates are words, as they have bits of the differences only. -/
theorem lt_of_mem_candidates {d : Discovered} (h : discoverCandidates rng fitRecords p s = .ok d)
    (hwords : ∀ r ∈ fitRecords, r.diff < 2 ^ 64) {mask : ℕ} (hmask : mask ∈ d.candidates) :
    mask ≠ 0 ∧ mask < 2 ^ 64 := by
  obtain ⟨hcounts, hcandidates, -⟩ := discoverCandidates_ok h
  rw [hcandidates] at hmask
  have hcounted := (mem_rankedMasks.1 ((pyTake_sublist _ _).mem hmask)).1
  rw [hcounts] at hcounted
  obtain ⟨sample, -, hsample⟩ := mem_counts_iff.1 hcounted
  have hsound := soundMask_of_mem hsample
  refine ⟨hsound.ne_zero, Nat.lt_pow_two_of_testBit _ fun b hb => ?_⟩
  by_contra hbit
  rw [Bool.not_eq_false] at hbit
  have hactive := hsound.active b hbit
  rw [Nat.testBit_lt_two_pow ((activeUnion_lt hwords).trans_le
    (Nat.pow_le_pow_right two_pos hb))] at hactive
  cases hactive

end

/-! ## The records -/

/-- The addresses of a row are words. -/
def TimingRow.Words (row : TimingRow) : Prop :=
  (∀ a, row.a1 = .number a → a < 2 ^ 64) ∧ ∀ a, row.a2 = .number a → a < 2 ^ 64

/-- A record of two addresses that are words, and their difference. -/
structure LabelledPair.Words (r : LabelledPair) : Prop where
  a1 : r.a1 < 2 ^ 64
  a2 : r.a2 < 2 ^ 64
  diff : r.diff = r.a1 ^^^ r.a2

theorem parse_latency {row : TimingRow} {pair : ℕ × ℕ} {cycles : ℤ}
    (h : row.parse = .latency pair cycles) :
    row.a1 = .number pair.1 ∧ row.a2 = .number pair.2 := by
  rw [TimingRow.parse] at h
  split at h
  case h_9 a1 a2 neg mag ha1 ha2 _ =>
    cases h
    exact ⟨ha1, ha2⟩
  all_goals cases h

/-- The pairs of a file are those of its rows. -/
theorem words_of_loadPairLatencies {csv : TimingCsv} {pairs : PairLatencies}
    (h : loadPairLatencies csv = .ok pairs) (hwords : ∀ row ∈ csv.rows, row.Words) :
    ∀ item ∈ pairs.items, item.1.1 < 2 ^ 64 ∧ item.1.2 < 2 ^ 64 := by
  obtain ⟨-, ⟨es, hes, rfl⟩, -⟩ := loadPairLatencies_eq_ok_iff.1 h
  intro item hitem
  have hkey : item.1 ∈ (PairLatencies.empty.appendAll es).items.map Prod.fst :=
    List.mem_map_of_mem hitem
  rw [items_appendAll, Histogram.mem_keys_accumulateAll fst_mergeLatencies] at hkey
  obtain ⟨entry, hentry, hpair⟩ := List.mem_map.1 (hkey.resolve_right List.not_mem_nil)
  obtain ⟨e, he, rfl⟩ := List.mem_map.1 hentry
  have hparsed : ParsedRow.latency e.1 e.2 ∈ csv.rows.map TimingRow.parse := by
    rw [hes]
    exact List.mem_map_of_mem he
  obtain ⟨row, hrow, hparse⟩ := List.mem_map.1 hparsed
  obtain ⟨ha1, ha2⟩ := parse_latency hparse
  rw [← hpair]
  exact ⟨(hwords row hrow).1 _ ha1, (hwords row hrow).2 _ ha2⟩

section

variable {σ : Type} {random : PyRandom σ} {args : WorkerArgs} {o : RunsAnalysis}

/-- If the addresses in a file are words, those of its kept pairs are. -/
theorem words_of_analyzeRun {runId : ℕ} {csv : TimingCsv} {run : AnalyzedRun}
    (h : analyzeRun args runId csv = .ok run) (hwords : ∀ row ∈ csv.rows, row.Words) :
    ∀ r ∈ run.kept, r.Words := by
  obtain ⟨pairs, threshold, hpairs, -, -, rfl⟩ := analyzeRun_eq_ok_iff.1 h
  intro r hr
  obtain ⟨item, hitem, rfl⟩ := List.mem_map.1 hr
  obtain ⟨ha1, ha2⟩ := words_of_loadPairLatencies hpairs hwords item (List.mem_filter.1 hitem).1
  exact ⟨ha1, ha2, rfl⟩

theorem words_of_analyzeFiles {runId : ℕ} {csvs : List TimingCsv} {runs : List AnalyzedRun}
    (h : analyzeFiles args runId csvs = .ok runs)
    (hwords : ∀ csv ∈ csvs, ∀ row ∈ csv.rows, row.Words) :
    ∀ run ∈ runs, ∀ r ∈ run.kept, r.Words := by
  induction csvs generalizing runId runs with
  | nil =>
    cases h
    exact List.forall_mem_nil _
  | cons csv csvs ih =>
    obtain ⟨run, hrun, h⟩ := Except.bind_eq_ok.1 h
    obtain ⟨rest, hrest, h⟩ := Except.bind_eq_ok.1 h
    cases h
    rw [List.forall_mem_cons] at hwords ⊢
    exact ⟨words_of_analyzeRun hrun hwords.1, ih hrest hwords.2⟩

theorem length_analyzeFiles {runId : ℕ} {csvs : List TimingCsv} {runs : List AnalyzedRun}
    (h : analyzeFiles args runId csvs = .ok runs) : runs.length = csvs.length := by
  induction csvs generalizing runId runs with
  | nil =>
    cases h
    rfl
  | cons csv csvs ih =>
    obtain ⟨run, -, h⟩ := Except.bind_eq_ok.1 h
    obtain ⟨rest, hrest, h⟩ := Except.bind_eq_ok.1 h
    cases h
    exact congrArg (· + 1) (ih hrest)

/-- The records of the splits. -/
theorem words_of_analyzeRuns {csvs : List TimingCsv} (h : analyzeRuns random args csvs = .ok o)
    (hwords : ∀ csv ∈ csvs, ∀ row ∈ csv.rows, row.Words) :
    (∀ r ∈ o.splits.fit, r.Words) ∧ ∀ r ∈ o.splits.holdout, r.Words := by
  obtain ⟨hfiles, hsplits, -⟩ := analyzeRuns_eq_ok h
  have hrecords : ∀ r ∈ o.splits.fit ++ o.splits.tune ++ o.splits.holdout, r.Words := by
    intro r hr
    rw [(splitRuns_perm hsplits).mem_iff, List.mem_flatten] at hr
    obtain ⟨kept, hkept, hr⟩ := hr
    obtain ⟨run, hrun, rfl⟩ := List.mem_map.1 hkept
    exact words_of_analyzeFiles hfiles hwords run hrun r hr
  exact ⟨fun r hr => hrecords r (List.mem_append_left _ (List.mem_append_left _ hr)),
    fun r hr => hrecords r (List.mem_append_right _ hr)⟩

/-- The masks of an analysis are words other than zero, of full rank, and not too many. -/
structure GoodMasks (args : WorkerArgs) (masks : List ℕ) : Prop where
  ne_nil : masks ≠ []
  words : ∀ m ∈ masks, 1 ≤ m ∧ m < 2 ^ 64
  length_le : masks.length ≤ args.maxMasks.toNat
  rank : gf2Rank masks = masks.length

/-- The masks that are chosen are fit for the report and for the daemon. -/
theorem goodMasks_of_analyzeRuns {csvs : List TimingCsv} (h : analyzeRuns random args csvs = .ok o)
    (hwords : ∀ csv ∈ csvs, ∀ row ∈ csv.rows, row.Words) : GoodMasks args o.selectedMasks := by
  obtain ⟨-, -, hchosen⟩ := analyzeRuns_eq_ok h
  obtain ⟨hsubset, hlength⟩ := selectMasksGreedy_subset hchosen.selected
  have hrank := selectMasksGreedy_rank o.discovered.candidates
    (o.discovered.counts.map fun x => (x.1, (x.2 : ℤ))) (o.splits.tune.map (·.toRecord))
    args.maxMasks args.minMaskImprovement
  rw [hchosen.selected] at hrank
  have hdiffs : ∀ r ∈ o.splits.fit.map (·.toRecord), r.diff < 2 ^ 64 := by
    intro r hr
    obtain ⟨record, hrecord, rfl⟩ := List.mem_map.1 hr
    obtain ⟨ha1, ha2, hdiff⟩ := (words_of_analyzeRuns h hwords).1 record hrecord
    rw [LabelledPair.toRecord, hdiff]
    exact Nat.xor_lt_two_pow ha1 ha2
  refine ⟨hchosen.ne_nil, fun m hm => ?_, hlength, hrank⟩
  obtain ⟨hne, hlt⟩ := lt_of_mem_candidates hchosen.discovered hdiffs (hsubset m hm)
  exact ⟨Nat.one_le_iff_ne_zero.2 hne, hlt⟩

end

/-! ## The loader on a report -/

section

variable (sha256 : List Char → Vector UInt8 32) {a : Analysis} {resultPath : List Char}

/-- The status of a report is read as it was written. -/
theorem extractString_status :
    extractString ⟨atomicWriteJson (a.result sha256), []⟩ "status" 32 =
      (true, (if a.success then "success" else "failed").toList) := by
  have hnul : '\x00' ∉ ['\n'] := by decide
  cases hsuccess : a.success with
  | true =>
    exact extractString_of_found (by decide)
      (found_entry hnul (by simp [Analysis.entries, hsuccess, literal, PyStr.ofString])) (by decide)
  | false =>
    exact extractString_of_found (by decide)
      (found_entry hnul (by simp [Analysis.entries, hsuccess, literal, PyStr.ofString])) (by decide)

/-- A report of a failed calibration is not accepted. -/
theorem calibrationLoadResult_failed (h : a.success = false)
    (hsize : (atomicWriteJson (a.result sha256)).length ≤ calibrationJsonMaxBytes) :
    (calibrationLoadResult resultPath (some (atomicWriteJson (a.result sha256)))).1 =
      .errRejected := by
  have hcstr : (cstr "failed".toList == "success".toList) = false := by decide
  have herror : extractString ⟨atomicWriteJson (a.result sha256), []⟩ "error"
      calibrationErrorMessageMax = (false, []) :=
    extractString_error (by decide) (by decide)
  rw [calibrationLoadResult, readFileLimited_of_le hsize]
  simp only [herror, extractString_status, h, hcstr, Bool.not_true, Bool.not_false,
    Bool.false_eq_true, if_false, if_true]
  rfl

/-- A report of a successful calibration with good masks is accepted. -/
theorem calibrationLoadResult_success {args : WorkerArgs} (h : a.success = true)
    (hmasks : GoodMasks args a.selectedMasks) (hmany : args.maxMasks ≤ 32)
    (hsize : (atomicWriteJson (a.result sha256)).length ≤ calibrationJsonMaxBytes) :
    ∃ out, calibrationLoadResult resultPath (some (atomicWriteJson (a.result sha256))) =
        (.ok, out) ∧ out.statusSuccess = true ∧ out.acceptancePassed = true ∧
      out.bankMasks = a.selectedMasks.map UInt64.ofNat ∧
      out.maskSetId = maskSetId sha256 a.selectedMasks ∧
      out.holdout.tp = UInt64.ofNat a.holdoutMetrics.tp ∧
      out.holdout.tn = UInt64.ofNat a.holdoutMetrics.tn ∧
      out.holdout.fp = UInt64.ofNat a.holdoutMetrics.fp ∧
      out.holdout.fn = UInt64.ofNat a.holdoutMetrics.fn := by
  have hnul : '\x00' ∉ ['\n'] := by decide
  have hcstr : (cstr "success".toList == "success".toList) = true := by decide
  have herror : extractString ⟨atomicWriteJson (a.result sha256), []⟩ "error"
      calibrationErrorMessageMax = (false, []) :=
    extractString_error hnul (by decide)
  have hlength : a.selectedMasks.length ≤ calibrationMaxBankMasks := by
    have hle := hmasks.length_le
    rw [calibrationMaxBankMasks]
    omega
  obtain ⟨holdout, hmetrics, hcounts⟩ := loadMetrics_eq sha256 a hnul
    { calibrationResultReset with
      statusSuccess := true
      acceptancePassed := true
      bankMasks := a.selectedMasks.map UInt64.ofNat }
  refine ⟨{ calibrationResultReset with
    statusSuccess := true
    acceptancePassed := true
    bankMasks := a.selectedMasks.map UInt64.ofNat
    maskSetId := maskSetId sha256 a.selectedMasks
    holdout := holdout }, ?_, rfl, rfl, rfl, rfl, hcounts⟩
  rw [calibrationLoadResult, readFileLimited_of_le hsize]
  simp only [herror, extractString_status, h, hcstr, Bool.not_true, Bool.false_eq_true, if_false,
    if_true]
  exact (loadMasks_eq h hmasks.ne_nil hlength hmasks.words hnul rfl).trans hmetrics

end

/-! ## The mapping -/

theorem length_maskSetId (sha256 : List Char → Vector UInt8 32) (masks : List ℕ) :
    (maskSetId sha256 masks).length = 16 := by
  have hdigits : ∀ digest : List UInt8, (hexdigest digest).length = 2 * digest.length := by
    intro digest
    rw [hexdigest]
    induction digest with
    | nil => rfl
    | cons b digest ih =>
      rw [List.flatMap_cons, List.length_append, ih, List.length_cons]
      simp only [List.length_cons, List.length_nil]
      omega
  rw [maskSetId, List.length_take, hdigits, Vector.length_toList]
  rfl

/-- The name of the set of masks fits the buffer of the daemon. -/
theorem boundedStrlen_maskSetId (sha256 : List Char → Vector UInt8 32) (masks : List ℕ) :
    boundedStrlen (maskSetId sha256 masks) calibrationMaskSetIdMax = 16 := by
  have hlength := length_maskSetId sha256 masks
  have hplain := (plain_maskSetId sha256 masks).1
  have hnul : '\x00' ∉ maskSetId sha256 masks := fun hmem => by
    have hspace := (hplain _ hmem).1
    revert hspace
    decide
  rw [boundedStrlen, calibrationMaskSetIdMax, List.take_of_length_le (by omega),
    cstr_eq_self hnul, hlength]

/-- The comparison of the classes of a pair, as the daemon makes it. -/
def sameClass (mapping : DramMapping) (r : LabelledPair) : Bool :=
  match dramMappingSameBankClass mapping (UInt64.ofNat r.a1) (UInt64.ofNat r.a2) with
  | .ok same => same
  | .error _ => false

/-- The number of the records with some outcome of the comparison, and some label. -/
def outcomeCount (mapping : DramMapping) (records : List LabelledPair) (pred actual : Bool) : ℕ :=
  records.countP fun r => sameClass mapping r = pred ∧ r.labelConflict = actual

/-- The daemon compares classes as `predict_same_bank` does. -/
theorem countP_sameClass {mapping : DramMapping} (hready : dramMappingIsReady mapping = true)
    {records : List LabelledPair} (hwords : ∀ r ∈ records, r.Words) (pred actual : Bool) :
    outcomeCount mapping records pred actual =
      (records.map (·.toRecord)).countP fun rec =>
        predictSameBank rec.diff (mapping.masks.map UInt64.toNat) = pred ∧
          rec.labelConflict = actual := by
  have hne : mapping.masks ≠ [] := by
    rw [dramMappingIsReady, Bool.and_eq_true, decide_eq_true_eq] at hready
    exact List.length_pos_iff.1 hready.2
  rw [outcomeCount, List.countP_map]
  refine List.countP_congr fun r hr => ?_
  obtain ⟨ha1, ha2, hdiff⟩ := hwords r hr
  have hpredict := predictSameBank_eq hne (UInt64.ofNat r.a1) (UInt64.ofNat r.a2)
  rw [UInt64.toNat_ofNat_of_lt' ha1, UInt64.toNat_ofNat_of_lt' ha2, ← hdiff] at hpredict
  have hsame : sameClass mapping r =
      predictSameBank r.diff (mapping.masks.map UInt64.toNat) := by
    rw [hpredict, sameClass, dramMappingSameBankClass, hready]
    rfl
  rw [hsame]
  rfl

/-- On some records, the comparison of classes passes the gate of the analysis, and the metrics
    that the daemon has read are its counts. -/
structure MeetsGate (args : WorkerArgs) (mapping : DramMapping) (holdout : List LabelledPair)
    (metrics : CalibrationMetrics) : Prop where
  precision : Double.le args.minHoldoutPrecision
    (countRatio (outcomeCount mapping holdout true true)
      (outcomeCount mapping holdout true true + outcomeCount mapping holdout true false)) = true
  «recall» : Double.le args.minHoldoutRecall (countRatio (outcomeCount mapping holdout true true)
    (outcomeCount mapping holdout true true + outcomeCount mapping holdout false true)) = true
  tp : metrics.tp.toNat = outcomeCount mapping holdout true true
  tn : metrics.tn.toNat = outcomeCount mapping holdout false false
  fp : metrics.fp.toNat = outcomeCount mapping holdout true false
  fn : metrics.fn.toNat = outcomeCount mapping holdout false true

section

variable {σ : Type} {random : PyRandom σ} {args : WorkerArgs}
  {sha256 : List Char → Vector UInt8 32} {generatedUnixNs : ℤ} {hardware : Hardware}
  {report : RunsAnalysis → Analysis} {csvs : List TimingCsv} {o : RunsAnalysis}

/-- Behind the checks, the worker analyzes the runs. -/
theorem analyzeRuns_of_workerAnalysis (h : workerAnalysis random args csvs = .ok o) :
    analyzeRuns random args csvs = .ok o := by
  obtain ⟨_, -, h⟩ := Except.bind_eq_ok.1 h
  obtain ⟨_, -, h⟩ := Except.bind_eq_ok.1 h
  exact h

/-- A worker whose report is accepted has exited with zero, and its analysis has passed. -/
theorem success_of_verdict {cfg : CalibrationConfig} {r : Except WorkerError RunsAnalysis}
    {out : CalibrationResult}
    (h : calibrationVerdict cfg (workerEnd args sha256 generatedUnixNs hardware report r).exitCode
      (workerEnd args sha256 generatedUnixNs hardware report r).report = (.ok, out)) :
    ∃ o, r = .ok o ∧ o.success args = true := by
  have hcode : ∀ {code : ℤ} {file : Option (List Char)} {out : CalibrationResult}, code ≠ 0 →
      calibrationVerdict cfg code file ≠ (.ok, out) := by
    intro code file out hcode hverdict
    rw [calibrationVerdict] at hverdict
    dsimp only at hverdict
    rw [if_pos hcode] at hverdict
    split_ifs at hverdict
    · cases hverdict
    · cases hverdict
    · cases hverdict
  cases r with
  | error e =>
    cases e with
    | uncaught => exact absurd h (hcode one_ne_zero)
    | calibrationError text => exact absurd h (hcode two_ne_zero)
  | ok o =>
    refine ⟨o, rfl, ?_⟩
    by_contra hfailed
    have hexit : (workerEnd args sha256 generatedUnixNs hardware report (.ok o)).exitCode = 2 :=
      if_neg hfailed
    rw [hexit] at h
    exact hcode two_ne_zero h

/-- A report of an analysis that has passed is loaded, with the masks of the analysis. -/
theorem verdict_of_success (cfg : CalibrationConfig)
    (hwords : ∀ csv ∈ csvs, ∀ row ∈ csv.rows, row.Words) (hmany : args.maxMasks ≤ 32)
    (h : workerAnalysis random args csvs = .ok o) (hsuccess : o.success args = true)
    (hreport : Reports args o (report o))
    (hsize : (atomicWriteJson ((report o).result sha256)).length ≤ calibrationJsonMaxBytes) :
    ∃ out, calibrationVerdict cfg
        (workerEnd args sha256 generatedUnixNs hardware report (.ok o)).exitCode
        (workerEnd args sha256 generatedUnixNs hardware report (.ok o)).report = (.ok, out) ∧
      out.statusSuccess = true ∧ out.acceptancePassed = true ∧
      out.bankMasks.map UInt64.toNat = o.selectedMasks ∧
      out.maskSetId = maskSetId sha256 o.selectedMasks ∧
      out.holdout.tp.toNat = o.holdoutMetrics.tp ∧ out.holdout.tn.toNat = o.holdoutMetrics.tn ∧
      out.holdout.fp.toNat = o.holdoutMetrics.fp ∧
      out.holdout.fn.toNat = o.holdoutMetrics.fn := by
  have hgood := goodMasks_of_analyzeRuns (analyzeRuns_of_workerAnalysis h) hwords
  have hgood' : GoodMasks args (report o).selectedMasks := hreport.masks ▸ hgood
  obtain ⟨out, hload, hstatus, hpassed, hmasks, hid, htp, htn, hfp, hfn⟩ :=
    @calibrationLoadResult_success sha256 (report o) (cfg.resultPath.getD []) args
      (hreport.success.trans hsuccess) hgood' hmany hsize
  have hexit : (workerEnd args sha256 generatedUnixNs hardware report (.ok o)).exitCode = 0 :=
    if_pos hsuccess
  have hlt := (report o).holdoutMetrics.total_lt
  have hword : ∀ {x : UInt64} {n m : ℕ}, x = UInt64.ofNat n → n < 2 ^ 63 → n = m → x.toNat = m := by
    rintro x n m rfl hn rfl
    exact UInt64.toNat_ofNat_of_lt' (hn.trans (by decide))
  refine ⟨{ out with workerExitCode := 0 }, ?_, hstatus, hpassed, ?_,
    hid.trans (congrArg _ hreport.masks), hword htp (by omega) hreport.holdoutMetrics.tp,
    hword htn (by omega) hreport.holdoutMetrics.tn, hword hfp (by omega) hreport.holdoutMetrics.fp,
    hword hfn (by omega) hreport.holdoutMetrics.fn⟩
  · rw [hexit, workerEnd, calibrationVerdict, hload]
    rfl
  · rw [hmasks, List.map_map, hreport.masks]
    exact (List.map_congr_left fun m hm => UInt64.toNat_ofNat_of_lt' (hgood.words m hm).2).trans
      (List.map_id' _)

/-- The daemon has a mapping from a result with the masks of an analysis. -/
theorem mapping_of_masks {out : CalibrationResult} {masks : List ℕ} (hgood : GoodMasks args masks)
    (hmany : args.maxMasks ≤ 32) (hstatus : out.statusSuccess = true)
    (hpassed : out.acceptancePassed = true) (hmasks : out.bankMasks.map UInt64.toNat = masks)
    (hid : out.maskSetId = maskSetId sha256 masks) :
    ∃ mapping, dramMappingInitFromCalibration out = (.ok, mapping) ∧
      mapping.masks.map UInt64.toNat = masks ∧ dramMappingIsReady mapping = true ∧
      BalancedClasses mapping := by
  have hlength : out.bankMasks.length = masks.length := by rw [← hmasks, List.length_map]
  have hpos := List.length_pos_iff.2 hgood.ne_nil
  have hle := hgood.length_le
  have hrank : gf2Rank (out.bankMasks.map UInt64.toNat) =
      (out.bankMasks.map UInt64.toNat).length := by
    rw [hmasks]
    exact hgood.rank
  have hind := linearIndependent_of_gf2Rank hrank
  have hidLen : boundedStrlen out.maskSetId calibrationMaskSetIdMax = 16 :=
    hid ▸ boundedStrlen_maskSetId sha256 masks
  have hrc : validateCalibrationResult out = .ok := by
    rw [validateCalibrationResult, hstatus, hpassed]
    simp only [Bool.not_true, Bool.or_self, Bool.false_eq_true, if_false, hidLen]
    rw [if_neg (by rw [calibrationMaxBankMasks]; omega),
      if_neg (by rw [calibrationMaskSetIdMax]; omega)]
    exact validateMasks_of_linearIndependent hind
  have hready : dramMappingIsReady
      ⟨out.bankMasks, out.maskSetId.take (boundedStrlen out.maskSetId calibrationMaskSetIdMax),
        true⟩ = true := by
    rw [dramMappingIsReady, Bool.true_and, decide_eq_true_eq]
    show 0 < out.bankMasks.length
    omega
  refine ⟨_, ?_, hmasks, hready, balancedClasses_of_linearIndependent hready ?_ hind⟩
  · rw [dramMappingInitFromCalibration, hrc]
    rfl
  · show out.bankMasks.length ≤ 63
    omega

/-- The daemon accepts a calibration just if the worker's analysis has passed its gate; a failed
    analysis is rejected. -/
theorem accepted_iff_success (cfg : CalibrationConfig)
    (hwords : ∀ csv ∈ csvs, ∀ row ∈ csv.rows, row.Words) (hmany : args.maxMasks ≤ 32)
    (hreport : ∀ o, workerAnalysis random args csvs = .ok o → Reports args o (report o))
    (hsize : ∀ o, workerAnalysis random args csvs = .ok o →
      (atomicWriteJson ((report o).result sha256)).length ≤ calibrationJsonMaxBytes) :
    let w := workerEnd args sha256 generatedUnixNs hardware report
      (workerAnalysis random args csvs)
    ((calibrationVerdict cfg w.exitCode w.report).1 = .ok ↔
      ∃ o, workerAnalysis random args csvs = .ok o ∧ o.success args = true) ∧
    ∀ o, workerAnalysis random args csvs = .ok o → o.success args = false →
      (calibrationVerdict cfg w.exitCode w.report).1 = .errRejected := by
  intro w
  refine ⟨⟨fun hok => ?_, ?_⟩, fun o ho hfailed => ?_⟩
  · exact success_of_verdict (Prod.ext hok rfl)
  · rintro ⟨o, ho, hsuccess⟩
    obtain ⟨out, hverdict, -⟩ :=
      verdict_of_success cfg hwords hmany ho hsuccess (hreport o ho) (hsize o ho)
    rw [← ho] at hverdict
    exact congrArg Prod.fst hverdict
  · have hload : (calibrationLoadResult (cfg.resultPath.getD [])
        (some (atomicWriteJson ((report o).result sha256)))).1 = .errRejected :=
      calibrationLoadResult_failed sha256 ((hreport o ho).success.trans hfailed) (hsize o ho)
    have hw : w = ⟨2, some (atomicWriteJson ((report o).result sha256))⟩ := by
      show workerEnd args sha256 generatedUnixNs hardware report _ = _
      rw [ho, workerEnd, hfailed]
      rfl
    rw [hw, calibrationVerdict]
    simp only [hload, ne_eq, OfNat.ofNat_ne_zero, not_false_eq_true, if_true]

/-- After an accepted calibration, the daemon has a mapping: its masks are those that the worker
    has chosen, its classes are balanced, and it tells conflicts on the holdout, which with two
    runs or more are the kept pairs of the last one, as well as the gate asks for. -/
theorem accepted_mapping {cfg : CalibrationConfig}
    (hwords : ∀ csv ∈ csvs, ∀ row ∈ csv.rows, row.Words) (hmany : args.maxMasks ≤ 32)
    (hreport : ∀ o, workerAnalysis random args csvs = .ok o → Reports args o (report o))
    (hsize : ∀ o, workerAnalysis random args csvs = .ok o →
      (atomicWriteJson ((report o).result sha256)).length ≤ calibrationJsonMaxBytes)
    {out : CalibrationResult}
    (h : calibrationVerdict cfg
      (workerEnd args sha256 generatedUnixNs hardware report
        (workerAnalysis random args csvs)).exitCode
      (workerEnd args sha256 generatedUnixNs hardware report
        (workerAnalysis random args csvs)).report = (.ok, out)) :
    ∃ o mapping, analyzeRuns random args csvs = .ok o ∧
      dramMappingInitFromCalibration out = (.ok, mapping) ∧
      mapping.masks.map UInt64.toNat = o.selectedMasks ∧ BalancedClasses mapping ∧
      MeetsGate args mapping o.splits.holdout out.holdout ∧
      (2 ≤ csvs.length → (o.runs.map (·.kept)).getLast? = some o.splits.holdout) := by
  obtain ⟨o, ho, hsuccess⟩ := success_of_verdict h
  obtain ⟨out', hverdict, hstatus, hpassed, hmasks, hid, htp, htn, hfp, hfn⟩ :=
    verdict_of_success cfg hwords hmany ho hsuccess (hreport o ho) (hsize o ho)
  rw [ho, hverdict] at h
  obtain rfl : out' = out := (Prod.mk.inj h).2
  have hanalysis := analyzeRuns_of_workerAnalysis ho
  have hgood := goodMasks_of_analyzeRuns hanalysis hwords
  obtain ⟨mapping, hinit, hmapping, hready, hbalanced⟩ :=
    mapping_of_masks hgood hmany hstatus hpassed hmasks hid
  obtain ⟨hfiles, hsplits, hchosen⟩ := analyzeRuns_eq_ok hanalysis
  -- what the daemon counts is what the gate has counted
  have hcount := countP_sameClass hready (words_of_analyzeRuns hanalysis hwords).2
  rw [hmapping] at hcount
  have hmetrics := hchosen.holdoutMetrics
  rw [evaluate] at hmetrics
  simp only [RunsAnalysis.success, Bool.and_eq_true] at hsuccess
  obtain ⟨⟨⟨-, hprecision⟩, hrecall⟩, -⟩ := hsuccess
  refine ⟨o, mapping, hanalysis, hinit, hmapping, hbalanced, ?_, fun htwo => ?_⟩
  · rw [hmetrics] at hprecision hrecall htp htn hfp hfn
    simp only [← hcount] at hprecision hrecall htp htn hfp hfn
    exact ⟨hprecision, hrecall, htp, htn, hfp, hfn⟩
  · refine getLast?_splitRuns ?_ hsplits
    rwa [List.length_map, length_analyzeFiles hfiles]

end

/-- The report of two runs, whose second is the holdout. -/
def twoRunsReport : Analysis :=
  { oneMask with
    runs :=
      [{ csv := .ofString "timing_run.csv"
         threshold := ⟨56, .dec false 1 [2] 2, .dec false 1 [] 3, .dec false 8 [8] 2, 4, 2, 2⟩
         rawUniquePairs := 4
         consistentPairs := 4
         droppedInconsistentPairs := 0
         consistentConflicts := 2 },
       { csv := .ofString "timing_run.csv"
         threshold := ⟨50, .dec false 1 [] 2, .dec false 9 [] 2, .dec false 8 [] 2, 2, 1, 1⟩
         rawUniquePairs := 2
         consistentPairs := 2
         droppedInconsistentPairs := 0
         consistentConflicts := 1 }]
    gf2Diag := ⟨[1, 2], 1, 1, 1, 1, .dec false 1 [] 1, [(1, 1)], 1, 1⟩
    history := [⟨6, 1, perfectMetrics⟩] }

/-- The metrics of the analysis of two runs, on each of the splits. -/
def twoMetrics : TuneMetrics := ⟨1, 1, 0, 0, .ofRat 1, .ofRat 1, .ofRat 1, .ofRat 1⟩

/-- The first of the two runs, analyzed. -/
def firstAnalyzed : AnalyzedRun where
  runId := 0
  csv := "timing_run.csv"
  threshold := ⟨56, .ofRat 12, .ofRat 100, .ofRat 88, 4, 2, 2⟩
  rawUniquePairs := 4
  kept := [⟨0, 0, 6, 6, 100, true, 1⟩, ⟨0, 8, 14, 6, 102, true, 1⟩, ⟨0, 0, 2, 2, 10, false, 1⟩,
    ⟨0, 0, 4, 4, 12, false, 1⟩]
  dropped := 0

/-- The last of the two runs, analyzed. -/
def lastAnalyzed : AnalyzedRun where
  runId := 1
  csv := "timing_run.csv"
  threshold := ⟨50, .ofRat 10, .ofRat 90, .ofRat 80, 2, 1, 1⟩
  rawUniquePairs := 2
  kept := [⟨1, 16, 22, 6, 90, true, 1⟩, ⟨1, 0, 2, 2, 10, false, 1⟩]
  dropped := 0

/-- A small number as a decimal. -/
theorem prints_natCast {d : Fin 10} {ds : List (Fin 10)} {decpt : ℤ} {n : ℕ}
    (hdecimal : PyFloat.decimal d ds decpt = n) (hne : n ≠ 0) (hn : n < 2 ^ 53) :
    (PyFloat.dec false d ds decpt).Prints (.ofRat n) := by
  refine .of_dyadic (k := 0) (by norm_num) hdecimal (Nat.cast_ne_zero.2 hne) ⟨n, ?_, ?_⟩
  · rw [Nat.abs_cast]
    exact_mod_cast hn
  · rw [pow_zero, div_one, Int.cast_natCast]

/-- No pair is told wrong in the two runs. -/
theorem perfectMetrics_prints : perfectMetrics.Prints twoMetrics := by
  have hone : (PyFloat.dec false 1 [] 1).Prints (.ofRat 1) := by
    exact_mod_cast @prints_natCast 1 [] 1 1 (by norm_num [PyFloat.decimal, PyFloat.digitsValue])
      one_ne_zero (by norm_num)
  exact ⟨rfl, rfl, rfl, rfl, hone, hone, hone, hone⟩

/-- The report holds what the analysis of the two runs has found. -/
theorem prints_twoRunsReport :
    List.Forall₂ RunSummary.Prints twoRunsReport.runs [firstAnalyzed, lastAnalyzed] := by
  refine .cons ⟨rfl, ⟨rfl, ?_, ?_, ?_, rfl, rfl, rfl⟩, rfl, rfl, rfl, rfl⟩
    (.cons ⟨rfl, ⟨rfl, ?_, ?_, ?_, rfl, rfl, rfl⟩, rfl, rfl, rfl, rfl⟩ .nil)
  · exact @prints_natCast 1 [2] 2 12 (by norm_num [PyFloat.decimal, PyFloat.digitsValue])
      (by norm_num) (by norm_num)
  · exact @prints_natCast 1 [] 3 100 (by norm_num [PyFloat.decimal, PyFloat.digitsValue])
      (by norm_num) (by norm_num)
  · exact @prints_natCast 8 [8] 2 88 (by norm_num [PyFloat.decimal, PyFloat.digitsValue])
      (by norm_num) (by norm_num)
  · exact @prints_natCast 1 [] 2 10 (by norm_num [PyFloat.decimal, PyFloat.digitsValue])
      (by norm_num) (by norm_num)
  · exact @prints_natCast 9 [] 2 90 (by norm_num [PyFloat.decimal, PyFloat.digitsValue])
      (by norm_num) (by norm_num)
  · exact @prints_natCast 8 [] 2 80 (by norm_num [PyFloat.decimal, PyFloat.digitsValue])
      (by norm_num) (by norm_num)

/-- The analysis of the two runs passes the gate, and `twoRunsReport` is its report. -/
theorem workerAnalysis_two {o : RunsAnalysis}
    (h : workerAnalysis unitRandom smallArgs [firstRun, lastRun] = .ok o) :
    o.success smallArgs = true ∧ Reports smallArgs o twoRunsReport := by
  have hfound : (workerAnalysis unitRandom smallArgs [firstRun, lastRun]).toOption.map (fun o =>
      (o.runs, o.splits.sizes, o.discovered.diagnostics, o.discovered.candidates.length)) =
      some ([firstAnalyzed, lastAnalyzed], ⟨2, 1, 2, 1, 2, 1⟩,
        ⟨[1, 2], 1, 1, 1, 1, .ofRat 1, [(1, 1)], 1, 1⟩, 1) := by
    decide +kernel
  have hchosen : (workerAnalysis unitRandom smallArgs [firstRun, lastRun]).toOption.map (fun o =>
      (o.success smallArgs, o.history, o.selectedMasks, o.fitMetrics, o.tuneMetrics,
        o.holdoutMetrics)) =
      some (true, [⟨formatMask 6, 2, 1, twoMetrics⟩], [6], twoMetrics, twoMetrics, twoMetrics) := by
    decide +kernel
  rw [h] at hfound hchosen
  obtain ⟨hruns, hsplits, hdiagnostics, hcandidates⟩ := by
    simpa only [Prod.mk.injEq] using Option.some.inj hfound
  obtain ⟨hsuccess, hhistory, hmasks, hfit, htune, hholdout⟩ := by
    simpa only [Prod.mk.injEq] using Option.some.inj hchosen
  have hmetrics := perfectMetrics_prints
  refine ⟨hsuccess, hsuccess.symm, ?_, hsplits.symm, ?_, hcandidates.symm, ?_, hmasks.symm, ?_, ?_,
    ?_⟩
  · rw [hruns]
    exact prints_twoRunsReport
  · rw [hdiagnostics]
    exact ⟨rfl, rfl, rfl, rfl, rfl, hmetrics.accuracy, rfl, rfl, rfl⟩
  · rw [hhistory]
    exact .cons ⟨rfl, rfl, hmetrics⟩ .nil
  · rwa [hfit]
  · rwa [htune]
  · rwa [hholdout]

theorem exists_workerAnalysis_two :
    ∃ o, workerAnalysis unitRandom smallArgs [firstRun, lastRun] = .ok o := by
  have hsome :
      (workerAnalysis unitRandom smallArgs [firstRun, lastRun]).toOption.isSome = true := by
    decide +kernel
  obtain ⟨o, ho⟩ := Option.isSome_iff_exists.1 hsome
  exact ⟨o, Except.eq_ok_of_toOption ho⟩

theorem words_two : ∀ csv ∈ [firstRun, lastRun], ∀ row ∈ csv.rows, row.Words := by
  have hrow : ∀ (a1 a2 : ℕ) (cycles : ℚ), a1 < 2 ^ 64 → a2 < 2 ^ 64 →
      (timingRow a1 a2 cycles).Words := by
    intro a1 a2 cycles ha1 ha2
    constructor
    · rintro a ⟨⟩
      exact ha1
    · rintro a ⟨⟩
      exact ha2
  simp only [firstRun, lastRun, timingCsv, List.forall_mem_cons, List.not_mem_nil, false_implies,
    implies_true, and_true]
  exact ⟨⟨hrow _ _ _ (by decide) (by decide), hrow _ _ _ (by decide) (by decide),
    hrow _ _ _ (by decide) (by decide), hrow _ _ _ (by decide) (by decide)⟩,
    hrow _ _ _ (by decide) (by decide), hrow _ _ _ (by decide) (by decide)⟩

/-- The report of the two runs is short. -/
theorem size_twoRunsReport :
    (atomicWriteJson (twoRunsReport.result fun _ => sha256OneMask)).length ≤
      calibrationJsonMaxBytes := by
  decide +kernel

/-- Two runs are accepted. -/
theorem accepted_iff_success_two :
    (calibrationVerdict calibrationExample
      (workerEnd smallArgs (fun _ => sha256OneMask) 0 twoRunsReport.hardware
        (fun _ => twoRunsReport) (workerAnalysis unitRandom smallArgs [firstRun, lastRun])).exitCode
      (workerEnd smallArgs (fun _ => sha256OneMask) 0 twoRunsReport.hardware
        (fun _ => twoRunsReport)
          (workerAnalysis unitRandom smallArgs [firstRun, lastRun])).report).1 = .ok := by
  obtain ⟨o, ho⟩ := exists_workerAnalysis_two
  exact (accepted_iff_success calibrationExample words_two (by decide)
    (fun o ho => (workerAnalysis_two ho).2) (fun _ _ => size_twoRunsReport)).1.2
      ⟨o, ho, (workerAnalysis_two ho).1⟩

/-- The mapping of two runs has the one mask. -/
theorem accepted_mapping_two :
    ∃ out mapping, dramMappingInitFromCalibration out = (.ok, mapping) ∧
      mapping.masks.map UInt64.toNat = [6] ∧ BalancedClasses mapping := by
  obtain ⟨o, ho⟩ := exists_workerAnalysis_two
  obtain ⟨hsuccess, hreports⟩ := workerAnalysis_two ho
  obtain ⟨out, hverdict, -⟩ := @verdict_of_success _ unitRandom smallArgs (fun _ => sha256OneMask)
    0 twoRunsReport.hardware (fun _ => twoRunsReport) [firstRun, lastRun] o calibrationExample
    words_two (by decide) ho hsuccess hreports size_twoRunsReport
  rw [← ho] at hverdict
  obtain ⟨o', mapping, hanalysis, hinit, hmasks, hbalanced, -⟩ := accepted_mapping words_two
    (by decide) (fun o ho => (workerAnalysis_two ho).2) (fun _ _ => size_twoRunsReport) hverdict
  obtain rfl : o = o' := Except.ok.inj ((analyzeRuns_of_workerAnalysis ho).symm.trans hanalysis)
  exact ⟨out, mapping, hinit, hmasks.trans hreports.masks.symm, hbalanced⟩

end CgroupResearch
