import CgroupResearch.Lib.CNumber
import CgroupResearch.Lib.Except

/-!
# The activity of a process

`proc_activity.c` samples the counters of a process from `/proc/[pid]/stat`
(`procActivitySampleNow`), and rates what happened between two samples
(`procActivityComputeDelta`): how much CPU time it used, how often it faulted and how much
memory it holds, each as a score between `0` and `1`.

What sampling meets in the system is an input (`StatEnv`). The arithmetic of `double`s is
exact here; a quotient by zero, which is not a number in C, has no counterpart: the full
scales of a configuration are positive.

* `sampleNow_spec`: what a successful sample holds;
* `computeDelta_ok`: two samples that give a delta are of one process, in the order of time,
  and their counters did not go back; its scores are between `0` and `1`;
* `Successive.exact`: the differences of the counters do not wrap around.
-/

namespace CgroupResearch

open CNumber CString

/-- `PROC_ACTIVITY_NSEC_PER_SEC`. -/
def procActivityNsecPerSec : UInt64 := 1000000000

/-- `PROC_ACTIVITY_STAT_LINE_MAX`. -/
def procActivityStatLineMax : ℕ := 4096

/-- `PROC_ACTIVITY_COMM_MAX`. -/
def procActivityCommMax : ℕ := 64

/-- `PROC_ACTIVITY_REASON_MAX`. -/
def procActivityReasonMax : ℕ := 128

/-- `enum proc_activity_rc`. -/
inductive ProcActivityRc
  | ok
  | errInvalidArg
  | errOpen
  | errRead
  | errParse
  | errSysconf
  | errPidReused
  | errNonMonotonicTime
  deriving DecidableEq, Repr

/-- `struct proc_activity_config`. -/
structure ProcActivityConfig where
  activeCpuRatioThreshold : ℚ
  activeFaultsPerSecThreshold : ℚ
  minRssPages : UInt64
  majorFaultWeight : ℚ
  cpuRatioFullScale : ℚ
  faultsPerSecFullScale : ℚ
  rssMibFullScale : ℚ
  deriving DecidableEq, Repr

/-- `struct proc_activity_sample`. -/
structure ProcActivitySample where
  pid : ℤ
  comm : List Char
  state : Char
  valid : Bool
  timestampNs : UInt64
  clockTicksPerSec : ℤ
  pageSize : UInt64
  minflt : UInt64
  majflt : UInt64
  utimeTicks : UInt64
  stimeTicks : UInt64
  starttimeTicks : UInt64
  vsizeBytes : UInt64
  rssPages : ℤ
  numThreads : ℤ
  deriving DecidableEq, Repr

/-- `struct proc_activity_delta`. -/
structure ProcActivityDelta where
  pid : ℤ
  valid : Bool
  active : Bool
  pidReused : Bool
  elapsedSec : ℚ
  cpuTicksDelta : UInt64
  cpuSeconds : ℚ
  cpuRatio : ℚ
  minfltDelta : UInt64
  majfltDelta : UInt64
  weightedFaults : ℚ
  faultsPerSec : ℚ
  rssMib : ℚ
  cpuScore : ℚ
  faultScore : ℚ
  rssScore : ℚ
  totalScore : ℚ
  reason : String
  deriving DecidableEq, Repr

/-- What `proc_activity_sample_now` meets in the system: the results of `sysconf`, the time
    (seconds and nanoseconds, `none` if it cannot be read), and the text of
    `/proc/[pid]/stat` (`none` if it cannot be opened). -/
structure StatEnv where
  pageSize : ℤ
  clockTicks : ℤ
  clock : Option (UInt64 × UInt64)
  stat : Option (List Char)
  deriving DecidableEq, Repr

/-- `proc_activity_config_default`. -/
def procActivityConfigDefault : ProcActivityConfig where
  activeCpuRatioThreshold := 1 / 50
  activeFaultsPerSecThreshold := 100
  minRssPages := 256
  majorFaultWeight := 8
  cpuRatioFullScale := 1 / 4
  faultsPerSecFullScale := 1000
  rssMibFullScale := 256

/-- `proc_activity_sample_reset`. -/
def procActivitySampleReset : ProcActivitySample where
  pid := 0
  comm := []
  state := '\x00'
  valid := false
  timestampNs := 0
  clockTicksPerSec := 0
  pageSize := 0
  minflt := 0
  majflt := 0
  utimeTicks := 0
  stimeTicks := 0
  starttimeTicks := 0
  vsizeBytes := 0
  rssPages := 0
  numThreads := 0

/-- `proc_activity_delta_reset`. -/
def procActivityDeltaReset : ProcActivityDelta where
  pid := 0
  valid := false
  active := false
  pidReused := false
  elapsedSec := 0
  cpuTicksDelta := 0
  cpuSeconds := 0
  cpuRatio := 0
  minfltDelta := 0
  majfltDelta := 0
  weightedFaults := 0
  faultsPerSec := 0
  rssMib := 0
  cpuScore := 0
  faultScore := 0
  rssScore := 0
  totalScore := 0
  reason := ""

/-! ## Sampling -/

/-- `get_time_ns`. -/
def getTimeNs : Option (UInt64 × UInt64) → Except ProcActivityRc UInt64
  | none => .error .errRead
  | some (sec, nsec) => .ok (sec * procActivityNsecPerSec + nsec)

/-- `skip_spaces`. -/
def skipSpaces (p : List Char) : List Char := p.dropWhile (· = ' ')

/-- The loop of `parse_stat_values`, with room for `cap` values more. -/
def parseStatLoop : (cap : ℕ) → (p : List Char) → (vals : List ℤ) →
    Except ProcActivityRc (List ℤ)
  | 0, _, vals => .ok vals
  | cap + 1, p, vals =>
    if p.head? = none ∨ p.head? = some '\n' then
      .ok vals
    else
      let r := strtoll p 10
      if r.consumed = 0 then
        .ok vals
      else if r.erange then
        .error .errParse
      else
        parseStatLoop cap (skipSpaces (p.drop r.consumed)) (vals ++ [r.value])

/-- `parse_stat_values`. -/
def parseStatValues (p : List Char) (valsCap : ℕ) : Except ProcActivityRc (List ℤ) :=
  parseStatLoop valsCap (skipSpaces p) []

/-- `checked_u64`. -/
def checkedU64 (value : ℤ) : Except ProcActivityRc UInt64 :=
  if value < 0 then .error .errParse else .ok (UInt64.ofNat value.toNat)

/-- The name, the state and what follows them in a line of `/proc/[pid]/stat`. -/
def parseStatHead (line : List Char) : Except ProcActivityRc (List Char × Char × List Char) :=
  match line.findIdx? (· = '('), line.reverse.findIdx? (· = ')') with
  | some lparen, some fromEnd =>
    let rparen := line.length - 1 - fromEnd
    if rparen ≤ lparen then
      .error .errParse
    else
      let comm := (line.drop (lparen + 1)).take (rparen - lparen - 1)
      match skipSpaces (line.drop (rparen + 1)) with
      | [] => .error .errParse
      | state :: p =>
        if state = '\n' then .error .errParse
        else .ok (comm.take (procActivityCommMax - 1), state, p)
  | _, _ => .error .errParse

/-- The fields of a sample that are among the values of the line, from its fourth field on. -/
def statFields (vals : List ℤ) (out : ProcActivitySample) :
    Except ProcActivityRc ProcActivitySample := do
  let minflt ← checkedU64 (vals.getD 6 0)
  let majflt ← checkedU64 (vals.getD 8 0)
  let utimeTicks ← checkedU64 (vals.getD 10 0)
  let stimeTicks ← checkedU64 (vals.getD 11 0)
  let starttimeTicks ← checkedU64 (vals.getD 18 0)
  let vsizeBytes ← checkedU64 (vals.getD 19 0)
  return { out with
    minflt := minflt
    majflt := majflt
    utimeTicks := utimeTicks
    stimeTicks := stimeTicks
    starttimeTicks := starttimeTicks
    vsizeBytes := vsizeBytes
    numThreads := vals.getD 16 0
    rssPages := vals.getD 20 0
    valid := true }

/-- What `proc_activity_sample_now` makes of the line it read. -/
def parseStatLine (line : List Char) (out : ProcActivitySample) :
    Except ProcActivityRc ProcActivitySample := do
  let (comm, state, p) ← parseStatHead line
  let vals ← parseStatValues p 21
  if vals.length < 21 then
    .error .errParse
  else
    statFields vals { out with comm := comm, state := state }

/-- `proc_activity_sample_now`. -/
def procActivitySampleNow (env : StatEnv) (pid : ℤ) : Except ProcActivityRc ProcActivitySample :=
  if pid ≤ 0 then
    .error .errInvalidArg
  else if env.pageSize ≤ 0 ∨ env.clockTicks ≤ 0 then
    .error .errSysconf
  else do
    let timestampNs ← getTimeNs env.clock
    let text ← env.stat.elim (.error .errOpen) .ok
    let line ← (fgetsLines procActivityStatLineMax text []).head?.elim (.error .errRead) .ok
    parseStatLine (cstr line) { procActivitySampleReset with
      pid := pid
      timestampNs := timestampNs
      clockTicksPerSec := env.clockTicks
      pageSize := UInt64.ofNat env.pageSize.toNat }

/-! ## Two samples -/

/-- `clamp01`. -/
def clamp01 (value : ℚ) : ℚ := if value < 0 then 0 else if 1 < value then 1 else value

/-- What `snprintf` leaves in a `reason` of a delta. -/
def activityReason (text : String) : String :=
  String.ofList (text.toList.take (procActivityReasonMax - 1))

/-- Whether a delta is that of an active process, and why: the end of
    `proc_activity_compute_delta`. -/
def rateActivity (new : ProcActivitySample) (cfg : ProcActivityConfig)
    (delta : ProcActivityDelta) : Bool × String :=
  let rssLargeEnough := cfg.minRssPages.toInt64.toInt ≤ new.rssPages
  let cpuActive := cfg.activeCpuRatioThreshold ≤ delta.cpuRatio
  let faultActive := cfg.activeFaultsPerSecThreshold ≤ delta.faultsPerSec
  let stateActive := new.state = 'R' ∨ new.state = 'D'
  let cpu := (Double.ofRat delta.cpuRatio).formatFixed4
  let faults := (Double.ofRat delta.faultsPerSec).formatFixed2
  let rss := (Double.ofRat delta.rssMib).formatFixed2
  if new.state = 'Z' then
    (false, activityReason ("inactive: zombie state=Z rss=" ++ rss ++ "MiB"))
  else if ¬rssLargeEnough then
    (false, activityReason ("inactive: rss too small rss_pages=" ++ toString new.rssPages ++
      " threshold=" ++ toString cfg.minRssPages.toNat))
  else if cpuActive ∨ faultActive ∨ stateActive then
    (true, activityReason ("active: cpu=" ++ cpu ++ " faults/s=" ++ faults ++ " rss=" ++ rss ++
      "MiB state=" ++ String.singleton new.state))
  else
    (false, activityReason ("inactive: below threshold cpu=" ++ cpu ++ " faults/s=" ++ faults ++
      " rss=" ++ rss ++ "MiB state=" ++ String.singleton new.state))

/-- `proc_activity_compute_delta`. -/
def procActivityComputeDelta (old new : ProcActivitySample) (cfg : ProcActivityConfig) :
    ProcActivityRc × ProcActivityDelta :=
  let out := procActivityDeltaReset
  if old.valid = false ∨ new.valid = false then
    (.errInvalidArg, out)
  else if old.pid ≠ new.pid then
    (.errInvalidArg, out)
  else
    let out := { out with pid := new.pid }
    if old.starttimeTicks ≠ new.starttimeTicks then
      (.errPidReused, { out with
        pidReused := true
        reason := activityReason "pid reused: starttime changed" })
    else if new.timestampNs ≤ old.timestampNs then
      (.errNonMonotonicTime, out)
    else
      let elapsedNs := new.timestampNs - old.timestampNs
      let out := { out with elapsedSec := (elapsedNs.toNat : ℚ) / procActivityNsecPerSec.toNat }
      if out.elapsedSec ≤ 0 then
        (.errNonMonotonicTime, out)
      else
        let oldCpuTicks := old.utimeTicks + old.stimeTicks
        let newCpuTicks := new.utimeTicks + new.stimeTicks
        if newCpuTicks < oldCpuTicks then
          (.errParse, out)
        else if new.minflt < old.minflt ∨ new.majflt < old.majflt then
          (.errParse, out)
        else
          let clockTicks :=
            if new.clockTicksPerSec ≤ 0 then old.clockTicksPerSec else new.clockTicksPerSec
          if clockTicks ≤ 0 then
            (.errSysconf, out)
          else
            let cpuTicksDelta := newCpuTicks - oldCpuTicks
            let cpuSeconds := (cpuTicksDelta.toNat : ℚ) / clockTicks
            let cpuRatio := cpuSeconds / out.elapsedSec
            let minfltDelta := new.minflt - old.minflt
            let majfltDelta := new.majflt - old.majflt
            let weightedFaults := minfltDelta.toNat + cfg.majorFaultWeight * majfltDelta.toNat
            let faultsPerSec := weightedFaults / out.elapsedSec
            let rssMib : ℚ :=
              if 0 < new.rssPages ∧ 0 < new.pageSize then
                new.rssPages * new.pageSize.toNat / (1024 * 1024)
              else
                0
            let cpuScore := clamp01 (cpuRatio / cfg.cpuRatioFullScale)
            let faultScore := clamp01 (faultsPerSec / cfg.faultsPerSecFullScale)
            let rssScore := clamp01 (rssMib / cfg.rssMibFullScale)
            let out := { out with
              cpuTicksDelta := cpuTicksDelta
              cpuSeconds := cpuSeconds
              cpuRatio := cpuRatio
              minfltDelta := minfltDelta
              majfltDelta := majfltDelta
              weightedFaults := weightedFaults
              faultsPerSec := faultsPerSec
              rssMib := rssMib
              cpuScore := cpuScore
              faultScore := faultScore
              rssScore := rssScore
              totalScore := 1 / 5 * cpuScore + 1 / 2 * faultScore + 3 / 10 * rssScore }
            let (active, reason) := rateActivity new cfg out
            (.ok, { out with active := active, reason := reason, valid := true })

/-! ## What samples hold -/

/-- The fields that are read are `long long`. -/
theorem parseStatLoop_lt {cap : ℕ} {p : List Char} {vals vals' : List ℤ}
    (hvals : ∀ v ∈ vals, v < 2 ^ 63) (h : parseStatLoop cap p vals = .ok vals') :
    ∀ v ∈ vals', v < 2 ^ 63 := by
  induction cap generalizing p vals with
  | zero =>
    cases h
    exact hvals
  | succ cap ih =>
    rw [parseStatLoop] at h
    split at h
    · cases h
      exact hvals
    · dsimp only at h
      split at h
      · cases h
        exact hvals
      · split at h
        · cases h
        · refine ih (fun v hv => ?_) h
          rcases List.mem_append.1 hv with hv | hv
          · exact hvals v hv
          · rw [List.mem_singleton.1 hv]
            exact strtoll_lt p 10

theorem checkedU64_lt {v : ℤ} {w : UInt64} (hv : v < 2 ^ 63) (h : checkedU64 v = .ok w) :
    w.toNat < 2 ^ 63 := by
  rw [checkedU64] at h
  split at h
  · cases h
  · cases h
    have hlt : v.toNat < 2 ^ 63 := by omega
    rwa [UInt64.toNat_ofNat_of_lt' (lt_trans hlt (by decide))]

/-- A sample as `proc_activity_sample_now` takes it: of the process asked for, with counters
    that are values of `long long`. -/
structure SampleOf (pid : ℤ) (s : ProcActivitySample) : Prop where
  pid_eq : s.pid = pid
  valid : s.valid = true
  minflt_lt : s.minflt.toNat < 2 ^ 63
  majflt_lt : s.majflt.toNat < 2 ^ 63
  utimeTicks_lt : s.utimeTicks.toNat < 2 ^ 63
  stimeTicks_lt : s.stimeTicks.toNat < 2 ^ 63

/-- The fields are in range in a sample. -/
theorem statFields_spec {vals : List ℤ} (hvals : ∀ v ∈ vals, v < 2 ^ 63)
    {out s : ProcActivitySample} (h : statFields vals out = .ok s) : SampleOf out.pid s := by
  rw [statFields] at h
  simp only [Except.bind_eq_ok] at h
  obtain ⟨minflt, hminflt, majflt, hmajflt, utime, hutime, stime, hstime, start, -, vsize, -,
    hs⟩ := h
  have hget : ∀ i, vals.getD i 0 < 2 ^ 63 := by
    intro i
    rw [List.getD_eq_getElem?_getD]
    cases hi : vals[i]? with
    | none => exact (by decide : (0 : ℤ) < 2 ^ 63)
    | some v => exact hvals v (List.mem_of_getElem? hi)
  cases hs
  exact ⟨rfl, rfl, checkedU64_lt (hget 6) hminflt, checkedU64_lt (hget 8) hmajflt,
    checkedU64_lt (hget 10) hutime, checkedU64_lt (hget 11) hstime⟩

/-- A sample is one of its process, with all its fields in range. -/
theorem sampleNow_spec {env : StatEnv} {pid : ℤ} {s : ProcActivitySample}
    (h : procActivitySampleNow env pid = .ok s) : SampleOf pid s := by
  rw [procActivitySampleNow] at h
  split at h
  · cases h
  · split at h
    · cases h
    · simp only [Except.bind_eq_ok, parseStatLine] at h
      obtain ⟨_, -, _, -, _, -, _, -, vals, hvals, h⟩ := h
      split at h
      · cases h
      · exact statFields_spec (parseStatLoop_lt (List.forall_mem_nil _) hvals) h

/-! ## What deltas tell -/

/-- The two samples of a delta: of one process, the counters of the second past those of the
    first. -/
structure Successive (old new : ProcActivitySample) : Prop where
  pid_eq : old.pid = new.pid
  starttimeTicks_eq : old.starttimeTicks = new.starttimeTicks
  timestampNs_lt : old.timestampNs < new.timestampNs
  cpuTicks_le : old.utimeTicks + old.stimeTicks ≤ new.utimeTicks + new.stimeTicks
  minflt_le : old.minflt ≤ new.minflt
  majflt_le : old.majflt ≤ new.majflt

/-- The scores of a delta. -/
structure Rated (delta : ProcActivityDelta) : Prop where
  cpuScore : delta.cpuScore ∈ Set.Icc 0 1
  faultScore : delta.faultScore ∈ Set.Icc 0 1
  rssScore : delta.rssScore ∈ Set.Icc 0 1
  totalScore : delta.totalScore =
    1 / 5 * delta.cpuScore + 1 / 2 * delta.faultScore + 3 / 10 * delta.rssScore

theorem clamp01_mem (q : ℚ) : clamp01 q ∈ Set.Icc 0 1 := by
  rw [clamp01]
  split
  · exact ⟨le_rfl, zero_le_one⟩
  · split
    · exact ⟨zero_le_one, le_rfl⟩
    · rename_i h0 h1
      exact ⟨not_lt.1 h0, not_lt.1 h1⟩

/-- A check is passed if the result is not the error it returns. -/
theorem passed_of_ok {α : Type} {check : Prop} [Decidable check] {rc : ProcActivityRc} {out out' : α}
    {next : ProcActivityRc × α} (h : (if check then (rc, out) else next) = (.ok, out'))
    (hrc : rc ≠ .ok) : ¬ check ∧ next = (.ok, out') := by
  split at h
  · exact absurd (congrArg Prod.fst h) hrc
  · next hcheck => exact ⟨hcheck, h⟩

/-- Two samples give a delta only if they succeed one another. -/
theorem computeDelta_ok {old new : ProcActivitySample} {cfg : ProcActivityConfig}
    {delta : ProcActivityDelta} (h : procActivityComputeDelta old new cfg = (.ok, delta)) :
    Successive old new ∧ Rated delta ∧
      delta.cpuTicksDelta =
        (new.utimeTicks + new.stimeTicks) - (old.utimeTicks + old.stimeTicks) ∧
      delta.minfltDelta = new.minflt - old.minflt ∧
      delta.majfltDelta = new.majflt - old.majflt := by
  rw [procActivityComputeDelta] at h
  obtain ⟨-, h⟩ := passed_of_ok h (by decide)
  obtain ⟨hpid, h⟩ := passed_of_ok h (by decide)
  obtain ⟨hstart, h⟩ := passed_of_ok h (by decide)
  obtain ⟨htime, h⟩ := passed_of_ok h (by decide)
  obtain ⟨-, h⟩ := passed_of_ok h (by decide)
  obtain ⟨hticks, h⟩ := passed_of_ok h (by decide)
  obtain ⟨hfaults, h⟩ := passed_of_ok h (by decide)
  obtain ⟨-, h⟩ := passed_of_ok h (by decide)
  rw [not_or] at hfaults
  rw [← (Prod.mk.inj h).2]
  exact ⟨⟨not_not.1 hpid, not_not.1 hstart, UInt64.not_le.1 htime, UInt64.not_lt.1 hticks,
    UInt64.not_lt.1 hfaults.1, UInt64.not_lt.1 hfaults.2⟩,
    ⟨clamp01_mem _, clamp01_mem _, clamp01_mem _, rfl⟩, rfl, rfl, rfl⟩

/-- The score of a process is between 0 and 1. -/
theorem Rated.totalScore_mem {delta : ProcActivityDelta} (h : Rated delta) :
    delta.totalScore ∈ Set.Icc 0 1 := by
  obtain ⟨⟨hc0, hc1⟩, ⟨hf0, hf1⟩, ⟨hr0, hr1⟩, ht⟩ := h
  rw [ht]
  constructor
  · positivity
  · linarith

/-- The differences of the counters, as numbers. -/
theorem Successive.exact {old new : ProcActivitySample} {pid : ℤ} (h : Successive old new)
    (ho : SampleOf pid old) (hn : SampleOf pid new) :
    (((new.utimeTicks + new.stimeTicks) - (old.utimeTicks + old.stimeTicks)).toNat : ℤ) =
        (new.utimeTicks.toNat + new.stimeTicks.toNat : ℤ) -
          (old.utimeTicks.toNat + old.stimeTicks.toNat) ∧
      ((new.minflt - old.minflt).toNat : ℤ) = (new.minflt.toNat : ℤ) - old.minflt.toNat ∧
      ((new.majflt - old.majflt).toNat : ℤ) = (new.majflt.toNat : ℤ) - old.majflt.toNat := by
  -- each of the two times is below `2 ^ 63`, so that their sum fits
  have hsum : ∀ {s : ProcActivitySample}, SampleOf pid s →
      (s.utimeTicks + s.stimeTicks).toNat = s.utimeTicks.toNat + s.stimeTicks.toNat := by
    intro s hs
    have hu := hs.utimeTicks_lt
    have ht := hs.stimeTicks_lt
    rw [UInt64.toNat_add, Nat.mod_eq_of_lt (by omega)]
  have hcpu := UInt64.le_iff_toNat_le.1 h.cpuTicks_le
  have hmin := UInt64.le_iff_toNat_le.1 h.minflt_le
  have hmaj := UInt64.le_iff_toNat_le.1 h.majflt_le
  rw [UInt64.toNat_sub_of_le _ _ h.cpuTicks_le, UInt64.toNat_sub_of_le _ _ h.minflt_le,
    UInt64.toNat_sub_of_le _ _ h.majflt_le]
  rw [hsum ho, hsum hn] at hcpu ⊢
  omega

end CgroupResearch
