import CgroupResearch.Cgroup
import CgroupResearch.Lib.CNumber

/-!
# The throttle controller

The controller (`throttle_controller.c`) tracks the processes the detector
reports and moves them between the normal and the throttled group. A record per
pid holds a small state machine, `NONE`, `THROTTLED`, `COOLDOWN`, with the time
at which its state was entered.

The functions follow the source. What they meet in the system is an input of a
call (`CallEnv`): the reading of the clock, and whether each write to
`cgroup.procs` succeeds, which may depend on the moves made before in the call.
What they do is recorded: the calls of `cgroup_move_pid`, and the throttle and
release *actions* on records, which in a dry run make no move. Lists of moves and
actions have the latest first.

The `stats` argument, which may be `NULL`, is always there in the model: it only
receives counts.
-/

namespace CgroupResearch

/-- `NSEC_PER_MSEC`. -/
def nsecPerMsec : UInt64 := 1000000

/-- `THROTTLE_CONTROLLER_VALUE_MAX`, the size of a control value. -/
def throttleValueMax : ℕ := 64

/-- `THROTTLE_CONTROLLER_REASON_MAX`. -/
def throttleReasonMax : ℕ := 256

/-- `enum throttle_controller_rc`. -/
inductive ThrottleRc
  | ok
  | errInvalidArg
  | errNoMemory
  | errNoSpace
  | errTime
  | errCgroup
  | errNotInitialized
  deriving DecidableEq, Repr

/-- `enum throttle_state`; `other` is a value that is none of the enumerators. -/
inductive ThrottleState
  | none
  | throttled
  | cooldown
  | other (v : ℤ)
  deriving DecidableEq, Repr

/-- `struct throttle_controller_config`; `clockFn` is whether a clock is injected. -/
structure ThrottleConfig where
  normalGroup : ProcGroup
  throttledGroup : ProcGroup
  protectedGroup : ProcGroup
  throttledCpuMax : List Char
  protectedMemoryLow : List Char
  highScoreThreshold : Double
  lowScoreThreshold : Double
  minThrottleDurationMs : UInt64
  cooldownDurationMs : UInt64
  staleAfterMs : UInt64
  maxRecords : UInt64
  dryRun : Bool
  configureThrottledCpuMax : Bool
  configureProtectedMemoryLow : Bool
  clockFn : Bool
  deriving DecidableEq, Repr

/-- `struct interference_candidate`, what the controller reads of it. -/
structure InterferenceCandidate where
  pid : ℤ
  activityScore : Double
  overlapScore : Double
  finalScore : Double
  commonPages : UInt64
  active : Bool
  shouldThrottle : Bool
  deriving DecidableEq, Repr

/-- `struct throttle_record`. -/
structure ThrottleRecord where
  pid : ℤ
  state : ThrottleState
  firstSeenNs : UInt64
  lastSeenNs : UInt64
  stateEnteredNs : UInt64
  lastActionNs : UInt64
  lastActivityScore : Double
  lastOverlapScore : Double
  lastFinalScore : Double
  lastCommonPages : UInt64
  seenInLastApply : Bool
  lastShouldThrottle : Bool
  lastError : ThrottleRc
  reason : String
  deriving DecidableEq, Repr

/-- `struct throttle_controller`: `records` are the entries in use, and
    `record_count` is their number. -/
structure ThrottleController where
  initialized : Bool
  cfg : ThrottleConfig
  records : List ThrottleRecord
  recordCap : UInt64
  deriving DecidableEq, Repr

/-- `struct throttle_controller_stats`. -/
structure ThrottleStats where
  candidateCount : ℕ
  recordsSeen : ℕ
  throttleActions : ℕ
  releaseActions : ℕ
  keptThrottled : ℕ
  skippedLowScore : ℕ
  skippedCooldown : ℕ
  staleReleases : ℕ
  errors : ℕ
  lastError : ThrottleRc
  lastErrorReason : String
  deriving DecidableEq, Repr

/-- What a call finds when it reads the clock: the result of `clock_gettime`, and
    that of the injected clock. -/
structure ClockReading where
  gettimeRc : ℤ
  tvSec : UInt64
  tvNsec : UInt64
  fnRc : ℤ
  fnNow : UInt64
  deriving DecidableEq, Repr

/-- What a call meets in the system. `written` tells, given the moves made before
    in the call, whether the write that moves a pid to a group succeeds. -/
structure CallEnv where
  clock : ClockReading
  written : List CgroupMove → ℤ → ProcGroup → Bool

/-- The actions on a record. -/
inductive ActionKind
  | throttle
  | release
  | staleRelease
  deriving DecidableEq, Repr

/-- An action on the record of a pid, with whether it succeeded. -/
structure Action where
  pid : ℤ
  kind : ActionKind
  ok : Bool
  deriving DecidableEq, Repr

/-- What a call has done so far. -/
structure Effects where
  stats : ThrottleStats
  overallRc : ThrottleRc
  moves : List CgroupMove
  actions : List Action
  deriving DecidableEq, Repr

/-! ## Configuration -/

/-- `valid_control_group`. -/
def validControlGroup (group : ProcGroup) : Bool :=
  group = .groupProtected || group = .groupBackground || group = .groupThrottled

/-- `valid_control_value`. -/
def validControlValue (value : List Char) (cap : ℕ) : Bool :=
  let len := CString.boundedStrlen value cap
  if cap = 0 ∨ len = 0 ∨ cap ≤ len then
    false
  else
    (value.take len).all fun c => c ≠ '\n' && c ≠ '\r'

/-- `validate_config`. -/
def validateConfig (cfg : ThrottleConfig) : ThrottleRc :=
  if !validControlGroup cfg.normalGroup || !validControlGroup cfg.throttledGroup ||
      !validControlGroup cfg.protectedGroup then
    .errInvalidArg
  else if cfg.normalGroup = cfg.throttledGroup ∨ cfg.normalGroup = cfg.protectedGroup ∨
      cfg.throttledGroup = cfg.protectedGroup then
    .errInvalidArg
  else if !cfg.lowScoreThreshold.isfinite || !cfg.highScoreThreshold.isfinite ||
      cfg.lowScoreThreshold.lt (.ofRat 0) || (Double.ofRat 1).lt cfg.highScoreThreshold ||
      cfg.highScoreThreshold.lt cfg.lowScoreThreshold then
    .errInvalidArg
  else if cfg.maxRecords = 0 then
    .errInvalidArg
  else if cfg.configureThrottledCpuMax &&
      !validControlValue cfg.throttledCpuMax throttleValueMax then
    .errInvalidArg
  else if cfg.configureProtectedMemoryLow &&
      !validControlValue cfg.protectedMemoryLow throttleValueMax then
    .errInvalidArg
  else
    .ok

/-- `throttle_controller_config_default`. -/
def throttleConfigDefault : ThrottleConfig where
  normalGroup := .groupBackground
  throttledGroup := .groupThrottled
  protectedGroup := .groupProtected
  throttledCpuMax := "20000 100000".toList
  protectedMemoryLow := "0".toList
  highScoreThreshold := CNumber.toDouble false (20 / 100)
  lowScoreThreshold := CNumber.toDouble false (10 / 100)
  minThrottleDurationMs := 3000
  cooldownDurationMs := 2000
  staleAfterMs := 2000
  maxRecords := 256
  dryRun := false
  configureThrottledCpuMax := true
  configureProtectedMemoryLow := false
  clockFn := false

/-! ## Time -/

/-- `monotonic_now_ns`. -/
def monotonicNowNs (r : ClockReading) : Option UInt64 :=
  if r.gettimeRc ≠ 0 then none else some (r.tvSec * 1000000000 + r.tvNsec)

/-- `controller_now_ns`; a failure, `none`, is always reported as a time error. -/
def controllerNowNs (cfg : ThrottleConfig) (r : ClockReading) : Option UInt64 :=
  if cfg.clockFn = false then
    monotonicNowNs r
  else if r.fnRc ≠ 0 then
    none
  else
    some r.fnNow

/-- `ms_to_ns`, saturating. -/
def msToNs (ms : UInt64) : UInt64 :=
  if UInt64.ofNat (2 ^ 64 - 1) / nsecPerMsec < ms then UInt64.ofNat (2 ^ 64 - 1)
  else ms * nsecPerMsec

/-- `elapsed_at_least`. -/
def elapsedAtLeast (nowNs startNs durationMs : UInt64) : Bool :=
  if nowNs < startNs then false else decide (msToNs durationMs ≤ nowNs - startNs)

/-! ## Records -/

/-- `set_reason`, into a buffer of `throttleReasonMax` bytes. -/
def setReason (text : String) : String :=
  String.ofList (text.toList.take (throttleReasonMax - 1))

/-- `throttle_controller_stats_reset`. -/
def throttleStatsReset : ThrottleStats := ⟨0, 0, 0, 0, 0, 0, 0, 0, 0, .ok, ""⟩

/-- `set_stats_error`. -/
def setStatsError (stats : ThrottleStats) (rc : ThrottleRc) (reason : String) : ThrottleStats :=
  { stats with
    errors := stats.errors + 1
    lastError := rc
    lastErrorReason := setReason reason }

/-- `throttle_controller_record_reset`. -/
def throttleRecordReset : ThrottleRecord where
  pid := -1
  state := .none
  firstSeenNs := 0
  lastSeenNs := 0
  stateEnteredNs := 0
  lastActionNs := 0
  lastActivityScore := .ofRat 0
  lastOverlapScore := .ofRat 0
  lastFinalScore := .ofRat 0
  lastCommonPages := 0
  seenInLastApply := false
  lastShouldThrottle := false
  lastError := .ok
  reason := ""

/-- `find_record` (and `find_record_const`): the first record of the pid. -/
def findRecord (records : List ThrottleRecord) (pid : ℤ) : Option ThrottleRecord :=
  records.find? fun r => r.pid = pid

/-- The record `create_record` initialises. -/
def newRecord (pid : ℤ) (nowNs : UInt64) : ThrottleRecord :=
  { throttleRecordReset with
    pid := pid
    state := .none
    firstSeenNs := nowNs
    lastSeenNs := nowNs
    stateEnteredNs := nowNs
    reason := setReason "new record" }

/-- `candidate_requests_throttle`. -/
def candidateRequestsThrottle (cfg : ThrottleConfig) (candidate : InterferenceCandidate) : Bool :=
  candidate.active && candidate.shouldThrottle && cfg.highScoreThreshold.le candidate.finalScore

/-- `move_pid`: a dry run makes no move. -/
def movePid (cfg : ThrottleConfig) (env : CallEnv) (pid : ℤ) (group : ProcGroup) (w : Effects) :
    ThrottleRc × Effects :=
  if cfg.dryRun then
    (.ok, w)
  else
    let m := cgroupMovePid (env.written w.moves pid group) pid group
    (if m.ok then .ok else .errCgroup, { w with moves := m :: w.moves })

/-- `throttle_record_pid`. -/
def throttleRecordPid (cfg : ThrottleConfig) (env : CallEnv) (nowNs : UInt64)
    (record : ThrottleRecord) (w : Effects) : ThrottleRc × ThrottleRecord × Effects :=
  let (rc, w) := movePid cfg env record.pid cfg.throttledGroup w
  let w := { w with actions := ⟨record.pid, .throttle, decide (rc = ThrottleRc.ok)⟩ :: w.actions }
  if rc ≠ .ok then
    let reason := setReason "failed to move pid to throttled group"
    (rc, { record with lastError := rc, reason := reason },
      { w with stats := setStatsError w.stats rc reason })
  else
    (.ok,
      { record with
        state := .throttled
        stateEnteredNs := nowNs
        lastActionNs := nowNs
        lastError := .ok
        reason := setReason ("throttled: final=" ++ record.lastFinalScore.formatFixed4 ++
          " activity=" ++ record.lastActivityScore.formatFixed4 ++
          " overlap=" ++ record.lastOverlapScore.formatFixed4) },
      { w with stats := { w.stats with throttleActions := w.stats.throttleActions + 1 } })

/-- `release_record_pid`. -/
def releaseRecordPid (cfg : ThrottleConfig) (env : CallEnv) (nowNs : UInt64) (stale : Bool)
    (record : ThrottleRecord) (w : Effects) : ThrottleRc × ThrottleRecord × Effects :=
  let (rc, w) := movePid cfg env record.pid cfg.normalGroup w
  let kind := if stale then ActionKind.staleRelease else .release
  let w := { w with actions := ⟨record.pid, kind, decide (rc = ThrottleRc.ok)⟩ :: w.actions }
  if rc ≠ .ok then
    let reason := setReason "failed to move pid to normal group"
    (rc, { record with lastError := rc, reason := reason },
      { w with stats := setStatsError w.stats rc reason })
  else
    (.ok,
      { record with
        state := .cooldown
        stateEnteredNs := nowNs
        lastActionNs := nowNs
        lastError := .ok
        reason := setReason (if stale then "released: stale candidate"
          else "released: final=" ++ record.lastFinalScore.formatFixed4 ++
            " low=" ++ cfg.lowScoreThreshold.formatFixed4) },
      { w with
        stats :=
          { w.stats with
            releaseActions := w.stats.releaseActions + 1
            staleReleases := if stale then w.stats.staleReleases + 1 else w.stats.staleReleases } })

/-! ## Validation -/

/-- A score between `0` and `1`. -/
def validScore (x : Double) : Bool :=
  x.isfinite && !x.lt (.ofRat 0) && !(Double.ofRat 1).lt x

/-- `candidate_valid`. -/
def candidateValid (candidate : InterferenceCandidate) : Bool :=
  decide (0 < candidate.pid) && validScore candidate.activityScore &&
    validScore candidate.overlapScore && validScore candidate.finalScore

/-- The loop of `prevalidate_candidates`, after the candidates `earlier`: the
    number of new records, or `none` if a candidate is invalid. -/
def prevalidateLoop (records : List ThrottleRecord) :
    (earlier candidates : List InterferenceCandidate) → (newRecords : ℕ) → Option ℕ
  | _, [], newRecords => some newRecords
  | earlier, c :: cs, newRecords =>
    if !candidateValid c then
      none
    else if earlier.any fun c' => c.pid = c'.pid then
      none
    else
      prevalidateLoop records (earlier ++ [c]) cs
        (if (findRecord records c.pid).isNone then newRecords + 1 else newRecords)

/-- `prevalidate_candidates`; the subtraction is that of `size_t`. -/
def prevalidateCandidates (c : ThrottleController) (candidates : List InterferenceCandidate) :
    ThrottleRc :=
  match prevalidateLoop c.records [] candidates 0 with
  | none => .errInvalidArg
  | some newRecords =>
    if (c.recordCap - UInt64.ofNat c.records.length).toNat < newRecords then .errNoSpace else .ok

/-! ## Applying candidates -/

/-- The text of a boolean in a reason. -/
def boolText (b : Bool) : String := if b then "true" else "false"

/-- The result of an action is kept if it is an error. -/
def Effects.noteRc (w : Effects) (rc : ThrottleRc) : Effects :=
  if rc ≠ .ok then { w with overallRc := rc } else w

/-- A record as a call of `throttle_controller_apply_candidates` first leaves it. -/
def ThrottleRecord.unseen (record : ThrottleRecord) : ThrottleRecord :=
  { record with seenInLastApply := false }

/-- The record of a candidate, with what the detector tells of it. -/
def noteCandidate (nowNs : UInt64) (candidate : InterferenceCandidate) (record : ThrottleRecord) :
    ThrottleRecord :=
  { record with
    seenInLastApply := true
    lastSeenNs := nowNs
    lastActivityScore := candidate.activityScore
    lastOverlapScore := candidate.overlapScore
    lastFinalScore := candidate.finalScore
    lastCommonPages := candidate.commonPages
    lastShouldThrottle := candidate.shouldThrottle
    lastError := .ok }

/-- The `switch` of `throttle_controller_apply_candidates` on the state of the
    candidate's record. -/
def switchState (cfg : ThrottleConfig) (env : CallEnv) (nowNs : UInt64)
    (candidate : InterferenceCandidate) (record : ThrottleRecord) (w : Effects) :
    ThrottleRecord × Effects :=
  let requestThrottle := candidateRequestsThrottle cfg candidate
  match record.state with
  | .none =>
    if requestThrottle then
      let (rc, record, w) := throttleRecordPid cfg env nowNs record w
      (record, w.noteRc rc)
    else
      ({ record with
          reason := setReason ("not throttled: final=" ++ record.lastFinalScore.formatFixed4 ++
            " high=" ++ cfg.highScoreThreshold.formatFixed4 ++
            " active=" ++ boolText candidate.active ++
            " detector=" ++ boolText candidate.shouldThrottle) },
        { w with stats := { w.stats with skippedLowScore := w.stats.skippedLowScore + 1 } })
  | .throttled =>
    if record.lastFinalScore.le cfg.lowScoreThreshold &&
        elapsedAtLeast nowNs record.stateEnteredNs cfg.minThrottleDurationMs then
      let (rc, record, w) := releaseRecordPid cfg env nowNs false record w
      (record, w.noteRc rc)
    else
      ({ record with
          reason := setReason ("kept throttled: final=" ++ record.lastFinalScore.formatFixed4 ++
            " low=" ++ cfg.lowScoreThreshold.formatFixed4 ++ " min_done=" ++
            boolText (elapsedAtLeast nowNs record.stateEnteredNs cfg.minThrottleDurationMs)) },
        { w with stats := { w.stats with keptThrottled := w.stats.keptThrottled + 1 } })
  | .cooldown =>
    if !elapsedAtLeast nowNs record.stateEnteredNs cfg.cooldownDurationMs then
      ({ record with reason := setReason "cooldown active" },
        { w with stats := { w.stats with skippedCooldown := w.stats.skippedCooldown + 1 } })
    else
      let record := { record with state := .none, stateEnteredNs := nowNs }
      if requestThrottle then
        let (rc, record, w) := throttleRecordPid cfg env nowNs record w
        (record, w.noteRc rc)
      else
        ({ record with reason := setReason "cooldown complete: remains normal" },
          { w with stats := { w.stats with skippedLowScore := w.stats.skippedLowScore + 1 } })
  | .other _ =>
    let reason := setReason "invalid internal throttle state"
    ({ record with lastError := .errInvalidArg, reason := reason },
      { w with
        stats := setStatsError w.stats .errInvalidArg reason
        overallRc := .errInvalidArg })

/-- The body of the loop of `throttle_controller_apply_candidates` over the
    candidates, once the record of the candidate is at hand. -/
def applyCandidate (cfg : ThrottleConfig) (env : CallEnv) (nowNs : UInt64)
    (candidate : InterferenceCandidate) (record : ThrottleRecord) (w : Effects) :
    ThrottleRecord × Effects :=
  switchState cfg env nowNs candidate (noteCandidate nowNs candidate record)
    { w with stats := { w.stats with recordsSeen := w.stats.recordsSeen + 1 } }

/-- Running `f` on the first record of the pid, in place, if there is one. -/
def onRecord (pid : ℤ) (f : ThrottleRecord → Effects → ThrottleRecord × Effects) :
    List ThrottleRecord → Effects → Option (List ThrottleRecord × Effects)
  | [], _ => none
  | r :: rs, w =>
    if r.pid = pid then
      let (r, w) := f r w
      some (r :: rs, w)
    else
      (onRecord pid f rs w).map fun (rs, w) => (r :: rs, w)

/-- A turn of the loop over the candidates: the record of the candidate is found,
    or created (`create_record`), unless there is no room for it (`none`). -/
def candidateTurn (c : ThrottleController) (env : CallEnv) (nowNs : UInt64)
    (candidate : InterferenceCandidate) (records : List ThrottleRecord) (w : Effects) :
    Option (List ThrottleRecord × Effects) :=
  match onRecord candidate.pid (applyCandidate c.cfg env nowNs candidate) records w with
  | some out => some out
  | none =>
    if c.recordCap ≤ UInt64.ofNat records.length then
      none
    else
      let (r, w) := applyCandidate c.cfg env nowNs candidate (newRecord candidate.pid nowNs) w
      some (records ++ [r], w)

/-- The loop of `throttle_controller_apply_candidates` over the candidates. The
    flag tells whether it went through, or returned for want of a record. -/
def candidatesLoop (c : ThrottleController) (env : CallEnv) (nowNs : UInt64) :
    List InterferenceCandidate → List ThrottleRecord → Effects →
      Bool × List ThrottleRecord × Effects
  | [], records, w => (true, records, w)
  | candidate :: rest, records, w =>
    match candidateTurn c env nowNs candidate records w with
    | some (records, w) => candidatesLoop c env nowNs rest records w
    | none =>
      (false, records,
        { w with stats := setStatsError w.stats .errNoSpace "record capacity exhausted" })

/-- A loop over the records, in order, each run through `f` in place. -/
def forRecords (f : ThrottleRecord → Effects → ThrottleRecord × Effects) :
    List ThrottleRecord → Effects → List ThrottleRecord × Effects
  | [], w => ([], w)
  | r :: rs, w =>
    let (r, w) := f r w
    let (rs, w) := forRecords f rs w
    (r :: rs, w)

/-- The body of the loop of `throttle_controller_apply_candidates` over the
    records that no candidate named. -/
def applyUnseen (cfg : ThrottleConfig) (env : CallEnv) (nowNs : UInt64) (record : ThrottleRecord)
    (w : Effects) : ThrottleRecord × Effects :=
  if record.seenInLastApply then
    (record, w)
  else if record.state = .throttled then
    let staleDone := elapsedAtLeast nowNs record.lastSeenNs cfg.staleAfterMs
    let minDone := elapsedAtLeast nowNs record.stateEnteredNs cfg.minThrottleDurationMs
    if staleDone && minDone then
      let (rc, record, w) := releaseRecordPid cfg env nowNs true record w
      (record, w.noteRc rc)
    else
      ({ record with
          reason := setReason ("unseen but kept: stale_done=" ++ boolText staleDone ++
            " min_done=" ++ boolText minDone) },
        { w with stats := { w.stats with keptThrottled := w.stats.keptThrottled + 1 } })
  else if record.state = .cooldown ∧
      elapsedAtLeast nowNs record.stateEnteredNs cfg.cooldownDurationMs then
    ({ record with
        state := .none
        stateEnteredNs := nowNs
        reason := setReason "cooldown complete: normal" }, w)
  else
    (record, w)

/-- The result of a call: `now` is the reading of the clock, if the call got to
    it and it succeeded. -/
structure CallResult where
  rc : ThrottleRc
  stats : ThrottleStats
  now : Option UInt64
  moves : List CgroupMove
  actions : List Action
  deriving DecidableEq, Repr

/-- A call that ended before any action. -/
def CallResult.early (rc : ThrottleRc) (stats : ThrottleStats) : CallResult :=
  ⟨rc, stats, none, [], []⟩

/-- The effects of a call, as it starts with the given statistics. -/
def Effects.start (stats : ThrottleStats) : Effects := ⟨stats, .ok, [], []⟩

/-- `throttle_controller_apply_candidates`. -/
def applyCandidates (env : CallEnv) (c : ThrottleController)
    (candidates : List InterferenceCandidate) : CallResult × ThrottleController :=
  if c.initialized = false then
    (.early .errNotInitialized throttleStatsReset, c)
  else
    let rc := prevalidateCandidates c candidates
    if rc ≠ .ok then
      (.early rc (setStatsError throttleStatsReset rc "candidate validation failed"), c)
    else
      match controllerNowNs c.cfg env.clock with
      | none =>
        (.early .errTime
          (setStatsError throttleStatsReset .errTime "failed to read monotonic time"), c)
      | some nowNs =>
        let w := Effects.start { throttleStatsReset with candidateCount := candidates.length }
        let records := c.records.map ThrottleRecord.unseen
        match candidatesLoop c env nowNs candidates records w with
        | (false, records, w) =>
          (⟨.errNoSpace, w.stats, some nowNs, w.moves, w.actions⟩, { c with records := records })
        | (true, records, w) =>
          let (records, w) := forRecords (applyUnseen c.cfg env nowNs) records w
          (⟨w.overallRc, w.stats, some nowNs, w.moves, w.actions⟩, { c with records := records })

/-- The body of the loop of `throttle_controller_release_all`. -/
def releaseThrottled (cfg : ThrottleConfig) (env : CallEnv) (nowNs : UInt64)
    (record : ThrottleRecord) (w : Effects) : ThrottleRecord × Effects :=
  if record.state ≠ .throttled then
    (record, w)
  else
    let (rc, record, w) := releaseRecordPid cfg env nowNs false record w
    (record, w.noteRc rc)

/-- `throttle_controller_release_all`. -/
def releaseAll (env : CallEnv) (c : ThrottleController) : CallResult × ThrottleController :=
  if c.initialized = false then
    (.early .errNotInitialized throttleStatsReset, c)
  else
    match controllerNowNs c.cfg env.clock with
    | none =>
      (.early .errTime
        (setStatsError throttleStatsReset .errTime "failed to read monotonic time"), c)
    | some nowNs =>
      let (records, w) := forRecords (releaseThrottled c.cfg env nowNs) c.records
        (.start throttleStatsReset)
      (⟨w.overallRc, w.stats, some nowNs, w.moves, w.actions⟩, { c with records := records })

/-! ## Initialisation -/

/-- What `throttle_controller_init` meets in the system: whether the records can
    be allocated, and the two control values written. -/
structure InitEnv where
  allocated : Bool
  cpuMaxWritten : Bool
  memoryLowWritten : Bool

/-- The controller a `memset` to zero leaves. -/
def ThrottleController.zero : ThrottleController where
  initialized := false
  cfg :=
    { normalGroup := .groupProtected
      throttledGroup := .groupProtected
      protectedGroup := .groupProtected
      throttledCpuMax := []
      protectedMemoryLow := []
      highScoreThreshold := .ofRat 0
      lowScoreThreshold := .ofRat 0
      minThrottleDurationMs := 0
      cooldownDurationMs := 0
      staleAfterMs := 0
      maxRecords := 0
      dryRun := false
      configureThrottledCpuMax := false
      configureProtectedMemoryLow := false
      clockFn := false }
  records := []
  recordCap := 0

/-- `throttle_controller_init`; no configuration (`none`) stands for the default. -/
def throttleControllerInit (env : InitEnv) (cfg : Option ThrottleConfig) :
    ThrottleRc × ThrottleController :=
  let cfg := cfg.getD throttleConfigDefault
  if validateConfig cfg ≠ .ok then
    (validateConfig cfg, .zero)
  else if env.allocated = false then
    (.errNoMemory, .zero)
  else if !cfg.dryRun && cfg.configureThrottledCpuMax && !env.cpuMaxWritten then
    (.errCgroup, .zero)
  else if !cfg.dryRun && cfg.configureProtectedMemoryLow && !env.memoryLowWritten then
    (.errCgroup, .zero)
  else
    (.ok, { initialized := true, cfg := cfg, records := [], recordCap := cfg.maxRecords })

end CgroupResearch
