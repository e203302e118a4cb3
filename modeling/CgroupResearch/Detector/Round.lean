import CgroupResearch.Calibrate.Mapping
import CgroupResearch.Detector.Activity
import CgroupResearch.Lib.Qsort
import CgroupResearch.Profile.Maps
import CgroupResearch.Throttle.Controller

/-!
# The interference detector

A round of the detector (`interference_detector.c`) merges the bank profiles of the protected
processes, samples the activity of the normal ones, ranks those that are active, and rates the
first of them by how much their profiles overlap with that of the protected ones. What it gives
are the candidates for the throttle controller.

The functions follow the source. What a round meets in the system is an input (`RoundEnv`): what
the samplings meet, what the calls of `bank_profile_build` return, whether memory is allocated,
and the order in which `qsort` leaves equal elements. What it samples is recorded. The `stats`
argument, which may be `NULL`, is always there in the model: it only receives counts. As in
`CgroupResearch.Detector.Activity`, the arithmetic of `double`s is exact.
-/

namespace CgroupResearch

/-- `INTERFERENCE_DETECTOR_REASON_MAX`. -/
def interferenceDetectorReasonMax : ℕ := 256

/-- `enum interference_detector_rc`. -/
inductive DetectorRc
  | ok
  | errInvalidArg
  | errNoMapping
  | errNoMemory
  | errNoProtectedProfile
  | errProfile
  | errActivity
  deriving DecidableEq, Repr

/-- `enum interference_process_role`. -/
inductive ProcessRole
  | processNormal
  | processProtected
  deriving DecidableEq, Repr

/-- `struct interference_process_state`. -/
structure InterferenceProcessState where
  pid : ℤ
  role : ProcessRole
  alive : Bool
  hasActivitySample : Bool
  activitySample : ProcActivitySample
  deriving DecidableEq, Repr

/-- `struct interference_detector_config`. -/
structure DetectorConfig where
  maxNormalCandidates : ℕ
  activityScoreThreshold : ℚ
  overlapScoreThreshold : ℚ
  throttleScoreThreshold : ℚ
  activityConfig : ProcActivityConfig
  profileConfig : BankProfileConfig
  deriving DecidableEq, Repr

/-- `struct interference_candidate`, as the detector fills it. -/
structure DetectedCandidate where
  pid : ℤ
  activityScore : ℚ
  cpuScore : ℚ
  faultScore : ℚ
  rssScore : ℚ
  overlapScore : ℚ
  finalScore : ℚ
  commonPages : UInt64
  active : Bool
  shouldThrottle : Bool
  reason : String
  deriving DecidableEq, Repr

/-- `struct interference_detector_stats`. -/
structure DetectorStats where
  processCount : ℕ
  protectedProcesses : ℕ
  normalProcesses : ℕ
  protectedProfilesBuilt : ℕ
  activitySamples : ℕ
  activeNormalCandidates : ℕ
  normalProfilesBuilt : ℕ
  outputCandidates : ℕ
  activityErrors : ℕ
  profileErrors : ℕ
  lastError : DetectorRc
  lastErrorReason : String
  deriving DecidableEq, Repr

/-- `struct active_candidate_internal`. -/
structure ActiveCandidate where
  pid : ℤ
  delta : ProcActivityDelta
  deriving DecidableEq, Repr

/-- What a call of `bank_profile_build` returns, and the profile it leaves. -/
abbrev ProfileBuild := ℤ → DramMapping → BankProfileConfig → BankProfileRc × BankProfile

/-- The candidate as the controller reads it. -/
def DetectedCandidate.toInterferenceCandidate (c : DetectedCandidate) : InterferenceCandidate where
  pid := c.pid
  activityScore := .ofRat c.activityScore
  overlapScore := .ofRat c.overlapScore
  finalScore := .ofRat c.finalScore
  commonPages := c.commonPages
  active := c.active
  shouldThrottle := c.shouldThrottle

/-- `interference_detector_config_default`. -/
def detectorConfigDefault : DetectorConfig where
  maxNormalCandidates := 16
  activityScoreThreshold := 0
  overlapScoreThreshold := 3 / 10
  throttleScoreThreshold := 1 / 5
  activityConfig := procActivityConfigDefault
  profileConfig := { bankProfileConfigDefault with
    maxPagesToSample := 4096
    sampleStridePages := 16 }

/-- `interference_process_state_reset`. -/
def interferenceProcessStateReset : InterferenceProcessState where
  pid := 0
  role := .processNormal
  alive := false
  hasActivitySample := false
  activitySample := procActivitySampleReset

/-- `interference_detector_stats_reset`. -/
def detectorStatsReset : DetectorStats := ⟨0, 0, 0, 0, 0, 0, 0, 0, 0, 0, .ok, ""⟩

/-- What `snprintf` leaves in a reason of the detector. -/
def detectorReason (text : String) : String :=
  String.ofList (text.toList.take (interferenceDetectorReasonMax - 1))

/-- `stats_set_error`. -/
def statsSetError (stats : DetectorStats) (rc : DetectorRc) (reason : String) : DetectorStats :=
  { stats with lastError := rc, lastErrorReason := detectorReason reason }

/-- `compute_final_score`. -/
def computeFinalScore (activityScore overlapScore : ℚ) : ℚ :=
  clamp01 activityScore * clamp01 overlapScore

/-- `compare_active_candidate_desc`. -/
def compareActiveCandidateDesc (a b : ActiveCandidate) : ℤ :=
  if a.delta.totalScore < b.delta.totalScore then 1
  else if b.delta.totalScore < a.delta.totalScore then -1
  else if b.pid < a.pid then 1
  else if a.pid < b.pid then -1
  else 0

/-- What a round meets in the system. Samplings and the profiles of protected processes are
    numbered by the entry of the process, those of normal ones by rank. -/
structure RoundEnv where
  stat : ℕ → StatEnv
  protectedBuild : ℕ → ProfileBuild
  normalBuild : ℕ → ProfileBuild
  allocated : Bool
  qsort : Qsort compareActiveCandidateDesc

/-! ## The protected processes -/

/-- The loop of `build_protected_aggregate_profile`, from the entry `i` on. -/
def aggregateLoop (env : RoundEnv) (mapping : DramMapping) (cfg : DetectorConfig) :
    (i : ℕ) → List InterferenceProcessState → BankProfile → DetectorStats →
      DetectorRc × BankProfile × DetectorStats
  | _, [], aggregate, stats => (.ok, aggregate, stats)
  | i, p :: ps, aggregate, stats =>
    if p.alive = false then
      aggregateLoop env mapping cfg (i + 1) ps aggregate stats
    else if p.role ≠ .processProtected then
      aggregateLoop env mapping cfg (i + 1) ps aggregate stats
    else
      let stats := { stats with protectedProcesses := stats.protectedProcesses + 1 }
      match env.protectedBuild i p.pid mapping cfg.profileConfig with
      | (.ok, profile) =>
        match bankProfileMerge aggregate profile with
        | (.ok, aggregate) =>
          aggregateLoop env mapping cfg (i + 1) ps aggregate
            { stats with protectedProfilesBuilt := stats.protectedProfilesBuilt + 1 }
        | (_, aggregate) =>
          (.errProfile, aggregate, { stats with profileErrors := stats.profileErrors + 1 })
      | (_, _) =>
        aggregateLoop env mapping cfg (i + 1) ps aggregate
          { stats with profileErrors := stats.profileErrors + 1 }

/-- `build_protected_aggregate_profile`. -/
def buildProtectedAggregateProfile (env : RoundEnv) (processes : List InterferenceProcessState)
    (mapping : DramMapping) (cfg : DetectorConfig) (stats : DetectorStats) :
    DetectorRc × BankProfile × DetectorStats :=
  match aggregateLoop env mapping cfg 0 processes bankProfileReset stats with
  | (.ok, aggregate, stats) =>
    if aggregate.entries.length = 0 then (.errNoProtectedProfile, aggregate, stats)
    else (.ok, aggregate, stats)
  | r => r

/-! ## The normal processes -/

/-- What a turn of `collect_active_normal_candidates` gives: the entry, the sample it took, the
    active candidate and the counts. -/
structure Turn where
  state : InterferenceProcessState
  sample : Option ProcActivitySample
  active : Option ActiveCandidate
  stats : DetectorStats

/-- The body of the loop of `collect_active_normal_candidates`. -/
def collectTurn (env : StatEnv) (cfg : DetectorConfig) (p : InterferenceProcessState)
    (stats : DetectorStats) : Turn :=
  if p.alive = false then
    ⟨p, none, none, stats⟩
  else if p.role ≠ .processNormal then
    ⟨p, none, none, stats⟩
  else
    let stats := { stats with normalProcesses := stats.normalProcesses + 1 }
    match procActivitySampleNow env p.pid with
    | .error _ =>
      ⟨{ p with alive := false, hasActivitySample := false }, none, none,
        { stats with activityErrors := stats.activityErrors + 1 }⟩
    | .ok now =>
      let stats := { stats with activitySamples := stats.activitySamples + 1 }
      if p.hasActivitySample = false then
        ⟨{ p with activitySample := now, hasActivitySample := true }, some now, none, stats⟩
      else
        let (rc, delta) := procActivityComputeDelta p.activitySample now cfg.activityConfig
        let p := { p with activitySample := now, hasActivitySample := true }
        if rc ≠ .ok then
          ⟨if rc = .errPidReused then { p with hasActivitySample := false } else p, some now, none,
            { stats with activityErrors := stats.activityErrors + 1 }⟩
        else if delta.active = false then
          ⟨p, some now, none, stats⟩
        else if delta.totalScore < cfg.activityScoreThreshold then
          ⟨p, some now, none, stats⟩
        else
          ⟨p, some now, some ⟨p.pid, delta⟩, stats⟩

/-- The loop of `collect_active_normal_candidates`, from the entry `i` on: its turns. -/
def collectLoop (env : RoundEnv) (cfg : DetectorConfig) :
    (i : ℕ) → List InterferenceProcessState → DetectorStats → List Turn × DetectorStats
  | _, [], stats => ([], stats)
  | i, p :: ps, stats =>
    let t := collectTurn (env.stat i) cfg p stats
    let (ts, stats) := collectLoop env cfg (i + 1) ps t.stats
    (t :: ts, stats)

/-- What `collect_active_normal_candidates` gives: the entries, the samples taken from them, the
    active candidates in their order, and the counts. -/
structure Collected where
  processes : List InterferenceProcessState
  samples : List (Option ProcActivitySample)
  active : List ActiveCandidate
  stats : DetectorStats

/-- `collect_active_normal_candidates`, with its memory allocated. -/
def collectActiveNormalCandidates (env : RoundEnv) (processes : List InterferenceProcessState)
    (cfg : DetectorConfig) (stats : DetectorStats) : Collected :=
  let (turns, stats) := collectLoop env cfg 0 processes stats
  let active := env.qsort.sort (turns.filterMap Turn.active)
  ⟨turns.map Turn.state, turns.map Turn.sample, active,
    { stats with activeNormalCandidates := active.length }⟩

/-! ## A round -/

/-- The candidate of an active process, given its overlap. -/
def detectedCandidate (cfg : DetectorConfig) (a : ActiveCandidate) (overlapScore : ℚ)
    (commonPages : UInt64) : DetectedCandidate :=
  let finalScore := computeFinalScore a.delta.totalScore overlapScore
  let shouldThrottle :=
    decide (cfg.overlapScoreThreshold ≤ overlapScore) &&
      decide (cfg.throttleScoreThreshold ≤ finalScore)
  { pid := a.pid
    activityScore := a.delta.totalScore
    cpuScore := a.delta.cpuScore
    faultScore := a.delta.faultScore
    rssScore := a.delta.rssScore
    overlapScore := overlapScore
    finalScore := finalScore
    commonPages := commonPages
    active := true
    shouldThrottle := shouldThrottle
    reason := detectorReason
      ("activity=" ++ (Double.ofRat a.delta.totalScore).formatFixed4 ++
        " overlap=" ++ (Double.ofRat overlapScore).formatFixed4 ++
        " final=" ++ (Double.ofRat finalScore).formatFixed4 ++
        " common_pages=" ++ toString commonPages.toNat ++
        " throttle=" ++ boolText shouldThrottle) }

/-- The loop of `interference_detector_run_once` over the active candidates, from the rank `i` on:
    the candidates it writes. -/
def profileLoop (env : RoundEnv) (mapping : DramMapping) (cfg : DetectorConfig)
    (aggregate : BankProfile) : (i : ℕ) → List ActiveCandidate → DetectorStats →
      List DetectedCandidate × DetectorStats
  | _, [], stats => ([], stats)
  | i, a :: as, stats =>
    match env.normalBuild i a.pid mapping cfg.profileConfig with
    | (.ok, profile) =>
      let stats := { stats with normalProfilesBuilt := stats.normalProfilesBuilt + 1 }
      match bankProfileOverlapScore aggregate profile with
      | .ok (overlapScore, commonPages) =>
        let (out, stats) := profileLoop env mapping cfg aggregate (i + 1) as stats
        (detectedCandidate cfg a overlapScore commonPages :: out, stats)
      | .error _ =>
        profileLoop env mapping cfg aggregate (i + 1) as
          { stats with profileErrors := stats.profileErrors + 1 }
    | (_, _) =>
      profileLoop env mapping cfg aggregate (i + 1) as
        { stats with profileErrors := stats.profileErrors + 1 }

/-- The number of active candidates that `interference_detector_run_once` looks at. -/
def candidateLimit (cfg : DetectorConfig) (activeCount outCap : ℕ) : ℕ :=
  let limit :=
    if 0 < cfg.maxNormalCandidates ∧ cfg.maxNormalCandidates < activeCount then
      cfg.maxNormalCandidates
    else
      activeCount
  if outCap < limit then outCap else limit

/-- What a round leaves: the return code, the entries, the candidates written to `out`, and
    `*out_count`, the counts, and the samples taken, entry by entry. -/
structure RoundResult where
  rc : DetectorRc
  processes : List InterferenceProcessState
  out : List DetectedCandidate
  outCount : ℕ
  stats : DetectorStats
  samples : List (Option ProcActivitySample)

/-- The result of a round that ends before it samples. -/
def RoundResult.early (rc : DetectorRc) (processes : List InterferenceProcessState)
    (stats : DetectorStats) : RoundResult :=
  ⟨rc, processes, [], 0, stats, processes.map fun _ => none⟩

/-- `interference_detector_run_once`. -/
def interferenceDetectorRunOnce (env : RoundEnv) (processes : List InterferenceProcessState)
    (mapping : DramMapping) (cfg : DetectorConfig) (outCap : ℕ) : RoundResult :=
  let stats := detectorStatsReset
  if 0 < processes.length ∧ outCap = 0 then
    .early .errInvalidArg processes stats
  else if dramMappingIsReady mapping = false then
    .early .errNoMapping processes (statsSetError stats .errNoMapping "DRAM mapping is not ready")
  else
    let stats := { stats with processCount := processes.length }
    let (rc, aggregate, stats) := buildProtectedAggregateProfile env processes mapping cfg stats
    if rc ≠ .ok then
      .early rc processes (statsSetError stats rc "failed to build protected aggregate profile")
    else if env.allocated = false then
      .early .errNoMemory processes
        (statsSetError stats .errNoMemory "failed to collect active normal candidates")
    else
      let collected := collectActiveNormalCandidates env processes cfg stats
      let limit := candidateLimit cfg collected.active.length outCap
      let (out, stats) :=
        profileLoop env mapping cfg aggregate 0 (collected.active.take limit) collected.stats
      ⟨.ok, collected.processes, out, out.length, { stats with outputCandidates := out.length },
        collected.samples⟩

/-! ## Turns -/

/-- What a turn does with an entry: nothing if it is no normal process alive; else it takes a
    sample, which may fail, and may rate it together with the one the entry holds. -/
inductive TurnSpec (env : StatEnv) (cfg : DetectorConfig) (p : InterferenceProcessState) :
    InterferenceProcessState → Option ProcActivitySample → Option ActiveCandidate → Prop
  | idle : TurnSpec env cfg p p none none
  | gone : TurnSpec env cfg p { p with alive := false, hasActivitySample := false } none none
  | sampled {now : ProcActivitySample} (hnow : procActivitySampleNow env p.pid = .ok now)
      (has : Bool) :
      TurnSpec env cfg p { p with activitySample := now, hasActivitySample := has } (some now) none
  | rated (halive : p.alive = true) (hrole : p.role = .processNormal)
      (hhas : p.hasActivitySample = true) {now : ProcActivitySample} {delta : ProcActivityDelta}
      (hnow : procActivitySampleNow env p.pid = .ok now)
      (hdelta : procActivityComputeDelta p.activitySample now cfg.activityConfig = (.ok, delta)) :
      TurnSpec env cfg p { p with activitySample := now, hasActivitySample := true } (some now)
        (some ⟨p.pid, delta⟩)

/-- What the turn of a process does. -/
theorem collectTurn_spec (env : StatEnv) (cfg : DetectorConfig) (p : InterferenceProcessState)
    (stats : DetectorStats) :
    TurnSpec env cfg p (collectTurn env cfg p stats).state (collectTurn env cfg p stats).sample
      (collectTurn env cfg p stats).active := by
  rw [collectTurn]
  by_cases halive : p.alive = false
  · rw [if_pos halive]
    exact .idle
  by_cases hrole : p.role ≠ .processNormal
  · rw [if_neg halive, if_pos hrole]
    exact .idle
  rw [if_neg halive, if_neg hrole]
  dsimp only
  cases hnow : procActivitySampleNow env p.pid with
  | error rc => exact .gone
  | ok now =>
    dsimp only
    by_cases hhas : p.hasActivitySample = false
    · rw [if_pos hhas]
      exact .sampled hnow true
    rw [if_neg hhas]
    rcases hdelta : procActivityComputeDelta p.activitySample now cfg.activityConfig with
      ⟨rc, delta⟩
    dsimp only
    by_cases hrc : rc ≠ .ok
    · rw [if_pos hrc]
      -- only a reused pid makes the entry forget its sample
      by_cases hreused : rc = .errPidReused
      · rw [if_pos hreused]
        exact .sampled hnow false
      · rw [if_neg hreused]
        exact .sampled hnow true
    rw [if_neg hrc]
    by_cases hactive : delta.active = false
    · rw [if_pos hactive]
      exact .sampled hnow true
    rw [if_neg hactive]
    by_cases hscore : delta.totalScore < cfg.activityScoreThreshold
    · rw [if_pos hscore]
      exact .sampled hnow true
    rw [if_neg hscore]
    rw [Bool.not_eq_false] at halive hhas
    rw [not_not] at hrole hrc
    subst hrc
    exact .rated halive hrole hhas hnow hdelta

/-- The turns of a loop, entry by entry. -/
theorem collectLoop_turns (env : RoundEnv) (cfg : DetectorConfig)
    (ps : List InterferenceProcessState) (i : ℕ) (stats : DetectorStats) (k : ℕ) :
    Option.Rel (fun p t => TurnSpec (env.stat (i + k)) cfg p t.state t.sample t.active) ps[k]?
      (collectLoop env cfg i ps stats).1[k]? := by
  induction ps generalizing i stats k with
  | nil => exact .none
  | cons p ps ih =>
    rw [collectLoop]
    cases k with
    | zero => exact .some (collectTurn_spec (env.stat i) cfg p stats)
    | succ k =>
      rw [List.getElem?_cons_succ, List.getElem?_cons_succ, Nat.add_comm k 1, ← Nat.add_assoc]
      exact ih (i + 1) _ k

/-- An active candidate comes from the turn of an entry. -/
theorem active_turn {env : RoundEnv} {cfg : DetectorConfig} {ps : List InterferenceProcessState}
    {i : ℕ} {stats : DetectorStats} {a : ActiveCandidate}
    (h : a ∈ (collectLoop env cfg i ps stats).1.filterMap Turn.active) :
    ∃ k p t, ps[k]? = some p ∧ (collectLoop env cfg i ps stats).1[k]? = some t ∧
      TurnSpec (env.stat (i + k)) cfg p t.state t.sample (some a) := by
  obtain ⟨t, ht, hactive⟩ := List.mem_filterMap.1 h
  obtain ⟨k, hk⟩ := List.mem_iff_getElem?.1 ht
  have hturn := collectLoop_turns env cfg ps i stats k
  rw [hk] at hturn
  cases hp : ps[k]? with
  | none =>
    rw [hp] at hturn
    exact nomatch hturn
  | some p =>
    rw [hp] at hturn
    have hspec := Option.rel_some_some.1 hturn
    rw [hactive] at hspec
    exact ⟨k, p, t, hp, hk, hspec⟩

/-- A round ends early, with an error, or else looks at all processes. -/
theorem runOnce_cases (env : RoundEnv) (processes : List InterferenceProcessState)
    (mapping : DramMapping) (cfg : DetectorConfig) (outCap : ℕ) :
    (∃ rc stats, rc ≠ .ok ∧ interferenceDetectorRunOnce env processes mapping cfg outCap =
      .early rc processes stats) ∨
    ∃ stats aggregate stats', buildProtectedAggregateProfile env processes mapping cfg stats =
        (.ok, aggregate, stats') ∧
      let collected := collectActiveNormalCandidates env processes cfg stats'
      let r := profileLoop env mapping cfg aggregate 0 (collected.active.take
        (candidateLimit cfg collected.active.length outCap)) collected.stats
      interferenceDetectorRunOnce env processes mapping cfg outCap =
        ⟨.ok, collected.processes, r.1, r.1.length, { r.2 with outputCandidates := r.1.length },
          collected.samples⟩ := by
  rw [interferenceDetectorRunOnce]
  dsimp only
  split
  · exact .inl ⟨.errInvalidArg, _, nofun, rfl⟩
  split
  · exact .inl ⟨.errNoMapping, _, nofun, rfl⟩
  rcases hbuild : buildProtectedAggregateProfile env processes mapping cfg
    { detectorStatsReset with processCount := processes.length } with ⟨rc, aggregate, stats'⟩
  dsimp only
  split
  · rename_i hrc
    exact .inl ⟨_, _, hrc, rfl⟩
  rename_i hrc
  rw [not_not] at hrc
  subst hrc
  split
  · exact .inl ⟨.errNoMemory, _, nofun, rfl⟩
  -- All four checks have passed, and the round runs to its end.
  exact .inr ⟨_, aggregate, stats', hbuild, rfl⟩

end CgroupResearch
