import CgroupResearch.Detector.Activity
import CgroupResearch.Lib.Qsort

/-!
# The cheap prefilter

Before the expensive profiling, `activity_prefilter.c` keeps the processes that look busy:
those that are not zombies, hold enough memory and show some sign of activity
(`activityPrefilterIsEligible`). Of these it selects the `K` with the highest score
(`activityPrefilterSelectTopk`).

The selection is an exact top-`K` (`topk_exact`): the scores rank the eligible observations
strictly if no two of them are of one process, so that the order of the input does not
matter. What the detector calls active is eligible (`active_is_eligible`).

The scores are `double`s, which need not be numbers; the deltas of
`proc_activity_compute_delta`, with its exact arithmetic, are some of them
(`ProcActivityDelta.toDoubles`). Whether `calloc` gives memory is an input.
-/

namespace CgroupResearch

/-! ## Observations -/

/-- `enum activity_prefilter_status`. -/
inductive ActivityPrefilterRc
  | ok
  | errInvalidArg
  | errNoSpace
  | errNoMemory
  deriving DecidableEq, Repr

/-- `struct activity_prefilter_config`. -/
structure ActivityPrefilterConfig where
  maxCandidates : ℕ
  minRssPages : UInt64
  deriving DecidableEq, Repr

/-- `struct proc_activity_delta`, with `double`s. -/
structure ActivityDelta where
  pid : ℤ
  valid : Bool
  active : Bool
  pidReused : Bool
  elapsedSec : Double
  cpuTicksDelta : UInt64
  cpuSeconds : Double
  cpuRatio : Double
  minfltDelta : UInt64
  majfltDelta : UInt64
  weightedFaults : Double
  faultsPerSec : Double
  rssMib : Double
  cpuScore : Double
  faultScore : Double
  rssScore : Double
  totalScore : Double
  reason : String
  deriving DecidableEq, Repr

/-- A delta as the prefilter reads it. -/
def ProcActivityDelta.toDoubles (d : ProcActivityDelta) : ActivityDelta where
  pid := d.pid
  valid := d.valid
  active := d.active
  pidReused := d.pidReused
  elapsedSec := .ofRat d.elapsedSec
  cpuTicksDelta := d.cpuTicksDelta
  cpuSeconds := .ofRat d.cpuSeconds
  cpuRatio := .ofRat d.cpuRatio
  minfltDelta := d.minfltDelta
  majfltDelta := d.majfltDelta
  weightedFaults := .ofRat d.weightedFaults
  faultsPerSec := .ofRat d.faultsPerSec
  rssMib := .ofRat d.rssMib
  cpuScore := .ofRat d.cpuScore
  faultScore := .ofRat d.faultScore
  rssScore := .ofRat d.rssScore
  totalScore := .ofRat d.totalScore
  reason := d.reason

/-- `struct activity_prefilter_observation`. -/
structure ActivityPrefilterObservation where
  pid : ℤ
  sample : ProcActivitySample
  delta : ActivityDelta
  deriving DecidableEq, Repr

/-- `struct activity_prefilter_candidate`. -/
structure ActivityPrefilterCandidate where
  pid : ℤ
  screeningScore : Double
  delta : ActivityDelta
  deriving DecidableEq, Repr

/-- `struct activity_prefilter_stats`. -/
structure ActivityPrefilterStats where
  observations : ℕ
  validObservations : ℕ
  excludedZombie : ℕ
  excludedSmallRss : ℕ
  excludedNoSignal : ℕ
  eligibleCandidates : ℕ
  selectedCandidates : ℕ
  deriving DecidableEq, Repr

/-- `activity_prefilter_config_default`. -/
def activityPrefilterConfigDefault : ActivityPrefilterConfig := ⟨64, 1⟩

/-- `activity_prefilter_stats_reset`. -/
def activityPrefilterStatsReset : ActivityPrefilterStats := ⟨0, 0, 0, 0, 0, 0, 0⟩

/-! ## Eligibility -/

/-- `max3`. -/
def max3 (a b c : Double) : Double :=
  let maxValue := a
  let maxValue := if maxValue.lt b then b else maxValue
  if maxValue.lt c then c else maxValue

/-- `observation_is_valid`. -/
def observationIsValid (obs : ActivityPrefilterObservation) : Bool :=
  if obs.pid ≤ 0 then false
  else if obs.sample.valid = false ∨ obs.delta.valid = false then false
  else if obs.sample.pid ≠ obs.pid ∨ obs.delta.pid ≠ obs.pid then false
  else true

/-- `has_cheap_activity_signal`. -/
def hasCheapActivitySignal (obs : ActivityPrefilterObservation) : Bool :=
  if 0 < obs.delta.cpuTicksDelta then true
  else if 0 < obs.delta.minfltDelta ∨ 0 < obs.delta.majfltDelta then true
  else if obs.sample.state = 'R' ∨ obs.sample.state = 'D' then true
  else false

/-- The process holds too few pages. (A positive `rss_pages` is the same number as an
    `uint64_t`.) -/
def rssTooSmall (obs : ActivityPrefilterObservation) (cfg : ActivityPrefilterConfig) : Bool :=
  obs.sample.rssPages ≤ 0 ∨ obs.sample.rssPages.toNat < cfg.minRssPages.toNat

/-- `activity_prefilter_is_eligible`, with what it leaves in `*eligible_out`. -/
def activityPrefilterIsEligible (obs : ActivityPrefilterObservation)
    (cfg : ActivityPrefilterConfig) : ActivityPrefilterRc × Bool :=
  if !observationIsValid obs then (.ok, false)
  else if obs.sample.state = 'Z' then (.ok, false)
  else if rssTooSmall obs cfg then (.ok, false)
  else if !hasCheapActivitySignal obs then (.ok, false)
  else (.ok, true)

/-! ## Selection -/

/-- `compare_candidate_desc`. -/
def compareCandidateDesc (a b : ActivityPrefilterCandidate) : ℤ :=
  if a.screeningScore.lt b.screeningScore then 1
  else if b.screeningScore.lt a.screeningScore then -1
  else if b.pid < a.pid then 1
  else if a.pid < b.pid then -1
  else 0

/-- The candidate of an observation. -/
def prefilterCandidate (obs : ActivityPrefilterObservation) : ActivityPrefilterCandidate where
  pid := obs.pid
  screeningScore := max3 obs.delta.cpuScore obs.delta.faultScore obs.delta.rssScore
  delta := obs.delta

/-- The loop of `activity_prefilter_select_topk`: its return code, the statistics and the
    candidates. -/
def eligibleLoop (cfg : ActivityPrefilterConfig) : List ActivityPrefilterObservation →
    ActivityPrefilterStats → List ActivityPrefilterCandidate →
    ActivityPrefilterRc × ActivityPrefilterStats × List ActivityPrefilterCandidate
  | [], stats, eligible => (.ok, stats, eligible)
  | obs :: rest, stats, eligible =>
    if !observationIsValid obs then
      eligibleLoop cfg rest stats eligible
    else
      let stats := { stats with validObservations := stats.validObservations + 1 }
      if obs.sample.state = 'Z' then
        eligibleLoop cfg rest { stats with excludedZombie := stats.excludedZombie + 1 } eligible
      else if rssTooSmall obs cfg then
        eligibleLoop cfg rest { stats with excludedSmallRss := stats.excludedSmallRss + 1 }
          eligible
      else
        let (rc, eligibleNow) := activityPrefilterIsEligible obs cfg
        if rc ≠ .ok then
          (rc, stats, eligible)
        else if !eligibleNow then
          eligibleLoop cfg rest { stats with excludedNoSignal := stats.excludedNoSignal + 1 }
            eligible
        else
          eligibleLoop cfg rest stats (eligible ++ [prefilterCandidate obs])

/-- What a call of `activity_prefilter_select_topk` returns and leaves in its arguments. -/
structure TopkResult where
  rc : ActivityPrefilterRc
  out : Option (List ActivityPrefilterCandidate)
  outCount : ℕ
  stats : ActivityPrefilterStats
  deriving DecidableEq, Repr

/-- `activity_prefilter_select_topk`; `out` is the buffer, if there is one, and `calloc`
    whether there is memory. -/
def activityPrefilterSelectTopk (qsort : CarefulQsort compareCandidateDesc) (calloc : Bool)
    (observations : List ActivityPrefilterObservation) (cfg : ActivityPrefilterConfig)
    (out : Option (List ActivityPrefilterCandidate)) (outCap : ℕ) : TopkResult :=
  let stats := activityPrefilterStatsReset
  if 0 < cfg.maxCandidates ∧ out = none then
    ⟨.errInvalidArg, out, 0, stats⟩
  else
    let stats := { stats with observations := observations.length }
    if observations.length = 0 then
      ⟨.ok, out, 0, stats⟩
    else if !calloc then
      ⟨.errNoMemory, out, 0, stats⟩
    else
      match eligibleLoop cfg observations stats [] with
      | (.ok, stats, eligible) =>
        let eligibleCount := eligible.length
        let eligible := qsort.sort eligible
        let stats := { stats with eligibleCandidates := eligibleCount }
        let selectedCount :=
          if 0 < cfg.maxCandidates ∧ cfg.maxCandidates < eligibleCount then cfg.maxCandidates
          else eligibleCount
        if outCap < selectedCount then
          ⟨.errNoSpace, out, 0, stats⟩
        else
          ⟨.ok, out.map fun buf => eligible.take selectedCount ++ buf.drop selectedCount,
            selectedCount, { stats with selectedCandidates := selectedCount }⟩
      | (rc, stats, _) => ⟨rc, out, 0, stats⟩

/-! ## What the loop collects -/

/-- The verdict of `activity_prefilter_is_eligible`. -/
def isEligible (cfg : ActivityPrefilterConfig) (obs : ActivityPrefilterObservation) : Bool :=
  (activityPrefilterIsEligible obs cfg).2

/-- The candidates of the eligible observations, in their order. -/
def prefilterCandidates (cfg : ActivityPrefilterConfig)
    (observations : List ActivityPrefilterObservation) : List ActivityPrefilterCandidate :=
  (observations.filter (isEligible cfg)).map prefilterCandidate

/-- Every observation that was valid is excluded for one reason or is a candidate; `n` counts
    the candidates. -/
def Accounted (stats : ActivityPrefilterStats) (n : ℕ) : Prop :=
  stats.validObservations =
    stats.excludedZombie + stats.excludedSmallRss + stats.excludedNoSignal + n

section

variable {cfg : ActivityPrefilterConfig} {obs : ActivityPrefilterObservation}

theorem activityPrefilterIsEligible_rc : (activityPrefilterIsEligible obs cfg).1 = .ok := by
  rw [activityPrefilterIsEligible]
  split_ifs <;> rfl

/-- An observation is eligible if it is valid, no zombie, large enough and shows activity. -/
theorem isEligible_eq : isEligible cfg obs =
    (observationIsValid obs && !decide (obs.sample.state = 'Z') && !rssTooSmall obs cfg &&
      hasCheapActivitySignal obs) := by
  rw [isEligible, activityPrefilterIsEligible]
  split_ifs <;> simp_all

/-- The candidates are those of the observations one by one. -/
theorem prefilterCandidates_cons (obs : ActivityPrefilterObservation)
    (rest : List ActivityPrefilterObservation) :
    prefilterCandidates cfg (obs :: rest) =
      prefilterCandidates cfg [obs] ++ prefilterCandidates cfg rest := by
  rw [prefilterCandidates, ← List.singleton_append, List.filter_append, List.map_append]
  rfl

theorem prefilterCandidates_of_eligible (h : isEligible cfg obs = true) :
    prefilterCandidates cfg [obs] = [prefilterCandidate obs] := by
  rw [prefilterCandidates, List.filter_cons_of_pos h]
  rfl

theorem prefilterCandidates_of_not_eligible (h : isEligible cfg obs = false) :
    prefilterCandidates cfg [obs] = [] := by
  rw [prefilterCandidates, List.filter_cons_of_neg (Bool.not_eq_true _ ▸ h)]
  rfl

/-- A turn of the loop: its checks and those of `activity_prefilter_is_eligible` agree. -/
theorem eligibleLoop_turn (obs : ActivityPrefilterObservation)
    (rest : List ActivityPrefilterObservation) (stats : ActivityPrefilterStats)
    (eligible : List ActivityPrefilterCandidate) (hstats : Accounted stats eligible.length) :
    ∃ stats', eligibleLoop cfg (obs :: rest) stats eligible =
        eligibleLoop cfg rest stats' (eligible ++ prefilterCandidates cfg [obs]) ∧
      Accounted stats' (eligible ++ prefilterCandidates cfg [obs]).length := by
  rw [Accounted] at hstats
  rw [eligibleLoop]
  cases hvalid : observationIsValid obs with
  | false =>
    have hnot : isEligible cfg obs = false := by simp [isEligible_eq, hvalid]
    rw [prefilterCandidates_of_not_eligible hnot, List.append_nil]
    exact ⟨stats, rfl, hstats⟩
  | true =>
    dsimp only
    rw [Bool.not_true, if_neg Bool.false_ne_true]
    by_cases hzombie : obs.sample.state = 'Z'
    · have hnot : isEligible cfg obs = false := by simp [isEligible_eq, hzombie]
      rw [if_pos hzombie, prefilterCandidates_of_not_eligible hnot, List.append_nil]
      refine ⟨_, rfl, ?_⟩
      rw [Accounted]
      dsimp only
      omega
    · rw [if_neg hzombie]
      cases hrss : rssTooSmall obs cfg with
      | true =>
        have hnot : isEligible cfg obs = false := by simp [isEligible_eq, hrss]
        rw [if_pos rfl, prefilterCandidates_of_not_eligible hnot, List.append_nil]
        refine ⟨_, rfl, ?_⟩
        rw [Accounted]
        dsimp only
        omega
      | false =>
        -- past the checks made twice, what is left to decide is the signal
        rw [if_neg Bool.false_ne_true, activityPrefilterIsEligible_rc, if_neg (not_not.2 rfl),
          ← isEligible]
        cases hnow : isEligible cfg obs with
        | false =>
          rw [prefilterCandidates_of_not_eligible hnow, List.append_nil]
          refine ⟨_, rfl, ?_⟩
          rw [Accounted]
          dsimp only
          omega
        | true =>
          rw [prefilterCandidates_of_eligible hnow, Bool.not_true, if_neg Bool.false_ne_true]
          refine ⟨_, rfl, ?_⟩
          rw [Accounted, List.length_append, List.length_singleton]
          dsimp only
          omega

/-- The loop collects the eligible observations, and counts each of the others once. -/
theorem eligibleLoop_spec (observations : List ActivityPrefilterObservation)
    (stats : ActivityPrefilterStats) (eligible : List ActivityPrefilterCandidate)
    (hstats : Accounted stats eligible.length) :
    ∃ stats', eligibleLoop cfg observations stats eligible =
        (.ok, stats', eligible ++ prefilterCandidates cfg observations) ∧
      Accounted stats' (eligible ++ prefilterCandidates cfg observations).length := by
  induction observations generalizing stats eligible with
  | nil =>
    exact ⟨stats, by simp [eligibleLoop, prefilterCandidates],
      by simpa [prefilterCandidates] using hstats⟩
  | cons obs rest ih =>
    obtain ⟨stats', hturn, hstats'⟩ := eligibleLoop_turn obs rest stats eligible hstats
    rw [hturn, prefilterCandidates_cons obs rest, ← List.append_assoc]
    exact ih stats' _ hstats'

theorem eligibleLoop_eq (cfg : ActivityPrefilterConfig)
    (observations : List ActivityPrefilterObservation) (n : ℕ) :
    ∃ stats, eligibleLoop cfg observations
        { activityPrefilterStatsReset with observations := n } [] =
          (.ok, stats, prefilterCandidates cfg observations) ∧
      Accounted stats (prefilterCandidates cfg observations).length :=
  eligibleLoop_spec observations { activityPrefilterStatsReset with observations := n } [] rfl

/-- How many candidates are selected. -/
theorem selectedCount_eq (hk : 0 < cfg.maxCandidates) (n : ℕ) :
    (if 0 < cfg.maxCandidates ∧ cfg.maxCandidates < n then cfg.maxCandidates else n) =
      min cfg.maxCandidates n := by
  split_ifs with h
  · exact (min_eq_left h.2.le).symm
  · exact (min_eq_right (not_lt.1 fun hlt => h ⟨hk, hlt⟩)).symm

/-- What a call returns and leaves in its buffer. -/
theorem select_eq (qsort : CarefulQsort compareCandidateDesc) (calloc : Bool)
    (observations : List ActivityPrefilterObservation) (buf : List ActivityPrefilterCandidate)
    (outCap : ℕ) (hk : 0 < cfg.maxCandidates) :
    let r := activityPrefilterSelectTopk qsort calloc observations cfg (some buf) outCap
    let n := min cfg.maxCandidates (prefilterCandidates cfg observations).length
    (r.rc, r.out, r.outCount) =
      if calloc = false ∧ observations ≠ [] then (.errNoMemory, some buf, 0)
      else if outCap < n then (.errNoSpace, some buf, 0)
      else (.ok, some ((qsort.sort (prefilterCandidates cfg observations)).take n ++ buf.drop n),
        n) := by
  intro r n
  have hr : r = activityPrefilterSelectTopk qsort calloc observations cfg (some buf) outCap := rfl
  rw [activityPrefilterSelectTopk, if_neg fun h => Option.some_ne_none _ h.2] at hr
  dsimp only at hr
  cases observations with
  | nil =>
    have hn : n = 0 := Nat.min_zero _
    rw [if_pos List.length_nil] at hr
    rw [if_neg fun h => h.2 rfl, hn, if_neg (Nat.not_lt_zero _), hr]
    rfl
  | cons obs rest =>
    obtain ⟨stats, hloop, -⟩ := eligibleLoop_eq cfg (obs :: rest) (obs :: rest).length
    have hlength : (obs :: rest).length ≠ 0 := Nat.succ_ne_zero _
    rw [if_neg hlength, hloop] at hr
    cases calloc with
    | false =>
      rw [if_pos ⟨rfl, List.cons_ne_nil _ _⟩, hr]
      rfl
    | true =>
      rw [Bool.not_true, if_neg Bool.false_ne_true] at hr
      dsimp only at hr
      rw [selectedCount_eq hk] at hr
      rw [if_neg fun h => Bool.noConfusion h.1, hr]
      split_ifs <;> rfl

/-- A call runs out of memory, or of room for the output, or succeeds. -/
theorem select_cases (qsort : CarefulQsort compareCandidateDesc) (calloc : Bool)
    (observations : List ActivityPrefilterObservation) (buf : List ActivityPrefilterCandidate)
    (outCap : ℕ) (hk : 0 < cfg.maxCandidates) :
    let r := activityPrefilterSelectTopk qsort calloc observations cfg (some buf) outCap
    let n := min cfg.maxCandidates (prefilterCandidates cfg observations).length
    (r.rc = .errNoMemory ∧ (calloc = false ∧ observations ≠ []) ∧
        r.outCount = 0 ∧ r.out = some buf) ∨
      (r.rc = .errNoSpace ∧ (calloc = true ∧ outCap < n) ∧ r.outCount = 0 ∧ r.out = some buf) ∨
      (r.rc = .ok ∧ (calloc = true ∨ observations = []) ∧ n ≤ outCap ∧
        r.out = some ((qsort.sort (prefilterCandidates cfg observations)).take n ++ buf.drop n) ∧
        r.outCount = n) := by
  intro r n
  have hr : (r.rc, r.out, r.outCount) = _ := select_eq qsort calloc observations buf outCap hk
  have hempty : outCap < n → observations ≠ [] := by
    rintro hlt rfl
    exact absurd hlt (by simp [n, prefilterCandidates])
  split_ifs at hr with hmem hspace
  · obtain ⟨hrc, hout, hcount⟩ := Prod.mk.inj hr |>.imp_right Prod.mk.inj
    exact .inl ⟨hrc, hmem, hcount, hout⟩
  · obtain ⟨hrc, hout, hcount⟩ := Prod.mk.inj hr |>.imp_right Prod.mk.inj
    refine .inr (.inl ⟨hrc, ⟨?_, hspace⟩, hcount, hout⟩)
    cases calloc with
    | false => exact absurd ⟨rfl, hempty hspace⟩ hmem
    | true => rfl
  · obtain ⟨hrc, hout, hcount⟩ := Prod.mk.inj hr |>.imp_right Prod.mk.inj
    refine .inr (.inr ⟨hrc, ?_, not_lt.1 hspace, hout, hcount⟩)
    cases calloc with
    | false => exact .inr (not_not.1 fun hne => hmem ⟨rfl, hne⟩)
    | true => exact .inl rfl

/-- Two calls with the same number of candidates, whose rankings agree under `f`. -/
theorem select_congr {qsort qsort' : CarefulQsort compareCandidateDesc} (calloc : Bool)
    {observations observations' : List ActivityPrefilterObservation}
    (buf : List ActivityPrefilterCandidate) (outCap : ℕ) (hk : 0 < cfg.maxCandidates)
    (f : ActivityPrefilterCandidate → ActivityPrefilterCandidate)
    (hlength : observations'.length = observations.length)
    (hcount : (prefilterCandidates cfg observations').length =
      (prefilterCandidates cfg observations).length)
    (hsort : (qsort'.sort (prefilterCandidates cfg observations')).map f =
      (qsort.sort (prefilterCandidates cfg observations)).map f) :
    let r := activityPrefilterSelectTopk qsort calloc observations cfg (some buf) outCap
    let r' := activityPrefilterSelectTopk qsort' calloc observations' cfg (some buf) outCap
    r'.rc = r.rc ∧ r'.outCount = r.outCount ∧
      r'.out.map (List.map f) = r.out.map (List.map f) := by
  intro r r'
  have hr : (r.rc, r.out, r.outCount) = _ := select_eq qsort calloc observations buf outCap hk
  have hr' : (r'.rc, r'.out, r'.outCount) = _ :=
    select_eq qsort' calloc observations' buf outCap hk
  have hnil : observations' = [] ↔ observations = [] := by
    rw [← List.length_eq_zero_iff, hlength, List.length_eq_zero_iff]
  simp only [hcount, ne_eq, hnil] at hr hr'
  split_ifs at hr hr' with hmem hspace
  · simp_all
  · simp_all
  · rw [Prod.mk.injEq, Prod.mk.injEq] at hr hr'
    rw [hr.1, hr'.1, hr.2.1, hr'.2.1, hr.2.2, hr'.2.2]
    refine ⟨rfl, rfl, ?_⟩
    rw [Option.map_some, Option.map_some, List.map_append, List.map_append, List.map_take, hsort,
      List.map_take]

/-- Whatever is returned, the observations are accounted for. -/
theorem select_accounted (qsort : CarefulQsort compareCandidateDesc) (calloc : Bool)
    (observations : List ActivityPrefilterObservation) (buf : List ActivityPrefilterCandidate)
    (outCap : ℕ) :
    let r := activityPrefilterSelectTopk qsort calloc observations cfg (some buf) outCap
    Accounted r.stats r.stats.eligibleCandidates := by
  intro r
  have hr : r = activityPrefilterSelectTopk qsort calloc observations cfg (some buf) outCap := rfl
  obtain ⟨stats, hloop, hstats⟩ := eligibleLoop_eq cfg observations observations.length
  rw [activityPrefilterSelectTopk] at hr
  dsimp only at hr
  rw [hloop] at hr
  dsimp only at hr
  split_ifs at hr <;> rw [hr] <;> first | rfl | exact hstats

end

/-! ## The ranking -/

/-- The order of the selection: by score, and by pid where the scores are equal. -/
def Outranks (a b : ActivityPrefilterCandidate) : Prop :=
  b.screeningScore.lt a.screeningScore = true ∨
    (a.screeningScore.lt b.screeningScore = false ∧ a.pid < b.pid)

/-- `max3` returns one of its arguments, and none is greater. -/
theorem max3_spec (a b c : Double) :
    (max3 a b c = a ∨ max3 a b c = b ∨ max3 a b c = c) ∧
      (max3 a b c).lt a = false ∧ (max3 a b c).lt b = false ∧ (max3 a b c).lt c = false := by
  rw [max3]
  cases hab : a.lt b with
  | true =>
    rw [if_pos rfl]
    cases hbc : b.lt c with
    | true =>
      rw [if_pos rfl]
      exact ⟨.inr (.inr rfl), Double.lt_asymm (Double.lt_trans hab hbc), Double.lt_asymm hbc,
        Double.lt_irrefl c⟩
    | false =>
      rw [if_neg Bool.false_ne_true]
      exact ⟨.inr (.inl rfl), Double.lt_asymm hab, Double.lt_irrefl b, hbc⟩
  | false =>
    rw [if_neg Bool.false_ne_true]
    cases hac : a.lt c with
    | true =>
      rw [if_pos rfl]
      refine ⟨.inr (.inr rfl), Double.lt_asymm hac, ?_, Double.lt_irrefl c⟩
      -- were `b` above `c`, it would be above `a`
      rw [← Bool.not_eq_true]
      intro hcb
      rw [Double.lt_trans hac hcb] at hab
      exact Bool.noConfusion hab
    | false =>
      rw [if_neg Bool.false_ne_true]
      exact ⟨.inl rfl, Double.lt_irrefl a, hab, hac⟩

section

variable {a b : ActivityPrefilterCandidate} {l : List ActivityPrefilterCandidate}

/-- Swapping the candidates changes the sign. -/
theorem compareCandidateDesc_flip (a b : ActivityPrefilterCandidate) :
    compareCandidateDesc b a = -compareCandidateDesc a b := by
  rw [compareCandidateDesc, compareCandidateDesc]
  cases hab : a.screeningScore.lt b.screeningScore with
  | true =>
    rw [Double.lt_asymm hab]
    rfl
  | false =>
    cases hba : b.screeningScore.lt a.screeningScore with
    | true => rfl
    | false =>
      rcases lt_trichotomy a.pid b.pid with h | h | h
      · simp [h, h.not_gt]
      · simp [h]
      · simp [h, h.not_gt]

/-- A candidate comes first if it outranks the other. -/
theorem compareCandidateDesc_neg_iff : compareCandidateDesc a b < 0 ↔ Outranks a b := by
  rw [compareCandidateDesc, Outranks]
  cases hab : a.screeningScore.lt b.screeningScore with
  | true => simp [Double.lt_asymm hab]
  | false =>
    cases hba : b.screeningScore.lt a.screeningScore with
    | true => simp
    | false =>
      rcases lt_trichotomy a.pid b.pid with h | h | h
      · simp [h, h.not_gt]
      · simp [h]
      · simp [h, h.not_gt]

theorem pid_eq_of_compareCandidateDesc (h : compareCandidateDesc a b = 0) : a.pid = b.pid := by
  have hflip := compareCandidateDesc_flip a b
  have hab : ¬Outranks a b := by
    rw [← compareCandidateDesc_neg_iff]
    omega
  have hba : ¬Outranks b a := by
    rw [← compareCandidateDesc_neg_iff]
    omega
  rw [Outranks, not_or, not_and, not_lt, Bool.not_eq_true] at hab hba
  exact le_antisymm (hba.2 hab.1) (hab.2 hba.1)

/-- For scores that are numbers, the comparison is that of two ranks. -/
theorem compareCandidateDesc_nonpos_iff (ha : a.screeningScore ≠ .nan)
    (hb : b.screeningScore ≠ .nan) :
    compareCandidateDesc a b ≤ 0 ↔
      b.screeningScore.rank < a.screeningScore.rank ∨
        (a.screeningScore.rank = b.screeningScore.rank ∧ a.pid ≤ b.pid) := by
  have hnot : compareCandidateDesc a b ≤ 0 ↔ ¬Outranks b a := by
    rw [← compareCandidateDesc_neg_iff, compareCandidateDesc_flip a b]
    omega
  rw [hnot, Outranks, ← Bool.not_eq_true, Double.lt_iff_rank_lt ha hb, Double.lt_iff_rank_lt hb ha]
  rcases lt_trichotomy a.screeningScore.rank b.screeningScore.rank with h | h | h
  · simp [h, h.not_gt, h.ne]
  · simp [h]
  · simp [h, h.not_gt]

/-- Without a score that is no number the comparison is consistent. -/
theorem compareCandidateDesc_consistent (h : ∀ c ∈ l, c.screeningScore ≠ .nan) :
    ConsistentOn compareCandidateDesc l where
  flip a _ b _ := by
    rw [compareCandidateDesc_flip a b]
    omega
  trans a ha b hb c hc hab hbc := by
    rw [compareCandidateDesc_nonpos_iff (h a ha) (h b hb)] at hab
    rw [compareCandidateDesc_nonpos_iff (h b hb) (h c hc)] at hbc
    rw [compareCandidateDesc_nonpos_iff (h a ha) (h c hc)]
    rcases hab with hab | ⟨hab, hab'⟩
    · rcases hbc with hbc | ⟨hbc, -⟩
      · exact .inl (hbc.trans hab)
      · exact .inl (hbc ▸ hab)
    · rcases hbc with hbc | ⟨hbc, hbc'⟩
      · exact .inl (hab.symm ▸ hbc)
      · exact .inr ⟨hab.trans hbc, hab'.trans hbc'⟩

end

/-- The eligible observations are of different processes, and their scores are numbers. -/
structure Comparable (cfg : ActivityPrefilterConfig)
    (observations : List ActivityPrefilterObservation) : Prop where
  pids : ((prefilterCandidates cfg observations).map (·.pid)).Nodup
  scores : ∀ c ∈ prefilterCandidates cfg observations, c.screeningScore ≠ .nan

/-- The candidates of the eligible observations, each before those that it outranks. -/
structure IsRanking (cfg : ActivityPrefilterConfig)
    (observations : List ActivityPrefilterObservation) (l : List ActivityPrefilterCandidate) :
    Prop where
  perm : l.Perm (prefilterCandidates cfg observations)
  pairwise : l.Pairwise Outranks

/-- An observation, but for its total score. -/
def ActivityPrefilterObservation.withoutTotal (obs : ActivityPrefilterObservation) :
    ActivityPrefilterObservation :=
  { obs with delta := { obs.delta with totalScore := .nan } }

/-- A candidate, but for its total score. -/
def ActivityPrefilterCandidate.withoutTotal (c : ActivityPrefilterCandidate) :
    ActivityPrefilterCandidate :=
  { c with delta := { c.delta with totalScore := .nan } }

section

variable {cfg : ActivityPrefilterConfig}
  {observations observations' : List ActivityPrefilterObservation}
  {l : List ActivityPrefilterCandidate}

/-- The candidates do not depend on the order of the observations. -/
theorem prefilterCandidates_perm (cfg : ActivityPrefilterConfig)
    (h : observations'.Perm observations) :
    (prefilterCandidates cfg observations').Perm (prefilterCandidates cfg observations) :=
  (h.filter _).map _

/-- The total score has no part in which candidates there are. -/
theorem prefilterCandidates_withoutTotal :
    prefilterCandidates cfg (observations.map (·.withoutTotal)) =
      (prefilterCandidates cfg observations).map (·.withoutTotal) := by
  rw [prefilterCandidates, List.filter_map, List.map_map, prefilterCandidates, List.map_map]
  rfl

/-- Whether the scores can be compared does not depend on the order. -/
theorem Comparable.of_perm (h : Comparable cfg observations)
    (hperm : observations'.Perm observations) : Comparable cfg observations' where
  pids := ((prefilterCandidates_perm cfg hperm).map _).nodup_iff.2 h.pids
  scores c hc := h.scores c ((prefilterCandidates_perm cfg hperm).mem_iff.1 hc)

theorem comparable_withoutTotal :
    Comparable cfg (observations.map (·.withoutTotal)) ↔ Comparable cfg observations := by
  constructor
  · rintro ⟨hpids, hscores⟩
    rw [prefilterCandidates_withoutTotal] at hpids hscores
    rw [List.map_map] at hpids
    exact ⟨hpids, fun c hc => hscores c.withoutTotal (List.mem_map_of_mem hc)⟩
  · rintro ⟨hpids, hscores⟩
    constructor
    · rw [prefilterCandidates_withoutTotal, List.map_map]
      exact hpids
    · rw [prefilterCandidates_withoutTotal]
      intro c hc
      obtain ⟨c', hc', rfl⟩ := List.mem_map.1 hc
      exact hscores c' hc'

/-- A ranking does not depend on the order. -/
theorem IsRanking.of_perm (h : IsRanking cfg observations' l)
    (hperm : observations'.Perm observations) : IsRanking cfg observations l :=
  ⟨h.perm.trans (prefilterCandidates_perm cfg hperm), h.pairwise⟩

/-- Nor does it depend on the total score. -/
theorem IsRanking.withoutTotal (h : IsRanking cfg observations l) :
    IsRanking cfg (observations.map (·.withoutTotal)) (l.map (·.withoutTotal)) where
  perm := by
    rw [prefilterCandidates_withoutTotal]
    exact h.perm.map _
  pairwise := List.pairwise_map.2 h.pairwise

/-- `qsort` ranks the candidates, and there is no other ranking. -/
theorem Comparable.isRanking_iff (h : Comparable cfg observations)
    (qsort : CarefulQsort compareCandidateDesc) :
    IsRanking cfg observations l ↔ l = qsort.sort (prefilterCandidates cfg observations) := by
  have hcons := compareCandidateDesc_consistent h.scores
  constructor
  · intro hl
    refine (qsort.sort_eq hcons (fun a ha b hb hab => ?_) hl.perm
      (hl.pairwise.imp fun hab => (compareCandidateDesc_neg_iff.2 hab).le)).symm
    exact List.inj_on_of_nodup_map h.pids ha hb (pid_eq_of_compareCandidateDesc hab)
  · rintro rfl
    have hperm := qsort.perm _ hcons
    refine ⟨hperm, ?_⟩
    have hpids : (qsort.sort (prefilterCandidates cfg observations)).Pairwise
        fun a b => a.pid ≠ b.pid :=
      List.pairwise_map.1 ((hperm.map _).nodup_iff.2 h.pids)
    refine ((qsort.sorted _ hcons).and hpids).imp fun {a b} hab => ?_
    exact compareCandidateDesc_neg_iff.1
      (lt_of_le_of_ne hab.1 fun h0 => hab.2 (pid_eq_of_compareCandidateDesc h0))

/-- Neither the order of the observations nor their total scores play a part in the ranking. -/
theorem Comparable.sort_withoutTotal (h : Comparable cfg observations)
    (hperm : (observations'.map (·.withoutTotal)).Perm (observations.map (·.withoutTotal)))
    (qsort qsort' : CarefulQsort compareCandidateDesc) :
    (qsort'.sort (prefilterCandidates cfg observations')).map (·.withoutTotal) =
      (qsort.sort (prefilterCandidates cfg observations)).map (·.withoutTotal) := by
  have hmap := comparable_withoutTotal.2 h
  have h' := comparable_withoutTotal.1 (hmap.of_perm hperm)
  have hrank := ((h.isRanking_iff qsort).2 rfl).withoutTotal
  have hrank' := ((h'.isRanking_iff qsort').2 rfl).withoutTotal.of_perm hperm
  rw [(hmap.isRanking_iff qsort).1 hrank, (hmap.isRanking_iff qsort).1 hrank']

/-- Comparable candidates are sorted in one way, in whatever order they come. -/
theorem Comparable.sort_perm (h : Comparable cfg observations)
    (hperm : observations'.Perm observations) (qsort qsort' : CarefulQsort compareCandidateDesc) :
    qsort'.sort (prefilterCandidates cfg observations') =
      qsort.sort (prefilterCandidates cfg observations) := by
  have h' := h.of_perm hperm
  exact (h.isRanking_iff qsort).1 (((h'.isRanking_iff qsort').2 rfl).of_perm hperm)

end

/-! ## Top-K -/

/-- **The selection is an exact top-K.** There is one ranking of the eligible observations,
    by the greatest of their three scores and then by pid, and

    * on success, the output is its beginning of length `min K eligible`;
    * without room for these the call returns `NO_SPACE` and writes nothing (and the same
      without memory, with its own code);
    * every valid observation is counted once;
    * a permutation of the input changes nothing, nor do other total scores but for these
      scores themselves. -/
theorem topk_exact (qsort : CarefulQsort compareCandidateDesc) (calloc : Bool)
    (observations : List ActivityPrefilterObservation) (cfg : ActivityPrefilterConfig)
    (buf : List ActivityPrefilterCandidate) (outCap : ℕ) (hk : 0 < cfg.maxCandidates)
    (h : Comparable cfg observations) :
    let eligible := observations.filter fun obs => (activityPrefilterIsEligible obs cfg).2
    let n := min cfg.maxCandidates eligible.length
    let r := activityPrefilterSelectTopk qsort calloc observations cfg (some buf) outCap
    (∀ obs ∈ eligible, ∀ m, m = (prefilterCandidate obs).screeningScore →
      (m = obs.delta.cpuScore ∨ m = obs.delta.faultScore ∨ m = obs.delta.rssScore) ∧
        m.lt obs.delta.cpuScore = false ∧ m.lt obs.delta.faultScore = false ∧
        m.lt obs.delta.rssScore = false) ∧
      (∃ ranked, (∀ l, IsRanking cfg observations l ↔ l = ranked) ∧
        (r.rc = .ok → r.out = some (ranked.take n ++ buf.drop n) ∧ r.outCount = n)) ∧
      (r.rc = .errNoSpace ↔ calloc = true ∧ outCap < n) ∧
      (r.rc = .errNoMemory ↔ calloc = false ∧ observations ≠ []) ∧
      (r.rc ≠ .ok → r.outCount = 0 ∧ r.out = some buf) ∧
      r.rc ≠ .errInvalidArg ∧
      r.stats.validObservations =
        r.stats.excludedZombie + r.stats.excludedSmallRss + r.stats.excludedNoSignal +
          r.stats.eligibleCandidates ∧
      ∀ (qsort' : CarefulQsort compareCandidateDesc)
        (observations' : List ActivityPrefilterObservation),
        let r' := activityPrefilterSelectTopk qsort' calloc observations' cfg (some buf) outCap
        (observations'.Perm observations →
          r'.rc = r.rc ∧ r'.out = r.out ∧ r'.outCount = r.outCount) ∧
        ((observations'.map (·.withoutTotal)).Perm (observations.map (·.withoutTotal)) →
          r'.rc = r.rc ∧ r'.outCount = r.outCount ∧
            r'.out.map (List.map (·.withoutTotal)) = r.out.map (List.map (·.withoutTotal))) := by
  intro eligible n r
  have hn : min cfg.maxCandidates (prefilterCandidates cfg observations).length = n := by
    rw [prefilterCandidates, List.length_map]
    rfl
  have hcases := select_cases qsort calloc observations buf outCap hk
  rw [hn] at hcases
  change (r.rc = _ ∧ _) ∨ (r.rc = _ ∧ _) ∨ (r.rc = _ ∧ _) at hcases
  refine ⟨?_, ⟨_, fun l => h.isRanking_iff qsort, ?_⟩, ?_, ?_, ?_, ?_,
    select_accounted qsort calloc observations buf outCap, fun qsort' observations' => ⟨?_, ?_⟩⟩
  · rintro obs - m rfl
    exact max3_spec _ _ _
  · intro hok
    rcases hcases with ⟨hrc, -⟩ | ⟨hrc, -⟩ | ⟨-, -, -, hout⟩
    · exact absurd (hrc.symm.trans hok) (by decide)
    · exact absurd (hrc.symm.trans hok) (by decide)
    · exact hout
  · rcases hcases with ⟨hrc, hwhy, -⟩ | ⟨hrc, hwhy, -⟩ | ⟨hrc, -, hroom, -⟩
    · simp [hrc, hwhy.1]
    · simp [hrc, hwhy]
    · simp [hrc, hroom]
  · rcases hcases with ⟨hrc, hwhy, -⟩ | ⟨hrc, hwhy, -⟩ | ⟨hrc, hwhy | hwhy, -⟩
    · simp [hrc, hwhy]
    · simp [hrc, hwhy.1]
    · simp [hrc, hwhy]
    · simp [hrc, hwhy]
  · intro hfail
    rcases hcases with ⟨-, -, hout⟩ | ⟨-, -, hout⟩ | ⟨hrc, -⟩
    · exact hout
    · exact hout
    · exact absurd hrc hfail
  · rcases hcases with ⟨hrc, -⟩ | ⟨hrc, -⟩ | ⟨hrc, -⟩ <;> simp [hrc]
  · intro hperm
    obtain ⟨hrc, hcount, hout⟩ := select_congr calloc buf outCap hk id hperm.length_eq
      (prefilterCandidates_perm cfg hperm).length_eq
      (congrArg (List.map id) (h.sort_perm hperm qsort qsort'))
    rw [List.map_id_fun, Option.map_id_fun] at hout
    exact ⟨hrc, hout, hcount⟩
  · intro hperm
    have hlength := hperm.length_eq
    have hcount := (prefilterCandidates_perm cfg hperm).length_eq
    rw [prefilterCandidates_withoutTotal, prefilterCandidates_withoutTotal] at hcount
    rw [List.length_map, List.length_map] at hlength hcount
    exact select_congr calloc buf outCap hk _ hlength hcount (h.sort_withoutTotal hperm _ _)

/-- An observation of a process with 100 pages and a tick, as the tests make them. -/
def makeObs (pid : ℤ) (state : Char) (cpuScore : ℚ) : ActivityPrefilterObservation where
  pid := pid
  sample := { procActivitySampleReset with pid, state, valid := true, rssPages := 100 }
  delta := ProcActivityDelta.toDoubles
    { procActivityDeltaReset with pid, valid := true, cpuTicksDelta := 1, cpuScore }

/-- Five eligible processes and a zombie, of which three are selected: the pid breaks the tie of
    three with one score, and the two with lower scores are cut off. -/
theorem topk_exact_three :
    let observations := [makeObs 4005 'R' (1 / 2), makeObs 4002 'S' (9 / 10),
      makeObs 4003 'R' (9 / 10), makeObs 4006 'Z' 1, makeObs 4001 'D' (9 / 10),
      makeObs 4004 'R' (7 / 10)]
    let r := activityPrefilterSelectTopk (.insertion _) true observations
      { activityPrefilterConfigDefault with maxCandidates := 3 } (some []) 3
    r.rc = .ok ∧ r.outCount = 3 ∧ r.out.map (List.map (·.pid)) = some [4001, 4002, 4003] := by
  intro observations r
  let cfg := { activityPrefilterConfigDefault with maxCandidates := 3 }
  let candidates := [makeObs 4001 'D' (9 / 10), makeObs 4002 'S' (9 / 10),
    makeObs 4003 'R' (9 / 10), makeObs 4004 'R' (7 / 10), makeObs 4005 'R' (1 / 2)].map
      prefilterCandidate
  have h : Comparable cfg observations := ⟨by decide +kernel, by decide +kernel⟩
  obtain ⟨-, ⟨ranked, hranked, hout⟩, hspace, hmemory, -, hvalid, -⟩ :=
    topk_exact (.insertion _) true observations cfg [] 3 (by decide) h
  have hn : min cfg.maxCandidates
      (observations.filter fun obs => (activityPrefilterIsEligible obs cfg).2).length = 3 := by
    decide +kernel
  have hok : r.rc = .ok := by
    cases hrc : r.rc with
    | ok => rfl
    | errInvalidArg => exact absurd hrc hvalid
    | errNoSpace => exact absurd (hspace.1 hrc).2 (by rw [hn]; decide)
    | errNoMemory => exact absurd (hmemory.1 hrc).1 (by decide)
  have hsorted : candidates.Pairwise fun a b => compareCandidateDesc a b < 0 := by
    decide +kernel
  obtain rfl : candidates = ranked :=
    (hranked candidates).1 ⟨by decide +kernel, hsorted.imp compareCandidateDesc_neg_iff.1⟩
  obtain ⟨hlist, hcount⟩ := hout hok
  rw [hn] at hlist hcount
  refine ⟨hok, hcount, ?_⟩
  rw [hlist]
  decide +kernel

/-! ## Active processes -/

section

variable {old new : ProcActivitySample} {cfg : ProcActivityConfig} {delta : ProcActivityDelta}

/-- The rates of a delta, and what is made of them. -/
theorem computeDelta_rates (h : procActivityComputeDelta old new cfg = (.ok, delta)) :
    new.valid = true ∧ delta.valid = true ∧ delta.pid = new.pid ∧
      (∃ clockTicks : ℤ, delta.cpuRatio =
        (delta.cpuTicksDelta.toNat : ℚ) / clockTicks / delta.elapsedSec) ∧
      delta.faultsPerSec =
        (delta.minfltDelta.toNat + cfg.majorFaultWeight * delta.majfltDelta.toNat) /
          delta.elapsedSec ∧
      delta.active = (rateActivity new cfg delta).1 := by
  rw [procActivityComputeDelta] at h
  obtain ⟨hvalid, h⟩ := passed_of_ok h (by decide)
  obtain ⟨-, h⟩ := passed_of_ok h (by decide)
  obtain ⟨-, h⟩ := passed_of_ok h (by decide)
  obtain ⟨-, h⟩ := passed_of_ok h (by decide)
  obtain ⟨-, h⟩ := passed_of_ok h (by decide)
  obtain ⟨-, h⟩ := passed_of_ok h (by decide)
  obtain ⟨-, h⟩ := passed_of_ok h (by decide)
  obtain ⟨-, h⟩ := passed_of_ok h (by decide)
  rw [← (Prod.mk.inj h).2]
  rw [not_or, Bool.not_eq_false, Bool.not_eq_false] at hvalid
  exact ⟨hvalid.2, rfl, rfl, ⟨_, rfl⟩, rfl, rfl⟩

/-- An active process is no zombie, is large enough, and crosses a threshold or runs. -/
theorem rateActivity_active (h : (rateActivity new cfg delta).1 = true) :
    new.state ≠ 'Z' ∧ cfg.minRssPages.toInt64.toInt ≤ new.rssPages ∧
      (cfg.activeCpuRatioThreshold ≤ delta.cpuRatio ∨
        cfg.activeFaultsPerSecThreshold ≤ delta.faultsPerSec ∨
        new.state = 'R' ∨ new.state = 'D') := by
  rw [rateActivity] at h
  split_ifs at h with hzombie hrss hactive
  exact ⟨hzombie, hrss, hactive⟩

end

/-- **The prefilter keeps every active process.** The thresholds of the detector are positive,
    so that a process that reaches one of them has used some time or made some fault, and it
    asks for at least as much memory as the prefilter. -/
theorem active_is_eligible (old new : ProcActivitySample) (cfg : ProcActivityConfig)
    (prefilter : ActivityPrefilterConfig) (delta : ProcActivityDelta) (hpid : 0 < new.pid)
    (hcpu : 0 < cfg.activeCpuRatioThreshold) (hfaults : 0 < cfg.activeFaultsPerSecThreshold)
    (hrss : 1 ≤ cfg.minRssPages.toNat ∧ cfg.minRssPages.toNat ≤ 2 ^ 63 - 1)
    (hprefilter : prefilter.minRssPages ≤ cfg.minRssPages)
    (hok : procActivityComputeDelta old new cfg = (.ok, delta)) (hactive : delta.active = true) :
    activityPrefilterIsEligible ⟨new.pid, new, delta.toDoubles⟩ prefilter = (.ok, true) := by
  obtain ⟨hnew, hdelta, hpids, ⟨clockTicks, hratio⟩, hrate, hrated⟩ := computeDelta_rates hok
  obtain ⟨hzombie, hpages, hreached⟩ := rateActivity_active (hrated ▸ hactive)
  have hvalid : observationIsValid ⟨new.pid, new, delta.toDoubles⟩ = true := by
    simp [observationIsValid, ProcActivityDelta.toDoubles, hnew, hdelta, hpids, hpid]
  have hlarge : rssTooSmall ⟨new.pid, new, delta.toDoubles⟩ prefilter = false := by
    have hsigned : cfg.minRssPages.toInt64.toInt = cfg.minRssPages.toNat :=
      BitVec.toInt_eq_toNat_of_lt (by
        change 2 * cfg.minRssPages.toNat < 2 ^ 64
        omega)
    have hle := UInt64.le_iff_toNat_le.1 hprefilter
    rw [rssTooSmall, decide_eq_false_iff_not]
    dsimp only
    omega
  have hsignal : hasCheapActivitySignal ⟨new.pid, new, delta.toDoubles⟩ = true := by
    rw [hasCheapActivitySignal]
    split_ifs with hticks hflt hstate
    · rfl
    · rfl
    · rfl
    · -- without ticks and faults, both rates are zero and reach no positive threshold
      have hzero : ∀ {n : UInt64}, ¬0 < n → n.toNat = 0 := fun hn =>
        Nat.eq_zero_of_not_pos fun hpos => hn (UInt64.lt_iff_toNat_lt.2 hpos)
      rw [not_or] at hflt
      have hcpu0 : delta.cpuTicksDelta.toNat = 0 := hzero hticks
      have hmin0 : delta.minfltDelta.toNat = 0 := hzero hflt.1
      have hmaj0 : delta.majfltDelta.toNat = 0 := hzero hflt.2
      rw [hcpu0, Nat.cast_zero, zero_div, zero_div] at hratio
      rw [hmin0, hmaj0, Nat.cast_zero, mul_zero, add_zero, zero_div] at hrate
      rcases hreached with hreached | hreached | hreached
      · exact absurd (hratio ▸ hreached) (not_le.2 hcpu)
      · exact absurd (hrate ▸ hreached) (not_le.2 hfaults)
      · exact absurd hreached hstate
  rw [activityPrefilterIsEligible, hvalid, hlarge, hsignal, if_neg (by decide), if_neg hzombie,
    if_neg (by decide), if_neg (by decide)]

/-- A process that used ten ticks in a second. -/
theorem active_is_eligible_busy :
    let old : ProcActivitySample :=
      { procActivitySampleReset with
        pid := 7, state := 'S', valid := true, clockTicksPerSec := 100, rssPages := 1000 }
    let new := { old with timestampNs := 1000000000, utimeTicks := 10 }
    let delta := (procActivityComputeDelta old new procActivityConfigDefault).2
    activityPrefilterIsEligible ⟨7, new, delta.toDoubles⟩ activityPrefilterConfigDefault =
      (.ok, true) := by
  intro old new delta
  have hok : (procActivityComputeDelta old new procActivityConfigDefault).1 = .ok := by
    decide +kernel
  exact active_is_eligible old new procActivityConfigDefault activityPrefilterConfigDefault delta
    (by decide) (by decide +kernel) (by decide +kernel) (by decide) (by decide) (Prod.ext hok rfl)
    (by decide +kernel)

end CgroupResearch
