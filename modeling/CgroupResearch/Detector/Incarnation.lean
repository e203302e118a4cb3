import CgroupResearch.Detector.Accepted
import CgroupResearch.Lib.Machine

/-!
# Candidates over many rounds

An entry of the detector keeps its last sample from one round to the next, on several paths: the
first sample, one that is rated, one of another process that reuses the pid, one that cannot be
compared with the last, and none at all. Over a run of rounds, what an entry says it keeps is the
last sample taken successfully from it (`Keeps`), and so a candidate is rated from two samples
in a row of one process (`candidate_of_one_incarnation`).
-/

namespace CgroupResearch

/-- What a call of `interference_detector_run_once` is given, but for the entries. -/
structure Round where
  env : RoundEnv
  mapping : DramMapping
  cfg : DetectorConfig
  outCap : ℕ

/-- A round over the entries that the one before it left. -/
def roundStep (processes : List InterferenceProcessState) (r : Round) :
    RoundResult × List InterferenceProcessState :=
  let result := interferenceDetectorRunOnce r.env processes r.mapping r.cfg r.outCap
  (result, result.processes)

/-- The successful samples of the entry `i` in a history of rounds, the latest first. -/
def samplesOf (history : List (Round × RoundResult)) (i : ℕ) : List ProcActivitySample :=
  history.filterMap fun h => h.2.samples[i]?.join

/-- The invariant of a run: a sample that an entry says it has is the last one taken from it. -/
def Keeps (history : List (Round × RoundResult)) (processes : List InterferenceProcessState) :
    Prop :=
  ∀ i p, processes[i]? = some p → p.hasActivitySample = true →
    (samplesOf history i).head? = some p.activitySample ∧ SampleOf p.pid p.activitySample

/-- What a candidate is to be rated from. -/
structure OneIncarnation (cfg : DetectorConfig) (c : DetectedCandidate)
    (old new : ProcActivitySample) (delta : ProcActivityDelta) : Prop where
  old_pid : old.pid = c.pid
  new_pid : new.pid = c.pid
  starttime : old.starttimeTicks = new.starttimeTicks
  timestamp : old.timestampNs < new.timestampNs
  rated : procActivityComputeDelta old new cfg.activityConfig = (.ok, delta)
  scores : c.activityScore = delta.totalScore ∧ c.cpuScore = delta.cpuScore ∧
    c.faultScore = delta.faultScore ∧ c.rssScore = delta.rssScore
  cpuTicks : (delta.cpuTicksDelta.toNat : ℤ) = (new.utimeTicks.toNat + new.stimeTicks.toNat : ℤ) -
    (old.utimeTicks.toNat + old.stimeTicks.toNat)
  minflt : (delta.minfltDelta.toNat : ℤ) = (new.minflt.toNat : ℤ) - old.minflt.toNat
  majflt : (delta.majfltDelta.toNat : ℤ) = (new.majflt.toNat : ℤ) - old.majflt.toNat

section Runs

variable {history : List (Round × RoundResult)} {processes : List InterferenceProcessState}

/-- The entries and the samples of a round, entry by entry. -/
theorem round_entries (processes : List InterferenceProcessState) (r : Round) (i : ℕ) :
    Option.Rel (fun p q => ∃ active, TurnSpec (r.env.stat i) r.cfg p q
        ((roundStep processes r).1.samples[i]?.join) active)
      processes[i]? (roundStep processes r).2[i]? := by
  rw [roundStep]
  rcases runOnce_cases r.env processes r.mapping r.cfg r.outCap with
    ⟨rc, stats, -, hr⟩ | ⟨stats, aggregate, stats', -, hr⟩
  · rw [hr, RoundResult.early]
    dsimp only
    rw [List.getElem?_map]
    cases processes[i]? with
    | none => exact .none
    | some p => exact .some ⟨none, .idle⟩
  · dsimp only at hr
    rw [hr]
    dsimp only [collectActiveNormalCandidates]
    have hturn := collectLoop_turns r.env r.cfg processes 0 stats' i
    rw [Nat.zero_add] at hturn
    rw [List.getElem?_map, List.getElem?_map]
    generalize processes[i]? = p at hturn ⊢
    generalize (collectLoop r.env r.cfg 0 processes stats').1[i]? = t at hturn ⊢
    cases hturn with
    | none => exact .none
    | some hturn => exact .some ⟨_, hturn⟩

/-- One more round has one more sample of a process, or none. -/
theorem samplesOf_cons (h : Round × RoundResult) (history : List (Round × RoundResult)) (i : ℕ) :
    samplesOf (h :: history) i = (h.2.samples[i]?.join).toList ++ samplesOf history i := by
  rw [samplesOf, List.filterMap_cons]
  cases h.2.samples[i]?.join <;> rfl

/-- Every round keeps the invariant. -/
theorem Keeps.step (hk : Keeps history processes) (r : Round) :
    Keeps ((r, (roundStep processes r).1) :: history) (roundStep processes r).2 := by
  intro i q hq hhas
  rw [samplesOf_cons]
  have hentry := round_entries processes r i
  rw [hq] at hentry
  cases hp : processes[i]? with
  | none =>
    rw [hp] at hentry
    exact nomatch hentry
  | some p =>
    rw [hp] at hentry
    obtain ⟨active, hturn⟩ := Option.rel_some_some.1 hentry
    generalize (roundStep processes r).1.samples[i]?.join = sample at hturn ⊢
    cases hturn with
    | idle => exact hk i _ hp hhas
    | gone => exact absurd hhas nofun
    | sampled hnow has => exact ⟨rfl, sampleNow_spec hnow⟩
    | rated halive hrole hold hnow hdelta => exact ⟨rfl, sampleNow_spec hnow⟩

/-- A candidate of a round was rated in the turn of its entry. -/
theorem candidate_turn {r : Round} {c : DetectedCandidate}
    (hc : c ∈ (roundStep processes r).1.out) :
    ∃ i p now delta, processes[i]? = some p ∧ p.alive = true ∧ p.role = .processNormal ∧
      p.hasActivitySample = true ∧ c.pid = p.pid ∧
      procActivitySampleNow (r.env.stat i) p.pid = .ok now ∧
      (roundStep processes r).1.samples[i]? = some (some now) ∧
      procActivityComputeDelta p.activitySample now r.cfg.activityConfig = (.ok, delta) ∧
      c.activityScore = delta.totalScore ∧ c.cpuScore = delta.cpuScore ∧
      c.faultScore = delta.faultScore ∧ c.rssScore = delta.rssScore := by
  rw [roundStep] at hc ⊢
  rcases runOnce_cases r.env processes r.mapping r.cfg r.outCap with
    ⟨rc, stats, -, hr⟩ | ⟨stats, aggregate, stats', -, hr⟩
  · rw [hr] at hc
    exact absurd hc List.not_mem_nil
  · dsimp only at hr
    rw [hr] at hc ⊢
    dsimp only at hc ⊢
    obtain ⟨a, ha, rank, score, common, -, rfl⟩ := profileLoop_mem hc
    obtain ⟨k, p, t, hp, ht, hspec⟩ :=
      active_turn (r.env.qsort.mem_sort.1 (List.mem_of_mem_take ha))
    rw [Nat.zero_add] at hspec
    have hsample : (collectActiveNormalCandidates r.env processes r.cfg stats').samples[k]? =
        some t.sample := by
      rw [collectActiveNormalCandidates]
      dsimp only
      rw [List.getElem?_map, ht]
      rfl
    generalize t.state = q at hspec
    generalize t.sample = now at hspec hsample
    -- Only a turn that rates the process puts a candidate on the list.
    cases hspec with
    | rated halive hrole hhas hnow hdelta =>
      exact ⟨k, p, _, _, hp, halive, hrole, hhas, rfl, hnow, hsample, hdelta, rfl, rfl, rfl, rfl⟩

/-- Over every run of rounds, a candidate is rated from the sample its entry gave in this round and
    the one before it, both of one process. -/
theorem candidate_of_one_incarnation
    (hfresh : ∀ p ∈ processes, p.hasActivitySample = false) (rounds : List Round) (r : Round)
    {c : DetectedCandidate}
    (hc : c ∈ (roundStep (Machine.after roundStep processes rounds) r).1.out) :
    ∃ i old new delta,
      ((Machine.after roundStep processes rounds)[i]?).map InterferenceProcessState.pid =
        some c.pid ∧
      procActivitySampleNow (r.env.stat i) c.pid = .ok new ∧
      (roundStep (Machine.after roundStep processes rounds) r).1.samples[i]? = some (some new) ∧
      (samplesOf (Machine.history roundStep processes rounds) i).head? = some old ∧
      OneIncarnation r.cfg c old new delta := by
  have hkeeps : Keeps (Machine.history roundStep processes rounds)
      (Machine.after roundStep processes rounds) := by
    refine Machine.after_invariant Keeps (fun i p hp hhas => ?_) (fun _ _ r hk => hk.step r) rounds
    rw [hfresh p (List.mem_of_getElem? hp)] at hhas
    exact nomatch hhas
  obtain ⟨i, p, new, delta, hp, -, -, hhas, hpid, hnow, hsample, hdelta, hscores⟩ :=
    candidate_turn hc
  obtain ⟨hlast, hold⟩ := hkeeps i p hp hhas
  have hnew := sampleNow_spec hnow
  obtain ⟨hsucc, -, hcpu, hmin, hmaj⟩ := computeDelta_ok hdelta
  obtain ⟨hcpu', hmin', hmaj'⟩ := hsucc.exact hold hnew
  rw [hpid]
  exact ⟨i, p.activitySample, new, delta, by rw [hp]; rfl, hnow, hsample, hlast,
    ⟨hold.pid_eq.trans hpid.symm, hnew.pid_eq.trans hpid.symm, hsucc.starttimeTicks_eq,
      hsucc.timestampNs_lt, hdelta, hscores, by rw [hcpu, hcpu'], by rw [hmin, hmin'],
      by rw [hmaj, hmaj']⟩⟩

end Runs

/-- The processes before the first round. -/
def freshProcesses : List InterferenceProcessState :=
  [{ interferenceProcessStateReset with pid := 10, role := .processProtected, alive := true },
    { interferenceProcessStateReset with pid := 11, alive := true }]

/-- A round at the time `sec`, with `minflt` faults of the normal process. -/
def roundAt (sec : UInt64) (minflt : String) : Round where
  env := { quietEnv with
    stat := fun _ => { runningStat with
      clock := some (sec, 0)
      stat := some ("11 (worker) R 1 1 1 0 0 0 " ++ minflt ++
        " 0 0 0 60 0 0 0 20 0 1 0 7 0 1000\n").toList } }
  mapping := ⟨[1], [], true⟩
  cfg := detectorConfigDefault
  outCap := 4

/-- The second of two rounds gives a candidate. -/
theorem candidate_of_one_incarnation_two :
    ∃ c ∈ (roundStep (Machine.after roundStep freshProcesses [roundAt 1 "100"])
        (roundAt 2 "900")).1.out,
      ∃ i old new delta,
        (samplesOf (Machine.history roundStep freshProcesses [roundAt 1 "100"]) i).head? =
          some old ∧
        OneIncarnation (roundAt 2 "900").cfg c old new delta := by
  have hne : (roundStep (Machine.after roundStep freshProcesses [roundAt 1 "100"])
      (roundAt 2 "900")).1.out ≠ [] := by decide +kernel
  obtain ⟨i, old, new, delta, -, -, -, hold, hone⟩ :=
    candidate_of_one_incarnation (by decide) [roundAt 1 "100"] (roundAt 2 "900")
      (List.head_mem hne)
  exact ⟨_, List.head_mem hne, i, old, new, delta, hold, hone⟩

end CgroupResearch
