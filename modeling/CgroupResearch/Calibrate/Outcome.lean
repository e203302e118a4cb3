import CgroupResearch.Calibrate.Supervised

/-!
# What comes of a calibration run

The results about `calibration_run`, in all runs of the daemon and its worker.

* `calibration_run_accepts`: when it succeeds, with what, and that the result is not a stale one;
* `calibration_run_collects`: what is left of the worker when it returns;
* `calibration_run_signals`: when the worker is signalled;
* `calibration_run_returns`: how soon it returns.
-/

namespace CgroupResearch

open CString ChildProcess Transition

/-- The state after a run of events, from a start at a time with an old file. -/
abbrev CalibrationConfig.after (cfg : CalibrationConfig) (strerror : ℕ → List Char) (now : ℕ)
    (file : Option (List Char)) (es : List SupervisionEvent) : Option Supervision :=
  run (superviseStep cfg strerror) (.init now file) es

/-! ## How soon it returns -/

/-- How often the daemon sleeps until a time has passed. -/
def sleeps (ms : ℤ) : ℕ := ((ms + 99) / 100).toNat

/-- How many calls `terminate_process_group` has still to make, at a time. -/
def TerminatePhase.weight (now : ℕ) : TerminatePhase → ℕ
  | .term => 66
  | .start => 65
  | .poll deadline => 3 * sleeps (deadline - now) + 4
  | .clock deadline => 3 * sleeps (deadline - now) + 3
  | .sleep deadline wake => 3 * sleeps (deadline - wake) + 5
  | .kill => 2
  | .reap => 1

/-- How many calls `wait_child` and what follows it have still to make, at a time. -/
def WaitPhase.weight (timeoutMs : ℤ) (now : ℕ) : WaitPhase → ℕ
  | .start => 3 * sleeps timeoutMs + 69
  | .poll startMs => 3 * sleeps (startMs + timeoutMs - now) + 68
  | .clock startMs => 3 * sleeps (startMs + timeoutMs - now) + 67
  | .sleep startMs wake => 3 * sleeps (startMs + timeoutMs - wake) + 69

/-- How many calls the daemon has still to make, if none fails. -/
def Supervision.weight (cfg : CalibrationConfig) (s : Supervision) : ℕ :=
  let timeoutMs : ℤ := cfg.timeoutSec.toNat * 1000
  match s.phase with
  | .validate => 3 * sleeps timeoutMs + 73
  | .unlink => 3 * sleeps timeoutMs + 72
  | .launch .fork => 3 * sleeps timeoutMs + 71
  | .launch .setpgid => 3 * sleeps timeoutMs + 70
  | .wait place => place.weight timeoutMs s.now
  | .terminate _ place => place.weight s.now
  | .load _ => 1
  | .done _ _ => 0

/-- The grace period has an end, and no sleep is longer than it should be. -/
def Supervision.Ending (s : Supervision) : Prop :=
  match s.phase with
  | .wait (.sleep _ wake) => wake ≤ s.now + waitPollMs
  | .terminate _ (.poll deadline) => 0 ≤ deadline
  | .terminate _ (.sleep deadline wake) => 0 ≤ deadline ∧ wake ≤ s.now + waitPollMs
  | _ => True

section

variable {cfg : CalibrationConfig} {s s' : Supervision} {strerror : ℕ → List Char}

theorem sleeps_mono {a b : ℤ} (h : a ≤ b) : sleeps a ≤ sleeps b := by
  unfold sleeps
  omega

/-- What does not depend on the supervisor adds no call. -/
theorem Supervision.weight_passes (h : s.Passes s') : s'.weight cfg ≤ s.weight cfg := by
  have hnow := h.now
  unfold Supervision.weight
  rw [h.phase]
  split <;> try exact le_rfl
  · next place _ =>
    cases place with
    | poll | clock =>
      have hmono := fun a : ℤ => sleeps_mono (sub_le_sub_left (Int.ofNat_le.2 hnow) a)
      simp only [WaitPhase.weight]
      gcongr
      exact hmono _
    | _ => exact le_rfl
  · next place _ =>
    cases place with
    | poll | clock =>
      have hmono := fun a : ℤ => sleeps_mono (sub_le_sub_left (Int.ofNat_le.2 hnow) a)
      simp only [TerminatePhase.weight]
      gcongr
      exact hmono _
    | _ => exact le_rfl

/-- A call of `wait_child` makes the weight less. -/
theorem waitChildCall_weight (hpos : 0 < cfg.timeoutSec) {place : WaitPhase}
    (h : waitChildCall cfg s none place = some s') :
    s'.Ending ∧ s'.weight cfg + 1 ≤ place.weight (cfg.timeoutSec.toNat * 1000) s.now := by
  cases place with
  | start =>
    simp only [waitChildCall, hpos, if_true, Supervision.monotonicMs] at h
    rw [if_neg (by omega)] at h
    obtain rfl := Option.some.inj h
    refine ⟨trivial, ?_⟩
    simp only [Supervision.weight, WaitPhase.weight, add_sub_cancel_left]
    omega
  | poll startMs =>
    simp only [waitChildCall, ne_eq, not_true_eq_false, if_false, hpos, if_true] at h
    rcases s.worker.waitpidNohang_cases with ⟨status, _, hwait⟩ | ⟨_, hwait⟩ | ⟨_, hwait⟩ <;>
      rw [hwait] at h <;> obtain rfl := Option.some.inj h
    · exact ⟨trivial, by simp only [Supervision.weight, WaitPhase.weight]; omega⟩
    · exact ⟨trivial, by simp only [Supervision.weight, WaitPhase.weight]; omega⟩
    · exact ⟨trivial, by simp only [Supervision.gives, Supervision.weight, WaitPhase.weight]; omega⟩
  | clock startMs =>
    simp only [waitChildCall, Supervision.monotonicMs, if_true] at h
    rw [if_neg (by omega)] at h
    split at h <;> obtain rfl := Option.some.inj h
    · exact ⟨trivial, by
        simp only [Supervision.weight, WaitPhase.weight, TerminatePhase.weight]; omega⟩
    · next hlt =>
      refine ⟨le_refl (s.now + waitPollMs), ?_⟩
      simp only [Supervision.weight, WaitPhase.weight, sleeps, waitPollMs]
      push_cast
      omega
  | sleep startMs wake =>
    simp only [waitChildCall] at h
    split at h
    · cases h
    · next hwake =>
      obtain rfl := Option.some.inj h
      have hle := sleeps_mono (a := startMs + cfg.timeoutSec.toNat * 1000 - s.now)
        (b := startMs + cfg.timeoutSec.toNat * 1000 - wake) (by omega)
      refine ⟨trivial, ?_⟩
      simp only [Supervision.weight, WaitPhase.weight]
      omega

theorem terminateCall_weight {rc : CalibrationRc} {place : TerminatePhase}
    (hs : ({ s with phase := .terminate rc place } : Supervision).Ending)
    (h : terminateProcessGroupCall cfg rc s none place = some s') :
    s'.Ending ∧ s'.weight cfg + 1 ≤ place.weight s.now := by
  cases place with
  | term | kill =>
    simp only [terminateProcessGroupCall, ne_eq, not_true_eq_false, if_false] at h
    obtain rfl := Option.some.inj h
    exact ⟨trivial, le_rfl⟩
  | start =>
    simp only [terminateProcessGroupCall, Supervision.monotonicMs, if_true] at h
    rw [if_pos (by omega)] at h
    obtain rfl := Option.some.inj h
    refine ⟨?_, ?_⟩
    · simp only [Supervision.Ending]
      omega
    · simp only [Supervision.weight, TerminatePhase.weight, sleeps, termGraceMs]
      omega
  | poll deadline =>
    have hdeadline : 0 ≤ deadline := hs
    simp only [terminateProcessGroupCall, ne_eq, not_true_eq_false, if_false, hdeadline,
      if_true] at h
    rcases s.worker.waitpidNohang_cases with ⟨status, _, hwait⟩ | ⟨_, hwait⟩ | ⟨_, hwait⟩ <;>
      rw [hwait] at h <;> obtain rfl := Option.some.inj h
    · exact ⟨trivial, by
        simp only [Supervision.gives, Supervision.weight, TerminatePhase.weight]; omega⟩
    · exact ⟨trivial, le_rfl⟩
    · exact ⟨trivial, by simp only [Supervision.weight, TerminatePhase.weight]; omega⟩
  | clock deadline =>
    simp only [terminateProcessGroupCall, Supervision.monotonicMs, if_true] at h
    split at h <;> obtain rfl := Option.some.inj h
    · exact ⟨trivial, by simp only [Supervision.weight, TerminatePhase.weight]; omega⟩
    · next hlt =>
      refine ⟨⟨by omega, le_refl (s.now + waitPollMs)⟩, ?_⟩
      · simp only [Supervision.weight, TerminatePhase.weight, sleeps, waitPollMs]
        push_cast
        omega
  | sleep deadline wake =>
    simp only [terminateProcessGroupCall] at h
    split at h
    · cases h
    · next hwake =>
      obtain rfl := Option.some.inj h
      have hle := sleeps_mono (a := deadline - s.now) (b := deadline - wake) (by omega)
      exact ⟨hs.1, by simp only [Supervision.weight, TerminatePhase.weight]; omega⟩
  | reap =>
    simp only [terminateProcessGroupCall, ne_eq, not_true_eq_false, if_false] at h
    obtain ⟨⟨found, worker⟩, _, rfl⟩ := Option.map_eq_some_iff.1 h
    exact ⟨trivial, le_rfl⟩

/-- A call that does not fail lowers the measure. -/
theorem Supervision.call_weight (hpos : 0 < cfg.timeoutSec) (hs : s.Ending)
    (h : superviseCall cfg strerror s none = some s') :
    s'.Ending ∧ s'.weight cfg + 1 ≤ s.weight cfg := by
  rcases hs' : s with ⟨phase, now, worker, grouped, file, forkedAt, sigtermAt, sigkillAt⟩
  subst hs'
  unfold superviseCall at h
  cases phase with
  | validate =>
    simp only [ne_eq, not_true_eq_false, if_false] at h
    split at h <;> obtain rfl := Option.some.inj h
    · exact ⟨trivial, by simp only [Supervision.gives, Supervision.weight]; omega⟩
    · exact ⟨trivial, le_rfl⟩
  | unlink =>
    obtain rfl := Option.some.inj h
    exact ⟨trivial, le_rfl⟩
  | launch place =>
    cases place with
    | fork =>
      simp only [launchWorkerCall, ne_eq, not_true_eq_false, if_false] at h
      obtain rfl := Option.some.inj h
      exact ⟨trivial, le_rfl⟩
    | setpgid =>
      rcases launchWorkerCall_setpgid h with ⟨herr, _⟩ | ⟨_, rfl⟩ | rfl
      · exact absurd rfl herr
      · exact ⟨trivial, le_rfl⟩
      · exact ⟨trivial, le_rfl⟩
  | wait place => exact waitChildCall_weight hpos h
  | terminate rc place => exact terminateCall_weight hs h
  | load workerExitCode =>
    obtain rfl := Option.some.inj h
    exact ⟨trivial, le_rfl⟩
  | done rc out => cases h

/-- What does not depend on the supervisor keeps the worker ending. -/
theorem Supervision.Ending.passes (h : s.Passes s') (hs : s.Ending) : s'.Ending := by
  have hnow := Nat.add_le_add_right h.now waitPollMs
  unfold Supervision.Ending at hs ⊢
  rw [h.phase]
  split at hs
  · exact hs.trans hnow
  · exact hs
  · exact ⟨hs.1, hs.2.trans hnow⟩
  · trivial

/-- A call of the daemon. -/
def SupervisionEvent.isCall : SupervisionEvent → Bool
  | .call _ => true
  | _ => false

variable {es : List SupervisionEvent} {now : ℕ} {file : Option (List Char)}

/-- A step keeps the worker ending, and a call makes the weight less. -/
theorem Supervision.step_weight (hpos : 0 < cfg.timeoutSec)
    (hes : ∀ errno, .call (some errno) ∉ es) {s : Supervision} {e : SupervisionEvent} (he : e ∈ es)
    {s' : Supervision} (hs : s.Ending) (h : superviseStep cfg strerror s e = some s') :
    s'.Ending ∧ s'.weight cfg + (if e.isCall then 1 else 0) ≤ s.weight cfg := by
  have hpasses (h : s.Passes s') : s'.Ending ∧ s'.weight cfg + 0 ≤ s.weight cfg :=
    ⟨hs.passes h, Supervision.weight_passes h⟩
  cases e with
  | call errno =>
    cases errno with
    | none =>
      have h : superviseCall cfg strerror s none = some s' := h
      exact Supervision.call_weight hpos hs h
    | some errno => exact absurd he (hes errno)
  | worker act => exact hpasses (Supervision.act_eq_some h).2.1
  | tick ms =>
    obtain rfl := Option.some.inj h
    exact hpasses (.tick s ms)

theorem Supervision.init_ending : (Supervision.init now file).Ending := trivial

/-- The daemon makes no more calls than the measure is at the start, if none fails. -/
theorem countP_isCall_le (hpos : 0 < cfg.timeoutSec) (hes : ∀ errno, .call (some errno) ∉ es)
    (hrun : cfg.after strerror now file es = some s) :
    es.countP SupervisionEvent.isCall ≤ 30 * cfg.timeoutSec.toNat + 73 := by
  have hle := countP_le_of_decreases Supervision.Ending (Supervision.weight cfg)
    SupervisionEvent.isCall
    (fun s e he s' hs h => Supervision.step_weight hpos hes he hs h) Supervision.init_ending hrun
  have hinit : (Supervision.init now file).weight cfg = 30 * cfg.timeoutSec.toNat + 73 := by
    simp only [Supervision.weight, Supervision.init, sleeps]
    omega
  omega

/-- The call that the daemon is at, if that can be made: a sleep has to be over, and a worker
    that is waited for has to have ended. -/
theorem superviseCall_ne_none (hdone : ∀ rc out, s.phase ≠ .done rc out)
    (hwait : ∀ startMs wake, s.phase = .wait (.sleep startMs wake) → wake ≤ s.now)
    (hgrace : ∀ rc deadline wake, s.phase = .terminate rc (.sleep deadline wake) → wake ≤ s.now)
    (hreap : ∀ rc, s.phase = .terminate rc .reap → ¬s.worker.life.alive) :
    ∃ s', superviseCall cfg strerror s none = some s' := by
  rw [← Option.ne_none_iff_exists']
  unfold superviseCall
  split <;> rename_i hphase
  · simp only [ne_eq, not_true_eq_false, if_false]
    split <;> simp
  · simp
  · next place =>
    cases place with
    | fork => simp [launchWorkerCall]
    | setpgid =>
      simp only [launchWorkerCall, Supervision.setpgid]
      split <;> simp
  · next place =>
    cases place with
    | sleep startMs wake => simp [waitChildCall, hwait _ _ hphase]
    | _ =>
      simp only [waitChildCall, ne_eq, not_true_eq_false, if_false]
      repeat' split
      all_goals simp
  · next rc place =>
    cases place with
    | sleep deadline wake => simp [terminateProcessGroupCall, hgrace _ _ _ hphase]
    | reap =>
      simp only [terminateProcessGroupCall, ne_eq, not_true_eq_false, if_false,
        Option.map_eq_none_iff]
      exact fun hblocks => hreap rc hphase (Child.waitpid_eq_none_iff.1 hblocks).1
    | _ =>
      simp only [terminateProcessGroupCall, ne_eq, not_true_eq_false, if_false]
      repeat' split
      all_goals simp
  · simp
  · exact absurd hphase (hdone _ _)

/-- If no call fails, the daemon can make its next call now, or after 100 ms, or after the
    death of a worker that was sent `SIGKILL`. -/
theorem exists_call (hpos : 0 < cfg.timeoutSec) (hes : ∀ errno, .call (some errno) ∉ es)
    (hrun : cfg.after strerror now file es = some s) (hdone : ∀ rc out, s.phase ≠ .done rc out) :
    (∃ s', superviseCall cfg strerror { s with now := s.now + waitPollMs } none = some s') ∨
    (s.worker.killed ∧ s.sigkillAt ≠ none ∧ ∃ s₁ s', s.act cfg (.dies 9) = some s₁ ∧
      superviseCall cfg strerror s₁ none = some s') := by
  have hending : s.Ending := run_invariant Supervision.Ending
    (fun s e he s' hs h => (Supervision.step_weight hpos hes he hs h).1) Supervision.init_ending
    hrun
  by_cases hreap : ∃ rc, s.phase = .terminate rc .reap ∧ s.worker.life.alive
  · obtain ⟨rc, hphase, halive⟩ := hreap
    have hfits := (Supervision.holds_of_run hrun).fits
    rw [Supervision.Fits, hphase] at hfits
    obtain ⟨t, t', hends, hkill, _, hkilled⟩ := hfits
    have hrc : rc ≠ .errFork := by
      rintro rfl
      cases hends.reason with
      | setpgid hfailed => exact hfailed.elim hes
    have hcall : ∃ s', superviseCall cfg strerror (s.ends (.signaled 9)) none = some s' :=
      superviseCall_ne_none hdone (by simp [Supervision.ends, hphase])
        (by simp [Supervision.ends, hphase]) (by simp [Supervision.ends, Life.alive])
    obtain ⟨s', hs'⟩ := hcall
    exact .inr ⟨hkilled hrc halive, by simp [hkill], s.ends (.signaled 9), s',
      by simp [Supervision.act, halive], hs'⟩
  · push Not at hreap
    refine .inl (superviseCall_ne_none hdone (fun startMs wake hphase => ?_)
      (fun rc deadline wake hphase => ?_) fun rc hphase => ?_)
    · have hphase : s.phase = .wait (.sleep startMs wake) := hphase
      rw [Supervision.Ending, hphase] at hending
      exact hending
    · have hphase : s.phase = .terminate rc (.sleep deadline wake) := hphase
      rw [Supervision.Ending, hphase] at hending
      exact hending.2
    · simpa using hreap rc hphase

/-! ## The results -/

/-- A worker has exited with 0 exactly if that is its exit code. -/
theorem exitCode_eq_zero_iff {status : Status} : exitCode status = 0 ↔ status = .exited 0 := by
  cases status with
  | exited code => simp [exitCode]
  | signaled signal =>
    simp only [exitCode, reduceCtorEq, iff_false]
    omega

/-- The verdict is a success exactly on a result that loads, from a worker that exited with 0. -/
theorem calibrationVerdict_ok_iff {workerExitCode : ℤ} {file : Option (List Char)}
    {out : CalibrationResult} : calibrationVerdict cfg workerExitCode file = (.ok, out) ↔
      workerExitCode = 0 ∧ ∃ loaded, calibrationLoadResult (cfg.resultPath.getD []) file =
        (.ok, loaded) ∧ out = { loaded with workerExitCode := 0 } := by
  unfold calibrationVerdict
  rcases calibrationLoadResult (cfg.resultPath.getD []) file with ⟨loadRc, loaded⟩
  by_cases hcode : workerExitCode = 0
  · subst hcode
    simp only [ne_eq, not_true_eq_false, if_false, Prod.mk.injEq, true_and]
    constructor
    · rintro ⟨rfl, rfl⟩
      exact ⟨loaded, ⟨rfl, rfl⟩, rfl⟩
    · rintro ⟨_, ⟨rfl, rfl⟩, rfl⟩
      exact ⟨rfl, rfl⟩
  · simp only [ne_eq, hcode, not_false_eq_true, if_true, false_and, iff_false]
    split
    · simp
    · split <;> simp

/-- A file that is not there does not load. -/
theorem calibrationLoadResult_none (path : List Char) :
    (calibrationLoadResult path none).1 = .errIo := rfl

theorem parseBankMasksLoop_ne_errTimeout (masks : List UInt64) (p : List Char) :
    (parseBankMasksLoop masks p).1 ≠ .errTimeout := by
  fun_induction parseBankMasksLoop masks p with
  | case1 => split <;> simp
  | case2 => assumption
  | case8 => assumption
  | _ => simp

/-- Loading does not time out. -/
theorem calibrationLoadResult_ne_errTimeout (path : List Char) (file : Option (List Char)) :
    (calibrationLoadResult path file).1 ≠ .errTimeout := by
  have hmetrics (root : JsonRange) (out : CalibrationResult) :
      (loadMetrics root out).1 ≠ .errTimeout := by
    unfold loadMetrics
    dsimp only
    repeat' split
    all_goals
      intro h
      cases h
  have hmasks (root : JsonRange) (out : CalibrationResult) :
      (loadMasks root out).1 ≠ .errTimeout := by
    unfold loadMasks
    dsimp only
    repeat' split
    iterate 3
      · intro h
        cases h
    · exact parseBankMasksLoop_ne_errTimeout _ _
    · exact hmetrics _ _
  have hrejected (b : Prop) [Decidable b] (out out' : CalibrationResult) :
      (if b then (CalibrationRc.errRejected, out) else (.errRejected, out')).1 ≠ .errTimeout := by
    split <;> simp
  unfold calibrationLoadResult
  dsimp only
  split
  · next hread =>
    unfold readFileLimited at hread
    split at hread
    · cases hread
      intro h
      cases h
    · split at hread <;> cases hread
      intro h
      cases h
  · split
    · intro h
      cases h
    · split
      · exact hrejected _ _ _
      · exact hmasks _ _

/-- No verdict on a report is a timeout. -/
theorem calibrationVerdict_ne_errTimeout (workerExitCode : ℤ) (file : Option (List Char)) :
    (calibrationVerdict cfg workerExitCode file).1 ≠ .errTimeout := by
  have hload := calibrationLoadResult_ne_errTimeout (cfg.resultPath.getD []) file
  unfold calibrationVerdict
  dsimp only
  split
  · split
    · intro h
      cases h
    · split
      all_goals
        intro h
        cases h
  · exact hload

/-- Why the worker was signalled, and when. -/
theorem Supervision.Fits.signals {failed : Prop} (hs : s.Fits cfg failed) :
    (∀ t, s.sigtermAt = some t → ∃ rc, s.Reason cfg failed t rc) ∧
    (∀ t', s.sigkillAt = some t' → ∃ t, s.sigtermAt = some t ∧ t + termGraceMs ≤ t') := by
  have hnone (hterm : s.sigtermAt = none) (hkill : s.sigkillAt = none) :
      (∀ t, s.sigtermAt = some t → ∃ rc, s.Reason cfg failed t rc) ∧
      (∀ t', s.sigkillAt = some t' → ∃ t, s.sigtermAt = some t ∧ t + termGraceMs ≤ t') := by
    simp [hterm, hkill]
  have hends {rc : CalibrationRc} {t : ℕ} (hends : s.Ends cfg failed rc t)
      (t' : ℕ) (ht : s.sigtermAt = some t') : ∃ rc, s.Reason cfg failed t' rc := by
    obtain rfl : t = t' := Option.some.inj (hends.sigterm.symm.trans ht)
    exact ⟨rc, hends.reason⟩
  unfold Supervision.Fits at hs
  split at hs
  · exact hnone hs.sigterm hs.sigkill
  · exact hnone hs.sigterm hs.sigkill
  · next place _ =>
    cases place with
    | fork | setpgid => exact hnone hs.sigterm hs.sigkill
  · next place _ =>
    cases place with
    | start | poll | clock | sleep => exact hnone hs.1.sigterm hs.1.sigkill
  · next rc place _ =>
    cases place with
    | term => exact hnone hs.1.sigterm hs.1.sigkill
    | start =>
      obtain ⟨hkill, t, h⟩ := hs
      exact ⟨hends h, by simp [hkill]⟩
    | poll | sleep | kill =>
      obtain ⟨hkill, t, h, _⟩ := hs
      exact ⟨hends h, by simp [hkill]⟩
    | clock =>
      obtain ⟨hkill, _, t, h, _⟩ := hs
      exact ⟨hends h, by simp [hkill]⟩
    | reap =>
      obtain ⟨t, t', h, hkill, hle, _⟩ := hs
      refine ⟨hends h, fun t'' ht'' => ⟨t, h.sigterm, ?_⟩⟩
      obtain rfl : t' = t'' := Option.some.inj (hkill.symm.trans ht'')
      exact hle
  · obtain ⟨_, _, _, _, _, hterm, hkill⟩ := hs
    exact hnone hterm hkill
  · cases hs with
    | invalid _ hs | unlink _ hs | fork _ hs | start _ hs => exact hnone hs.sigterm hs.sigkill
    | terminated _ _ hterm hreason hkill =>
      refine ⟨fun t' ht' => ?_, fun t' ht' => ⟨_, hterm, hkill t' ht'⟩⟩
      obtain rfl := Option.some.inj (hterm.symm.trans ht')
      exact ⟨_, hreason⟩
    | collected _ _ _ hterm hkill => exact hnone hterm hkill

/-- A run that has succeeded did so with a result that the worker has written in it. -/
theorem Supervision.Holds.accepts (h : s.Holds cfg es) {out : CalibrationResult}
    (hdone : s.phase = .done .ok out) :
    s.worker.life = .reaped (.exited 0) ∧ s.sigtermAt = none ∧
      ∃ content loaded, .worker (.writes content) ∈ es ∧ s.file = some content ∧
        calibrationLoadResult (cfg.resultPath.getD []) (some content) = (.ok, loaded) ∧
        out = { loaded with workerExitCode := 0 } := by
  obtain ⟨hfits, _, hwritten⟩ := h
  rw [Supervision.Fits, hdone] at hfits
  cases hfits with
  | terminated _ _ _ hreason => cases hreason
  | @collected status _ _ read hlife _ hforked hterm _ hread hverdict =>
    obtain ⟨hcode, loaded, hload, hout⟩ := calibrationVerdict_ok_iff.1 hverdict
    obtain rfl := exitCode_eq_zero_iff.1 hcode
    cases read with
    | none => exact absurd (congrArg Prod.fst hload) (by simp [calibrationLoadResult_none])
    | some content =>
      have hfile : s.file = some content := by
        rcases hread with hread | ⟨_, hread⟩
        · exact hread.symm
        · cases hread
      exact ⟨hlife, hterm, content, loaded, hwritten (.inl hforked) content hfile, hfile, hload,
        hout⟩

section Results

variable {rc : CalibrationRc} {out : CalibrationResult}

/-- The configuration of the daemon, with a timeout of two seconds. -/
def calibrationExample : CalibrationConfig :=
  { workerPath := some "scripts/kk_calibrate.py".toList
    resultPath := some "/run/protected-daemon/dram-map.json".toList
    workDir := some "/run/protected-daemon/kk-calibration".toList
    logPath := none
    runs := 3
    memoryPercent := .ofRat 25
    measurements := 500
    timingRounds := 50
    timeoutSec := 2 }

/-- The start of a run: the worker is launched, and comes to its program. -/
def launchedRun : List SupervisionEvent :=
  [.call none, .call none, .call none, .worker (.call true), .worker (.call true),
    .worker (.call true), .call none, .call none]

/-- A run of a worker that exits with 2, and leaves no result. -/
def exitedRun : List SupervisionEvent :=
  launchedRun ++ [.worker (.exits 2), .call none, .call none]

/-- A result that the daemon accepts. -/
def resultExample : List Char :=
  ("\x7b\"status\": \"success\", \"acceptance\": \x7b\"passed\": true\x7d, " ++
    "\"bank_masks\": [\"0x6000\"], \"mask_set_id\": \"a\", \"metrics\": \x7b\"holdout\": " ++
    "\x7b\"tp\": 1, \"tn\": 1, \"fp\": 0, \"fn\": 0, \"accuracy\": 1, \"precision\": 1, " ++
    "\"recall\": 1, \"f1\": 1\x7d\x7d\x7d").toList

/-- A run of a worker that leaves it, and exits with 0. -/
def acceptedRun : List SupervisionEvent :=
  launchedRun ++ [.worker (.writes resultExample), .worker (.exits 0), .call none, .call none]

/-- The code that is returned in the end. -/
def SupervisePhase.returned : SupervisePhase → Option CalibrationRc
  | .done rc _ => some rc
  | _ => none

/-- A run of a worker that ends only when it is killed. -/
def killedRun : List SupervisionEvent :=
  launchedRun ++ [.call none, .call none, .tick 2000, .call none, .call none, .call none,
    .call none, .call none, .call none, .call none, .tick 2000, .call none, .call none, .call none,
    .call none, .worker (.dies 9), .call none]

/-- `calibration_run` succeeds with what the worker has written in this run, from a worker that
    has exited with 0 and was not signalled, and if no call fails, it succeeds with every such
    result that loads. -/
theorem calibration_run_accepts (hrun : cfg.after strerror now file es = some s)
    (hdone : s.phase = .done rc out) :
    (rc = .ok → s.worker.life = .reaped (.exited 0) ∧ s.sigtermAt = none ∧
      ∃ content loaded, .worker (.writes content) ∈ es ∧ s.file = some content ∧
        calibrationLoadResult (cfg.resultPath.getD []) (some content) = (.ok, loaded) ∧
        out = { loaded with workerExitCode := 0 }) ∧
    ((∀ errno, .call (some errno) ∉ es) → s.worker.life = .reaped (.exited 0) →
      s.sigtermAt = none → rc = (calibrationLoadResult (cfg.resultPath.getD []) s.file).1) := by
  have hholds := Supervision.holds_of_run hrun
  refine ⟨?_, fun hes hlife hterm => ?_⟩
  · rintro rfl
    exact hholds.accepts hdone
  · have hfits := hholds.fits
    rw [Supervision.Fits, hdone] at hfits
    cases hfits with
    | invalid _ hs | unlink _ hs | fork _ hs => exact absurd (hs.life.symm.trans hlife) (by simp)
    | start hfailed _ => exact hfailed.elim fun errno h => absurd h (hes errno)
    | terminated _ _ hterm' => exact absurd (hterm'.symm.trans hterm) (by simp)
    | @collected status _ _ read hlife' _ _ _ _ hread hverdict =>
      obtain rfl : status = .exited 0 := by simpa [hlife] using hlife'.symm
      obtain rfl : read = s.file := by
        rcases hread with hread | ⟨hfailed, _⟩
        · exact hread
        · exact hfailed.elim fun errno h => absurd h (hes errno)
      rw [calibrationVerdict] at hverdict
      exact (congrArg Prod.fst hverdict).symm

/-- A worker that writes its report and exits with 0 is accepted. -/
theorem calibration_run_accepts_accepted :
    ∃ s, calibrationExample.after (fun _ => []) 0 none acceptedRun = some s ∧
      s.worker.life = .reaped (.exited 0) ∧ s.sigtermAt = none := by
  have hrc : (calibrationExample.after (fun _ => []) 0 none acceptedRun).bind
      (fun s => s.phase.returned) = some .ok := by decide +kernel
  obtain ⟨s, hs, hrc⟩ := Option.bind_eq_some_iff.1 hrc
  cases hphase : s.phase with
  | done rc out =>
    obtain rfl : rc = .ok := by simpa [hphase, SupervisePhase.returned] using hrc
    obtain ⟨hlife, hterm, _⟩ := (calibration_run_accepts hs hphase).1 rfl
    exact ⟨s, hs, hlife, hterm⟩
  | _ => simp [hphase, SupervisePhase.returned] at hrc

/-- When `calibration_run` returns, the worker is collected, or was never forked; but if a call
    has failed, it may be left behind: then the code is `CALIBRATION_ERR_WAIT`, and the worker was
    not signalled. No signal has gone to a worker that was collected. -/
theorem calibration_run_collects (hrun : cfg.after strerror now file es = some s)
    (hdone : s.phase = .done rc out) :
    s.worker.strays = 0 ∧ (s.worker.life = .unborn ∨ (∃ status, s.worker.life = .reaped status) ∨
      rc = .errWait ∧ s.sigtermAt = none ∧ ∃ errno, .call (some errno) ∈ es) := by
  have hfits := (Supervision.holds_of_run hrun).fits
  rw [Supervision.Fits, hdone] at hfits
  cases hfits with
  | invalid _ hs | unlink _ hs | fork _ hs => exact ⟨hs.strays, .inl hs.life⟩
  | start hfailed hs => exact ⟨hs.strays, .inr (.inr ⟨rfl, hs.sigterm, hfailed⟩)⟩
  | terminated hlife hstrays => exact ⟨hstrays, .inr (.inl ⟨_, hlife⟩)⟩
  | collected hlife hstrays => exact ⟨hstrays, .inr (.inl ⟨_, hlife⟩)⟩

/-- A worker that has exited is collected, and gets no signal. -/
theorem calibration_run_collects_exited :
    ∃ s, calibrationExample.after (fun _ => []) 0 none exitedRun = some s ∧
      s.worker.strays = 0 :=
  ⟨_, rfl, (calibration_run_collects
    (show calibrationExample.after (fun _ => []) 0 none exitedRun = some _ from rfl) rfl).1⟩

/-- The worker is sent `SIGTERM` when its time is over, unless a call has failed, and `SIGKILL`
    no sooner than two seconds later. `CALIBRATION_ERR_TIMEOUT` is returned for nothing else. -/
theorem calibration_run_signals (hrun : cfg.after strerror now file es = some s) :
    (∀ t, s.sigtermAt = some t → (∃ errno, .call (some errno) ∈ es) ∨
      ∃ t₀, s.forkedAt = some t₀ ∧ t₀ + cfg.timeoutSec.toNat * 1000 ≤ t) ∧
    (∀ t', s.sigkillAt = some t' → ∃ t, s.sigtermAt = some t ∧ t + termGraceMs ≤ t') ∧
    (∀ out, s.phase = .done .errTimeout out → 0 < cfg.timeoutSec ∧ ∃ t₀ t,
      s.forkedAt = some t₀ ∧ s.sigtermAt = some t ∧ t₀ + cfg.timeoutSec.toNat * 1000 ≤ t) := by
  have hfits := (Supervision.holds_of_run hrun).fits
  obtain ⟨hterm, hkill⟩ := hfits.signals
  refine ⟨fun t ht => ?_, hkill, fun out hdone => ?_⟩
  · obtain ⟨rc, hreason⟩ := hterm t ht
    cases hreason with
    | setpgid hfailed => exact .inl hfailed
    | clock hfailed => exact .inl hfailed
    | timeout _ hforked hle => exact .inr ⟨_, hforked, hle⟩
  · rw [Supervision.Fits, hdone] at hfits
    cases hfits with
    | terminated _ _ hterm hreason =>
      cases hreason with
      | timeout hpos hforked hle => exact ⟨hpos, _, _, hforked, hterm, hle⟩
    | collected _ _ _ _ _ _ hverdict =>
      exact absurd (congrArg Prod.fst hverdict) (calibrationVerdict_ne_errTimeout _ _)

/-- A worker that ignores SIGTERM gets SIGKILL a grace later. -/
theorem calibration_run_signals_killed :
    ∃ s, calibrationExample.after (fun _ => []) 0 none killedRun = some s ∧
      ∃ t t', s.sigtermAt = some t ∧ s.sigkillAt = some t' ∧ t + termGraceMs ≤ t' := by
  have hkill : (calibrationExample.after (fun _ => []) 0 none killedRun).map
      Supervision.sigkillAt = some (some 4000) := by decide +kernel
  obtain ⟨s, hs, hkill⟩ := Option.map_eq_some_iff.1 hkill
  obtain ⟨t, ht, hle⟩ := (calibration_run_signals hs).2.1 4000 hkill
  exact ⟨s, hs, t, 4000, ht, hkill, hle⟩

/-- With a timeout, and if no call fails, `calibration_run` returns: it makes no more calls than
    the seconds of its timeout allow, and until it has returned it can make its next call when
    100 ms have passed, or when a worker that was sent `SIGKILL` has died. -/
theorem calibration_run_returns (hpos : 0 < cfg.timeoutSec)
    (hes : ∀ errno, .call (some errno) ∉ es) (hrun : cfg.after strerror now file es = some s) :
    es.countP SupervisionEvent.isCall ≤ 30 * cfg.timeoutSec.toNat + 73 ∧
    ((∃ rc out, s.phase = .done rc out) ∨
      (∃ s', superviseCall cfg strerror { s with now := s.now + waitPollMs } none = some s') ∨
      (s.worker.killed ∧ s.sigkillAt ≠ none ∧ ∃ s₁ s', s.act cfg (.dies 9) = some s₁ ∧
        superviseCall cfg strerror s₁ none = some s')) := by
  refine ⟨countP_isCall_le hpos hes hrun, ?_⟩
  by_cases hdone : ∃ rc out, s.phase = .done rc out
  · exact .inl hdone
  · exact .inr (exists_call hpos hes hrun fun rc out h => hdone ⟨rc, out, h⟩)

/-- With two seconds for the worker, its end takes no more calls than these. -/
theorem calibration_run_returns_killed :
    killedRun.countP SupervisionEvent.isCall ≤ 30 * 2 + 73 := by
  have hrun : (calibrationExample.after (fun _ => []) 0 none killedRun).isSome := by
    decide +kernel
  obtain ⟨s, hs⟩ := Option.isSome_iff_exists.1 hrun
  have hes (errno : ℕ) : .call (some errno) ∉ killedRun := by
    simp [killedRun, launchedRun]
  exact (calibration_run_returns (show 0 < calibrationExample.timeoutSec by decide) hes hs).1

end Results

end

end CgroupResearch
