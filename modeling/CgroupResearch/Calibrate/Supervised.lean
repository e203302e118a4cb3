import CgroupResearch.Calibrate.Supervisor
import Mathlib.Tactic

/-!
# The calibration worker under supervision

What holds in every run of the daemon and its calibration worker, whatever the worker does and
whichever calls fail.

The invariant `Supervision.Fits` says for each place of the daemon what it knows of the worker:
whether it is forked and collected, when it was signalled, and for what reason. A step of the
worker or of the clock keeps all that (`Fits.passes`), so that only the calls of the daemon are
gone through (`Fits.call`).
-/

namespace CgroupResearch

open CString ChildProcess Transition

section

variable (cfg : CalibrationConfig) (failed : Prop)

/-! ## The invariant -/

/-- The worker is not forked. -/
structure Supervision.Unforked (s : Supervision) : Prop where
  life : s.worker.life = .unborn
  strays : s.worker.strays = 0
  forked : s.forkedAt = none
  sigterm : s.sigtermAt = none
  sigkill : s.sigkillAt = none

/-- The worker is forked, and neither signalled nor collected. -/
structure Supervision.Waits (s : Supervision) : Prop where
  life : s.worker.life.uncollected
  strays : s.worker.strays = 0
  forked : ∃ t₀ ≤ s.now, s.forkedAt = some t₀
  sigterm : s.sigtermAt = none
  sigkill : s.sigkillAt = none

/-- Signals to the group reach the worker, as long as it lives. -/
def Supervision.Led (s : Supervision) : Prop := s.worker.life.alive → s.grouped

/-- Why the worker is sent `SIGTERM` at a time, with the code that is returned then: a call has
    failed, or the time is over. -/
inductive Supervision.Reason (s : Supervision) (t : ℕ) : CalibrationRc → Prop
  | setpgid : failed → Reason s t .errFork
  | clock : failed → s.Led → Reason s t .errWait
  | timeout {t₀ : ℕ} : 0 < cfg.timeoutSec → s.forkedAt = some t₀ →
      t₀ + cfg.timeoutSec.toNat * 1000 ≤ t → s.Led → Reason s t .errTimeout

/-- The worker was sent `SIGTERM` at a time, and is not collected. -/
structure Supervision.Ends (s : Supervision) (rc : CalibrationRc) (t : ℕ) : Prop where
  life : s.worker.life.uncollected
  strays : s.worker.strays = 0
  sigterm : s.sigtermAt = some t
  past : t ≤ s.now
  reason : s.Reason cfg failed t rc

/-- What `calibration_run` returns, with what has become of the worker. -/
inductive Supervision.Outcome (s : Supervision) : CalibrationRc → CalibrationResult → Prop
  | invalid : validateCalibrationConfig cfg ≠ .ok → s.Unforked →
      Outcome s .errInvalidArg (unsupervised cfg .errInvalidArg)
  | unlink {out : CalibrationResult} : failed → s.Unforked → Outcome s .errIo out
  | fork : failed → s.Unforked → Outcome s .errFork (unsupervised cfg .errFork)
  | start : failed → s.Waits → Outcome s .errWait (unsupervised cfg .errWait)
  | terminated {rc : CalibrationRc} {status : Status} {t : ℕ} : s.worker.life = .reaped status →
      s.worker.strays = 0 → s.sigtermAt = some t → s.Reason cfg failed t rc →
      (∀ t', s.sigkillAt = some t' → t + termGraceMs ≤ t') →
      Outcome s rc (unsupervised cfg rc)
  | collected {status : Status} {rc : CalibrationRc} {out : CalibrationResult}
      {file : Option (List Char)} : s.worker.life = .reaped status → s.worker.strays = 0 →
      s.forkedAt ≠ none → s.sigtermAt = none → s.sigkillAt = none →
      file = s.file ∨ failed ∧ file = none →
      calibrationVerdict cfg (exitCode status) file = (rc, out) → Outcome s rc out

/-- What is known in `launch_worker`. -/
def LaunchPhase.Fits (s : Supervision) : LaunchPhase → Prop
  | .fork => s.Unforked
  | .setpgid => s.Waits

/-- What is known in `wait_child`. -/
def WaitPhase.Fits (s : Supervision) : WaitPhase → Prop
  | .start => s.Waits ∧ s.Led
  | .poll startMs | .sleep startMs _ =>
    s.Waits ∧ s.Led ∧ (0 < cfg.timeoutSec → ∃ t₀ : ℕ, s.forkedAt = some t₀ ∧ t₀ ≤ startMs)
  | .clock startMs =>
    s.Waits ∧ s.Led ∧ 0 < cfg.timeoutSec ∧ ∃ t₀ : ℕ, s.forkedAt = some t₀ ∧ t₀ ≤ startMs

/-- What is known in `terminate_process_group`. -/
def TerminatePhase.Fits (rc : CalibrationRc) (s : Supervision) : TerminatePhase → Prop
  | .term => s.Waits ∧ s.Reason cfg failed s.now rc
  | .start => s.sigkillAt = none ∧ ∃ t, s.Ends cfg failed rc t
  | .poll deadline | .sleep deadline _ =>
    s.sigkillAt = none ∧ ∃ t, s.Ends cfg failed rc t ∧ (0 ≤ deadline → t + termGraceMs ≤ deadline)
  | .clock deadline =>
    s.sigkillAt = none ∧ 0 ≤ deadline ∧ ∃ t : ℕ, s.Ends cfg failed rc t ∧
      t + termGraceMs ≤ deadline
  | .kill => s.sigkillAt = none ∧ ∃ t, s.Ends cfg failed rc t ∧ t + termGraceMs ≤ s.now
  | .reap =>
    ∃ t t', s.Ends cfg failed rc t ∧ s.sigkillAt = some t' ∧ t + termGraceMs ≤ t' ∧
      (rc ≠ .errFork → s.worker.life.alive → s.worker.killed)

/-- What the daemon knows of the worker, by its place. -/
def Supervision.Fits (s : Supervision) : Prop :=
  match s.phase with
  | .validate | .unlink => s.Unforked
  | .launch place => place.Fits s
  | .wait place => place.Fits cfg s
  | .terminate rc place => place.Fits cfg failed rc s
  | .load workerExitCode =>
    ∃ status, s.worker.life = .reaped status ∧ exitCode status = workerExitCode ∧
      s.worker.strays = 0 ∧ s.forkedAt ≠ none ∧ s.sigtermAt = none ∧ s.sigkillAt = none
  | .done rc out => s.Outcome cfg failed rc out

end

/-! ## What the daemon does not do -/

/-- The steps that are not the daemon's, as far as it is concerned. -/
structure Supervision.Passes (s s' : Supervision) : Prop where
  phase : s'.phase = s.phase
  now : s.now ≤ s'.now
  life : s'.worker.life = s.worker.life ∨ s.worker.life.alive ∧ s'.worker.life.uncollected
  strays : s'.worker.strays = s.worker.strays
  killed : s'.worker.killed = s.worker.killed
  grouped : s.grouped → s'.grouped
  forked : s'.forkedAt = s.forkedAt
  sigterm : s'.sigtermAt = s.sigtermAt
  sigkill : s'.sigkillAt = s.sigkillAt

section

variable {cfg : CalibrationConfig} {failed : Prop} {s s' : Supervision}

/-- A step of the worker: it was alive, and is not collected by it. The file changes by a write
    only. -/
theorem Supervision.act_eq_some {act : WorkerAct} (h : s.act cfg act = some s') :
    s.worker.life.alive ∧ s.Passes s' ∧ (s'.file = s.file ∨ ∃ content, act = .writes content ∧
      s'.file = some content) := by
  have hlife {place : WorkerPlace} (hplace : s.worker.life = .running place) :
      s.worker.life.alive := by simp [hplace, Life.alive]
  have hends (status : Status) (halive : s.worker.life.alive) : s.Passes (s.ends status) :=
    ⟨rfl, le_rfl, .inr ⟨halive, rfl⟩, rfl, rfl, id, rfl, rfl, rfl⟩
  have hgoes (place : WorkerPlace) (halive : s.worker.life.alive) : s.Passes (s.goes place) :=
    ⟨rfl, le_rfl, .inr ⟨halive, rfl⟩, rfl, rfl, id, rfl, rfl, rfl⟩
  cases act with
  | call ok =>
    simp only [Supervision.act] at h
    split at h
    · next hplace =>
      cases ok <;> obtain rfl := by simpa using h
      · exact ⟨hlife hplace, hends _ (hlife hplace), .inl rfl⟩
      · exact ⟨hlife hplace,
          ⟨rfl, le_rfl, .inr ⟨hlife hplace, rfl⟩, rfl, rfl, fun _ => rfl, rfl, rfl, rfl⟩, .inl rfl⟩
    · next hplace =>
      cases ok
      · obtain ⟨_, rfl⟩ := by simpa using h
        exact ⟨hlife hplace, hends _ (hlife hplace), .inl rfl⟩
      · obtain rfl := by simpa using h
        exact ⟨hlife hplace, hgoes _ (hlife hplace), .inl rfl⟩
    · next hplace =>
      cases ok <;> obtain rfl := by simpa using h
      · exact ⟨hlife hplace, hends _ (hlife hplace), .inl rfl⟩
      · exact ⟨hlife hplace, hgoes _ (hlife hplace), .inl rfl⟩
    · cases h
  | writes content =>
    obtain ⟨hplace, rfl⟩ := by simpa [Supervision.act] using h
    exact ⟨hlife hplace, ⟨rfl, le_rfl, .inl rfl, rfl, rfl, id, rfl, rfl, rfl⟩,
      .inr ⟨content, rfl, rfl⟩⟩
  | exits code =>
    obtain ⟨hplace, rfl⟩ := by simpa [Supervision.act] using h
    exact ⟨hlife hplace, hends _ (hlife hplace), .inl rfl⟩
  | dies signal =>
    obtain ⟨halive, rfl⟩ := by simpa [Supervision.act] using h
    exact ⟨halive, hends _ halive, .inl rfl⟩

/-- The time passes by itself. -/
theorem Supervision.Passes.tick (s : Supervision) (ms : ℕ) :
    s.Passes { s with now := s.now + ms } :=
  ⟨rfl, Nat.le_add_right _ _, .inl rfl, rfl, rfl, id, rfl, rfl, rfl⟩

namespace Supervision.Passes

variable (h : s.Passes s')

include h

theorem alive (halive : s'.worker.life.alive) : s.worker.life.alive := by
  rcases h.life with hlife | hlife
  · rwa [← hlife]
  · exact hlife.1

theorem uncollected (hlife : s.worker.life.uncollected) : s'.worker.life.uncollected := by
  rcases h.life with hlife' | hlife'
  · rwa [hlife']
  · exact hlife'.2

/-- A worker that is not alive stays as it is. -/
theorem life_eq (hlife : ¬s.worker.life.alive) : s'.worker.life = s.worker.life :=
  h.life.resolve_right fun halive => hlife halive.1

/-- A worker that is not forked stays so. -/
theorem unforked (hs : s.Unforked) : s'.Unforked :=
  ⟨(h.life_eq (by simp [hs.life, Life.alive])).trans hs.life, h.strays.trans hs.strays,
    h.forked.trans hs.forked, h.sigterm.trans hs.sigterm, h.sigkill.trans hs.sigkill⟩

theorem waits (hs : s.Waits) : s'.Waits := by
  obtain ⟨t₀, hpast, hforked⟩ := hs.forked
  exact ⟨h.uncollected hs.life, h.strays.trans hs.strays,
    ⟨t₀, hpast.trans h.now, h.forked.trans hforked⟩, h.sigterm.trans hs.sigterm,
    h.sigkill.trans hs.sigkill⟩

theorem led (hs : s.Led) : s'.Led := fun halive => h.grouped (hs (h.alive halive))

theorem reason {t t' : ℕ} {rc : CalibrationRc} (ht : t ≤ t') (hs : s.Reason cfg failed t rc) :
    s'.Reason cfg failed t' rc := by
  cases hs with
  | setpgid hfailed => exact .setpgid hfailed
  | clock hfailed hled => exact .clock hfailed (h.led hled)
  | timeout hpos hforked hle hled =>
    exact .timeout hpos (h.forked.trans hforked) (hle.trans ht) (h.led hled)

theorem ends {t : ℕ} {rc : CalibrationRc} (hs : s.Ends cfg failed rc t) :
    s'.Ends cfg failed rc t :=
  ⟨h.uncollected hs.life, h.strays.trans hs.strays, h.sigterm.trans hs.sigterm,
    hs.past.trans h.now, h.reason le_rfl hs.reason⟩

end Supervision.Passes

/-- The invariant outlasts the steps that are not the daemon's, but for the file. -/
theorem Supervision.Fits.passes (h : s.Passes s') (hs : s.Fits cfg failed)
    (hfile : s'.file = s.file ∨ s.worker.life.alive) : s'.Fits cfg failed := by
  unfold Supervision.Fits at hs ⊢
  rw [h.phase]
  split at hs
  · exact h.unforked hs
  · exact h.unforked hs
  · next place _ =>
    cases place with
    | fork => exact h.unforked hs
    | setpgid => exact h.waits hs
  · next place _ =>
    cases place with
    | start => exact ⟨h.waits hs.1, h.led hs.2⟩
    | poll | sleep => exact ⟨h.waits hs.1, h.led hs.2.1, fun hpos => h.forked ▸ hs.2.2 hpos⟩
    | clock => exact ⟨h.waits hs.1, h.led hs.2.1, hs.2.2.1, h.forked ▸ hs.2.2.2⟩
  · next rc place _ =>
    cases place with
    | term => exact ⟨h.waits hs.1, h.reason h.now hs.2⟩
    | start =>
      obtain ⟨hkill, t, hends⟩ := hs
      exact ⟨h.sigkill.trans hkill, t, h.ends hends⟩
    | poll | sleep =>
      obtain ⟨hkill, t, hends, hle⟩ := hs
      exact ⟨h.sigkill.trans hkill, t, h.ends hends, hle⟩
    | clock =>
      obtain ⟨hkill, hpos, t, hends, hle⟩ := hs
      exact ⟨h.sigkill.trans hkill, hpos, t, h.ends hends, hle⟩
    | kill =>
      obtain ⟨hkill, t, hends, hle⟩ := hs
      exact ⟨h.sigkill.trans hkill, t, h.ends hends, hle.trans h.now⟩
    | reap =>
      obtain ⟨t, t', hends, hkill, hle, hkilled⟩ := hs
      exact ⟨t, t', h.ends hends, h.sigkill.trans hkill, hle, fun hrc halive =>
        h.killed ▸ hkilled hrc (h.alive halive)⟩
  · obtain ⟨status, hlife, hcode, hstrays, hforked, hterm, hkill⟩ := hs
    exact ⟨status, (h.life_eq (by simp [hlife, Life.alive])).trans hlife, hcode,
      h.strays.trans hstrays, h.forked ▸ hforked, h.sigterm.trans hterm, h.sigkill.trans hkill⟩
  · cases hs with
    | invalid hcfg hs => exact .invalid hcfg (h.unforked hs)
    | unlink hfailed hs => exact .unlink hfailed (h.unforked hs)
    | fork hfailed hs => exact .fork hfailed (h.unforked hs)
    | start hfailed hs => exact .start hfailed (h.waits hs)
    | terminated hlife hstrays hterm hreason hkill =>
      refine .terminated ((h.life_eq (by simp [hlife, Life.alive])).trans hlife)
        (h.strays.trans hstrays) (h.sigterm.trans hterm) (h.reason le_rfl hreason) ?_
      rwa [h.sigkill]
    | collected hlife hstrays hforked hterm hkill hread hverdict =>
      have halive : ¬s.worker.life.alive := by simp [hlife, Life.alive]
      refine .collected ((h.life_eq halive).trans hlife) (h.strays.trans hstrays)
        (h.forked ▸ hforked) (h.sigterm.trans hterm) (h.sigkill.trans hkill) ?_ hverdict
      rwa [hfile.resolve_right halive]

/-! ## What the daemon does -/

/-- An uncollected worker answers to `waitpid` with `WNOHANG` by its end, or that it lives. -/
theorem Supervision.waitpidNohang_cases (hlife : s.worker.life.uncollected) :
    (∃ status, s.worker.life = .zombie status ∧ s.worker.waitpidNohang =
      (some (.ended status), { s.worker with life := .reaped status })) ∨
    (s.worker.life.alive ∧ s.worker.waitpidNohang = (none, s.worker)) := by
  rcases s.worker.waitpidNohang_cases with h | h | ⟨h | ⟨status, h⟩, _⟩
  · exact .inl h
  · exact .inr h
  · simp [h, Life.uncollected] at hlife
  · simp [h, Life.uncollected] at hlife

/-- A signal to the group that is not a stray one. -/
theorem Supervision.sigterm_eq (hlife : s.worker.life.uncollected) :
    s.signal Child.sigterm = s.worker := by
  unfold Supervision.signal Child.sigterm
  cases hlife' : s.worker.life <;> simp_all [Life.uncollected]

/-- SIGKILL to a worker that is not collected is no stray signal, and kills one that leads its
    group. -/
theorem Supervision.sigkill_spec (hlife : s.worker.life.uncollected) :
    (s.signal Child.sigkill).life = s.worker.life ∧
      (s.signal Child.sigkill).strays = s.worker.strays ∧
      (s.grouped → s.worker.life.alive → (s.signal Child.sigkill).killed) := by
  unfold Supervision.signal Child.sigkill
  cases s.grouped <;> cases hlife' : s.worker.life <;>
    simp_all [Life.uncollected, Life.alive]

theorem Supervision.Reason.led {t : ℕ} {rc : CalibrationRc} (h : s.Reason cfg failed t rc)
    (hrc : rc ≠ .errFork) : s.Led := by
  cases h with
  | setpgid => exact absurd rfl hrc
  | clock _ hled => exact hled
  | timeout _ _ _ hled => exact hled

/-- A reason outlasts what does not change whether the worker lives, or leads its group. -/
theorem Supervision.Reason.of_life {t : ℕ} {rc : CalibrationRc} (h : s.Reason cfg failed t rc)
    (hlife : s'.worker.life = s.worker.life) (hgrouped : s'.grouped = s.grouped)
    (hforked : s'.forkedAt = s.forkedAt) : s'.Reason cfg failed t rc := by
  have hled : s.Led → s'.Led := fun hled halive => hgrouped ▸ hled (hlife ▸ halive)
  cases h with
  | setpgid hfailed => exact .setpgid hfailed
  | clock hfailed h => exact .clock hfailed (hled h)
  | timeout hpos hforked' hle h => exact .timeout hpos (hforked.trans hforked') hle (hled h)

theorem Supervision.Ends.of_eq {t : ℕ} {rc : CalibrationRc} (h : s.Ends cfg failed rc t)
    (hworker : s'.worker = s.worker) (hnow : s'.now = s.now) (hgrouped : s'.grouped = s.grouped)
    (hforked : s'.forkedAt = s.forkedAt) (hterm : s'.sigtermAt = s.sigtermAt) :
    s'.Ends cfg failed rc t :=
  ⟨hworker ▸ h.life, hworker ▸ h.strays, hterm.trans h.sigterm, hnow ▸ h.past,
    h.reason.of_life (by rw [hworker]) hgrouped hforked⟩

/-- A reason remains one when the worker is collected. -/
theorem Supervision.Reason.of_dead {t : ℕ} {rc : CalibrationRc} (h : s.Reason cfg failed t rc)
    (hlife : ¬s'.worker.life.alive) (hforked : s'.forkedAt = s.forkedAt) :
    s'.Reason cfg failed t rc := by
  cases h with
  | setpgid hfailed => exact .setpgid hfailed
  | clock hfailed => exact .clock hfailed fun halive => absurd halive hlife
  | timeout hpos hforked' hle =>
    exact .timeout hpos (hforked.trans hforked') hle fun halive => absurd halive hlife

theorem Supervision.Unforked.of_eq (h : s.Unforked) (hworker : s'.worker = s.worker)
    (hforked : s'.forkedAt = s.forkedAt) (hterm : s'.sigtermAt = s.sigtermAt)
    (hkill : s'.sigkillAt = s.sigkillAt) : s'.Unforked :=
  ⟨hworker ▸ h.life, hworker ▸ h.strays, hforked.trans h.forked, hterm.trans h.sigterm,
    hkill.trans h.sigkill⟩

variable {strerror : ℕ → List Char} {errno : Option ℕ}

/-- What `monotonic_ms` returns. -/
theorem Supervision.monotonicMs_cases (s : Supervision) (errno : Option ℕ) :
    errno = none ∧ s.monotonicMs errno = s.now ∨ errno ≠ none ∧ s.monotonicMs errno = -1 := by
  by_cases h : errno = none <;> simp [Supervision.monotonicMs, h]

/-- The parent's `setpgid`: the worker leads its group then, unless the call has failed. -/
theorem launchWorkerCall_setpgid (h : launchWorkerCall cfg s errno .setpgid = some s') :
    (errno ≠ none ∧ s' = { s with phase := .terminate .errFork .term }) ∨
    (s.worker.life = .running .main ∧ s' = { s with phase := .wait .start }) ∨
    s' = { s with phase := .wait .start, grouped := true } := by
  obtain ⟨⟨failure, s₁⟩, hcall, rfl⟩ := Option.map_eq_some_iff.1 h
  unfold Supervision.setpgid at hcall
  split at hcall
  · next e =>
    obtain ⟨⟨heacces, hesrch⟩, rfl, rfl⟩ := by simpa using hcall
    exact .inl ⟨by simp, by simp [heacces, hesrch]⟩
  · split at hcall
    · next hlife =>
      obtain ⟨rfl, rfl⟩ := by simpa using hcall
      exact .inr (.inl ⟨hlife, by simp⟩)
    · obtain ⟨rfl, rfl⟩ := by simpa using hcall
      exact .inr (.inr (by simp))

/-- What is known while waiting outlasts a change of the place only. -/
theorem Supervision.Waits.of_eq (h : s.Waits) (hworker : s'.worker = s.worker)
    (hnow : s'.now = s.now) (hforked : s'.forkedAt = s.forkedAt)
    (hterm : s'.sigtermAt = s.sigtermAt) (hkill : s'.sigkillAt = s.sigkillAt) : s'.Waits :=
  ⟨hworker ▸ h.life, hworker ▸ h.strays, hnow ▸ hforked ▸ h.forked, hterm.trans h.sigterm,
    hkill.trans h.sigkill⟩

/-- A call of `launch_worker` keeps the invariant. -/
theorem LaunchPhase.Fits.call {place : LaunchPhase} (hs : place.Fits s)
    (hfailed : errno ≠ none → failed) (hgrouped : s.worker.life = .running .main → s.grouped)
    (h : launchWorkerCall cfg s errno place = some s') : s'.Fits cfg failed := by
  cases place with
  | fork =>
    rw [launchWorkerCall] at h
    split at h
    · next herr =>
      obtain rfl := Option.some.inj h
      exact Supervision.Outcome.fork (hfailed herr) (hs.of_eq rfl rfl rfl rfl)
    · obtain rfl := Option.some.inj h
      exact ⟨rfl, hs.strays, ⟨s.now, le_rfl, rfl⟩, hs.sigterm, hs.sigkill⟩
  | setpgid =>
    have hwaits : s.Waits := hs
    rcases launchWorkerCall_setpgid h with ⟨herr, rfl⟩ | ⟨hlife, rfl⟩ | rfl
    · exact ⟨hwaits.of_eq rfl rfl rfl rfl rfl, .setpgid (hfailed herr)⟩
    · exact ⟨hwaits.of_eq rfl rfl rfl rfl rfl, fun _ => hgrouped hlife⟩
    · exact ⟨hwaits.of_eq rfl rfl rfl rfl rfl, fun _ => rfl⟩

/-- A call of `wait_child` keeps the invariant. -/
theorem WaitPhase.Fits.call {place : WaitPhase} (hs : place.Fits cfg s)
    (hfailed : errno ≠ none → failed) (h : waitChildCall cfg s errno place = some s') :
    s'.Fits cfg failed := by
  cases place with
  | start =>
    obtain ⟨hwaits, hled⟩ := hs
    obtain ⟨t₀, hpast, hforked⟩ := hwaits.forked
    rw [waitChildCall] at h
    split at h
    · rcases s.monotonicMs_cases errno with ⟨rfl, hclock⟩ | ⟨herr, hclock⟩
      · rw [hclock, if_neg (by omega)] at h
        obtain rfl := Option.some.inj h
        exact ⟨hwaits.of_eq rfl rfl rfl rfl rfl, hled, fun _ => ⟨t₀, hforked, by omega⟩⟩
      · rw [hclock, if_pos (by omega)] at h
        obtain rfl := Option.some.inj h
        exact Supervision.Outcome.start (hfailed herr) (hwaits.of_eq rfl rfl rfl rfl rfl)
    · next htimeout =>
      split at h
      · cases h
      · obtain rfl := Option.some.inj h
        exact ⟨hwaits.of_eq rfl rfl rfl rfl rfl, hled, fun hpos => absurd hpos htimeout⟩
  | poll startMs =>
    obtain ⟨hwaits, hled, hstart⟩ := hs
    rw [waitChildCall] at h
    split at h
    · cases h
    · rcases Supervision.waitpidNohang_cases hwaits.life with ⟨status, hlife, hwait⟩ | ⟨_, hwait⟩
      · rw [hwait] at h
        obtain rfl := Option.some.inj h
        obtain ⟨t₀, _, hforked⟩ := hwaits.forked
        exact ⟨status, rfl, rfl, hwaits.strays, by simp [hforked], hwaits.sigterm,
          hwaits.sigkill⟩
      · rw [hwait] at h
        dsimp only at h
        split at h <;> obtain rfl := Option.some.inj h
        · next hpos => exact ⟨hwaits.of_eq rfl rfl rfl rfl rfl, hled, hpos, hstart hpos⟩
        · exact ⟨hwaits.of_eq rfl rfl rfl rfl rfl, hled, hstart⟩
  | clock startMs =>
    obtain ⟨hwaits, hled, hpos, t₀, hforked, hstart⟩ := hs
    rw [waitChildCall] at h
    rcases s.monotonicMs_cases errno with ⟨rfl, hclock⟩ | ⟨herr, hclock⟩
    · rw [hclock, if_neg (by omega)] at h
      split at h
      · next hover =>
        obtain rfl := Option.some.inj h
        have hpast : t₀ + cfg.timeoutSec.toNat * 1000 ≤ s.now := by omega
        exact ⟨hwaits.of_eq rfl rfl rfl rfl rfl, .timeout hpos hforked hpast hled⟩
      · obtain rfl := Option.some.inj h
        exact ⟨hwaits.of_eq rfl rfl rfl rfl rfl, hled, fun _ => ⟨t₀, hforked, hstart⟩⟩
    · rw [hclock, if_pos (by omega)] at h
      obtain rfl := Option.some.inj h
      exact ⟨hwaits.of_eq rfl rfl rfl rfl rfl, .clock (hfailed herr) hled⟩
  | sleep startMs wake =>
    obtain ⟨hwaits, hled, hstart⟩ := hs
    rw [waitChildCall] at h
    split at h
    · cases h
    · obtain rfl := Option.some.inj h
      exact ⟨hwaits.of_eq rfl rfl rfl rfl rfl, hled, hstart⟩

/-- A call of `terminate_process_group` keeps the invariant. -/
theorem TerminatePhase.Fits.call {rc : CalibrationRc} {place : TerminatePhase}
    (hs : place.Fits cfg failed rc s)
    (h : terminateProcessGroupCall cfg rc s errno place = some s') : s'.Fits cfg failed := by
  -- a collected worker was signalled for the same reason
  have hcollected {t : ℕ} {status : Status} (hends : s.Ends cfg failed rc t)
      (hkill : ∀ t', s.sigkillAt = some t' → t + termGraceMs ≤ t') :
      ({ s with worker := { s.worker with life := .reaped status } }.gives cfg rc).Fits cfg
        failed :=
    Supervision.Outcome.terminated rfl hends.strays hends.sigterm
      (hends.reason.of_dead (by simp [Supervision.gives, Life.alive]) rfl) hkill
  cases place with
  | term =>
    obtain ⟨hwaits, hreason⟩ := hs
    rw [terminateProcessGroupCall, Supervision.sigterm_eq hwaits.life] at h
    split at h
    · cases h
    · obtain rfl := Option.some.inj h
      exact ⟨hwaits.sigkill, s.now, hwaits.life, hwaits.strays, rfl, le_rfl,
        hreason.of_life rfl rfl rfl⟩
  | start =>
    obtain ⟨hkill, t, hends⟩ := hs
    obtain rfl := Option.some.inj h
    refine ⟨hkill, t, hends.of_eq rfl rfl rfl rfl rfl, fun hpos => ?_⟩
    rcases s.monotonicMs_cases errno with ⟨rfl, hclock⟩ | ⟨herr, hclock⟩
    · have := hends.past
      rw [hclock, if_pos (by omega)]
      omega
    · rw [hclock] at hpos
      simp at hpos
  | poll deadline =>
    obtain ⟨hkill, t, hends, hle⟩ := hs
    rw [terminateProcessGroupCall] at h
    split at h
    · cases h
    · rcases Supervision.waitpidNohang_cases hends.life with ⟨status, hlife, hwait⟩ | ⟨_, hwait⟩
      · rw [hwait] at h
        obtain rfl := Option.some.inj h
        exact hcollected hends (by simp [hkill])
      · rw [hwait] at h
        dsimp only at h
        split at h <;> obtain rfl := Option.some.inj h
        · next hpos => exact ⟨hkill, hpos, t, hends.of_eq rfl rfl rfl rfl rfl, hle hpos⟩
        · exact ⟨hkill, t, hends.of_eq rfl rfl rfl rfl rfl, hle⟩
  | clock deadline =>
    obtain ⟨hkill, hpos, t, hends, hle⟩ := hs
    rw [terminateProcessGroupCall] at h
    rcases s.monotonicMs_cases errno with ⟨rfl, hclock⟩ | ⟨herr, hclock⟩
    · rw [hclock] at h
      split at h <;> obtain rfl := Option.some.inj h
      · exact ⟨hkill, t, hends.of_eq rfl rfl rfl rfl rfl, by dsimp only; omega⟩
      · exact ⟨hkill, t, hends.of_eq rfl rfl rfl rfl rfl, fun _ => hle⟩
    · rw [hclock, if_neg (by omega)] at h
      obtain rfl := Option.some.inj h
      exact ⟨hkill, t, hends.of_eq rfl rfl rfl rfl rfl, fun _ => hle⟩
  | sleep deadline wake =>
    obtain ⟨hkill, t, hends, hle⟩ := hs
    rw [terminateProcessGroupCall] at h
    split at h
    · cases h
    · obtain rfl := Option.some.inj h
      exact ⟨hkill, t, hends.of_eq rfl rfl rfl rfl rfl, hle⟩
  | kill =>
    obtain ⟨hkill, t, hends, hle⟩ := hs
    obtain ⟨hlife, hstrays, hkilled⟩ := Supervision.sigkill_spec hends.life
    rw [terminateProcessGroupCall] at h
    split at h
    · cases h
    · obtain rfl := Option.some.inj h
      refine ⟨t, s.now, ⟨hlife ▸ hends.life, hstrays.trans hends.strays, hends.sigterm, hends.past,
        hends.reason.of_life hlife rfl rfl⟩, rfl, hle, fun hrc halive => ?_⟩
      dsimp only at halive
      rw [hlife] at halive
      exact hkilled (hends.reason.led hrc halive) halive
  | reap =>
    obtain ⟨t, t', hends, hkill, hle, _⟩ := hs
    rw [terminateProcessGroupCall] at h
    split at h
    · cases h
    · obtain ⟨⟨found, worker⟩, hwait, rfl⟩ := Option.map_eq_some_iff.1 h
      rcases Child.waitpid_eq_some hwait with
        ⟨status, hlife, rfl, rfl⟩ | ⟨hfalse, _⟩ | ⟨hlife | ⟨status, hlife⟩, _⟩
      · refine hcollected hends fun t'' ht'' => ?_
        obtain rfl : t' = t'' := Option.some.inj (hkill.symm.trans ht'')
        exact hle
      · cases hfalse
      · exact absurd hends.life (by simp [hlife, Life.uncollected])
      · exact absurd hends.life (by simp [hlife, Life.uncollected])

/-- What the calls of the daemon leave alone while it waits for the worker and terminates it. -/
structure Supervision.Frames (s s' : Supervision) : Prop where
  grouped : s.grouped → s'.grouped
  life : ∀ place, s'.worker.life = .running place → s.worker.life = .running place
  file : s'.file = s.file
  forked : s'.forkedAt = s.forkedAt
  phase : s'.phase ≠ .launch .fork

/-- A call of `wait_child` leaves these alone. -/
theorem Supervision.waitCall_frames {place : WaitPhase}
    (h : waitChildCall cfg s errno place = some s') : s.Frames s' := by
  cases place with
  | poll startMs =>
    rw [waitChildCall] at h
    split at h
    · cases h
    · rcases s.worker.waitpidNohang_cases with ⟨status, _, hwait⟩ | ⟨_, hwait⟩ | ⟨_, hwait⟩ <;>
        rw [hwait] at h <;> dsimp only at h
      · cases h
        exact ⟨id, by simp, rfl, rfl, by simp⟩
      · split at h <;> cases h <;> exact ⟨id, fun _ => id, rfl, rfl, by simp⟩
      · cases h
        exact ⟨id, fun _ => id, rfl, rfl, by simp [Supervision.gives]⟩
  | _ =>
    simp only [waitChildCall] at h
    repeat' split at h
    all_goals cases h
    all_goals exact ⟨id, fun _ => id, rfl, rfl, by simp [Supervision.gives]⟩

theorem Supervision.signal_life {f : Child WorkerPlace → Child WorkerPlace}
    (hf : ∀ c, (f c).life = c.life) : (s.signal f).life = s.worker.life := by
  unfold Supervision.signal
  split
  · exact hf _
  · rfl

theorem Supervision.terminateCall_frames {rc : CalibrationRc} {place : TerminatePhase}
    (h : terminateProcessGroupCall cfg rc s errno place = some s') : s.Frames s' := by
  cases place with
  | poll startMs =>
    rw [terminateProcessGroupCall] at h
    split at h
    · cases h
    · rcases s.worker.waitpidNohang_cases with ⟨status, _, hwait⟩ | ⟨_, hwait⟩ | ⟨_, hwait⟩ <;>
        rw [hwait] at h <;> dsimp only at h
      · cases h
        exact ⟨id, by simp [Supervision.gives], rfl, rfl, by simp [Supervision.gives]⟩
      · split at h <;> cases h <;> exact ⟨id, fun _ => id, rfl, rfl, by simp⟩
      · cases h
        exact ⟨id, fun _ => id, rfl, rfl, by simp⟩
  | term =>
    rw [terminateProcessGroupCall] at h
    split at h <;> cases h
    exact ⟨id, by simp [signal_life], rfl, rfl, by simp⟩
  | kill =>
    rw [terminateProcessGroupCall] at h
    split at h <;> cases h
    exact ⟨id, by simp [signal_life], rfl, rfl, by simp⟩
  | reap =>
    rw [terminateProcessGroupCall] at h
    split at h
    · cases h
    · obtain ⟨⟨found, worker⟩, hwait, rfl⟩ := Option.map_eq_some_iff.1 h
      rcases Child.waitpid_eq_some hwait with ⟨status, _, _, rfl⟩ | ⟨_, pc, _, _, rfl⟩ | ⟨_, _, rfl⟩
      all_goals exact ⟨id, by simp [Supervision.gives], rfl, rfl, by simp [Supervision.gives]⟩
  | _ =>
    simp only [terminateProcessGroupCall] at h
    repeat' split at h
    all_goals cases h
    all_goals exact ⟨id, fun _ => id, rfl, rfl, by simp⟩

/-- A worker that is past its `setpgid` leads its group. -/
def Supervision.Joined (s : Supervision) : Prop :=
  ∀ place, s.worker.life = .running place → place ≠ .setpgid → s.grouped

theorem Supervision.Joined.act {act : WorkerAct} (hs : s.Joined) (h : s.act cfg act = some s') :
    s'.Joined := by
  have hends (status : Status) : (s.ends status).Joined := by
    simp [Supervision.Joined, Supervision.ends]
  cases act with
  | call ok =>
    simp only [Supervision.act] at h
    split at h
    · cases ok <;> obtain rfl := by simpa using h
      · exact hends _
      · exact fun _ _ _ => rfl
    · next hplace =>
      cases ok
      · obtain ⟨_, rfl⟩ := by simpa using h
        exact hends _
      · obtain rfl := by simpa using h
        exact fun _ _ _ => hs _ hplace (by simp)
    · next hplace =>
      cases ok <;> obtain rfl := by simpa using h
      · exact hends _
      · exact fun _ _ _ => hs _ hplace (by simp)
    · cases h
  | writes content =>
    obtain ⟨_, rfl⟩ := by simpa [Supervision.act] using h
    exact hs
  | exits code =>
    obtain ⟨_, rfl⟩ := by simpa [Supervision.act] using h
    exact hends _
  | dies signal =>
    obtain ⟨_, rfl⟩ := by simpa [Supervision.act] using h
    exact hends _

/-! ## Runs -/

/-- The invariant of runs, with what is left of their events: the calls that failed, and what
    the worker wrote. -/
structure Supervision.Holds (cfg : CalibrationConfig) (es : List SupervisionEvent)
    (s : Supervision) : Prop where
  fits : s.Fits cfg (∃ errno, .call (some errno) ∈ es)
  joined : s.Joined
  written : s.forkedAt ≠ none ∨ s.phase = .launch .fork →
    ∀ content, s.file = some content → .worker (.writes content) ∈ es

/-- A call of the supervisor keeps the invariant. -/
theorem Supervision.Holds.call {es : List SupervisionEvent} (hs : s.Holds cfg es)
    (he : .call errno ∈ es) (h : superviseCall cfg strerror s errno = some s') :
    s'.Holds cfg es := by
  obtain ⟨hfits, hjoined, hwritten⟩ := hs
  have hfailed : errno ≠ none → ∃ errno, .call (some errno) ∈ es := fun herr => by
    obtain ⟨e, rfl⟩ := Option.ne_none_iff_exists'.1 herr
    exact ⟨e, he⟩
  have hgrouped : s.worker.life = .running .main → s.grouped := fun hlife =>
    hjoined _ hlife (by simp)
  have hframes (hframes : s.Frames s') (hfits : s'.Fits cfg (∃ errno, .call (some errno) ∈ es)) :
      s'.Holds cfg es := by
    refine ⟨hfits, fun place hplace hne => hframes.grouped (hjoined _ (hframes.life _ hplace) hne),
      fun hforked content hcontent => ?_⟩
    rw [hframes.forked] at hforked
    exact hwritten (.inl (hforked.resolve_right hframes.phase)) content (hframes.file ▸ hcontent)
  unfold superviseCall at h
  unfold Supervision.Fits at hfits
  split at h <;> rename_i hphase
  · simp only [hphase] at hfits
    split at h
    · cases h
    · split at h <;> obtain rfl := Option.some.inj h
      · next hcfg =>
        have hrc : validateCalibrationConfig cfg = .errInvalidArg := by
          unfold validateCalibrationConfig at hcfg ⊢
          split at hcfg <;> simp_all
        have hs' : (s.gives cfg (validateCalibrationConfig cfg)).Unforked :=
          hfits.of_eq rfl rfl rfl rfl
        refine hframes ⟨id, fun _ => id, rfl, rfl, by simp [Supervision.gives]⟩ ?_
        rw [hrc] at hs' ⊢
        exact .invalid hcfg hs'
      · exact hframes ⟨id, fun _ => id, rfl, rfl, by simp⟩ (hfits.of_eq rfl rfl rfl rfl)
  · simp only [hphase] at hfits
    split at h
    · obtain rfl := Option.some.inj h
      exact ⟨hfits.of_eq rfl rfl rfl rfl, hjoined, fun _ content hcontent => by cases hcontent⟩
    · split at h
      · cases h
      · obtain rfl := Option.some.inj h
        exact hframes ⟨id, fun _ => id, rfl, rfl, by simp⟩
          (.unlink (hfailed (by simp)) (hfits.of_eq rfl rfl rfl rfl))
  · next place =>
    simp only [hphase] at hfits
    have hfits' := hfits.call hfailed hgrouped h
    cases place with
    | fork =>
      have hfile := hwritten (.inr hphase)
      rw [launchWorkerCall] at h
      split at h <;> obtain rfl := Option.some.inj h
      · exact hframes ⟨id, fun _ => id, rfl, rfl, by simp [Supervision.gives]⟩ hfits'
      · exact ⟨hfits', fun place hplace hne => by cases hplace; exact absurd rfl hne,
          fun _ => hfile⟩
    | setpgid =>
      refine hframes ?_ hfits'
      rcases launchWorkerCall_setpgid h with ⟨_, rfl⟩ | ⟨_, rfl⟩ | rfl
      all_goals exact ⟨by simp, fun _ => id, rfl, rfl, by simp⟩
  · simp only [hphase] at hfits
    exact hframes (Supervision.waitCall_frames h) (hfits.call hfailed h)
  · simp only [hphase] at hfits
    exact hframes (Supervision.terminateCall_frames h) (hfits.call h)
  · simp only [hphase] at hfits
    obtain ⟨status, hlife, rfl, hstrays, hforked, hterm, hkill⟩ := hfits
    rcases hverdict : calibrationVerdict cfg (exitCode status)
      (if errno = none then s.file else none) with ⟨rc, out⟩
    rw [hverdict] at h
    obtain rfl := Option.some.inj h
    refine hframes ⟨id, fun _ => id, rfl, rfl, by simp⟩ ?_
    refine .collected hlife hstrays hforked hterm hkill ?_ hverdict
    by_cases herr : errno = none
    · exact .inl (if_pos herr)
    · exact .inr ⟨hfailed herr, if_neg herr⟩
  · cases h

variable {es : List SupervisionEvent}

/-- A step keeps the invariant. -/
theorem Supervision.Holds.step {e : SupervisionEvent} (hs : s.Holds cfg es) (he : e ∈ es)
    (h : superviseStep cfg strerror s e = some s') : s'.Holds cfg es := by
  cases e with
  | call errno => exact hs.call he h
  | worker act =>
    obtain ⟨halive, hpasses, hfile⟩ := Supervision.act_eq_some h
    refine ⟨hs.fits.passes hpasses (.inr halive), hs.joined.act h,
      fun hforked content hcontent => ?_⟩
    rw [hpasses.forked, hpasses.phase] at hforked
    rcases hfile with hfile | ⟨content', rfl, hfile⟩
    · exact hs.written hforked content (hfile ▸ hcontent)
    · obtain rfl := Option.some.inj (hfile.symm.trans hcontent)
      exact he
  | tick ms =>
    obtain rfl := Option.some.inj h
    exact ⟨hs.fits.passes (.tick s ms) (.inl rfl), hs.joined, hs.written⟩

/-- The invariant holds at the start. -/
theorem Supervision.holds_init (cfg : CalibrationConfig) (es : List SupervisionEvent) (now : ℕ)
    (file : Option (List Char)) : (Supervision.init now file).Holds cfg es :=
  ⟨⟨rfl, rfl, rfl, rfl, rfl⟩,
    fun place hplace => by simp [Supervision.init, Child.unborn] at hplace,
    fun hforked => by simp [Supervision.init] at hforked⟩

/-- The invariant holds in every run. -/
theorem Supervision.holds_of_run {now : ℕ} {file : Option (List Char)}
    (hrun : run (superviseStep cfg strerror) (.init now file) es = some s) : s.Holds cfg es :=
  run_invariant (Supervision.Holds cfg es) (fun _ _ he _ hs h => hs.step he h)
    (Supervision.holds_init cfg es now file) hrun

end

end CgroupResearch
