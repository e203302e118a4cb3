import CgroupResearch.Calibrate.Mapping
import CgroupResearch.Calibrate.Outcome
import CgroupResearch.Daemon.Handler

/-!
# The start of the daemon

`main` of `protected_daemon.c`, over all of a run of the daemon: it loads its configuration,
calibrates the mapping of banks (`init_dram_bank_mapping`), loads and attaches its programs in
the kernel, and then handles the events that these report, until the ring buffer fails.

The steps of the calibration are those of `superviseStep`. The calls of libbpf answer as they
like. The messages of the daemon are not modelled.

* `events_need_mapping`: no event is handled without a mapping, which is that of the masks that
  the worker has written since the daemon was started;
* `daemon_fails_closed`: what is left when it exits.
-/

namespace CgroupResearch

open ChildProcess Transition Machine

/-- The values of `enum daemon_state` that are set. -/
inductive DaemonState
  | starting
  | configReady
  | calibrating
  | bankReady
  | failed
  deriving DecidableEq, Repr

/-- `struct daemon_context`. -/
structure DaemonContext where
  state : DaemonState
  calibration : CalibrationResult
  dramMapping : DramMapping
  bankMappingReady : Bool

/-- The configuration of `init_dram_bank_mapping`. -/
def daemonCalibrationConfig : CalibrationConfig :=
  { workerPath := some "scripts/kk_calibrate.py".toList
    resultPath := some "/run/protected-daemon/dram-map.json".toList
    workDir := some "/run/protected-daemon/kk-calibration".toList
    logPath := some "/run/protected-daemon/calibration.log".toList
    runs := 3
    memoryPercent := .ofRat 25
    measurements := 500
    timingRounds := 50
    timeoutSec := 1800 }

/-- The part of `init_dram_bank_mapping` behind `calibration_run`: whether it succeeds. -/
def initDramBankMapping (ctx : DaemonContext) (rc : CalibrationRc) (out : CalibrationResult) :
    Bool × DaemonContext :=
  let ctx := { ctx with calibration := out }
  if rc ≠ .ok then (false, { ctx with state := .failed })
  else
    let (rc, mapping) := dramMappingInitFromCalibration ctx.calibration
    let ctx := { ctx with dramMapping := mapping }
    if rc ≠ .ok then (false, { ctx with state := .failed })
    else (true, { ctx with bankMappingReady := true, state := .bankReady })

/-- The place of `main`. The calibration starts at a time, with a file that may be left from
    earlier. -/
inductive MainPhase
  | config (now : ℕ) (file : Option (List Char))
  | calibrate (supervision : Supervision)
  | openAndLoad
  | attach
  | ringBuffer
  | poll
  | exited (code : ℤ)

/-- The daemon: `skel` and `rb` tell whether it has the programs and the ring buffer, `handled`
    are the events that it has handled, the latest first. -/
structure Daemon where
  phase : MainPhase
  ctx : DaemonContext
  protectedComm : List (List Char)
  table : ProcessTable
  handled : List Delivery
  skel : Bool
  rb : Bool

/-- An event: the content of the configuration file, if it can be opened; a step of the
    calibration, and its return; the answers of libbpf; an event that the ring buffer delivers
    and the return of its poll. -/
inductive DaemonEvent
  | config (content : Option (List Char))
  | supervise (e : SupervisionEvent)
  | calibrated
  | openAndLoad (ok : Bool)
  | attach (err : ℤ)
  | ringBuffer (ok : Bool)
  | deliver (x : Delivery)
  | polled (err : ℤ)

/-- The start of `main`. -/
def Daemon.init (now : ℕ) (file : Option (List Char)) : Daemon :=
  { phase := .config now file
    ctx :=
      ⟨.starting, { calibrationResultReset with workerExitCode := 0 }, dramMappingReset, false⟩
    protectedComm := []
    table := processTableReset
    handled := []
    skel := false
    rb := false }

section

variable (strerror : ℕ → List Char) (daemonPid : ℤ)

/-- The label `cleanup` of `main`. -/
def Daemon.cleanup (d : Daemon) (err : ℤ) : Daemon :=
  { d with phase := .exited (-err), rb := false, skel := false }

/-- A step of `main`. -/
def daemonStep (d : Daemon) (e : DaemonEvent) : Option Daemon :=
  match d.phase, e with
  | .config now file, .config content =>
    match content with
    | none => some { d with phase := .exited 1 }
    | some content =>
      some { d with
        phase := .calibrate (.init now file)
        ctx := { d.ctx with state := .calibrating, bankMappingReady := false }
        protectedComm := policyLoadConfig content }
  | .calibrate s, .supervise e =>
    (superviseStep daemonCalibrationConfig strerror s e).map fun s =>
      { d with phase := .calibrate s }
  | .calibrate s, .calibrated =>
    match s.phase with
    | .done rc out =>
      let (ok, ctx) := initDramBankMapping d.ctx rc out
      some { d with phase := if ok then .openAndLoad else .exited 1, ctx := ctx }
    | _ => none
  | .openAndLoad, .openAndLoad ok =>
    some (if ok then { d with phase := .attach, skel := true } else { d with phase := .exited 1 })
  | .attach, .attach err =>
    some (if err ≠ 0 then d.cleanup err else { d with phase := .ringBuffer })
  | .ringBuffer, .ringBuffer ok =>
    some (if ok then { d with phase := .poll, rb := true } else d.cleanup (-1))
  | .poll, .deliver x =>
    some { d with
      table := (handleEvent ⟨daemonPid, d.protectedComm⟩ d.table x).2
      handled := x :: d.handled }
  | .poll, .polled err => some (if err < 0 then d.cleanup err else d)
  | _, _ => none

/-- The daemon after a run of events. -/
abbrev mainAfter (now : ℕ) (file : Option (List Char)) (es : List DaemonEvent) : Option Daemon :=
  run (daemonStep strerror daemonPid) (.init now file) es

end

/-! ## The invariant -/

/-- The step of the calibration in an event. -/
def DaemonEvent.supervision : DaemonEvent → Option SupervisionEvent
  | .supervise e => some e
  | _ => none

/-- A mapping that comes from what the worker has written. -/
def DaemonContext.Mapped (es : List DaemonEvent) (ctx : DaemonContext) : Prop :=
  ctx.state = .bankReady ∧ ctx.bankMappingReady ∧ ∃ content loaded,
    .supervise (.worker (.writes content)) ∈ es ∧
    calibrationLoadResult "/run/protected-daemon/dram-map.json".toList (some content) =
      (.ok, loaded) ∧
    ctx.calibration = { loaded with workerExitCode := 0 } ∧
    dramMappingInitFromCalibration ctx.calibration = (.ok, ctx.dramMapping)

/-- What holds of the daemon, by its place. -/
def Daemon.Fits (es : List DaemonEvent) (d : Daemon) : Prop :=
  match d.phase with
  | .config _ _ => d.ctx.state = .starting ∧ ¬d.ctx.bankMappingReady ∧ d.handled = [] ∧
      ¬d.skel ∧ ¬d.rb
  | .calibrate s => d.ctx.state = .calibrating ∧ ¬d.ctx.bankMappingReady ∧ d.handled = [] ∧
      ¬d.skel ∧ ¬d.rb ∧ s.Holds daemonCalibrationConfig (es.filterMap DaemonEvent.supervision)
  | .openAndLoad => d.ctx.Mapped es ∧ d.handled = [] ∧ ¬d.skel ∧ ¬d.rb
  | .attach | .ringBuffer => d.ctx.Mapped es ∧ d.handled = [] ∧ d.skel ∧ ¬d.rb
  | .poll => d.ctx.Mapped es ∧ d.skel ∧ d.rb
  | .exited code => code ≠ 0 ∧ ¬d.skel ∧ ¬d.rb ∧
      (d.ctx.Mapped es ∨ d.ctx.state ≠ .bankReady ∧ ¬d.ctx.bankMappingReady ∧ d.handled = [] ∧
        code = 1)

/-- The table is that of the events that were handled. -/
def Daemon.Tabled (daemonPid : ℤ) (d : Daemon) : Prop :=
  d.table = tableAfter ⟨daemonPid, d.protectedComm⟩ d.handled

/-- Once the configuration is loaded, the policy is that of its content. -/
def Daemon.Configured (es : List DaemonEvent) (d : Daemon) : Prop :=
  d.ctx.state ≠ .starting → ∃ content, .config (some content) ∈ es ∧
    d.protectedComm = policyLoadConfig content

section

variable {strerror : ℕ → List Char} {daemonPid : ℤ} {d d' : Daemon} {es : List DaemonEvent}

/-- A mapping that is made is the one of a result of this run. -/
theorem DaemonContext.initDramBankMapping_mapped {ctx ctx' : DaemonContext}
    {s : Supervision} {out : CalibrationResult} {rc : CalibrationRc}
    (hs : s.Holds daemonCalibrationConfig (es.filterMap DaemonEvent.supervision))
    (hdone : s.phase = .done rc out) (h : initDramBankMapping ctx rc out = (true, ctx')) :
    ctx'.Mapped es := by
  unfold initDramBankMapping at h
  dsimp only at h
  split at h
  · cases h
  · next hrc =>
    obtain rfl := not_not.1 hrc
    obtain ⟨_, _, content, loaded, hwrites, _, hload, rfl⟩ := hs.accepts hdone
    rcases hinit : dramMappingInitFromCalibration { loaded with workerExitCode := 0 } with
      ⟨rc, mapping⟩
    rw [hinit] at h
    dsimp only at h
    split at h
    · cases h
    · next hrc =>
      obtain rfl := not_not.1 hrc
      obtain rfl := congrArg Prod.snd h
      obtain ⟨e, he, heq⟩ := List.mem_filterMap.1 hwrites
      cases e with
      | supervise e =>
        obtain rfl := Option.some.inj heq
        exact ⟨rfl, rfl, content, loaded, he, hload, rfl, hinit⟩
      | _ => cases heq

/-- Without a mapping the context says that it has failed. -/
theorem DaemonContext.initDramBankMapping_failed {ctx ctx' : DaemonContext}
    {out : CalibrationResult} {rc : CalibrationRc} (hready : ¬ctx.bankMappingReady)
    (h : initDramBankMapping ctx rc out = (false, ctx')) :
    ctx'.state = .failed ∧ ¬ctx'.bankMappingReady := by
  unfold initDramBankMapping at h
  dsimp only at h
  split at h
  · obtain rfl := congrArg Prod.snd h
    exact ⟨rfl, hready⟩
  · split at h
    · obtain rfl := congrArg Prod.snd h
      exact ⟨rfl, hready⟩
    · cases h

/-- A step keeps the invariant. -/
theorem Daemon.Fits.step {e : DaemonEvent} (hd : d.Fits es) (he : e ∈ es)
    (h : daemonStep strerror daemonPid d e = some d') : d'.Fits es := by
  unfold daemonStep at h
  unfold Daemon.Fits at hd
  split at h
  · simp only [‹d.phase = _›] at hd
    obtain ⟨hstate, hready, hhandled, hskel, hrb⟩ := hd
    split at h <;> obtain rfl := Option.some.inj h
    · exact ⟨by decide, hskel, hrb, .inr ⟨by simp [hstate], hready, hhandled, rfl⟩⟩
    · exact ⟨rfl, by simp, hhandled, hskel, hrb, Supervision.holds_init _ _ _ _⟩
  · simp only [‹d.phase = _›] at hd
    obtain ⟨hstate, hready, hhandled, hskel, hrb, hs⟩ := hd
    obtain ⟨s', hs', rfl⟩ := Option.map_eq_some_iff.1 h
    exact ⟨hstate, hready, hhandled, hskel, hrb, hs.step (List.mem_filterMap.2 ⟨_, he, rfl⟩) hs'⟩
  · simp only [‹d.phase = _›] at hd
    obtain ⟨hstate, hready, hhandled, hskel, hrb, hs⟩ := hd
    split at h
    · next rc out hdone =>
      rcases hinit : initDramBankMapping d.ctx rc out with ⟨ok, ctx⟩
      rw [hinit] at h
      obtain rfl := Option.some.inj h
      cases ok with
      | true =>
        have hmapped := DaemonContext.initDramBankMapping_mapped hs hdone hinit
        exact ⟨hmapped, hhandled, hskel, hrb⟩
      | false =>
        obtain ⟨hfailed, hready⟩ := DaemonContext.initDramBankMapping_failed hready hinit
        exact ⟨by decide, hskel, hrb, .inr ⟨by simp [hfailed], hready, hhandled, rfl⟩⟩
    · cases h
  · simp only [‹d.phase = _›] at hd
    obtain ⟨hmapped, hhandled, hskel, hrb⟩ := hd
    obtain rfl := Option.some.inj h
    split
    · exact ⟨hmapped, hhandled, rfl, hrb⟩
    · exact ⟨by decide, hskel, hrb, .inl hmapped⟩
  · simp only [‹d.phase = _›] at hd
    obtain ⟨hmapped, hhandled, hskel, hrb⟩ := hd
    obtain rfl := Option.some.inj h
    split
    · next herr => exact ⟨neg_ne_zero.2 herr, by simp [Daemon.cleanup], by simp [Daemon.cleanup],
        .inl hmapped⟩
    · exact ⟨hmapped, hhandled, hskel, hrb⟩
  · simp only [‹d.phase = _›] at hd
    obtain ⟨hmapped, hhandled, hskel, hrb⟩ := hd
    obtain rfl := Option.some.inj h
    split
    · exact ⟨hmapped, hskel, rfl⟩
    · exact ⟨by decide, by simp [Daemon.cleanup], by simp [Daemon.cleanup], .inl hmapped⟩
  · simp only [‹d.phase = _›] at hd
    obtain rfl := Option.some.inj h
    unfold Daemon.Fits
    simp only [‹d.phase = _›]
    exact hd
  · have hfits := hd
    simp only [‹d.phase = _›] at hd
    obtain ⟨hmapped, hskel, hrb⟩ := hd
    obtain rfl := Option.some.inj h
    split
    · next herr =>
      exact ⟨by omega, by simp [Daemon.cleanup], by simp [Daemon.cleanup], .inl hmapped⟩
    · exact hfits
  · cases h

/-- The table outlasts every step; before the first event it is empty under any configuration. -/
theorem Daemon.Tabled.step {e : DaemonEvent} (hfits : d.Fits es) (hd : d.Tabled daemonPid)
    (h : daemonStep strerror daemonPid d e = some d') : d'.Tabled daemonPid := by
  unfold daemonStep at h
  unfold Daemon.Fits at hfits
  unfold Daemon.Tabled at hd ⊢
  split at h
  · simp only [‹d.phase = _›] at hfits
    split at h <;> obtain rfl := Option.some.inj h
    · exact hd
    · rw [hfits.2.2.1] at hd ⊢
      exact hd
  · obtain ⟨s', _, rfl⟩ := Option.map_eq_some_iff.1 h
    exact hd
  · split at h
    · obtain rfl := Option.some.inj h
      exact hd
    · cases h
  · obtain rfl := Option.some.inj h
    split <;> exact hd
  · obtain rfl := Option.some.inj h
    split <;> exact hd
  · obtain rfl := Option.some.inj h
    split <;> exact hd
  · obtain rfl := Option.some.inj h
    rw [hd]
    rfl
  · obtain rfl := Option.some.inj h
    split <;> exact hd
  · cases h

/-- The policy is read once, before anything else, and no step changes it. -/
theorem Daemon.Configured.step {e : DaemonEvent} (hfits : d.Fits es) (hd : d.Configured es)
    (he : e ∈ es) (h : daemonStep strerror daemonPid d e = some d') : d'.Configured es := by
  unfold daemonStep at h
  unfold Daemon.Fits at hfits
  unfold Daemon.Configured at hd ⊢
  split at h
  · simp only [‹d.phase = _›] at hfits
    split at h <;> obtain rfl := Option.some.inj h
    · exact fun hstate => absurd hfits.1 hstate
    · exact fun _ => ⟨_, he, rfl⟩
  · obtain ⟨s', _, rfl⟩ := Option.map_eq_some_iff.1 h
    exact hd
  · simp only [‹d.phase = _›] at hfits
    split at h
    · obtain rfl := Option.some.inj h
      exact fun _ => hd (by simp [hfits.1])
    · cases h
  · obtain rfl := Option.some.inj h
    split <;> exact hd
  · obtain rfl := Option.some.inj h
    split <;> exact hd
  · obtain rfl := Option.some.inj h
    split <;> exact hd
  · obtain rfl := Option.some.inj h
    exact hd
  · obtain rfl := Option.some.inj h
    split <;> exact hd
  · cases h

/-! ## The results -/

variable {now : ℕ} {file : Option (List Char)}

/-- What holds of the daemon after a run of events. -/
structure Daemon.Holds (daemonPid : ℤ) (es : List DaemonEvent) (d : Daemon) : Prop where
  fits : d.Fits es
  tabled : d.Tabled daemonPid
  configured : d.Configured es

/-- The invariant holds after every run. -/
theorem Daemon.holds_of_run (hrun : mainAfter strerror daemonPid now file es = some d) :
    d.Holds daemonPid es := by
  refine run_invariant (fun d => d.Holds daemonPid es) (fun d e he d' hd h =>
    ⟨hd.fits.step he h, hd.tabled.step hd.fits h, hd.configured.step hd.fits he h⟩) ?_ hrun
  exact ⟨⟨rfl, by simp [Daemon.init], rfl, by simp [Daemon.init], by simp [Daemon.init]⟩, rfl,
    fun hstate => absurd rfl hstate⟩

theorem Daemon.Fits.mapped (hd : d.Fits es)
    (h : d.handled ≠ [] ∨ d.ctx.bankMappingReady ∨ d.ctx.state = .bankReady) : d.ctx.Mapped es := by
  have hnot (hstate : d.ctx.state ≠ .bankReady) (hready : ¬d.ctx.bankMappingReady)
      (hhandled : d.handled = []) : d.ctx.Mapped es := by
    rcases h with h | h | h
    · exact absurd hhandled h
    · exact absurd h hready
    · exact absurd h hstate
  unfold Daemon.Fits at hd
  split at hd
  · exact hnot (by simp [hd.1]) hd.2.1 hd.2.2.1
  · exact hnot (by simp [hd.1]) hd.2.1 hd.2.2.1
  · exact hd.1
  · exact hd.1
  · exact hd.1
  · exact hd.1
  · obtain ⟨_, _, _, hmapped | ⟨hstate, hready, hhandled, _⟩⟩ := hd
    · exact hmapped
    · exact hnot hstate hready hhandled

/-- When the daemon has handled an event, or says that its mapping is ready, that is the mapping
    of a result that the worker has written since the daemon was started; and its table is that
    of the events, in their order, under the policy of the configuration that it has loaded. -/
theorem events_need_mapping (hrun : mainAfter strerror daemonPid now file es = some d)
    (h : d.handled ≠ [] ∨ d.ctx.bankMappingReady ∨ d.ctx.state = .bankReady) :
    d.table = tableAfter ⟨daemonPid, d.protectedComm⟩ d.handled ∧
    (∃ config, .config (some config) ∈ es ∧ d.protectedComm = policyLoadConfig config) ∧
    ∃ content loaded, .supervise (.worker (.writes content)) ∈ es ∧
      calibrationLoadResult "/run/protected-daemon/dram-map.json".toList (some content) =
        (.ok, loaded) ∧
      d.ctx.dramMapping.ready ∧ d.ctx.dramMapping.masks = loaded.bankMasks := by
  obtain ⟨hfits, htabled, hconfigured⟩ := Daemon.holds_of_run hrun
  obtain ⟨hstate, _, content, loaded, hwrites, hload, hcalibration, hinit⟩ := hfits.mapped h
  obtain ⟨hmasks, hready, _⟩ := mapping_of_init hinit
  refine ⟨htabled, hconfigured (by simp [hstate]), content, loaded, hwrites, hload, hready, ?_⟩
  rw [hmasks, hcalibration]

/-- A run of the daemon in which the calibration succeeds, up to the events. -/
def startedRun : List DaemonEvent :=
  .config (some "sleep\nls\n".toList) :: acceptedRun.map .supervise ++
    [.calibrated, .openAndLoad true, .attach 0, .ringBuffer true]

/-- The place is the loop that polls. -/
def MainPhase.isPoll : MainPhase → Bool
  | .poll => true
  | _ => false

/-- After this run the daemon polls, and has all it needs. -/
theorem exists_started : ∃ d, mainAfter (fun _ => []) 7 0 none startedRun = some d ∧
    d.phase = .poll ∧ d.handled = [] ∧ d.skel = true ∧ d.rb = true := by
  have hpoll : (mainAfter (fun _ => []) 7 0 none startedRun).map
      (fun d => (d.phase.isPoll, d.handled.isEmpty, d.skel, d.rb)) =
        some (true, true, true, true) := by decide +kernel
  obtain ⟨d, hd, heq⟩ := Option.map_eq_some_iff.1 hpoll
  simp only [Prod.mk.injEq, List.isEmpty_iff] at heq
  refine ⟨d, hd, ?_, heq.2⟩
  cases hphase : d.phase with
  | poll => rfl
  | _ => simp [hphase, MainPhase.isPoll] at heq

/-- The daemon has handled the exec of `sleep`: its mapping is ready, and its table has come from
    this event. -/
theorem events_need_mapping_started :
    ∃ d, mainAfter (fun _ => []) 7 0 none (startedRun ++ [.deliver sleepExec, .polled 1]) =
        some d ∧ d.handled = [sleepExec] ∧ d.ctx.dramMapping.ready ∧
      d.table = tableAfter ⟨7, d.protectedComm⟩ [sleepExec] := by
  obtain ⟨d, hd, hphase, hhandled, -⟩ := exists_started
  have hrun : mainAfter (fun _ => []) 7 0 none (startedRun ++ [.deliver sleepExec, .polled 1]) =
      some { d with
        table := (handleEvent ⟨7, d.protectedComm⟩ d.table sleepExec).2
        handled := [sleepExec] } := by
    rw [mainAfter, run_append, show run _ _ startedRun = some d from hd, Option.bind_some]
    simp [run, daemonStep, hphase, hhandled]
  obtain ⟨htable, _, _, _, _, _, hmapping, _⟩ := events_need_mapping hrun (.inl (by simp))
  exact ⟨_, hrun, rfl, hmapping, htable⟩

/-- The daemon exits with an error only, without its programs in the kernel and its ring buffer;
    and if it has no mapping, before it has handled any event. -/
theorem daemon_fails_closed (hrun : mainAfter strerror daemonPid now file es = some d) {code : ℤ}
    (hexit : d.phase = .exited code) :
    code ≠ 0 ∧ d.skel = false ∧ d.rb = false ∧
      (d.ctx.bankMappingReady ∨ d.handled = [] ∧ code = 1) := by
  have hfits := (Daemon.holds_of_run hrun).fits
  rw [Daemon.Fits, hexit] at hfits
  obtain ⟨hcode, hskel, hrb, hmapped⟩ := hfits
  refine ⟨hcode, by simpa using hskel, by simpa using hrb, ?_⟩
  rcases hmapped with ⟨_, hready, _⟩ | ⟨_, _, hhandled, hcode⟩
  · exact .inl hready
  · exact .inr ⟨hhandled, hcode⟩

/-- Two runs that end. In the first the poll of the ring buffer fails with `EINTR`, after an event:
    the programs and the ring buffer are there before it, and released after it. In the second the
    worker of the calibration exits with 2. -/
theorem daemon_fails_closed_interrupted :
    (∃ d, mainAfter (fun _ => []) 7 0 none startedRun = some d ∧ d.skel = true ∧ d.rb = true) ∧
    (∃ d, mainAfter (fun _ => []) 7 0 none (startedRun ++ [.deliver sleepExec, .polled (-4)]) =
      some d ∧ d.phase = .exited 4 ∧ d.skel = false ∧ d.rb = false) ∧
    ∃ d, mainAfter (fun _ => []) 7 0 none (.config (some "sleep\nls\n".toList) ::
        exitedRun.map .supervise ++ [.calibrated]) = some d ∧ d.phase = .exited 1 ∧
      (d.ctx.bankMappingReady ∨ d.handled = []) := by
  obtain ⟨d, hd, hphase, hhandled, hskel, hrb⟩ := exists_started
  have hrun : mainAfter (fun _ => []) 7 0 none
      (startedRun ++ [.deliver sleepExec, .polled (-4)]) =
        some (Daemon.cleanup { d with
          table := (handleEvent ⟨7, d.protectedComm⟩ d.table sleepExec).2
          handled := [sleepExec] } (-4)) := by
    rw [mainAfter, run_append, show run _ _ startedRun = some d from hd, Option.bind_some]
    simp [run, daemonStep, hphase, hhandled]
  obtain ⟨-, hskel', hrb', -⟩ := daemon_fails_closed hrun rfl
  have hfailed : mainAfter (fun _ => []) 7 0 none (.config (some "sleep\nls\n".toList) ::
      exitedRun.map .supervise ++ [.calibrated]) = some _ := rfl
  exact ⟨⟨d, hd, hskel, hrb⟩, ⟨_, hrun, rfl, hskel', hrb'⟩, _, hfailed, rfl,
    (daemon_fails_closed hfailed rfl).2.2.2.imp_right And.left⟩

end

end CgroupResearch
