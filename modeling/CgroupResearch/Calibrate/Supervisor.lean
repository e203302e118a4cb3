import CgroupResearch.Calibrate.Reader
import CgroupResearch.Lib.ChildProcess
import CgroupResearch.Lib.Transition

/-!
# Running the calibration worker

`calibration_run` of `calibration.c`, as a transition system of the daemon and its worker. The
daemon forks the worker into a process group of its own, waits for it while it looks at the
clock every 100 ms, and ends the group when the time is over: with `SIGTERM`, and after another
two seconds with `SIGKILL`. Then it reads the result that the worker has left.

A step of the daemon is a call that it makes (`superviseCall`), which may fail. Between its
steps the worker goes on (`Supervision.act`): on its way to `execv`, and then as any program
that writes the result, once or often, and ends when it likes. Time passes too: the clock is
in milliseconds, and a sleep ends no sooner than it should.

The daemon handles no signals, so that no call returns `EINTR`. The processes that the worker
starts are not modelled, and neither are null pointers to the configuration and the result.
-/

namespace CgroupResearch

open CString ChildProcess

/-- `WAIT_POLL_MS`. -/
def waitPollMs : ℕ := 100

/-- `TERM_GRACE_MS`. -/
def termGraceMs : ℕ := 2000

/-- `struct calibration_config`, without what is only passed on to the worker. A path may be
    null. -/
structure CalibrationConfig where
  workerPath : Option (List Char)
  resultPath : Option (List Char)
  workDir : Option (List Char)
  logPath : Option (List Char)
  runs : UInt32
  memoryPercent : Double
  measurements : UInt32
  timingRounds : UInt32
  timeoutSec : UInt32
  deriving DecidableEq, Repr

/-- `validate_config`. -/
def validateCalibrationConfig (cfg : CalibrationConfig) : CalibrationRc :=
  match cfg.workerPath, cfg.resultPath, cfg.workDir with
  | some workerPath, some resultPath, some workDir =>
    if cstr workerPath = [] ∨ cstr resultPath = [] ∨ cstr workDir = [] ∨ cfg.runs = 0 ∨
        cfg.measurements = 0 ∨ cfg.timingRounds = 0 ∨
        Double.le cfg.memoryPercent (.ofRat 0) ∨ Double.lt (.ofRat 100) cfg.memoryPercent then
      .errInvalidArg
    else .ok
  | _, _, _ => .errInvalidArg

/-! ## The worker -/

/-- Where the child is in `launch_worker`: at its call of `setpgid`, of `redirect_child_log`, of
    `execv`, and in the program of the worker. -/
inductive WorkerPlace
  | setpgid
  | redirectLog
  | execv
  | main
  deriving DecidableEq, Repr

/-- Where the daemon is in `launch_worker`. -/
inductive LaunchPhase
  | fork
  | setpgid
  deriving DecidableEq, Repr

/-- Where it is in `wait_child`, with `start_ms`. A time that could not be read is -1. -/
inductive WaitPhase
  | start
  | poll (startMs : ℤ)
  | clock (startMs : ℤ)
  | sleep (startMs : ℤ) (wake : ℕ)
  deriving DecidableEq, Repr

/-- Where it is in `terminate_process_group`, with `deadline`. -/
inductive TerminatePhase
  | term
  | start
  | poll (deadline : ℤ)
  | clock (deadline : ℤ)
  | sleep (deadline : ℤ) (wake : ℕ)
  | kill
  | reap
  deriving DecidableEq, Repr

/-- Where it is in `calibration_run`: `rc` is what is returned when the worker is terminated. -/
inductive SupervisePhase
  | validate
  | unlink
  | launch (place : LaunchPhase)
  | wait (place : WaitPhase)
  | terminate (rc : CalibrationRc) (place : TerminatePhase)
  | load (workerExitCode : ℤ)
  | done (rc : CalibrationRc) (out : CalibrationResult)
  deriving DecidableEq, Repr

/-- The daemon and its worker. `now` is the time in milliseconds, `file` the content of the
    result file, `grouped` whether the worker leads its own process group. When it was forked
    and signalled is recorded. -/
structure Supervision where
  phase : SupervisePhase
  now : ℕ
  worker : Child WorkerPlace
  grouped : Bool
  file : Option (List Char)
  forkedAt : Option ℕ
  sigtermAt : Option ℕ
  sigkillAt : Option ℕ

/-- The start of `calibration_run`, at a time and with what an earlier run has left. -/
def Supervision.init (now : ℕ) (file : Option (List Char)) : Supervision :=
  ⟨.validate, now, .unborn, false, file, none, none, none⟩

/-- What the worker does: a call of `launch_worker` that it succeeds in or not, a replacement of
    the result file, and its end. -/
inductive WorkerAct
  | call (ok : Bool)
  | writes (content : List Char)
  | exits (code : ℕ)
  | dies (signal : ℕ)
  deriving DecidableEq, Repr

section

variable (cfg : CalibrationConfig)

/-- The worker comes to a place. -/
def Supervision.goes (s : Supervision) (place : WorkerPlace) : Supervision :=
  { s with worker := { s.worker with life := .running place } }

/-- The worker ends. -/
def Supervision.ends (s : Supervision) (status : Status) : Supervision :=
  { s with worker := { s.worker with life := .zombie status } }

/-- A step of the worker. -/
def Supervision.act (s : Supervision) : WorkerAct → Option Supervision
  | .call ok =>
    match s.worker.life with
    | .running .setpgid =>
      some (if ok then { s with grouped := true }.goes .redirectLog else s.ends (.exited 126))
    | .running .redirectLog =>
      if ok then some (s.goes .execv)
      else if cfg.logPath = none then none
      else some (s.ends (.exited 126))
    | .running .execv => some (if ok then s.goes .main else s.ends (.exited 127))
    | _ => none
  | .writes content =>
    if s.worker.life = .running .main then some { s with file := some content } else none
  | .exits code =>
    if s.worker.life = .running .main then some (s.ends (.exited (code % 256))) else none
  | .dies signal => if s.worker.life.alive then some (s.ends (.signaled signal)) else none

/-! ## The daemon -/

/-- `ENOENT`. -/
def enoent : ℕ := 2

/-- `ESRCH`. -/
def esrch : ℕ := 3

/-- `EACCES`. -/
def eacces : ℕ := 13

/-- The exit code that `wait_child` gives for a status. -/
def exitCode : Status → ℤ
  | .exited code => code
  | .signaled signal => 128 + signal

/-- `monotonic_ms`. -/
def Supervision.monotonicMs (s : Supervision) (errno : Option ℕ) : ℤ :=
  if errno = none then s.now else -1

/-- What `calibration_run` has in `out` when it does not come to the result of the worker. -/
def unsupervised (rc : CalibrationRc) : CalibrationResult :=
  setError calibrationResultReset <|
    match rc with
    | .errInvalidArg => "invalid calibration configuration".toList
    | .errFork => "cannot launch calibration worker '".toList ++
        cstr (cfg.workerPath.getD []) ++ ['\'']
    | .errTimeout => "calibration timed out after ".toList ++
        (toString cfg.timeoutSec.toNat).toList ++ " seconds".toList
    | _ => "failed while waiting for calibration worker".toList

/-- The part of `calibration_run` behind `wait_child`: `file` is the result file, if it can be
    read. -/
def calibrationVerdict (workerExitCode : ℤ) (file : Option (List Char)) :
    CalibrationRc × CalibrationResult :=
  let (loadRc, out) := calibrationLoadResult (cfg.resultPath.getD []) file
  let out := { out with workerExitCode := workerExitCode }
  if workerExitCode ≠ 0 then
    if loadRc = .errRejected then (.errRejected, out)
    else if out.errorMessage = [] then
      (.errWorkerExit, setError out
        ("calibration worker exited with code ".toList ++ (toString workerExitCode).toList))
    else (.errWorkerExit, out)
  else (loadRc, out)

/-- The return of `calibration_run` without a result. -/
def Supervision.gives (s : Supervision) (rc : CalibrationRc) : Supervision :=
  { s with phase := .done rc (unsupervised cfg rc) }

/-- What `kill` to the group of the worker does to the worker. -/
def Supervision.signal (s : Supervision) (f : Child WorkerPlace → Child WorkerPlace) :
    Child WorkerPlace :=
  if s.grouped then f s.worker else s.worker

/-- The parent's `setpgid`, which fails for a child that has executed its program. The errors
    that its caller takes for harmless come from nothing else: `ESRCH` does not come at all,
    as the child is not collected. -/
def Supervision.setpgid (s : Supervision) (errno : Option ℕ) : Option (Option ℕ × Supervision) :=
  match errno with
  | some e => if e = eacces ∨ e = esrch then none else some (some e, s)
  | none =>
    if s.worker.life = .running .main then some (some eacces, s)
    else some (none, { s with grouped := true })

/-- A call of `launch_worker`. -/
def launchWorkerCall (s : Supervision) (errno : Option ℕ) : LaunchPhase → Option Supervision
  | .fork =>
    if errno ≠ none then some (s.gives cfg .errFork)
    else
      some { s with
        phase := .launch .setpgid
        worker := { s.worker with life := .running .setpgid }
        forkedAt := some s.now }
  | .setpgid =>
    (s.setpgid errno).map fun (failure, s) =>
      if failure ≠ none ∧ failure ≠ some eacces ∧ failure ≠ some esrch then
        { s with phase := .terminate .errFork .term }
      else { s with phase := .wait .start }

/-- A call of `wait_child`. -/
def waitChildCall (s : Supervision) (errno : Option ℕ) : WaitPhase → Option Supervision
  | .start =>
    if 0 < cfg.timeoutSec then
      let startMs := s.monotonicMs errno
      if startMs < 0 then some (s.gives cfg .errWait)
      else some { s with phase := .wait (.poll startMs) }
    else if errno ≠ none then none
    else some { s with phase := .wait (.poll (-1)) }
  | .poll startMs =>
    if errno ≠ none then none
    else
      match s.worker.waitpidNohang with
      | (some (.ended status), worker) =>
        some { s with phase := .load (exitCode status), worker := worker }
      | (some _, worker) => some ({ s with worker := worker }.gives cfg .errWait)
      | (none, worker) =>
        if 0 < cfg.timeoutSec then
          some { s with phase := .wait (.clock startMs), worker := worker }
        else
          some { s with phase := .wait (.sleep startMs (s.now + waitPollMs)), worker := worker }
  | .clock startMs =>
    let nowMs := s.monotonicMs errno
    if nowMs < 0 then some { s with phase := .terminate .errWait .term }
    else if (cfg.timeoutSec.toNat : ℤ) * 1000 ≤ nowMs - startMs then
      some { s with phase := .terminate .errTimeout .term }
    else some { s with phase := .wait (.sleep startMs (s.now + waitPollMs)) }
  | .sleep startMs wake =>
    if errno ≠ none ∨ s.now < wake then none else some { s with phase := .wait (.poll startMs) }

/-- A call of `terminate_process_group`, after which `rc` is returned. -/
def terminateProcessGroupCall (rc : CalibrationRc) (s : Supervision) (errno : Option ℕ) :
    TerminatePhase → Option Supervision
  | .term =>
    if errno ≠ none then none
    else
      some { s with
        phase := .terminate rc .start
        worker := s.signal Child.sigterm
        sigtermAt := some s.now }
  | .start =>
    let deadline := s.monotonicMs errno
    let deadline := if 0 ≤ deadline then deadline + termGraceMs else deadline
    some { s with phase := .terminate rc (.poll deadline) }
  | .poll deadline =>
    if errno ≠ none then none
    else
      match s.worker.waitpidNohang with
      | (some (.ended _), worker) => some ({ s with worker := worker }.gives cfg rc)
      | (some _, worker) => some { s with phase := .terminate rc .kill, worker := worker }
      | (none, worker) =>
        if 0 ≤ deadline then
          some { s with phase := .terminate rc (.clock deadline), worker := worker }
        else
          some { s with
            phase := .terminate rc (.sleep deadline (s.now + waitPollMs)), worker := worker }
  | .clock deadline =>
    if deadline ≤ s.monotonicMs errno then some { s with phase := .terminate rc .kill }
    else some { s with phase := .terminate rc (.sleep deadline (s.now + waitPollMs)) }
  | .sleep deadline wake =>
    if errno ≠ none ∨ s.now < wake then none
    else some { s with phase := .terminate rc (.poll deadline) }
  | .kill =>
    if errno ≠ none then none
    else
      some { s with
        phase := .terminate rc .reap
        worker := s.signal Child.sigkill
        sigkillAt := some s.now }
  | .reap =>
    if errno ≠ none then none
    else (s.worker.waitpid false).map fun (_, worker) => { s with worker := worker }.gives cfg rc

/-- The call of the daemon in its phase, which fails with `errno` if that is some; `strerror` is
    the message of an error. -/
def superviseCall (strerror : ℕ → List Char) (s : Supervision) (errno : Option ℕ) :
    Option Supervision :=
  match s.phase with
  | .validate =>
    if errno ≠ none then none
    else if validateCalibrationConfig cfg ≠ .ok then
      some (s.gives cfg (validateCalibrationConfig cfg))
    else some { s with phase := .unlink }
  | .unlink =>
    match errno with
    | none => some { s with phase := .launch .fork, file := none }
    | some e =>
      -- a file that is not there is as well
      if e = enoent then none
      else
        some { s with
          phase := .done .errIo (setError calibrationResultReset
            ("cannot remove stale result '".toList ++ cstr (cfg.resultPath.getD []) ++
              "': ".toList ++ strerror e)) }
  | .launch place => launchWorkerCall cfg s errno place
  | .wait place => waitChildCall cfg s errno place
  | .terminate rc place => terminateProcessGroupCall cfg rc s errno place
  | .load workerExitCode =>
    let (rc, out) := calibrationVerdict cfg workerExitCode (if errno = none then s.file else none)
    some { s with phase := .done rc out }
  | .done _ _ => none

end

/-- An event: a call of the daemon, a step of the worker, and some milliseconds. -/
inductive SupervisionEvent
  | call (errno : Option ℕ)
  | worker (act : WorkerAct)
  | tick (ms : ℕ)
  deriving DecidableEq, Repr

/-- A step of the daemon and its worker. -/
def superviseStep (cfg : CalibrationConfig) (strerror : ℕ → List Char) (s : Supervision) :
    SupervisionEvent → Option Supervision
  | .call errno => superviseCall cfg strerror s errno
  | .worker act => s.act cfg act
  | .tick ms => some { s with now := s.now + ms }

end CgroupResearch
