import CgroupResearch.Lib.ChildProcess
import CgroupResearch.Lib.Transition
import Mathlib.Data.Fintype.Option
import Mathlib.Logic.Function.Basic

/-!
# Measuring with worker processes

The experiments measure a condition with processes: a victim and background workers
(`run_condition`). The parent forks them, and each pins itself to a processor and stops. When
all stand still, and are in their control groups, the parent continues them, waits for each
to exit, and reads from its pipe what it measured. On any failure the parent goes to a
handler that ends the workers and closes the pipes.

The workers run beside the parent. A step is an event of one of them: a call of the parent,
or what a worker does next; an event also says whether a call that can fail does. A worker
may also be killed from outside, whenever it lives. The parent's code, which has no loops
but over a fixed number of workers, is a list of its calls about the workers in turn, and a
list of what its handler does (`Program`).

No program of the experiments catches signals, so that no call returns `EINTR`. The parent
closes the write end of a pipe before it forks again: it is the worker's alone.
-/

namespace CgroupResearch

open ChildProcess

/-- `sizeof(struct worker_result)`. -/
def sizeofWorkerResult : ℕ := 24

/-! ## Workers -/

/-- Where a worker is in its program, with the bytes of the result that are written. -/
inductive Pc
  | pin
  | stop
  | warmup
  | measure
  | write (sent : ℕ)
  | exit
  deriving DecidableEq, Repr

/-- A worker: its process, the parent's variables about it (`pid > 0`, `fd >= 0`, and what
    was read into `out`), its own `result`, what is in its pipe, whether it was moved to its
    control group, and what was written to the `cpu.max` of the group. -/
structure Slot where
  child : Child Pc
  pid : Bool
  fd : Bool
  result : List UInt8
  pipe : List UInt8
  out : List UInt8
  moved : Bool
  cpuMax : Option String

/-- A worker before `run_condition`. -/
def Slot.unborn : Slot := ⟨.unborn, false, false, [], [], [], false, none⟩

/-- A worker with another life. -/
def Slot.live (s : Slot) (life : Life Pc) : Slot := { s with child := { s.child with life } }

section Live

variable (s : Slot) (life : Life Pc)

@[simp] theorem Slot.live_life : (s.live life).child.life = life := rfl

@[simp] theorem Slot.live_killed : (s.live life).child.killed = s.child.killed := rfl

@[simp] theorem Slot.live_strays : (s.live life).child.strays = s.child.strays := rfl

@[simp] theorem Slot.live_pid : (s.live life).pid = s.pid := rfl

@[simp] theorem Slot.live_fd : (s.live life).fd = s.fd := rfl

@[simp] theorem Slot.live_result : (s.live life).result = s.result := rfl

@[simp] theorem Slot.live_pipe : (s.live life).pipe = s.pipe := rfl

@[simp] theorem Slot.live_out : (s.live life).out = s.out := rfl

@[simp] theorem Slot.live_moved : (s.live life).moved = s.moved := rfl

@[simp] theorem Slot.live_cpuMax : (s.live life).cpuMax = s.cpuMax := rfl

end Live

/-- What a worker does. The calls of its program that can fail are granted or not, the loops
    end with a result, and `write` takes some bytes. -/
inductive Act
  | work (ok : Bool)
  | measured (result : List UInt8)
  | send (bytes : ℕ)
  | killed (signal : ℕ)

/-- What a worker does next in `spawn_victim` or `spawn_aggressor`, whose exit codes lie
    above `base`. The loops measure a time: they come to an end. -/
def Slot.act (base : ℕ) (s : Slot) : Act → Option Slot
  | .work ok =>
    match s.child.life with
    | .running .pin =>
      some (s.live (if ok then .running .stop else .zombie (.exited (base + 1))))
    | .running .stop =>
      some (s.live (if ok then .stopped .warmup false else .zombie (.exited (base + 2))))
    | .running .warmup =>
      some (s.live (if ok then .running .measure else .zombie (.exited (base + 3))))
    | .running .measure => if ok then none else some (s.live (.zombie (.exited (base + 4))))
    | .running (.write _) => if ok then none else some (s.live (.zombie (.exited (base + 5))))
    | .running .exit => if ok then some (s.live (.zombie (.exited 0))) else none
    | _ => none
  | .measured result =>
    if s.child.life = .running .measure ∧ result.length = sizeofWorkerResult then
      some { s.live (.running (.write 0)) with result }
    else
      none
  | .send bytes =>
    match s.child.life with
    | .running (.write sent) =>
      if 0 < bytes ∧ sent + bytes ≤ sizeofWorkerResult then
        let pc := if sent + bytes = sizeofWorkerResult then .exit else .write (sent + bytes)
        some { s.live (.running pc) with pipe := s.pipe ++ (s.result.drop sent).take bytes }
      else
        none
    | _ => none
  | .killed signal =>
    if s.child.life.alive then some (s.live (.zombie (.signaled signal))) else none

/-! ## The parent -/

/-- A call of the parent about a worker. -/
inductive Call
  | setCpuMax (text : String)
  | spawn
  | waitUntilStopped
  | movePid
  | cont
  | waitSuccess
  | readFull
  | close

/-- A call, if it does not block: whether it succeeds, and what it does to the worker. The
    outcome of `kill`, `waitpid` and of an end of file is the kernel's, and that of the other
    calls is given (`ok`). -/
def Call.exec (ok : Bool) (s : Slot) : Call → Option (Bool × Slot)
  | .setCpuMax text => some (ok, if ok then { s with cpuMax := some text } else s)
  | .spawn =>
    some (ok, if ok then { s.live (.running .pin) with pid := true, fd := true } else s)
  | .waitUntilStopped =>
    (s.child.waitpid true).map fun (w, child) => (decide (w = .stopped), { s with child })
  | .movePid => some (ok, if ok then { s with moved := true } else s)
  | .cont => some (!s.child.life.isReaped, { s with child := s.child.sigcont })
  | .waitSuccess =>
    (s.child.waitpid false).map fun (w, child) =>
      if w = .ended (.exited 0) then (true, { s with child, pid := false })
      else (false, { s with child })
  | .readFull => if ok ∧ ¬(s.pipe = [] ∧ s.child.life.alive = false) then none else some (false, s)
  | .close => some (true, { s with fd := false })

/-- A `read` of `read_full` that returns some bytes. -/
def Slot.read (s : Slot) (bytes : ℕ) : Option Slot :=
  if 0 < bytes ∧ bytes ≤ s.pipe.length ∧ s.out.length + bytes ≤ sizeofWorkerResult then
    some { s with out := s.out ++ s.pipe.take bytes, pipe := s.pipe.drop bytes }
  else
    none

/-- What the handler does about a worker, if it has a pid or a descriptor. -/
inductive Cleanup
  | cont
  | kill
  | wait
  | close
  deriving DecidableEq

/-- A line of the handler, if it does not block. -/
def Cleanup.exec (s : Slot) : Cleanup → Option Slot
  | .cont => some (if s.pid then { s with child := s.child.sigcont } else s)
  | .kill => some (if s.pid then { s with child := s.child.sigkill } else s)
  | .wait =>
    if s.pid then (s.child.waitpid false).map fun (_, child) => { s with child } else some s
  | .close => some (if s.fd then { s with fd := false } else s)

/-- `run_condition` for a condition, with the workers `W`: its calls, those of its handler,
    the exit codes of the workers, and whether it refuses its arguments. -/
structure Program (W : Type) where
  refused : Bool
  calls : List (W × Call)
  handler : List (W × Cleanup)
  exitBase : W → ℕ

/-- Where the parent is. -/
inductive Phase (W : Type)
  | run (rest : List (W × Call))
  | fail (rest : List (W × Cleanup))
  | done (rc : Int)

/-- The parent and the workers. -/
structure State (W : Type) where
  phase : Phase W
  slot : W → Slot

/-- An event: the parent's next call, with its outcome where that is given, a `read` of the
    parent, or what a worker does. -/
inductive RunEvent (W : Type)
  | call (ok : Bool)
  | read (bytes : ℕ)
  | child (w : W) (act : Act)

section Step

variable {W : Type} [DecidableEq W] (prog : Program W)

/-- When `run_condition` is called. -/
def State.init : State W where
  phase := if prog.refused then .done (-1) else .run prog.calls
  slot _ := .unborn

/-- A worker is changed, and the parent is somewhere. -/
def State.set (s : State W) (phase : Phase W) (w : W) (slot : Slot) : State W :=
  ⟨phase, Function.update s.slot w slot⟩

/-- A step of the parent or of a worker. -/
def experimentStep (s : State W) : RunEvent W → Option (State W)
  | .call ok =>
    match s.phase with
    | .run [] => some { s with phase := .done 0 }
    | .run ((w, call) :: rest) =>
      (call.exec ok (s.slot w)).map fun (success, slot) =>
        s.set (if success then .run rest else .fail prog.handler) w slot
    | .fail [] => some { s with phase := .done (-1) }
    | .fail ((w, cleanup) :: rest) => (cleanup.exec (s.slot w)).map (s.set (.fail rest) w)
    | .done _ => none
  | .read bytes =>
    match s.phase with
    | .run ((w, .readFull) :: rest) =>
      ((s.slot w).read bytes).map fun slot =>
        s.set (if slot.out.length = sizeofWorkerResult then .run rest else s.phase) w slot
    | _ => none
  | .child w act => ((s.slot w).act (prog.exitBase w) act).map (s.set s.phase w)

end Step

/-! ## The programs -/

/-- The workers: a victim, and `n` in the background. -/
inductive Worker (n : ℕ)
  | victim
  | background (i : Fin n)
  deriving DecidableEq, Repr

/-- A worker is none or one of those in the background. -/
def Worker.ofOption (n : ℕ) : Option (Fin n) ≃ Worker n where
  toFun o := o.elim .victim .background
  invFun
    | .victim => none
    | .background i => some i
  left_inv o := by cases o <;> rfl
  right_inv w := by cases w <;> rfl

instance {n : ℕ} : Fintype (Worker n) := Fintype.ofEquiv _ (Worker.ofOption n)

theorem Worker.card (n : ℕ) : Fintype.card (Worker n) = n + 1 := by
  rw [Fintype.ofEquiv_card, Fintype.card_option, Fintype.card_fin]

/-- The exit codes of `spawn_victim` and `spawn_aggressor`. -/
def Worker.exitBase {n : ℕ} : Worker n → ℕ
  | .victim => 100
  | .background _ => 110

/-- `kill`, `kill` and `waitpid` in a handler. -/
def endWorker {W : Type} (w : W) : List (W × Cleanup) := [(w, .cont), (w, .kill), (w, .wait)]

/-- The text that `cgroup_set_cpu_max` writes. -/
def cgroupSetCpuMax (throttled : Bool) (quotaUs periodUs : ℕ) : String :=
  if throttled then toString quotaUs ++ " " ++ toString periodUs ++ "\n"
  else "max " ++ toString periodUs ++ "\n"

section Programs

open Worker Call

/-- The `run_condition` of `oracle_bank_overlap.c` and of `oracle_bank_overlap_sweep.c`. -/
def overlapProgram (hasAggressor : Bool) : Program (Worker 1) where
  refused := false
  calls :=
    [(victim, spawn), (victim, waitUntilStopped)] ++
    (if hasAggressor then
      [(background 0, spawn), (background 0, waitUntilStopped), (background 0, cont)]
    else []) ++
    [(victim, cont), (victim, waitSuccess)] ++
    (if hasAggressor then [(background 0, waitSuccess)] else []) ++
    [(victim, readFull), (victim, close)] ++
    (if hasAggressor then [(background 0, readFull), (background 0, close)] else [])
  handler :=
    endWorker .victim ++ endWorker (.background 0) ++
    [(.victim, .close), (.background 0, .close)]
  exitBase := Worker.exitBase

/-- `enum condition` of `oracle_selective_control.c`. -/
inductive SelectiveCondition
  | none
  | uncontrolled
  | selective
  | all
  deriving DecidableEq, Repr

/-- The `run_condition` of `oracle_selective_control.c`: in the background are `high` and
    `low`. -/
def selectiveProgram (condition : SelectiveCondition) (quotaUs periodUs : ℕ) :
    Program (Worker 2) where
  refused := false
  calls :=
    let high : Worker 2 := background 0
    let low : Worker 2 := background 1
    let highThrottled := condition = .selective ∨ condition = .all
    let lowThrottled := condition = .all
    let hasBackground := condition ≠ .none
    (if hasBackground then
      [(high, setCpuMax (cgroupSetCpuMax highThrottled quotaUs periodUs)),
        (low, setCpuMax (cgroupSetCpuMax lowThrottled quotaUs periodUs))]
    else []) ++
    [(victim, spawn), (victim, waitUntilStopped)] ++
    (if hasBackground then
      [(high, spawn), (high, waitUntilStopped), (low, spawn), (low, waitUntilStopped),
        (high, movePid), (low, movePid), (high, cont), (low, cont)]
    else []) ++
    [(victim, cont), (victim, waitSuccess)] ++
    (if hasBackground then [(high, waitSuccess), (low, waitSuccess)] else []) ++
    [(victim, readFull), (victim, close)] ++
    (if hasBackground then
      [(high, readFull), (low, readFull), (high, close), (low, close)]
    else [])
  handler :=
    endWorker .victim ++ endWorker (.background 0) ++ endWorker (.background 1) ++
    [(.victim, .close), (.background 0, .close), (.background 1, .close)]
  exitBase := Worker.exitBase

/-- `CANDIDATE_COUNT`. -/
abbrev candidateCount : ℕ := 5

/-- The loops of `oracle_multicandidate_control.c` and of `oracle_cpu_max_sweep.c` over the
    candidates. -/
def forCandidates {α : Type} (body : Fin candidateCount → List α) : List α :=
  (List.finRange candidateCount).flatMap body

/-- The calls that both programs make, with the `cpu.max` of the candidates. -/
def candidateCalls (hasBackground : Bool) (cpuMax : Fin candidateCount → String) :
    List (Worker candidateCount × Call) :=
  (if hasBackground then forCandidates fun i => [(background i, setCpuMax (cpuMax i))]
    else []) ++
  [(victim, spawn), (victim, waitUntilStopped)] ++
  (if hasBackground then
    (forCandidates fun i =>
      [(background i, spawn), (background i, waitUntilStopped), (background i, movePid)]) ++
    forCandidates fun i => [(background i, cont)]
  else []) ++
  [(victim, cont), (victim, waitSuccess)] ++
  (if hasBackground then forCandidates fun i => [(background i, waitSuccess)] else []) ++
  [(victim, readFull), (victim, close)] ++
  (if hasBackground then
    forCandidates fun i => [(background i, readFull), (background i, close)]
  else [])

/-- The handler of both programs. -/
def candidateHandler : List (Worker candidateCount × Cleanup) :=
  endWorker victim ++
  (forCandidates fun i => endWorker (background i) ++ [(background i, Cleanup.close)]) ++
  [(victim, Cleanup.close)]

/-- `enum condition` of `oracle_multicandidate_control.c`. -/
inductive MulticandidateCondition
  | none
  | uncontrolled
  | lowestOne
  | highestOne
  | top2
  | all
  deriving DecidableEq, Repr

/-- The array `throttled` of a condition. -/
def MulticandidateCondition.throttled (condition : MulticandidateCondition)
    (i : Fin candidateCount) : Bool :=
  match condition with
  | .lowestOne => i = 0
  | .highestOne => i = 4
  | .top2 => i = 3 ∨ i = 4
  | .all => true
  | _ => false

/-- The `run_condition` of `oracle_multicandidate_control.c`. -/
def multicandidateProgram (condition : MulticandidateCondition) (quotaUs periodUs : ℕ) :
    Program (Worker candidateCount) where
  refused := false
  calls := candidateCalls (condition ≠ .none) fun i =>
    cgroupSetCpuMax (condition.throttled i) quotaUs periodUs
  handler := candidateHandler
  exitBase := Worker.exitBase

/-- `enum condition` of `oracle_cpu_max_sweep.c`. -/
inductive CpuMaxCondition
  | none
  | uncontrolled
  | cpu75
  | cpu50
  | cpu25
  | cpu10
  deriving DecidableEq, Repr

/-- `condition_cpu_allow_pct`. -/
def CpuMaxCondition.cpuAllowPct : CpuMaxCondition → ℕ
  | .uncontrolled => 100
  | .cpu75 => 75
  | .cpu50 => 50
  | .cpu25 => 25
  | .cpu10 => 10
  | .none => 0

/-- `throttle_o100`: the condition is one of those with a quota. -/
def CpuMaxCondition.throttleO100 : CpuMaxCondition → Bool
  | .cpu75 | .cpu50 | .cpu25 | .cpu10 => true
  | _ => false

/-- `throttled` of the candidate `i`. -/
def CpuMaxCondition.throttled (condition : CpuMaxCondition) (i : Fin candidateCount) : Bool :=
  i = 4 ∧ condition.throttleO100

/-- `quota64`. -/
def CpuMaxCondition.quota64 (condition : CpuMaxCondition) (periodUs : ℕ) : ℕ :=
  periodUs * condition.cpuAllowPct / 100

/-- The `run_condition` of `oracle_cpu_max_sweep.c`. -/
def cpuMaxProgram (condition : CpuMaxCondition) (periodUs : ℕ) :
    Program (Worker candidateCount) where
  refused := condition.throttleO100 ∧
    (condition.quota64 periodUs = 0 ∨ condition.quota64 periodUs > 2 ^ 32 - 1)
  calls := candidateCalls (condition ≠ .none) fun i =>
    cgroupSetCpuMax (condition.throttled i) (condition.quota64 periodUs) periodUs
  handler := candidateHandler
  exitBase := Worker.exitBase

end Programs

end CgroupResearch
