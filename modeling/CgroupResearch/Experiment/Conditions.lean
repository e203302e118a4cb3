import CgroupResearch.Experiment.Barrier
import CgroupResearch.Experiment.Progress
import CgroupResearch.Sweep.Program

/-!
# The conditions of the experiments

The results about workers, for each of the five programs and each of its conditions
(`Experiment`), over all runs: all orders in which the parent and the workers take their
steps, with failures and kills at any point.

* `workers_are_collected`: when `run_condition` returns, nothing is left of its workers;
* `results_are_measured`: when it returns 0, it has what they measured under the condition;
* `workers_start_together`: nobody works before all have their places;
* `run_condition_returns`: it returns, and returns 0 where nothing fails;
* `signals_stray`: whom it signals that is not there any more.
-/

namespace CgroupResearch

open ChildProcess Transition

/-- `enum condition` of `oracle_bank_overlap.c`. -/
inductive OverlapCondition
  | none
  | high
  | low
  deriving DecidableEq, Repr

/-- A call of `run_condition` in one of the programs. -/
inductive Experiment
  | overlap (condition : OverlapCondition)
  | sweep (condition : Condition)
  | selective (condition : SelectiveCondition) (quotaUs periodUs : ℕ)
  | multicandidate (condition : MulticandidateCondition) (quotaUs periodUs : ℕ)
  | cpuMax (condition : CpuMaxCondition) (periodUs : ℕ)
  deriving Repr

/-- How many workers the program can have in the background. -/
abbrev Experiment.backgrounds : Experiment → ℕ
  | .overlap _ | .sweep _ => 1
  | .selective _ _ _ => 2
  | .multicandidate _ _ _ | .cpuMax _ _ => candidateCount

/-- The program. -/
def Experiment.program : (x : Experiment) → Program (Worker x.backgrounds)
  | .overlap condition => overlapProgram (condition ≠ .none)
  | .sweep condition => overlapProgram (condition ≠ .none)
  | .selective condition quotaUs periodUs => selectiveProgram condition quotaUs periodUs
  | .multicandidate condition quotaUs periodUs => multicandidateProgram condition quotaUs periodUs
  | .cpuMax condition periodUs => cpuMaxProgram condition periodUs

/-- What the condition asks of a worker in the background: whether it takes part, and the
    `cpu.max` of its control group, if it is put into one. -/
def Experiment.background : (x : Experiment) → Fin x.backgrounds → Option (Option String)
  | .overlap condition, _ => if condition = .none then none else some none
  | .sweep condition, _ => if condition = .none then none else some none
  | .selective condition quotaUs periodUs, i =>
    let throttled := condition = .all ∨ i.val = 0 ∧ condition = .selective
    if condition = .none then none
    else some (some (cgroupSetCpuMax throttled quotaUs periodUs))
  | .multicandidate condition quotaUs periodUs, i =>
    if condition = .none then none
    else some (some (cgroupSetCpuMax (condition.throttled i) quotaUs periodUs))
  | .cpuMax condition periodUs, i =>
    if condition = .none then none
    else
      some (some (cgroupSetCpuMax (condition.throttled i) (condition.quota64 periodUs) periodUs))

/-- What the condition asks of a worker: the victim always takes part, in no group. -/
def Experiment.roster (x : Experiment) : Worker x.backgrounds → Option (Option String)
  | .victim => some none
  | .background i => x.background i

/-! ## What the programs do about each worker -/

theorem flatMap_of_single {α β : Type} {f : α → List β} {l : List α} {a : α} (hl : l.Nodup)
    (ha : a ∈ l) (hf : ∀ b, b ≠ a → f b = []) : l.flatMap f = f a := by
  induction l with
  | nil => simp at ha
  | cons b l ih =>
    obtain ⟨hb, hl⟩ := List.nodup_cons.1 hl
    rw [List.flatMap_cons]
    rcases List.mem_cons.1 ha with rfl | ha
    · have hnil : l.flatMap f = [] :=
        List.flatMap_eq_nil_iff.2 fun c hc => hf c (by rintro rfl; exact hb hc)
      rw [hnil, List.append_nil]
    · rw [hf b (by rintro rfl; exact hb ha), List.nil_append, ih hl ha]

theorem about_forCandidates {α : Type} (w : Worker candidateCount)
    (body : Fin candidateCount → List (Worker candidateCount × α)) :
    about w (forCandidates body) = forCandidates fun i => about w (body i) := by
  simp only [about, forCandidates, List.filterMap_flatMap]

/-- A loop over the candidates is about each of them in one of its turns. -/
theorem about_background_forCandidates {α : Type} (i : Fin candidateCount)
    (body : Fin candidateCount → List (Worker candidateCount × α))
    (hbody : ∀ j, j ≠ i → about (.background i) (body j) = []) :
    about (.background i) (forCandidates body) = about (.background i) (body i) := by
  rw [about_forCandidates]
  exact flatMap_of_single (List.nodup_finRange _) (List.mem_finRange i) hbody

/-- The calls about each worker of the programs with candidates. -/
theorem about_candidateCalls (hasBackground : Bool) (cpuMax : Fin candidateCount → String)
    (w : Worker candidateCount) :
    about w (candidateCalls hasBackground cpuMax) =
      match w with
      | .victim => lifecycle none
      | .background i => if hasBackground then lifecycle (some (cpuMax i)) else [] := by
  cases w with
  | victim => cases hasBackground <;> rfl
  | background i =>
    cases hasBackground with
    | false => rfl
    | true =>
      have hloop (body : Fin candidateCount → List Call) :
          about (.background i) (forCandidates fun j =>
            (body j).map fun call => (Worker.background j, call)) = body i := by
        rw [about_background_forCandidates]
        · simp [about]
        · intro j hj
          simp [about, hj]
      have hset := hloop fun j => [.setCpuMax (cpuMax j)]
      have hplace := hloop fun _ => [.spawn, .waitUntilStopped, .movePid]
      have hcont := hloop fun _ => [.cont]
      have hwait := hloop fun _ => [.waitSuccess]
      have hread := hloop fun _ => [.readFull, .close]
      simp only [List.map_cons, List.map_nil] at hset hplace hcont hwait hread
      simp only [candidateCalls, if_true, about_append, hset, hplace, hcont, hwait, hread]
      rfl

/-- The handler cleans up behind every worker. -/
theorem about_candidateHandler (w : Worker candidateCount) :
    about w candidateHandler = cleanup := by
  cases w with
  | victim => rfl
  | background i => fin_cases i <;> rfl

/-- Each program takes each of its workers through its whole life. -/
theorem Experiment.supervises (x : Experiment) : x.program.Supervises x.roster := by
  refine ⟨fun w => ?_, fun w => ?_⟩
  · cases x with
    | overlap condition | sweep condition =>
      cases w with
      | victim => cases condition <;> rfl
      | background i => cases condition <;> fin_cases i <;> rfl
    | selective condition quotaUs periodUs =>
      cases w with
      | victim => cases condition <;> rfl
      | background i => fin_cases i <;> cases condition <;> rfl
    | multicandidate condition quotaUs periodUs | cpuMax condition periodUs =>
      refine (about_candidateCalls _ _ w).trans ?_
      rcases w with _ | i
      · rfl
      cases condition <;> rfl
  · cases x with
    | overlap condition | sweep condition =>
      cases w with
      | victim => rfl
      | background i => fin_cases i; rfl
    | selective condition quotaUs periodUs =>
      cases w with
      | victim => rfl
      | background i => fin_cases i <;> rfl
    | multicandidate condition quotaUs periodUs | cpuMax condition periodUs =>
      exact about_candidateHandler w

/-! ## The start -/

section Starts

open Worker Call

/-- The workers are placed before the first is started, and the victim starts last. -/
theorem overlapProgram_starts (hasAggressor : Bool) :
    (overlapProgram hasAggressor).Starts victim := by
  cases hasAggressor with
  | false =>
    exact ⟨[(victim, spawn), (victim, waitUntilStopped)], [],
      [(victim, waitSuccess), (victim, readFull), (victim, close)], rfl, by simp, by simp,
      by simp⟩
  | true =>
    exact ⟨[(victim, spawn), (victim, waitUntilStopped), (background 0, spawn),
        (background 0, waitUntilStopped)], [(background 0, cont)],
      [(victim, waitSuccess), (background 0, waitSuccess), (victim, readFull), (victim, close),
        (background 0, readFull), (background 0, close)],
      rfl, by simp, by simp, by simp⟩

/-- So it is with the workers of both groups. -/
theorem selectiveProgram_starts (condition : SelectiveCondition) (quotaUs periodUs : ℕ) :
    (selectiveProgram condition quotaUs periodUs).Starts victim := by
  by_cases hnone : condition = .none
  · subst hnone
    exact ⟨[(victim, spawn), (victim, waitUntilStopped)], [],
      [(victim, waitSuccess), (victim, readFull), (victim, close)], rfl, by simp, by simp,
      by simp⟩
  · have hcalls : ∃ high low, (selectiveProgram condition quotaUs periodUs).calls =
        [(background 0, setCpuMax high), (background 1, setCpuMax low), (victim, spawn),
          (victim, waitUntilStopped), (background 0, spawn), (background 0, waitUntilStopped),
          (background 1, spawn), (background 1, waitUntilStopped), (background 0, movePid),
          (background 1, movePid)] ++
        ([(background 0, cont), (background 1, cont)] ++ (victim, cont) ::
          [(victim, waitSuccess), (background 0, waitSuccess), (background 1, waitSuccess),
            (victim, readFull), (victim, close), (background 0, readFull),
            (background 1, readFull), (background 0, close), (background 1, close)]) := by
      simp [selectiveProgram, hnone]
    obtain ⟨high, low, hcalls⟩ := hcalls
    exact .of_append hcalls (by simp) (by simp) (by simp)

theorem mem_forCandidates {α : Type} {body : Fin candidateCount → List α} {a : α} :
    a ∈ forCandidates body ↔ ∃ i, a ∈ body i := by
  simp [forCandidates]

/-- So it is with the five candidates. -/
theorem candidateCalls_starts {prog : Program (Worker candidateCount)} {hasBackground : Bool}
    {cpuMax : Fin candidateCount → String}
    (hprog : prog.calls = candidateCalls hasBackground cpuMax) : prog.Starts victim := by
  cases hasBackground with
  | false =>
    have hcalls : prog.calls = [(victim, spawn), (victim, waitUntilStopped)] ++
        ([] ++ (victim, cont) :: [(victim, waitSuccess), (victim, readFull), (victim, close)]) :=
      hprog
    exact .of_append hcalls (by simp) (by simp) (by simp)
  | true =>
    have hcalls : prog.calls =
        ((forCandidates fun i => [(background i, setCpuMax (cpuMax i))]) ++
          ([(victim, spawn), (victim, waitUntilStopped)] ++
            forCandidates fun i => [(background i, spawn), (background i, waitUntilStopped),
              (background i, movePid)])) ++
        ((forCandidates fun i => [(background i, cont)]) ++ (victim, cont) ::
          ((victim, waitSuccess) :: ((forCandidates fun i => [(background i, waitSuccess)]) ++
            ([(victim, readFull), (victim, close)] ++
              forCandidates fun i => [(background i, readFull), (background i, close)])))) := by
      simp [hprog, candidateCalls]
    refine .of_append hcalls ?_ ?_ ?_
    · simp only [List.mem_append, mem_forCandidates]
      rintro call (⟨i, hcall⟩ | hcall | ⟨i, hcall⟩) <;> simp at hcall
      · simp [hcall]
      · rcases hcall with rfl | rfl <;> simp
      · rcases hcall with rfl | rfl | rfl <;> simp
    · simp only [mem_forCandidates]
      rintro call ⟨i, hcall⟩
      simp at hcall
      simp [hcall]
    · simp only [List.mem_append, List.mem_cons, mem_forCandidates]
      rintro call (rfl | ⟨i, hcall⟩ | hcall | ⟨i, hcall⟩)
      · simp
      · simp at hcall
        simp [hcall]
      · simp at hcall
        rcases hcall with rfl | rfl <;> simp
      · simp at hcall
        rcases hcall with rfl | rfl <;> simp

end Starts

/-- All programs start their workers together. -/
theorem Experiment.starts (x : Experiment) : x.program.Starts .victim := by
  cases x with
  | overlap condition | sweep condition => exact overlapProgram_starts _
  | selective condition quotaUs periodUs => exact selectiveProgram_starts _ _ _
  | multicandidate condition quotaUs periodUs => exact candidateCalls_starts rfl
  | cpuMax condition periodUs => exact candidateCalls_starts rfl

/-! ## How long a run is -/

section Weight

variable {W : Type} [Fintype W]

/-- The weight at the start is that of the calls, the handler and the results. -/
theorem State.init_weight (prog : Program W) :
    (State.init prog).weight prog ≤ (prog.calls.map fun call => call.2.weight).sum +
      prog.handler.length + 2 + Fintype.card W * sizeofWorkerResult := by
  have hslots : ∑ w, ((State.init prog).slot w).weight =
      Fintype.card W * sizeofWorkerResult := by
    simp [State.init, Slot.weight, Slot.unborn, Child.unborn, lifeWeight]
  have hphase : (State.init prog).phase.weight prog ≤
      (prog.calls.map fun call => call.2.weight).sum + prog.handler.length + 2 := by
    unfold State.init
    dsimp only
    split
    · exact Nat.zero_le _
    · exact le_rfl
  rw [State.weight, hslots]
  omega

end Weight

theorem sum_weight_flatMap {α W : Type} {body : α → List (W × Call)} {k : ℕ} (l : List α)
    (hbody : ∀ a, ((body a).map fun call => call.2.weight).sum = k) :
    ((l.flatMap body).map fun call => call.2.weight).sum = l.length * k := by
  induction l with
  | nil => simp
  | cons a l ih =>
    rw [List.flatMap_cons, List.map_append, List.sum_append, ih, hbody, List.length_cons]
    ring

theorem sum_weight_forCandidates {W : Type} {body : Fin candidateCount → List (W × Call)}
    (k : ℕ) (hbody : ∀ i, ((body i).map fun call => call.2.weight).sum = k) :
    ((forCandidates body).map fun call => call.2.weight).sum = candidateCount * k := by
  rw [forCandidates, sum_weight_flatMap _ hbody, List.length_finRange]

theorem overlapProgram_weight (hasAggressor : Bool) :
    ((overlapProgram hasAggressor).calls.map fun call => call.2.weight).sum ≤ 78 := by
  cases hasAggressor <;> simp [overlapProgram, Call.weight, Pc.weight]

theorem selectiveProgram_weight (condition : SelectiveCondition) (quotaUs periodUs : ℕ) :
    ((selectiveProgram condition quotaUs periodUs).calls.map fun call => call.2.weight).sum ≤
      121 := by
  cases condition <;> simp [selectiveProgram, Call.weight, Pc.weight]

theorem candidateCalls_weight (hasBackground : Bool) (cpuMax : Fin candidateCount → String) :
    ((candidateCalls hasBackground cpuMax).map fun call => call.2.weight).sum ≤ 244 := by
  cases hasBackground with
  | false => simp [candidateCalls, Call.weight, Pc.weight]
  | true =>
    simp only [candidateCalls, if_true, List.map_append, List.sum_append]
    rw [sum_weight_forCandidates 1 fun i => rfl, sum_weight_forCandidates 36 fun i => rfl,
      sum_weight_forCandidates 1 fun i => rfl, sum_weight_forCandidates 1 fun i => rfl,
      sum_weight_forCandidates 2 fun i => rfl]
    exact le_refl 244

theorem candidateHandler_length : candidateHandler.length = 24 := rfl

/-- No program weighs more than this. -/
theorem Experiment.weight_le (x : Experiment) : (State.init x.program).weight x.program ≤ 420 := by
  refine (State.init_weight _).trans ?_
  rw [Worker.card]
  cases x with
  | overlap condition | sweep condition =>
    have hcalls := overlapProgram_weight (condition ≠ .none)
    have hhandler : (overlapProgram (condition ≠ .none)).handler.length = 8 := rfl
    simp only [Experiment.program, Experiment.backgrounds, sizeofWorkerResult, hhandler]
    omega
  | selective condition quotaUs periodUs =>
    have hcalls := selectiveProgram_weight condition quotaUs periodUs
    have hhandler : (selectiveProgram condition quotaUs periodUs).handler.length = 12 := rfl
    simp only [Experiment.program, Experiment.backgrounds, sizeofWorkerResult, hhandler]
    omega
  | multicandidate condition quotaUs periodUs =>
    have hcalls := candidateCalls_weight (condition ≠ .none) fun i =>
      cgroupSetCpuMax (condition.throttled i) quotaUs periodUs
    simp only [Experiment.program, Experiment.backgrounds, sizeofWorkerResult,
      multicandidateProgram, candidateHandler_length, candidateCount] at hcalls ⊢
    omega
  | cpuMax condition periodUs =>
    have hcalls := candidateCalls_weight (condition ≠ .none) fun i =>
      cgroupSetCpuMax (condition.throttled i) (condition.quota64 periodUs) periodUs
    simp only [Experiment.program, Experiment.backgrounds, sizeofWorkerResult, cpuMaxProgram,
      candidateHandler_length, candidateCount] at hcalls ⊢
    omega

/-! ## The results -/

/-- The state after a run of events. -/
abbrev Experiment.after (x : Experiment) (es : List (RunEvent (Worker x.backgrounds))) :
    Option (State (Worker x.backgrounds)) :=
  run (experimentStep x.program) (State.init x.program) es

section Results

variable (x : Experiment) {s : State (Worker x.backgrounds)}
  {es : List (RunEvent (Worker x.backgrounds))}

/-- When `run_condition` returns, every worker that it has forked is collected, and its end of
    every pipe is closed. -/
theorem workers_are_collected {rc : Int} (hrun : x.after es = some s)
    (hdone : s.phase = .done rc) :
    (rc = 0 ∨ rc = -1) ∧ ∀ w, (s.slot w).fd = false ∧
      ((s.slot w).child.life = .unborn ∨ ∃ status, (s.slot w).child.life = .reaped status) :=
  ⟨(returns_reaped x.supervises hrun hdone .victim).1,
    fun w => (returns_reaped x.supervises hrun hdone w).2⟩

/-- A worker is forked, pins itself and stops, and the parent sees it. -/
def startEvents {n : ℕ} (w : Worker n) : List (RunEvent (Worker n)) :=
  [.call true, .child w (.work true), .child w (.work true), .call true]

/-- A worker runs its loops, writes what it has measured, and exits. -/
def measureEvents {n : ℕ} (w : Worker n) : List (RunEvent (Worker n)) :=
  [.child w (.work true), .child w (.measured (List.replicate 24 1)), .child w (.send 24),
    .child w (.work true)]

/-- The worker in the group `high`. -/
abbrev highWorker : Worker 2 := .background ⟨0, Nat.zero_lt_two⟩

/-- The worker in the group `low`. -/
abbrev lowWorker : Worker 2 := .background ⟨1, Nat.one_lt_two⟩

/-- A run of the selective condition until all have been continued: the `cpu.max` of both groups
    is written, the workers are started, `high` and `low` are moved. -/
def selectiveStart : List (RunEvent (Worker 2)) :=
  List.replicate 2 (.call true) ++ startEvents .victim ++ startEvents highWorker ++
    startEvents lowWorker ++ List.replicate 5 (.call true)

/-- A whole run of the selective condition. -/
def selectiveRun : List (RunEvent (Worker 2)) :=
  selectiveStart ++ measureEvents lowWorker ++ measureEvents .victim ++
    measureEvents highWorker ++ List.replicate 3 (.call true) ++
    [.read 24, .call true, .read 16, .read 8, .read 24, .call true, .call true, .call true]

/-- A run in which `low` cannot be pinned to its processor: the handler kills the victim and
    `high`, which stand still. -/
def selectiveFailure : List (RunEvent (Worker 2)) :=
  List.replicate 2 (.call true) ++ startEvents .victim ++ startEvents highWorker ++
    [.call true, .child lowWorker (.work false), .call true] ++
    [.call true, .call true, .child .victim (.killed 9), .call true] ++
    [.call true, .call true, .child highWorker (.killed 9), .call true] ++
    List.replicate 7 (.call true)

/-- After the failure all three are collected, with what they have ended with, and after a whole
    run too. -/
theorem workers_are_collected_selective :
    (∃ s, (Experiment.selective .selective 20000 100000).after selectiveFailure = some s ∧
      s.phase = .done (-1) ∧ ∀ w : Worker 2, (s.slot w).fd = false ∧
        ((s.slot w).child.life = .unborn ∨ ∃ status, (s.slot w).child.life = .reaped status)) ∧
    ∃ s, (Experiment.selective .selective 20000 100000).after selectiveRun = some s ∧
      s.phase = .done 0 ∧ ∀ w : Worker 2, (s.slot w).fd = false :=
  ⟨⟨_, rfl, rfl, (workers_are_collected (.selective .selective 20000 100000)
      (show (Experiment.selective .selective 20000 100000).after selectiveFailure = some _ from rfl)
      rfl).2⟩,
    _, rfl, rfl, fun w => ((workers_are_collected (.selective .selective 20000 100000)
      (show (Experiment.selective .selective 20000 100000).after selectiveRun = some _ from rfl)
      rfl).2 w).1⟩

/-- When it returns 0, the workers of the condition have exited with 0, the others were not
    forked, those in the background were in groups with the `cpu.max` of the condition, and what
    was read is what each of them measured. -/
theorem results_are_measured (hrun : x.after es = some s) (hdone : s.phase = .done 0)
    (w : Worker x.backgrounds) :
    match x.roster w with
    | none => (s.slot w).child.life = .unborn
    | some group => (s.slot w).child.life = .reaped (.exited 0) ∧ (s.slot w).cpuMax = group ∧
      (s.slot w).moved = group.isSome ∧ (s.slot w).out.length = sizeofWorkerResult ∧
      .child w (.measured (s.slot w).out) ∈ es := by
  cases hw : x.roster w with
  | none =>
    rw [returns_zero_unborn x.supervises hrun hdone hw]
    rfl
  | some group => exact returns_zero x.supervises hrun hdone hw

/-- In the selective condition `high` is throttled and `low` is not. -/
theorem results_are_measured_selective :
    ∃ s, (Experiment.selective .selective 20000 100000).after selectiveRun = some s ∧
      (s.slot (.background 0)).child.life = .reaped (.exited 0) ∧
      (s.slot (.background 0)).cpuMax = some "20000 100000\n" ∧
      (s.slot (.background 1)).cpuMax = some "max 100000\n" ∧
      .child (.background 1) (.measured (s.slot (.background 1)).out) ∈ selectiveRun := by
  have hrun : (Experiment.selective .selective 20000 100000).after selectiveRun = some _ := rfl
  have hhigh := results_are_measured (.selective .selective 20000 100000) hrun rfl (.background 0)
  have hlow := results_are_measured (.selective .selective 20000 100000) hrun rfl (.background 1)
  exact ⟨_, hrun, hhigh.1, hhigh.2.1, hlow.2.1, hlow.2.2.2.2⟩

/-- As long as no call has failed, a worker is past its stop only when all workers of the
    condition have stopped and are in their groups; and the victim is, only when the others
    have been continued. -/
theorem workers_start_together (hrun : x.after es = some s)
    (hphase : (∃ rest, s.phase = .run rest) ∨ s.phase = .done 0) {w : Worker x.backgrounds}
    (hw : (s.slot w).Released) :
    (∀ v group, x.roster v = some group → (s.slot v).Placed group) ∧
      (w = .victim → ∀ i pc reported,
        (s.slot (.background i)).child.life ≠ .stopped pc reported) := by
  rcases State.holds_of_run x.supervises hrun with h | ⟨stray, rest, hphase', _⟩
  · refine ⟨fun v group hv => h.all_placed x.supervises x.starts hw hv, ?_⟩
    rintro rfl i pc reported
    exact h.all_continued x.starts hw _ pc reported
  · exfalso
    rcases hphase with ⟨_, hphase⟩ | hphase <;> rcases hphase' with hphase' | ⟨hphase', _⟩ <;>
      simp [hphase] at hphase'

/-- The victim is past its warm-up: `high` and `low` are in their groups, and continued. -/
theorem workers_start_together_selective :
    ∃ s, (Experiment.selective .selective 20000 100000).after
        (selectiveStart ++ [.child .victim (.work true)]) = some s ∧
      (s.slot (.background 0)).Placed (some "20000 100000\n") ∧
      (s.slot (.background 1)).Placed (some "max 100000\n") ∧
      ∀ (i : Fin 2) pc reported, (s.slot (.background i)).child.life ≠ .stopped pc reported := by
  have hrun : (Experiment.selective .selective 20000 100000).after
      (selectiveStart ++ [.child .victim (.work true)]) = some _ := rfl
  obtain ⟨hplaced, hcontinued⟩ := workers_start_together (.selective .selective 20000 100000) hrun
    (.inl ⟨_, rfl⟩) (w := .victim) (.inl ⟨.measure, rfl, by decide, by decide⟩)
  exact ⟨_, hrun, hplaced (.background 0) _ rfl, hplaced (.background 1) _ rfl, hcontinued rfl⟩

/-- `run_condition` returns: no run has more than 420 steps, and until it has returned somebody
    can go on, without any failure. If nothing fails, it returns 0. -/
theorem run_condition_returns (hrun : x.after es = some s) :
    es.length ≤ 420 ∧
      ((∃ rc, s.phase = .done rc) ∨
        ∃ e s', RunEvent.Own s e ∧ experimentStep x.program s e = some s') ∧
      (x.program.refused = false → (∀ e ∈ es, e.Faultless) →
        ∀ rc, s.phase = .done rc → rc = 0) := by
  refine ⟨(length_le_weight hrun).trans x.weight_le, ?_, fun hrefused hes rc hdone =>
    returns_zero_of_faultless x.supervises hrefused hes hrun hdone⟩
  by_cases hdone : ∃ rc, s.phase = .done rc
  · exact .inl hdone
  · exact .inr (exists_own_step x.supervises hrun fun rc hrc => hdone ⟨rc, hrc⟩)

/-- The whole run of the selective condition returns 0. -/
theorem run_condition_returns_selective :
    ∃ s, (Experiment.selective .selective 20000 100000).after selectiveRun = some s ∧
      ∀ rc, s.phase = .done rc → rc = 0 :=
  ⟨_, rfl, (run_condition_returns (.selective .selective 20000 100000)
    (show (Experiment.selective .selective 20000 100000).after selectiveRun = some _ from
      rfl)).2.2 rfl (by
        intro e he
        fin_cases he <;> trivial)⟩

/-- A `run_condition` that returns -1 after it has begun comes from a call that has failed. Its
    handler signals a worker that was collected, whose pid may be another's, exactly if this
    call was to wait for it, and found that it had failed: with `SIGCONT` and with `SIGKILL`. -/
theorem signals_stray (hrefused : x.program.refused = false) (hrun : x.after es = some s)
    (hdone : s.phase = .done (-1)) :
    ∃ as ok bs s₁ w call rest, es = as ++ .call ok :: bs ∧ x.after as = some s₁ ∧
      s₁.phase = .run ((w, call) :: rest) ∧ ∀ v, (s.slot v).child.strays =
        if v = w ∧ call.collects (s₁.slot w) then 2 else 0 :=
  strays_of_run x.supervises hrefused hrun hdone

/-- The victim cannot be pinned to its processor. -/
theorem signals_stray_unpinned :
    ∃ s, (Experiment.sweep .none).after (.call true :: .child .victim (.work false) ::
        List.replicate 10 (.call true)) = some s ∧
      (s.slot .victim).child.strays = 2 ∧
      ∃ w, ∀ v, v ≠ w → (s.slot v).child.strays = 0 := by
  obtain ⟨_, _, _, _, w, _, _, _, _, _, hstrays⟩ := signals_stray (.sweep .none) rfl
    (show (Experiment.sweep .none).after (.call true :: .child .victim (.work false) ::
      List.replicate 10 (.call true)) = some _ from rfl) rfl
  refine ⟨_, rfl, rfl, w, fun v hv => ?_⟩
  rw [hstrays v, if_neg fun h => hv h.1]

end Results

end CgroupResearch
