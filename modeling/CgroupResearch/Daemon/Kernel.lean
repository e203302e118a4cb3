import CgroupResearch.Daemon.Handler

/-!
# The kernel side

The kernel runs threads, organised in thread groups (the processes), and reports
to the daemon, through the programs of `protected_daemon.bpf.c`, every fork,
exec and exit of a *thread*, naming *thread groups*. The events reach the handler
in order; an event is lost when the ring buffer has no room for it.

A thread group whose exec was recorded is meant to have a record as long as it
has a live thread (`Tracked`). It does in a run iff no thread of such a group
exits before the other threads of the group (`tracked_iff`): the exit of any
thread removes the record of its whole group.
-/

namespace CgroupResearch

/-- A thread: its own id, and that of its thread group. -/
structure Task where
  pid : ℤ
  tgid : ℤ
  deriving DecidableEq, Repr

/-- What a program reads of the system when it runs: the thread group of the
    task's real parent, and the user and the command name of the current task. -/
structure BpfContext where
  realParentTgid : ℤ
  uidGid : UInt64
  comm : List Char

namespace Bpf

/-- `handle_fork`. -/
def handleFork (parent child : Task) (c : BpfContext) : Event where
  type := .fork
  pid := parent.tgid
  ppid := c.realParentTgid
  childPid := child.tgid
  uid := (c.uidGid &&& 0xffffffff).toUInt32
  comm := c.comm

/-- `handle_exit`. -/
def handleExit (task : Task) (c : BpfContext) : Event where
  type := .exit
  pid := task.tgid
  ppid := c.realParentTgid
  childPid := 0
  uid := (c.uidGid &&& 0xffffffff).toUInt32
  comm := c.comm

/-- `handle_exec`. -/
def handleExec (task : Task) (c : BpfContext) : Event where
  type := .exec
  pid := task.tgid
  ppid := c.realParentTgid
  childPid := 0
  uid := (c.uidGid &&& 0xffffffff).toUInt32
  comm := c.comm

end Bpf

/-- The steps of the kernel: a new process, a new thread in the group of its
    creator, an exec, the exit of one thread. -/
inductive KernelAction
  | fork (parent child : Task)
  | clone (parent child : Task)
  | exec (task : Task)
  | exit (task : Task)
  deriving DecidableEq

/-- A step of the kernel, with what the program and the handler meet: `reserved`
    is whether the ring buffer has room for the event. -/
structure KernelStep where
  action : KernelAction
  context : BpfContext
  reserved : Bool
  fs : ProcFs
  written : Bool

/-- The event that the program attached to the step fills. -/
def KernelStep.event (a : KernelStep) : Event :=
  match a.action with
  | .fork parent child => Bpf.handleFork parent child a.context
  | .clone parent child => Bpf.handleFork parent child a.context
  | .exec task => Bpf.handleExec task a.context
  | .exit task => Bpf.handleExit task a.context

/-- The kernel and the daemon: the live threads, the live thread groups whose
    exec was recorded, and the process table. -/
structure Host where
  tasks : Finset Task
  recorded : Finset ℤ
  table : ProcessTable

namespace Host

/-- The thread group has a live thread. -/
def Alive (tasks : Finset Task) (g : ℤ) : Prop := ∃ τ ∈ tasks, τ.tgid = g

instance (tasks : Finset Task) (g : ℤ) : Decidable (Alive tasks g) :=
  inferInstanceAs (Decidable (∃ τ ∈ tasks, τ.tgid = g))

/-- An id that no live thread or thread group has. -/
def Fresh (tasks : Finset Task) (n : ℤ) : Prop := 0 < n ∧ ∀ τ ∈ tasks, τ.pid ≠ n ∧ τ.tgid ≠ n

instance (tasks : Finset Task) (n : ℤ) : Decidable (Fresh tasks n) :=
  inferInstanceAs (Decidable (0 < n ∧ ∀ τ ∈ tasks, τ.pid ≠ n ∧ τ.tgid ≠ n))

/-- When the kernel can take a step: ids are given when they are free, and only
    live threads act. -/
def Enabled (s : Host) : KernelAction → Prop
  | .fork parent child => parent ∈ s.tasks ∧ Fresh s.tasks child.pid ∧ child.tgid = child.pid
  | .clone parent child => parent ∈ s.tasks ∧ Fresh s.tasks child.pid ∧ child.tgid = parent.tgid
  | .exec task => task ∈ s.tasks
  | .exit task => task ∈ s.tasks

instance (s : Host) : DecidablePred s.Enabled
  | .fork parent child => inferInstanceAs (Decidable (parent ∈ s.tasks ∧ Fresh s.tasks child.pid ∧
      child.tgid = child.pid))
  | .clone parent child => inferInstanceAs (Decidable (parent ∈ s.tasks ∧ Fresh s.tasks child.pid ∧
      child.tgid = parent.tgid))
  | .exec task => inferInstanceAs (Decidable (task ∈ s.tasks))
  | .exit task => inferInstanceAs (Decidable (task ∈ s.tasks))

/-- The table after the event of the step, if it is submitted. -/
def deliver (d : DaemonConfig) (t : ProcessTable) (a : KernelStep) : ProcessTable :=
  if a.reserved then (handleEvent d t ⟨a.event, a.fs, a.written⟩).2 else t

/-- A step of the kernel, and of the daemon on its event. -/
def step (d : DaemonConfig) (s : Host) (a : KernelStep) : Host :=
  let table := deliver d s.table a
  match a.action with
  | .fork _ child => { s with tasks := insert child s.tasks, table }
  | .clone _ child => { s with tasks := insert child s.tasks, table }
  | .exec task =>
    { s with
      recorded := if a.reserved ∧ (processUpsertExec a.event a.fs s.table).1 ≠ none then
        insert task.tgid s.recorded else s.recorded
      table }
  | .exit task =>
    { tasks := s.tasks.erase task
      recorded := if Alive (s.tasks.erase task) task.tgid then s.recorded
        else s.recorded.erase task.tgid
      table }

/-- The daemon starts on any set of running threads, with an empty table. -/
def start (tasks : Finset Task) : Host := ⟨tasks, ∅, processTableReset⟩

/-- The runs, with the states before each step, the latest first: no event is
    lost, and the table is never full. -/
inductive Run (d : DaemonConfig) : List (Host × KernelStep) → Host → Prop
  | start (tasks : Finset Task) : Run d [] (start tasks)
  | step {h : List (Host × KernelStep)} {s : Host} (a : KernelStep) : Run d h s →
      s.Enabled a.action → a.reserved → processTableCount s.table < procMax →
      Run d ((s, a) :: h) (s.step d a)

/-- Every live thread group whose exec was recorded has a record. -/
def Tracked (s : Host) : Prop :=
  ∀ g ∈ s.recorded, Alive s.tasks g → (processGet s.table g).isSome

/-- The step is not the exit of a thread that leaves other threads of its group
    running, if the exec of the group was recorded. -/
def ExitsLast (s : Host) (a : KernelStep) : Prop :=
  ∀ τ, a.action = .exit τ → τ.tgid ∈ s.recorded → ¬Alive (s.tasks.erase τ) τ.tgid

/-! ## Runs -/

variable {d : DaemonConfig} {s : Host} {a : KernelStep} {h : List (Host × KernelStep)}

/-- What holds in every state of every run: the table is well formed, and only
    live thread groups are kept as recorded. -/
structure Inv (s : Host) : Prop where
  table : s.table.Inv
  alive : ∀ g ∈ s.recorded, Alive s.tasks g

/-- A further task keeps the group alive. -/
theorem Alive.insert {tasks : Finset Task} {g : ℤ} (hg : Alive tasks g) (τ : Task) :
    Alive (insert τ tasks) g :=
  hg.imp fun _ hτ => ⟨Finset.mem_insert_of_mem hτ.1, hτ.2⟩

/-- The exit of a thread of another group does not end a group. -/
theorem Alive.erase {tasks : Finset Task} {g : ℤ} (hg : Alive tasks g) {τ : Task}
    (hτ : τ.tgid ≠ g) : Alive (tasks.erase τ) g := by
  obtain ⟨τ', hmem, rfl⟩ := hg
  exact ⟨τ', Finset.mem_erase.2 ⟨fun h => hτ (h ▸ rfl), hmem⟩, rfl⟩

/-- A delivery keeps the invariant of the table. -/
theorem Inv.deliver (hi : s.Inv) : (deliver d s.table a).Inv := by
  unfold Host.deliver
  split_ifs
  · exact (hi.table.handleEvent_cases d ⟨a.event, a.fs, a.written⟩).1
  · exact hi.table

/-- A step keeps the invariant. -/
theorem Inv.step (hi : s.Inv) (ha : s.Enabled a.action) : (s.step d a).Inv := by
  have htable : (Host.deliver d s.table a).Inv := hi.deliver
  cases hact : a.action with
  | fork parent child =>
    simp only [Host.step, hact]
    exact ⟨htable, fun g hg => (hi.alive g hg).insert child⟩
  | clone parent child =>
    simp only [Host.step, hact]
    exact ⟨htable, fun g hg => (hi.alive g hg).insert child⟩
  | exec task =>
    simp only [Host.step, hact]
    refine ⟨htable, fun g hg => ?_⟩
    dsimp only at hg ⊢
    split_ifs at hg
    · -- The group that is added is alive through the thread that has called `exec`.
      rcases Finset.mem_insert.1 hg with rfl | hg
      · rw [hact] at ha
        exact ⟨task, ha, rfl⟩
      · exact hi.alive g hg
    · exact hi.alive g hg
  | exit task =>
    -- A group with a thread left stays recorded. The last thread takes its group with it, and
    -- those of other groups are not touched.
    simp only [Host.step, hact]
    refine ⟨htable, fun g hg => ?_⟩
    dsimp only at hg ⊢
    split_ifs at hg with hlive
    · by_cases hg' : task.tgid = g
      · exact hg' ▸ hlive
      · exact (hi.alive g hg).erase hg'
    · rw [Finset.mem_erase] at hg
      exact (hi.alive g hg.2).erase (Ne.symm hg.1)

/-- The invariant holds after every run. -/
theorem Run.inv (hr : Run d h s) : s.Inv := by
  induction hr with
  | start tasks => exact ⟨ProcessTable.inv_reset, fun g hg => absurd hg (Finset.notMem_empty g)⟩
  | step a _ ha _ _ ih => exact ih.step ha

/-- In a well-formed table, a pid has a record iff it is found. -/
theorem isSome_get_iff {t : ProcessTable} {g : ℤ} :
    (processGet t g).isSome ↔ t.record g ≠ none := by
  rw [ProcessTable.record, ne_eq, Option.map_eq_none_iff, Option.isSome_iff_ne_none]

/-- An event that is not an exit removes no record. -/
theorem Inv.deliver_keeps (hi : s.Inv) {g : ℤ} (ht : a.event.type ≠ .exit)
    (hg : s.table.record g ≠ none) : (Host.deliver d s.table a).record g ≠ none := by
  unfold Host.deliver
  split_ifs
  · rcases (hi.table.handleEvent_cases d ⟨a.event, a.fs, a.written⟩).2 with ⟨_, _, _, hrec⟩ |
      ⟨_, _, _, _, hrec⟩ | ⟨ht', _⟩ | ⟨_, _, heq⟩ | ⟨_, _, heq⟩
    · rw [hrec]
      split_ifs <;> simp_all
    · rw [hrec]
      split_ifs <;> simp_all
    · exact absurd ht' ht
    · rwa [heq]
    · rwa [heq]
  · exact hg

/-- An exec that is recorded gives its thread group a record. -/
theorem Inv.deliver_exec (hi : s.Inv) (ht : a.event.type = .exec) (hr : a.reserved)
    (hu : (processUpsertExec a.event a.fs s.table).1 ≠ none) :
    (Host.deliver d s.table a).record a.event.pid ≠ none := by
  rw [Host.deliver, if_pos hr]
  rcases (hi.table.handleEvent_cases d ⟨a.event, a.fs, a.written⟩).2 with ⟨_, _, _, hrec⟩ |
    ⟨ht', _⟩ | ⟨ht', _⟩ | ⟨_, hnone, _⟩ | ⟨ht', _⟩
  · rw [hrec, if_pos rfl]
    exact nofun
  · exact nomatch ht.symm.trans ht'
  · exact nomatch ht.symm.trans ht'
  · exact absurd hnone hu
  · exact nomatch ht.symm.trans ht'

/-- The exit of a thread removes the record of its thread group, and no other. -/
theorem Inv.deliver_exit (hi : s.Inv) (ht : a.event.type = .exit) (hr : a.reserved) (g : ℤ) :
    (Host.deliver d s.table a).record g =
      if g = a.event.pid then none else s.table.record g := by
  rw [Host.deliver, if_pos hr]
  rcases (hi.table.handleEvent_cases d ⟨a.event, a.fs, a.written⟩).2 with ⟨ht', _⟩ |
    ⟨ht', _⟩ | ⟨_, hrec⟩ | ⟨ht', _⟩ | ⟨ht', _⟩
  · exact nomatch ht.symm.trans ht'
  · exact nomatch ht.symm.trans ht'
  · exact hrec g
  · exact nomatch ht.symm.trans ht'
  · exact nomatch ht.symm.trans ht'

/-- A step that is not the exit of a thread before others of its group keeps every
    recorded thread group tracked. -/
theorem Inv.tracked_step (hi : s.Inv) (hr : a.reserved) (ht : s.Tracked)
    (hlast : s.ExitsLast a) : (s.step d a).Tracked := by
  -- A thread group that was recorded already has a record before the step.
  have hold : ∀ g ∈ s.recorded, s.table.record g ≠ none :=
    fun g hg => isSome_get_iff.1 (ht g hg (hi.alive g hg))
  intro g hg _
  rw [isSome_get_iff]
  cases hact : a.action with
  | fork parent child =>
    simp only [Host.step, hact] at hg ⊢
    exact hi.deliver_keeps (by simp [KernelStep.event, hact, Bpf.handleFork]) (hold g hg)
  | clone parent child =>
    simp only [Host.step, hact] at hg ⊢
    exact hi.deliver_keeps (by simp [KernelStep.event, hact, Bpf.handleFork]) (hold g hg)
  | exec task =>
    simp only [Host.step, hact] at hg ⊢
    have hev : a.event.type = .exec := by simp [KernelStep.event, hact, Bpf.handleExec]
    have hpid : a.event.pid = task.tgid := by simp [KernelStep.event, hact, Bpf.handleExec]
    split_ifs at hg with hu
    · rcases Finset.mem_insert.1 hg with rfl | hg
      · exact hpid ▸ hi.deliver_exec hev hr hu.2
      · exact hi.deliver_keeps (by simp [hev]) (hold g hg)
    · exact hi.deliver_keeps (by simp [hev]) (hold g hg)
  | exit task =>
    simp only [Host.step, hact] at hg ⊢
    have hev : a.event.type = .exit := by simp [KernelStep.event, hact, Bpf.handleExit]
    have hpid : a.event.pid = task.tgid := by simp [KernelStep.event, hact, Bpf.handleExit]
    rw [hi.deliver_exit hev hr, hpid]
    split_ifs at hg with halive
    · have hne : g ≠ task.tgid := fun h => hlast task hact (h ▸ hg) halive
      rw [if_neg hne]
      exact hold g hg
    · rw [Finset.mem_erase] at hg
      rw [if_neg hg.1]
      exact hold g hg.2

/-- The exit of a thread before others of its group leaves the group untracked. -/
theorem Inv.not_tracked_step (hi : s.Inv) (hr : a.reserved) (hlast : ¬s.ExitsLast a) :
    ¬(s.step d a).Tracked := by
  intro ht
  unfold ExitsLast at hlast
  push Not at hlast
  obtain ⟨τ, hact, hrec, halive⟩ := hlast
  have hev : a.event.type = .exit := by simp [KernelStep.event, hact, Bpf.handleExit]
  have hpid : a.event.pid = τ.tgid := by simp [KernelStep.event, hact, Bpf.handleExit]
  have hget := ht τ.tgid (by simp only [Host.step, hact, if_pos halive]; exact hrec)
    (by simp only [Host.step, hact]; exact halive)
  rw [isSome_get_iff] at hget
  simp only [Host.step, hact] at hget
  exact hget (by rw [hi.deliver_exit hev hr, if_pos hpid.symm])

end Host

open Host

/-- In a run, every recorded thread group is tracked in all the states iff no
    thread of such a group exits before the other threads of the group. -/
theorem tracked_iff {d : DaemonConfig} {h : List (Host × KernelStep)} {s : Host}
    (hr : Run d h s) :
    (s.Tracked ∧ ∀ x ∈ h, x.1.Tracked) ↔ ∀ x ∈ h, x.1.ExitsLast x.2 := by
  induction hr with
  | start tasks =>
    refine iff_of_true ⟨fun g hg => absurd hg (Finset.notMem_empty g), ?_⟩ ?_ <;>
      exact fun x hx => absurd hx List.not_mem_nil
  | @step h s a hrun ha hres _ ih =>
    rw [List.forall_mem_cons, List.forall_mem_cons, ← ih]
    constructor
    · rintro ⟨hnext, hs, hh⟩
      refine ⟨?_, hs, hh⟩
      by_contra hlast
      exact hrun.inv.not_tracked_step hres hlast hnext
    · exact fun ⟨hlast, hs, hh⟩ => ⟨hrun.inv.tracked_step hres hs hlast, hs, hh⟩

/-! ### A process with two threads -/

/-- What the steps below meet in the system. -/
def kernelStep (action : KernelAction) : KernelStep :=
  ⟨action, ⟨1, 0, "sleep".toList⟩, true, ⟨none, none, true⟩, true⟩

/-- The process 100 running, with one thread. -/
def alone : Host := Host.start {⟨100, 100⟩}

/-- After the exec of the process. -/
def executed : Host := alone.step sleepProtected (kernelStep (.exec ⟨100, 100⟩))

/-- After the creation of a second thread, 101. -/
def threaded : Host := executed.step sleepProtected (kernelStep (.clone ⟨100, 100⟩ ⟨101, 100⟩))

/-- A process that executes a program. -/
theorem run_executed :
    Run sleepProtected [(alone, kernelStep (.exec ⟨100, 100⟩))] executed :=
  .step _ (.start _) (by decide) rfl (by decide +kernel)

/-- The process then creates a thread. -/
theorem run_threaded :
    Run sleepProtected [(executed, kernelStep (.clone ⟨100, 100⟩ ⟨101, 100⟩)),
      (alone, kernelStep (.exec ⟨100, 100⟩))] threaded :=
  .step _ run_executed ⟨by decide, by decide, rfl⟩ rfl (by decide +kernel)

/-- After the fork of a child, 102, its exec, and its exit, in turn. -/
def childForked : Host := threaded.step sleepProtected (kernelStep (.fork ⟨101, 100⟩ ⟨102, 102⟩))

def childExecuted : Host := childForked.step sleepProtected (kernelStep (.exec ⟨102, 102⟩))

def childExited : Host := childExecuted.step sleepProtected (kernelStep (.exit ⟨102, 102⟩))

/-- The steps to the exit of the child, with the states before them. -/
def childSteps : List (Host × KernelStep) :=
  [(childExecuted, kernelStep (.exit ⟨102, 102⟩)), (childForked, kernelStep (.exec ⟨102, 102⟩)),
    (threaded, kernelStep (.fork ⟨101, 100⟩ ⟨102, 102⟩)),
    (executed, kernelStep (.clone ⟨100, 100⟩ ⟨101, 100⟩)), (alone, kernelStep (.exec ⟨100, 100⟩))]

theorem run_childExited : Run sleepProtected childSteps childExited :=
  .step _ (.step _ (.step _ run_threaded ⟨by decide, by decide, rfl⟩ rfl (by decide +kernel))
    (by decide) rfl (by decide +kernel)) (by decide) rfl (by decide +kernel)

/-- The only exit is that of the one thread of the child: the process 100, with its two threads,
    is tracked all the time, and the child until it exits. -/
theorem tracked_child_exited : childExited.Tracked ∧ ∀ x ∈ childSteps, x.1.Tracked := by
  refine (tracked_iff run_childExited).2 ?_
  simp only [childSteps, List.forall_mem_cons]
  refine ⟨?_, ?_, ?_, ?_, ?_, fun x hx => absurd hx List.not_mem_nil⟩
  · rintro τ hτ -
    obtain rfl := KernelAction.exit.inj hτ
    decide +kernel
  all_goals exact fun τ hτ => nomatch hτ

/-- After the exit of the thread. -/
def threadExited : Host := threaded.step sleepProtected (kernelStep (.exit ⟨101, 100⟩))

/-- The exit of the second thread removes the record of the process, whose first
    thread is still running. -/
theorem thread_exit_untracks :
    Run sleepProtected [(threaded, kernelStep (.exit ⟨101, 100⟩)),
      (executed, kernelStep (.clone ⟨100, 100⟩ ⟨101, 100⟩)),
      (alone, kernelStep (.exec ⟨100, 100⟩))] threadExited ∧ ¬threadExited.Tracked := by
  refine ⟨.step _ run_threaded (by decide) rfl (by decide +kernel), fun h => ?_⟩
  have hget := h 100 (by decide +kernel) (by decide +kernel)
  revert hget
  decide +kernel

end CgroupResearch
