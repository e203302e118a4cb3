import Mathlib.Tactic.Common

/-!
# Child processes

A child process as its parent sees it, with what the kernel keeps of it. Its program is
left open: `P` are the places where it can be. A child that ends stays as a zombie until
its parent collects its status with `waitpid`, after which its process id may be given to
another process: a signal that is sent to it then is a *stray* one, and they are counted.

A child that stops itself is reported once to a parent that waits for that, and stays where
it is until `SIGCONT`, which is lost on a child that does not stand still. `SIGKILL` ends a
child whether it runs or is stopped, some time after it was sent: until then it is pending.

* `waitpid_eq_some`: what `waitpid` has found when it returns;
* `waitpid_eq_none_iff`: when it blocks;
* `waitpidNohang_cases`: what it says with `WNOHANG`.
-/

namespace ChildProcess

/-- How a child ended, as `waitpid` reports it. -/
inductive Status
  | exited (code : ℕ)
  | signaled (signal : ℕ)
  deriving DecidableEq, Repr

/-- The life of a child whose program has the places `P`. A stop may have been reported. -/
inductive Life (P : Type)
  | unborn
  | running (pc : P)
  | stopped (pc : P) (reported : Bool)
  | zombie (status : Status)
  | reaped (status : Status)
  deriving DecidableEq, Repr

variable {P : Type}

/-- The child runs or is stopped. -/
def Life.alive : Life P → Bool
  | .running _ | .stopped _ _ => true
  | _ => false

/-- The child lives, or its parent has to collect it. -/
def Life.uncollected : Life P → Bool
  | .running _ | .stopped _ _ | .zombie _ => true
  | _ => false

/-- Its parent has collected it. -/
def Life.isReaped : Life P → Bool
  | .reaped _ => true
  | _ => false

theorem Life.isReaped_iff {life : Life P} : life.isReaped ↔ ∃ status, life = .reaped status := by
  cases life <;> simp [Life.isReaped]

/-- A child with its pending `SIGKILL` and the number of stray signals. -/
structure Child (P : Type) where
  life : Life P
  killed : Bool
  strays : ℕ

/-- A process id that is not in use yet. -/
def Child.unborn : Child P := ⟨.unborn, false, 0⟩

/-- `kill(pid, SIGCONT)`. -/
def Child.sigcont (c : Child P) : Child P :=
  match c.life with
  | .stopped pc _ => { c with life := .running pc }
  | .reaped _ => { c with strays := c.strays + 1 }
  | _ => c

/-- `kill(pid, SIGTERM)`, which the program of the child can take or leave. -/
def Child.sigterm (c : Child P) : Child P :=
  match c.life with
  | .reaped _ => { c with strays := c.strays + 1 }
  | _ => c

/-- `kill(pid, SIGKILL)`. -/
def Child.sigkill (c : Child P) : Child P :=
  match c.life with
  | .running _ | .stopped _ _ => { c with killed := true }
  | .reaped _ => { c with strays := c.strays + 1 }
  | _ => c

@[simp] theorem Child.sigterm_life (c : Child P) : c.sigterm.life = c.life := by
  unfold Child.sigterm
  split <;> rfl

@[simp] theorem Child.sigkill_life (c : Child P) : c.sigkill.life = c.life := by
  unfold Child.sigkill
  split <;> rfl

/-- What `waitpid` returns: `noChild` is `ECHILD`. -/
inductive Wait
  | stopped
  | ended (status : Status)
  | noChild
  deriving DecidableEq, Repr

/-- `waitpid` without `WNOHANG`: it blocks on a child that has nothing to report. A stop is
    reported with `WUNTRACED` only. -/
def Child.waitpid (untraced : Bool) (c : Child P) : Option (Wait × Child P) :=
  match c.life with
  | .zombie status => some (.ended status, { c with life := .reaped status })
  | .stopped pc false =>
    if untraced then some (.stopped, { c with life := .stopped pc true }) else none
  | .running _ | .stopped _ true => none
  | .unborn | .reaped _ => some (.noChild, c)

/-- `waitpid` with `WNOHANG`, which says nothing where it would block. -/
def Child.waitpidNohang (c : Child P) : Option Wait × Child P :=
  match c.waitpid false with
  | some (w, c) => (some w, c)
  | none => (none, c)

/-- A `waitpid` that returns has collected the child, or seen its stop, or found none. -/
theorem Child.waitpid_eq_some {untraced : Bool} {c c' : Child P} {w : Wait}
    (h : c.waitpid untraced = some (w, c')) :
    (∃ status, c.life = .zombie status ∧ w = .ended status ∧
      c' = { c with life := .reaped status }) ∨
    (untraced ∧ ∃ pc, c.life = .stopped pc false ∧ w = .stopped ∧
      c' = { c with life := .stopped pc true }) ∨
    ((c.life = .unborn ∨ ∃ status, c.life = .reaped status) ∧ w = .noChild ∧ c' = c) := by
  rw [Child.waitpid] at h
  split at h
  · next status hlife =>
    obtain ⟨rfl, rfl⟩ := by simpa using h
    exact .inl ⟨status, hlife, rfl, rfl⟩
  · next pc hlife =>
    cases untraced with
    | false => simp at h
    | true =>
      obtain ⟨rfl, rfl⟩ := by simpa using h
      exact .inr (.inl ⟨rfl, pc, hlife, rfl, rfl⟩)
  · simp at h
  · simp at h
  · next hlife =>
    obtain ⟨rfl, rfl⟩ := by simpa using h
    exact .inr (.inr ⟨.inl hlife, rfl, rfl⟩)
  · next status hlife =>
    obtain ⟨rfl, rfl⟩ := by simpa using h
    exact .inr (.inr ⟨.inr ⟨status, hlife⟩, rfl, rfl⟩)

/-- `waitpid` blocks on a child that lives, and has no stop to report where one is waited for. -/
theorem Child.waitpid_eq_none_iff {untraced : Bool} {c : Child P} :
    c.waitpid untraced = none ↔
      c.life.alive ∧ ¬(untraced ∧ ∃ pc, c.life = .stopped pc false) := by
  rw [Child.waitpid]
  cases c.life with
  | stopped pc reported => cases reported <;> cases untraced <;> simp [Life.alive]
  | _ => simp [Life.alive]

/-- What a child is told to be by `waitpid` with `WNOHANG`: it is collected, or it lives, or
    there is none. -/
theorem Child.waitpidNohang_cases (c : Child P) :
    (∃ status, c.life = .zombie status ∧
      c.waitpidNohang = (some (.ended status), { c with life := .reaped status })) ∨
    (c.life.alive ∧ c.waitpidNohang = (none, c)) ∨
    ((c.life = .unborn ∨ ∃ status, c.life = .reaped status) ∧
      c.waitpidNohang = (some .noChild, c)) := by
  rw [Child.waitpidNohang]
  cases hwait : c.waitpid false with
  | none => exact .inr (.inl ⟨(Child.waitpid_eq_none_iff.1 hwait).1, rfl⟩)
  | some found =>
    rcases Child.waitpid_eq_some hwait with ⟨status, hlife, hw, hc⟩ | ⟨h, _⟩ | ⟨hlife, hw, hc⟩
    · exact .inl ⟨status, hlife, by rw [← hw, ← hc]⟩
    · cases h
    · exact .inr (.inr ⟨hlife, by rw [← hw, ← hc]⟩)

end ChildProcess
