import CgroupResearch.Experiment.Supervise

/-!
# The start together

No worker is past its stop before all of them stand still, in their control groups: the
parent continues nobody until it has waited for everybody and moved those that have a group,
whose `cpu.max` it has written. And when the victim is past its stop, the others have been
continued (`Program.Starts`). So what is measured is measured under the condition.

The handler continues the workers, too, before it kills them: the result is about runs that
have not come to it.

* `Slot.Fits.placed`: a worker whose next call is not before its start has its place;
* `State.Runs.all_placed`, `State.Runs.all_continued`: the two halves of the result.
-/

namespace CgroupResearch

open ChildProcess Transition

/-- The calls come in three parts: what is done before anybody is continued, the starts, the
    last of them that of a worker `last`, and what is done after them. -/
structure Program.Starts {W : Type} (prog : Program W) (last : W) : Prop where
  parts : ∃ setup starts finish, prog.calls = setup ++ (starts ++ (last, .cont) :: finish) ∧
    (∀ call ∈ setup, call.2 ≠ .cont) ∧ (∀ call ∈ starts, call.2 = .cont) ∧
    ∀ call ∈ finish, call.2 = .waitSuccess ∨ call.2 = .readFull ∨ call.2 = .close

/-- A program that places the workers, starts them one after the other and then waits. -/
theorem Program.Starts.of_append {W : Type} {prog : Program W} {last : W}
    {setup starts finish : List (W × Call)}
    (hcalls : prog.calls = setup ++ (starts ++ (last, .cont) :: finish))
    (hsetup : ∀ call ∈ setup, call.2 ≠ .cont) (hstarts : ∀ call ∈ starts, call.2 = .cont)
    (hfinish : ∀ call ∈ finish, call.2 = .waitSuccess ∨ call.2 = .readFull ∨ call.2 = .close) :
    prog.Starts last :=
  ⟨setup, starts, finish, hcalls, hsetup, hstarts, hfinish⟩

/-- The worker is past its stop: it runs one of its loops, or has come to its end. -/
def Slot.Released (s : Slot) : Prop :=
  (∃ pc, s.child.life = .running pc ∧ pc.Released) ∨ s.child.life = .zombie (.exited 0) ∨
    s.child.life = .reaped (.exited 0)

/-- The worker has been stopped, and is in the group that it is to be in. -/
structure Slot.Placed (group : Option String) (s : Slot) : Prop where
  stopped : s.child.life ≠ .unborn ∧ s.child.life ≠ .running .pin ∧
    s.child.life ≠ .running .stop ∧ s.child.life ≠ .stopped .warmup false
  moved : s.moved = group.isSome
  cpuMax : s.cpuMax = group

/-- Nothing before its start is left to do for the worker. -/
def Ready (calls : List Call) : Prop :=
  ∀ call ∈ calls, call = .cont ∨ call = .waitSuccess ∨ call = .readFull ∨ call = .close

/-- A worker whose next call is not before its start has its place. -/
theorem Slot.Fits.placed {group : Option String} {calls : List Call} {s : Slot}
    (h : s.Fits group calls) (hready : Ready calls) : s.Placed group := by
  refine ⟨?_, h.moved fun hmem => ?_, h.cpuMax fun text hmem => ?_⟩
  · have hlife := h.life
    rcases calls with _ | ⟨call, calls⟩
    · simp [show s.child.life = _ from hlife]
    rcases hready call List.mem_cons_self with rfl | rfl | rfl | rfl
    · rcases hlife with hl | ⟨_, hl, _⟩ <;> simp [hl]
    · rcases hlife with ⟨pc, hl, hpc⟩ | ⟨_, hl⟩
      · simp [hl, hpc.1, hpc.2]
      · simp [hl]
    · simp [show s.child.life = _ from hlife]
    · simp [show s.child.life = _ from hlife]
  · simpa using hready _ hmem
  · simpa using hready _ hmem

/-- A worker that is past its stop has been continued. -/
theorem Slot.Fits.cont_not_mem {group : Option String} {calls : List Call} {s : Slot}
    (h : s.Fits group calls) (hreleased : s.Released) : .cont ∉ calls := by
  have hlife := h.life
  rcases calls with _ | ⟨call, calls⟩
  · simp
  rcases suffix_lifecycle h.suffix with ⟨text, _, rfl, _⟩ | ⟨rfl, _⟩ | ⟨rfl, _⟩ | ⟨_, rfl, _⟩ |
    ⟨rfl, _⟩ | ⟨rfl, rfl⟩ | ⟨rfl, rfl⟩ | ⟨rfl, rfl⟩
  · simp [Slot.Released, show s.child.life = _ from hlife] at hreleased
  · simp [Slot.Released, show s.child.life = _ from hlife] at hreleased
  · rcases hlife with hl | hl | hl | ⟨_, hl, hstatus⟩
    · simp [Slot.Released, hl, Pc.Released] at hreleased
    · simp [Slot.Released, hl, Pc.Released] at hreleased
    · simp [Slot.Released, hl] at hreleased
    · simp [Slot.Released, hl, hstatus] at hreleased
  · rcases hlife with hl | ⟨_, hl, hstatus⟩
    · simp [Slot.Released, hl] at hreleased
    · simp [Slot.Released, hl, hstatus] at hreleased
  · rcases hlife with hl | ⟨_, hl, hstatus⟩
    · simp [Slot.Released, hl] at hreleased
    · simp [Slot.Released, hl, hstatus] at hreleased
  · simp
  · simp
  · simp

/-- A worker that has been continued does not stand still. -/
theorem Slot.Fits.not_stopped {group : Option String} {calls : List Call} {s : Slot}
    (h : s.Fits group calls) (hcont : .cont ∉ calls) (pc : Pc) (reported : Bool) :
    s.child.life ≠ .stopped pc reported := by
  have hlife := h.life
  rcases calls with _ | ⟨call, calls⟩
  · simp [show s.child.life = _ from hlife]
  rcases suffix_lifecycle h.suffix with ⟨text, _, rfl, rfl⟩ | ⟨rfl, rfl⟩ | ⟨rfl, rfl⟩ |
    ⟨_, rfl, rfl⟩ | ⟨rfl, rfl⟩ | ⟨rfl, rfl⟩ | ⟨rfl, rfl⟩ | ⟨rfl, rfl⟩
  · simp at hcont
  · simp at hcont
  · simp at hcont
  · simp at hcont
  · simp at hcont
  · rcases hlife with ⟨_, hl, _⟩ | ⟨_, hl⟩ <;> simp [hl]
  · simp [show s.child.life = _ from hlife]
  · simp [show s.child.life = _ from hlife]

/-- What is left of a list without one of its elements is left of what is behind it. -/
theorem suffix_of_not_mem {α : Type} {a : α} {l xs ys : List α} (h : l <:+ xs ++ a :: ys)
    (ha : a ∉ l) : l <:+ ys := by
  induction xs with
  | nil =>
    rcases List.suffix_cons_iff.1 h with rfl | h
    · exact absurd List.mem_cons_self ha
    · exact h
  | cons x xs ih =>
    rcases List.suffix_cons_iff.1 h with rfl | h
    · exact absurd (by simp) ha
    · exact ih h

section Run

variable {W : Type} [DecidableEq W] {prog : Program W} {roster : W → Option (Option String)}
  {last : W}

/-- A worker that is past its stop is not to be continued any more. -/
theorem State.Runs.not_mem {s : State W} {w : W} {rest : List (W × Call)}
    (hplays : ∀ w, (s.slot w).Plays (roster w) (about w rest)) (hw : (s.slot w).Released) :
    (∃ group, roster w = some group) ∧ (w, .cont) ∉ rest := by
  have hpart := hplays w
  cases hr : roster w with
  | none =>
    rw [hr] at hpart
    rw [hpart.1] at hw
    simp [Slot.Released, Slot.unborn, Child.unborn] at hw
  | some group =>
    rw [hr] at hpart
    exact ⟨⟨group, rfl⟩, fun hmem => Slot.Fits.cont_not_mem hpart hw (mem_about.2 hmem)⟩

/-- When some worker is past its stop, all have their places. -/
theorem State.Runs.all_placed (hprog : prog.Supervises roster) (hstarts : prog.Starts last)
    {s : State W} (h : s.Runs prog roster) {w v : W} (hw : (s.slot w).Released)
    {group : Option String} (hv : roster v = some group) : (s.slot v).Placed group := by
  obtain ⟨setup, starts, finish, hcalls, hsetup, hstarts, hfinish⟩ := hstarts.parts
  obtain ⟨rest, _, hsuffix, hplays⟩ := h
  obtain ⟨⟨group', hroster⟩, hnot⟩ := State.Runs.not_mem hplays hw
  -- The worker is continued in the second part, and what is left is behind that.
  have hmem : (w, .cont) ∈ starts ++ (last, .cont) :: finish := by
    have hmem : (w, .cont) ∈ prog.calls := by
      rw [← mem_about, hprog.calls, hroster]
      cases group' <;> simp [lifecycle]
    rw [hcalls, List.mem_append] at hmem
    exact hmem.resolve_left fun hmem => hsetup _ hmem rfl
  obtain ⟨as, bs, heq⟩ := List.append_of_mem hmem
  have hrest : rest <:+ bs := by
    rw [hcalls, heq, ← List.append_assoc] at hsuffix
    exact suffix_of_not_mem hsuffix hnot
  have hready : Ready (about v rest) := by
    intro call hcall
    have hmem : (v, call) ∈ starts ++ (last, .cont) :: finish := by
      rw [heq]
      have := hrest.subset (mem_about.1 hcall)
      simp [this]
    rcases List.mem_append.1 hmem with hmem | hmem
    · exact .inl (hstarts _ hmem)
    rcases List.mem_cons.1 hmem with hmem | hmem
    · exact .inl (by simpa using congrArg Prod.snd hmem)
    · exact .inr (hfinish _ hmem)
  have hpart := hplays v
  rw [hv] at hpart
  exact Slot.Fits.placed hpart hready

/-- When the last worker is past its stop, nobody stands still. -/
theorem State.Runs.all_continued (hstarts : prog.Starts last) {s : State W}
    (h : s.Runs prog roster) (hlast : (s.slot last).Released) (v : W) (pc : Pc)
    (reported : Bool) : (s.slot v).child.life ≠ .stopped pc reported := by
  obtain ⟨setup, starts, finish, hcalls, _, _, hfinish⟩ := hstarts.parts
  obtain ⟨rest, _, hsuffix, hplays⟩ := h
  have hnot := (State.Runs.not_mem hplays hlast).2
  have hrest : rest <:+ finish := by
    rw [hcalls, ← List.append_assoc] at hsuffix
    exact suffix_of_not_mem hsuffix hnot
  have hpart := hplays v
  cases hr : roster v with
  | none =>
    rw [hr] at hpart
    rw [hpart.1]
    simp [Slot.unborn, Child.unborn]
  | some group =>
    rw [hr] at hpart
    refine Slot.Fits.not_stopped hpart (fun hmem => ?_) pc reported
    simpa using hfinish _ (hrest.subset (mem_about.1 hmem))

end Run

end CgroupResearch
