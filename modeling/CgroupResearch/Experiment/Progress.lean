import CgroupResearch.Experiment.Supervise
import Mathlib

/-!
# Runs end

Every step lowers a measure (`State.weight`): a run has only so many steps, whatever happens.
And until the parent has returned, the parent or a worker can always go on without a failure:
a parent that waits never waits for a worker that stands still. So `run_condition` returns;
and it returns 0 where nothing fails.

* `length_le_weight`: a run has at most as many steps as the program weighs;
* `exists_own_step`: there is no deadlock;
* `returns_zero_of_faultless`: without a failure the parent does not come to its handler.
-/

namespace CgroupResearch

open ChildProcess Transition

/-! ## The measure -/

/-- The steps that a worker has left. -/
def Pc.weight : Pc → ℕ
  | .pin => 33
  | .stop => 32
  | .warmup => 30
  | .measure => 29
  | .write sent => 2 + (sizeofWorkerResult - sent)
  | .exit => 1

/-- The steps that a worker has left in its life. -/
def lifeWeight : Life Pc → ℕ
  | .running pc => pc.weight
  | .stopped pc _ => pc.weight + 1
  | _ => 0

/-- The steps that a worker has left, and the bytes that are not read. -/
def Slot.weight (s : Slot) : ℕ := lifeWeight s.child.life + (sizeofWorkerResult - s.out.length)

/-- A call, with the steps of the worker that it may give birth to. -/
def Call.weight : Call → ℕ
  | .spawn => 1 + Pc.pin.weight
  | _ => 1

/-- What the parent has left. -/
def Phase.weight {W : Type} (prog : Program W) : Phase W → ℕ
  | .run rest => (rest.map fun call => call.2.weight).sum + prog.handler.length + 2
  | .fail rest => rest.length + 1
  | .done _ => 0

/-- SIGCONT makes no worker heavier. -/
theorem sigcont_weight (c : Child Pc) : lifeWeight c.sigcont.life ≤ lifeWeight c.life := by
  unfold Child.sigcont
  cases hlife : c.life <;> simp [lifeWeight, hlife]

/-- Nor does `waitpid`. -/
theorem waitpid_weight {untraced : Bool} {c c' : Child Pc} {w : Wait}
    (h : c.waitpid untraced = some (w, c')) : lifeWeight c'.life ≤ lifeWeight c.life := by
  rcases Child.waitpid_eq_some h with ⟨_, _, _, rfl⟩ | ⟨_, pc, hlife, _, rfl⟩ | ⟨_, _, rfl⟩
  · exact Nat.zero_le _
  · rw [hlife]
    exact le_rfl
  · exact le_rfl

theorem Slot.weight_le {s s' : Slot} (hlife : lifeWeight s'.child.life ≤ lifeWeight s.child.life)
    (hout : s'.out = s.out) : s'.weight ≤ s.weight := by
  unfold Slot.weight
  rw [hout]
  omega

/-- A call adds no more to a worker than it weighs. -/
theorem Call.exec_weight {call : Call} {ok success : Bool} {s s' : Slot}
    (h : call.exec ok s = some (success, s')) : s'.weight + 1 ≤ s.weight + call.weight := by
  unfold Call.exec at h
  cases call with
  | spawn =>
    obtain ⟨_, rfl⟩ := by simpa using h
    cases ok
    · simp [Call.weight]
    · simp only [if_true, Slot.weight, lifeWeight, Call.weight, Slot.live_life]
      omega
  | setCpuMax text | movePid =>
    obtain ⟨_, rfl⟩ := by simpa using h
    exact Nat.succ_le_succ (Slot.weight_le (by split <;> rfl) (by split <;> rfl))
  | waitUntilStopped =>
    obtain ⟨⟨w, child⟩, hwait, heq⟩ := Option.map_eq_some_iff.1 h
    obtain ⟨_, rfl⟩ := by simpa using heq
    exact Nat.succ_le_succ (Slot.weight_le (waitpid_weight hwait) rfl)
  | waitSuccess =>
    obtain ⟨⟨w, child⟩, hwait, heq⟩ := Option.map_eq_some_iff.1 h
    dsimp only at heq
    split at heq <;> obtain ⟨_, rfl⟩ := by simpa using heq
    · exact Nat.succ_le_succ (Slot.weight_le (waitpid_weight hwait) rfl)
    · exact Nat.succ_le_succ (Slot.weight_le (waitpid_weight hwait) rfl)
  | cont =>
    obtain ⟨_, rfl⟩ := by simpa using h
    exact Nat.succ_le_succ (Slot.weight_le (sigcont_weight _) rfl)
  | readFull =>
    dsimp only at h
    split at h
    · simp at h
    · obtain ⟨_, rfl⟩ := by simpa using h
      exact le_rfl
  | close =>
    obtain ⟨_, rfl⟩ := by simpa using h
    exact le_rfl

/-- Nor does a line of the handler. -/
theorem Cleanup.exec_weight {line : Cleanup} {s s' : Slot} (h : line.exec s = some s') :
    s'.weight ≤ s.weight := by
  unfold Cleanup.exec at h
  cases line with
  | wait =>
    dsimp only at h
    split at h
    · obtain ⟨⟨w, child⟩, hwait, rfl⟩ := Option.map_eq_some_iff.1 h
      exact Slot.weight_le (waitpid_weight hwait) rfl
    · exact (Option.some.inj h) ▸ le_rfl
  | cont =>
    obtain rfl : _ = s' := Option.some.inj h
    split
    · exact Slot.weight_le (sigcont_weight _) rfl
    · exact le_rfl
  | kill =>
    obtain rfl : _ = s' := Option.some.inj h
    split
    · exact Slot.weight_le (by rw [Child.sigkill_life]) rfl
    · exact le_rfl
  | close =>
    obtain rfl : _ = s' := Option.some.inj h
    split <;> exact le_rfl

theorem lifeWeight_pos {life : Life Pc} (h : life.alive) : 0 < lifeWeight life := by
  cases life with
  | running pc => cases pc <;> simp [lifeWeight, Pc.weight]
  | stopped pc reported => simp [lifeWeight]
  | _ => simp [Life.alive] at h

/-- An act of a worker makes its slot lighter. -/
theorem Slot.act_weight {base : ℕ} {act : Act} {s s' : Slot} (h : s.act base act = some s') :
    s'.weight < s.weight := by
  rcases Slot.act_eq_some h with ⟨life, rfl, ⟨hlife, rfl⟩ | ⟨hlife, rfl⟩ | ⟨hlife, rfl⟩ |
    ⟨hlife, rfl⟩ | ⟨halive, status, rfl, _⟩⟩ | ⟨_, _, hlife, _, rfl⟩ |
    ⟨sent, bytes, hlife, hpos, hle, rfl⟩
  · simp [Slot.weight, hlife, lifeWeight, Pc.weight]
  · simp [Slot.weight, hlife, lifeWeight, Pc.weight]
  · simp [Slot.weight, hlife, lifeWeight, Pc.weight]
  · simp [Slot.weight, hlife, lifeWeight, Pc.weight]
  · have hpos := lifeWeight_pos halive
    simp only [Slot.weight, Slot.live_life, Slot.live_out]
    simp only [lifeWeight] at hpos ⊢
    omega
  · simp [Slot.weight, hlife, lifeWeight, Pc.weight, sizeofWorkerResult]
  · simp only [Slot.weight, hlife, lifeWeight, Slot.live_life, Slot.live_out]
    split
    · simp only [Pc.weight]
      omega
    · simp only [Pc.weight]
      omega

/-- Reading from the pipe makes a slot lighter. -/
theorem Slot.read_weight {s s' : Slot} {bytes : ℕ} (h : s.read bytes = some s') :
    s'.weight < s.weight := by
  obtain ⟨hpos, hlen, hle, out, pipe, _, rfl⟩ := Slot.read_eq_some h
  unfold Slot.weight
  dsimp only at hlen hle ⊢
  omega

section Run

variable {W : Type} [DecidableEq W] [Fintype W] {prog : Program W}
  {roster : W → Option (Option String)}

/-- What is left to do. -/
def State.weight (prog : Program W) (s : State W) : ℕ :=
  s.phase.weight prog + ∑ w, (s.slot w).weight

/-- The weight of a state whose place and one slot have changed. -/
theorem State.weight_set (prog : Program W) (s : State W) (phase : Phase W) (w : W)
    (slot : Slot) :
    (s.set phase w slot).weight prog + (s.slot w).weight + s.phase.weight prog =
      s.weight prog + slot.weight + phase.weight prog := by
  have hset : (fun v => ((s.set phase w slot).slot v).weight) =
      Function.update (fun v => (s.slot v).weight) w slot.weight := by
    funext v
    by_cases hv : v = w
    · subst hv
      simp [State.set]
    · simp [State.set, hv]
  have hsum := Finset.sum_update_of_mem (Finset.mem_univ w) (fun v => (s.slot v).weight)
    slot.weight
  have hold := Finset.add_sum_erase _ (fun v => (s.slot v).weight) (Finset.mem_univ w)
  rw [Finset.sdiff_singleton_eq_erase] at hsum
  simp only [State.weight, hset, hsum]
  simp only [State.set]
  omega

/-- Every step lowers the measure. -/
theorem step_weight {s s' : State W} {e : RunEvent W} (h : experimentStep prog s e = some s') :
    s'.weight prog < s.weight prog := by
  unfold experimentStep at h
  cases e with
  | call ok =>
    dsimp only at h
    split at h
    · next hphase =>
      obtain rfl := by simpa using h
      simp only [State.weight, hphase, Phase.weight]
      omega
    · next w call rest hphase =>
      obtain ⟨⟨success, slot⟩, hexec, rfl⟩ := Option.map_eq_some_iff.1 h
      have hset := State.weight_set prog s (if success then .run rest else .fail prog.handler) w
        slot
      have hweight := Call.exec_weight hexec
      rw [hphase] at hset
      simp only [Phase.weight, List.map_cons, List.sum_cons] at hset
      cases success
      · simp only [Bool.false_eq_true, if_false] at hset ⊢
        omega
      · simp only [if_true] at hset ⊢
        omega
    · next hphase =>
      obtain rfl := by simpa using h
      simp only [State.weight, hphase, Phase.weight]
      omega
    · next w line rest hphase =>
      obtain ⟨slot, hexec, rfl⟩ := Option.map_eq_some_iff.1 h
      have hset := State.weight_set prog s (.fail rest) w slot
      have hweight := Cleanup.exec_weight hexec
      rw [hphase] at hset
      simp only [Phase.weight, List.length_cons] at hset
      omega
    · simp at h
  | read bytes =>
    dsimp only at h
    split at h
    · next w rest hphase =>
      obtain ⟨slot, hread, rfl⟩ := Option.map_eq_some_iff.1 h
      have hweight := Slot.read_weight hread
      split
      · have hset := State.weight_set prog s (.run rest) w slot
        rw [hphase] at hset
        simp only [Phase.weight, List.map_cons, List.sum_cons] at hset
        omega
      · have hset := State.weight_set prog s s.phase w slot
        omega
    · simp at h
  | child w act =>
    obtain ⟨slot, hact, rfl⟩ := Option.map_eq_some_iff.1 h
    have hset := State.weight_set prog s s.phase w slot
    have hweight := Slot.act_weight hact
    omega

/-- A run has no more steps than its program weighs. -/
theorem length_le_weight {s : State W} {es : List (RunEvent W)}
    (hrun : run (experimentStep prog) (State.init prog) es = some s) :
    es.length ≤ (State.init prog).weight prog := by
  have h := length_le_of_decreases (fun _ => True) (State.weight prog)
    (fun _ _ _ _ hstep => ⟨trivial, step_weight hstep⟩) trivial hrun
  omega

end Run

/-! ## No deadlock -/

section Own

variable {W : Type}

/-- Nothing fails in the event, and nobody is killed. -/
def RunEvent.Faultless : RunEvent W → Prop
  | .call ok | .child _ (.work ok) => ok = true
  | .child _ (.killed _) => False
  | _ => True

/-- The event needs no failure: a worker dies of the parent's own `SIGKILL` only. -/
def RunEvent.Own (s : State W) : RunEvent W → Prop
  | .child w (.killed signal) => signal = 9 ∧ (s.slot w).child.killed
  | e => e.Faultless

theorem RunEvent.Faultless.own {e : RunEvent W} (h : e.Faultless) (s : State W) : e.Own s := by
  rcases e with ok | bytes | ⟨w, act⟩
  · exact h
  · trivial
  · cases act with
    | killed signal => exact h.elim
    | _ => exact h

/-- A worker that runs goes on. -/
theorem Slot.exists_act {s : Slot} {pc : Pc} (hlife : s.child.life = .running pc)
    (hwritten : s.Written) (base : ℕ) (w : W) :
    ∃ act s', (RunEvent.child w act).Faultless ∧ s.act base act = some s' := by
  cases pc with
  | measure =>
    refine ⟨.measured (List.replicate sizeofWorkerResult 0), ?_⟩
    simp [Slot.act, hlife, RunEvent.Faultless]
  | write sent =>
    rw [Slot.Written, hlife] at hwritten
    have hbytes : 0 < sizeofWorkerResult - sent ∧
        sent + (sizeofWorkerResult - sent) ≤ sizeofWorkerResult := by omega
    refine ⟨.send (sizeofWorkerResult - sent), ?_⟩
    simp only [Slot.act, hlife, if_pos hbytes]
    exact ⟨_, trivial, rfl⟩
  | _ => exact ⟨.work true, by simp [Slot.act, hlife, RunEvent.Faultless]⟩

/-- What is not read of a result is in the pipe. -/
theorem Slot.Fits.pipe_pos {group : Option String} {calls : List Call} {s : Slot}
    (h : s.Fits group (.readFull :: calls)) : 0 < s.pipe.length := by
  have hreaped : s.child.life = .reaped (.exited 0) := h.life
  have hunread : s.out.length < sizeofWorkerResult := h.out
  obtain ⟨hlen, happend⟩ : s.Complete := by
    have hwritten := h.written
    rw [Slot.Written, hreaped] at hwritten
    exact hwritten rfl
  have := congrArg List.length happend
  rw [List.length_append] at this
  omega

/-- A worker that fits the parent's next call lets it, or goes on itself. -/
theorem Slot.Fits.progress {group : Option String} {call : Call} {calls : List Call} {s : Slot}
    (h : s.Fits group (call :: calls)) (base : ℕ) (w : W) :
    (∃ r, call.exec true s = some r) ∨ (call = .readFull ∧ ∃ s', s.read 1 = some s') ∨
      ∃ act s', (RunEvent.child w act).Faultless ∧ s.act base act = some s' := by
  have hlife := h.life
  cases call with
  | setCpuMax text | spawn | movePid | cont | close => exact .inl ⟨_, rfl⟩
  | waitUntilStopped =>
    rcases hlife with hpin | hstop | hstopped | ⟨status, hzombie, _⟩
    · exact .inr (.inr (Slot.exists_act hpin h.written base w))
    · exact .inr (.inr (Slot.exists_act hstop h.written base w))
    · exact .inl (by simp [Call.exec, Child.waitpid, hstopped])
    · exact .inl (by simp [Call.exec, Child.waitpid, hzombie])
  | waitSuccess =>
    rcases hlife with ⟨pc, hpc, _⟩ | ⟨status, hzombie⟩
    · exact .inr (.inr (Slot.exists_act hpc h.written base w))
    · exact .inl (by simp [Call.exec, Child.waitpid, hzombie])
  | readFull =>
    have hpipe := h.pipe_pos
    have hunread : s.out.length < sizeofWorkerResult := h.out
    have hbytes : 0 < 1 ∧ 1 ≤ s.pipe.length ∧ s.out.length + 1 ≤ sizeofWorkerResult := by omega
    exact .inr (.inl ⟨rfl, _, if_pos hbytes⟩)

variable [DecidableEq W] {prog : Program W} {roster : W → Option (Option String)}

/-- While the parent goes through its calls, somebody can go on without a failure. -/
theorem State.Runs.progress {s : State W} (h : s.Runs prog roster)
    (hdone : ∀ rc, s.phase ≠ .done rc) :
    ∃ e s', RunEvent.Faultless e ∧ experimentStep prog s e = some s' := by
  obtain ⟨rest, hphase | ⟨hphase, _⟩, _, hplays⟩ := h
  · rcases rest with _ | ⟨⟨w, call⟩, rest⟩
    · exact ⟨.call true, by simp [experimentStep, hphase, RunEvent.Faultless]⟩
    · have hw := hplays w
      rw [about_cons_self] at hw
      obtain ⟨group, _, hfits⟩ := hw.fits
      rcases hfits.progress (prog.exitBase w) w with ⟨r, hexec⟩ | ⟨rfl, s', hread⟩ |
        ⟨act, s', hact, hs'⟩
      · exact ⟨.call true, _, rfl, by simp only [experimentStep, hphase, hexec]; rfl⟩
      · exact ⟨.read 1, _, trivial, by simp only [experimentStep, hphase, hread]; rfl⟩
      · exact ⟨.child w act, _, hact, by simp only [experimentStep, hs']; rfl⟩
  · exact absurd hphase (hdone 0)

/-- A line of the handler can be done, or its worker dies of the `SIGKILL`. -/
theorem Slot.Cleans.progress {stray : Bool} {line : Cleanup} {lines : List Cleanup} {s : Slot}
    (h : s.Cleans stray (line :: lines)) (base : ℕ) :
    (∃ s', line.exec s = some s') ∨
      s.child.killed ∧ ∃ s', s.act base (.killed 9) = some s' := by
  cases line with
  | wait =>
    by_cases hpid : s.pid = true
    · cases hwait : s.child.waitpid false with
      | some r => exact .inl (by simp [Cleanup.exec, hpid, hwait])
      | none =>
        have halive := (Child.waitpid_eq_none_iff.1 hwait).1
        have hlines : lines = [.close] := by
          simpa [cleanup, List.suffix_cons_iff] using h.suffix
        exact .inr ⟨h.killed (by simp [hlines]) hpid halive, _, if_pos halive⟩
    · exact .inl (by simp [Cleanup.exec, hpid])
  | _ => exact .inl ⟨_, rfl⟩

/-- **No deadlock.** Until the parent has returned, somebody can go on, and needs no failure
    to do so. -/
theorem exists_own_step (hprog : prog.Supervises roster) {s : State W} {es : List (RunEvent W)}
    (hrun : run (experimentStep prog) (State.init prog) es = some s)
    (hdone : ∀ rc, s.phase ≠ .done rc) :
    ∃ e s', RunEvent.Own s e ∧ experimentStep prog s e = some s' := by
  rcases State.holds_of_run hprog hrun with h | ⟨stray, rest, hphase | ⟨hphase, _⟩, hcleans⟩
  · obtain ⟨e, s', he, hs'⟩ := h.progress hdone
    exact ⟨e, s', he.own s, hs'⟩
  · rcases rest with _ | ⟨⟨w, line⟩, rest⟩
    · exact ⟨.call true, by simp [experimentStep, hphase, RunEvent.Own, RunEvent.Faultless]⟩
    · have hw := hcleans w
      rw [about_cons_self] at hw
      rcases hw.progress (prog.exitBase w) with ⟨slot, hexec⟩ | ⟨hkilled, slot, hact⟩
      · exact ⟨.call true, _, rfl, by simp only [experimentStep, hphase, hexec]; rfl⟩
      · exact ⟨.child w (.killed 9), _, ⟨rfl, hkilled⟩, by simp only [experimentStep, hact]; rfl⟩
  · exact absurd hphase (hdone (-1))

/-! ## Runs in which nothing fails -/

/-- The worker has not failed. -/
def Slot.Sound (s : Slot) : Prop :=
  ∀ status, s.child.life = .zombie status → status = .exited 0

omit [DecidableEq W] in
/-- Without a fault a worker does not fail. -/
theorem RunEvent.Faultless.sound {base : ℕ} {act : Act} {s s' : Slot} {w : W}
    (hfaultless : (RunEvent.child w act).Faultless) (hact : s.act base act = some s') :
    s'.Sound := by
  rcases Slot.act_eq_some hact with ⟨life, rfl, ⟨_, rfl⟩ | ⟨_, rfl⟩ | ⟨_, rfl⟩ | ⟨_, rfl⟩ |
    ⟨halive, status, rfl, hstatus⟩⟩ | ⟨_, _, _, _, rfl⟩ | ⟨_, _, _, _, _, rfl⟩
  · simp [Slot.Sound]
  · simp [Slot.Sound]
  · simp [Slot.Sound]
  · simp [Slot.Sound]
  · -- The worker has failed, or was killed.
    cases act with
    | killed signal => exact hfaultless.elim
    | work ok =>
      obtain rfl : ok = true := hfaultless
      simp only [Slot.act] at hact
      split at hact <;> simp_all [Slot.live]
    | measured result =>
      simp only [Slot.act] at hact
      split at hact <;> simp [Slot.live] at hact
    | send bytes =>
      simp only [Slot.act] at hact
      split at hact
      · split at hact <;> simp [Slot.live] at hact
      · simp at hact
  · simp [Slot.Sound]
  · simp [Slot.Sound]

/-- Without a fault a call leaves the worker sound. -/
theorem Call.exec_sound {call : Call} {s s' : Slot} (hs : s.Sound)
    (h : call.exec true s = some (true, s')) : s'.Sound := by
  have hs' := Call.exec_success h
  cases call with
  | waitUntilStopped =>
    obtain ⟨pc, _, rfl⟩ := hs'
    simp [Slot.Sound]
  | waitSuccess =>
    obtain ⟨_, rfl⟩ := hs'
    simp [Slot.Sound]
  | spawn =>
    obtain rfl : s' = _ := hs'
    simp [Slot.Sound]
  | cont =>
    obtain rfl : s' = _ := hs'
    intro status
    unfold Child.sigcont
    cases hlife : s.child.life <;> simp_all [Slot.Sound]
  | readFull => exact hs'.elim
  | _ =>
    obtain rfl : s' = _ := hs'
    exact hs

/-- No call fails on a worker that has not failed. -/
theorem Slot.Fits.exec_ne {group : Option String} {call : Call} {calls : List Call} {s : Slot}
    (h : s.Fits group (call :: calls)) (hs : s.Sound) (s' : Slot) :
    call.exec true s ≠ some (false, s') := by
  intro hexec
  have hlife := h.life
  cases call with
  | setCpuMax text | spawn | movePid | close => simp [Call.exec] at hexec
  | waitUntilStopped =>
    rcases hlife with hl | hl | hl | ⟨status, hl, hstatus⟩
    · simp [Call.exec, Child.waitpid, hl] at hexec
    · simp [Call.exec, Child.waitpid, hl] at hexec
    · simp [Call.exec, Child.waitpid, hl] at hexec
    · exact hstatus (hs status hl)
  | cont =>
    rcases hlife with hl | ⟨_, hl, _⟩ <;> simp [Call.exec, hl, Life.isReaped] at hexec
  | waitSuccess =>
    rcases hlife with ⟨pc, hl, _⟩ | ⟨status, hl⟩
    · simp [Call.exec, Child.waitpid, hl] at hexec
    · simp [Call.exec, Child.waitpid, hl, hs status hl] at hexec
  | readFull =>
    have hpipe := h.pipe_pos
    have hne : s.pipe ≠ [] := List.ne_nil_of_length_pos hpipe
    simp [Call.exec, hne] at hexec

/-- A step without a failure keeps the workers sound while the parent goes through its calls. -/
theorem step_sound {s s' : State W} {e : RunEvent W} (hs : ∀ w, (s.slot w).Sound)
    (he : e.Faultless) (hruns : s.Runs prog roster) (hstep : experimentStep prog s e = some s')
    (w : W) : (s'.slot w).Sound := by
  cases e with
  | call ok =>
    obtain rfl : ok = true := he
    simp only [experimentStep] at hstep
    split at hstep
    · obtain rfl : _ = s' := Option.some.inj hstep
      exact hs w
    · next v call rest hphase =>
      obtain ⟨⟨success, slot⟩, hexec, rfl⟩ := Option.map_eq_some_iff.1 hstep
      obtain ⟨group, hfits⟩ := hruns.fits hphase
      cases success with
      | false => exact absurd hexec (hfits.exec_ne (hs v) slot)
      | true =>
        exact State.set_slot (P := fun _ => Slot.Sound) (Call.exec_sound (hs v) hexec)
          (fun u _ => hs u) w
    · next hphase => exact absurd hphase (hruns.phase_ne _)
    · next hphase => exact absurd hphase (hruns.phase_ne _)
    · simp at hstep
  | read bytes =>
    simp only [experimentStep] at hstep
    split at hstep
    · next v rest hphase =>
      obtain ⟨slot, hread, rfl⟩ := Option.map_eq_some_iff.1 hstep
      obtain ⟨_, _, _, out, pipe, _, rfl⟩ := Slot.read_eq_some hread
      have hv : { s.slot v with out, pipe }.Sound := hs v
      exact State.set_slot (P := fun _ => Slot.Sound) hv (fun u _ => hs u) w
    · simp at hstep
  | child v act =>
    obtain ⟨slot, hact, rfl⟩ := Option.map_eq_some_iff.1 hstep
    exact State.set_slot (P := fun _ => Slot.Sound) (he.sound hact) (fun u _ => hs u) w

/-- A run in which nothing fails does not come to the handler. -/
theorem returns_zero_of_faultless (hprog : prog.Supervises roster)
    (hrefused : prog.refused = false) {s : State W} {es : List (RunEvent W)} {rc : Int}
    (hes : ∀ e ∈ es, e.Faultless)
    (hrun : run (experimentStep prog) (State.init prog) es = some s) (hdone : s.phase = .done rc) :
    rc = 0 := by
  have hinit : (State.init prog).Runs prog roster ∧ ∀ w, ((State.init prog).slot w).Sound := by
    refine ⟨State.init_runs hprog hrefused, fun w => ?_⟩
    simp [State.init, Slot.unborn, Child.unborn, Slot.Sound]
  have hend : s.Runs prog roster ∧ ∀ w, (s.slot w).Sound := by
    refine run_invariant (fun s => s.Runs prog roster ∧ ∀ w, (s.slot w).Sound) ?_ hinit hrun
    rintro s e he s' ⟨hruns, hsound⟩ hstep
    rcases hruns.step hstep with hruns' | ⟨w, call, rest, ok, slot, rfl, hphase, hexec, _⟩
    · exact ⟨hruns', fun w => step_sound hsound (hes e he) hruns hstep w⟩
    · obtain rfl : ok = true := hes _ he
      obtain ⟨group, hfits⟩ := hruns.fits hphase
      exact absurd hexec (hfits.exec_ne (hsound w) slot)
  obtain ⟨rest, hphase | ⟨hphase, _⟩, _⟩ := hend.1
  · simp [hdone] at hphase
  · simpa [hdone] using hphase

end Own

end CgroupResearch
