import CgroupResearch.Experiment.Lifecycle

/-!
# All workers

What holds of the parent and its workers in every run, whatever the order of the steps
(`State.Holds`): either the parent goes through its calls, and every worker fits those that
are to come, or it is in the handler, and every worker fits its lines.

* `State.Runs.step`, `State.Runs.fails`, `State.Handles.step`: what a step does;
* `returns_zero`, `returns_reaped`: what holds when `run_condition` has returned;
* `strays_of_run`: whom the handler signals that is not there any more.
-/

namespace CgroupResearch

open ChildProcess Transition

section Run

variable {W : Type} [DecidableEq W] {prog : Program W} {roster : W → Option (Option String)}

/-- A worker that takes part fits the calls that are still to come; there are none about one
    that does not. -/
def Slot.Plays (part : Option (Option String)) (calls : List Call) (s : Slot) : Prop :=
  match part with
  | none => s = .unborn ∧ calls = []
  | some group => s.Fits group calls

/-- The parent goes through its calls, or has returned 0 after them. -/
def State.Runs (prog : Program W) (roster : W → Option (Option String)) (s : State W) : Prop :=
  ∃ rest, (s.phase = .run rest ∨ s.phase = .done 0 ∧ rest = []) ∧ rest <:+ prog.calls ∧
    ∀ w, (s.slot w).Plays (roster w) (about w rest)

/-- The parent is in its handler, or has returned -1 after it. -/
def State.Handles (stray : W → Bool) (s : State W) : Prop :=
  ∃ rest, (s.phase = .fail rest ∨ s.phase = .done (-1) ∧ rest = []) ∧
    ∀ w, (s.slot w).Cleans (stray w) (about w rest)

/-- A worker stays at its place in its life, whatever it does. -/
theorem Slot.Plays.act {part : Option (Option String)} {calls : List Call} {base : ℕ} {act : Act}
    {s s' : Slot} (h : s.Plays part calls) (hact : s.act base act = some s') :
    s'.Plays part calls := by
  cases part with
  | none =>
    obtain ⟨rfl, _⟩ := h
    exact absurd (Slot.act_moves hact).alive (by simp [Slot.unborn, Child.unborn, Life.alive])
  | some group => exact Slot.Fits.act h hact

/-- The handler cleans up behind a worker at any place of its life. -/
theorem Slot.Plays.cleans {part : Option (Option String)} {calls : List Call} {s : Slot}
    (h : s.Plays part calls) : s.Cleans false cleanup := by
  cases part with
  | none =>
    obtain ⟨rfl, _⟩ := h
    exact Slot.unborn_cleans
  | some group => exact Slot.Fits.cleans h

/-- The next call about a worker fits its place. -/
theorem Slot.Plays.fits {part : Option (Option String)} {call : Call} {calls : List Call}
    {s : Slot} (h : s.Plays part (call :: calls)) :
    ∃ group, part = some group ∧ s.Fits group (call :: calls) := by
  cases part with
  | none => exact absurd h.2 (by simp)
  | some group => exact ⟨group, rfl, h⟩

/-- What holds of the slot that is set and of the others holds of all. -/
theorem State.set_slot {P : W → Slot → Prop} {s : State W} {phase : Phase W} {w : W}
    {slot : Slot} (hw : P w slot) (h : ∀ v, v ≠ w → P v (s.slot v)) (v : W) :
    P v ((s.set phase w slot).slot v) := by
  by_cases hv : v = w
  · subst hv
    simpa [State.set] using hw
  · simpa [State.set, hv] using h v hv

theorem State.Runs.phase_ne {s : State W} (h : s.Runs prog roster) (rest : List (W × Cleanup)) :
    s.phase ≠ .fail rest := by
  obtain ⟨_, hphase | ⟨hphase, _⟩, _⟩ := h <;> simp [hphase]

/-- The worker of the next call takes part. -/
theorem State.Runs.fits {s : State W} {w : W} {call : Call} {rest : List (W × Call)}
    (h : s.Runs prog roster) (hphase : s.phase = .run ((w, call) :: rest)) :
    ∃ group, (s.slot w).Fits group (call :: about w rest) := by
  obtain ⟨rest', hphase' | ⟨hphase', _⟩, _, hplays⟩ := h
  · obtain rfl : (w, call) :: rest = rest' := by simpa [hphase] using hphase'
    have hw := hplays w
    rw [about_cons_self] at hw
    obtain ⟨group, _, hfits⟩ := hw.fits
    exact ⟨group, hfits⟩
  · simp [hphase] at hphase'

/-- A step of a parent that goes through its calls: it goes on, or a call fails. -/
theorem State.Runs.step {s s' : State W} {e : RunEvent W}
    (h : s.Runs prog roster) (hstep : experimentStep prog s e = some s') :
    s'.Runs prog roster ∨ ∃ w call rest ok slot, e = .call ok ∧
      s.phase = .run ((w, call) :: rest) ∧ call.exec ok (s.slot w) = some (false, slot) ∧
      s' = s.set (.fail prog.handler) w slot := by
  obtain ⟨rest, hphase, hsuffix, hplays⟩ := h
  cases e with
  | call ok =>
    rcases hphase with hphase | ⟨hphase, _⟩
    · rcases rest with _ | ⟨⟨w, call⟩, rest⟩
      · -- The last call was made.
        obtain rfl := by simpa [experimentStep, hphase] using hstep
        exact .inl ⟨[], .inr ⟨rfl, rfl⟩, hsuffix, hplays⟩
      · have hstep := hstep
        simp only [experimentStep, hphase, Option.map_eq_some_iff, Prod.exists] at hstep
        obtain ⟨success, slot, hexec, rfl⟩ := hstep
        cases success with
        | false => exact .inr ⟨w, call, rest, ok, slot, rfl, hphase, hexec, rfl⟩
        | true =>
          refine .inl ⟨rest, .inl rfl, (List.suffix_cons _ _).trans hsuffix, ?_⟩
          apply State.set_slot
          · have hw := hplays w
            rw [about_cons_self] at hw
            obtain ⟨group, hpart, hfits⟩ := hw.fits
            rw [hpart]
            exact hfits.exec hexec
          · intro v hv
            have := hplays v
            rwa [about_cons_of_ne (Ne.symm hv)] at this
    · simp [experimentStep, hphase] at hstep
  | read bytes =>
    rcases hphase with hphase | ⟨hphase, _⟩
    · rcases rest with _ | ⟨⟨w, call⟩, rest⟩
      · simp [experimentStep, hphase] at hstep
      cases call with
      | readFull =>
        simp only [experimentStep, hphase, Option.map_eq_some_iff] at hstep
        obtain ⟨slot, hread, rfl⟩ := hstep
        have hw := hplays w
        rw [about_cons_self] at hw
        obtain ⟨group, hpart, hfits⟩ := hw.fits
        have hfits := hfits.read hread
        left
        split at hfits
        · next hfull =>
          refine ⟨rest, .inl (if_pos hfull), (List.suffix_cons _ _).trans hsuffix, ?_⟩
          refine State.set_slot (P := fun v slot => slot.Plays (roster v) (about v rest))
            (hpart ▸ hfits) fun v hv => ?_
          have hv' := hplays v
          rwa [about_cons_of_ne (Ne.symm hv)] at hv'
        · next hpart' =>
          refine ⟨(w, .readFull) :: rest, .inl (if_neg hpart'), hsuffix, ?_⟩
          refine State.set_slot
            (P := fun v slot => slot.Plays (roster v) (about v ((w, .readFull) :: rest)))
            ?_ fun v _ => hplays v
          rw [about_cons_self, hpart]
          exact hfits
      | _ => simp [experimentStep, hphase] at hstep
    · simp [experimentStep, hphase] at hstep
  | child w act => 
    obtain ⟨slot, hact, rfl⟩ := Option.map_eq_some_iff.1 hstep
    refine .inl ⟨rest, hphase, hsuffix, ?_⟩
    exact State.set_slot (P := fun v slot => slot.Plays (roster v) (about v rest))
      ((hplays w).act hact) fun v _ => hplays v


/-- A worker that the handler finds collected, with its pid still there. -/
def State.stray (s : State W) (w : W) : Bool := (s.slot w).pid && (s.slot w).child.life.isReaped

/-- After a call that fails, the handler finds at most its worker stray. -/
theorem State.Runs.fails (hprog : prog.Supervises roster) {s : State W} {w : W} {call : Call}
    {rest : List (W × Call)} {ok : Bool} {slot : Slot} (h : s.Runs prog roster)
    (hphase : s.phase = .run ((w, call) :: rest))
    (hexec : call.exec ok (s.slot w) = some (false, slot)) :
    (s.set (.fail prog.handler) w slot).Handles (s.set (.fail prog.handler) w slot).stray ∧
      ∀ v, (s.set (.fail prog.handler) w slot).stray v ↔
        v = w ∧ (call = .waitUntilStopped ∨ call = .waitSuccess) ∧
          ∃ status, (s.slot v).child.life = .zombie status ∧ status ≠ .exited 0 := by
  obtain ⟨rest', hphase' | ⟨hphase', _⟩, _, hplays⟩ := h
  · obtain rfl : (w, call) :: rest = rest' := by simpa [hphase] using hphase'
    have hw := hplays w
    rw [about_cons_self] at hw
    obtain ⟨group, _, hfits⟩ := hw.fits
    obtain ⟨hcleans, hiff⟩ := hfits.fails hexec
    refine ⟨⟨prog.handler, .inl rfl, fun v => ?_⟩, fun v => ?_⟩
    · rw [hprog.handler]
      by_cases hv : v = w
      · subst hv
        simpa [State.set, State.stray] using hcleans
      · have hv' := (hplays v).cleans
        have hstray := hv'.stray_eq (by simp [cleanup])
        simpa [State.set, State.stray, hv, ← hstray] using hv'
    · by_cases hv : v = w
      · subst hv
        simpa [State.set, State.stray] using hiff
      · have hstray := (hplays v).cleans.stray_eq (by simp [cleanup])
        simp [State.set, State.stray, hv, ← hstray]
  · simp [hphase] at hphase'

/-- A step of the handler, or of a worker meanwhile. -/
theorem State.Handles.step {stray : W → Bool} {s s' : State W} {e : RunEvent W}
    (h : s.Handles stray) (hstep : experimentStep prog s e = some s') : s'.Handles stray := by
  obtain ⟨rest, hphase, hcleans⟩ := h
  cases e with
  | call ok =>
    rcases hphase with hphase | ⟨hphase, _⟩
    · rcases rest with _ | ⟨⟨w, line⟩, rest⟩
      · obtain rfl := by simpa [experimentStep, hphase] using hstep
        exact ⟨[], .inr ⟨rfl, rfl⟩, hcleans⟩
      · simp only [experimentStep, hphase, Option.map_eq_some_iff] at hstep
        obtain ⟨slot, hexec, rfl⟩ := hstep
        refine ⟨rest, .inl rfl, ?_⟩
        refine State.set_slot (P := fun v slot => slot.Cleans (stray v) (about v rest)) ?_
          fun v hv => ?_
        · have hw := hcleans w
          rw [about_cons_self] at hw
          exact hw.exec hexec
        · have hv' := hcleans v
          rwa [about_cons_of_ne (Ne.symm hv)] at hv'
    · simp [experimentStep, hphase] at hstep
  | read bytes =>
    rcases hphase with hphase | ⟨hphase, _⟩ <;> simp [experimentStep, hphase] at hstep
  | child w act =>
    obtain ⟨slot, hact, rfl⟩ := Option.map_eq_some_iff.1 hstep
    exact ⟨rest, hphase, State.set_slot (P := fun v slot => slot.Cleans (stray v) (about v rest))
      ((hcleans w).act hact) fun v _ => hcleans v⟩

/-- What holds in every run. -/
def State.Holds (prog : Program W) (roster : W → Option (Option String)) (s : State W) : Prop :=
  s.Runs prog roster ∨ ∃ stray, s.Handles stray

/-- Before the first call all workers are at the start of their lives. -/
theorem State.init_runs (hprog : prog.Supervises roster) (hrefused : prog.refused = false) :
    (State.init prog).Runs prog roster := by
  refine ⟨prog.calls, .inl (if_neg (by simp [hrefused])), List.suffix_rfl, fun w => ?_⟩
  rw [hprog.calls]
  cases roster w with
  | none => exact ⟨rfl, rfl⟩
  | some group => exact Slot.unborn_fits group

/-- The invariant holds at the start. -/
theorem State.init_holds (hprog : prog.Supervises roster) :
    (State.init prog).Holds prog roster := by
  cases hrefused : prog.refused with
  | true =>
    refine .inr ⟨fun _ => false, [], .inr ⟨if_pos hrefused, rfl⟩, fun w => ?_⟩
    constructor <;> simp [State.init, Slot.unborn, Child.unborn]
  | false => exact .inl (State.init_runs hprog hrefused)

/-- A step keeps the invariant. -/
theorem State.Holds.step (hprog : prog.Supervises roster) {s s' : State W} {e : RunEvent W}
    (h : s.Holds prog roster) (hstep : experimentStep prog s e = some s') :
    s'.Holds prog roster := by
  rcases h with h | ⟨stray, h⟩
  · rcases h.step hstep with h' | ⟨w, call, rest, ok, slot, _, hphase, hexec, rfl⟩
    · exact .inl h'
    · exact .inr ⟨_, (h.fails hprog hphase hexec).1⟩
  · exact .inr ⟨stray, h.step hstep⟩

/-- Every state of a run. -/
theorem State.holds_of_run (hprog : prog.Supervises roster) {s : State W} {es : List (RunEvent W)}
    (hrun : run (experimentStep prog) (State.init prog) es = some s) : s.Holds prog roster :=
  run_invariant (State.Holds prog roster) (fun _ _ _ _ h hstep => h.step hprog hstep)
    (State.init_holds hprog) hrun

/-! ## What was measured -/

theorem Call.exec_result {call : Call} {ok success : Bool} {s s' : Slot}
    (h : call.exec ok s = some (success, s')) : s'.result = s.result := by
  cases success with
  | true =>
    have hs' := Call.exec_success h
    cases call with
    | waitUntilStopped =>
      obtain ⟨pc, _, rfl⟩ := hs'
      rfl
    | waitSuccess =>
      obtain ⟨_, rfl⟩ := hs'
      rfl
    | readFull => exact hs'.elim
    | _ =>
      obtain rfl : s' = _ := hs'
      rfl
  | false =>
    have hs' := Call.exec_failure h
    cases call with
    | waitUntilStopped | waitSuccess =>
      rcases hs' with ⟨status, _, _, rfl⟩ | ⟨_, rfl⟩ <;> rfl
    | cont =>
      obtain ⟨_, rfl⟩ := hs'
      rfl
    | close => exact hs'.elim
    | _ =>
      obtain rfl : s' = _ := hs'
      rfl

theorem Cleanup.exec_result {line : Cleanup} {s s' : Slot} (h : line.exec s = some s') :
    s'.result = s.result := by
  unfold Cleanup.exec at h
  cases line with
  | wait =>
    dsimp only at h
    split at h
    · obtain ⟨_, _, rfl⟩ := Option.map_eq_some_iff.1 h
      rfl
    · exact congrArg Slot.result (Option.some.inj h).symm
  | _ =>
    obtain rfl : _ = s' := Option.some.inj h
    split <;> rfl

/-- A result is what a worker has measured. -/
theorem Slot.act_result {base : ℕ} {act : Act} {s s' : Slot} (h : s.act base act = some s') :
    s'.result = s.result ∨ act = .measured s'.result := by
  rcases Slot.act_eq_some h with ⟨_, rfl, _⟩ | ⟨result, hact, _, _, rfl⟩ | ⟨_, _, _, _, _, rfl⟩
  · exact .inl rfl
  · exact .inr hact
  · exact .inl rfl

/-- A step changes the result of a worker only by measuring it. -/
theorem step_result {s s' : State W} {e : RunEvent W} (h : experimentStep prog s e = some s')
    (w : W) :
    (s'.slot w).result = (s.slot w).result ∨ e = .child w (.measured (s'.slot w).result) := by
  have hset (phase : Phase W) (v : W) (slot : Slot)
      (hslot : slot.result = (s.slot v).result ∨ e = .child v (.measured slot.result)) :
      ((s.set phase v slot).slot w).result = (s.slot w).result ∨
        e = .child w (.measured ((s.set phase v slot).slot w).result) := by
    by_cases hw : w = v
    · subst hw
      simpa [State.set] using hslot
    · left
      simp [State.set, hw]
  cases e with
  | call ok =>
    unfold experimentStep at h
    dsimp only at h
    split at h
    · exact .inl (by rw [← Option.some.inj h])
    · obtain ⟨⟨success, slot⟩, hexec, rfl⟩ := Option.map_eq_some_iff.1 h
      exact hset _ _ _ (.inl (Call.exec_result hexec))
    · exact .inl (by rw [← Option.some.inj h])
    · obtain ⟨slot, hexec, rfl⟩ := Option.map_eq_some_iff.1 h
      exact hset _ _ _ (.inl (Cleanup.exec_result hexec))
    · simp at h
  | read bytes =>
    unfold experimentStep at h
    dsimp only at h
    split at h
    · obtain ⟨slot, hread, rfl⟩ := Option.map_eq_some_iff.1 h
      obtain ⟨_, _, _, _, _, _, rfl⟩ := Slot.read_eq_some hread
      exact hset _ _ _ (.inl rfl)
    · simp at h
  | child v act =>
    obtain ⟨slot, hact, rfl⟩ := Option.map_eq_some_iff.1 h
    refine hset _ _ _ ((Slot.act_result hact).imp_right fun hact => ?_)
    rw [← hact]

/-- A result that a worker has is one that it measured. -/
theorem measured_of_run {s t : State W} {es : List (RunEvent W)}
    (hrun : run (experimentStep prog) s es = some t) (w : W) :
    (t.slot w).result = (s.slot w).result ∨ .child w (.measured (t.slot w).result) ∈ es := by
  induction es generalizing s with
  | nil => exact .inl (by rw [Option.some.inj hrun])
  | cons e es ih =>
    obtain ⟨s', hstep, hrun⟩ := (run_cons_eq_some _).1 hrun
    rcases ih hrun with heq | hmem
    · rcases step_result hstep w with heq' | rfl
      · exact .inl (heq.trans heq')
      · rw [heq]
        exact .inr List.mem_cons_self
    · exact .inr (List.mem_cons_of_mem e hmem)

/-! ## What holds when `run_condition` has returned -/

/-- The parent returns 0 after its calls, and -1 after its handler. -/
theorem State.Holds.done {s : State W} {rc : Int} (h : s.Holds prog roster)
    (hdone : s.phase = .done rc) :
    (rc = 0 ∧ ∀ w, (s.slot w).Plays (roster w) []) ∨
      (rc = -1 ∧ ∃ stray : W → Bool, ∀ w, (s.slot w).Cleans (stray w) []) := by
  rcases h with ⟨rest, hphase | ⟨hphase, rfl⟩, _, hplays⟩ |
    ⟨stray, rest, hphase | ⟨hphase, rfl⟩, hcleans⟩
  · simp [hdone] at hphase
  · obtain rfl : rc = 0 := by simpa [hdone] using hphase
    exact .inl ⟨rfl, hplays⟩
  · simp [hdone] at hphase
  · obtain rfl : rc = -1 := by simpa [hdone] using hphase
    exact .inr ⟨rfl, stray, hcleans⟩

/-- A worker that does not take part is not forked. -/
theorem returns_zero_unborn (hprog : prog.Supervises roster) {s : State W} {es : List (RunEvent W)}
    (hrun : run (experimentStep prog) (State.init prog) es = some s) (hdone : s.phase = .done 0)
    {w : W} (hw : roster w = none) : s.slot w = .unborn := by
  rcases (State.holds_of_run hprog hrun).done hdone with ⟨_, hplays⟩ | ⟨hrc, _⟩
  · have hpart := hplays w
    rw [hw] at hpart
    exact hpart.1
  · exact absurd hrc (by decide)

/-- When the parent returns 0, its workers have exited with 0, and it has read what each of
    them measured. -/
theorem returns_zero (hprog : prog.Supervises roster) {s : State W} {es : List (RunEvent W)}
    (hrun : run (experimentStep prog) (State.init prog) es = some s)
    (hdone : s.phase = .done 0) {w : W} {group : Option String} (hw : roster w = some group) :
    (s.slot w).child.life = .reaped (.exited 0) ∧ (s.slot w).cpuMax = group ∧
      (s.slot w).moved = group.isSome ∧ (s.slot w).out.length = sizeofWorkerResult ∧
      .child w (.measured (s.slot w).out) ∈ es := by
  rcases (State.holds_of_run hprog hrun).done hdone with ⟨_, hplays⟩ | ⟨hrc, _⟩
  · have hfits : (s.slot w).Fits group [] := by
      have := hplays w
      rwa [hw] at this
    have hlife : (s.slot w).child.life = .reaped (.exited 0) := hfits.life
    have hout : (s.slot w).out.length = sizeofWorkerResult := hfits.out
    obtain ⟨hlen, happend⟩ : (s.slot w).Complete := by
      have hwritten := hfits.written
      rw [Slot.Written, hlife] at hwritten
      exact hwritten rfl
    -- All of the result was read: the pipe is empty.
    have heq : (s.slot w).out = (s.slot w).result := by
      have hpipe : (s.slot w).pipe = [] := by
        have := congrArg List.length happend
        rw [List.length_append] at this
        exact List.length_eq_zero_iff.1 (by omega)
      rwa [hpipe, List.append_nil] at happend
    refine ⟨hlife, hfits.cpuMax (by simp), hfits.moved (by simp), hout, ?_⟩
    rcases measured_of_run hrun w with hnil | hmem
    · have hnil : (s.slot w).result = [] := hnil
      rw [hnil] at hlen
      exact absurd hlen (by decide)
    · rwa [heq]
  · exact absurd hrc (by decide)

/-- When the parent returns, its workers are collected and their pipes are closed. -/
theorem returns_reaped (hprog : prog.Supervises roster) {s : State W} {es : List (RunEvent W)}
    {rc : Int} (hrun : run (experimentStep prog) (State.init prog) es = some s)
    (hdone : s.phase = .done rc) (w : W) :
    (rc = 0 ∨ rc = -1) ∧ (s.slot w).fd = false ∧
      ((s.slot w).child.life = .unborn ∨ ∃ status, (s.slot w).child.life = .reaped status) := by
  rcases (State.holds_of_run hprog hrun).done hdone with ⟨hrc, hplays⟩ | ⟨hrc, stray, hcleans⟩
  · refine ⟨.inl hrc, ?_⟩
    have hw := hplays w
    cases hpart : roster w with
    | none =>
      rw [hpart] at hw
      rw [hw.1]
      exact ⟨rfl, .inl rfl⟩
    | some group =>
      rw [hpart] at hw
      exact ⟨hw.fd, .inr ⟨_, hw.life⟩⟩
  · have hw := hcleans w
    refine ⟨.inr hrc, hw.closed (by simp), ?_⟩
    cases hpid : (s.slot w).pid with
    | true => exact .inr (Life.isReaped_iff.1 (hw.reaped (by simp) hpid))
    | false => exact (hw.free hpid).imp_right Life.isReaped_iff.1

/-- The call finds that its worker has ended without success, and collects it. -/
def Call.collects (call : Call) (s : Slot) : Bool :=
  match call, s.child.life with
  | .waitUntilStopped, .zombie status | .waitSuccess, .zombie status => status ≠ .exited 0
  | _, _ => false

/-- A call collects a worker that failed before it was waited for. -/
theorem Call.collects_iff {call : Call} {s : Slot} :
    call.collects s ↔ (call = .waitUntilStopped ∨ call = .waitSuccess) ∧
      ∃ status, s.child.life = .zombie status ∧ status ≠ .exited 0 := by
  unfold Call.collects
  cases call <;> cases s.child.life <;> simp

/-- The handler sends its two signals to a worker that is not there any more if the call that
    has failed has collected this worker, and else none. -/
theorem strays_of_run (hprog : prog.Supervises roster) (hrefused : prog.refused = false)
    {s : State W} {es : List (RunEvent W)}
    (hrun : run (experimentStep prog) (State.init prog) es = some s)
    (hdone : s.phase = .done (-1)) :
    ∃ as ok bs s₁ w call rest, es = as ++ .call ok :: bs ∧
      run (experimentStep prog) (State.init prog) as = some s₁ ∧
      s₁.phase = .run ((w, call) :: rest) ∧ ∀ v, (s.slot v).child.strays =
        if v = w ∧ call.collects (s₁.slot w) then 2 else 0 := by
  -- The run leaves the calls in one of its steps.
  have hinit := State.init_runs hprog hrefused
  have hend : ¬s.Runs prog roster := by
    rintro ⟨rest, hphase | ⟨hphase, _⟩, _⟩ <;> simp [hdone] at hphase
  obtain ⟨as, e, bs, s₁, s₂, rfl, has, hstep, hbs, h₁, h₂⟩ :=
    exists_step_of_run (fun s => ¬s.Runs prog roster) (by simpa using hinit) hend hrun
  have h₁ : s₁.Runs prog roster := by simpa using h₁
  rcases h₁.step hstep with h | ⟨w, call, rest, ok, slot, rfl, hphase, hexec, rfl⟩
  · exact absurd h h₂
  -- After it, the handler finds the same workers stray until it is through.
  obtain ⟨hhandles, hstray⟩ := h₁.fails hprog hphase hexec
  have hs := run_invariant _ (fun _ _ _ _ h hstep => State.Handles.step h hstep) hhandles hbs
  obtain ⟨rest', hphase' | ⟨_, rfl⟩, hcleans⟩ := hs
  · simp [hdone] at hphase'
  refine ⟨as, ok, bs, s₁, w, call, rest, rfl, has, hphase, fun v => ?_⟩
  rw [(hcleans v).strays]
  by_cases hv : v = w ∧ call.collects (s₁.slot w)
  · obtain ⟨rfl, hcollects⟩ := hv
    have hs : (s₁.set (.fail prog.handler) v slot).stray v = true :=
      (hstray v).2 ⟨rfl, Call.collects_iff.1 hcollects⟩
    simp [hs, hcollects]
  · have hs : (s₁.set (.fail prog.handler) w slot).stray v = false := by
      rw [← Bool.not_eq_true, hstray]
      rintro ⟨rfl, hcollects⟩
      exact hv ⟨rfl, Call.collects_iff.2 hcollects⟩
    simp [hs, hv]

end Run

end CgroupResearch
