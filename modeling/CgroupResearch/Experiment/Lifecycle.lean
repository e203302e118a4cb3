import CgroupResearch.Experiment.Protocol

/-!
# The lives of workers

What a step does to one worker. The calls of the parent about a worker that takes part are
the same in every program (`lifecycle`), and the calls that are still to come say how far the
worker can be (`Slot.Fits`). In the handler it is the lines about the worker that are still
to come (`Slot.Cleans`).

* `Slot.Fits.exec`, `Slot.Fits.act`, `Slot.Fits.read`: a call that succeeds, and what the
  worker does, keep a worker fitting; `Slot.Fits.fails`: a call that fails leaves it to the
  handler;
* `Slot.Cleans.exec`, `Slot.Cleans.act`: the same of the handler.
-/

namespace CgroupResearch

open ChildProcess

/-! ## The steps about one worker -/

section About

variable {W α : Type} [DecidableEq W]

/-- Those of the steps that are about a worker. -/
def about (w : W) (steps : List (W × α)) : List α :=
  steps.filterMap fun step => if step.1 = w then some step.2 else none

@[simp] theorem about_nil (w : W) : about w ([] : List (W × α)) = [] := rfl

@[simp] theorem about_cons_self (w : W) (a : α) (steps : List (W × α)) :
    about w ((w, a) :: steps) = a :: about w steps := by
  simp [about]

theorem about_cons_of_ne {v w : W} (h : v ≠ w) (a : α) (steps : List (W × α)) :
    about w ((v, a) :: steps) = about w steps := by
  simp [about, h]

/-- The calls about a worker, one after the other. -/
theorem about_append (w : W) (xs ys : List (W × α)) :
    about w (xs ++ ys) = about w xs ++ about w ys :=
  List.filterMap_append

theorem mem_about {w : W} {a : α} {steps : List (W × α)} :
    a ∈ about w steps ↔ (w, a) ∈ steps := by
  rw [about, List.mem_filterMap]
  constructor
  · rintro ⟨⟨v, b⟩, hmem, hif⟩
    obtain ⟨rfl, rfl⟩ := by simpa using hif
    exact hmem
  · intro hmem
    exact ⟨(w, a), hmem, by simp⟩

end About

/-- The calls about a worker that takes part, in a control group with its `cpu.max` or not. -/
def lifecycle : Option String → List Call
  | none => [.spawn, .waitUntilStopped, .cont, .waitSuccess, .readFull, .close]
  | some text =>
    [.setCpuMax text, .spawn, .waitUntilStopped, .movePid, .cont, .waitSuccess, .readFull, .close]

/-- The lines of a handler about a worker. -/
def cleanup : List Cleanup := [.cont, .kill, .wait, .close]

/-- A program whose calls about each worker of a roster are its life, and which cleans up
    after each. -/
structure Program.Supervises {W : Type} [DecidableEq W] (prog : Program W)
    (roster : W → Option (Option String)) : Prop where
  calls : ∀ w, about w prog.calls = (roster w).elim [] lifecycle
  handler : ∀ w, about w prog.handler = cleanup

/-! ## A worker while the parent goes through its calls -/

/-- The worker is past its stop. -/
def Pc.Released (pc : Pc) : Prop := pc ≠ .pin ∧ pc ≠ .stop

/-- Where a worker can be before the parent's next call about it. -/
def Call.Awaits : Option Call → Life Pc → Prop
  | some (.setCpuMax _), life | some .spawn, life => life = .unborn
  | some .waitUntilStopped, life =>
    life = .running .pin ∨ life = .running .stop ∨ life = .stopped .warmup false ∨
      ∃ status, life = .zombie status ∧ status ≠ .exited 0
  | some .movePid, life | some .cont, life =>
    life = .stopped .warmup true ∨ ∃ status, life = .zombie status ∧ status ≠ .exited 0
  | some .waitSuccess, life =>
    (∃ pc, life = .running pc ∧ pc.Released) ∨ ∃ status, life = .zombie status
  | some .readFull, life | some .close, life | none, life => life = .reaped (.exited 0)

/-- Whether the parent has a pid at its next call about a worker. -/
def Call.hasPid : Option Call → Bool
  | some .waitUntilStopped | some .movePid | some .cont | some .waitSuccess => true
  | _ => false

/-- Whether it has a descriptor. -/
def Call.hasFd : Option Call → Bool
  | some (.setCpuMax _) | some .spawn | none => false
  | _ => true

/-- What was read before the parent's next call about a worker. -/
def Call.Reads : Option Call → List UInt8 → Prop
  | some .readFull, out => out.length < sizeofWorkerResult
  | some .close, out | none, out => out.length = sizeofWorkerResult
  | _, out => out = []

/-- The result was written in full. -/
def Slot.Complete (s : Slot) : Prop :=
  s.result.length = sizeofWorkerResult ∧ s.out ++ s.pipe = s.result

/-- What was read from the pipe and what is in it are what the worker has written. -/
def Slot.Written (s : Slot) : Prop :=
  match s.child.life with
  | .running (.write sent) =>
    s.result.length = sizeofWorkerResult ∧ sent < sizeofWorkerResult ∧
      s.out ++ s.pipe = s.result.take sent
  | .running .exit => s.Complete
  | .zombie status | .reaped status => status = .exited 0 → s.Complete
  | _ => s.out ++ s.pipe = []

/-- A worker fits the calls about it that are still to come. -/
structure Slot.Fits (group : Option String) (calls : List Call) (s : Slot) : Prop where
  suffix : calls <:+ lifecycle group
  life : Call.Awaits calls.head? s.child.life
  written : s.Written
  pid : s.pid = Call.hasPid calls.head?
  fd : s.fd = Call.hasFd calls.head?
  strays : s.child.strays = 0
  out : Call.Reads calls.head? s.out
  cpuMax : (∀ text, .setCpuMax text ∉ calls) → s.cpuMax = group
  moved : .movePid ∉ calls → s.moved = group.isSome

/-- The places in the life of a worker. -/
theorem suffix_lifecycle {group : Option String} {call : Call} {rest : List Call}
    (h : call :: rest <:+ lifecycle group) :
    (∃ text, group = some text ∧ call = .setCpuMax text ∧ rest =
      [.spawn, .waitUntilStopped, .movePid, .cont, .waitSuccess, .readFull, .close]) ∨
    (call = .spawn ∧ rest = .waitUntilStopped :: (if group.isSome then [.movePid] else []) ++
      [.cont, .waitSuccess, .readFull, .close]) ∨
    (call = .waitUntilStopped ∧ rest = (if group.isSome then [.movePid] else []) ++
      [.cont, .waitSuccess, .readFull, .close]) ∨
    (group.isSome ∧ call = .movePid ∧ rest = [.cont, .waitSuccess, .readFull, .close]) ∨
    (call = .cont ∧ rest = [.waitSuccess, .readFull, .close]) ∨
    (call = .waitSuccess ∧ rest = [.readFull, .close]) ∨
    (call = .readFull ∧ rest = [.close]) ∨ (call = .close ∧ rest = []) := by
  cases group <;> simpa [lifecycle, List.suffix_cons_iff] using h

/-! ## What a call has found and done -/

/-- A call that succeeds. -/
theorem Call.exec_success {call : Call} {ok : Bool} {s s' : Slot}
    (h : call.exec ok s = some (true, s')) :
    match call with
    | .setCpuMax text => s' = { s with cpuMax := some text }
    | .spawn => s' = { s.live (.running .pin) with pid := true, fd := true }
    | .waitUntilStopped => ∃ pc, s.child.life = .stopped pc false ∧ s' = s.live (.stopped pc true)
    | .movePid => s' = { s with moved := true }
    | .cont => s' = { s with child := s.child.sigcont }
    | .waitSuccess =>
      s.child.life = .zombie (.exited 0) ∧
        s' = { s.live (.reaped (.exited 0)) with pid := false }
    | .readFull => False
    | .close => s' = { s with fd := false } := by
  unfold Call.exec at h
  cases call with
  | setCpuMax text | spawn | movePid =>
    cases ok with
    | false => simp at h
    | true => exact (by simpa using h.symm)
  | waitUntilStopped =>
    obtain ⟨⟨w, child⟩, hwait, heq⟩ := Option.map_eq_some_iff.1 h
    obtain ⟨rfl, rfl⟩ := by simpa using heq
    rcases Child.waitpid_eq_some hwait with ⟨_, _, hw, _⟩ | ⟨_, pc, hlife, _, rfl⟩ | ⟨_, hw, _⟩
    · cases hw
    · exact ⟨pc, hlife, rfl⟩
    · cases hw
  | cont =>
    obtain ⟨_, rfl⟩ := by simpa using h
    rfl
  | waitSuccess =>
    obtain ⟨⟨w, child⟩, hwait, heq⟩ := Option.map_eq_some_iff.1 h
    dsimp only at heq
    split at heq
    · next hw =>
      obtain rfl := by simpa using heq
      rcases Child.waitpid_eq_some hwait with ⟨_, hlife, rfl, rfl⟩ | ⟨hf, _⟩ | ⟨_, rfl, _⟩
      · cases hw
        exact ⟨hlife, rfl⟩
      · cases hf
      · cases hw
    · simp at heq
  | readFull =>
    dsimp only at h
    split at h <;> simp at h
  | close => exact (by simpa using h.symm)

/-- A call that fails. -/
theorem Call.exec_failure {call : Call} {ok : Bool} {s s' : Slot}
    (h : call.exec ok s = some (false, s')) :
    match call with
    | .setCpuMax _ | .spawn | .movePid | .readFull => s' = s
    | .waitUntilStopped | .waitSuccess =>
      (∃ status, s.child.life = .zombie status ∧ (call = .waitSuccess → status ≠ .exited 0) ∧
        s' = s.live (.reaped status)) ∨
      ((s.child.life = .unborn ∨ ∃ status, s.child.life = .reaped status) ∧ s' = s)
    | .cont => (∃ status, s.child.life = .reaped status) ∧ s' = { s with child := s.child.sigcont }
    | .close => False := by
  unfold Call.exec at h
  cases call with
  | setCpuMax text | spawn | movePid =>
    cases ok with
    | false => exact (by simpa using h.symm)
    | true => simp at h
  | waitUntilStopped =>
    obtain ⟨⟨w, child⟩, hwait, heq⟩ := Option.map_eq_some_iff.1 h
    obtain ⟨hw, rfl⟩ := by simpa using heq
    rcases Child.waitpid_eq_some hwait with ⟨status, hlife, _, rfl⟩ | ⟨_, _, _, rfl, _⟩ |
      ⟨hlife, _, rfl⟩
    · exact .inl ⟨status, hlife, by simp, rfl⟩
    · exact absurd rfl hw
    · exact .inr ⟨hlife, rfl⟩
  | cont =>
    obtain ⟨hlife, rfl⟩ := by simpa using h
    exact ⟨Life.isReaped_iff.1 hlife, rfl⟩
  | waitSuccess =>
    obtain ⟨⟨w, child⟩, hwait, heq⟩ := Option.map_eq_some_iff.1 h
    dsimp only at heq
    split at heq
    · simp at heq
    · next hw =>
      obtain rfl := by simpa using heq
      rcases Child.waitpid_eq_some hwait with ⟨status, hlife, rfl, rfl⟩ | ⟨hf, _⟩ | ⟨hlife, _, rfl⟩
      · refine .inl ⟨status, hlife, ?_, rfl⟩
        rintro _ rfl
        exact hw rfl
      · cases hf
      · exact .inr ⟨hlife, rfl⟩
  | readFull =>
    dsimp only at h
    split at h
    · simp at h
    · exact (by simpa using h.symm)
  | close => simp at h

/-- What a worker does: it changes its life, computes its result, or writes some of it. -/
theorem Slot.act_eq_some {base : ℕ} {act : Act} {s s' : Slot} (h : s.act base act = some s') :
    (∃ life, s' = s.live life ∧
      ((s.child.life = .running .pin ∧ life = .running .stop) ∨
       (s.child.life = .running .stop ∧ life = .stopped .warmup false) ∨
       (s.child.life = .running .warmup ∧ life = .running .measure) ∨
       (s.child.life = .running .exit ∧ life = .zombie (.exited 0)) ∨
       (s.child.life.alive ∧ ∃ status, life = .zombie status ∧ status ≠ .exited 0))) ∨
    (∃ result, act = .measured result ∧ s.child.life = .running .measure ∧
      result.length = sizeofWorkerResult ∧ s' = { s.live (.running (.write 0)) with result }) ∨
    (∃ sent bytes, s.child.life = .running (.write sent) ∧ 0 < bytes ∧
      sent + bytes ≤ sizeofWorkerResult ∧
      s' = { s.live (.running (if sent + bytes = sizeofWorkerResult then .exit
          else .write (sent + bytes))) with
        pipe := s.pipe ++ (s.result.drop sent).take bytes }) := by
  unfold Slot.act at h
  cases act with
  | work ok =>
    dsimp only at h
    left
    split at h <;> cases ok <;> simp_all [Life.alive] <;> exact ⟨_, h.symm, by simp⟩
  | measured result =>
    dsimp only at h
    split at h
    · next hlife => exact .inr (.inl ⟨result, rfl, hlife.1, hlife.2, by simpa using h.symm⟩)
    · simp at h
  | send bytes =>
    dsimp only at h
    split at h
    · next sent hlife =>
      split at h
      · next hbytes =>
        exact .inr (.inr ⟨sent, bytes, hlife, hbytes.1, hbytes.2, by simpa using h.symm⟩)
      · simp at h
    · simp at h
  | killed signal =>
    dsimp only at h
    split at h
    · next halive =>
      exact .inl ⟨_, by simpa using h.symm, by simp [halive]⟩
    · simp at h

/-- How a worker's life goes on by itself. -/
inductive Moves : Life Pc → Life Pc → Prop
  | pins : Moves (.running .pin) (.running .stop)
  | stops : Moves (.running .stop) (.stopped .warmup false)
  | works {pc pc' : Pc} (h : pc.Released) (h' : pc'.Released) : Moves (.running pc) (.running pc')
  | exits : Moves (.running .exit) (.zombie (.exited 0))
  | dies {life : Life Pc} {status : Status} (h : life.alive) (hstatus : status ≠ .exited 0) :
    Moves life (.zombie status)

theorem Moves.alive {life life' : Life Pc} (h : Moves life life') : life.alive := by
  cases h with
  | dies h _ => exact h
  | _ => rfl

/-- An act of a worker moves it on. -/
theorem Slot.act_moves {base : ℕ} {act : Act} {s s' : Slot} (h : s.act base act = some s') :
    Moves s.child.life s'.child.life := by
  rcases Slot.act_eq_some h with ⟨life, rfl, ⟨hlife, rfl⟩ | ⟨hlife, rfl⟩ | ⟨hlife, rfl⟩ |
    ⟨hlife, rfl⟩ | ⟨halive, status, rfl, hstatus⟩⟩ | ⟨_, _, hlife, _, rfl⟩ |
    ⟨sent, bytes, hlife, _, _, rfl⟩
  · exact hlife ▸ .pins
  · exact hlife ▸ .stops
  · exact hlife ▸ .works (by simp [Pc.Released]) (by simp [Pc.Released])
  · exact hlife ▸ .exits
  · exact .dies halive hstatus
  · exact hlife ▸ .works (by simp [Pc.Released]) (by simp [Pc.Released])
  · exact hlife ▸ .works (by simp [Pc.Released]) (by split <;> simp [Pc.Released])

/-- A worker changes nothing but its life, its result and its pipe. -/
theorem Slot.act_frame {base : ℕ} {act : Act} {s s' : Slot} (h : s.act base act = some s') :
    ∃ life result pipe, s' = { s.live life with result, pipe } := by
  rcases Slot.act_eq_some h with ⟨life, rfl, _⟩ | ⟨result, _, _, _, rfl⟩ |
    ⟨_, _, _, _, _, rfl⟩
  · exact ⟨life, s.result, s.pipe, rfl⟩
  · exact ⟨_, result, s.pipe, rfl⟩
  · exact ⟨_, s.result, _, rfl⟩

/-- An act of a worker keeps what it has written in order. -/
theorem Slot.Written.act {base : ℕ} {act : Act} {s s' : Slot} (hw : s.Written)
    (h : s.act base act = some s') : s'.Written := by
  rcases Slot.act_eq_some h with ⟨life, rfl, ⟨hlife, rfl⟩ | ⟨hlife, rfl⟩ | ⟨hlife, rfl⟩ |
    ⟨hlife, rfl⟩ | ⟨_, status, rfl, hstatus⟩⟩ | ⟨result, _, hlife, hlen, rfl⟩ |
    ⟨sent, bytes, hlife, hpos, hle, rfl⟩
  · rwa [Slot.Written, hlife] at hw
  · rwa [Slot.Written, hlife] at hw
  · rwa [Slot.Written, hlife] at hw
  · rw [Slot.Written, hlife] at hw
    exact fun _ => hw
  · exact fun heq => absurd heq hstatus
  · rw [Slot.Written, hlife] at hw
    exact ⟨hlen, by decide, hw⟩
  · -- What is sent is what comes next in the result.
    rw [Slot.Written, hlife] at hw
    obtain ⟨hlen, hlt, hsent⟩ := hw
    have htake : s.out ++ (s.pipe ++ (s.result.drop sent).take bytes) =
        s.result.take (sent + bytes) := by
      rw [← List.append_assoc, hsent, List.take_add]
    by_cases hfull : sent + bytes = sizeofWorkerResult
    · simp only [if_pos hfull]
      refine ⟨hlen, htake.trans ?_⟩
      rw [hfull, ← hlen, List.take_length]
      rfl
    · simp only [if_neg hfull]
      exact ⟨hlen, by omega, htake⟩

/-! ## Steps keep a worker fitting -/

/-- Before anything was done, all calls are still to come. -/
theorem Slot.unborn_fits (group : Option String) : Slot.unborn.Fits group (lifecycle group) := by
  refine ⟨List.suffix_rfl, ?_, rfl, ?_, ?_, rfl, ?_, ?_, ?_⟩ <;> cases group <;>
    simp [Slot.unborn, Child.unborn, lifecycle, Call.Awaits, Call.hasPid, Call.hasFd,
      Call.Reads]

/-- A call about a worker that succeeds leaves it fitting the calls after it. -/
theorem Slot.Fits.exec {group : Option String} {call : Call} {rest : List Call} {s s' : Slot}
    {ok : Bool} (h : s.Fits group (call :: rest)) (hexec : call.exec ok s = some (true, s')) :
    s'.Fits group rest := by
  have hrest : rest <:+ lifecycle group := (List.suffix_cons _ _).trans h.suffix
  have hs' := Call.exec_success hexec
  obtain ⟨hsuffix, hlife, hwritten, hpid, hfd, hstrays, hout, hcpuMax, hmoved⟩ := h
  rcases suffix_lifecycle hsuffix with ⟨text, rfl, rfl, rfl⟩ | ⟨rfl, rfl⟩ | ⟨rfl, rfl⟩ |
    ⟨hg, rfl, rfl⟩ | ⟨rfl, rfl⟩ | ⟨rfl, rfl⟩ | ⟨rfl, rfl⟩ | ⟨rfl, rfl⟩
  · -- `setCpuMax`
    obtain rfl : s' = _ := hs'
    exact ⟨hrest, hlife, hwritten, hpid, hfd, hstrays, hout, by simp, by simp⟩
  · -- `spawn`
    obtain rfl : s' = _ := hs'
    have hempty : s.out ++ s.pipe = [] := by
      have hunborn : s.child.life = .unborn := hlife
      rwa [Slot.Written, hunborn] at hwritten
    exact ⟨hrest, .inl rfl, hempty, rfl, rfl, hstrays, hout, by simpa using hcpuMax,
      by simpa using hmoved⟩
  · -- `waitUntilStopped`
    obtain ⟨pc, hstop, rfl⟩ := hs'
    obtain rfl : pc = .warmup := by rcases hlife with h | h | h | ⟨_, h, _⟩ <;> simp_all
    have hempty : s.out ++ s.pipe = [] := by rwa [Slot.Written, hstop] at hwritten
    cases group with
    | none =>
      exact ⟨hrest, .inl rfl, hempty, hpid, hfd, hstrays, hout, by simpa using hcpuMax,
        by simpa using hmoved⟩
    | some text =>
      exact ⟨hrest, .inl rfl, hempty, hpid, hfd, hstrays, hout, by simpa using hcpuMax,
        by simp⟩
  · -- `movePid`
    obtain rfl : s' = _ := hs'
    exact ⟨hrest, hlife, hwritten, hpid, hfd, hstrays, hout, by simpa using hcpuMax,
      by simp [hg]⟩
  · -- `cont`
    obtain rfl : s' = _ := hs'
    rcases hlife with hstop | ⟨status, hzombie, _⟩
    · have hempty : s.out ++ s.pipe = [] := by rwa [Slot.Written, hstop] at hwritten
      have hlive : { s with child := s.child.sigcont } = s.live (.running .warmup) := by
        rw [Child.sigcont, hstop]
        rfl
      rw [hlive]
      exact ⟨hrest, .inl ⟨.warmup, rfl, by simp [Pc.Released]⟩, hempty, hpid, hfd, hstrays, hout,
        by simpa using hcpuMax, by simpa using hmoved⟩
    · have hsame : s.child.sigcont = s.child := by rw [Child.sigcont, hzombie]
      rw [hsame]
      exact ⟨hrest, .inr ⟨status, hzombie⟩, hwritten, hpid, hfd, hstrays, hout,
        by simpa using hcpuMax, by simpa using hmoved⟩
  · -- `waitSuccess`
    obtain ⟨hzombie, rfl⟩ := hs'
    have hcomplete : s.Complete := by
      rw [Slot.Written, hzombie] at hwritten
      exact hwritten rfl
    have hunread : s.out.length < sizeofWorkerResult := by
      rw [show s.out = [] from hout]
      decide
    exact ⟨hrest, rfl, fun _ => hcomplete, rfl, hfd, hstrays, hunread, by simpa using hcpuMax,
      by simpa using hmoved⟩
  · exact hs'.elim
  · -- `close`
    obtain rfl : s' = _ := hs'
    exact ⟨hrest, hlife, hwritten, hpid, rfl, hstrays, hout, by simpa using hcpuMax,
      by simpa using hmoved⟩

/-- A worker that goes on is where the parent's next call finds it. -/
theorem Call.Awaits.moves {call : Option Call} {life life' : Life Pc} (h : Call.Awaits call life)
    (hmoves : Moves life life') : Call.Awaits call life' := by
  have halive := hmoves.alive
  rcases call with _ | call
  · exact absurd halive (by rw [show life = _ from h]; simp [Life.alive])
  cases call with
  | setCpuMax _ | spawn | readFull | close =>
    exact absurd halive (by rw [show life = _ from h]; simp [Life.alive])
  | waitUntilStopped =>
    cases hmoves with
    | pins => exact .inr (.inl rfl)
    | stops => exact .inr (.inr (.inl rfl))
    | works hpc _ => simp_all [Call.Awaits, Pc.Released]
    | exits => simp [Call.Awaits] at h
    | dies _ hstatus => exact .inr (.inr (.inr ⟨_, rfl, hstatus⟩))
  | movePid | cont =>
    cases hmoves with
    | dies _ hstatus => exact .inr ⟨_, rfl, hstatus⟩
    | _ => simp [Call.Awaits] at h
  | waitSuccess =>
    cases hmoves with
    | pins | stops => simp [Call.Awaits, Pc.Released] at h
    | works _ hpc => exact .inl ⟨_, rfl, hpc⟩
    | exits => exact .inr ⟨_, rfl⟩
    | dies _ _ => exact .inr ⟨_, rfl⟩

/-- What a worker does leaves it fitting. -/
theorem Slot.Fits.act {group : Option String} {calls : List Call} {base : ℕ} {act : Act}
    {s s' : Slot} (h : s.Fits group calls) (hact : s.act base act = some s') :
    s'.Fits group calls := by
  have hlife := h.life.moves (Slot.act_moves hact)
  have hwritten := h.written.act hact
  obtain ⟨life, result, pipe, rfl⟩ := Slot.act_frame hact
  exact ⟨h.suffix, hlife, hwritten, h.pid, h.fd, h.strays, h.out, h.cpuMax, h.moved⟩

/-- A `read` moves bytes from the pipe to what was read. -/
theorem Slot.read_eq_some {s s' : Slot} {bytes : ℕ} (h : s.read bytes = some s') :
    0 < bytes ∧ s'.out.length = s.out.length + bytes ∧ s'.out.length ≤ sizeofWorkerResult ∧
      ∃ out pipe, out ++ pipe = s.out ++ s.pipe ∧ s' = { s with out, pipe } := by
  rw [Slot.read] at h
  split at h
  · next hbytes =>
    obtain rfl := by simpa using h
    have hlen : (s.out ++ s.pipe.take bytes).length = s.out.length + bytes := by
      rw [List.length_append, List.length_take]
      omega
    refine ⟨hbytes.1, hlen, hlen.trans_le hbytes.2.2, _, _, ?_, rfl⟩
    rw [List.append_assoc, List.take_append_drop]
  · simp at h

theorem Slot.Written.of_append {s : Slot} {out pipe : List UInt8} (hw : s.Written)
    (h : out ++ pipe = s.out ++ s.pipe) : { s with out, pipe }.Written := by
  unfold Slot.Written Slot.Complete at *
  cases hlife : s.child.life with
  | running pc => cases pc <;> simp_all
  | _ => simp_all

/-- A `read` leaves a worker fitting, and comes to the calls after it with the last byte. -/
theorem Slot.Fits.read {group : Option String} {rest : List Call} {s s' : Slot} {bytes : ℕ}
    (h : s.Fits group (.readFull :: rest)) (hread : s.read bytes = some s') :
    s'.Fits group (if s'.out.length = sizeofWorkerResult then rest else .readFull :: rest) := by
  obtain ⟨_, _, hle, out, pipe, happend, rfl⟩ := Slot.read_eq_some hread
  have hwritten := h.written.of_append happend
  obtain ⟨hsuffix, hlife, _, hpid, hfd, hstrays, hout, hcpuMax, hmoved⟩ := h
  have hrest : rest = [.close] := by simpa using suffix_lifecycle hsuffix
  subst hrest
  split
  · next hfull =>
    exact ⟨(List.suffix_cons _ _).trans hsuffix, hlife, hwritten, hpid, hfd, hstrays,
      hfull, by simpa using hcpuMax, by simpa using hmoved⟩
  · next hpart =>
    exact ⟨hsuffix, hlife, hwritten, hpid, hfd, hstrays, Nat.lt_of_le_of_ne hle hpart, hcpuMax,
      hmoved⟩

/-! ## A worker while the parent goes through its handler -/

/-- A worker fits the lines of the handler about it that are still to come. It is `stray` if
    its parent has collected it but kept its pid. -/
structure Slot.Cleans (stray : Bool) (lines : List Cleanup) (s : Slot) : Prop where
  suffix : lines <:+ cleanup
  forked : s.pid → s.child.life ≠ .unborn
  free : s.pid = false → s.child.life = .unborn ∨ s.child.life.isReaped
  stray_eq : .wait ∈ lines → stray = (s.pid && s.child.life.isReaped)
  reaped : .wait ∉ lines → s.pid → s.child.life.isReaped
  killed : .kill ∉ lines → s.pid → s.child.life.alive → s.child.killed
  strays : s.child.strays =
    if stray then (if .cont ∈ lines then 0 else if .kill ∈ lines then 1 else 2) else 0
  closed : .close ∉ lines → s.fd = false

/-- The parent has a pid of the workers that it has forked and not collected. -/
theorem Slot.Fits.pid_eq {group : Option String} {calls : List Call} {s : Slot}
    (h : s.Fits group calls) :
    s.pid = (decide (s.child.life ≠ .unborn) && !s.child.life.isReaped) := by
  rw [h.pid]
  have hlife := h.life
  revert hlife
  rcases calls.head? with _ | call
  · intro hlife
    simp [show s.child.life = _ from hlife, Life.isReaped, Call.hasPid]
  cases call with
  | setCpuMax _ | spawn | readFull | close =>
    intro hlife
    simp [show s.child.life = _ from hlife, Life.isReaped, Call.hasPid]
  | waitUntilStopped =>
    rintro (hlife | hlife | hlife | ⟨_, hlife, _⟩) <;> simp [hlife, Life.isReaped, Call.hasPid]
  | movePid | cont =>
    rintro (hlife | ⟨_, hlife, _⟩) <;> simp [hlife, Life.isReaped, Call.hasPid]
  | waitSuccess =>
    rintro (⟨_, hlife, _⟩ | ⟨_, hlife⟩) <;> simp [hlife, Life.isReaped, Call.hasPid]

/-- A worker that fits the parent's calls can be cleaned up. -/
theorem Slot.Fits.cleans {group : Option String} {calls : List Call} {s : Slot}
    (h : s.Fits group calls) : s.Cleans false cleanup := by
  have hpid := h.pid_eq
  refine ⟨List.suffix_rfl, ?_, ?_, fun _ => ?_, by simp [cleanup], by simp [cleanup],
    by simp [h.strays], by simp [cleanup]⟩
  · rw [hpid]
    simp +contextual
  · rw [hpid]
    cases s.child.life <;> simp [Life.isReaped]
  · rw [hpid]
    cases s.child.life <;> simp [Life.isReaped]

/-- There is nothing to clean up before the fork. -/
theorem Slot.unborn_cleans : Slot.unborn.Cleans false cleanup := by
  constructor <;> simp [Slot.unborn, Child.unborn, cleanup, Life.isReaped]

/-- A worker whose status was collected on the way to the handler. -/
theorem Slot.Fits.reaped_cleans {group : Option String} {calls : List Call} {s : Slot}
    (h : s.Fits group calls) (status : Status) (hpid : s.pid = true) :
    (s.live (.reaped status)).Cleans true cleanup := by
  constructor <;> simp [cleanup, hpid, h.strays, Life.isReaped]

/-- A call that fails leaves its worker to the handler. The worker is a stray one if the call
    was to wait for it and has found its end. -/
theorem Slot.Fits.fails {group : Option String} {call : Call} {rest : List Call} {s s' : Slot}
    {ok : Bool} (h : s.Fits group (call :: rest)) (hexec : call.exec ok s = some (false, s')) :
    s'.Cleans (s'.pid && s'.child.life.isReaped) cleanup ∧
      ((s'.pid && s'.child.life.isReaped) = true ↔
        (call = .waitUntilStopped ∨ call = .waitSuccess) ∧
          ∃ status, s.child.life = .zombie status ∧ status ≠ .exited 0) := by
  have hs' := Call.exec_failure hexec
  have hlife := h.life
  have hnot : (s.pid && s.child.life.isReaped) = false := by
    rw [h.pid_eq]
    cases s.child.life.isReaped <;> simp
  -- A call that does not wait fails without an effect.
  have hsame (hs : s' = s) (hcall : call ≠ .waitUntilStopped ∧ call ≠ .waitSuccess) :
      s'.Cleans (s'.pid && s'.child.life.isReaped) cleanup ∧
        ((s'.pid && s'.child.life.isReaped) = true ↔
          (call = .waitUntilStopped ∨ call = .waitSuccess) ∧
            ∃ status, s.child.life = .zombie status ∧ status ≠ .exited 0) := by
    rw [hs, hnot]
    exact ⟨h.cleans, by simp [hcall]⟩
  -- One that waits has collected a worker that did not succeed.
  have hwait (hcall : call = .waitUntilStopped ∨ call = .waitSuccess) (status : Status)
      (hzombie : s.child.life = .zombie status) (hstatus : status ≠ .exited 0)
      (hs : s' = s.live (.reaped status)) :
      s'.Cleans (s'.pid && s'.child.life.isReaped) cleanup ∧
        ((s'.pid && s'.child.life.isReaped) = true ↔
          (call = .waitUntilStopped ∨ call = .waitSuccess) ∧
            ∃ status, s.child.life = .zombie status ∧ status ≠ .exited 0) := by
    have hpid : s.pid = true := by rw [h.pid_eq, hzombie]; simp [Life.isReaped]
    rw [hs, Slot.live_pid, hpid]
    exact ⟨h.reaped_cleans status hpid, by simp [Life.isReaped, hcall, hzombie, hstatus]⟩
  cases call with
  | setCpuMax text => exact hsame hs' (by simp)
  | spawn | movePid | readFull => exact hsame hs' (by simp)
  | waitUntilStopped =>
    rcases hs' with ⟨status, hzombie, _, hs'⟩ | ⟨hno, _⟩
    · refine hwait (.inl rfl) status hzombie ?_ hs'
      rcases hlife with hl | hl | hl | ⟨status', hl, hstatus⟩ <;> rw [hzombie] at hl
      · cases hl
      · cases hl
      · cases hl
      · cases hl
        exact hstatus
    · rcases hlife with hl | hl | hl | ⟨_, hl, _⟩ <;> simp [hl] at hno
  | waitSuccess =>
    rcases hs' with ⟨status, hzombie, hstatus, hs'⟩ | ⟨hno, _⟩
    · exact hwait (.inr rfl) status hzombie (hstatus rfl) hs'
    · rcases hlife with ⟨_, hl, _⟩ | ⟨_, hl⟩ <;> simp [hl] at hno
  | cont =>
    obtain ⟨⟨status, hreaped⟩, _⟩ := hs'
    rcases hlife with hl | ⟨_, hl, _⟩ <;> simp [hl] at hreaped
  | close => exact hs'.elim

/-- A line of the handler leaves a worker fitting the lines after it. -/
theorem Slot.Cleans.exec {stray : Bool} {line : Cleanup} {rest : List Cleanup} {s s' : Slot}
    (h : s.Cleans stray (line :: rest)) (hexec : line.exec s = some s') : s'.Cleans stray rest := by
  have hrest : rest <:+ cleanup := (List.suffix_cons _ _).trans h.suffix
  have hlines : (line = .cont ∧ rest = [.kill, .wait, .close]) ∨
      (line = .kill ∧ rest = [.wait, .close]) ∨ (line = .wait ∧ rest = [.close]) ∨
      (line = .close ∧ rest = []) := by
    simpa [cleanup, List.suffix_cons_iff] using h.suffix
  obtain ⟨hsuffix, hforked, hfree, hstray, hreaped, hkilled, hstrays, hclosed⟩ := h
  unfold Cleanup.exec at hexec
  rcases hlines with ⟨rfl, rfl⟩ | ⟨rfl, rfl⟩ | ⟨rfl, rfl⟩ | ⟨rfl, rfl⟩ <;> dsimp only at hexec
  · -- `SIGCONT`
    have hstray' := hstray (by simp)
    split at hexec
    · next hpid =>
      obtain rfl := by simpa using hexec
      rw [Child.sigcont] 
      cases hlife : s.child.life with
      | unborn => exact absurd hlife (hforked hpid)
      | stopped pc reported => 
        constructor <;> simp_all [Life.isReaped]
      | _ => constructor <;> simp_all [Life.isReaped]
    · next hpid =>
      obtain rfl := by simpa using hexec
      constructor <;> simp_all
  · -- `SIGKILL`
    have hstray' := hstray (by simp)
    split at hexec
    · next hpid =>
      obtain rfl := by simpa using hexec
      rw [Child.sigkill] 
      cases hlife : s.child.life with
      | unborn => exact absurd hlife (hforked hpid)
      | _ => constructor <;> simp_all [Life.isReaped, Life.alive]
    · next hpid =>
      obtain rfl := by simpa using hexec
      constructor <;> simp_all
  · -- `waitpid`
    have hstray' := hstray (by simp)
    split at hexec
    · next hpid =>
      obtain ⟨⟨w, child⟩, hwait, rfl⟩ := Option.map_eq_some_iff.1 hexec
      rcases Child.waitpid_eq_some hwait with ⟨status, hlife, _, rfl⟩ | ⟨hf, _⟩ |
        ⟨hlife | ⟨status, hlife⟩, _, rfl⟩
      · constructor <;> simp_all [Life.isReaped, Life.alive]
      · cases hf
      · exact absurd hlife (hforked hpid)
      · constructor <;> simp_all [Life.isReaped]
    · next hpid =>
      obtain rfl := by simpa using hexec
      constructor <;> simp_all
  · -- `close`
    split at hexec
    · obtain rfl := by simpa using hexec
      constructor <;> simp_all
    · next hfd =>
      obtain rfl := by simpa using hexec
      constructor <;> simp_all

theorem Moves.born {life life' : Life Pc} (h : Moves life life') :
    life' ≠ .unborn ∧ life'.isReaped = false := by
  cases h <;> exact ⟨by simp, rfl⟩

/-- A worker that goes on changes nothing that the handler has to know. -/
theorem Slot.Cleans.act {stray : Bool} {lines : List Cleanup} {base : ℕ} {act : Act}
    {s s' : Slot} (h : s.Cleans stray lines) (hact : s.act base act = some s') :
    s'.Cleans stray lines := by
  have hmoves := Slot.act_moves hact
  have hborn := hmoves.born
  have halive := hmoves.alive
  have hreaped : s.child.life.isReaped = false := by
    cases hlife : s.child.life <;> simp_all [Life.alive, Life.isReaped]
  have hpid : s.pid = true := by
    by_contra hpid
    rcases h.free (by simpa using hpid) with hlife | hlife
    · simp [hlife, Life.alive] at halive
    · simp [hlife] at hreaped
  obtain ⟨life, result, pipe, rfl⟩ := Slot.act_frame hact
  refine ⟨h.suffix, fun _ => hborn.1, fun hno => ?_, fun hwait => ?_, fun hwait hp => ?_,
    fun hkill hp _ => h.killed hkill hp halive, h.strays, h.closed⟩
  · exact absurd (hpid.symm.trans hno) (by simp)
  · rw [h.stray_eq hwait, hreaped, hborn.2]
    rfl
  · exact absurd (h.reaped hwait hp) (by simp [hreaped])
end CgroupResearch
