import CgroupResearch.Throttle.Accounting
import CgroupResearch.Throttle.Dwell

/-!
# A call made again

If a list of candidates is applied a second time, at the same time of the clock, the
second call attempts the moves that failed in the first one, and no others
(`retry_attempts_failed`). The reason is in the step of one process (`pidStep_twice`):
an attempt that succeeds enters a state that no duration has elapsed in, so that the
step made again is idle, and an attempt that fails leaves what made it due.
-/

namespace CgroupResearch

/-! ## A step made again -/

/-- Nothing but no time has elapsed at once. -/
theorem elapsedAtLeast_self (nowNs : UInt64) {ms : UInt64} (h : 0 < ms) :
    elapsedAtLeast nowNs nowNs ms = false := by
  have hms : 0 < ms.toNat := UInt64.lt_iff_toNat_lt.1 h
  have hsat : 0 < satNs ms := by
    rw [satNs]
    omega
  rw [← Bool.not_eq_true, elapsedAtLeast_iff]
  omega

/-- How a step of a process, made again with the result `ok`, follows the first one: it
    repeats an attempt that failed, and else is idle. -/
structure Repeats {σ : Type} (ok : Bool) (first second : Option Attempt × σ) : Prop where
  failed : ∀ kind, first.1 = some (kind, false) → second.1 = some (kind, ok)
  settled : (∀ kind, first.1 ≠ some (kind, false)) → second = (none, first.2)

section

variable {cfg : ThrottleConfig} {nowNs : UInt64}

/-- A step without an attempt, after which there is none. -/
theorem Repeats.idle {σ : Type} (ok : Bool) {s : σ} {second : Option Attempt × σ}
    (h : second = (none, s)) : Repeats ok (none, s) second :=
  ⟨nofun, fun _ => h⟩

/-- A step that is idle, whatever the result of an attempt would be. -/
theorem Repeats.of_idle {step : Bool → Standing → Option Attempt × Standing} (ok₁ ok₂ : Bool)
    {s : Standing} (h : ∀ ok, step ok s = (none, s)) :
    Repeats ok₂ (step ok₁ s) (step ok₂ (step ok₁ s).2) := by
  rw [h ok₁]
  exact .idle ok₂ (h ok₂)

/-- An attempt to throttle: once it succeeds, the state is left only after the minimal
    duration. -/
theorem Repeats.throttleStep (hmin : 0 < cfg.minThrottleDurationMs)
    {candidate : InterferenceCandidate} (hreq : candidateRequestsThrottle cfg candidate = true)
    (ok₁ ok₂ : Bool) {s : Standing} (hstate : s.state = .none) :
    Repeats ok₂ (throttleStep nowNs ok₁ s)
      (switchStep cfg nowNs candidate ok₂ (throttleStep nowNs ok₁ s).2) := by
  cases ok₁ with
  | false =>
    refine ⟨fun kind h => ?_, fun h => absurd rfl (h .throttle)⟩
    cases h
    rw [switchStep]
    simp [CgroupResearch.throttleStep, hstate, hreq]
  | true =>
    refine ⟨fun kind h => (by cases h), fun _ => ?_⟩
    rw [switchStep]
    simp [CgroupResearch.throttleStep, elapsedAtLeast_self nowNs hmin]

/-- An attempt to release: once it succeeds, there is a cooldown, which takes its time. -/
theorem Repeats.releaseStep (kind : ActionKind) (nowNs : UInt64)
    {step : Bool → Standing → Option Attempt × Standing} (ok₁ ok₂ : Bool) {s : Standing}
    (hattempt : ∀ ok, step ok s = releaseStep kind nowNs ok s)
    (hsettled : ∀ ok, step ok { s with state := .cooldown, stateEnteredNs := nowNs } =
      (none, { s with state := .cooldown, stateEnteredNs := nowNs })) :
    Repeats ok₂ (step ok₁ s) (step ok₂ (step ok₁ s).2) := by
  rw [hattempt ok₁]
  cases ok₁ with
  | false =>
    refine ⟨fun kind' h => ?_, fun h => absurd rfl (h kind)⟩
    cases h
    exact congrArg Prod.fst (hattempt ok₂)
  | true => exact ⟨nofun, fun _ => hsettled ok₂⟩

theorem switchStep_twice (nowNs : UInt64) (hmin : 0 < cfg.minThrottleDurationMs)
    (hcool : 0 < cfg.cooldownDurationMs) (candidate : InterferenceCandidate) (ok₁ ok₂ : Bool)
    (s : Standing) :
    Repeats ok₂ (switchStep cfg nowNs candidate ok₁ s)
      (switchStep cfg nowNs candidate ok₂ (switchStep cfg nowNs candidate ok₁ s).2) := by
  have hself := elapsedAtLeast_self nowNs hcool
  cases hstate : s.state with
  | none =>
    cases hreq : candidateRequestsThrottle cfg candidate with
    | false =>
      exact .of_idle ok₁ ok₂ (by simp [switchStep, hstate, hreq])
    | true =>
      have hfirst : switchStep cfg nowNs candidate ok₁ s = throttleStep nowNs ok₁ s := by
        simp [switchStep, hstate, hreq]
      rw [hfirst]
      exact .throttleStep hmin hreq ok₁ ok₂ hstate
  | throttled =>
    cases hdue : candidate.finalScore.le cfg.lowScoreThreshold &&
        elapsedAtLeast nowNs s.stateEnteredNs cfg.minThrottleDurationMs with
    | false =>
      exact .of_idle ok₁ ok₂ (by simp [switchStep, hstate, hdue])
    | true =>
      exact .releaseStep .release nowNs ok₁ ok₂ (by simp [switchStep, hstate, hdue])
        (by simp [switchStep, hself])
  | cooldown =>
    cases hover : elapsedAtLeast nowNs s.stateEnteredNs cfg.cooldownDurationMs with
    | false =>
      exact .of_idle ok₁ ok₂ (by simp [switchStep, hstate, hover])
    | true =>
      -- the cooldown ends even if the attempt to throttle then fails
      cases hreq : candidateRequestsThrottle cfg candidate with
      | false =>
        have hfirst : switchStep cfg nowNs candidate ok₁ s =
            (none, { s with state := .none, stateEnteredNs := nowNs }) := by
          simp [switchStep, hstate, hover, hreq]
        have hidle : switchStep cfg nowNs candidate ok₂
            { s with state := .none, stateEnteredNs := nowNs } =
              (none, { s with state := .none, stateEnteredNs := nowNs }) := by
          simp [switchStep, hreq]
        rw [hfirst]
        exact .idle ok₂ hidle
      | true =>
        have hfirst : switchStep cfg nowNs candidate ok₁ s =
            throttleStep nowNs ok₁ { s with state := .none, stateEnteredNs := nowNs } := by
          simp [switchStep, hstate, hover, hreq]
        rw [hfirst]
        exact .throttleStep hmin hreq ok₁ ok₂ rfl
  | other v =>
    exact .of_idle ok₁ ok₂ (by simp [switchStep, hstate])

theorem unlistedStep_twice (nowNs : UInt64) (hcool : 0 < cfg.cooldownDurationMs)
    (ok₁ ok₂ : Bool) (s : Standing) :
    Repeats ok₂ (unlistedStep cfg nowNs ok₁ s)
      (unlistedStep cfg nowNs ok₂ (unlistedStep cfg nowNs ok₁ s).2) := by
  have hself := elapsedAtLeast_self nowNs hcool
  cases hstate : s.state with
  | throttled =>
    cases hdue : elapsedAtLeast nowNs s.lastSeenNs cfg.staleAfterMs &&
        elapsedAtLeast nowNs s.stateEnteredNs cfg.minThrottleDurationMs with
    | false =>
      exact .of_idle ok₁ ok₂ (by simp [unlistedStep, hstate, hdue])
    | true =>
      exact .releaseStep .staleRelease nowNs ok₁ ok₂ (by simp [unlistedStep, hstate, hdue])
        (by simp [unlistedStep, hself])
  | cooldown =>
    cases hover : elapsedAtLeast nowNs s.stateEnteredNs cfg.cooldownDurationMs with
    | false =>
      exact .of_idle ok₁ ok₂ (by simp [unlistedStep, hstate, hover])
    | true =>
      have hfirst : unlistedStep cfg nowNs ok₁ s =
          (none, { s with state := .none, stateEnteredNs := nowNs }) := by
        simp [unlistedStep, hstate, hover]
      rw [hfirst]
      exact .idle ok₂ rfl
  | none =>
    exact .of_idle ok₁ ok₂ (by simp [unlistedStep, hstate])
  | other v =>
    exact .of_idle ok₁ ok₂ (by simp [unlistedStep, hstate])

theorem switchStep_lastSeenNs (cfg : ThrottleConfig) (nowNs : UInt64)
    (candidate : InterferenceCandidate) (ok : Bool) (s : Standing) :
    (switchStep cfg nowNs candidate ok s).2.lastSeenNs = s.lastSeenNs := by
  rw [switchStep]
  cases ok <;> simp only [throttleStep, releaseStep] <;> (repeat' split) <;> rfl

/-- The second call repeats just what failed in the first. -/
theorem listedStep_twice (nowNs : UInt64) (hmin : 0 < cfg.minThrottleDurationMs)
    (hcool : 0 < cfg.cooldownDurationMs) (candidate : InterferenceCandidate) (ok₁ ok₂ : Bool)
    (s : Standing) :
    Repeats ok₂ (listedStep cfg nowNs candidate ok₁ s)
      (listedStep cfg nowNs candidate ok₂ (listedStep cfg nowNs candidate ok₁ s).2) := by
  have hseen : (switchStep cfg nowNs candidate ok₁ { s with lastSeenNs := nowNs }).2.lastSeenNs =
      nowNs := switchStep_lastSeenNs cfg nowNs candidate ok₁ _
  -- the process was seen at the same time before
  have hagain : listedStep cfg nowNs candidate ok₂ (listedStep cfg nowNs candidate ok₁ s).2 =
      switchStep cfg nowNs candidate ok₂
        (switchStep cfg nowNs candidate ok₁ { s with lastSeenNs := nowNs }).2 := by
    rw [listedStep, listedStep]
    congr 1
    exact congrArg (fun t => { (switchStep cfg nowNs candidate ok₁
      { s with lastSeenNs := nowNs }).2 with lastSeenNs := t }) hseen.symm
  rw [hagain]
  exact switchStep_twice nowNs hmin hcool candidate ok₁ ok₂ _

/-- The step of a process in an accepted list, made again. -/
theorem pidStep_twice (hmin : 0 < cfg.minThrottleDurationMs) (hcool : 0 < cfg.cooldownDurationMs)
    (candidates : List InterferenceCandidate) (p : ℤ) (ok₁ ok₂ : Bool) (o : Option Standing) :
    Repeats ok₂ (pidStep cfg ok₁ (listTouch nowNs candidates p) o)
      (pidStep cfg ok₂ (listTouch nowNs candidates p)
        (pidStep cfg ok₁ (listTouch nowNs candidates p) o).2) := by
  rw [listTouch]
  cases candidates.find? fun cand => cand.pid = p with
  | some cand =>
    obtain ⟨hfailed, hsettled⟩ := listedStep_twice nowNs hmin hcool cand ok₁ ok₂
      (o.getD (.new nowNs))
    refine ⟨hfailed, fun h => ?_⟩
    simp only [pidStep, Option.getD_some, hsettled h]
  | none =>
    cases o with
    | none => exact .idle ok₂ rfl
    | some s =>
      obtain ⟨hfailed, hsettled⟩ := unlistedStep_twice nowNs hcool ok₁ ok₂ s
      refine ⟨hfailed, fun h => ?_⟩
      simp only [pidStep, hsettled h]

end

/-! ## Actions and records -/

section

variable {cfg : ThrottleConfig} {env : CallEnv} {nowNs : UInt64} {r : ThrottleRecord} {w : Effects}

/-- A function on records leaves the time of the last action, if it adds no action on the
    process of its record. -/
def Rests (r : ThrottleRecord) (w : Effects) (out : ThrottleRecord × Effects) : Prop :=
  out.2.on r.pid = w.on r.pid → out.1.lastActionNs = r.lastActionNs

/-- An attempt is an action. -/
theorem Performs.rests {r' : ThrottleRecord} {w' : Effects} {a : Attempt} {s : Standing}
    (h : Performs cfg r w (r', w') (some a, s)) (rc : ThrottleRc) :
    Rests r w (r', w'.noteRc rc) := by
  intro hon
  have hself := h.adds.on_self
  rw [Effects.on, noteRc_actions, ← Effects.on, hself] at hon
  exact absurd hon (List.cons_ne_self _ _)

theorem switchState_rests (candidate : InterferenceCandidate) (r : ThrottleRecord) (w : Effects) :
    Rests r w (switchState cfg env nowNs candidate r w) := by
  rw [switchState]
  cases r.state with
  | none =>
    simp only
    split
    · obtain ⟨ok, -, h⟩ := throttleRecordPid_performs cfg env nowNs r w
      exact h.rests _
    · exact fun _ => rfl
  | throttled =>
    simp only
    split
    · obtain ⟨ok, -, h⟩ := releaseRecordPid_performs cfg env nowNs r w false
      exact h.rests _
    · exact fun _ => rfl
  | cooldown =>
    simp only
    split
    · exact fun _ => rfl
    split
    · obtain ⟨ok, -, h⟩ := throttleRecordPid_performs cfg env nowNs
        { r with state := .none, stateEnteredNs := nowNs } w
      exact h.rests _
    · exact fun _ => rfl
  | other v => exact fun _ => rfl

theorem applyUnseen_rests (r : ThrottleRecord) (w : Effects) :
    Rests r w (applyUnseen cfg env nowNs r w) := by
  rw [applyUnseen]
  split
  · exact fun _ => rfl
  split
  · simp only
    split
    · obtain ⟨ok, -, h⟩ := releaseRecordPid_performs cfg env nowNs r w true
      exact h.rests _
    · exact fun _ => rfl
  split
  · exact fun _ => rfl
  · exact fun _ => rfl

/-- In an accepted call without an action on a process, the time of its last action stays. -/
theorem AppliedAt.lastActionNs {c : ThrottleController} {candidates : List InterferenceCandidate}
    {p : ℤ} {o' : Option ThrottleRecord} (h : AppliedAt c env nowNs candidates p o' [])
    (hr : findRecord c.records p = some r) : o'.map (·.lastActionNs) = some r.lastActionNs := by
  have hpid := pid_of_findRecord hr
  rw [AppliedAt, hr] at h
  cases hfind : candidates.find? (fun cand => cand.pid = p) with
  | none =>
    rw [hfind] at h
    obtain ⟨w, hw, rfl, hon⟩ := h
    rw [← hpid] at hw hon
    exact congrArg some (applyUnseen_rests r.unseen w (hon.symm.trans hw.symm))
  | some cand =>
    rw [hfind] at h
    obtain ⟨w, hw, rfl, hon⟩ := h
    have hcand : cand.pid = r.pid := by
      rw [hpid]
      simpa using List.find?_some hfind
    rw [hcand] at hw hon
    exact congrArg some (switchState_rests cand (noteCandidate nowNs cand r.unseen) _
      (hon.symm.trans hw.symm))

/-- Two lists of records of the same processes agree if they agree process by process. -/
theorem map_eq_of_findRecord {α : Type} {f : ThrottleRecord → α} {l l' : List ThrottleRecord}
    (hnd : (l.map (·.pid)).Nodup) (hpids : l'.map (·.pid) = l.map (·.pid))
    (h : ∀ p, (findRecord l' p).map f = (findRecord l p).map f) : l'.map f = l.map f := by
  induction l generalizing l' with
  | nil =>
    rw [List.map_nil, List.map_eq_nil_iff] at hpids
    rw [hpids]
  | cons r rs ih =>
    obtain ⟨r', rs', rfl, hpid, hpids⟩ := List.map_eq_cons_iff.1 hpids
    rw [List.map_cons, List.nodup_cons] at hnd
    have hhead : f r' = f r := by
      have hp := h r.pid
      rw [findRecord_cons, findRecord_cons, if_pos hpid, if_pos rfl] at hp
      exact Option.some.inj hp
    have htail : ∀ p, (findRecord rs' p).map f = (findRecord rs p).map f := by
      intro p
      rcases eq_or_ne r.pid p with rfl | hne
      · -- no record of the process is left
        rw [findRecord_eq_none_iff.2 hnd.1, findRecord_eq_none_iff.2 (by rw [hpids]; exact hnd.1)]
      · have hp := h p
        rwa [findRecord_cons, findRecord_cons, if_neg hne, hpid, if_neg hne] at hp
    rw [List.map_cons, List.map_cons, hhead, ih hnd.2 hpids htail]

end

/-! ## A call made again -/

section

variable {c : ThrottleController} {env₁ env₂ : CallEnv} {nowNs : UInt64}
  {candidates : List InterferenceCandidate}

/-- A list that was accepted is accepted again. -/
theorem prevalidateCandidates_again (hinv : c.Inv) {env : CallEnv}
    (hok : prevalidateCandidates c candidates = .ok)
    (hnow : controllerNowNs c.cfg env.clock = some nowNs) :
    unrecorded (applyCandidates env c candidates).2.records candidates = [] ∧
      prevalidateCandidates (applyCandidates env c candidates).2 candidates = .ok := by
  obtain ⟨records, w, hthrough, hpids, -⟩ := applyCandidates_at hinv hok hnow
  have hinv' : (applyCandidates env c candidates).2.Inv :=
    hinv.call (.applyCandidates env candidates)
  have hnone : unrecorded (applyCandidates env c candidates).2.records candidates = [] := by
    rw [hthrough.controller, unrecorded, List.filter_eq_nil_iff]
    intro cand hcand
    rw [Option.isNone_iff_eq_none, findRecord_eq_none_iff, hpids, not_not, List.mem_append]
    cases hr : findRecord c.records cand.pid with
    | none =>
      have hmem : cand ∈ unrecorded c.records candidates :=
        List.mem_filter.2 ⟨hcand, by rw [hr, Option.isNone_none]⟩
      exact .inr (List.mem_map_of_mem hmem)
    | some r => exact .inl (List.mem_map.2 ⟨r, mem_of_findRecord hr, pid_of_findRecord hr⟩)
  refine ⟨hnone, ?_⟩
  rcases prevalidateCandidates_cases hinv' candidates with ⟨hv, -⟩ | ⟨-, hroom, -⟩ | ⟨-, -, hrc⟩
  · exact absurd (validList_of_ok hinv hok).1 hv
  · rw [hnone, List.length_nil, Nat.add_zero] at hroom
    exact absurd hinv'.length_le (Nat.not_le.2 hroom)
  · exact hrc

/-- Two calls with the same list at the same time, process by process. -/
theorem attempt_twice (hinv : c.Inv) (hmin : 0 < c.cfg.minThrottleDurationMs)
    (hcool : 0 < c.cfg.cooldownDurationMs)
    (hnow₁ : (applyCandidates env₁ c candidates).1.now = some nowNs)
    (hnow₂ : (applyCandidates env₂ (applyCandidates env₁ c candidates).2 candidates).1.now =
      some nowNs) (p : ℤ) :
    let first := applyCandidates env₁ c candidates
    let second := applyCandidates env₂ first.2 candidates
    ∃ ok, Repeats ok (first.1.attempt p, first.2.standing p)
      (second.1.attempt p, second.2.standing p) := by
  intro first second
  have hinv' : first.2.Inv := hinv.call (.applyCandidates env₁ candidates)
  have hcfg : first.2.cfg = c.cfg := (hinv.call_cfg (.applyCandidates env₁ candidates)).1
  obtain ⟨ok₁, hactions₁, hstanding₁⟩ := hinv.call_pid (.applyCandidates env₁ candidates) p
  obtain ⟨ok₂, hactions₂, hstanding₂⟩ := hinv'.call_pid (.applyCandidates env₂ candidates) p
  have htouch₁ : touch p (.applyCandidates env₁ candidates, first.1) =
      listTouch nowNs candidates p := by rw [touch, hnow₁]
  have htouch₂ : touch p (.applyCandidates env₂ candidates, second.1) =
      listTouch nowNs candidates p := by rw [touch, hnow₂]
  have hattempt₁ := ThrottleController.attempt_eq_of_filter hactions₁
  have hattempt₂ := ThrottleController.attempt_eq_of_filter hactions₂
  rw [ThrottleController.call, htouch₁] at hattempt₁ hstanding₁
  rw [ThrottleController.call, htouch₂, hcfg, hstanding₁] at hattempt₂ hstanding₂
  rw [hattempt₁, hattempt₂, hstanding₁, hstanding₂]
  exact ⟨ok₂, pidStep_twice hmin hcool candidates p ok₁ ok₂ (c.standing p)⟩

end

/-- What a repeated attempt is of. -/
theorem Repeats.attempt_iff {σ : Type} {ok : Bool} {first second : Option Attempt × σ}
    (h : Repeats ok first second) (kind : ActionKind) :
    (∃ ok, second.1 = some (kind, ok)) ↔ first.1 = some (kind, false) := by
  refine ⟨fun ⟨ok', hsecond⟩ => ?_, fun hfirst => ⟨ok, h.failed kind hfirst⟩⟩
  by_cases hfailed : ∃ kind', first.1 = some (kind', false)
  · obtain ⟨kind', hfirst⟩ := hfailed
    rw [h.failed kind' hfirst] at hsecond
    cases hsecond
    exact hfirst
  · rw [h.settled fun kind' hfirst => hfailed ⟨kind', hfirst⟩] at hsecond
    cases hsecond

/-- The actions of two calls, if the attempts of the second are the failed ones of the
    first. -/
theorem actions_perm_failed {cfg : ThrottleConfig} {res₁ res₂ : CallResult}
    (h₁ : ThrottleController.Recorded cfg res₁) (h₂ : ThrottleController.Recorded cfg res₂)
    (h : ∀ p kind, (∃ ok, res₂.attempt p = some (kind, ok)) ↔
      res₁.attempt p = some (kind, false)) :
    (res₂.actions.map fun a => (a.pid, a.kind)).Perm
      ((res₁.actions.filter fun a => !a.ok).map fun a => (a.pid, a.kind)) := by
  have hnd : ∀ {l : List Action}, (l.map (·.pid)).Nodup →
      (l.map fun a => (a.pid, a.kind)).Nodup := by
    intro l hl
    refine List.Nodup.of_map Prod.fst ?_
    rwa [List.map_map]
  rw [List.perm_ext_iff_of_nodup (hnd h₂.nodup)
    (hnd (h₁.nodup.sublist (List.filter_sublist.map _)))]
  rintro ⟨p, kind⟩
  have hsecond : (p, kind) ∈ res₂.actions.map (fun a => (a.pid, a.kind)) ↔
      ∃ ok, res₂.attempt p = some (kind, ok) := by
    simp only [List.mem_map, Prod.mk.injEq]
    constructor
    · rintro ⟨a, ha, rfl, rfl⟩
      exact ⟨a.ok, h₂.mem_iff.1 ha⟩
    · rintro ⟨ok, hattempt⟩
      exact ⟨⟨p, kind, ok⟩, h₂.mem_iff.2 hattempt, rfl, rfl⟩
  have hfirst : (p, kind) ∈ (res₁.actions.filter fun a => !a.ok).map (fun a => (a.pid, a.kind)) ↔
      res₁.attempt p = some (kind, false) := by
    simp only [List.mem_map, List.mem_filter, Prod.mk.injEq]
    constructor
    · rintro ⟨a, ⟨ha, hfailed⟩, rfl, rfl⟩
      have hok : a.ok = false := by simpa using hfailed
      rw [h₁.mem_iff.1 ha, hok]
    · intro hattempt
      exact ⟨⟨p, kind, false⟩, ⟨h₁.mem_iff.2 hattempt, rfl⟩, rfl, rfl⟩
  rw [hsecond, hfirst, h p kind]

/-- The moves of two such calls. -/
theorem moves_perm_failed {cfg : ThrottleConfig} {res₁ res₂ : CallResult}
    (h₁ : ThrottleController.Recorded cfg res₁) (h₂ : ThrottleController.Recorded cfg res₂)
    (h : ∀ p kind, (∃ ok, res₂.attempt p = some (kind, ok)) ↔
      res₁.attempt p = some (kind, false)) :
    (res₂.moves.map fun m => (m.pid, m.group)).Perm
      ((res₁.moves.filter fun m => !m.ok).map fun m => (m.pid, m.group)) := by
  rw [h₁.moves, h₂.moves]
  cases hdry : cfg.dryRun with
  | true => exact .refl _
  | false =>
    have hperm := (actions_perm_failed h₁ h₂ h).map fun x => (x.1, cfg.target x.2)
    rw [if_neg Bool.false_ne_true, if_neg Bool.false_ne_true, List.filter_map, List.map_map,
      List.map_map]
    rwa [List.map_map, List.map_map] at hperm

section

variable {c₀ : ThrottleController}

/-- A dry run has no action that fails, and else the actions fail with their moves. -/
theorem all_ok_of_moves {c : ThrottleController} (hrep : Representation c) (hinv : c.Inv)
    {env : CallEnv} {nowNs : UInt64} {candidates : List InterferenceCandidate}
    (hok : prevalidateCandidates c candidates = .ok)
    (hnow : controllerNowNs c.cfg env.clock = some nowNs)
    (hmoves : ∀ m ∈ (applyCandidates env c candidates).1.moves, m.ok = true) :
    ∀ a ∈ (applyCandidates env c candidates).1.actions, a.ok = true := by
  intro a ha
  have hcall := hinv.call_moves (.applyCandidates env candidates)
  rw [ThrottleController.call] at hcall
  cases hdry : c.cfg.dryRun with
  | true =>
    obtain ⟨records, w, hout, haudited, -⟩ := applyCandidates_totals hrep hinv hnow hok
    rw [hout] at ha
    exact haudited.dryRun hdry a ha
  | false =>
    rw [hdry, if_neg Bool.false_ne_true] at hcall
    exact hmoves (c.cfg.move a) (by rw [hcall]; exact List.mem_map_of_mem ha)

/-- From every reachable state, with positive durations, an accepted list that is applied a
    second time at the same time of the clock leads to the moves that failed the first time,
    and to no others. If none failed, the second call changes the state of no record, nor
    when it was entered, nor when it was last acted on. -/
theorem retry_attempts_failed {env₀ : InitEnv} {cfg : Option ThrottleConfig}
    (hinit : throttleControllerInit env₀ cfg = (.ok, c₀))
    (hmin : 0 < c₀.cfg.minThrottleDurationMs) (hcool : 0 < c₀.cfg.cooldownDurationMs)
    (as : List ControllerCall) (env₁ env₂ : CallEnv) (candidates : List InterferenceCandidate)
    {nowNs : UInt64} (hok : prevalidateCandidates (c₀.run as) candidates = .ok)
    (hnow₁ : controllerNowNs c₀.cfg env₁.clock = some nowNs)
    (hnow₂ : controllerNowNs c₀.cfg env₂.clock = some nowNs) :
    let first := applyCandidates env₁ (c₀.run as) candidates
    let second := applyCandidates env₂ first.2 candidates
    (second.1.moves.map fun m => (m.pid, m.group)).Perm
      ((first.1.moves.filter fun m => !m.ok).map fun m => (m.pid, m.group)) ∧
    ((∀ m ∈ first.1.moves, m.ok = true) →
      second.2.records.map (fun r => (r.pid, r.state, r.stateEnteredNs, r.lastActionNs)) =
        first.2.records.map fun r => (r.pid, r.state, r.stateEnteredNs, r.lastActionNs)) := by
  intro first second
  have h₀ := ThrottleController.started_of_init hinit
  obtain ⟨hinv, hcfg, -⟩ := h₀.run_inv as
  have hinv' : first.2.Inv := hinv.call (.applyCandidates env₁ candidates)
  have hcfg' : first.2.cfg = (c₀.run as).cfg :=
    (hinv.call_cfg (.applyCandidates env₁ candidates)).1
  rw [← hcfg] at hmin hcool hnow₁ hnow₂
  obtain ⟨hrecorded, hok'⟩ := prevalidateCandidates_again hinv hok hnow₁
  rw [← hcfg'] at hnow₂
  obtain ⟨records₁, w₁, hthrough₁, -⟩ := applyCandidates_at hinv hok hnow₁
  obtain ⟨records₂, w₂, hthrough₂, hpids, hat⟩ := applyCandidates_at hinv' hok' hnow₂
  have htwice := attempt_twice hinv hmin hcool hthrough₁.now hthrough₂.now
  have hres₁ := hinv.recorded (.applyCandidates env₁ candidates)
  have hres₂ := hinv'.recorded (.applyCandidates env₂ candidates)
  rw [hcfg'] at hres₂
  refine ⟨moves_perm_failed hres₁ hres₂ fun p kind => ?_, fun hmoves => ?_⟩
  · obtain ⟨ok, hrepeats⟩ := htwice p
    exact hrepeats.attempt_iff kind
  have hactions := all_ok_of_moves (representation_run h₀ as) hinv hok hnow₁ hmoves
  have hsame : ∀ p, second.1.attempt p = none ∧ second.2.standing p = first.2.standing p := by
    intro p
    obtain ⟨ok, hrepeats⟩ := htwice p
    have hsettled := hrepeats.settled fun kind hattempt =>
      absurd (hactions ⟨p, kind, false⟩ (hres₁.mem_iff.2 hattempt)) nofun
    exact ⟨congrArg Prod.fst hsettled, congrArg Prod.snd hsettled⟩
  have hpids' : second.2.records.map (·.pid) = first.2.records.map (·.pid) := by
    rw [hthrough₂.controller, hpids, hrecorded, List.map_nil, List.append_nil]
  refine map_eq_of_findRecord hinv'.distinct hpids' fun p => ?_
  obtain ⟨hattempt, hstanding⟩ := hsame p
  rw [ThrottleController.standing, ThrottleController.standing] at hstanding
  cases hr : findRecord first.2.records p with
  | none =>
    rw [hr, Option.map_none, Option.map_eq_none_iff] at hstanding
    rw [hstanding]
  | some r =>
    rw [hr, Option.map_some, Option.map_eq_some_iff] at hstanding
    obtain ⟨r₂, hr₂, hstanding⟩ := hstanding
    have hon : w₂.on p = [] := by
      have hfilter := hres₂.filter p
      rw [ThrottleController.call, hattempt, hthrough₂.actions] at hfilter
      exact hfilter
    have hlast := (hon ▸ hat p).lastActionNs hr
    have hstate : r₂.state = r.state := congrArg Standing.state hstanding
    have hentered : r₂.stateEnteredNs = r.stateEnteredNs :=
      congrArg Standing.stateEnteredNs hstanding
    rw [hthrough₂.controller] at hr₂
    rw [hr₂, Option.map_some] at hlast
    rw [hthrough₂.controller, hr₂, Option.map_some, Option.map_some, pid_of_findRecord hr₂,
      pid_of_findRecord hr, Option.some.inj hlast, hstate, hentered]

/-- Of two processes to throttle, one is, and the second call is for the other alone. -/
theorem retry_attempts_failed_two :
    let c₀ := (throttleControllerInit ⟨true, true, true⟩ none).2
    let env₁ : CallEnv := ⟨⟨0, 0, 5, 0, 5⟩, fun _ pid _ => pid ≠ 8⟩
    let first := applyCandidates env₁ (c₀.run []) [candidateOf 7 1, candidateOf 8 1]
    let second := applyCandidates (.working 5) first.2 [candidateOf 7 1, candidateOf 8 1]
    first.1.moves.length = 2 ∧
      (second.1.moves.map fun m => (m.pid, m.group)).Perm [(8, .groupThrottled)] := by
  intro c₀ env₁ first second
  have hinit : throttleControllerInit ⟨true, true, true⟩ none = (.ok, c₀) :=
    Prod.ext (by decide +kernel) rfl
  have hfailed : (first.1.moves.filter fun m => !m.ok).map (fun m => (m.pid, m.group)) =
      [(8, .groupThrottled)] := by decide +kernel
  have hnow₁ : controllerNowNs c₀.cfg env₁.clock = some 5 := by decide +kernel
  have hretry := (retry_attempts_failed hinit (by decide +kernel) (by decide +kernel) [] env₁
    (.working 5) [candidateOf 7 1, candidateOf 8 1] (by decide +kernel) hnow₁
    (by decide +kernel)).1
  exact ⟨by decide +kernel, hfailed ▸ hretry⟩

end

end CgroupResearch
