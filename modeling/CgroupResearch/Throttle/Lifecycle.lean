import CgroupResearch.Throttle.Controller

/-!
# The life of one process

Seen from one process, a call of the controller is a step of a small machine: the
*standing* of the process (the state of its record, with the times it was seen
and its state entered) changes by at most one *attempt* to throttle or release
it (`pidStep`).

The functions on records perform these steps (`applyCandidate_performs`,
`applyUnseen_performs`, `releaseThrottled_performs`): whether the attempt succeeds
is all that is left open.
-/

namespace CgroupResearch

/-- What the record of a process says of its state. -/
structure Standing where
  state : ThrottleState
  lastSeenNs : UInt64
  stateEnteredNs : UInt64
  deriving DecidableEq, Repr

/-- The standing a record gives its process. -/
def ThrottleRecord.standing (r : ThrottleRecord) : Standing :=
  ⟨r.state, r.lastSeenNs, r.stateEnteredNs⟩

/-- An attempt to throttle or release a process, with whether it succeeded. -/
abbrev Attempt := ActionKind × Bool

/-- What a call is for a process: it was turned away, it lists the process, it
    does not, or it releases all. -/
inductive Touch
  | rejected
  | listed (nowNs : UInt64) (candidate : InterferenceCandidate)
  | unlisted (nowNs : UInt64)
  | releaseAll (nowNs : UInt64)
  deriving DecidableEq, Repr

/-! ## The steps of a process -/

/-- An attempt to throttle. -/
def throttleStep (nowNs : UInt64) (ok : Bool) (s : Standing) : Option Attempt × Standing :=
  (some (.throttle, ok), if ok then { s with state := .throttled, stateEnteredNs := nowNs } else s)

/-- An attempt to release. -/
def releaseStep (kind : ActionKind) (nowNs : UInt64) (ok : Bool) (s : Standing) :
    Option Attempt × Standing :=
  (some (kind, ok), if ok then { s with state := .cooldown, stateEnteredNs := nowNs } else s)

/-- The step of a process the call lists, once it is seen. -/
def switchStep (cfg : ThrottleConfig) (nowNs : UInt64) (candidate : InterferenceCandidate)
    (ok : Bool) (s : Standing) : Option Attempt × Standing :=
  match s.state with
  | .none => if candidateRequestsThrottle cfg candidate then throttleStep nowNs ok s else (none, s)
  | .throttled =>
    if candidate.finalScore.le cfg.lowScoreThreshold &&
        elapsedAtLeast nowNs s.stateEnteredNs cfg.minThrottleDurationMs then
      releaseStep .release nowNs ok s
    else
      (none, s)
  | .cooldown =>
    if !elapsedAtLeast nowNs s.stateEnteredNs cfg.cooldownDurationMs then
      (none, s)
    else
      let s := { s with state := .none, stateEnteredNs := nowNs }
      if candidateRequestsThrottle cfg candidate then throttleStep nowNs ok s else (none, s)
  | .other _ => (none, s)

/-- The step of a process the call lists. -/
def listedStep (cfg : ThrottleConfig) (nowNs : UInt64) (candidate : InterferenceCandidate)
    (ok : Bool) (s : Standing) : Option Attempt × Standing :=
  switchStep cfg nowNs candidate ok { s with lastSeenNs := nowNs }

/-- The step of a process the call does not list. -/
def unlistedStep (cfg : ThrottleConfig) (nowNs : UInt64) (ok : Bool) (s : Standing) :
    Option Attempt × Standing :=
  match s.state with
  | .throttled =>
    if elapsedAtLeast nowNs s.lastSeenNs cfg.staleAfterMs &&
        elapsedAtLeast nowNs s.stateEnteredNs cfg.minThrottleDurationMs then
      releaseStep .staleRelease nowNs ok s
    else
      (none, s)
  | .cooldown =>
    if elapsedAtLeast nowNs s.stateEnteredNs cfg.cooldownDurationMs then
      (none, { s with state := .none, stateEnteredNs := nowNs })
    else
      (none, s)
  | _ => (none, s)

/-- The step of a process as all are released. -/
def releaseAllStep (nowNs : UInt64) (ok : Bool) (s : Standing) : Option Attempt × Standing :=
  if s.state = .throttled then releaseStep .release nowNs ok s else (none, s)

/-- The standing of a process the first time it is listed. -/
def Standing.new (nowNs : UInt64) : Standing := ⟨.none, nowNs, nowNs⟩

/-- The step of a process, of which there may be no record, in a call. -/
def pidStep (cfg : ThrottleConfig) (ok : Bool) :
    Touch → Option Standing → Option Attempt × Option Standing
  | .listed nowNs candidate, o =>
    ((listedStep cfg nowNs candidate ok (o.getD (.new nowNs))).1,
      some (listedStep cfg nowNs candidate ok (o.getD (.new nowNs))).2)
  | .unlisted nowNs, some s => ((unlistedStep cfg nowNs ok s).1, some (unlistedStep cfg nowNs ok s).2)
  | .releaseAll nowNs, some s => ((releaseAllStep nowNs ok s).1, some (releaseAllStep nowNs ok s).2)
  | _, o => (none, o)

/-! ## Transitions -/

/-- The time of a call, if it was not turned away. -/
def Touch.now : Touch → Option UInt64
  | .rejected => none
  | .listed nowNs _ => some nowNs
  | .unlisted nowNs => some nowNs
  | .releaseAll nowNs => some nowNs

/-- The standing of a process once the call has seen it, if it lists it. -/
def Touch.see : Touch → Option Standing → Option Standing
  | .listed nowNs _, o => some { o.getD (.new nowNs) with lastSeenNs := nowNs }
  | _, o => o

/-- The state a successful attempt leads to. -/
def ActionKind.state : ActionKind → ThrottleState
  | .throttle => .throttled
  | _ => .cooldown

/-- What the call must say of a process for an attempt on it. -/
def Justified (cfg : ThrottleConfig) : ActionKind → Touch → Standing → Prop
  | .throttle, .listed _ candidate, _ => candidateRequestsThrottle cfg candidate = true
  | .release, .listed _ candidate, _ => candidate.finalScore.le cfg.lowScoreThreshold = true
  | .release, .releaseAll _, _ => True
  | .staleRelease, .unlisted nowNs, s => elapsedAtLeast nowNs s.lastSeenNs cfg.staleAfterMs = true
  | _, _, _ => False

/-- The states, and how long they must have lasted, from which an attempt is made. -/
def Due (cfg : ThrottleConfig) (nowNs : UInt64) : ActionKind → Touch → Standing → Prop
  | .throttle, _, s => s.state = .none ∨
      (s.state = .cooldown ∧ elapsedAtLeast nowNs s.stateEnteredNs cfg.cooldownDurationMs = true)
  | _, .releaseAll _, s => s.state = .throttled
  | _, _, s => s.state = .throttled ∧
      elapsedAtLeast nowNs s.stateEnteredNs cfg.minThrottleDurationMs = true

/-- What can happen to a process in a call. -/
inductive Transition (cfg : ThrottleConfig) (t : Touch) (o : Option Standing) :
    Option Attempt → Option Standing → Prop
  /-- Nothing, but that it may be seen. -/
  | idle : Transition cfg t o none (t.see o)
  /-- The end of a cooldown. -/
  | expire (nowNs : UInt64) (s : Standing) (hnow : t.now = some nowNs) (hsee : t.see o = some s)
      (hstate : s.state = .cooldown)
      (helapsed : elapsedAtLeast nowNs s.stateEnteredNs cfg.cooldownDurationMs = true) :
      Transition cfg t o none (some { s with state := .none, stateEnteredNs := nowNs })
  /-- An attempt that fails, whereby a cooldown that is over ends. -/
  | fail (kind : ActionKind) (nowNs : UInt64) (s : Standing) (hnow : t.now = some nowNs)
      (hsee : t.see o = some s) (hjust : Justified cfg kind t s) (hdue : Due cfg nowNs kind t s) :
      Transition cfg t o (some (kind, false))
        (some (if s.state = .cooldown then { s with state := .none, stateEnteredNs := nowNs }
          else s))
  /-- An attempt that succeeds. -/
  | succeed (kind : ActionKind) (nowNs : UInt64) (s : Standing) (hnow : t.now = some nowNs)
      (hsee : t.see o = some s) (hjust : Justified cfg kind t s) (hdue : Due cfg nowNs kind t s) :
      Transition cfg t o (some (kind, true))
        (some { s with state := kind.state, stateEnteredNs := nowNs })

section

variable {cfg : ThrottleConfig} {t : Touch} {o : Option Standing} {nowNs : UInt64} {s : Standing}

theorem Transition.throttleStep (ok : Bool) (hnow : t.now = some nowNs) (hsee : t.see o = some s)
    (hjust : Justified cfg .throttle t s) (hstate : s.state = .none) :
    Transition cfg t o (throttleStep nowNs ok s).1 (some (throttleStep nowNs ok s).2) := by
  cases ok with
  | false =>
    have h := Transition.fail .throttle nowNs s hnow hsee hjust (.inl hstate)
    rwa [if_neg (by rw [hstate]; nofun)] at h
  | true => exact .succeed .throttle nowNs s hnow hsee hjust (.inl hstate)

/-- The attempt to throttle as a cooldown ends. -/
theorem Transition.throttleStep_expired (ok : Bool) (hnow : t.now = some nowNs)
    (hsee : t.see o = some s) (hjust : Justified cfg .throttle t s) (hstate : s.state = .cooldown)
    (helapsed : elapsedAtLeast nowNs s.stateEnteredNs cfg.cooldownDurationMs = true) :
    Transition cfg t o
      (CgroupResearch.throttleStep nowNs ok { s with state := .none, stateEnteredNs := nowNs }).1
      (some (CgroupResearch.throttleStep nowNs ok
        { s with state := .none, stateEnteredNs := nowNs }).2) := by
  cases ok with
  | false =>
    have h := Transition.fail .throttle nowNs s hnow hsee hjust (.inr ⟨hstate, helapsed⟩)
    rwa [if_pos hstate] at h
  | true => exact .succeed .throttle nowNs s hnow hsee hjust (.inr ⟨hstate, helapsed⟩)

theorem Transition.releaseStep {kind : ActionKind} (ok : Bool) (hkind : kind ≠ .throttle)
    (hnow : t.now = some nowNs) (hsee : t.see o = some s) (hjust : Justified cfg kind t s)
    (hdue : Due cfg nowNs kind t s) (hstate : s.state = .throttled) :
    Transition cfg t o (releaseStep kind nowNs ok s).1 (some (releaseStep kind nowNs ok s).2) := by
  cases ok with
  | false =>
    have h := Transition.fail kind nowNs s hnow hsee hjust hdue
    rwa [if_neg (by rw [hstate]; nofun)] at h
  | true =>
    have h := Transition.succeed kind nowNs s hnow hsee hjust hdue
    cases kind with
    | throttle => exact absurd rfl hkind
    | release => exact h
    | staleRelease => exact h

/-- The step of a process the call lists. -/
theorem transition_switchStep (candidate : InterferenceCandidate) (ok : Bool)
    (hsee : (Touch.listed nowNs candidate).see o = some s) :
    Transition cfg (.listed nowNs candidate) o (switchStep cfg nowNs candidate ok s).1
      (some (switchStep cfg nowNs candidate ok s).2) := by
  have hidle : Transition cfg (.listed nowNs candidate) o none (some s) := hsee ▸ .idle
  rw [switchStep]
  cases hstate : s.state with
  | none =>
    simp only
    split
    case isTrue hreq => exact .throttleStep ok rfl hsee hreq hstate
    case isFalse => exact hidle
  | throttled =>
    simp only
    split
    case isTrue h =>
      obtain ⟨hlow, helapsed⟩ := Bool.and_eq_true_iff.1 h
      exact .releaseStep ok nofun rfl hsee hlow ⟨hstate, helapsed⟩ hstate
    case isFalse => exact hidle
  | cooldown =>
    simp only
    split
    case isTrue => exact hidle
    case isFalse h =>
      -- The cooldown is over, and the candidate may be throttled again in the same call.
      have helapsed : elapsedAtLeast nowNs s.stateEnteredNs cfg.cooldownDurationMs = true := by
        simpa using h
      split
      case isTrue hreq => exact .throttleStep_expired ok rfl hsee hreq hstate helapsed
      case isFalse => exact .expire nowNs s rfl hsee hstate helapsed
  | other v => exact hidle

/-- The step of a process the call does not list. -/
theorem transition_unlistedStep (ok : Bool) :
    Transition cfg (.unlisted nowNs) (some s) (unlistedStep cfg nowNs ok s).1
      (some (unlistedStep cfg nowNs ok s).2) := by
  rw [unlistedStep]
  cases hstate : s.state with
  | throttled =>
    simp only
    split
    case isTrue h =>
      obtain ⟨hstale, helapsed⟩ := Bool.and_eq_true_iff.1 h
      exact .releaseStep ok nofun rfl rfl hstale ⟨hstate, helapsed⟩ hstate
    case isFalse => exact .idle
  | cooldown =>
    simp only
    split
    case isTrue helapsed => exact .expire nowNs s rfl rfl hstate helapsed
    case isFalse => exact .idle
  | none => exact .idle
  | other v => exact .idle

/-- A step of a process is one of the transitions. -/
theorem transition_pidStep (cfg : ThrottleConfig) (ok : Bool) (t : Touch) (o : Option Standing) :
    Transition cfg t o (pidStep cfg ok t o).1 (pidStep cfg ok t o).2 := by
  cases t with
  | rejected => exact .idle
  | listed nowNs candidate => exact transition_switchStep candidate ok rfl
  | unlisted nowNs =>
    cases o with
    | none => exact .idle
    | some s => exact transition_unlistedStep ok
  | releaseAll nowNs =>
    cases o with
    | none => exact .idle
    | some s =>
      rw [pidStep, releaseAllStep]
      split
      case isTrue hstate => exact .releaseStep ok nofun rfl rfl trivial hstate hstate
      case isFalse => exact .idle

end

/-! ## The functions on records -/

/-- The group an action moves its process to. -/
def ThrottleConfig.target (cfg : ThrottleConfig) : ActionKind → ProcGroup
  | .throttle => cfg.throttledGroup
  | _ => cfg.normalGroup

/-- The move of an action. -/
def ThrottleConfig.move (cfg : ThrottleConfig) (a : Action) : CgroupMove :=
  ⟨a.pid, cfg.target a.kind, a.ok⟩

/-- The action an attempt on a process is. -/
def Attempt.action (pid : ℤ) (a : Attempt) : Action := ⟨pid, a.1, a.2⟩

/-- A call goes on from `w` to `w'` by an attempt on `pid`, if there is one. Its
    error, if any, is not that of missing room. -/
structure Adds (cfg : ThrottleConfig) (pid : ℤ) (a : Option Attempt) (w w' : Effects) :
    Prop where
  overallRc : w.overallRc ≠ .errNoSpace → w'.overallRc ≠ .errNoSpace
  actions : w'.actions = a.toList.map (Attempt.action pid) ++ w.actions
  moves : w'.moves =
    (if cfg.dryRun then [] else a.toList.map fun a => cfg.move (a.action pid)) ++ w.moves

/-- A function on records takes the record `r` through a step of its process. -/
structure Performs (cfg : ThrottleConfig) (r : ThrottleRecord) (w : Effects)
    (out : ThrottleRecord × Effects) (step : Option Attempt × Standing) : Prop where
  pid : out.1.pid = r.pid
  seen : out.1.seenInLastApply = r.seenInLastApply
  standing : out.1.standing = step.2
  adds : Adds cfg r.pid step.1 w out.2

section

variable {cfg : ThrottleConfig} {env : CallEnv} {nowNs : UInt64} {r : ThrottleRecord} {w : Effects}

/-- The result of a move is not that of missing room. -/
theorem noteRc_overallRc {ok : Bool} (h : w.overallRc ≠ .errNoSpace) :
    (w.noteRc (if ok then .ok else .errCgroup)).overallRc ≠ .errNoSpace := by
  cases ok with
  | false => exact nofun
  | true => exact h

@[simp] theorem noteRc_moves (rc : ThrottleRc) : (w.noteRc rc).moves = w.moves := by
  rw [Effects.noteRc]; split <;> rfl

@[simp] theorem noteRc_actions (rc : ThrottleRc) : (w.noteRc rc).actions = w.actions := by
  rw [Effects.noteRc]; split <;> rfl

/-- A function may find the record and the effects changed by what is no action. -/
theorem Performs.of_eq {r₁ : ThrottleRecord} {w₁ : Effects} {out : ThrottleRecord × Effects}
    {step : Option Attempt × Standing} (h : Performs cfg r₁ w₁ out step) (hpid : r₁.pid = r.pid)
    (hseen : r₁.seenInLastApply = r.seenInLastApply) (hrc : w₁.overallRc = w.overallRc)
    (hm : w₁.moves = w.moves) (ha : w₁.actions = w.actions) : Performs cfg r w out step :=
  ⟨h.pid.trans hpid, h.seen.trans hseen, h.standing, hrc ▸ h.adds.overallRc,
    hpid ▸ ha ▸ h.adds.actions, hpid ▸ hm ▸ h.adds.moves⟩

/-- A step without an attempt. -/
theorem Performs.kept {r' : ThrottleRecord} {w' : Effects} {s : Standing} (hpid : r'.pid = r.pid)
    (hseen : r'.seenInLastApply = r.seenInLastApply) (hs : r'.standing = s)
    (hrc : w.overallRc ≠ .errNoSpace → w'.overallRc ≠ .errNoSpace) (hm : w'.moves = w.moves)
    (ha : w'.actions = w.actions) : Performs cfg r w (r', w') (none, s) :=
  ⟨hpid, hseen, hs, hrc, by simpa using ha, by simpa using hm⟩

theorem Performs.noteRc {rc : ThrottleRc} {ok : Bool} {r' : ThrottleRecord} {w' : Effects}
    {step : Option Attempt × Standing} (h : Performs cfg r w (r', w') step)
    (hrc : rc = if ok then .ok else .errCgroup) : Performs cfg r w (r', w'.noteRc rc) step :=
  ⟨h.pid, h.seen, h.standing, fun hw => hrc ▸ noteRc_overallRc (h.adds.overallRc hw),
    by simpa using h.adds.actions, by simpa using h.adds.moves⟩

variable (cfg env nowNs r w)

theorem movePid_cases (pid : ℤ) (group : ProcGroup) : ∃ ok : Bool,
    (cfg.dryRun = true → ok = true) ∧ movePid cfg env pid group w =
      (if ok then .ok else .errCgroup,
        { w with moves := (if cfg.dryRun then [] else [⟨pid, group, ok⟩]) ++ w.moves }) := by
  rw [movePid]
  split
  · exact ⟨true, fun _ => rfl, by simp⟩
  case isFalse hdry => exact ⟨_, fun h => absurd h hdry, rfl⟩

theorem throttleRecordPid_performs : ∃ ok : Bool,
    (throttleRecordPid cfg env nowNs r w).1 = (if ok then .ok else .errCgroup) ∧
      Performs cfg r w (throttleRecordPid cfg env nowNs r w).2
        (throttleStep nowNs ok r.standing) := by
  obtain ⟨ok, -, h⟩ := movePid_cases cfg env w r.pid cfg.throttledGroup
  refine ⟨ok, ?_⟩
  rw [throttleRecordPid, h]
  -- a failed move changes the error and the reason only
  cases ok with
  | false => exact ⟨rfl, rfl, rfl, rfl, id, rfl, rfl⟩
  | true => exact ⟨rfl, rfl, rfl, rfl, id, rfl, rfl⟩

theorem releaseRecordPid_performs (stale : Bool) : ∃ ok : Bool,
    (releaseRecordPid cfg env nowNs stale r w).1 = (if ok then .ok else .errCgroup) ∧
      Performs cfg r w (releaseRecordPid cfg env nowNs stale r w).2
        (releaseStep (if stale then .staleRelease else .release) nowNs ok r.standing) := by
  obtain ⟨ok, -, h⟩ := movePid_cases cfg env w r.pid cfg.normalGroup
  refine ⟨ok, ?_⟩
  rw [releaseRecordPid, h]
  cases ok with
  | false => cases stale <;> exact ⟨rfl, rfl, rfl, rfl, id, rfl, rfl⟩
  | true => cases stale <;> exact ⟨rfl, rfl, rfl, rfl, id, rfl, rfl⟩

/-- The `switch` takes the abstract step of a process that is listed. -/
theorem switchState_performs (candidate : InterferenceCandidate)
    (hfinal : r.lastFinalScore = candidate.finalScore) : ∃ ok,
    Performs cfg r w (switchState cfg env nowNs candidate r w)
      (switchStep cfg nowNs candidate ok r.standing) := by
  simp only [switchState, switchStep, show r.standing.state = r.state from rfl,
    show r.standing.stateEnteredNs = r.stateEnteredNs from rfl]
  cases hs : r.state with
  | none =>
    simp only
    split
    · obtain ⟨ok, hrc, h⟩ := throttleRecordPid_performs cfg env nowNs r w
      exact ⟨ok, h.noteRc hrc⟩
    · exact ⟨true, .kept rfl rfl (by simp only [ThrottleRecord.standing, hs]) id rfl rfl⟩
  | throttled =>
    simp only [← hfinal]
    split
    · obtain ⟨ok, hrc, h⟩ := releaseRecordPid_performs cfg env nowNs r w false
      exact ⟨ok, h.noteRc hrc⟩
    · exact ⟨true, .kept rfl rfl (by simp only [ThrottleRecord.standing, hs]) id rfl rfl⟩
  | cooldown =>
    simp only
    split
    · exact ⟨true, .kept rfl rfl (by simp only [ThrottleRecord.standing, hs]) id rfl rfl⟩
    split
    · -- the cooldown is over: the attempt is made from `NONE`
      obtain ⟨ok, hrc, h⟩ := throttleRecordPid_performs cfg env nowNs
        { r with state := .none, stateEnteredNs := nowNs } w
      exact ⟨ok, (h.noteRc hrc).of_eq rfl rfl rfl rfl rfl⟩
    · exact ⟨true, .kept rfl rfl rfl id rfl rfl⟩
  | other v =>
    have hrc : ThrottleRc.errInvalidArg ≠ .errNoSpace := by decide
    exact ⟨true, .kept rfl rfl (by simp only [ThrottleRecord.standing, hs]) (fun _ => hrc) rfl rfl⟩

theorem applyCandidate_performs (candidate : InterferenceCandidate) : ∃ ok,
    Performs cfg { r with seenInLastApply := true } w
      (applyCandidate cfg env nowNs candidate r w)
      (listedStep cfg nowNs candidate ok r.standing) := by
  obtain ⟨ok, h⟩ := switchState_performs cfg env nowNs (noteCandidate nowNs candidate r)
    { w with stats := { w.stats with recordsSeen := w.stats.recordsSeen + 1 } } candidate rfl
  exact ⟨ok, h.of_eq rfl rfl rfl rfl rfl⟩

/-- The loop over the records takes the abstract step of a process that is not. -/
theorem applyUnseen_performs (hseen : r.seenInLastApply = false) : ∃ ok,
    Performs cfg r w (applyUnseen cfg env nowNs r w) (unlistedStep cfg nowNs ok r.standing) := by
  simp only [applyUnseen, unlistedStep, if_neg (ne_true_of_eq_false hseen),
    show r.standing.state = r.state from rfl,
    show r.standing.stateEnteredNs = r.stateEnteredNs from rfl,
    show r.standing.lastSeenNs = r.lastSeenNs from rfl]
  cases hs : r.state with
  | throttled =>
    rw [if_pos rfl]
    simp only
    split
    · obtain ⟨ok, hrc, h⟩ := releaseRecordPid_performs cfg env nowNs r w true
      exact ⟨ok, h.noteRc hrc⟩
    · exact ⟨true, .kept rfl rfl (by simp only [ThrottleRecord.standing, hs]) id rfl rfl⟩
  | cooldown =>
    simp only [reduceCtorEq, if_false, true_and]
    split
    · exact ⟨true, .kept rfl rfl rfl id rfl rfl⟩
    · exact ⟨true, .kept rfl rfl rfl id rfl rfl⟩
  | none =>
    simp only [reduceCtorEq, false_and, if_false]
    exact ⟨true, .kept rfl rfl rfl id rfl rfl⟩
  | other v =>
    simp only [reduceCtorEq, false_and, if_false]
    exact ⟨true, .kept rfl rfl rfl id rfl rfl⟩

theorem applyUnseen_of_seen (hseen : r.seenInLastApply = true) :
    applyUnseen cfg env nowNs r w = (r, w) := by
  rw [applyUnseen, if_pos hseen]

/-- Releasing takes the abstract step of a process that is throttled. -/
theorem releaseThrottled_performs : ∃ ok,
    Performs cfg r w (releaseThrottled cfg env nowNs r w) (releaseAllStep nowNs ok r.standing) := by
  simp only [releaseThrottled, releaseAllStep, show r.standing.state = r.state from rfl, ne_eq,
    ite_not]
  split
  · obtain ⟨ok, hrc, h⟩ := releaseRecordPid_performs cfg env nowNs r w false
    exact ⟨ok, h.noteRc hrc⟩
  · exact ⟨true, .kept rfl rfl rfl id rfl rfl⟩

end

end CgroupResearch
