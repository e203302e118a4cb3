import CgroupResearch.Throttle.Run

/-!
# The records and the groups agree

In a run that is not a dry run, the state of a record tells where the controller
last put its process: in the throttled group iff the state is `THROTTLED`
(`state_matches_last_move`). A move that fails changes neither.
-/

namespace CgroupResearch

/-- The moves of a run, the latest first. -/
def allMoves (h : List (ControllerCall × CallResult)) : List CgroupMove :=
  h.flatMap fun x => x.2.moves

/-- The group of the last successful move of a process, if there is one. -/
def lastMove (h : List (ControllerCall × CallResult)) (p : ℤ) : Option ProcGroup :=
  ((allMoves h).find? fun m => decide (m.pid = p) && m.ok).map (·.group)

/-- The group a successful attempt put its process in. -/
def Attempt.placed (cfg : ThrottleConfig) : Option Attempt → Option ProcGroup
  | some (kind, true) => some (cfg.target kind)
  | _ => none

/-- Where the last successful attempt put a process. -/
def lastPlaced (cfg : ThrottleConfig) (l : List (Touch × Option Attempt)) : Option ProcGroup :=
  l.findSome? fun x => Attempt.placed cfg x.2

section

variable {cfg : ThrottleConfig}

/-- A move of a process in a call is that of the attempt on it. -/
theorem Recorded.find_move {res : CallResult} (h : ThrottleController.Recorded cfg res)
    (hdry : cfg.dryRun = false) (p : ℤ) :
    (res.moves.find? fun m => decide (m.pid = p) && m.ok).map (·.group) =
      Attempt.placed cfg (res.attempt p) := by
  have hcongr : (res.actions.find? fun a => decide ((cfg.move a).pid = p) && (cfg.move a).ok) =
      (res.actions.filter fun a => a.pid = p).find? (·.ok) := by
    rw [List.find?_filter]
    congr 1
    funext a
    by_cases hp : a.pid = p <;> simp [ThrottleConfig.move, hp]
  rw [h.moves, hdry, if_neg Bool.false_ne_true, List.find?_map, Function.comp_def, hcongr,
    h.filter p]
  rcases res.attempt p with _ | ⟨kind, _ | _⟩ <;> rfl

/-- The last move of a process is that of its life. -/
theorem lastMove_eq {c₀ : ThrottleController} (h₀ : c₀.Started) (hdry : c₀.cfg.dryRun = false)
    (as : List ControllerCall) (p : ℤ) :
    lastMove (c₀.trace as) p = lastPlaced c₀.cfg (c₀.life p as) := by
  rw [lastMove, allMoves, List.find?_flatMap, lastPlaced, ThrottleController.life]
  have hrec := h₀.recorded as
  generalize c₀.trace as = h at hrec
  induction h with
  | nil => rfl
  | cons x h ih =>
    rw [List.forall_mem_cons] at hrec
    have hx := Recorded.find_move hrec.1 hdry p
    rw [List.map_cons, List.findSome?_cons, List.findSome?_cons, ← hx, ← ih hrec.2]
    cases x.2.moves.find? fun m => decide (m.pid = p) && m.ok with
    | none => rfl
    | some m => rfl

/-- A process is throttled, by its standing, iff it was last put in the throttled
    group. -/
def Synced (cfg : ThrottleConfig) (l : List (Touch × Option Attempt)) (o : Option Standing) :
    Prop :=
  o.map (·.state) = some .throttled ↔ lastPlaced cfg l = some cfg.throttledGroup

/-- Being seen does not throttle a process. -/
theorem see_throttled_iff (t : Touch) (o : Option Standing) :
    (t.see o).map (·.state) = some .throttled ↔ o.map (·.state) = some .throttled := by
  cases t with
  | listed nowNs cand =>
    cases o with
    | none => simp [Touch.see, Standing.new]
    | some s => rfl
  | rejected => rfl
  | unlisted nowNs => rfl
  | releaseAll nowNs => rfl

/-- A transition keeps a process where its state says it is. -/
theorem synced_transition (hne : cfg.normalGroup ≠ cfg.throttledGroup)
    {l : List (Touch × Option Attempt)} {t : Touch} {o o' : Option Standing} {a : Option Attempt}
    (h : Transition cfg t o a o') (hl : Synced cfg l o) : Synced cfg ((t, a) :: l) o' := by
  rw [Synced, ← see_throttled_iff t o] at hl
  rw [Synced, lastPlaced, List.findSome?_cons, ← lastPlaced]
  cases h with
  | idle => exact hl
  | expire nowNs s hnow hsee hstate helapsed =>
    rw [hsee] at hl
    simp only [Attempt.placed, Option.map_some, Option.some.injEq, hstate, reduceCtorEq,
      false_iff] at hl ⊢
    exact hl
  | fail kind nowNs s hnow hsee hjust hdue =>
    rw [hsee] at hl
    simp only [Attempt.placed, Option.map_some, Option.some.injEq] at hl ⊢
    rw [← hl]
    split
    case isTrue hcool => simp [hcool]
    case isFalse => rfl
  | succeed kind nowNs s hnow hsee hjust hdue =>
    simp only [Attempt.placed, Option.some.injEq, Option.map_some, target_eq_throttled_iff hne]
    cases kind <;> simp [ActionKind.state]

theorem placed_cases (a : Option Attempt) :
    Attempt.placed cfg a = none ∨ Attempt.placed cfg a = some cfg.throttledGroup ∨
      Attempt.placed cfg a = some cfg.normalGroup := by
  rcases a with _ | ⟨_ | _ | _, _ | _⟩ <;> simp [Attempt.placed, ThrottleConfig.target]

theorem lastPlaced_cases (cfg : ThrottleConfig) (l : List (Touch × Option Attempt)) :
    lastPlaced cfg l = none ∨ lastPlaced cfg l = some cfg.throttledGroup ∨
      lastPlaced cfg l = some cfg.normalGroup := by
  rcases h : lastPlaced cfg l with _ | g
  · exact .inl rfl
  · obtain ⟨x, -, hx⟩ := List.exists_of_findSome?_eq_some h
    rw [← hx]
    exact placed_cases x.2

/-- There is an attempt only on processes with a record. -/
theorem attempted_transition {l : List (Touch × Option Attempt)} {t : Touch}
    {o o' : Option Standing} {a : Option Attempt} (h : Transition cfg t o a o')
    (hl : o = none → ∀ x ∈ l, x.2 = none) : o' = none → ∀ x ∈ (t, a) :: l, x.2 = none := by
  intro ho'
  cases h with
  | idle =>
    refine List.forall_mem_cons.2 ⟨rfl, hl ?_⟩
    cases t with
    | listed nowNs cand => cases ho'
    | rejected => exact ho'
    | unlisted nowNs => exact ho'
    | releaseAll nowNs => exact ho'
  | expire => cases ho'
  | fail => cases ho'
  | succeed => cases ho'

end

variable {c₀ : ThrottleController}

/-- A move of a run is that of an attempt in the life of its process. -/
theorem attempt_of_mem_allMoves (h₀ : c₀.Started) {as : List ControllerCall} {m : CgroupMove}
    (hm : m ∈ allMoves (c₀.trace as)) :
    ∃ kind ok, m = ⟨m.pid, c₀.cfg.target kind, ok⟩ ∧
      ∃ t, (t, some (kind, ok)) ∈ c₀.life m.pid as := by
  obtain ⟨x, hx, hm⟩ := List.mem_flatMap.1 hm
  have hrec := h₀.recorded as x hx
  rw [hrec.moves] at hm
  split at hm
  · cases hm
  obtain ⟨a, ha, rfl⟩ := List.mem_map.1 hm
  refine ⟨a.kind, a.ok, rfl, touch a.pid x, ?_⟩
  -- the action is the one attempt on its process
  have hfilter : a ∈ x.2.actions.filter fun a' => a'.pid = a.pid := List.mem_filter.2 ⟨ha, by simp⟩
  rw [hrec.filter] at hfilter
  obtain ⟨b, hb, hab⟩ := List.mem_map.1 hfilter
  have hattempt : x.2.attempt a.pid = some (a.kind, a.ok) := by
    rw [Option.mem_toList.1 hb, ← hab]
    rfl
  exact List.mem_map.2 ⟨x, hx, by rw [← hattempt]; rfl⟩

/-- In a run that is not a dry run, the state of a record is `THROTTLED` iff the
    last successful move of its process was to the throttled group, and otherwise
    there was none or it was to the normal group. All moves are to one of the two,
    never to the protected group, and of a process with a record. -/
theorem state_matches_last_move {env : InitEnv} {cfg : Option ThrottleConfig}
    (hinit : throttleControllerInit env cfg = (.ok, c₀)) (hdry : c₀.cfg.dryRun = false)
    (as : List ControllerCall) :
    (∀ r ∈ (c₀.run as).records,
      (r.state = .throttled ↔ lastMove (c₀.trace as) r.pid = some c₀.cfg.throttledGroup) ∧
      (r.state = .none ∨ r.state = .cooldown →
        lastMove (c₀.trace as) r.pid = none ∨
          lastMove (c₀.trace as) r.pid = some c₀.cfg.normalGroup)) ∧
      ∀ m ∈ allMoves (c₀.trace as),
        (m.group = c₀.cfg.throttledGroup ∨ m.group = c₀.cfg.normalGroup) ∧
          m.group ≠ c₀.cfg.protectedGroup ∧ ∃ r ∈ (c₀.run as).records, r.pid = m.pid := by
  have h₀ := ThrottleController.started_of_init hinit
  obtain ⟨hnt, hnp, htp⟩ := groups_ne h₀.valid
  refine ⟨fun r hr => ?_, fun m hm => ?_⟩
  · have hsync := h₀.pid_invariant (Synced c₀.cfg) (by simp [Synced, lastPlaced])
      (fun _ _ _ _ _ => synced_transition hnt) as r.pid
    have hfind := findRecord_of_mem (h₀.run_inv as).1.distinct hr
    have hiff : r.state = .throttled ↔
        lastMove (c₀.trace as) r.pid = some c₀.cfg.throttledGroup := by
      rw [Synced, ThrottleController.standing, hfind, ← lastMove_eq h₀ hdry] at hsync
      exact (Option.some.injEq r.state _).symm ▸ hsync
    refine ⟨hiff, fun hstate => ?_⟩
    have hne : ¬r.state = .throttled := by rcases hstate with h | h <;> rw [h] <;> decide
    rw [hiff] at hne
    -- A process goes to the throttled or to the normal group only, and it is not throttled.
    rcases lastPlaced_cases c₀.cfg (c₀.life r.pid as) with h | h | h
    · exact .inl ((lastMove_eq h₀ hdry as r.pid).trans h)
    · exact absurd ((lastMove_eq h₀ hdry as r.pid).trans h) hne
    · exact .inr ((lastMove_eq h₀ hdry as r.pid).trans h)
  · obtain ⟨kind, ok, heq, t, hmem⟩ := attempt_of_mem_allMoves h₀ hm
    have hgroup : m.group = c₀.cfg.target kind := by rw [heq]
    refine ⟨?_, ?_, ?_⟩
    · rw [hgroup]
      cases kind with
      | throttle => exact .inl rfl
      | release => exact .inr rfl
      | staleRelease => exact .inr rfl
    · rw [hgroup]
      cases kind with
      | throttle => exact htp
      | release => exact hnp
      | staleRelease => exact hnp
    · -- No process without a record is ever moved.
      have hknown := h₀.pid_invariant (fun l o => o = none → ∀ x ∈ l, x.2 = none)
        (fun _ => List.forall_mem_nil _) (fun _ _ _ _ _ => attempted_transition) as m.pid
      cases hfind : findRecord (c₀.run as).records m.pid with
      | none =>
        rw [ThrottleController.standing, hfind] at hknown
        cases hknown rfl _ hmem
      | some r => exact ⟨r, mem_of_findRecord hfind, pid_of_findRecord hfind⟩

/-- The run of the default configuration that throttles process `7`. -/
theorem state_matches_last_move_throttled :
    let c₀ := (throttleControllerInit ⟨true, true, true⟩ none).2
    let as := [ControllerCall.applyCandidates (.working 5) [candidateOf 7 (1 / 2)]]
    (c₀.run as).records.map (fun r => (r.pid, r.state)) = [(7, .throttled)] ∧
      lastMove (c₀.trace as) 7 = some .groupThrottled := by
  intro c₀ as
  have hrecords : (c₀.run as).records.map (fun r => (r.pid, r.state)) = [(7, .throttled)] := by
    decide +kernel
  have hmem : ((7, .throttled) : ℤ × ThrottleState) ∈
      (c₀.run as).records.map (fun r => (r.pid, r.state)) := by
    rw [hrecords]
    exact List.mem_singleton_self _
  obtain ⟨r, hr, heq⟩ := List.mem_map.1 hmem
  obtain ⟨hpid, hstate⟩ := Prod.mk.inj heq
  have hinit : throttleControllerInit ⟨true, true, true⟩ none = (.ok, c₀) :=
    Prod.ext (by decide +kernel) rfl
  have hdry : c₀.cfg.dryRun = false := by decide +kernel
  have h := (state_matches_last_move hinit hdry as).1 r hr
  have hgroup : c₀.cfg.throttledGroup = .groupThrottled := by decide +kernel
  rw [hpid, hgroup] at h
  exact ⟨hrecords, h.1.1 hstate⟩

end CgroupResearch
