import CgroupResearch.Throttle.Run

/-!
# Throttling does not flap

Under a clock that does not go back, a process that was throttled is released by
a list of candidates only after the minimal duration, and a process that was
released is throttled again only after the cooldown (`throttling_dwells`). Both
hold of any two actions on it, not only of successive ones.

The time a state was entered is written at every change of state: at an action,
it is the time of the action, and at the end of a cooldown a time by which the
cooldown was over.
-/

namespace CgroupResearch

/-! ## Durations -/

/-- A duration in nanoseconds, saturating. -/
def satNs (ms : UInt64) : ℕ := min (ms.toNat * 10 ^ 6) (2 ^ 64 - 1)

/-- The conversion of a duration does not wrap. -/
theorem msToNs_toNat (ms : UInt64) : (msToNs ms).toNat = satNs ms := by
  have hmax : (UInt64.ofNat (2 ^ 64 - 1)).toNat = 2 ^ 64 - 1 := by decide
  have hmsec : nsecPerMsec.toNat = 10 ^ 6 := by decide
  rw [msToNs, satNs]
  split
  case isTrue h =>
    rw [UInt64.lt_iff_toNat_lt, UInt64.toNat_div, hmax, hmsec] at h
    rw [hmax]
    omega
  case isFalse h =>
    rw [UInt64.lt_iff_toNat_lt, UInt64.toNat_div, hmax, hmsec] at h
    rw [UInt64.toNat_mul, hmsec]
    omega

/-- Neither does the comparison of two times. -/
theorem elapsedAtLeast_iff (nowNs startNs ms : UInt64) :
    elapsedAtLeast nowNs startNs ms = true ↔ startNs.toNat + satNs ms ≤ nowNs.toNat := by
  rw [elapsedAtLeast, ← msToNs_toNat]
  split
  case isTrue h =>
    rw [UInt64.lt_iff_toNat_lt] at h
    simp only [Bool.false_eq_true, false_iff]
    omega
  case isFalse h =>
    have hle : startNs ≤ nowNs := UInt64.not_lt.1 h
    rw [decide_eq_true_iff, UInt64.le_iff_toNat_le, UInt64.toNat_sub_of_le _ _ hle]
    rw [UInt64.le_iff_toNat_le] at hle
    omega

/-! ## Successful actions in time -/

/-- A successful action on a process: the time of its call, and whether that was
    `throttle_controller_release_all`. -/
structure TimedAction where
  nowNs : UInt64
  byReleaseAll : Bool
  kind : ActionKind
  deriving DecidableEq, Repr

/-- Whether a call releases all. -/
def ControllerCall.isReleaseAll : ControllerCall → Bool
  | .applyCandidates _ _ => false
  | .releaseAll _ => true

/-- The successful actions of a call on a process. -/
def timedActions (p : ℤ) (x : ControllerCall × CallResult) : List TimedAction :=
  match x.2.now with
  | none => []
  | some nowNs => (x.2.actions.filter fun a => decide (a.pid = p) && a.ok).map fun a =>
      ⟨nowNs, x.1.isReleaseAll, a.kind⟩

/-- The successful actions of a run on a process, the latest first. -/
def actionsOn (p : ℤ) (h : List (ControllerCall × CallResult)) : List TimedAction :=
  h.flatMap (timedActions p)

/-- The readings of the clock in a run, the latest first. -/
def readings (h : List (ControllerCall × CallResult)) : List UInt64 :=
  h.filterMap fun x => x.2.now

/-- The clock does not go back, in readings with the latest first. -/
def ClockForward (times : List UInt64) : Prop :=
  times.Pairwise fun later earlier => earlier ≤ later

/-- The law of two actions on a process. -/
structure Dwell (cfg : ThrottleConfig) (later earlier : TimedAction) : Prop where
  throttled : earlier.kind = .throttle → later.kind ≠ .throttle → later.byReleaseAll = false →
    earlier.nowNs.toNat + satNs cfg.minThrottleDurationMs ≤ later.nowNs.toNat
  released : earlier.kind ≠ .throttle → later.kind = .throttle →
    earlier.nowNs.toNat + satNs cfg.cooldownDurationMs ≤ later.nowNs.toNat

/-! ## Along the life of a process -/

/-- Whether a call, as a process lives it, releases all. -/
def Touch.isReleaseAll : Touch → Bool
  | .releaseAll _ => true
  | _ => false

/-- The successful action in a call of the life of a process. -/
def timed (x : Touch × Option Attempt) : Option TimedAction :=
  match x.1.now, x.2 with
  | some nowNs, some (kind, true) => some ⟨nowNs, x.1.isReleaseAll, kind⟩
  | _, _ => none

/-- The times in the life of a process. -/
def times (l : List (Touch × Option Attempt)) : List UInt64 := l.filterMap fun x => x.1.now

/-- The invariant of a process: the law of its actions, and what the time its state
    was entered says of them. -/
structure Paced (cfg : ThrottleConfig) (l : List (Touch × Option Attempt)) (o : Option Standing) :
    Prop where
  law : (l.filterMap timed).Pairwise (Dwell cfg)
  unknown : o = none → l.filterMap timed = []
  entered : ∀ s ∈ o, s.stateEnteredNs ∈ times l
  throttled : ∀ s ∈ o, s.state = .throttled → ∀ e ∈ l.filterMap timed, e.kind = .throttle →
    e.nowNs ≤ s.stateEnteredNs
  cooldown : ∀ s ∈ o, s.state = .cooldown → ∀ e ∈ l.filterMap timed, e.kind ≠ .throttle →
    e.nowNs ≤ s.stateEnteredNs
  normal : ∀ s ∈ o, s.state = .none → ∀ e ∈ l.filterMap timed, e.kind ≠ .throttle →
    e.nowNs.toNat + satNs cfg.cooldownDurationMs ≤ s.stateEnteredNs.toNat

section

variable {cfg : ThrottleConfig} {l : List (Touch × Option Attempt)} {t : Touch}
  {o o' : Option Standing} {a : Option Attempt} {nowNs : UInt64} {s : Standing}

/-- A call without a successful action adds none. -/
theorem filterMap_timed_cons (t : Touch) (l : List (Touch × Option Attempt))
    (h : ∀ kind, a ≠ some (kind, true)) :
    ((t, a) :: l).filterMap timed = l.filterMap timed := by
  rcases a with _ | ⟨kind, _ | _⟩
  · cases t <;> rfl
  · cases t <;> rfl
  · exact absurd rfl (h kind)

/-- The time of an action is one of the times of its life. -/
theorem mem_times {e : TimedAction} (he : e ∈ l.filterMap timed) : e.nowNs ∈ times l := by
  obtain ⟨x, hx, hxe⟩ := List.mem_filterMap.1 he
  refine List.mem_filterMap.2 ⟨x, hx, ?_⟩
  rw [timed] at hxe
  split at hxe
  case h_1 nowNs kind hnow hattempt =>
    cases hxe
    exact hnow
  case h_2 => cases hxe

theorem times_cons (hnow : t.now = some nowNs) (a : Option Attempt)
    (l : List (Touch × Option Attempt)) : times ((t, a) :: l) = nowNs :: times l := by
  rw [times, List.filterMap_cons, hnow, times]

theorem times_subset : times l ⊆ times ((t, a) :: l) := by
  intro u hu
  rw [times, List.filterMap_cons]
  split
  · exact hu
  · exact List.mem_cons_of_mem _ hu

/-- A call that does not change the state of the process. -/
theorem Paced.see (h : Paced cfg l o) (t : Touch) (ha : ∀ kind, a ≠ some (kind, true)) :
    Paced cfg ((t, a) :: l) (t.see o) := by
  have hevents := filterMap_timed_cons t l ha
  have hkeep : Paced cfg ((t, a) :: l) o := by
    refine ⟨?_, ?_, fun s hs => times_subset (h.entered s hs), ?_, ?_, ?_⟩ <;> rw [hevents]
    · exact h.law
    · exact h.unknown
    · exact h.throttled
    · exact h.cooldown
    · exact h.normal
  cases t with
  | rejected => exact hkeep
  | unlisted nowNs => exact hkeep
  | releaseAll nowNs => exact hkeep
  | listed nowNs cand =>
    cases o with
    | none =>
      -- the process is new, without any action on it
      have hnil := hkeep.unknown rfl
      refine ⟨hkeep.law, nofun, ?_, ?_, ?_, ?_⟩
      · rintro s ⟨⟩
        rw [times_cons rfl]
        exact List.mem_cons_self
      all_goals
        intro s _ _ e he
        rw [hnil] at he
        cases he
    | some s₀ =>
      refine ⟨hkeep.law, nofun, ?_, ?_, ?_, ?_⟩
      all_goals rintro s ⟨⟩
      · exact hkeep.entered s₀ rfl
      · exact hkeep.throttled s₀ rfl
      · exact hkeep.cooldown s₀ rfl
      · exact hkeep.normal s₀ rfl

/-- The end of a cooldown. -/
theorem Paced.expire (h : Paced cfg ((t, a) :: l) (some s)) (hnow : t.now = some nowNs)
    (hstate : s.state = .cooldown)
    (helapsed : elapsedAtLeast nowNs s.stateEnteredNs cfg.cooldownDurationMs = true) :
    Paced cfg ((t, a) :: l) (some { s with state := .none, stateEnteredNs := nowNs }) := by
  rw [elapsedAtLeast_iff] at helapsed
  refine ⟨h.law, nofun, ?_, ?_, ?_, ?_⟩
  all_goals rintro s' ⟨⟩
  · rw [times_cons hnow]
    exact List.mem_cons_self
  · exact nofun
  · exact nofun
  · intro _ e he hkind
    have hle := UInt64.le_iff_toNat_le.1 (h.cooldown s rfl hstate e he hkind)
    simp only
    omega

/-- An attempt to release is made from `THROTTLED`, by a list of candidates only
    after the minimal duration. -/
theorem Due.release {kind : ActionKind} (hdue : Due cfg nowNs kind t s) (hkind : kind ≠ .throttle) :
    s.state = .throttled ∧ (t.isReleaseAll = false →
      elapsedAtLeast nowNs s.stateEnteredNs cfg.minThrottleDurationMs = true) := by
  cases t with
  | releaseAll nowNs =>
    cases kind with
    | throttle => exact absurd rfl hkind
    | release => exact ⟨hdue, nofun⟩
    | staleRelease => exact ⟨hdue, nofun⟩
  | _ =>
    cases kind with
    | throttle => exact absurd rfl hkind
    | release => exact ⟨hdue.1, fun _ => hdue.2⟩
    | staleRelease => exact ⟨hdue.1, fun _ => hdue.2⟩

/-- A successful action: the law with those before it. -/
theorem Paced.dwell {kind : ActionKind} (h : Paced cfg ((t, none) :: l) (some s))
    (hlast : ∀ u ∈ times ((t, none) :: l), u ≤ nowNs)
    (hdue : Due cfg nowNs kind t s) {e : TimedAction} (he : e ∈ ((t, none) :: l).filterMap timed) :
    Dwell cfg ⟨nowNs, t.isReleaseAll, kind⟩ e := by
  refine ⟨fun hearlier hkind hlist => ?_, fun hearlier hkind => ?_⟩
  · obtain ⟨hstate, helapsed⟩ := hdue.release hkind
    have hle := UInt64.le_iff_toNat_le.1 (h.throttled s rfl hstate e he hearlier)
    have hmin := (elapsedAtLeast_iff _ _ _).1 (helapsed hlist)
    simp only
    omega
  · cases hkind
    rcases hdue with hstate | ⟨hstate, helapsed⟩
    · -- the cooldown was over when the state was entered
      have hcool := h.normal s rfl hstate e he hearlier
      have hle := UInt64.le_iff_toNat_le.1 (hlast _ (h.entered s rfl))
      simp only
      omega
    · have hle := UInt64.le_iff_toNat_le.1 (h.cooldown s rfl hstate e he hearlier)
      have hcool := (elapsedAtLeast_iff _ _ _).1 helapsed
      simp only
      omega

theorem timed_succeed (hnow : t.now = some nowNs) (kind : ActionKind) :
    timed (t, some (kind, true)) = some ⟨nowNs, t.isReleaseAll, kind⟩ := by
  simp only [timed, hnow]

/-- One more action that is due keeps the pace. -/
theorem Paced.succeed {kind : ActionKind} (h : Paced cfg ((t, none) :: l) (some s))
    (hnow : t.now = some nowNs) (hlast : ∀ u ∈ times ((t, none) :: l), u ≤ nowNs)
    (hdue : Due cfg nowNs kind t s) :
    Paced cfg ((t, some (kind, true)) :: l)
      (some { s with state := kind.state, stateEnteredNs := nowNs }) := by
  have hevents := filterMap_timed_cons t l (a := none) nofun
  have hevents' : ((t, some (kind, true)) :: l).filterMap timed =
      ⟨nowNs, t.isReleaseAll, kind⟩ :: l.filterMap timed := by
    rw [List.filterMap_cons, timed_succeed hnow]
  have htimes : times ((t, some (kind, true)) :: l) = times ((t, none) :: l) := by
    rw [times_cons hnow, times_cons hnow]
  -- every action up to this one is at a time of the clock
  have hbefore : ∀ e ∈ ((t, some (kind, true)) :: l).filterMap timed, e.nowNs ≤ nowNs := by
    intro e he
    exact hlast _ (htimes ▸ mem_times he)
  refine ⟨?_, nofun, ?_, ?_, ?_, ?_⟩
  · rw [hevents', List.pairwise_cons]
    refine ⟨fun e he => h.dwell hlast hdue (hevents.symm ▸ he), ?_⟩
    rw [← hevents]
    exact h.law
  all_goals rintro s' ⟨⟩
  · rw [times_cons hnow]
    exact List.mem_cons_self
  · exact fun _ e he _ => hbefore e he
  · exact fun _ e he _ => hbefore e he
  · intro hstate
    cases kind <;> cases hstate

/-- A transition keeps the pace, as long as the clock does not go back. -/
theorem paced_transition (h : Transition cfg t o a o') (hl : ClockForward (times l) → Paced cfg l o)
    (hclock : ClockForward (times ((t, a) :: l))) : Paced cfg ((t, a) :: l) o' := by
  have hpaced := hl (hclock.sublist ?_)
  · cases h with
    | idle => exact hpaced.see t nofun
    | expire nowNs s hnow hsee hstate helapsed =>
      have hs := hpaced.see (a := none) t nofun
      rw [hsee] at hs
      exact hs.expire hnow hstate helapsed
    | fail kind nowNs s hnow hsee hjust hdue =>
      have hs := hpaced.see (a := some (kind, false)) t nofun
      rw [hsee] at hs
      split
      case isTrue hcool =>
        -- An attempt out of a cooldown waits until it is over, and ends it also where it fails.
        refine hs.expire hnow hcool ?_
        by_cases hkind : kind = .throttle
        · subst hkind
          rcases hdue with hnone | ⟨-, helapsed⟩
          · rw [hcool] at hnone
            cases hnone
          · exact helapsed
        · have hthrottled := (hdue.release hkind).1
          rw [hcool] at hthrottled
          cases hthrottled
      case isFalse => exact hs
    | succeed kind nowNs s hnow hsee hjust hdue =>
      have hs := hpaced.see (a := none) t nofun
      rw [hsee] at hs
      rw [times_cons hnow] at hclock
      refine hs.succeed hnow ?_ hdue
      rw [times_cons hnow]
      exact List.forall_mem_cons.2 ⟨UInt64.le_refl _, (List.pairwise_cons.1 hclock).1⟩
  · exact (List.sublist_cons_self _ _).filterMap _

end

/-! ## Along a run -/

section

variable {c₀ : ThrottleController}

@[simp] theorem touch_now (p : ℤ) (x : ControllerCall × CallResult) :
    (touch p x).now = x.2.now := by
  rcases hnow : x.2.now with _ | nowNs
  · simp [touch, hnow, Touch.now]
  rcases hcall : x.1 with ⟨env, candidates⟩ | env
  · simp only [touch, hnow, hcall, listTouch]
    split <;> rfl
  · simp [touch, hnow, hcall, Touch.now]

theorem touch_isReleaseAll (p : ℤ) {x : ControllerCall × CallResult} {nowNs : UInt64}
    (hnow : x.2.now = some nowNs) : (touch p x).isReleaseAll = x.1.isReleaseAll := by
  rcases hcall : x.1 with ⟨env, candidates⟩ | env
  · simp only [touch, hnow, hcall, listTouch]
    split <;> rfl
  · simp [touch, hnow, hcall, Touch.isReleaseAll, ControllerCall.isReleaseAll]

theorem readings_eq (p : ℤ) (as : List ControllerCall) :
    readings (c₀.trace as) = times (c₀.life p as) := by
  rw [times, ThrottleController.life, List.filterMap_map, readings]
  congr 1
  funext x
  exact (touch_now p x).symm

theorem timedActions_eq {x : ControllerCall × CallResult} {cfg : ThrottleConfig}
    (h : ThrottleController.Recorded cfg x.2) (p : ℤ) :
    timedActions p x = (timed (touch p x, x.2.attempt p)).toList := by
  rw [timedActions, timed, touch_now]
  rcases hnow : x.2.now with _ | nowNs
  · rfl
  · have hfilter : (x.2.actions.filter fun a => decide (a.pid = p) && a.ok) =
        (x.2.actions.filter fun a => a.pid = p).filter (·.ok) := by
      rw [List.filter_filter]
      congr 1
      funext a
      exact Bool.and_comm _ _
    simp only [hfilter, h.filter p]
    rcases x.2.attempt p with _ | ⟨kind, _ | _⟩
    · rfl
    · rfl
    · simp [Attempt.action, touch_isReleaseAll p hnow]

theorem actionsOn_eq (h₀ : c₀.Started) (p : ℤ) (as : List ControllerCall) :
    actionsOn p (c₀.trace as) = (c₀.life p as).filterMap timed := by
  rw [actionsOn, ThrottleController.life, List.filterMap_map, List.filterMap_eq_flatMap_toList]
  refine List.flatMap_congr fun x hx => ?_
  exact timedActions_eq (h₀.recorded as x hx) p

end

/-- In a run whose clock does not go back, any two successful actions on a process
    are as far apart as their kinds demand: a release by a list of candidates comes
    at least the minimal duration after a throttling, and a throttling at least the
    cooldown after a release, be it by `throttle_controller_release_all`. The times
    are compared without wrapping. -/
theorem throttling_dwells {env : InitEnv} {cfg : Option ThrottleConfig} {c₀ : ThrottleController}
    (hinit : throttleControllerInit env cfg = (.ok, c₀)) (as : List ControllerCall)
    (hclock : ClockForward (readings (c₀.trace as))) (p : ℤ) :
    (actionsOn p (c₀.trace as)).Pairwise (Dwell c₀.cfg) ∧
      (∀ ms, (msToNs ms).toNat = min (ms.toNat * 10 ^ 6) (2 ^ 64 - 1)) ∧
      ∀ nowNs startNs ms, elapsedAtLeast nowNs startNs ms = true ↔
        startNs.toNat + min (ms.toNat * 10 ^ 6) (2 ^ 64 - 1) ≤ nowNs.toNat := by
  have h₀ := ThrottleController.started_of_init hinit
  refine ⟨?_, msToNs_toNat, elapsedAtLeast_iff⟩
  have hpaced := h₀.pid_invariant (fun l o => ClockForward (times l) → Paced c₀.cfg l o)
    (fun _ => ⟨.nil, fun _ => rfl, nofun, nofun, nofun, nofun⟩)
    (fun _ _ _ _ _ => paced_transition) as p
  rw [readings_eq p] at hclock
  rw [actionsOn_eq h₀]
  exact (hpaced hclock).law

/-- The run of the default configuration that throttles process `7`, releases it
    and throttles it again. -/
theorem throttling_dwells_again :
    let c₀ := (throttleControllerInit ⟨true, true, true⟩ none).2
    let as := [ControllerCall.applyCandidates (.working 9000000000) [candidateOf 7 (1 / 2)],
      .applyCandidates (.working 4000000000) [candidateOf 7 0],
      .applyCandidates (.working 5) [candidateOf 7 (1 / 2)]]
    (actionsOn 7 (c₀.trace as)).map (·.kind) = [.throttle, .release, .throttle] ∧
      (actionsOn 7 (c₀.trace as)).Pairwise (Dwell c₀.cfg) := by
  intro c₀ as
  have hinit : throttleControllerInit ⟨true, true, true⟩ none = (.ok, c₀) :=
    Prod.ext (by decide +kernel) rfl
  have hclock : ClockForward (readings (c₀.trace as)) := by
    have hreadings : readings (c₀.trace as) = [9000000000, 4000000000, 5] := by decide +kernel
    rw [ClockForward, hreadings]
    decide +kernel
  exact ⟨by decide +kernel, (throttling_dwells hinit as hclock 7).1⟩

end CgroupResearch
