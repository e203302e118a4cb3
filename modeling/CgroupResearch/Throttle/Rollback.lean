import CgroupResearch.Throttle.Sync

/-!
# Rollback

`throttle_controller_release_all` attempts to move every throttled process back to the
normal group, and a move that fails stops none of the others (`rollback_complete`). The
processes left throttled are those whose move failed, which the next call tries again.
-/

namespace CgroupResearch

/-! ## The loop over the records -/

/-- What a rollback at `nowNs` makes of a record. -/
structure RolledBack (nowNs : UInt64) (r r' : ThrottleRecord) : Prop where
  pid : r'.pid = r.pid
  other : r.state ≠ .throttled → r' = r
  throttled : r.state = .throttled →
    r'.state = .throttled ∨ (r'.state = .cooldown ∧ r'.stateEnteredNs = nowNs)

/-- What a rollback does to the records `rs`, with the releases `as` in the order of the
    records. -/
structure Rollback (cfg : ThrottleConfig) (nowNs : UInt64) (rs : List ThrottleRecord)
    (w : Effects) (rs' : List ThrottleRecord) (w' : Effects) (as : List Action) : Prop where
  records : List.Forall₂ (RolledBack nowNs) rs rs'
  attempted : as.map (fun a => (a.pid, a.kind)) =
    (rs.filter fun r => r.state = .throttled).map fun r => (r.pid, .release)
  failed : (as.filter fun a => !a.ok).map (fun a => (a.pid, a.kind)) =
    (rs'.filter fun r => r.state = .throttled).map fun r => (r.pid, .release)
  actions : w'.actions = as.reverse ++ w.actions
  dryRun : cfg.dryRun = true → ∀ a ∈ as, a.ok = true
  overallRc : w'.overallRc = if ∀ a ∈ as, a.ok = true then w.overallRc else .errCgroup

section

variable (cfg : ThrottleConfig) (env : CallEnv) (nowNs : UInt64)

/-- The release of a record. -/
theorem releaseRecordPid_cases (r : ThrottleRecord) (w : Effects) : ∃ ok : Bool,
    (cfg.dryRun = true → ok = true) ∧
      (releaseRecordPid cfg env nowNs false r w).1 = (if ok then .ok else .errCgroup) ∧
      (releaseRecordPid cfg env nowNs false r w).2.1.pid = r.pid ∧
      ((releaseRecordPid cfg env nowNs false r w).2.1.state =
        if ok then .cooldown else r.state) ∧
      (ok = true → (releaseRecordPid cfg env nowNs false r w).2.1.stateEnteredNs = nowNs) ∧
      (releaseRecordPid cfg env nowNs false r w).2.2.actions =
        ⟨r.pid, .release, ok⟩ :: w.actions ∧
      (releaseRecordPid cfg env nowNs false r w).2.2.overallRc = w.overallRc := by
  obtain ⟨ok, hdry, hmove⟩ := movePid_cases cfg env w r.pid cfg.normalGroup
  refine ⟨ok, hdry, ?_⟩
  rw [releaseRecordPid, hmove]
  cases ok with
  | false => exact ⟨rfl, rfl, rfl, fun h => absurd h Bool.false_ne_true, rfl, rfl⟩
  | true => exact ⟨rfl, rfl, rfl, fun _ => rfl, rfl, rfl⟩

/-- The turn of a record. -/
theorem releaseThrottled_rollback (r : ThrottleRecord) (w : Effects) : ∃ as,
    Rollback cfg nowNs [r] w [(releaseThrottled cfg env nowNs r w).1]
      (releaseThrottled cfg env nowNs r w).2 as := by
  rw [releaseThrottled]
  split
  case isTrue hstate =>
    have hback : RolledBack nowNs r r := ⟨rfl, fun _ => rfl, fun h => absurd h hstate⟩
    exact ⟨[], .cons hback .nil, by simp [hstate], by simp [hstate], rfl,
      fun _ => List.forall_mem_nil _, by simp⟩
  case isFalse hstate =>
    rw [not_not] at hstate
    obtain ⟨ok, hdry, hrc, hpid, hstate', hentered, hactions, hoverall⟩ :=
      releaseRecordPid_cases cfg env nowNs r w
    refine ⟨[⟨r.pid, .release, ok⟩], .cons ⟨hpid, fun h => absurd hstate h, fun _ => ?_⟩ .nil,
      by simp [hstate], ?_, by simpa using hactions, fun h => by simpa using hdry h, ?_⟩
    · cases ok with
      | false => exact .inl (hstate'.trans hstate)
      | true => exact .inr ⟨hstate', hentered rfl⟩
    · cases ok with
      | false => simp [hstate', hstate, hpid]
      | true => simp [hstate']
    · change (Effects.noteRc _ (releaseRecordPid cfg env nowNs false r w).1).overallRc = _
      rw [hrc, Effects.noteRc]
      cases ok with
      | false => simp
      | true => simp [hoverall]

variable {cfg nowNs} in
theorem Rollback.append {rs₁ rs₂ rs₁' rs₂' : List ThrottleRecord} {w w₁ w₂ : Effects}
    {as₁ as₂ : List Action} (h₁ : Rollback cfg nowNs rs₁ w rs₁' w₁ as₁)
    (h₂ : Rollback cfg nowNs rs₂ w₁ rs₂' w₂ as₂) :
    Rollback cfg nowNs (rs₁ ++ rs₂) w (rs₁' ++ rs₂') w₂ (as₁ ++ as₂) where
  records := List.rel_append h₁.records h₂.records
  attempted := by
    rw [List.map_append, h₁.attempted, h₂.attempted, List.filter_append, List.map_append]
  failed := by
    rw [List.filter_append, List.map_append, h₁.failed, h₂.failed, List.filter_append,
      List.map_append]
  actions := by rw [h₂.actions, h₁.actions, List.reverse_append, List.append_assoc]
  dryRun h := List.forall_mem_append.2 ⟨h₁.dryRun h, h₂.dryRun h⟩
  overallRc := by
    rw [h₂.overallRc, h₁.overallRc]
    simp only [List.forall_mem_append]
    split <;> split <;> simp_all

section

variable {cfg nowNs} {rs rs' : List ThrottleRecord} {w w' : Effects} {as : List Action}

/-- The targets of the releases. -/
theorem Rollback.map_target (h : Rollback cfg nowNs rs w rs' w' as) :
    as.map (fun a => (a.pid, cfg.target a.kind)) =
      (rs.filter fun r => r.state = .throttled).map fun r => (r.pid, cfg.normalGroup) := by
  have hmap := congrArg (List.map fun x => (x.1, cfg.target x.2)) h.attempted
  rwa [List.map_map, List.map_map] at hmap

/-- The targets of those that failed. -/
theorem Rollback.map_failed (h : Rollback cfg nowNs rs w rs' w' as) :
    (as.filter fun a => !a.ok).map (fun a => (a.pid, cfg.target a.kind)) =
      (rs'.filter fun r => r.state = .throttled).map fun r => (r.pid, cfg.normalGroup) := by
  have hmap := congrArg (List.map fun x => (x.1, cfg.target x.2)) h.failed
  rwa [List.map_map, List.map_map] at hmap

/-- The processes left throttled are those whose release failed. -/
theorem Rollback.throttled_iff (h : Rollback cfg nowNs rs w rs' w' as) {actions : List Action}
    (hactions : actions = as.reverse) (p : ℤ) :
    (∃ r ∈ rs', r.pid = p ∧ r.state = .throttled) ↔ ∃ a ∈ actions, a.pid = p ∧ a.ok = false := by
  have hpids := congrArg (List.map Prod.fst) h.failed
  rw [List.map_map, List.map_map] at hpids
  have hleft : (∃ r ∈ rs', r.pid = p ∧ r.state = .throttled) ↔
      p ∈ (rs'.filter fun r => r.state = .throttled).map (·.pid) := by
    simp [and_assoc, and_comm]
  have hfailed : (∃ a ∈ actions, a.pid = p ∧ a.ok = false) ↔
      p ∈ (as.filter fun a => !a.ok).map (·.pid) := by
    simp [hactions, and_assoc, and_left_comm, and_comm]
  rw [hleft, hfailed]
  exact iff_of_eq (congrArg (p ∈ ·) hpids.symm)

end

/-- The loop over the records rolls them all back. -/
theorem forRecords_rollback (rs : List ThrottleRecord) (w : Effects) : ∃ as,
    Rollback cfg nowNs rs w (forRecords (releaseThrottled cfg env nowNs) rs w).1
      (forRecords (releaseThrottled cfg env nowNs) rs w).2 as := by
  induction rs generalizing w with
  | nil => exact ⟨[], .nil, rfl, rfl, rfl, fun _ => nofun, by simp [forRecords]⟩
  | cons r rs ih =>
    obtain ⟨as₁, h₁⟩ := releaseThrottled_rollback cfg env nowNs r w
    obtain ⟨as₂, h₂⟩ := ih (releaseThrottled cfg env nowNs r w).2
    exact ⟨as₁ ++ as₂, h₁.append h₂⟩

end

/-! ## The call -/

section

variable {c : ThrottleController} {env : CallEnv} {nowNs : UInt64}

/-- A call that goes through rolls all records back. -/
theorem releaseAll_rollback (hinv : c.Inv) (hnow : controllerNowNs c.cfg env.clock = some nowNs) :
    ∃ w as, Rollback c.cfg nowNs c.records (.start throttleStatsReset)
        (releaseAll env c).2.records w as ∧
      (releaseAll env c).1.rc = w.overallRc ∧ (releaseAll env c).1.actions = w.actions := by
  obtain ⟨as, h⟩ := forRecords_rollback c.cfg env nowNs c.records (.start throttleStatsReset)
  rw [releaseAll, if_neg (by simp [hinv.initialized]), hnow]
  exact ⟨_, as, h, rfl, rfl⟩

end

/-- In a dry run there are no moves. -/
theorem lastMove_dryRun {c₀ : ThrottleController} (h₀ : c₀.Started) (hdry : c₀.cfg.dryRun = true)
    (as : List ControllerCall) (p : ℤ) : lastMove (c₀.trace as) p = none := by
  have hnil : allMoves (c₀.trace as) = [] := by
    rw [allMoves, List.flatMap_eq_nil_iff]
    intro x hx
    rw [(h₀.recorded as x hx).moves, if_pos hdry]
  rw [lastMove, hnil]
  rfl

/-- From every reachable state and with a working clock, a rollback attempts one move to the
    normal group for every throttled record, and no other (in a dry run without making
    them). Then the throttled processes are those whose move failed, the others that were
    throttled are in cooldown since now, and the remaining records are as before. It returns
    `OK` iff no move failed. The next rollback attempts the moves that failed, and after one
    that returns `OK`, no process was last moved to the throttled group. -/
theorem rollback_complete {env₀ : InitEnv} {cfg : Option ThrottleConfig} {c₀ : ThrottleController}
    (hinit : throttleControllerInit env₀ cfg = (.ok, c₀)) (as : List ControllerCall)
    (env : CallEnv) {nowNs : UInt64} (hnow : controllerNowNs c₀.cfg env.clock = some nowNs) :
    let c := c₀.run as
    let out := releaseAll env c
    (out.1.actions.map fun a => (a.pid, c₀.cfg.target a.kind)).reverse =
      (c.records.filter fun r => r.state = .throttled).map (fun r => (r.pid, c₀.cfg.normalGroup)) ∧
    (out.1.moves = if c₀.cfg.dryRun then [] else out.1.actions.map c₀.cfg.move) ∧
    (∀ p, (∃ r ∈ out.2.records, r.pid = p ∧ r.state = .throttled) ↔
      ∃ a ∈ out.1.actions, a.pid = p ∧ a.ok = false) ∧
    List.Forall₂ (RolledBack nowNs) c.records out.2.records ∧
    (out.1.rc = .ok ↔ ∀ m ∈ out.1.moves, m.ok = true) ∧
    (∀ env' nowNs', controllerNowNs c₀.cfg env'.clock = some nowNs' →
      (releaseAll env' out.2).1.actions.map (fun a => (a.pid, c₀.cfg.target a.kind)) =
        (out.1.actions.filter fun a => !a.ok).map fun a => (a.pid, c₀.cfg.target a.kind)) ∧
    (out.1.rc = .ok → ∀ p,
      lastMove (c₀.trace (.releaseAll env :: as)) p ≠ some c₀.cfg.throttledGroup) := by
  intro c out
  have h₀ := ThrottleController.started_of_init hinit
  obtain ⟨hinv, hcfg, -⟩ := h₀.run_inv as
  have hmoves := hinv.call_moves (.releaseAll env)
  rw [hcfg, ThrottleController.call] at hmoves
  rw [← hcfg] at hnow
  obtain ⟨w, acts, hback, hrc, hactions⟩ := releaseAll_rollback hinv hnow
  rw [hcfg] at hback
  rw [hback.actions, Effects.start, List.append_nil] at hactions
  have hactions' : out.1.actions = acts.reverse := hactions
  have hrc' : out.1.rc = .ok ↔ ∀ a ∈ acts, a.ok = true := by
    rw [show out.1.rc = _ from hrc, hback.overallRc]
    split <;> simp_all [Effects.start]
  have hstill : out.1.actions.filter (fun a => !a.ok) = (acts.filter fun a => !a.ok).reverse := by
    rw [hactions', List.filter_reverse]
  refine ⟨?_, hmoves, hback.throttled_iff hactions', hback.records, hrc'.trans ?_,
    fun env' nowNs' hnow' => ?_, fun hok p hlast => ?_⟩
  · rw [hactions', List.map_reverse, List.reverse_reverse]
    exact hback.map_target
  · rw [hmoves, hactions']
    cases hdry : c₀.cfg.dryRun with
    | true => exact iff_of_true (hback.dryRun hdry) (List.forall_mem_nil _)
    | false => simp [ThrottleConfig.move]
  · have hinv' : out.2.Inv := hinv.call (.releaseAll env)
    have hcfg' : out.2.cfg = c₀.cfg := (hinv.call_cfg (.releaseAll env)).1.trans hcfg
    rw [← hcfg'] at hnow'
    obtain ⟨w', acts', hback', -, hactions''⟩ := releaseAll_rollback hinv' hnow'
    rw [hcfg'] at hback'
    rw [hback'.actions, Effects.start, List.append_nil] at hactions''
    rw [hactions'', hstill, List.map_reverse, List.map_reverse, hback'.map_target, hback.map_failed]
  · cases hdry : c₀.cfg.dryRun with
    | true =>
      rw [lastMove_dryRun h₀ hdry] at hlast
      cases hlast
    | false =>
      have hsync := h₀.pid_invariant (Synced c₀.cfg) (by simp [Synced, lastPlaced])
        (fun _ _ _ _ _ => synced_transition (groups_ne h₀.valid).1) (.releaseAll env :: as) p
      rw [Synced, ← lastMove_eq h₀ hdry] at hsync
      obtain ⟨s, hs, hstate⟩ := Option.map_eq_some_iff.1 (hsync.2 hlast)
      obtain ⟨r, hr, rfl⟩ := Option.map_eq_some_iff.1 hs
      -- a record still throttled is that of a failed release
      obtain ⟨a, ha, -, hfailed⟩ := (hback.throttled_iff hactions' p).1
        ⟨r, mem_of_findRecord hr, pid_of_findRecord hr, hstate⟩
      rw [hactions', List.mem_reverse] at ha
      rw [hrc'.1 hok a ha] at hfailed
      cases hfailed

/-- Of two throttled processes, the release of one fails, and is tried again. -/
theorem rollback_complete_two :
    let c₀ := (throttleControllerInit ⟨true, true, true⟩ none).2
    let as := [ControllerCall.applyCandidates (.working 5) [candidateOf 7 1, candidateOf 8 1]]
    let env : CallEnv := ⟨⟨0, 0, 9, 0, 9⟩, fun _ pid _ => pid ≠ 8⟩
    let out := releaseAll env (c₀.run as)
    out.1.rc = .errCgroup ∧
      (releaseAll (.working 9) out.2).1.actions.map (fun a => (a.pid, c₀.cfg.target a.kind)) =
        [(8, .groupBackground)] := by
  intro c₀ as env out
  have hinit : throttleControllerInit ⟨true, true, true⟩ none = (.ok, c₀) :=
    Prod.ext (by decide +kernel) rfl
  have hnow : controllerNowNs c₀.cfg env.clock = some 9 := by decide +kernel
  have hnext := (rollback_complete hinit as env hnow).2.2.2.2.2.1 (.working 9) 9 (by decide +kernel)
  have hfailed : (out.1.actions.filter fun a => !a.ok).map
      (fun a => (a.pid, c₀.cfg.target a.kind)) = [(8, .groupBackground)] := by decide +kernel
  exact ⟨by decide +kernel, hnext.trans hfailed⟩

end CgroupResearch
