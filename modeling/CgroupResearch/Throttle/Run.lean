import CgroupResearch.Lib.Machine
import CgroupResearch.Throttle.Calls

/-!
# Runs of the controller

A run is a sequence of calls, of `throttle_controller_apply_candidates` and
`throttle_controller_release_all`, after a successful initialisation. Every call
preserves the invariant of the controller (`Inv.call`) and is, for every process,
one step of it (`Inv.call_pid`). Hence what every step of a process preserves holds
of it throughout a run (`run_pid_invariant`).
-/

namespace CgroupResearch

/-- A call of the controller, with what it meets in the system. -/
inductive ControllerCall
  | applyCandidates (env : CallEnv) (candidates : List InterferenceCandidate)
  | releaseAll (env : CallEnv)

/-- What a call meets when its clock reads `nowNs` and every write succeeds. -/
def CallEnv.working (nowNs : UInt64) : CallEnv where
  clock := ⟨0, 0, nowNs, 0, nowNs⟩
  written _ _ _ := true

/-- A candidate with the given score, reported as active. -/
def candidateOf (pid : ℤ) (score : ℚ) : InterferenceCandidate :=
  ⟨pid, .ofRat 1, .ofRat score, .ofRat score, 64, true, true⟩

namespace ThrottleController

/-- A call of the controller. -/
def call (c : ThrottleController) : ControllerCall → CallResult × ThrottleController
  | .applyCandidates env candidates => applyCandidates env c candidates
  | .releaseAll env => releaseAll env c

/-- The standing of a process, if it has a record. -/
def standing (c : ThrottleController) (p : ℤ) : Option Standing :=
  (findRecord c.records p).map (·.standing)

/-- The invariant of the controller: it is ready, its records are of distinct
    processes, and there are no more of them than it has room for. -/
structure Inv (c : ThrottleController) : Prop where
  initialized : c.initialized = true
  distinct : (c.records.map (·.pid)).Nodup
  length_le : c.records.length ≤ c.recordCap.toNat

end ThrottleController

/-- The attempt of a call on a process, if there is one. -/
def CallResult.attempt (res : CallResult) (p : ℤ) : Option Attempt :=
  (res.actions.find? fun a => a.pid = p).map fun a => (a.kind, a.ok)

/-- What an accepted list is for a process. -/
def listTouch (nowNs : UInt64) (candidates : List InterferenceCandidate) (p : ℤ) : Touch :=
  match candidates.find? fun cand => cand.pid = p with
  | some cand => .listed nowNs cand
  | none => .unlisted nowNs

/-- What a call, with its result, is for a process. -/
def touch (p : ℤ) (x : ControllerCall × CallResult) : Touch :=
  match x.2.now, x.1 with
  | none, _ => .rejected
  | some nowNs, .applyCandidates _ candidates => listTouch nowNs candidates p
  | some nowNs, .releaseAll _ => .releaseAll nowNs

/-! ## Calls -/

/-- A call that was turned away does nothing. -/
structure TurnedAway (c : ThrottleController) (out : CallResult × ThrottleController) : Prop where
  now : out.1.now = none
  moves : out.1.moves = []
  actions : out.1.actions = []
  controller : out.2 = c

/-- A call that went through, at `nowNs`, ends with the records and effects given. -/
structure WentThrough (c : ThrottleController) (nowNs : UInt64)
    (out : CallResult × ThrottleController) (records : List ThrottleRecord) (w : Effects) :
    Prop where
  rc : out.1.rc = w.overallRc
  now : out.1.now = some nowNs
  moves : out.1.moves = w.moves
  actions : out.1.actions = w.actions
  controller : out.2 = { c with records := records }
  sound : w.Sound c.cfg

section

variable {c : ThrottleController}

theorem actsOnOwn_applyUnseen (cfg : ThrottleConfig) (env : CallEnv) (nowNs : UInt64) :
    ActsOnOwn cfg (applyUnseen cfg env nowNs) := by
  intro r w
  cases hseen : r.seenInLastApply with
  | true =>
    rw [applyUnseen_of_seen cfg env nowNs r w hseen]
    exact ⟨_, .kept rfl rfl rfl id rfl rfl⟩
  | false =>
    obtain ⟨ok, h⟩ := applyUnseen_performs cfg env nowNs r w hseen
    exact ⟨_, h⟩

theorem actsOnOwn_releaseThrottled (cfg : ThrottleConfig) (env : CallEnv) (nowNs : UInt64) :
    ActsOnOwn cfg (releaseThrottled cfg env nowNs) := by
  intro r w
  obtain ⟨ok, h⟩ := releaseThrottled_performs cfg env nowNs r w
  exact ⟨_, h⟩

theorem sound_start (cfg : ThrottleConfig) (stats : ThrottleStats) :
    (Effects.start stats).Sound cfg :=
  ⟨by simp [Effects.start], nofun⟩

/-- What a call that goes through does: to the pids that have a record, and to each
    process. -/
structure Done (c : ThrottleController) (t : ℤ → Touch) (newPids : List ℤ)
    (records : List ThrottleRecord) (w : Effects) : Prop where
  pids : records.map (·.pid) = c.records.map (·.pid) ++ newPids
  step : ∀ p, ∃ ok,
    w.on p = (pidStep c.cfg ok (t p) (c.standing p)).1.toList.map (Attempt.action p) ∧
      (findRecord records p).map (·.standing) = (pidStep c.cfg ok (t p) (c.standing p)).2

/-- The ends of `throttle_controller_release_all`. -/
theorem releaseAll_cases (hinv : c.Inv) (env : CallEnv) :
    TurnedAway c (releaseAll env c) ∨
      ∃ nowNs records w, WentThrough c nowNs (releaseAll env c) records w ∧
        Done c (fun _ => .releaseAll nowNs) [] records w := by
  rw [releaseAll, if_neg (by simp [hinv.initialized])]
  cases hnow : controllerNowNs c.cfg env.clock with
  | none => exact .inl ⟨rfl, rfl, rfl, rfl⟩
  | some nowNs =>
    have hacts := actsOnOwn_releaseThrottled c.cfg env nowNs
    refine .inr ⟨nowNs, _, _, ⟨rfl, rfl, rfl, rfl, rfl,
      forRecords_sound hacts _ (sound_start c.cfg _)⟩, ?_, fun p => ?_⟩
    · rw [forRecords_pids hacts, List.append_nil]
    · rw [ThrottleController.standing]
      cases hr : findRecord c.records p with
      | none =>
        obtain ⟨h, hon⟩ := forRecords_of_none hacts (.start throttleStatsReset) hr
        exact ⟨true, hon, by rw [h]; rfl⟩
      | some r =>
        obtain ⟨w₁, hw₁, h, hon⟩ :=
          forRecords_of_some hacts (.start throttleStatsReset) hinv.distinct hr
        obtain ⟨ok, hp⟩ := releaseThrottled_performs c.cfg env nowNs r w₁
        refine ⟨ok, hon.trans (hp.on_of (pid_of_findRecord hr) hw₁), ?_⟩
        rw [h, Option.map_some, hp.standing]
        rfl

/-- The outcomes of the validation. -/
theorem prevalidateCandidates_cases (hinv : c.Inv) (candidates : List InterferenceCandidate) :
    (¬ValidList candidates ∧ prevalidateCandidates c candidates = .errInvalidArg) ∨
      (ValidList candidates ∧
        c.recordCap.toNat < c.records.length + (unrecorded c.records candidates).length ∧
        prevalidateCandidates c candidates = .errNoSpace) ∨
      (ValidList candidates ∧
        c.records.length + (unrecorded c.records candidates).length ≤ c.recordCap.toNat ∧
        prevalidateCandidates c candidates = .ok) := by
  have hiff := prevalidateLoop_eq_some_iff c.records [] candidates 0
  have hlen := hinv.length_le
  rw [prevalidateCandidates]
  cases h : prevalidateLoop c.records [] candidates 0 with
  | none =>
    refine .inl ⟨fun hvalid => ?_, rfl⟩
    have := (hiff _).2 ⟨hvalid, fun _ _ => List.not_mem_nil, rfl⟩
    rw [h] at this
    cases this
  | some m =>
    obtain ⟨hvalid, -, rfl⟩ := (hiff m).1 h
    simp only [room_eq hlen, Nat.zero_add]
    split
    · exact .inr (.inl ⟨hvalid, by omega, rfl⟩)
    · exact .inr (.inr ⟨hvalid, by omega, rfl⟩)

theorem validList_of_ok (hinv : c.Inv) {candidates : List InterferenceCandidate}
    (hok : prevalidateCandidates c candidates = .ok) :
    ValidList candidates ∧
      c.records.length + (unrecorded c.records candidates).length ≤ c.recordCap.toNat := by
  rcases prevalidateCandidates_cases hinv candidates with ⟨-, hrc⟩ | ⟨-, -, hrc⟩ | ⟨hv, hroom, -⟩
  · rw [hok] at hrc
    cases hrc
  · rw [hok] at hrc
    cases hrc
  · exact ⟨hv, hroom⟩

theorem findRecord_unseen (records : List ThrottleRecord) (p : ℤ) :
    findRecord (records.map ThrottleRecord.unseen) p =
      (findRecord records p).map ThrottleRecord.unseen := by
  rw [findRecord, List.find?_map, findRecord]
  rfl

theorem nodup_append_unrecorded {records : List ThrottleRecord}
    (hr : (records.map (·.pid)).Nodup) {candidates : List InterferenceCandidate}
    (hd : (candidates.map (·.pid)).Nodup) :
    (records.map (·.pid) ++ (unrecorded records candidates).map (·.pid)).Nodup := by
  refine List.nodup_append.2 ⟨hr, hd.sublist (List.filter_sublist.map _), ?_⟩
  rintro p hp q hq rfl
  obtain ⟨cand, hcand, rfl⟩ := List.mem_map.1 hq
  have hnone := (List.mem_filter.1 hcand).2
  exact findRecord_eq_none_iff.1 (Option.isNone_iff_eq_none.1 hnone) hp

theorem unrecorded_unseen (records : List ThrottleRecord)
    (candidates : List InterferenceCandidate) :
    unrecorded (records.map ThrottleRecord.unseen) candidates = unrecorded records candidates :=
  List.filter_congr fun cand _ => by rw [findRecord_unseen, Option.isNone_map]

/-- What an accepted call does to the record of a process and to the actions on it: a listed
    process has the turn of its candidate, and another one with a record that of its record. -/
def AppliedAt (c : ThrottleController) (env : CallEnv) (nowNs : UInt64)
    (candidates : List InterferenceCandidate) (p : ℤ) (o' : Option ThrottleRecord)
    (l' : List Action) : Prop :=
  match candidates.find? (fun cand => cand.pid = p), findRecord c.records p with
  | some cand, o => TurnAt c env nowNs cand (o.map ThrottleRecord.unseen) o' [] l'
  | none, some r => ∃ w, w.on p = [] ∧ o' = some (applyUnseen c.cfg env nowNs r.unseen w).1 ∧
      l' = (applyUnseen c.cfg env nowNs r.unseen w).2.on p
  | none, none => o' = none ∧ l' = []

/-- The two loops of an accepted call. -/
theorem loops_applyCandidates (hinv : c.Inv) (env : CallEnv) (nowNs : UInt64)
    {candidates : List InterferenceCandidate} (hv : ValidList candidates) (stats : ThrottleStats)
    (hroom : c.records.length + (unrecorded c.records candidates).length ≤ c.recordCap.toNat) :
    ∃ records₁ w₁,
      candidatesLoop c env nowNs candidates
        (c.records.map ThrottleRecord.unseen) (.start stats) =
          (true, records₁, w₁) ∧
      (forRecords (applyUnseen c.cfg env nowNs) records₁ w₁).2.Sound c.cfg ∧
      (forRecords (applyUnseen c.cfg env nowNs) records₁ w₁).1.map (·.pid) =
        c.records.map (·.pid) ++ (unrecorded c.records candidates).map (·.pid) ∧
      ∀ p, AppliedAt c env nowNs candidates p
        (findRecord (forRecords (applyUnseen c.cfg env nowNs) records₁ w₁).1 p)
        ((forRecords (applyUnseen c.cfg env nowNs) records₁ w₁).2.on p) := by
  have hacts := actsOnOwn_applyUnseen c.cfg env nowNs
  have hunrec := unrecorded_unseen c.records candidates
  obtain ⟨records₁, w₁, hloop, hpids, hsound, hat⟩ :=
    candidatesLoop_at c env nowNs hv.distinct
      (c.records.map ThrottleRecord.unseen) (.start stats)
      (by rw [hunrec, List.length_map]; exact hroom)
  rw [hunrec, List.map_map] at hpids
  have hnd : (records₁.map (·.pid)).Nodup := by
    rw [hpids]
    exact nodup_append_unrecorded hinv.distinct hv.distinct
  refine ⟨records₁, w₁, hloop, forRecords_sound hacts _ (hsound (sound_start c.cfg stats)),
    by rw [forRecords_pids hacts, hpids]; rfl, fun p => ?_⟩
  have hp := hat p
  rw [findRecord_unseen] at hp
  rw [AppliedAt]
  cases hcand : candidates.find? (fun cand => cand.pid = p) with
  | none =>
    -- the first loop leaves the process alone
    rw [hcand] at hp
    cases hr : findRecord c.records p with
    | none =>
      rw [hr] at hp
      obtain ⟨h, hon⟩ := forRecords_of_none hacts w₁ hp.1
      exact ⟨h, hon.trans hp.2⟩
    | some r =>
      rw [hr] at hp
      obtain ⟨w₂, hw₂, h, hon⟩ := forRecords_of_some hacts w₁ hnd hp.1
      exact ⟨w₂, hw₂.trans hp.2, h, hon⟩
  | some cand =>
    -- the second loop skips the record
    rw [hcand] at hp
    have hpid : cand.pid = p := by simpa using List.find?_some hcand
    have hpids' : ∀ r ∈ (findRecord c.records p).map ThrottleRecord.unseen, r.pid = cand.pid := by
      intro r hr
      obtain ⟨r', hr', rfl⟩ := Option.map_eq_some_iff.1 hr
      exact (pid_of_findRecord hr').trans hpid.symm
    obtain ⟨ok, r', hr', hseen, -⟩ := hp.listedAt c env nowNs hpids'
    obtain ⟨w₂, hw₂, h, hon⟩ := forRecords_of_some hacts w₁ hnd hr'
    rw [applyUnseen_of_seen c.cfg env nowNs r' w₂ hseen] at h hon
    rw [h, hon, hw₂, ← hr']
    exact hp

/-- For a process, an accepted call is one step of it. -/
theorem AppliedAt.step {env : CallEnv} {nowNs : UInt64} {candidates : List InterferenceCandidate}
    {p : ℤ} {o' : Option ThrottleRecord} {l' : List Action}
    (h : AppliedAt c env nowNs candidates p o' l') : ∃ ok,
    l' = (pidStep c.cfg ok (listTouch nowNs candidates p) (c.standing p)).1.toList.map
        (Attempt.action p) ∧
      o'.map (·.standing) =
        (pidStep c.cfg ok (listTouch nowNs candidates p) (c.standing p)).2 := by
  rw [AppliedAt] at h
  rw [listTouch, ThrottleController.standing]
  cases hcand : candidates.find? (fun cand => cand.pid = p) with
  | none =>
    rw [hcand] at h
    cases hr : findRecord c.records p with
    | none =>
      rw [hr] at h
      obtain ⟨rfl, rfl⟩ := h
      exact ⟨true, rfl, rfl⟩
    | some r =>
      rw [hr] at h
      obtain ⟨w, hw, rfl, rfl⟩ := h
      obtain ⟨ok, hperf⟩ := applyUnseen_performs c.cfg env nowNs r.unseen w rfl
      have hpid : r.pid = p := pid_of_findRecord hr
      exact ⟨ok, hperf.on_of hpid hw, by rw [Option.map_some, hperf.standing]; rfl⟩
  | some cand =>
    rw [hcand] at h
    have hpid : cand.pid = p := by simpa using List.find?_some hcand
    have hpids : ∀ r ∈ (findRecord c.records p).map ThrottleRecord.unseen, r.pid = cand.pid := by
      intro r hr
      obtain ⟨r', hr', rfl⟩ := Option.map_eq_some_iff.1 hr
      exact (pid_of_findRecord hr').trans hpid.symm
    obtain ⟨ok, r', rfl, -, hstanding, rfl⟩ := TurnAt.listedAt c env nowNs hpids h
    have hmap : ((findRecord c.records p).map ThrottleRecord.unseen).map
        (·.standing) = (findRecord c.records p).map (·.standing) := by
      rw [Option.map_map]
      rfl
    rw [hmap] at hstanding ⊢
    refine ⟨ok, ?_, by rw [Option.map_some, ← hstanding]; rfl⟩
    rw [hpid]
    exact List.append_nil _

/-- A call that is accepted, with a working clock, goes through. -/
theorem applyCandidates_at (hinv : c.Inv) {env : CallEnv} {nowNs : UInt64}
    {candidates : List InterferenceCandidate} (hok : prevalidateCandidates c candidates = .ok)
    (hnow : controllerNowNs c.cfg env.clock = some nowNs) :
    ∃ records w, WentThrough c nowNs (applyCandidates env c candidates) records w ∧
      records.map (·.pid) =
        c.records.map (·.pid) ++ (unrecorded c.records candidates).map (·.pid) ∧
      ∀ p, AppliedAt c env nowNs candidates p (findRecord records p) (w.on p) := by
  obtain ⟨hv, hroom⟩ := validList_of_ok hinv hok
  obtain ⟨records₁, w₁, hloop, hsound, hpids, hat⟩ := loops_applyCandidates hinv env nowNs hv
    { throttleStatsReset with candidateCount := candidates.length } hroom
  rw [applyCandidates, if_neg (by simp [hinv.initialized]), hok, if_neg (not_not_intro rfl), hnow]
  simp only [hloop]
  exact ⟨_, _, ⟨rfl, rfl, rfl, rfl, rfl, hsound⟩, hpids, hat⟩

/-- The ends of `throttle_controller_apply_candidates`. -/
theorem applyCandidates_cases (hinv : c.Inv) (env : CallEnv)
    (candidates : List InterferenceCandidate) :
    (TurnedAway c (applyCandidates env c candidates) ∧
      ((applyCandidates env c candidates).1.rc = .errNoSpace ↔ ValidList candidates ∧
        c.recordCap.toNat < c.records.length + (unrecorded c.records candidates).length)) ∨
      (ValidList candidates ∧
        c.records.length + (unrecorded c.records candidates).length ≤ c.recordCap.toNat ∧
        ∃ nowNs records w, WentThrough c nowNs (applyCandidates env c candidates) records w ∧
          Done c (listTouch nowNs candidates) ((unrecorded c.records candidates).map (·.pid))
            records w) := by
  have hstart : ¬c.initialized = false := by simp [hinv.initialized]
  rcases prevalidateCandidates_cases hinv candidates with ⟨hv, hrc⟩ | ⟨hv, hroom, hrc⟩ |
      ⟨hv, hroom, hrc⟩
  · rw [applyCandidates, if_neg hstart, hrc, if_pos nofun]
    exact .inl ⟨⟨rfl, rfl, rfl, rfl⟩, ⟨nofun, fun h => absurd h.1 hv⟩⟩
  · rw [applyCandidates, if_neg hstart, hrc, if_pos nofun]
    exact .inl ⟨⟨rfl, rfl, rfl, rfl⟩, ⟨fun _ => ⟨hv, hroom⟩, fun _ => rfl⟩⟩
  cases hnow : controllerNowNs c.cfg env.clock with
  | none =>
    rw [applyCandidates, if_neg hstart, hrc, if_neg (not_not_intro rfl), hnow]
    exact .inl ⟨⟨rfl, rfl, rfl, rfl⟩, ⟨nofun, fun h => absurd h.2 (Nat.not_lt.2 hroom)⟩⟩
  | some nowNs =>
    obtain ⟨records, w, hthrough, hpids, hat⟩ := applyCandidates_at hinv hrc hnow
    exact .inr ⟨hv, hroom, nowNs, records, w, hthrough, hpids, fun p => (hat p).step⟩

end

/-! ## Every call, for every process -/

namespace ThrottleController.Inv

variable {c : ThrottleController}

/-- What a call is, in one of its two ways. -/
theorem call_cases (hinv : c.Inv) (a : ControllerCall) :
    (TurnedAway c (c.call a) ∧ ∀ p, touch p (a, (c.call a).1) = .rejected) ∨
      ∃ nowNs newPids records w, WentThrough c nowNs (c.call a) records w ∧
        Done c (fun p => touch p (a, (c.call a).1)) newPids records w ∧
        (c.records.map (·.pid) ++ newPids).Nodup ∧
        c.records.length + newPids.length ≤ c.recordCap.toNat := by
  cases a with
  | applyCandidates env candidates =>
    rcases applyCandidates_cases hinv env candidates with
      ⟨haway, -⟩ | ⟨hv, hroom, nowNs, records, w, hthrough, hdone⟩
    · exact .inl ⟨haway, fun p => by rw [touch, call, haway.now]⟩
    · refine .inr ⟨nowNs, _, records, w, hthrough, ?_,
        nodup_append_unrecorded hinv.distinct hv.distinct, by rw [List.length_map]; exact hroom⟩
      simp only [touch, call, hthrough.now]
      exact hdone
  | releaseAll env =>
    rcases releaseAll_cases hinv env with haway | ⟨nowNs, records, w, hthrough, hdone⟩
    · exact .inl ⟨haway, fun p => by rw [touch, call, haway.now]⟩
    · refine .inr ⟨nowNs, [], records, w, hthrough, ?_, by simpa using hinv.distinct,
        hinv.length_le⟩
      simp only [touch, call, hthrough.now]
      exact hdone

/-- A call preserves the invariant. -/
theorem call (hinv : c.Inv) (a : ControllerCall) : (c.call a).2.Inv := by
  rcases hinv.call_cases a with ⟨haway, -⟩ |
    ⟨nowNs, newPids, records, w, hthrough, hdone, hnd, hlen⟩
  · rw [haway.controller]
    exact hinv
  · rw [hthrough.controller]
    refine ⟨hinv.initialized, by rw [hdone.pids]; exact hnd, ?_⟩
    rw [← List.length_map (f := (·.pid)), hdone.pids, List.length_append, List.length_map]
    exact hlen

/-- A call leaves the configuration and the room as they are. -/
theorem call_cfg (hinv : c.Inv) (a : ControllerCall) :
    (c.call a).2.cfg = c.cfg ∧ (c.call a).2.recordCap = c.recordCap := by
  rcases hinv.call_cases a with ⟨haway, -⟩ | ⟨nowNs, newPids, records, w, hthrough, -⟩
  · rw [haway.controller]
    exact ⟨rfl, rfl⟩
  · rw [hthrough.controller]
    exact ⟨rfl, rfl⟩

/-- The moves of a call are those of its actions. -/
theorem call_moves (hinv : c.Inv) (a : ControllerCall) :
    (c.call a).1.moves =
      if c.cfg.dryRun then [] else (c.call a).1.actions.map c.cfg.move := by
  rcases hinv.call_cases a with ⟨haway, -⟩ | ⟨nowNs, newPids, records, w, hthrough, -⟩
  · rw [haway.moves, haway.actions]
    simp
  · rw [hthrough.moves, hthrough.actions]
    exact hthrough.sound.moves

/-- For a process, a call is one step of it. -/
theorem call_pid (hinv : c.Inv) (a : ControllerCall) (p : ℤ) : ∃ ok,
    (c.call a).1.actions.filter (fun x => x.pid = p) =
        (pidStep c.cfg ok (touch p (a, (c.call a).1)) (c.standing p)).1.toList.map
          (Attempt.action p) ∧
      (c.call a).2.standing p =
        (pidStep c.cfg ok (touch p (a, (c.call a).1)) (c.standing p)).2 := by
  rcases hinv.call_cases a with ⟨haway, htouch⟩ |
    ⟨nowNs, newPids, records, w, hthrough, hdone, -⟩
  · rw [haway.controller, haway.actions, htouch]
    exact ⟨true, rfl, rfl⟩
  · obtain ⟨ok, hon, hstanding⟩ := hdone.step p
    rw [hthrough.controller, hthrough.actions]
    exact ⟨ok, hon, hstanding⟩

end ThrottleController.Inv

/-! ## Groups -/

section

variable {cfg : ThrottleConfig}

/-- The groups of a valid configuration are distinct. -/
theorem groups_ne (hvalid : validateConfig cfg = .ok) :
    cfg.normalGroup ≠ cfg.throttledGroup ∧ cfg.normalGroup ≠ cfg.protectedGroup ∧
      cfg.throttledGroup ≠ cfg.protectedGroup := by
  rw [validateConfig] at hvalid
  split at hvalid
  · cases hvalid
  split at hvalid
  · cases hvalid
  case isFalse h =>
    rw [not_or, not_or] at h
    exact h

/-- Only an attempt to throttle has the throttled group as its target. -/
theorem target_eq_throttled_iff (hne : cfg.normalGroup ≠ cfg.throttledGroup) {kind : ActionKind} :
    cfg.target kind = cfg.throttledGroup ↔ kind = .throttle := by
  cases kind with
  | throttle => exact ⟨fun _ => rfl, fun _ => rfl⟩
  | release => exact ⟨fun h => absurd h hne, nofun⟩
  | staleRelease => exact ⟨fun h => absurd h hne, nofun⟩

end

/-! ## Runs -/

namespace ThrottleController

/-- The controller after the calls, the latest first. -/
def run (c₀ : ThrottleController) (as : List ControllerCall) : ThrottleController :=
  Machine.after call c₀ as

/-- The calls with their results, the latest first. -/
def trace (c₀ : ThrottleController) (as : List ControllerCall) :
    List (ControllerCall × CallResult) :=
  Machine.history call c₀ as

/-- A run as a process lives it, the latest call first. -/
def life (c₀ : ThrottleController) (p : ℤ) (as : List ControllerCall) :
    List (Touch × Option Attempt) :=
  (c₀.trace as).map fun x => (touch p x, x.2.attempt p)

@[simp] theorem run_nil (c₀ : ThrottleController) : c₀.run [] = c₀ := rfl

@[simp] theorem run_cons (c₀ : ThrottleController) (a : ControllerCall)
    (as : List ControllerCall) : c₀.run (a :: as) = ((c₀.run as).call a).2 := rfl

@[simp] theorem trace_nil (c₀ : ThrottleController) : c₀.trace [] = [] := rfl

@[simp] theorem trace_cons (c₀ : ThrottleController) (a : ControllerCall)
    (as : List ControllerCall) :
    c₀.trace (a :: as) = (a, ((c₀.run as).call a).1) :: c₀.trace as := rfl

/-- A controller as a successful initialisation leaves it. -/
structure Started (c₀ : ThrottleController) : Prop where
  inv : c₀.Inv
  records : c₀.records = []
  recordCap : c₀.recordCap = c₀.cfg.maxRecords
  valid : validateConfig c₀.cfg = .ok

theorem started_of_init {env : InitEnv} {cfg : Option ThrottleConfig} {c₀ : ThrottleController}
    (h : throttleControllerInit env cfg = (.ok, c₀)) : c₀.Started := by
  rw [throttleControllerInit] at h
  split at h
  case isTrue hv => exact absurd (congrArg Prod.fst h) hv
  case isFalse hv =>
    split at h
    · cases h
    split at h
    · cases h
    split at h
    · cases h
    cases h
    exact ⟨⟨rfl, .nil, Nat.zero_le _⟩, rfl, rfl, not_not.1 hv⟩

variable {c₀ : ThrottleController}

/-- The invariant along a run. -/
theorem Started.run_inv (h₀ : c₀.Started) (as : List ControllerCall) :
    (c₀.run as).Inv ∧ (c₀.run as).cfg = c₀.cfg ∧ (c₀.run as).recordCap = c₀.recordCap := by
  refine Machine.after_invariant
    (fun _ (c : ThrottleController) => c.Inv ∧ c.cfg = c₀.cfg ∧ c.recordCap = c₀.recordCap)
    ⟨h₀.inv, rfl, rfl⟩ (fun _ c a hc => ?_) as
  obtain ⟨hinv, hcfg, hcap⟩ := hc
  obtain ⟨hcfg', hcap'⟩ := hinv.call_cfg a
  exact ⟨hinv.call a, hcfg'.trans hcfg, hcap'.trans hcap⟩

theorem attempt_eq_of_filter {res : CallResult} {p : ℤ} {a : Option Attempt}
    (h : res.actions.filter (fun x => x.pid = p) = a.toList.map (Attempt.action p)) :
    res.attempt p = a := by
  rw [CallResult.attempt, ← List.head?_filter, h]
  cases a with
  | none => rfl
  | some a => rfl

/-- The invariant rule of processes: what holds before a process is known and is
    preserved by its transitions holds throughout a run. -/
theorem Started.pid_invariant (h₀ : c₀.Started)
    (Q : List (Touch × Option Attempt) → Option Standing → Prop) (hnil : Q [] none)
    (hstep : ∀ l o t a o', Transition c₀.cfg t o a o' → Q l o → Q ((t, a) :: l) o')
    (as : List ControllerCall) (p : ℤ) : Q (c₀.life p as) ((c₀.run as).standing p) := by
  induction as with
  | nil =>
    have hnone : (c₀.run []).standing p = none := by
      rw [standing, run_nil, h₀.records]
      rfl
    rw [hnone]
    exact hnil
  | cons a as ih =>
    obtain ⟨hinv, hcfg, -⟩ := h₀.run_inv as
    obtain ⟨ok, hactions, hstanding⟩ := hinv.call_pid a p
    rw [hcfg] at hactions hstanding
    rw [life, trace_cons, List.map_cons, attempt_eq_of_filter hactions, run_cons, hstanding]
    exact hstep _ _ _ _ _ (transition_pidStep c₀.cfg ok _ _) ih

/-- What holds of every call of a run: on each process there is at most one attempt,
    and the moves are those of the actions. -/
structure Recorded (cfg : ThrottleConfig) (res : CallResult) : Prop where
  filter : ∀ p, res.actions.filter (fun x => x.pid = p) =
    (res.attempt p).toList.map (Attempt.action p)
  moves : res.moves = if cfg.dryRun then [] else res.actions.map cfg.move

/-- The actions of a call are those of its attempts. -/
theorem Inv.recorded {c : ThrottleController} (hinv : c.Inv) (a : ControllerCall) :
    Recorded c.cfg (c.call a).1 := by
  refine ⟨fun p => ?_, hinv.call_moves a⟩
  obtain ⟨ok, hactions, -⟩ := hinv.call_pid a p
  exact hactions.trans (by rw [attempt_eq_of_filter hactions])

theorem Started.recorded (h₀ : c₀.Started) (as : List ControllerCall) :
    ∀ x ∈ c₀.trace as, Recorded c₀.cfg x.2 := by
  induction as with
  | nil => exact List.forall_mem_nil _
  | cons a as ih =>
    obtain ⟨hinv, hcfg, -⟩ := h₀.run_inv as
    rw [trace_cons]
    exact List.forall_mem_cons.2 ⟨hcfg ▸ hinv.recorded a, ih⟩

section

variable {cfg : ThrottleConfig} {res : CallResult}

theorem Recorded.mem_iff (h : Recorded cfg res) {a : Action} :
    a ∈ res.actions ↔ res.attempt a.pid = some (a.kind, a.ok) := by
  have hmem : a ∈ res.actions ↔ a ∈ res.actions.filter fun x => x.pid = a.pid := by simp
  rw [hmem, h.filter a.pid]
  cases a with
  | mk pid kind ok =>
    cases res.attempt pid with
    | none => simp
    | some x => simp [Attempt.action, Prod.ext_iff, eq_comm]

theorem Recorded.nodup (h : Recorded cfg res) : (res.actions.map (·.pid)).Nodup := by
  rw [List.nodup_iff_count_le_one]
  intro p
  have hcount : (res.actions.map (·.pid)).count p =
      (res.actions.filter fun x => x.pid = p).length := by
    rw [List.count_eq_countP, List.countP_map, List.countP_eq_length_filter]
    congr 1
  rw [hcount, h.filter p, List.length_map]
  exact Option.length_toList_le

end

end ThrottleController

end CgroupResearch
