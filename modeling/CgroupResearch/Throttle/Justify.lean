import CgroupResearch.Throttle.Dwell

/-!
# Every action is justified

What a call does to a process rests on its list of candidates, and on the last
accepted call that listed the process (`actions_are_justified`): the time a record
keeps as that of its last sighting is the time of that call (`lastSeen_eq`).
Calls that were turned away do not count.
-/

namespace CgroupResearch

/-- The time of a call of `throttle_controller_apply_candidates` that was accepted and
    lists the process. -/
def listedTime (p : ℤ) (x : ControllerCall × CallResult) : Option UInt64 :=
  match x.1 with
  | .applyCandidates _ candidates => if p ∈ candidates.map (·.pid) then x.2.now else none
  | .releaseAll _ => none

/-- The time of the last accepted call that lists the process. -/
def lastListed (p : ℤ) (h : List (ControllerCall × CallResult)) : Option UInt64 :=
  h.findSome? (listedTime p)

/-- What justifies an action on a process, in a call after the history `h` with the
    list of candidates at the time `nowNs`. -/
def JustifiedBy (cfg : ThrottleConfig) (h : List (ControllerCall × CallResult))
    (candidates : List InterferenceCandidate) (nowNs : UInt64) (p : ℤ) : ActionKind → Prop
  | .throttle => ∃ cand ∈ candidates, cand.pid = p ∧ cand.active = true ∧
      cand.shouldThrottle = true ∧ cfg.highScoreThreshold.le cand.finalScore = true
  | .release => ∃ cand ∈ candidates, cand.pid = p ∧
      cand.finalScore.le cfg.lowScoreThreshold = true
  | .staleRelease => p ∉ candidates.map (·.pid) ∧ ∃ seen, lastListed p h = some seen ∧
      seen.toNat + satNs cfg.staleAfterMs ≤ nowNs.toNat

/-! ## The last sighting -/

/-- The time of a call that lists the process, in its life. -/
def Touch.listedAt : Touch → Option UInt64
  | .listed nowNs _ => some nowNs
  | _ => none

theorem listedTime_eq (p : ℤ) (x : ControllerCall × CallResult) :
    listedTime p x = (touch p x).listedAt := by
  rcases hcall : x.1 with ⟨env, candidates⟩ | env
  · rcases hnow : x.2.now with _ | nowNs
    · simp [listedTime, touch, hcall, hnow, Touch.listedAt]
    · simp only [listedTime, touch, hcall, hnow, listTouch]
      cases hfind : candidates.find? fun cand => cand.pid = p with
      | none =>
        rw [if_neg (by simpa using hfind)]
        rfl
      | some cand =>
        have hmem : p ∈ candidates.map (·.pid) := by
          have hpid : cand.pid = p := by simpa using List.find?_some hfind
          exact List.mem_map.2 ⟨cand, List.mem_of_find?_eq_some hfind, hpid⟩
        rw [if_pos hmem]
        rfl
  · rcases hnow : x.2.now with _ | nowNs <;> simp [listedTime, touch, hcall, hnow, Touch.listedAt]

/-- A process is seen exactly when it is listed. -/
theorem see_lastSeen (t : Touch) (o : Option Standing) :
    (t.see o).map (·.lastSeenNs) = t.listedAt.or (o.map (·.lastSeenNs)) := by
  cases t with
  | listed nowNs cand => rfl
  | rejected => rfl
  | unlisted nowNs => rfl
  | releaseAll nowNs => rfl

/-- No transition writes the time of the last sighting, but as the process is seen. -/
theorem Transition.lastSeen {cfg : ThrottleConfig} {t : Touch} {o o' : Option Standing}
    {a : Option Attempt} (h : Transition cfg t o a o') :
    o'.map (·.lastSeenNs) = (t.see o).map (·.lastSeenNs) := by
  cases h with
  | idle => rfl
  | expire nowNs s hnow hsee hstate helapsed => rw [hsee]; rfl
  | fail kind nowNs s hnow hsee hjust hdue =>
    rw [hsee]
    split <;> rfl
  | succeed kind nowNs s hnow hsee hjust hdue => rw [hsee]; rfl

variable {c₀ : ThrottleController}

/-- The time a record keeps as that of its last sighting. -/
theorem lastSeen_eq (h₀ : c₀.Started) (as : List ControllerCall) (p : ℤ) :
    ((c₀.run as).standing p).map (·.lastSeenNs) = lastListed p (c₀.trace as) := by
  have hlife : lastListed p (c₀.trace as) = (c₀.life p as).findSome? fun x => x.1.listedAt := by
    rw [lastListed, ThrottleController.life, List.findSome?_map]
    congr 1
    funext x
    exact listedTime_eq p x
  rw [hlife]
  refine h₀.pid_invariant
    (fun l o => o.map (·.lastSeenNs) = l.findSome? fun x => x.1.listedAt) rfl ?_ as p
  intro l o t a o' h hl
  rw [h.lastSeen, see_lastSeen, hl, List.findSome?_cons]
  cases t.listedAt <;> rfl

/-! ## Justification -/

/-- An action of a transition is justified. -/
theorem Transition.justified {cfg : ThrottleConfig} {t : Touch} {o o' : Option Standing}
    {kind : ActionKind} {ok : Bool} (h : Transition cfg t o (some (kind, ok)) o') :
    ∃ s, t.see o = some s ∧ Justified cfg kind t s := by
  cases h with
  | fail _ nowNs s hnow hsee hjust hdue => exact ⟨s, hsee, hjust⟩
  | succeed _ nowNs s hnow hsee hjust hdue => exact ⟨s, hsee, hjust⟩

/-- An action of a call is justified by what the call is for its process. -/
theorem justified_of_mem (h₀ : c₀.Started) (as : List ControllerCall) (call : ControllerCall)
    {a : Action} (ha : a ∈ ((c₀.run as).call call).1.actions) :
    ∃ s, (touch a.pid (call, ((c₀.run as).call call).1)).see ((c₀.run as).standing a.pid) = some s ∧
      Justified c₀.cfg a.kind (touch a.pid (call, ((c₀.run as).call call).1)) s := by
  obtain ⟨hinv, hcfg, -⟩ := h₀.run_inv as
  obtain ⟨ok, hfilter, -⟩ := hinv.call_pid call a.pid
  rw [hcfg] at hfilter
  have hmem : a ∈ ((c₀.run as).call call).1.actions.filter fun x => x.pid = a.pid :=
    List.mem_filter.2 ⟨ha, by simp⟩
  rw [hfilter] at hmem
  obtain ⟨b, hb, hab⟩ := List.mem_map.1 hmem
  have htrans := transition_pidStep c₀.cfg ok (touch a.pid (call, ((c₀.run as).call call).1))
    ((c₀.run as).standing a.pid)
  rw [Option.mem_toList.1 hb] at htrans
  obtain ⟨s, hsee, hjust⟩ := htrans.justified
  have hkind : b.1 = a.kind := by rw [← hab]; rfl
  exact ⟨s, hsee, hkind ▸ hjust⟩

/-- The action of a call with a list of candidates. -/
theorem justifiedBy_of_mem (h₀ : c₀.Started) (as : List ControllerCall) (env : CallEnv)
    (candidates : List InterferenceCandidate) {a : Action}
    (ha : a ∈ (applyCandidates env (c₀.run as) candidates).1.actions) :
    ∃ nowNs, (applyCandidates env (c₀.run as) candidates).1.now = some nowNs ∧
      JustifiedBy c₀.cfg (c₀.trace as) candidates nowNs a.pid a.kind := by
  obtain ⟨s, hsee, hjust⟩ := justified_of_mem h₀ as (.applyCandidates env candidates) ha
  rw [ThrottleController.call, touch] at hsee hjust
  cases hnow : (applyCandidates env (c₀.run as) candidates).1.now with
  | none =>
    simp only [hnow] at hjust
    cases hkind : a.kind <;> rw [hkind] at hjust <;> exact hjust.elim
  | some nowNs =>
    refine ⟨nowNs, rfl, ?_⟩
    simp only [hnow, listTouch] at hsee hjust
    -- A pid that is not listed can only be released as stale, and a listed one never is.
    cases hfind : candidates.find? fun cand => cand.pid = a.pid with
    | none =>
      simp only [hfind] at hsee hjust
      cases hkind : a.kind with
      | throttle => rw [hkind] at hjust; exact hjust.elim
      | release => rw [hkind] at hjust; exact hjust.elim
      | staleRelease =>
        rw [hkind] at hjust
        have hseen := lastSeen_eq h₀ as a.pid
        have hstanding : (c₀.run as).standing a.pid = some s := hsee
        rw [hstanding] at hseen
        exact ⟨by simpa using hfind, s.lastSeenNs, hseen.symm, (elapsedAtLeast_iff _ _ _).1 hjust⟩
    | some cand =>
      have hpid : cand.pid = a.pid := by simpa using List.find?_some hfind
      have hmem := List.mem_of_find?_eq_some hfind
      simp only [hfind] at hjust
      cases hkind : a.kind with
      | throttle =>
        rw [hkind, Justified, candidateRequestsThrottle] at hjust
        simp only [Bool.and_eq_true] at hjust
        exact ⟨cand, hmem, hpid, hjust.1.1, hjust.1.2, hjust.2⟩
      | release =>
        rw [hkind] at hjust
        exact ⟨cand, hmem, hpid, hjust⟩
      | staleRelease => rw [hkind] at hjust; exact hjust.elim

/-- An accepted list names each process once. -/
theorem validList_of_now {c : ThrottleController} (hinv : c.Inv) {env : CallEnv}
    {candidates : List InterferenceCandidate} {nowNs : UInt64}
    (hnow : (applyCandidates env c candidates).1.now = some nowNs) : ValidList candidates := by
  rcases applyCandidates_cases hinv env candidates with ⟨haway, -⟩ | ⟨hv, -⟩
  · rw [haway.now] at hnow
    cases hnow
  · exact hv

/-- A process listed with a score over the low threshold is not released. -/
theorem not_released (h₀ : c₀.Started) (as : List ControllerCall) {env : CallEnv}
    {candidates : List InterferenceCandidate} {a : Action}
    (ha : a ∈ (applyCandidates env (c₀.run as) candidates).1.actions)
    {cand : InterferenceCandidate} (hcand : cand ∈ candidates) (hpid : cand.pid = a.pid)
    (hscore : c₀.cfg.lowScoreThreshold.lt cand.finalScore = true) : a.kind = .throttle := by
  obtain ⟨nowNs, hnow, hjust⟩ := justifiedBy_of_mem h₀ as env candidates ha
  cases hkind : a.kind with
  | throttle => rfl
  | release =>
    rw [hkind] at hjust
    obtain ⟨cand', hcand', hpid', hlow⟩ := hjust
    have heq : cand' = cand :=
      List.inj_on_of_nodup_map (validList_of_now (h₀.run_inv as).1 hnow).distinct hcand' hcand
        (hpid'.trans hpid.symm)
    rw [heq, Double.le_eq_false_of_lt hscore] at hlow
    cases hlow
  | staleRelease =>
    rw [hkind] at hjust
    exact absurd (hpid ▸ List.mem_map_of_mem hcand) hjust.1

/-- A call in a run, with what came before it. -/
theorem exists_of_mem_trace {as : List ControllerCall} {x : ControllerCall × CallResult}
    (hx : x ∈ c₀.trace as) : ∃ bs, x.2 = ((c₀.run bs).call x.1).1 := by
  induction as with
  | nil => cases hx
  | cons a as ih =>
    rw [ThrottleController.trace_cons] at hx
    rcases List.mem_cons.1 hx with rfl | hx
    · exact ⟨as, rfl⟩
    · exact ih hx

/-- Every action of a call of `throttle_controller_apply_candidates` in a run, at its
    time, is justified, and every move is that of an action. Consequently, as long as
    every accepted list has a process with a score over the low threshold, no list
    releases it. -/
theorem actions_are_justified {env₀ : InitEnv} {cfg : Option ThrottleConfig}
    (hinit : throttleControllerInit env₀ cfg = (.ok, c₀)) (as : List ControllerCall) :
    (∀ env candidates,
      (∀ a ∈ (applyCandidates env (c₀.run as) candidates).1.actions,
        ∃ nowNs, (applyCandidates env (c₀.run as) candidates).1.now = some nowNs ∧
          JustifiedBy c₀.cfg (c₀.trace as) candidates nowNs a.pid a.kind) ∧
      ∀ m ∈ (applyCandidates env (c₀.run as) candidates).1.moves,
        ∃ a ∈ (applyCandidates env (c₀.run as) candidates).1.actions, m = c₀.cfg.move a ∧
          (m.group = c₀.cfg.throttledGroup ↔ a.kind = .throttle)) ∧
      ∀ (bs : List ControllerCall) (p : ℤ),
        (∀ x ∈ (c₀.run as).trace bs, ∀ env candidates,
          x.1 = .applyCandidates env candidates → x.2.now.isSome →
            ∃ cand ∈ candidates, cand.pid = p ∧
              c₀.cfg.lowScoreThreshold.lt cand.finalScore = true) →
        ∀ x ∈ (c₀.run as).trace bs, x.1.isReleaseAll = false →
          ∀ a ∈ x.2.actions, a.pid = p → a.kind = .throttle := by
  have h₀ := ThrottleController.started_of_init hinit
  refine ⟨fun env candidates => ⟨fun a ha => justifiedBy_of_mem h₀ as env candidates ha,
    fun m hm => ?_⟩, fun bs p hlisted x hx hcall a ha hpid => ?_⟩
  · obtain ⟨hinv, hcfg, -⟩ := h₀.run_inv as
    have hmoves := hinv.call_moves (.applyCandidates env candidates)
    rw [hcfg, ThrottleController.call] at hmoves
    rw [hmoves] at hm
    split at hm
    · cases hm
    obtain ⟨a, ha, rfl⟩ := List.mem_map.1 hm
    exact ⟨a, ha, rfl, target_eq_throttled_iff (groups_ne h₀.valid).1⟩
  · -- the call is one of the run that continues `as` by `bs`
    have hmem : x ∈ c₀.trace (bs ++ as) := by
      rw [ThrottleController.trace, Machine.history_append]
      exact List.mem_append_left _ hx
    obtain ⟨cs, hres⟩ := exists_of_mem_trace hmem
    rcases hx₁ : x.1 with ⟨env, candidates⟩ | env
    · rw [hx₁, ThrottleController.call] at hres
      rw [hres] at ha
      obtain ⟨nowNs, hnow, -⟩ := justifiedBy_of_mem h₀ cs env candidates ha
      obtain ⟨cand, hcand, hcpid, hscore⟩ :=
        hlisted x hx env candidates hx₁ (by rw [hres, hnow]; rfl)
      exact not_released h₀ cs ha hcand (hcpid.trans hpid.symm) hscore
    · rw [hx₁] at hcall
      cases hcall

/-- The run of the default configuration that throttles process `7`, keeps it while
    its score is high, and releases it once it is no longer listed. -/
theorem actions_are_justified_stale :
    let c₀ := (throttleControllerInit ⟨true, true, true⟩ none).2
    let as := [ControllerCall.applyCandidates (.working 4000000000) [candidateOf 7 (1 / 2)],
      .applyCandidates (.working 5) [candidateOf 7 (1 / 2)]]
    (applyCandidates (.working 9000000000) (c₀.run as) []).1.actions =
        [⟨7, .staleRelease, true⟩] ∧
      ∃ nowNs, JustifiedBy c₀.cfg (c₀.trace as) [] nowNs 7 .staleRelease := by
  intro c₀ as
  have hinit : throttleControllerInit ⟨true, true, true⟩ none = (.ok, c₀) :=
    Prod.ext (by decide +kernel) rfl
  have hactions : (applyCandidates (.working 9000000000) (c₀.run as) []).1.actions =
      [⟨7, .staleRelease, true⟩] := by decide +kernel
  obtain ⟨nowNs, -, hjust⟩ := ((actions_are_justified hinit as).1 (.working 9000000000) []).1
    ⟨7, .staleRelease, true⟩ (by rw [hactions]; exact List.mem_singleton_self _)
  exact ⟨hactions, nowNs, hjust⟩

end CgroupResearch
