import CgroupResearch.Throttle.Justify

/-!
# The room for records

A record is never given up: a process that was listed once in an accepted call keeps
its record for the rest of the run, whatever its state. The room of the controller
bounds the processes listed so far, not those that are throttled or in cooldown: a
list is turned away for want of room iff, with it, more processes were listed than
`max_records` (`no_space_iff`).
-/

namespace CgroupResearch

/-- The processes an accepted call of `throttle_controller_apply_candidates` lists. -/
def acceptedPids (x : ControllerCall × CallResult) : List ℤ :=
  match x.1, x.2.now with
  | .applyCandidates _ candidates, some _ => candidates.map (·.pid)
  | _, _ => []

/-- The processes listed in a run. -/
def everListed (h : List (ControllerCall × CallResult)) : Finset ℤ :=
  (h.flatMap acceptedPids).toFinset

/-- The processes that are throttled or in cooldown. -/
def heldPids (c : ThrottleController) : Finset ℤ :=
  ((c.records.filter fun r => r.state = .throttled ∨ r.state = .cooldown).map (·.pid)).toFinset

theorem mem_acceptedPids_iff (p : ℤ) (x : ControllerCall × CallResult) :
    p ∈ acceptedPids x ↔ (listedTime p x).isSome := by
  rcases hcall : x.1 with ⟨env, candidates⟩ | env
  · rcases hnow : x.2.now with _ | nowNs
    · simp [acceptedPids, listedTime, hcall, hnow]
    · simp only [acceptedPids, listedTime, hcall, hnow]
      split
      case isTrue h => simpa using h
      case isFalse h => simpa using h
  · simp [acceptedPids, listedTime, hcall]

variable {c₀ : ThrottleController}

/-- The processes with a record are those that were listed. -/
theorem toFinset_pids_eq (h₀ : c₀.Started) (as : List ControllerCall) :
    ((c₀.run as).records.map (·.pid)).toFinset = everListed (c₀.trace as) := by
  ext p
  have hrecord : (lastListed p (c₀.trace as)).isSome ↔ p ∈ (c₀.run as).records.map (·.pid) := by
    rw [← lastSeen_eq h₀, Option.isSome_map, ThrottleController.standing, Option.isSome_map,
      ← not_iff_not, ← findRecord_eq_none_iff, Option.not_isSome_iff_eq_none]
  have hlisted : (lastListed p (c₀.trace as)).isSome ↔ p ∈ (c₀.trace as).flatMap acceptedPids := by
    simp only [lastListed, List.findSome?_isSome_iff, List.mem_flatMap, mem_acceptedPids_iff]
  rw [everListed, List.mem_toFinset, List.mem_toFinset, ← hrecord, hlisted]

/-- The number of records there would be with those of a list. -/
theorem length_add_unrecorded (h₀ : c₀.Started) (as : List ControllerCall)
    {candidates : List InterferenceCandidate} (hv : ValidList candidates) :
    (c₀.run as).records.length + (unrecorded (c₀.run as).records candidates).length =
      ((candidates.map (·.pid)).toFinset ∪ everListed (c₀.trace as)).card := by
  have hnd := nodup_append_unrecorded (h₀.run_inv as).1.distinct hv.distinct
  -- The records are of the pids ever listed, and the pids without one come to them.
  have hunion : ((c₀.run as).records.map (·.pid) ++
        (unrecorded (c₀.run as).records candidates).map (·.pid)).toFinset =
      (candidates.map (·.pid)).toFinset ∪ everListed (c₀.trace as) := by
    rw [← toFinset_pids_eq h₀]
    ext p
    simp only [List.mem_toFinset, List.mem_append, Finset.mem_union]
    constructor
    · rintro (hp | hp)
      · exact .inr hp
      · exact .inl ((List.filter_sublist.map _).subset hp)
    · rintro (hp | hp)
      · by_cases hr : p ∈ (c₀.run as).records.map (·.pid)
        · exact .inl hr
        · obtain ⟨cand, hcand, rfl⟩ := List.mem_map.1 hp
          have hnone : (findRecord (c₀.run as).records cand.pid).isNone = true := by
            rw [findRecord_eq_none_iff.2 hr, Option.isNone_none]
          exact .inr (List.mem_map_of_mem (List.mem_filter.2 ⟨hcand, hnone⟩))
      · exact .inl hp
  rw [← hunion, List.toFinset_card_of_nodup hnd, List.length_append, List.length_map,
    List.length_map]

/-- A list of valid candidates of distinct processes is turned away for want of room
    iff, with it, more processes were listed in accepted calls of the run than
    `max_records`. Such a call does nothing, not even to stale processes. -/
theorem no_space_iff {env₀ : InitEnv} {cfg : Option ThrottleConfig}
    (hinit : throttleControllerInit env₀ cfg = (.ok, c₀)) (as : List ControllerCall) (env : CallEnv)
    (candidates : List InterferenceCandidate) (hv : ValidList candidates) :
    ((applyCandidates env (c₀.run as) candidates).1.rc = .errNoSpace ↔
      c₀.cfg.maxRecords.toNat <
        ((candidates.map (·.pid)).toFinset ∪ everListed (c₀.trace as)).card) ∧
      ((applyCandidates env (c₀.run as) candidates).1.rc = .errNoSpace →
        (applyCandidates env (c₀.run as) candidates).1.actions = [] ∧
          (applyCandidates env (c₀.run as) candidates).2 = c₀.run as) := by
  have h₀ := ThrottleController.started_of_init hinit
  obtain ⟨hinv, -, hcap⟩ := h₀.run_inv as
  rw [← length_add_unrecorded h₀ as hv, ← h₀.recordCap, ← hcap]
  rcases applyCandidates_cases hinv env candidates with
    ⟨haway, hrc⟩ | ⟨-, hroom, nowNs, records, w, hthrough, -⟩
  · rw [hrc]
    exact ⟨⟨And.right, fun h => ⟨hv, h⟩⟩, fun _ => ⟨haway.actions, haway.controller⟩⟩
  · rw [hthrough.rc]
    exact ⟨⟨fun h => absurd h hthrough.sound.overallRc, fun h => absurd hroom (Nat.not_le.2 h)⟩,
      fun h => absurd h hthrough.sound.overallRc⟩

/-- With room for one record, process `7`, which is not throttled and no longer
    listed, keeps process `8` out. -/
theorem no_space_iff_one :
    let c₀ := (throttleControllerInit ⟨true, true, true⟩
      (some { throttleConfigDefault with maxRecords := 1 })).2
    let as := [ControllerCall.applyCandidates (.working 5) [candidateOf 7 0]]
    (applyCandidates (.working 9) (c₀.run as) [candidateOf 8 1]).1.rc = .errNoSpace ↔
      c₀.cfg.maxRecords.toNat < ({8} ∪ everListed (c₀.trace as)).card := by
  intro c₀ as
  have hinit : throttleControllerInit ⟨true, true, true⟩
      (some { throttleConfigDefault with maxRecords := 1 }) = (.ok, c₀) :=
    Prod.ext (by decide +kernel) rfl
  have hvalid : ValidList [candidateOf 8 1] := by
    refine ⟨?_, List.nodup_singleton _⟩
    decide +kernel
  exact (no_space_iff hinit as (.working 9) [candidateOf 8 1] hvalid).1

/-- Room is missing although one process alone is listed, throttled or in cooldown. -/
theorem untracked_process_takes_room :
    let c₀ := (throttleControllerInit ⟨true, true, true⟩
      (some { throttleConfigDefault with maxRecords := 1 })).2
    let c := c₀.run [.applyCandidates (.working 5) [candidateOf 7 0]]
    (throttleControllerInit ⟨true, true, true⟩
        (some { throttleConfigDefault with maxRecords := 1 })).1 = .ok ∧
      ValidList [candidateOf 8 1] ∧
      controllerNowNs c.cfg (CallEnv.working 9).clock = some 9 ∧
      ({8} ∪ heldPids c).card ≤ c.cfg.maxRecords.toNat ∧
      (applyCandidates (.working 9) c [candidateOf 8 1]).1.rc = .errNoSpace := by
  refine ⟨by decide +kernel, ⟨?_, List.nodup_singleton _⟩, by decide +kernel, by decide +kernel,
    by decide +kernel⟩
  decide +kernel

end CgroupResearch
