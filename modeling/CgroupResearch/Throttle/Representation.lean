import CgroupResearch.Throttle.Run

/-!
# The records of the controller

What holds of the records in every reachable state (`Representation`): they fit in
the room of the controller, their pids are positive and distinct, and their states
are those of the state machine. Records are only ever appended (`run_pids_prefix`).

Hence two branches of `throttle_controller_apply_candidates` are dead. Once the
validation has accepted a list, every turn of the loop over the candidates finds the
record of its process or room for one, and a state that the `switch` knows
(`Representation.turns`).
-/

namespace CgroupResearch

/-- The states of the state machine. -/
def ThrottleState.Valid (s : ThrottleState) : Prop := s = .none ∨ s = .throttled ∨ s = .cooldown

/-- The representation invariant of the controller. -/
structure Representation (c : ThrottleController) : Prop where
  recordCap : c.recordCap = c.cfg.maxRecords
  length_le : c.records.length ≤ c.recordCap.toNat
  distinct : (c.records.map (·.pid)).Nodup
  positive : ∀ r ∈ c.records, 0 < r.pid
  state : ∀ r ∈ c.records, r.state.Valid

/-! ## One call -/

section

variable {c : ThrottleController}

theorem pos_of_candidateValid {candidate : InterferenceCandidate}
    (h : candidateValid candidate = true) : 0 < candidate.pid := by
  simp only [candidateValid, Bool.and_eq_true, decide_eq_true_eq] at h
  exact h.1.1.1

/-- The pids a call adds to the records are those of its candidates. -/
theorem ThrottleController.Inv.call_pids (hinv : c.Inv) (a : ControllerCall) :
    ∃ newPids, (c.call a).2.records.map (·.pid) = c.records.map (·.pid) ++ newPids ∧
      ∀ p ∈ newPids, 0 < p := by
  cases a with
  | applyCandidates env candidates =>
    rcases applyCandidates_cases hinv env candidates with
      ⟨haway, -⟩ | ⟨hv, -, nowNs, records, w, hthrough, hdone⟩
    · refine ⟨[], ?_, List.forall_mem_nil _⟩
      rw [ThrottleController.call, haway.controller, List.append_nil]
    · refine ⟨(unrecorded c.records candidates).map (·.pid), ?_, fun p hp => ?_⟩
      · rw [ThrottleController.call, hthrough.controller]
        exact hdone.pids
      · obtain ⟨cand, hcand, rfl⟩ := List.mem_map.1 hp
        exact pos_of_candidateValid (hv.valid cand (List.filter_sublist.subset hcand))
  | releaseAll env =>
    refine ⟨[], ?_, List.forall_mem_nil _⟩
    rcases releaseAll_cases hinv env with haway | ⟨nowNs, records, w, hthrough, hdone⟩
    · rw [ThrottleController.call, haway.controller, List.append_nil]
    · rw [ThrottleController.call, hthrough.controller]
      exact hdone.pids

/-- A transition keeps the state of a process valid. -/
theorem valid_transition {cfg : ThrottleConfig} {t : Touch} {o o' : Option Standing}
    {a : Option Attempt} (h : Transition cfg t o a o') (ho : ∀ s, o = some s → s.state.Valid) :
    ∀ s, o' = some s → s.state.Valid := by
  -- To be seen changes no state, and a new record starts in `none`.
  have hsee : ∀ s, t.see o = some s → s.state.Valid := by
    intro s hs
    cases t with
    | listed nowNs cand =>
      cases hs
      cases o with
      | none => exact .inl rfl
      | some s => exact ho s rfl
    | rejected => exact ho s hs
    | unlisted nowNs => exact ho s hs
    | releaseAll nowNs => exact ho s hs
  intro s hs
  cases h with
  | idle => exact hsee s hs
  | expire =>
    cases hs
    exact .inl rfl
  | fail kind nowNs s₀ hnow hsee₀ hjust hdue =>
    cases hs
    split
    · exact .inl rfl
    · exact hsee s₀ hsee₀
  | succeed kind nowNs s₀ =>
    cases hs
    cases kind with
    | throttle => exact .inr (.inl rfl)
    | release => exact .inr (.inr rfl)
    | staleRelease => exact .inr (.inr rfl)

end

/-! ## Runs -/

section

variable {c₀ : ThrottleController}

/-- The records of a moment of a run stay, in their order, for the rest of it. -/
theorem run_pids_prefix (h₀ : c₀.Started) (later earlier : List ControllerCall) :
    (c₀.run earlier).records.map (·.pid) <+:
      (c₀.run (later ++ earlier)).records.map (·.pid) := by
  induction later with
  | nil => exact List.prefix_rfl
  | cons a later ih =>
    obtain ⟨newPids, hpids, -⟩ := (h₀.run_inv (later ++ earlier)).1.call_pids a
    rw [List.cons_append, ThrottleController.run_cons, hpids]
    exact ih.trans (List.prefix_append _ _)

theorem positive_run (h₀ : c₀.Started) (as : List ControllerCall) :
    ∀ p ∈ (c₀.run as).records.map (·.pid), 0 < p := by
  induction as with
  | nil =>
    rw [ThrottleController.run_nil, h₀.records]
    exact List.forall_mem_nil _
  | cons a as ih =>
    obtain ⟨newPids, hpids, hpos⟩ := (h₀.run_inv as).1.call_pids a
    rw [ThrottleController.run_cons, hpids]
    exact List.forall_mem_append.2 ⟨ih, hpos⟩

theorem valid_run (h₀ : c₀.Started) (as : List ControllerCall) :
    ∀ r ∈ (c₀.run as).records, r.state.Valid := by
  intro r hr
  have hvalid := h₀.pid_invariant (fun _ o => ∀ s, o = some s → s.state.Valid) nofun
    (fun _ _ _ _ _ => valid_transition) as r.pid
  rw [ThrottleController.standing,
    findRecord_of_mem (h₀.run_inv as).1.distinct hr] at hvalid
  exact hvalid r.standing rfl

/-- The representation is sound after every run. -/
theorem representation_run (h₀ : c₀.Started) (as : List ControllerCall) :
    Representation (c₀.run as) := by
  obtain ⟨hinv, hcfg, hcap⟩ := h₀.run_inv as
  exact ⟨by rw [hcap, hcfg, h₀.recordCap], hinv.length_le, hinv.distinct,
    fun r hr => positive_run h₀ as r.pid (List.mem_map_of_mem hr), valid_run h₀ as⟩

end

/-! ## The turns of the loop -/

/-- The turn of `candidate`, after those of the candidates `before`, as the loop over
    the candidates gets to it: the loop has not returned, the record of the process is
    there or there is room for it, and the `switch` knows its state. -/
def TurnGoesThrough (c : ThrottleController) (env : CallEnv) (nowNs : UInt64)
    (stats : ThrottleStats) (before : List InterferenceCandidate)
    (candidate : InterferenceCandidate) : Prop :=
  ∃ records w,
    candidatesLoop c env nowNs before (c.records.map ThrottleRecord.unseen) (.start stats) =
      (true, records, w) ∧
    (findRecord records candidate.pid = none → records.length < c.recordCap.toNat) ∧
    ∀ r, r = (findRecord records candidate.pid).getD (newRecord candidate.pid nowNs) →
      (noteCandidate nowNs candidate r).state.Valid

/-- Every turn of the loop over an accepted list goes through, and so does the loop. -/
theorem Representation.turns {c : ThrottleController} (h : Representation c) (env : CallEnv)
    (nowNs : UInt64) (stats : ThrottleStats) {candidates : List InterferenceCandidate}
    (hd : (candidates.map (·.pid)).Nodup)
    (hroom : c.records.length + (unrecorded c.records candidates).length ≤ c.recordCap.toNat) :
    (candidatesLoop c env nowNs candidates (c.records.map ThrottleRecord.unseen)
      (.start stats)).1 = true ∧
    ∀ before candidate after, candidates = before ++ candidate :: after →
      TurnGoesThrough c env nowNs stats before candidate := by
  have hunrec := unrecorded_unseen c.records
  refine ⟨?_, fun before candidate after hsplit => ?_⟩
  · obtain ⟨records, w, hloop, -⟩ := candidatesLoop_spec c env nowNs hd
      (c.records.map ThrottleRecord.unseen) (.start stats)
      (by rw [hunrec, List.length_map]; exact hroom)
    rw [hloop]
  · subst hsplit
    rw [List.map_append, List.map_cons, List.nodup_append] at hd
    obtain ⟨hdbefore, -, hdisj⟩ := hd
    have hcount : (unrecorded c.records (before ++ candidate :: after)).length =
        (unrecorded c.records before).length +
          ((if (findRecord c.records candidate.pid).isNone then 1 else 0) +
            (unrecorded c.records after).length) := by
      rw [← length_unrecorded_cons, unrecorded, List.filter_append, List.length_append]
      rfl
    rw [hcount] at hroom
    obtain ⟨records, w, hloop, hpids, -, hspec⟩ := candidatesLoop_spec c env nowNs hdbefore
      (c.records.map ThrottleRecord.unseen) (.start stats)
      (by rw [hunrec, List.length_map]; omega)
    -- the turns before are of other processes: the record is the one the call found
    have hnone : before.find? (fun cand => cand.pid = candidate.pid) = none := by
      rw [List.find?_eq_none]
      exact fun cand hcand heq => hdisj cand.pid (List.mem_map_of_mem hcand) candidate.pid
        List.mem_cons_self (of_decide_eq_true heq)
    have hrec := hspec candidate.pid
    rw [hnone, findRecord_unseen] at hrec
    have hlen : records.length = c.records.length + (unrecorded c.records before).length := by
      have := congrArg List.length hpids
      simpa [hunrec] using this
    refine ⟨records, w, hloop, fun hr => ?_, fun r hr => ?_⟩
    · rw [hrec.1, Option.map_eq_none_iff] at hr
      rw [hr, Option.isNone_none, if_pos rfl] at hroom
      omega
    · subst hr
      rw [hrec.1]
      cases hfind : findRecord c.records candidate.pid with
      | none => exact .inl rfl
      | some r => exact h.state r (mem_of_findRecord hfind)

/-- In every run, the representation invariant holds, records are only appended, and
    the room left does not underflow. Once a list is accepted, the loop over it neither
    runs out of records nor meets an unknown state. -/
theorem controller_representation {env₀ : InitEnv} {cfg : Option ThrottleConfig}
    {c₀ : ThrottleController} (hinit : throttleControllerInit env₀ cfg = (.ok, c₀))
    (as : List ControllerCall) :
    Representation (c₀.run as) ∧
    (∀ later, (c₀.run as).records.map (·.pid) <+: (c₀.run (later ++ as)).records.map (·.pid)) ∧
    ((c₀.run as).recordCap - UInt64.ofNat (c₀.run as).records.length).toNat =
      (c₀.run as).recordCap.toNat - (c₀.run as).records.length ∧
    ∀ env nowNs stats candidates, prevalidateCandidates (c₀.run as) candidates = .ok →
      (candidatesLoop (c₀.run as) env nowNs candidates
        ((c₀.run as).records.map ThrottleRecord.unseen) (.start stats)).1 = true ∧
      ∀ before candidate after, candidates = before ++ candidate :: after →
        TurnGoesThrough (c₀.run as) env nowNs stats before candidate := by
  have h₀ := ThrottleController.started_of_init hinit
  have hrep := representation_run h₀ as
  refine ⟨hrep, fun later => run_pids_prefix h₀ later as, room_eq hrep.length_le,
    fun env nowNs stats candidates hok => ?_⟩
  rcases prevalidateCandidates_cases (h₀.run_inv as).1 candidates with ⟨-, hrc⟩ | ⟨-, -, hrc⟩ |
    ⟨hv, hroom, -⟩
  · exact nomatch hok.symm.trans hrc
  · exact nomatch hok.symm.trans hrc
  · exact hrep.turns env nowNs stats hv.distinct hroom

/-- Two calls of the default configuration: process `8` is appended after process `7`. -/
theorem controller_representation_two :
    let c₀ := (throttleControllerInit ⟨true, true, true⟩ none).2
    let as := [ControllerCall.applyCandidates (.working 9) [candidateOf 8 1, candidateOf 7 0],
      .applyCandidates (.working 5) [candidateOf 7 (1 / 2)]]
    (c₀.run as).records.map (·.pid) = [7, 8] ∧ Representation (c₀.run as) := by
  intro c₀ as
  have hinit : throttleControllerInit ⟨true, true, true⟩ none = (.ok, c₀) :=
    Prod.ext (by decide +kernel) rfl
  exact ⟨by decide +kernel, (controller_representation hinit as).1⟩

end CgroupResearch
