import CgroupResearch.Throttle.Representation

/-!
# Processes do not interfere

A call of `throttle_controller_apply_candidates` is a batch: what it does to a process
depends on the record of the process, on its own entry in the list and on the outcome
of its own move, not on the rest of the batch (`recordAfter`). So the order of the list
does not matter.

The argument goes through two runs of a function on records, side by side (`SameStep`):
on the same record, and with the same outcome of its move, they leave the same record
and add the same to the *tally* of the call, its counters and its moves regardless of
their order. The tally of a loop is then a sum, over the list (`candidatesLoop_tally`) or
over the records (`forRecords_tally`), and sums do not depend on the order.
-/

namespace CgroupResearch

/-- What a call meets when the outcome of a move depends on the process and the group
    only. -/
def CallEnv.ofOutcome (clock : ClockReading) (outcome : ℤ → ProcGroup → Bool) : CallEnv where
  clock := clock
  written _ := outcome

/-- The numeric counters of the statistics. -/
def ThrottleStats.counters (s : ThrottleStats) : Fin 9 → ℕ :=
  ![s.candidateCount, s.recordsSeen, s.throttleActions, s.releaseActions, s.keptThrottled,
    s.skippedLowScore, s.skippedCooldown, s.staleReleases, s.errors]

/-- The moves attempted, regardless of their outcome. -/
def attempted (moves : List CgroupMove) : List (ℤ × ProcGroup) :=
  moves.map fun m => (m.pid, m.group)

/-- The effects of a call, regardless of their order. -/
def Effects.tally (w : Effects) : (Fin 9 → ℕ) × Multiset (ℤ × ProcGroup) :=
  (w.stats.counters, (attempted w.moves : Multiset (ℤ × ProcGroup)))

/-- The effects of a call that has done nothing. -/
def Effects.nothing : Effects := .start throttleStatsReset

theorem tally_nothing : Effects.nothing.tally = 0 := by
  refine Prod.ext (funext fun i => ?_) rfl
  fin_cases i <;> rfl

/-- The result of the call is an error iff an error was counted, and then it is that of
    a move. -/
def Effects.Settled (w : Effects) : Prop :=
  w.overallRc = if w.stats.errors = 0 then .ok else .errCgroup

/-! ## Functions on records, side by side -/

/-- Two runs of a function on records, from the effects `w` and `w'`, leave the same
    record and add the same. -/
structure SameStep (w w' : Effects) (out out' : ThrottleRecord × Effects) : Prop where
  record : out.1 = out'.1
  tally : ∃ d, out.2.tally = w.tally + d ∧ out'.2.tally = w'.tally + d
  settled : w.Settled → out.2.Settled

/-- Whether the moves of a process succeed is told by `moved`. -/
def CallEnv.Answers (env : CallEnv) (p : ℤ) (moved : ProcGroup → Bool) : Prop :=
  ∀ moves group, env.written moves p group = moved group

theorem answers_ofOutcome (clock : ClockReading) (outcome : ℤ → ProcGroup → Bool) {p q : ℤ}
    (h : q = p) : (CallEnv.ofOutcome clock outcome).Answers q (outcome p) :=
  fun _ _ => by rw [h]; rfl

section

variable {cfg : ThrottleConfig} {env env' : CallEnv} {nowNs : UInt64} {r : ThrottleRecord}
  {w w' : Effects} {moved : ProcGroup → Bool}

/-- A run that counts in the statistics, and does nothing else. -/
theorem SameStep.counted {r' : ThrottleRecord} (count : ThrottleStats → ThrottleStats)
    (d : Fin 9 → ℕ) (hcount : ∀ s, (count s).counters = s.counters + d)
    (herrors : ∀ s, (count s).errors = s.errors) :
    SameStep w w' (r', { w with stats := count w.stats })
      (r', { w' with stats := count w'.stats }) := by
  refine ⟨rfl, ⟨(d, 0), ?_, ?_⟩, fun h => ?_⟩
  · exact Prod.ext (hcount _) (add_zero _).symm
  · exact Prod.ext (hcount _) (add_zero _).symm
  · rw [Effects.Settled]
    exact h.trans (by rw [herrors])

/-- A run that leaves the effects as they are. -/
theorem SameStep.idle {r' : ThrottleRecord} : SameStep w w' (r', w) (r', w') :=
  ⟨rfl, ⟨0, (add_zero _).symm, (add_zero _).symm⟩, id⟩

/-- Counting first what is no error does not make a difference. -/
theorem SameStep.of_counted {out out' : ThrottleRecord × Effects}
    (count : ThrottleStats → ThrottleStats) (d : Fin 9 → ℕ)
    (hcount : ∀ s, (count s).counters = s.counters + d)
    (herrors : ∀ s, (count s).errors = s.errors)
    (h : SameStep { w with stats := count w.stats } { w' with stats := count w'.stats } out out') :
    SameStep w w' out out' := by
  have hfirst : SameStep w w' (out.1, { w with stats := count w.stats })
      (out.1, { w' with stats := count w'.stats }) := .counted count d hcount herrors
  obtain ⟨_, ⟨d₁, hd₁, hd₁'⟩, hs₁⟩ := hfirst
  obtain ⟨d₂, hd₂, hd₂'⟩ := h.tally
  exact ⟨h.record, ⟨d₁ + d₂, by rw [hd₂, hd₁, add_assoc], by rw [hd₂', hd₁', add_assoc]⟩,
    fun hw => h.settled (hs₁ hw)⟩

/-- A move, side by side. -/
theorem movePid_same (pid : ℤ) (group : ProcGroup) (moved : ProcGroup → Bool)
    (cfg : ThrottleConfig) : ∃ (ok : Bool) (moves : List CgroupMove),
    ∀ env w, CallEnv.Answers env pid moved → movePid cfg env pid group w =
      (if ok then .ok else .errCgroup, { w with moves := moves ++ w.moves }) := by
  cases hdry : cfg.dryRun with
  | true => exact ⟨true, [], fun env w _ => by rw [movePid, if_pos hdry]; rfl⟩
  | false =>
    refine ⟨(cgroupMovePid (moved group) pid group).ok, [cgroupMovePid (moved group) pid group],
      fun env w henv => ?_⟩
    rw [movePid, if_neg (by rw [hdry]; exact Bool.false_ne_true), henv]
    rfl

theorem tally_attempted (w : Effects) (stats : ThrottleStats) (rc : ThrottleRc)
    (moves : List CgroupMove) (actions : List Action) {d : Fin 9 → ℕ}
    (hstats : stats.counters = w.stats.counters + d) :
    Effects.tally ⟨stats, rc, moves ++ w.moves, actions⟩ =
      w.tally + (d, (attempted moves : Multiset (ℤ × ProcGroup))) := by
  refine Prod.ext hstats ?_
  rw [Effects.tally, attempted, List.map_append, ← Multiset.coe_add, add_comm]
  rfl

/-- What an attempt adds to the counters: an error, or what `n` tells. -/
def attemptCounters (ok : Bool) (n : Fin 9 → ℕ) : Fin 9 → ℕ := if ok then n else Pi.single 8 1

/-- A function that makes a move and reports its result, side by side. -/
theorem SameStep.of_attempt (ok : Bool) (n : Fin 9 → ℕ) {moves : List CgroupMove}
    {r' : ThrottleRecord} {stats stats' : ThrottleStats} {actions actions' : List Action}
    (hstats : stats.counters = w.stats.counters + attemptCounters ok n)
    (hstats' : stats'.counters = w'.stats.counters + attemptCounters ok n) (hn : n 8 = 0) :
    SameStep w w'
      (r', Effects.noteRc ⟨stats, w.overallRc, moves ++ w.moves, actions⟩
        (if ok then .ok else .errCgroup))
      (r', Effects.noteRc ⟨stats', w'.overallRc, moves ++ w'.moves, actions'⟩
        (if ok then .ok else .errCgroup)) := by
  have herrors : stats.errors = w.stats.errors + attemptCounters ok n 8 := congrFun hstats 8
  cases ok with
  | true =>
    refine ⟨rfl, ⟨_, tally_attempted w _ _ _ _ hstats, tally_attempted w' _ _ _ _ hstats'⟩, ?_⟩
    intro hw
    rw [Effects.Settled]
    change w.overallRc = if stats.errors = 0 then .ok else .errCgroup
    rw [herrors, attemptCounters, if_pos rfl, hn, Nat.add_zero]
    exact hw
  | false =>
    refine ⟨rfl, ⟨_, tally_attempted w _ _ _ _ hstats, tally_attempted w' _ _ _ _ hstats'⟩, ?_⟩
    intro _
    rw [Effects.Settled]
    change ThrottleRc.errCgroup = if stats.errors = 0 then .ok else .errCgroup
    rw [if_neg]
    rw [herrors]
    exact Nat.succ_ne_zero _

theorem counters_setStatsError (s : ThrottleStats) (rc : ThrottleRc) (reason : String) :
    (setStatsError s rc reason).counters = s.counters + Pi.single 8 1 := by
  funext i
  fin_cases i <;> rfl

/-- The attempt to throttle, as the `switch` makes it. -/
theorem throttle_same (henv : env.Answers r.pid moved) (henv' : env'.Answers r.pid moved) :
    SameStep w w'
      ((throttleRecordPid cfg env nowNs r w).2.1,
        (throttleRecordPid cfg env nowNs r w).2.2.noteRc (throttleRecordPid cfg env nowNs r w).1)
      ((throttleRecordPid cfg env' nowNs r w').2.1,
        (throttleRecordPid cfg env' nowNs r w').2.2.noteRc
          (throttleRecordPid cfg env' nowNs r w').1) := by
  obtain ⟨ok, moves, hmove⟩ := movePid_same r.pid cfg.throttledGroup moved cfg
  rw [throttleRecordPid, throttleRecordPid, hmove env w henv, hmove env' w' henv']
  have hcount : ∀ s : ThrottleStats,
      { s with throttleActions := s.throttleActions + 1 }.counters = s.counters + Pi.single 2 1 :=
    fun s => by funext i; fin_cases i <;> rfl
  cases ok with
  | true => exact .of_attempt true (Pi.single 2 1) (hcount _) (hcount _) rfl
  | false =>
    exact .of_attempt false (Pi.single 2 1) (counters_setStatsError _ _ _)
      (counters_setStatsError _ _ _) rfl

/-- The attempt to release. -/
theorem release_same (stale : Bool) (henv : env.Answers r.pid moved)
    (henv' : env'.Answers r.pid moved) :
    SameStep w w'
      ((releaseRecordPid cfg env nowNs stale r w).2.1,
        (releaseRecordPid cfg env nowNs stale r w).2.2.noteRc
          (releaseRecordPid cfg env nowNs stale r w).1)
      ((releaseRecordPid cfg env' nowNs stale r w').2.1,
        (releaseRecordPid cfg env' nowNs stale r w').2.2.noteRc
          (releaseRecordPid cfg env' nowNs stale r w').1) := by
  obtain ⟨ok, moves, hmove⟩ := movePid_same r.pid cfg.normalGroup moved cfg
  rw [releaseRecordPid, releaseRecordPid, hmove env w henv, hmove env' w' henv']
  have hcount : ∀ s : ThrottleStats,
      { s with
        releaseActions := s.releaseActions + 1
        staleReleases := if stale then s.staleReleases + 1 else s.staleReleases }.counters =
      s.counters + (Pi.single 3 1 + if stale then Pi.single 7 1 else 0) := by
    intro s
    funext i
    cases stale <;> fin_cases i <;> rfl
  have herrors : (Pi.single 3 1 + if stale then Pi.single 7 1 else 0 : Fin 9 → ℕ) 8 = 0 := by
    cases stale <;> rfl
  cases ok with
  | true => exact .of_attempt true _ (hcount _) (hcount _) herrors
  | false =>
    exact .of_attempt false _ (counters_setStatsError _ _ _) (counters_setStatsError _ _ _) herrors

/-- The counters that a turn without an attempt increases. -/
theorem counters_keptThrottled (s : ThrottleStats) :
    { s with keptThrottled := s.keptThrottled + 1 }.counters = s.counters + Pi.single 4 1 := by
  funext i
  fin_cases i <;> rfl

theorem counters_skippedLowScore (s : ThrottleStats) :
    { s with skippedLowScore := s.skippedLowScore + 1 }.counters =
      s.counters + Pi.single 5 1 := by
  funext i
  fin_cases i <;> rfl

theorem counters_skippedCooldown (s : ThrottleStats) :
    { s with skippedCooldown := s.skippedCooldown + 1 }.counters =
      s.counters + Pi.single 6 1 := by
  funext i
  fin_cases i <;> rfl

theorem counters_recordsSeen (s : ThrottleStats) :
    { s with recordsSeen := s.recordsSeen + 1 }.counters = s.counters + Pi.single 1 1 := by
  funext i
  fin_cases i <;> rfl

/-- The turn of a candidate depends on its own moves only. -/
theorem switchState_same (candidate : InterferenceCandidate) (hstate : r.state.Valid)
    (henv : env.Answers r.pid moved) (henv' : env'.Answers r.pid moved) :
    SameStep w w' (switchState cfg env nowNs candidate r w)
      (switchState cfg env' nowNs candidate r w') := by
  simp only [switchState]
  rcases hstate with hs | hs | hs
  · rw [hs]
    dsimp only
    split
    · exact throttle_same henv henv'
    · exact .counted _ _ counters_skippedLowScore fun _ => rfl
  · rw [hs]
    dsimp only
    split
    · exact release_same false henv henv'
    · exact .counted _ _ counters_keptThrottled fun _ => rfl
  · rw [hs]
    dsimp only
    split
    · exact .counted _ _ counters_skippedCooldown fun _ => rfl
    split
    · -- the cooldown is over: the attempt is made from `NONE`
      exact throttle_same (r := { r with state := .none, stateEnteredNs := nowNs }) henv henv'
    · exact .counted _ _ counters_skippedLowScore fun _ => rfl

theorem applyCandidate_same (candidate : InterferenceCandidate) (hstate : r.state.Valid)
    (henv : env.Answers r.pid moved) (henv' : env'.Answers r.pid moved) :
    SameStep w w' (applyCandidate cfg env nowNs candidate r w)
      (applyCandidate cfg env' nowNs candidate r w') :=
  .of_counted _ _ counters_recordsSeen (fun _ => rfl)
    (switchState_same (r := noteCandidate nowNs candidate r) candidate hstate henv henv')

theorem applyUnseen_same (henv : env.Answers r.pid moved) (henv' : env'.Answers r.pid moved) :
    SameStep w w' (applyUnseen cfg env nowNs r w) (applyUnseen cfg env' nowNs r w') := by
  simp only [applyUnseen]
  split
  · exact .idle
  split
  · split
    · exact release_same true henv henv'
    · exact .counted _ _ counters_keptThrottled fun _ => rfl
  split
  · exact .idle
  · exact .idle

/-- What a turn adds to the counters does not depend on the turns before. -/
theorem SameStep.tally_eq {out out' : ThrottleRecord × Effects}
    (h : SameStep w .nothing out out') : out.2.tally = w.tally + out'.2.tally := by
  obtain ⟨d, hd, hd'⟩ := h.tally
  rw [tally_nothing, zero_add] at hd'
  rw [hd, hd']

end

/-! ## The loops -/

section

variable {c : ThrottleController} {env : CallEnv} {nowNs : UInt64}

/-- A loop over the records runs on each of them as if it were alone. -/
theorem forRecords_tally {f : ThrottleRecord → Effects → ThrottleRecord × Effects}
    (records : List ThrottleRecord)
    (hf : ∀ r w, SameStep w .nothing (f r w) (f r .nothing)) (w : Effects) :
    (forRecords f records w).1 = records.map (fun r => (f r .nothing).1) ∧
    (forRecords f records w).2.tally =
      w.tally + (records.map fun r => (f r .nothing).2.tally).sum ∧
    (w.Settled → (forRecords f records w).2.Settled) := by
  induction records generalizing w with
  | nil => exact ⟨rfl, (add_zero _).symm, id⟩
  | cons r rs ih =>
    obtain ⟨hrecords, htally, hsettled⟩ := ih (f r w).2
    refine ⟨?_, ?_, fun hw => hsettled ((hf r w).settled hw)⟩
    · rw [forRecords, List.map_cons, ← (hf r w).record, ← hrecords]
    · rw [List.map_cons, List.sum_cons, ← add_assoc, ← (hf r w).tally_eq]
      exact htally

/-- What the turn of a candidate leaves and adds, run alone. -/
def turnAlone (c : ThrottleController) (env : CallEnv) (nowNs : UInt64)
    (records : List ThrottleRecord) (candidate : InterferenceCandidate) :
    ThrottleRecord × Effects :=
  applyCandidate c.cfg env nowNs candidate (turnRecord nowNs records candidate) .nothing

/-- The loop over the candidates runs on each of them as if it were alone. -/
theorem candidatesLoop_tally (henv : ∀ p, ∃ moved, env.Answers p moved)
    {candidates : List InterferenceCandidate} (hd : (candidates.map (·.pid)).Nodup)
    (records : List ThrottleRecord) (w : Effects)
    (hstate : ∀ cand ∈ candidates, (turnRecord nowNs records cand).state.Valid)
    (hlen : records.length + (unrecorded records candidates).length ≤ c.recordCap.toNat) :
    ∃ records' w', candidatesLoop c env nowNs candidates records w = (true, records', w') ∧
      (∀ p, findRecord records' p = match candidates.find? (fun cand => cand.pid = p) with
        | none => findRecord records p
        | some cand => some (turnAlone c env nowNs records cand).1) ∧
      w'.tally = w.tally +
        (candidates.map fun cand => (turnAlone c env nowNs records cand).2.tally).sum ∧
      (w.Settled → w'.Settled) := by
  induction candidates generalizing records w with
  | nil => exact ⟨records, w, rfl, fun p => rfl, (add_zero _).symm, id⟩
  | cons cand cands ih =>
    rw [List.map_cons, List.nodup_cons] at hd
    rw [List.forall_mem_cons] at hstate
    rw [length_unrecorded_cons] at hlen
    obtain ⟨records₁, heq, hpids, hself, hother⟩ := candidateTurn_eq c env nowNs cand records w
      (fun hr => by rw [hr, Option.isNone_none, if_pos rfl] at hlen; omega)
    obtain ⟨moved, hmoved⟩ := henv (turnRecord nowNs records cand).pid
    have hsame : SameStep w .nothing
        (applyCandidate c.cfg env nowNs cand (turnRecord nowNs records cand) w)
        (turnAlone c env nowNs records cand) :=
      applyCandidate_same cand hstate.1 hmoved hmoved
    -- the other candidates find their records as they were
    have hkeep : ∀ c' ∈ cands, findRecord records₁ c'.pid = findRecord records c'.pid :=
      fun c' hc' => hother _ fun h => hd.1 (h ▸ List.mem_map_of_mem hc')
    have hturn : ∀ c' ∈ cands, turnRecord nowNs records₁ c' = turnRecord nowNs records c' :=
      fun c' hc' => by rw [turnRecord, hkeep c' hc', turnRecord]
    have hunrec : unrecorded records₁ cands = unrecorded records cands :=
      List.filter_congr fun c' hc' => by rw [hkeep c' hc']
    have hlen₁ : records₁.length = records.length +
        (if (findRecord records cand.pid).isNone then 1 else 0) := by
      have := congrArg List.length hpids
      simp only [List.length_map, List.length_append] at this
      rw [this]
      split <;> simp
    obtain ⟨records', w', heq', hspec, htally, hsettled⟩ := ih hd.2 records₁ _
      (fun c' hc' => by rw [hturn c' hc']; exact hstate.2 c' hc') (by rw [hunrec]; omega)
    refine ⟨records', w', by rw [candidatesLoop, heq]; exact heq', fun p => ?_, ?_,
      fun hw => hsettled (hsame.settled hw)⟩
    · rw [hspec p]
      rcases eq_or_ne p cand.pid with rfl | hne
      · have hnone : cands.find? (fun c' => c'.pid = cand.pid) = none := by
          rw [List.find?_eq_none]
          exact fun c' hc' h => hd.1 (of_decide_eq_true h ▸ List.mem_map_of_mem hc')
        rw [hnone, List.find?_cons_of_pos (by simp)]
        dsimp only
        rw [hself, hsame.record]
      · rw [List.find?_cons_of_neg (by simpa using hne.symm)]
        cases hfind : cands.find? (fun c' => c'.pid = p) with
        | none => exact hother p hne
        | some c' =>
          dsimp only
          rw [turnAlone, turnAlone, hturn c' (List.mem_of_find?_eq_some hfind)]
    · rw [htally, hsame.tally_eq, List.map_cons, List.sum_cons, ← add_assoc]
      congr 2
      refine List.map_congr_left fun c' hc' => ?_
      rw [turnAlone, turnAlone, hturn c' hc']

/-- Lists of records with distinct pids, and the same record for every pid, hold the same
    records. -/
theorem perm_of_findRecord_eq {l l' : List ThrottleRecord} (hl : (l.map (·.pid)).Nodup)
    (hl' : (l'.map (·.pid)).Nodup) (h : ∀ p, findRecord l p = findRecord l' p) : l.Perm l' := by
  have hmem : ∀ {k : List ThrottleRecord}, (k.map (·.pid)).Nodup →
      ∀ r, r ∈ k ↔ findRecord k r.pid = some r := fun hk r =>
    ⟨fun hr => findRecord_of_mem hk hr, mem_of_findRecord⟩
  refine (List.perm_ext_iff_of_nodup hl.of_map hl'.of_map).2 fun r => ?_
  rw [hmem hl, hmem hl', h]

end

/-! ## Calls -/

/-- The record of a process after a call, from what concerns the process alone: its
    entry in the list, its record before and the outcome of its move. -/
def recordAfter (cfg : ThrottleConfig) (nowNs : UInt64) (moved : ProcGroup → Bool)
    (entry : Option InterferenceCandidate) (record : Option ThrottleRecord) :
    Option ThrottleRecord :=
  let env : CallEnv := ⟨⟨0, 0, 0, 0, 0⟩, fun _ _ => moved⟩
  match entry, record with
  | some candidate, record =>
    some (applyCandidate cfg env nowNs candidate
      ((record.map ThrottleRecord.unseen).getD (newRecord candidate.pid nowNs)) .nothing).1
  | none, some record => some (applyUnseen cfg env nowNs record.unseen .nothing).1
  | none, none => none

section

variable {c : ThrottleController} {nowNs : UInt64} {candidates : List InterferenceCandidate}

theorem Representation.turn_valid (h : Representation c) (nowNs : UInt64)
    (cand : InterferenceCandidate) :
    (turnRecord nowNs (c.records.map ThrottleRecord.unseen) cand).state.Valid := by
  rw [turnRecord, findRecord_unseen]
  cases hr : findRecord c.records cand.pid with
  | none => exact .inl rfl
  | some r => exact h.state r (mem_of_findRecord hr)

/-- The records between the two loops of a call. -/
structure Between (c : ThrottleController) (env : CallEnv) (nowNs : UInt64)
    (candidates : List InterferenceCandidate) (records : List ThrottleRecord) : Prop where
  distinct : (records.map (·.pid)).Nodup
  find : ∀ p, findRecord records p = match candidates.find? (fun cand => cand.pid = p) with
    | none => (findRecord c.records p).map ThrottleRecord.unseen
    | some cand => some (turnAlone c env nowNs (c.records.map ThrottleRecord.unseen) cand).1

/-- The record of a process after the second loop, from the records between. -/
theorem Between.find_after {outcome : ℤ → ProcGroup → Bool} {clock : ClockReading}
    {records : List ThrottleRecord} (hrep : Representation c)
    (h : Between c (.ofOutcome clock outcome) nowNs candidates records) (p : ℤ) :
    findRecord (records.map fun r =>
        (applyUnseen c.cfg (.ofOutcome clock outcome) nowNs r .nothing).1) p =
      recordAfter c.cfg nowNs (outcome p) (candidates.find? fun cand => cand.pid = p)
        (findRecord c.records p) := by
  have hpid : ∀ r, (applyUnseen c.cfg (.ofOutcome clock outcome) nowNs r .nothing).1.pid = r.pid :=
    fun r => (actsOnOwn_applyUnseen c.cfg (.ofOutcome clock outcome) nowNs r .nothing).choose_spec.pid
  have hmap : findRecord (records.map fun r =>
        (applyUnseen c.cfg (.ofOutcome clock outcome) nowNs r .nothing).1) p =
      (findRecord records p).map fun r =>
        (applyUnseen c.cfg (.ofOutcome clock outcome) nowNs r .nothing).1 := by
    rw [findRecord, List.find?_map, findRecord]
    congr 2
    funext r
    rw [Function.comp_apply, hpid]
  rw [hmap, h.find p]
  cases hentry : candidates.find? (fun cand => cand.pid = p) with
  | none =>
    cases hr : findRecord c.records p with
    | none => rfl
    | some r =>
      have hrp : r.pid = p := pid_of_findRecord hr
      have henv := answers_ofOutcome clock outcome hrp
      exact congrArg some (applyUnseen_same (r := r.unseen) henv (fun _ _ => rfl)).record
  | some cand =>
    have hcand : cand.pid = p := by simpa using List.find?_some hentry
    -- the second loop skips the record
    have hseen : (turnAlone c (.ofOutcome clock outcome) nowNs
        (c.records.map ThrottleRecord.unseen) cand).1.seenInLastApply = true := by
      obtain ⟨ok, hperf⟩ := applyCandidate_performs c.cfg (.ofOutcome clock outcome) nowNs
        (turnRecord nowNs (c.records.map ThrottleRecord.unseen) cand) .nothing cand
      exact hperf.seen
    have hturn : turnRecord nowNs (c.records.map ThrottleRecord.unseen) cand =
        ((findRecord c.records p).map ThrottleRecord.unseen).getD (newRecord cand.pid nowNs) := by
      rw [turnRecord, findRecord_unseen, hcand]
    have hvalid : (turnRecord nowNs (c.records.map ThrottleRecord.unseen) cand).state.Valid :=
      hrep.turn_valid nowNs cand
    have hrp := (turnRecord_pid nowNs (c.records.map ThrottleRecord.unseen) cand).trans hcand
    rw [Option.map_some, applyUnseen_of_seen _ _ _ _ _ hseen, turnAlone]
    rw [hturn] at hvalid hrp ⊢
    have henv := answers_ofOutcome clock outcome hrp
    exact congrArg some (applyCandidate_same cand hvalid henv (fun _ _ => rfl)).record

/-- What a call does when its list is accepted and its clock is read. -/
theorem applyCandidates_tally (hrep : Representation c) (hinv : c.Inv) (clock : ClockReading)
    (outcome : ℤ → ProcGroup → Bool) (hnow : controllerNowNs c.cfg clock = some nowNs)
    (hok : prevalidateCandidates c candidates = .ok) (hv : ValidList candidates)
    (hroom : c.records.length + (unrecorded c.records candidates).length ≤ c.recordCap.toNat) :
    ∃ (records : List ThrottleRecord) (w : Effects),
      Between c (.ofOutcome clock outcome) nowNs candidates records ∧
      applyCandidates (.ofOutcome clock outcome) c candidates =
        (⟨w.overallRc, w.stats, some nowNs, w.moves, w.actions⟩,
          { c with records := records.map fun r =>
              (applyUnseen c.cfg (.ofOutcome clock outcome) nowNs r .nothing).1 }) ∧
      w.Settled ∧
      w.tally =
        (Effects.start { throttleStatsReset with candidateCount := candidates.length }).tally +
        (candidates.map fun cand => (turnAlone c (.ofOutcome clock outcome) nowNs
          (c.records.map ThrottleRecord.unseen) cand).2.tally).sum +
        (records.map fun r =>
          (applyUnseen c.cfg (.ofOutcome clock outcome) nowNs r .nothing).2.tally).sum := by
  have hanswers : ∀ p, ∃ moved, (CallEnv.ofOutcome clock outcome).Answers p moved :=
    fun p => ⟨_, answers_ofOutcome clock outcome rfl⟩
  have hunrec := unrecorded_unseen c.records candidates
  obtain ⟨records, w, hloop, hfind, htally, hsettled⟩ := candidatesLoop_tally hanswers hv.distinct
    (c.records.map ThrottleRecord.unseen)
    (.start { throttleStatsReset with candidateCount := candidates.length })
    (fun cand _ => hrep.turn_valid nowNs cand) (by rw [hunrec, List.length_map]; exact hroom)
  obtain ⟨records', w', hloop', hpids, -⟩ := candidatesLoop_spec c (.ofOutcome clock outcome) nowNs
    hv.distinct (c.records.map ThrottleRecord.unseen)
    (.start { throttleStatsReset with candidateCount := candidates.length })
    (by rw [hunrec, List.length_map]; exact hroom)
  obtain ⟨rfl, rfl⟩ : records' = records ∧ w' = w := by
    rw [hloop] at hloop'
    exact ⟨congrArg (·.2.1) hloop'.symm, congrArg (·.2.2) hloop'.symm⟩
  -- After the candidates, the loop over the records that no candidate named.
  obtain ⟨hrecords, htally', hsettled'⟩ := forRecords_tally records'
    (f := applyUnseen c.cfg (.ofOutcome clock outcome) nowNs)
    (fun r w => by
      obtain ⟨moved, hmoved⟩ := hanswers r.pid
      exact applyUnseen_same hmoved hmoved) w'
  refine ⟨records', _, ⟨?_, fun p => ?_⟩, ?_, hsettled' (hsettled rfl), by rw [htally', htally]⟩
  · rw [hpids, hunrec, List.map_map]
    exact nodup_append_unrecorded hinv.distinct hv.distinct
  · rw [hfind p, findRecord_unseen]
  · rw [applyCandidates, if_neg (by simp [hinv.initialized]), hok, if_neg (not_not_intro rfl)]
    rw [show (CallEnv.ofOutcome clock outcome).clock = clock from rfl, hnow]
    simp only [hloop, hrecords]

/-- An accepted list is accepted in any order. -/
theorem prevalidateCandidates_perm (hinv : c.Inv) {candidates' : List InterferenceCandidate}
    (hperm : candidates'.Perm candidates) (hok : prevalidateCandidates c candidates = .ok) :
    ValidList candidates' ∧
      c.records.length + (unrecorded c.records candidates').length ≤ c.recordCap.toNat ∧
      prevalidateCandidates c candidates' = .ok := by
  rcases prevalidateCandidates_cases hinv candidates with ⟨-, hrc⟩ | ⟨-, -, hrc⟩ | ⟨hv, hroom, -⟩
  · exact nomatch hok.symm.trans hrc
  · exact nomatch hok.symm.trans hrc
  have hv' : ValidList candidates' :=
    ⟨fun cand hcand => hv.valid cand (hperm.subset hcand),
      ((hperm.map _).nodup_iff).2 hv.distinct⟩
  have hroom' : c.records.length + (unrecorded c.records candidates').length ≤
      c.recordCap.toNat := by
    rwa [unrecorded, (hperm.filter _).length_eq, ← unrecorded]
  refine ⟨hv', hroom', ?_⟩
  rcases prevalidateCandidates_cases hinv candidates' with ⟨hn, -⟩ | ⟨-, hn, -⟩ | ⟨-, -, hrc⟩
  · exact absurd hv' hn
  · omega
  · exact hrc

/-- In a list of distinct processes, the entry of a process does not depend on the
    order. -/
theorem find_perm {candidates' : List InterferenceCandidate} (hperm : candidates'.Perm candidates)
    (hd : (candidates.map (·.pid)).Nodup) (p : ℤ) :
    candidates'.find? (fun cand => cand.pid = p) = candidates.find? fun cand => cand.pid = p := by
  have huniq : ∀ a ∈ candidates, ∀ b ∈ candidates, a.pid = b.pid → a = b :=
    fun a ha b hb => List.inj_on_of_nodup_map hd ha hb
  cases h : candidates.find? fun cand => cand.pid = p with
  | none =>
    rw [List.find?_eq_none] at h ⊢
    exact fun cand hcand => h cand (hperm.subset hcand)
  | some cand =>
    have hcand := List.mem_of_find?_eq_some h
    cases h' : candidates'.find? fun cand => cand.pid = p with
    | none =>
      exact absurd (List.find?_some h) (List.find?_eq_none.1 h' cand (hperm.symm.subset hcand))
    | some cand' =>
      have hp : cand.pid = p := by simpa using List.find?_some h
      have hp' : cand'.pid = p := by simpa using List.find?_some h'
      rw [huniq cand' (hperm.subset (List.mem_of_find?_eq_some h')) cand hcand
        (hp'.trans hp.symm)]

/-- Two calls leave the same, up to the order of what they do. -/
structure SameUpToOrder (out out' : CallResult × ThrottleController) : Prop where
  rc : out'.1.rc = out.1.rc
  counters : out'.1.stats.counters = out.1.stats.counters
  moves : (attempted out'.1.moves).Perm (attempted out.1.moves)
  records : ∀ p, findRecord out'.2.records p = findRecord out.2.records p

/-- The order of an accepted list does not matter. -/
theorem applyCandidates_perm (hrep : Representation c) (hinv : c.Inv) (clock : ClockReading)
    (outcome : ℤ → ProcGroup → Bool) {candidates' : List InterferenceCandidate}
    (hperm : candidates'.Perm candidates) (hok : prevalidateCandidates c candidates = .ok) :
    SameUpToOrder (applyCandidates (.ofOutcome clock outcome) c candidates)
      (applyCandidates (.ofOutcome clock outcome) c candidates') := by
  obtain ⟨hv, hroom, -⟩ := prevalidateCandidates_perm hinv (.refl candidates) hok
  obtain ⟨hv', hroom', hok'⟩ := prevalidateCandidates_perm hinv hperm hok
  cases hnow : controllerNowNs c.cfg clock with
  | none =>
    have hearly : ∀ cands, prevalidateCandidates c cands = .ok →
        applyCandidates (.ofOutcome clock outcome) c cands = (.early .errTime
          (setStatsError throttleStatsReset .errTime "failed to read monotonic time"), c) := by
      intro cands hcands
      rw [applyCandidates, if_neg (by simp [hinv.initialized]), hcands,
        if_neg (not_not_intro rfl)]
      rw [show (CallEnv.ofOutcome clock outcome).clock = clock from rfl, hnow]
    rw [hearly candidates hok, hearly candidates' hok']
    exact ⟨rfl, rfl, .refl _, fun _ => rfl⟩
  | some nowNs =>
    obtain ⟨records, w, hbetween, hcall, hsettled, htally⟩ :=
      applyCandidates_tally hrep hinv clock outcome hnow hok hv hroom
    obtain ⟨records', w', hbetween', hcall', hsettled', htally'⟩ :=
      applyCandidates_tally hrep hinv clock outcome hnow hok' hv' hroom'
    have hrecords : records'.Perm records := by
      refine perm_of_findRecord_eq hbetween'.distinct hbetween.distinct fun p => ?_
      rw [hbetween'.find, hbetween.find, find_perm hperm hv.distinct]
    -- the two sums are over permuted lists
    have hsame : w'.tally = w.tally := by
      rw [htally, htally', hperm.length_eq, (hperm.map _).sum_eq, (hrecords.map _).sum_eq]
    have hcounters : w'.stats.counters = w.stats.counters := congrArg Prod.fst hsame
    rw [hcall, hcall']
    refine ⟨?_, hcounters, Multiset.coe_eq_coe.1 (congrArg Prod.snd hsame), fun p => ?_⟩
    · have herrors : w'.stats.errors = w.stats.errors := congrFun hcounters 8
      exact hsettled'.trans (herrors ▸ hsettled.symm)
    · exact (hbetween'.find_after hrep p).trans
        ((find_perm hperm hv.distinct p) ▸ (hbetween.find_after hrep p).symm)

/-- A call moves a process at most once. -/
theorem moves_le_one (hinv : c.Inv) (env : CallEnv) (p : ℤ) :
    ((applyCandidates env c candidates).1.moves.filter fun m => m.pid = p).length ≤ 1 := by
  have hmoves := hinv.call_moves (.applyCandidates env candidates)
  obtain ⟨ok, hactions, -⟩ := hinv.call_pid (.applyCandidates env candidates) p
  rw [ThrottleController.call] at hmoves hactions
  rw [hmoves]
  split
  · exact Nat.zero_le 1
  · rw [List.filter_map, List.length_map]
    change ((applyCandidates env c candidates).1.actions.filter fun a => a.pid = p).length ≤ 1
    rw [hactions, List.length_map]
    exact Option.length_toList_le

end

/-- In every reachable state, and for every outcome of the moves of the processes, the
    record of a process after an accepted call depends on the process alone. Permuting the
    list changes neither the result, nor the counters, nor the moves attempted, at most
    one per process, nor the records. -/
theorem processes_do_not_interfere {env₀ : InitEnv} {cfg : Option ThrottleConfig}
    {c₀ : ThrottleController} (hinit : throttleControllerInit env₀ cfg = (.ok, c₀))
    (as : List ControllerCall) (clock : ClockReading) (outcome : ℤ → ProcGroup → Bool)
    (candidates : List InterferenceCandidate)
    (hok : prevalidateCandidates (c₀.run as) candidates = .ok) :
    (∀ nowNs, controllerNowNs (c₀.run as).cfg clock = some nowNs → ∀ p,
      findRecord (applyCandidates (.ofOutcome clock outcome) (c₀.run as) candidates).2.records p =
        recordAfter (c₀.run as).cfg nowNs (outcome p) (candidates.find? fun cand => cand.pid = p)
          (findRecord (c₀.run as).records p)) ∧
    (∀ candidates', candidates'.Perm candidates →
      SameUpToOrder (applyCandidates (.ofOutcome clock outcome) (c₀.run as) candidates)
        (applyCandidates (.ofOutcome clock outcome) (c₀.run as) candidates')) ∧
    ∀ p, ((applyCandidates (.ofOutcome clock outcome) (c₀.run as) candidates).1.moves.filter
      fun m => m.pid = p).length ≤ 1 := by
  have h₀ := ThrottleController.started_of_init hinit
  have hinv := (h₀.run_inv as).1
  have hrep := representation_run h₀ as
  refine ⟨fun nowNs hnow p => ?_, fun candidates' hperm => ?_, moves_le_one hinv _⟩
  · obtain ⟨hv, hroom, -⟩ := prevalidateCandidates_perm hinv (.refl candidates) hok
    obtain ⟨records, w, hbetween, hcall, -⟩ :=
      applyCandidates_tally hrep hinv clock outcome hnow hok hv hroom
    rw [hcall]
    exact hbetween.find_after hrep p
  · exact applyCandidates_perm hrep hinv clock outcome hperm hok

/-- Processes `7` and `8`, in either order, when the moves of `8` fail. -/
theorem processes_do_not_interfere_two :
    let c₀ := (throttleControllerInit ⟨true, true, true⟩ none).2
    let env : CallEnv := .ofOutcome ⟨0, 0, 5, 0, 5⟩ fun p _ => p ≠ 8
    SameUpToOrder (applyCandidates env c₀ [candidateOf 7 1, candidateOf 8 1])
      (applyCandidates env c₀ [candidateOf 8 1, candidateOf 7 1]) := by
  intro c₀ env
  have hinit : throttleControllerInit ⟨true, true, true⟩ none = (.ok, c₀) :=
    Prod.ext (by decide +kernel) rfl
  exact (processes_do_not_interfere hinit [] ⟨0, 0, 5, 0, 5⟩ (fun p _ => p ≠ 8)
    [candidateOf 7 1, candidateOf 8 1] (by decide +kernel)).2.1 _ (.swap _ _ [])

end CgroupResearch
