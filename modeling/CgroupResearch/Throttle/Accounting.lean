import CgroupResearch.Throttle.Justify
import CgroupResearch.Throttle.Representation

/-!
# The statistics of a call

A call counts its decisions. Every turn of its loops keeps the books (`Totals`): each
candidate is counted as one decision, and so is each throttled process that the list
leaves out; what succeeds or fails is counted as it is done (`Effects.Audited`), and the
number of throttled records changes with it.

* `apply_returns_exactly`: which return code a call of
  `throttle_controller_apply_candidates` has, and that a rejected call changes nothing;
* `statistics_balance`: the statistics of an accepted call.
-/

namespace CgroupResearch

/-- The decisions that the statistics count. -/
def ThrottleStats.decisions (s : ThrottleStats) : ℕ :=
  s.throttleActions + s.releaseActions + s.keptThrottled + s.skippedLowScore +
    s.skippedCooldown + s.errors

/-- The number of records in the state `THROTTLED`. -/
def throttledCount (records : List ThrottleRecord) : ℕ :=
  records.countP fun r => r.state = .throttled

/-- The statistics tell what the call has done so far. -/
structure Effects.Audited (cfg : ThrottleConfig) (w : Effects) : Prop where
  throttles : w.stats.throttleActions = w.actions.countP fun a => a.ok && a.kind = .throttle
  releases : w.stats.releaseActions = w.actions.countP fun a => a.ok && a.kind ≠ .throttle
  stale : w.stats.staleReleases = w.actions.countP fun a => a.ok && a.kind = .staleRelease
  errors : w.stats.errors = w.actions.countP fun a => !a.ok
  dryRun : cfg.dryRun = true → ∀ a ∈ w.actions, a.ok = true
  overallRc : w.overallRc = if w.stats.errors = 0 then .ok else .errCgroup

/-- The books of a part of a call that takes the records `rs`, with the effects `w`, to
    `rs'` and `w'`: it sees `seen` candidates and makes `decided` decisions. -/
structure Totals (cfg : ThrottleConfig) (rs : List ThrottleRecord) (w : Effects)
    (rs' : List ThrottleRecord) (w' : Effects) (seen decided : ℕ) : Prop where
  valid : ∀ r ∈ rs', r.state.Valid
  audited : w.Audited cfg → w'.Audited cfg
  candidateCount : w'.stats.candidateCount = w.stats.candidateCount
  recordsSeen : w'.stats.recordsSeen = w.stats.recordsSeen + seen
  decisions : w'.stats.decisions = w.stats.decisions + decided
  throttled : throttledCount rs' + w'.stats.releaseActions + w.stats.throttleActions =
    throttledCount rs + w.stats.releaseActions + w'.stats.throttleActions

/-! ## Turns -/

section

variable {cfg : ThrottleConfig} {env : CallEnv} {nowNs : UInt64} {r r' : ThrottleRecord}
  {w w₁ w' : Effects} {rs rs₁ rs₁' rs₂ rs₂' : List ThrottleRecord}
  {seen decided seen₁ decided₁ seen₂ decided₂ : ℕ}

/-- An action, counted by its kind if it succeeds and as an error if it does not. -/
theorem Effects.Audited.act (hw : w.Audited cfg) (a : Action)
    (hdry : cfg.dryRun = true → a.ok = true) (hactions : w'.actions = a :: w.actions)
    (hthrottles : w'.stats.throttleActions =
      w.stats.throttleActions + if a.ok && a.kind = .throttle then 1 else 0)
    (hreleases : w'.stats.releaseActions =
      w.stats.releaseActions + if a.ok && a.kind ≠ .throttle then 1 else 0)
    (hstale : w'.stats.staleReleases =
      w.stats.staleReleases + if a.ok && a.kind = .staleRelease then 1 else 0)
    (herrors : w'.stats.errors = w.stats.errors + if !a.ok then 1 else 0)
    (hrc : w'.overallRc = if a.ok then w.overallRc else .errCgroup) : w'.Audited cfg where
  throttles := by rw [hthrottles, hactions, List.countP_cons, hw.throttles]
  releases := by rw [hreleases, hactions, List.countP_cons, hw.releases]
  stale := by rw [hstale, hactions, List.countP_cons, hw.stale]
  errors := by rw [herrors, hactions, List.countP_cons, hw.errors]
  dryRun := fun h => by
    rw [hactions]
    exact List.forall_mem_cons.2 ⟨hdry h, hw.dryRun h⟩
  overallRc := by
    rw [hrc, herrors, hw.overallRc]
    cases a.ok <;> simp

/-- The books of a loop: first those of a part, then those of the rest. -/
theorem Totals.append (h₁ : Totals cfg rs₁ w rs₁' w₁ seen₁ decided₁)
    (h₂ : Totals cfg rs₂ w₁ rs₂' w' seen₂ decided₂) :
    Totals cfg (rs₁ ++ rs₂) w (rs₁' ++ rs₂') w' (seen₁ + seen₂) (decided₁ + decided₂) where
  valid := fun r hr => (List.mem_append.1 hr).elim (h₁.valid r) (h₂.valid r)
  audited := h₂.audited ∘ h₁.audited
  candidateCount := h₂.candidateCount.trans h₁.candidateCount
  recordsSeen := by rw [h₂.recordsSeen, h₁.recordsSeen, Nat.add_assoc]
  decisions := by rw [h₂.decisions, h₁.decisions, Nat.add_assoc]
  throttled := by
    have ht₁ := h₁.throttled
    have ht₂ := h₂.throttled
    simp only [throttledCount, List.countP_append] at ht₁ ht₂ ⊢
    omega

/-- Records that are left alone change nothing in the books. -/
theorem Totals.refl (hvalid : ∀ r ∈ rs, r.state.Valid) : Totals cfg rs w rs w 0 0 :=
  ⟨hvalid, id, rfl, rfl, rfl, rfl⟩

/-- The books of two parts, one after the other, on the same records. -/
theorem Totals.trans (h₁ : Totals cfg rs w rs₁ w₁ seen₁ decided₁)
    (h₂ : Totals cfg rs₁ w₁ rs₂ w' seen₂ decided₂) :
    Totals cfg rs w rs₂ w' (seen₁ + seen₂) (decided₁ + decided₂) where
  valid := h₂.valid
  audited := h₂.audited ∘ h₁.audited
  candidateCount := h₂.candidateCount.trans h₁.candidateCount
  recordsSeen := by rw [h₂.recordsSeen, h₁.recordsSeen, Nat.add_assoc]
  decisions := by rw [h₂.decisions, h₁.decisions, Nat.add_assoc]
  throttled := by
    have ht₁ := h₁.throttled
    have ht₂ := h₂.throttled
    omega

/-- A turn without an action, that counts the process as `count` does. -/
theorem Totals.counted (count : ThrottleStats → ThrottleStats) (hvalid : r'.state.Valid)
    (hstate : r'.state = .throttled ↔ r.state = .throttled)
    (hcount : ∀ s, (count s).candidateCount = s.candidateCount ∧
      (count s).recordsSeen = s.recordsSeen + seen ∧
      (count s).decisions = s.decisions + decided ∧
      (count s).throttleActions = s.throttleActions ∧
      (count s).releaseActions = s.releaseActions ∧
      (count s).staleReleases = s.staleReleases ∧ (count s).errors = s.errors) :
    Totals cfg [r] w [r'] { w with stats := count w.stats } seen decided := by
  obtain ⟨hcandidates, hseen, hdecisions, hthrottles, hreleases, hstale, herrors⟩ := hcount w.stats
  refine ⟨by simpa using hvalid, fun hw => ⟨?_, ?_, ?_, ?_, hw.dryRun, ?_⟩, hcandidates, hseen,
    hdecisions, ?_⟩
  · exact hthrottles.trans hw.throttles
  · exact hreleases.trans hw.releases
  · exact hstale.trans hw.stale
  · exact herrors.trans hw.errors
  · dsimp only
    rw [herrors, hw.overallRc]
  · dsimp only
    rw [hthrottles, hreleases, throttledCount, throttledCount, List.countP_singleton,
      List.countP_singleton]
    simp only [hstate]

/-- A decision without an action is counted once: the process is kept, or not throttled, or stays in
    its cooldown. -/
theorem Totals.unmoved (kept low cooldown : ℕ) (hone : kept + low + cooldown = 1)
    (hvalid : r.state.Valid) (hstate : r'.state = r.state) :
    Totals cfg [r] w [r']
      { w with stats := { w.stats with
          keptThrottled := w.stats.keptThrottled + kept
          skippedLowScore := w.stats.skippedLowScore + low
          skippedCooldown := w.stats.skippedCooldown + cooldown } } 0 1 := by
  refine .counted (fun s => { s with
      keptThrottled := s.keptThrottled + kept
      skippedLowScore := s.skippedLowScore + low
      skippedCooldown := s.skippedCooldown + cooldown }) (hstate ▸ hvalid) (by rw [hstate])
    fun s => ⟨rfl, rfl, ?_, rfl, rfl, rfl, rfl⟩
  simp only [ThrottleStats.decisions]
  omega

/-- The end of a cooldown is not counted. -/
theorem Totals.expire (hstate : r'.state = .none) (hs : r.state ≠ .throttled) :
    Totals cfg [r] w [r'] w 0 0 :=
  .counted id (.inl hstate) (by simp [hstate, hs]) fun _ => ⟨rfl, rfl, rfl, rfl, rfl, rfl, rfl⟩

/-- The attempt to throttle a process that is not, as the `switch` makes it. -/
theorem throttle_totals (hstate : r.state = .none) :
    Totals cfg [r] w [(throttleRecordPid cfg env nowNs r w).2.1]
      ((throttleRecordPid cfg env nowNs r w).2.2.noteRc (throttleRecordPid cfg env nowNs r w).1)
      0 1 := by
  obtain ⟨ok, hdry, h⟩ := movePid_cases cfg env w r.pid cfg.throttledGroup
  rw [throttleRecordPid, h]
  cases ok with
  | false =>
    refine ⟨List.forall_mem_singleton.2 (.inl hstate), fun hw => hw.act ⟨r.pid, .throttle, false⟩
      hdry rfl rfl rfl rfl rfl rfl, rfl, rfl, rfl, rfl⟩
  | true =>
    refine ⟨List.forall_mem_singleton.2 (.inr (.inl rfl)),
      fun hw => hw.act ⟨r.pid, .throttle, true⟩ hdry rfl rfl rfl rfl rfl rfl, rfl, rfl, ?_, ?_⟩
    · simp only [Effects.noteRc, ThrottleStats.decisions, if_true, ne_eq, not_true, if_false]
      omega
    · simp only [Effects.noteRc, throttledCount, List.countP_singleton, hstate]
      simp
      omega

/-- The attempt to release a throttled process. -/
theorem release_totals (stale : Bool) (hstate : r.state = .throttled) :
    Totals cfg [r] w [(releaseRecordPid cfg env nowNs stale r w).2.1]
      ((releaseRecordPid cfg env nowNs stale r w).2.2.noteRc
        (releaseRecordPid cfg env nowNs stale r w).1) 0 1 := by
  obtain ⟨ok, hdry, h⟩ := movePid_cases cfg env w r.pid cfg.normalGroup
  rw [releaseRecordPid, h]
  cases ok with
  | false =>
    refine ⟨List.forall_mem_singleton.2 (.inr (.inl hstate)), fun hw => hw.act
      ⟨r.pid, if stale then .staleRelease else .release, false⟩ hdry rfl rfl rfl rfl rfl rfl,
      rfl, rfl, rfl, rfl⟩
  | true =>
    refine ⟨List.forall_mem_singleton.2 (.inr (.inr rfl)), fun hw => hw.act
      ⟨r.pid, if stale then .staleRelease else .release, true⟩ hdry rfl ?_ ?_ ?_ rfl rfl,
      rfl, rfl, ?_, ?_⟩
    · cases stale <;> rfl
    · cases stale <;> rfl
    · cases stale <;> rfl
    · simp only [Effects.noteRc, ThrottleStats.decisions, if_true, ne_eq, not_true, if_false]
      omega
    · simp only [Effects.noteRc, throttledCount, List.countP_singleton, hstate]
      simp
      omega

/-- The turn of a candidate, once its record is at hand, is one decision. -/
theorem switchState_totals (candidate : InterferenceCandidate) (hvalid : r.state.Valid) :
    Totals cfg [r] w [(switchState cfg env nowNs candidate r w).1]
      (switchState cfg env nowNs candidate r w).2 0 1 := by
  rw [switchState]
  rcases hvalid with hs | hs | hs
  · simp only [hs]
    split
    · exact throttle_totals hs
    · exact .unmoved 0 1 0 rfl (.inl hs) hs.symm
  · simp only [hs]
    split
    · exact release_totals false hs
    · exact .unmoved 1 0 0 rfl (.inr (.inl hs)) hs.symm
  · simp only [hs]
    split
    · exact .unmoved 0 0 1 rfl (.inr (.inr hs)) hs.symm
    -- the cooldown is over, and the process counts as one that is not throttled
    have hover : Totals cfg [r] w [{ r with state := .none, stateEnteredNs := nowNs }] w 0 0 :=
      .expire rfl (by simp [hs])
    split
    · exact hover.trans (throttle_totals rfl)
    · exact hover.trans (.unmoved 0 1 0 rfl (.inl rfl) (by rfl))

/-- The turn of a candidate is one record seen and one decision. -/
theorem applyCandidate_totals (candidate : InterferenceCandidate) (hvalid : r.state.Valid) :
    Totals cfg [r] w [(applyCandidate cfg env nowNs candidate r w).1]
      (applyCandidate cfg env nowNs candidate r w).2 1 1 := by
  have hnote : Totals cfg [r] w [noteCandidate nowNs candidate r]
      { w with stats := { w.stats with recordsSeen := w.stats.recordsSeen + 1 } } 1 0 :=
    .counted (fun s => { s with recordsSeen := s.recordsSeen + 1 }) hvalid Iff.rfl fun _ =>
      ⟨rfl, rfl, rfl, rfl, rfl, rfl, rfl⟩
  exact hnote.trans (switchState_totals candidate hvalid)

/-- Whether the loop over the records has to decide on a record. -/
def ThrottleRecord.leftOut (r : ThrottleRecord) : Bool :=
  !r.seenInLastApply && r.state = .throttled

/-- The turn of a record that was left out is one decision. -/
theorem applyUnseen_totals (hvalid : r.state.Valid) :
    Totals cfg [r] w [(applyUnseen cfg env nowNs r w).1] (applyUnseen cfg env nowNs r w).2 0
      (if r.leftOut then 1 else 0) := by
  have hidle : Totals cfg [r] w [r] w 0 0 := .refl (List.forall_mem_singleton.2 hvalid)
  rw [applyUnseen, ThrottleRecord.leftOut]
  cases hseen : r.seenInLastApply with
  | true => exact hidle
  | false =>
    by_cases hs : r.state = .throttled
    · rw [if_neg Bool.false_ne_true, if_pos hs, decide_eq_true hs]
      dsimp only
      split
      · exact release_totals true hs
      · exact .unmoved 1 0 0 rfl hvalid (by rfl)
    · rw [if_neg Bool.false_ne_true, if_neg hs, decide_eq_false hs]
      split
      · exact .expire (by rfl) hs
      · exact hidle

end

/-! ## Loops -/

section

variable {c : ThrottleController} {cfg : ThrottleConfig} {env : CallEnv} {nowNs : UInt64}
  {f : ThrottleRecord → Effects → ThrottleRecord × Effects}

/-- The totals of a loop over the records. -/
theorem forRecords_totals {decided : ThrottleRecord → Bool}
    (hf : ∀ r w, r.state.Valid →
      Totals cfg [r] w [(f r w).1] (f r w).2 0 (if decided r then 1 else 0))
    {records : List ThrottleRecord} (hvalid : ∀ r ∈ records, r.state.Valid) (w : Effects) :
    Totals cfg records w (forRecords f records w).1 (forRecords f records w).2 0
      (records.countP decided) := by
  induction records generalizing w with
  | nil => exact .refl (List.forall_mem_nil _)
  | cons r rs ih =>
    rw [List.forall_mem_cons] at hvalid
    rw [List.countP_cons, Nat.add_comm]
    exact (hf r w hvalid.1).append (ih hvalid.2 _)

theorem onRecord_totals {seen decided : ℕ}
    (hf : ∀ r w, r.state.Valid → Totals cfg [r] w [(f r w).1] (f r w).2 seen decided) {pid : ℤ}
    {records records' : List ThrottleRecord} (hvalid : ∀ r ∈ records, r.state.Valid)
    {w w' : Effects} (h : onRecord pid f records w = some (records', w')) :
    Totals cfg records w records' w' seen decided := by
  induction records generalizing records' with
  | nil => cases h
  | cons r rs ih =>
    rw [List.forall_mem_cons] at hvalid
    rw [onRecord] at h
    split at h
    · cases h
      exact (hf r w hvalid.1).append (.refl hvalid.2)
    · obtain ⟨⟨rs', w₁⟩, hrs, heq⟩ := Option.map_eq_some_iff.1 h
      cases heq
      have hleft : Totals cfg [r] w [r] w 0 0 := .refl (List.forall_mem_singleton.2 hvalid.1)
      have hboth := hleft.append (ih hvalid.2 hrs)
      rwa [Nat.zero_add, Nat.zero_add] at hboth

theorem candidateTurn_totals {candidate : InterferenceCandidate}
    {records records' : List ThrottleRecord} (hvalid : ∀ r ∈ records, r.state.Valid)
    {w w' : Effects} (h : candidateTurn c env nowNs candidate records w = some (records', w')) :
    Totals c.cfg records w records' w' 1 1 := by
  rw [candidateTurn] at h
  split at h
  case h_1 out hon =>
    cases h
    exact onRecord_totals (fun r w => applyCandidate_totals candidate) hvalid hon
  case h_2 =>
    split at h
    · cases h
    · cases h
      -- the new record is in the state `NONE`, and so the books do not notice it
      have hnew : Totals c.cfg [newRecord candidate.pid nowNs] w
          [(applyCandidate c.cfg env nowNs candidate (newRecord candidate.pid nowNs) w).1]
          (applyCandidate c.cfg env nowNs candidate (newRecord candidate.pid nowNs) w).2 1 1 :=
        applyCandidate_totals candidate (.inl rfl)
      have hleft : Totals c.cfg records w records w 0 0 := .refl hvalid
      have hboth := hleft.append hnew
      refine ⟨hboth.valid, hboth.audited, hboth.candidateCount, hboth.recordsSeen,
        hboth.decisions, hboth.throttled.trans ?_⟩
      rw [throttledCount, List.countP_append]
      rfl

/-- The totals of the loop over the candidates. -/
theorem candidatesLoop_totals {candidates : List InterferenceCandidate}
    {records records' : List ThrottleRecord} (hvalid : ∀ r ∈ records, r.state.Valid)
    {w w' : Effects}
    (h : candidatesLoop c env nowNs candidates records w = (true, records', w')) :
    Totals c.cfg records w records' w' candidates.length candidates.length := by
  induction candidates generalizing records w with
  | nil =>
    cases h
    exact .refl hvalid
  | cons candidate candidates ih =>
    rw [candidatesLoop] at h
    split at h
    case h_1 records₁ w₁ hturn =>
      have hfirst := candidateTurn_totals hvalid hturn
      have hboth := hfirst.trans (ih hfirst.valid h)
      rwa [Nat.add_comm 1] at hboth
    case h_2 => cases congrArg Prod.fst h

/-- The throttled records whose processes a list leaves out. -/
def unlistedThrottled (records : List ThrottleRecord) (candidates : List InterferenceCandidate) :
    ℕ :=
  records.countP fun r => r.state = .throttled && r.pid ∉ candidates.map (·.pid)

/-- The records on which the second loop of a call decides are those that the list leaves
    out. -/
theorem countP_leftOut (hinv : c.Inv) {candidates : List InterferenceCandidate}
    (hv : ValidList candidates)
    (hroom : c.records.length + (unrecorded c.records candidates).length ≤ c.recordCap.toNat)
    {stats : ThrottleStats} {records : List ThrottleRecord} {w : Effects}
    (hloop : candidatesLoop c env nowNs candidates (c.records.map ThrottleRecord.unseen)
      (.start stats) = (true, records, w)) :
    records.countP ThrottleRecord.leftOut = unlistedThrottled c.records candidates := by
  have hunrec := unrecorded_unseen c.records candidates
  obtain ⟨records', w', hloop', hpids, -, hspec⟩ := candidatesLoop_spec c env nowNs hv.distinct
    (c.records.map ThrottleRecord.unseen) (.start stats)
    (by rw [hunrec, List.length_map]; exact hroom)
  rw [hloop] at hloop'
  cases hloop'
  refine countP_eq_of_findRecord ?_ hinv.distinct fun p => ?_
  · rw [hpids, hunrec, List.map_map]
    exact nodup_append_unrecorded hinv.distinct hv.distinct
  have hp := hspec p
  cases hfind : candidates.find? fun cand => cand.pid = p with
  | none =>
    rw [hfind, findRecord_unseen] at hp
    rw [hp.1]
    cases hr : findRecord c.records p with
    | none => rfl
    | some r =>
      have hnot : r.pid ∉ candidates.map (·.pid) := by
        rw [pid_of_findRecord hr]
        simpa using hfind
      rw [Option.map_some, Option.any_some, Option.any_some, decide_eq_true hnot, Bool.and_true]
      rfl
  | some cand =>
    -- the record of a listed process is marked as seen
    rw [hfind] at hp
    obtain ⟨ok, r', hr', hseen, -⟩ := hp
    have hmem : p ∈ candidates.map (·.pid) :=
      List.mem_map.2 ⟨cand, List.mem_of_find?_eq_some hfind, by simpa using List.find?_some hfind⟩
    rw [hr', Option.any_some, ThrottleRecord.leftOut, hseen]
    cases hr : findRecord c.records p with
    | none => rfl
    | some r =>
      rw [← pid_of_findRecord hr] at hmem
      rw [Option.any_some, decide_eq_false (not_not_intro hmem), Bool.and_false]
      rfl

/-- The books of an accepted call. -/
theorem applyCandidates_totals (hrep : Representation c) (hinv : c.Inv)
    {candidates : List InterferenceCandidate} (hnow : controllerNowNs c.cfg env.clock = some nowNs)
    (hok : prevalidateCandidates c candidates = .ok) :
    ∃ (records : List ThrottleRecord) (w : Effects), applyCandidates env c candidates =
        (⟨w.overallRc, w.stats, some nowNs, w.moves, w.actions⟩, { c with records := records }) ∧
      w.Audited c.cfg ∧
      Totals c.cfg c.records
        (.start { throttleStatsReset with candidateCount := candidates.length }) records w
        candidates.length (candidates.length + unlistedThrottled c.records candidates) := by
  obtain ⟨hv, hroom⟩ := validList_of_ok hinv hok
  obtain ⟨records, w, hloop, -⟩ := loops_applyCandidates hinv env nowNs hv
    { throttleStatsReset with candidateCount := candidates.length } hroom
  have hunseen : ∀ r ∈ c.records.map ThrottleRecord.unseen, r.state.Valid := by
    intro r hr
    obtain ⟨r', hr', rfl⟩ := List.mem_map.1 hr
    exact hrep.state r' hr'
  have hfirst := candidatesLoop_totals hunseen hloop
  have hsecond : Totals c.cfg records w (forRecords (applyUnseen c.cfg env nowNs) records w).1
      (forRecords (applyUnseen c.cfg env nowNs) records w).2 0
      (records.countP ThrottleRecord.leftOut) :=
    forRecords_totals (fun _ _ => applyUnseen_totals) hfirst.valid w
  rw [countP_leftOut hinv hv hroom hloop] at hsecond
  have hboth := hfirst.trans hsecond
  refine ⟨_, _, ?_, hboth.audited ⟨rfl, rfl, rfl, rfl, nofun, rfl⟩, ⟨hboth.valid, hboth.audited,
    hboth.candidateCount, hboth.recordsSeen, hboth.decisions, hboth.throttled.trans ?_⟩⟩
  · rw [applyCandidates, if_neg (by simp [hinv.initialized]), hok, if_neg (not_not_intro rfl), hnow]
    simp only [hloop]
  · rw [throttledCount, List.countP_map]
    rfl

/-- The errors of a call are its failed moves. -/
theorem countP_failed_moves {res : CallResult} {w : Effects} (hw : w.Audited cfg)
    (hactions : res.actions = w.actions)
    (hmoves : res.moves = if cfg.dryRun then [] else res.actions.map cfg.move) :
    w.stats.errors = res.moves.countP fun m => !m.ok := by
  rw [hw.errors, hmoves, hactions]
  cases hdry : cfg.dryRun with
  | true => exact List.countP_eq_zero.2 fun a ha => by simp [hw.dryRun hdry a ha]
  | false =>
    rw [if_neg Bool.false_ne_true, List.countP_map]
    rfl

end

/-! ## Return codes -/

/-- A score that is finite and between `0` and `1`. -/
def InUnit (x : Double) : Prop :=
  ∃ neg mag, x = .fin neg mag ∧ 0 ≤ Double.value neg mag ∧ Double.value neg mag ≤ 1

theorem validScore_iff (x : Double) : validScore x = true ↔ InUnit x := by
  rw [validScore, InUnit]
  cases x with
  | nan => simp [Double.isfinite]
  | inf neg => simp [Double.isfinite]
  | fin neg mag => simp [Double.isfinite, Double.lt, Double.ofRat, Double.value]

theorem candidateValid_iff (candidate : InterferenceCandidate) :
    candidateValid candidate = true ↔ 0 < candidate.pid ∧ InUnit candidate.activityScore ∧
      InUnit candidate.overlapScore ∧ InUnit candidate.finalScore := by
  simp only [candidateValid, Bool.and_eq_true, decide_eq_true_eq, validScore_iff, and_assoc]

/-- A list with an invalid candidate, or two of one process. -/
def Malformed (candidates : List InterferenceCandidate) : Prop :=
  (∃ cand ∈ candidates, cand.pid ≤ 0 ∨ ¬InUnit cand.activityScore ∨ ¬InUnit cand.overlapScore ∨
    ¬InUnit cand.finalScore) ∨ ¬(candidates.map (·.pid)).Nodup

/-- A list of more processes without a record than there is room for. -/
def Crowded (c : ThrottleController) (candidates : List InterferenceCandidate) : Prop :=
  c.recordCap.toNat - c.records.length < (unrecorded c.records candidates).length

theorem malformed_iff (candidates : List InterferenceCandidate) :
    Malformed candidates ↔ ¬ValidList candidates := by
  have hvalid : ValidList candidates ↔ (∀ cand ∈ candidates, candidateValid cand = true) ∧
      (candidates.map (·.pid)).Nodup := ⟨fun h => ⟨h.valid, h.distinct⟩, fun h => ⟨h.1, h.2⟩⟩
  rw [hvalid, Malformed, not_and_or]
  simp only [candidateValid_iff, not_forall, exists_prop, not_and_or, not_lt]

section

variable {c₀ : ThrottleController}

/-- In every reachable state, a call of `throttle_controller_apply_candidates` returns
    `INVALID_ARG` iff the list is malformed, else `NO_SPACE` iff it is too long for the room
    left, else `TIME` iff the clock fails. Then it changes no record and moves no process.
    Else it returns `OK` if all its moves succeed, and `ERR_CGROUP` if one fails. -/
theorem apply_returns_exactly {env₀ : InitEnv} {cfg : Option ThrottleConfig}
    (hinit : throttleControllerInit env₀ cfg = (.ok, c₀)) (as : List ControllerCall) (env : CallEnv)
    (candidates : List InterferenceCandidate) :
    let c := c₀.run as
    let out := applyCandidates env c candidates
    (out.1.rc = .errInvalidArg ↔ Malformed candidates) ∧
    (¬Malformed candidates → (out.1.rc = .errNoSpace ↔ Crowded c candidates)) ∧
    (¬Malformed candidates → ¬Crowded c candidates →
      (out.1.rc = .errTime ↔ controllerNowNs c.cfg env.clock = none)) ∧
    (out.1.rc = .errInvalidArg ∨ out.1.rc = .errNoSpace ∨ out.1.rc = .errTime →
      out.2 = c ∧ out.1.moves = []) ∧
    (¬Malformed candidates → ¬Crowded c candidates → controllerNowNs c.cfg env.clock ≠ none →
      ((∀ m ∈ out.1.moves, m.ok = true) → out.1.rc = .ok) ∧
      (¬(∀ m ∈ out.1.moves, m.ok = true) → out.1.rc = .errCgroup)) := by
  intro c out
  have h₀ := ThrottleController.started_of_init hinit
  have hinv := (h₀.run_inv as).1
  have hlen : c.records.length ≤ c.recordCap.toNat := hinv.length_le
  have hmoves := hinv.call_moves (.applyCandidates env candidates)
  rw [ThrottleController.call] at hmoves
  have hmal := malformed_iff candidates
  have hcrowd : Crowded c candidates ↔
      c.recordCap.toNat < c.records.length + (unrecorded c.records candidates).length := by
    rw [Crowded]
    omega
  have hstart : c.initialized = true := hinv.initialized
  rcases prevalidateCandidates_cases hinv candidates with ⟨hv, hrc⟩ | ⟨hv, hroom, hrc⟩ |
      ⟨hv, hroom, hrc⟩
  · have hout : out = (.early .errInvalidArg
        (setStatsError throttleStatsReset .errInvalidArg "candidate validation failed"), c) := by
      simp only [out, applyCandidates, hstart, c, hrc]
      rfl
    have hbad : Malformed candidates := hmal.2 hv
    rw [hout]
    exact ⟨iff_of_true rfl hbad, fun h => absurd hbad h, fun h => absurd hbad h,
      fun _ => ⟨rfl, rfl⟩, fun h => absurd hbad h⟩
  · have hout : out = (.early .errNoSpace
        (setStatsError throttleStatsReset .errNoSpace "candidate validation failed"), c) := by
      simp only [out, applyCandidates, hstart, c, hrc]
      rfl
    have hgood : ¬Malformed candidates := fun h => hmal.1 h hv
    have hfull : Crowded c candidates := hcrowd.2 hroom
    rw [hout]
    exact ⟨iff_of_false (by rintro ⟨⟩) hgood, fun _ => iff_of_true rfl hfull,
      fun _ h => absurd hfull h, fun _ => ⟨rfl, rfl⟩, fun _ h => absurd hfull h⟩
  have hgood : ¬Malformed candidates := fun h => hmal.1 h hv
  have hfree : ¬Crowded c candidates := fun h => absurd (hcrowd.1 h) (Nat.not_lt.2 hroom)
  cases hnow : controllerNowNs c.cfg env.clock with
  | none =>
    have hout : out = (.early .errTime
        (setStatsError throttleStatsReset .errTime "failed to read monotonic time"), c) := by
      simp only [out, applyCandidates, hstart, c, hrc, hnow]
      rfl
    rw [hout]
    exact ⟨iff_of_false (by rintro ⟨⟩) hgood, fun _ => iff_of_false (by rintro ⟨⟩) hfree,
      fun _ _ => iff_of_true rfl rfl, fun _ => ⟨rfl, rfl⟩, fun _ _ h => absurd rfl h⟩
  | some nowNs =>
    obtain ⟨records, w, hcall, haudited, -⟩ :=
      applyCandidates_totals (representation_run h₀ as) hinv hnow hrc
    have hout : out.1.rc = if w.stats.errors = 0 then .ok else .errCgroup := by
      simp only [out, c, hcall]
      exact haudited.overallRc
    have herrors : w.stats.errors = 0 ↔ ∀ m ∈ out.1.moves, m.ok = true := by
      rw [countP_failed_moves haudited (by rw [hcall]) hmoves, List.countP_eq_zero]
      simp [out, c]
    rw [hout]
    split
    case isTrue h0 =>
      exact ⟨iff_of_false (by rintro ⟨⟩) hgood, fun _ => iff_of_false (by rintro ⟨⟩) hfree,
        fun _ _ => iff_of_false (by rintro ⟨⟩) (Option.some_ne_none _), by simp,
        fun _ _ _ => ⟨fun _ => rfl, fun h => absurd (herrors.1 h0) h⟩⟩
    case isFalse h0 =>
      exact ⟨iff_of_false (by rintro ⟨⟩) hgood, fun _ => iff_of_false (by rintro ⟨⟩) hfree,
        fun _ _ => iff_of_false (by rintro ⟨⟩) (Option.some_ne_none _), by simp,
        fun _ _ _ => ⟨fun h => absurd (herrors.2 h) h0, fun _ => rfl⟩⟩

/-- With room for one record and two processes listed, the call is rejected, and nothing
    changes. -/
theorem apply_returns_exactly_crowded :
    let c₀ := (throttleControllerInit ⟨true, true, true⟩
      (some { throttleConfigDefault with maxRecords := 1 })).2
    let out := applyCandidates (.working 5) (c₀.run []) [candidateOf 7 1, candidateOf 8 1]
    out.1.rc = .errNoSpace ∧ out.2 = c₀.run [] ∧ out.1.moves = [] := by
  intro c₀ out
  have hinit : throttleControllerInit ⟨true, true, true⟩
      (some { throttleConfigDefault with maxRecords := 1 }) = (.ok, c₀) :=
    Prod.ext (by decide +kernel) rfl
  have hrc : out.1.rc = .errNoSpace := by decide +kernel
  exact ⟨hrc, (apply_returns_exactly hinit [] (.working 5) [candidateOf 7 1, candidateOf 8 1]).2.2.2.1
    (.inr (.inl hrc))⟩

/-! ## Statistics -/

/-- An action of a call of `throttle_controller_apply_candidates` is a stale release iff it
    is the release of a process that the list leaves out. -/
theorem kind_eq_staleRelease_iff (h₀ : c₀.Started) (as : List ControllerCall) (env : CallEnv)
    (candidates : List InterferenceCandidate) {a : Action}
    (ha : a ∈ (applyCandidates env (c₀.run as) candidates).1.actions) :
    a.kind = .staleRelease ↔ a.kind ≠ .throttle ∧ a.pid ∉ candidates.map (·.pid) := by
  obtain ⟨nowNs, -, hjust⟩ := justifiedBy_of_mem h₀ as env candidates ha
  cases hkind : a.kind with
  | throttle => simp
  | release =>
    rw [hkind] at hjust
    obtain ⟨cand, hcand, hpid, -⟩ := hjust
    exact iff_of_false nofun fun h => h.2 (hpid ▸ List.mem_map_of_mem hcand)
  | staleRelease =>
    rw [hkind] at hjust
    exact iff_of_true rfl ⟨nofun, hjust.1⟩

/-- In every reachable state, the statistics of an accepted call account for every
    candidate and every throttled record the list leaves out, once each. -/
theorem statistics_balance {env₀ : InitEnv} {cfg : Option ThrottleConfig}
    (hinit : throttleControllerInit env₀ cfg = (.ok, c₀)) (as : List ControllerCall) (env : CallEnv)
    (candidates : List InterferenceCandidate) {nowNs : UInt64}
    (hok : prevalidateCandidates (c₀.run as) candidates = .ok)
    (hnow : controllerNowNs (c₀.run as).cfg env.clock = some nowNs) :
    let c := c₀.run as
    let out := applyCandidates env c candidates
    let s := out.1.stats
    s.candidateCount = candidates.length ∧ s.recordsSeen = candidates.length ∧
    s.throttleActions + s.releaseActions + s.keptThrottled + s.skippedLowScore +
        s.skippedCooldown + s.errors =
      candidates.length + (c.records.filter fun r =>
        r.state = .throttled && r.pid ∉ candidates.map (·.pid)).length ∧
    s.staleReleases ≤ s.releaseActions ∧
    s.staleReleases = (out.1.actions.filter fun a =>
      a.ok && a.kind ≠ .throttle && a.pid ∉ candidates.map (·.pid)).length ∧
    s.errors = (out.1.moves.filter fun m => !m.ok).length ∧
    (s.errors = 0 ↔ out.1.rc = .ok) ∧
    (s.throttleActions : ℤ) - s.releaseActions =
      (out.2.records.filter fun r => r.state = .throttled).length -
        (c.records.filter fun r => r.state = .throttled).length := by
  intro c out s
  have h₀ := ThrottleController.started_of_init hinit
  have hinv := (h₀.run_inv as).1
  have hmoves := hinv.call_moves (.applyCandidates env candidates)
  rw [ThrottleController.call] at hmoves
  obtain ⟨records, w, hcall, haudited, htotals⟩ :=
    applyCandidates_totals (representation_run h₀ as) hinv hnow hok
  have hout : out = (⟨w.overallRc, w.stats, some nowNs, w.moves, w.actions⟩,
      { c with records := records }) := hcall
  have hstale : w.stats.staleReleases = w.actions.countP fun a =>
      a.ok && a.kind ≠ .throttle && a.pid ∉ candidates.map (·.pid) := by
    rw [haudited.stale]
    refine List.countP_congr fun a ha => ?_
    have hiff := kind_eq_staleRelease_iff h₀ as env candidates (a := a) (by rw [hcall]; exact ha)
    rw [Bool.and_assoc, ← Bool.decide_and, decide_eq_decide.2 hiff]
  have hstale_le : w.stats.staleReleases ≤ w.stats.releaseActions := by
    rw [hstale, haudited.releases]
    exact List.countP_mono_left fun a _ h => (Bool.and_eq_true_iff.1 h).1
  have herrors : w.stats.errors = out.1.moves.countP fun m => !m.ok :=
    countP_failed_moves haudited (by rw [hout]) hmoves
  have hrc : w.stats.errors = 0 ↔ w.overallRc = .ok := by
    rw [haudited.overallRc]
    split <;> simp_all
  have hthrottled := htotals.throttled
  have hdecisions := htotals.decisions
  simp only [← List.countP_eq_length_filter]
  rw [hout] at herrors
  simp only [s, hout]
  refine ⟨htotals.candidateCount, htotals.recordsSeen.trans (Nat.zero_add _),
    hdecisions.trans (Nat.zero_add _), hstale_le, hstale, herrors, hrc, ?_⟩
  have hzero : throttledCount records + w.stats.releaseActions =
      throttledCount c.records + w.stats.throttleActions := hthrottled
  rw [throttledCount, throttledCount] at hzero
  omega

/-- Of two throttled processes, one is kept, and the other, no longer listed, is released
    as stale in vain. -/
theorem statistics_balance_two :
    let c₀ := (throttleControllerInit ⟨true, true, true⟩ none).2
    let as := [ControllerCall.applyCandidates (.working 5) [candidateOf 7 1, candidateOf 8 1]]
    let env : CallEnv := ⟨⟨0, 0, 9000000000, 0, 9000000000⟩, fun _ _ _ => false⟩
    let s := (applyCandidates env (c₀.run as) [candidateOf 7 1]).1.stats
    s.keptThrottled = 1 ∧ s.errors = 1 ∧
      s.throttleActions + s.releaseActions + s.keptThrottled + s.skippedLowScore +
        s.skippedCooldown + s.errors = [candidateOf 7 1].length + ((c₀.run as).records.filter
          fun r => r.state = .throttled && r.pid ∉ [candidateOf 7 1].map (·.pid)).length := by
  intro c₀ as env s
  have hinit : throttleControllerInit ⟨true, true, true⟩ none = (.ok, c₀) :=
    Prod.ext (by decide +kernel) rfl
  have hnow : controllerNowNs (c₀.run as).cfg env.clock = some 9000000000 := by decide +kernel
  exact ⟨by decide +kernel, by decide +kernel, (statistics_balance hinit as env [candidateOf 7 1]
    (by decide +kernel) hnow).2.2.1⟩

end

end CgroupResearch
