import CgroupResearch.Throttle.Lifecycle

/-!
# The calls of the controller, process by process

A call walks over the candidates and the records. Seen from one process, it is a
single step of the process (`call_pid`): the other turns of the loops leave its
record alone.
-/

namespace CgroupResearch

/-! ## Records by pid -/

section

variable {records : List ThrottleRecord} {r : ThrottleRecord} {p : ℤ}

theorem findRecord_eq_none_iff : findRecord records p = none ↔ p ∉ records.map (·.pid) := by
  simp [findRecord]

theorem pid_of_findRecord (h : findRecord records p = some r) : r.pid = p := by
  simpa using List.find?_some h

theorem mem_of_findRecord (h : findRecord records p = some r) : r ∈ records :=
  List.mem_of_find?_eq_some h

theorem findRecord_cons (r : ThrottleRecord) (records : List ThrottleRecord) (p : ℤ) :
    findRecord (r :: records) p = if r.pid = p then some r else findRecord records p := by
  simp only [findRecord, List.find?_cons]
  split <;> simp_all

theorem findRecord_append_of_none {rs : List ThrottleRecord} (h : findRecord records p = none) :
    findRecord (records ++ rs) p = findRecord rs p := by
  rw [findRecord, List.find?_append, ← findRecord, h, Option.none_or, findRecord]

theorem findRecord_append_of_some {rs : List ThrottleRecord} (h : findRecord records p = some r) :
    findRecord (records ++ rs) p = some r := by
  rw [findRecord, List.find?_append, ← findRecord, h, Option.some_or]

/-- In a list without repeated pids, every record is found by its pid. -/
theorem findRecord_of_mem (hnd : (records.map (·.pid)).Nodup) (hr : r ∈ records) :
    findRecord records r.pid = some r := by
  induction records with
  | nil => simp at hr
  | cons r₁ rs ih =>
    rw [List.map_cons, List.nodup_cons] at hnd
    rw [findRecord_cons]
    rcases List.mem_cons.1 hr with rfl | hr
    · rw [if_pos rfl]
    · have hne : r₁.pid ≠ r.pid := fun h => hnd.1 (h ▸ List.mem_map_of_mem hr)
      rw [if_neg hne, ih hnd.2 hr]

/-- In such lists, the records with a property are counted by their pids. -/
theorem countP_eq_of_findRecord {records' : List ThrottleRecord}
    (hnd : (records.map (·.pid)).Nodup) (hnd' : (records'.map (·.pid)).Nodup)
    {P P' : ThrottleRecord → Bool}
    (h : ∀ p, (findRecord records p).any P = (findRecord records' p).any P') :
    records.countP P = records'.countP P' := by
  have hmem : ∀ {l : List ThrottleRecord}, (l.map (·.pid)).Nodup → ∀ (Q : ThrottleRecord → Bool) p,
      p ∈ (l.filter Q).map (·.pid) ↔ (findRecord l p).any Q = true := by
    intro l hl Q p
    rw [List.mem_map, Option.any_eq_true]
    constructor
    · rintro ⟨r, hr, rfl⟩
      obtain ⟨hr, hq⟩ := List.mem_filter.1 hr
      exact ⟨r, findRecord_of_mem hl hr, hq⟩
    · rintro ⟨r, hr, hq⟩
      exact ⟨r, List.mem_filter.2 ⟨mem_of_findRecord hr, hq⟩, pid_of_findRecord hr⟩
  have hperm : ((records.filter P).map (·.pid)).Perm ((records'.filter P').map (·.pid)) := by
    rw [List.perm_ext_iff_of_nodup (hnd.sublist (List.filter_sublist.map _))
      (hnd'.sublist (List.filter_sublist.map _))]
    intro p
    rw [hmem hnd, hmem hnd', h]
  have hlength := hperm.length_eq
  rwa [List.length_map, List.length_map, ← List.countP_eq_length_filter,
    ← List.countP_eq_length_filter] at hlength

end

/-! ## Effects by pid -/

/-- The actions on a process. -/
def Effects.on (w : Effects) (p : ℤ) : List Action := w.actions.filter fun a => a.pid = p

/-- What holds of the effects throughout a call: the moves are those of the
    actions, or none in a dry run, and room was not missing. -/
structure Effects.Sound (cfg : ThrottleConfig) (w : Effects) : Prop where
  moves : w.moves = if cfg.dryRun then [] else w.actions.map cfg.move
  overallRc : w.overallRc ≠ .errNoSpace

section

variable {cfg : ThrottleConfig} {pid p : ℤ} {a : Option Attempt} {w w' : Effects}

theorem Adds.on_self (h : Adds cfg pid a w w') :
    w'.on pid = a.toList.map (Attempt.action pid) ++ w.on pid := by
  rw [Effects.on, h.actions, List.filter_append, ← Effects.on]
  cases a <;> simp [Attempt.action]

theorem Adds.on_ne (h : Adds cfg pid a w w') (hne : p ≠ pid) : w'.on p = w.on p := by
  rw [Effects.on, h.actions, List.filter_append, ← Effects.on]
  cases a <;> simp [Attempt.action, hne.symm]

/-- The actions on a process, as its record is taken through its first step. -/
theorem Performs.on_of {r : ThrottleRecord} {out : ThrottleRecord × Effects}
    {step : Option Attempt × Standing} (h : Performs cfg r w out step) (hpid : r.pid = p)
    (hw : w.on p = []) : out.2.on p = step.1.toList.map (Attempt.action p) := by
  have hself := h.adds.on_self
  rwa [hpid, hw, List.append_nil] at hself

theorem Adds.sound (h : Adds cfg pid a w w') (hw : w.Sound cfg) : w'.Sound cfg := by
  refine ⟨?_, h.overallRc hw.overallRc⟩
  rw [h.moves, h.actions, hw.moves]
  split <;> simp

end

/-! ## The loops -/

section

variable {cfg : ThrottleConfig} {f : ThrottleRecord → Effects → ThrottleRecord × Effects}

/-- A function on records that acts on the process of its record only. -/
def ActsOnOwn (cfg : ThrottleConfig) (f : ThrottleRecord → Effects → ThrottleRecord × Effects) :
    Prop :=
  ∀ r w, ∃ step, Performs cfg r w (f r w) step

/-- A turn on the record of `pid`, in place. -/
theorem onRecord_eq_some (pid : ℤ) {records : List ThrottleRecord} {r : ThrottleRecord}
    (w : Effects) (hr : findRecord records pid = some r) (hf : (f r w).1.pid = r.pid) :
    ∃ records', onRecord pid f records w = some (records', (f r w).2) ∧
      records'.map (·.pid) = records.map (·.pid) ∧
      findRecord records' pid = some (f r w).1 ∧
      ∀ p, p ≠ pid → findRecord records' p = findRecord records p := by
  induction records with
  | nil => cases hr
  | cons r₁ rs ih =>
    rw [findRecord_cons] at hr
    rw [onRecord]
    split at hr
    case isTrue h₁ =>
      cases hr
      refine ⟨_, by rw [if_pos h₁], by simp [hf], ?_, fun p hp => ?_⟩
      · rw [findRecord_cons, hf, if_pos h₁]
      · rw [findRecord_cons, findRecord_cons, hf, h₁, if_neg hp.symm, if_neg hp.symm]
    case isFalse h₁ =>
      obtain ⟨rs', h, hpids, hself, hother⟩ := ih hr
      refine ⟨r₁ :: rs', by rw [if_neg h₁, h]; rfl, by simp [hpids], ?_, fun p hp => ?_⟩
      · rw [findRecord_cons, if_neg h₁, hself]
      · rw [findRecord_cons, findRecord_cons, hother p hp]

theorem onRecord_eq_none (pid : ℤ) {records : List ThrottleRecord} (w : Effects)
    (hr : findRecord records pid = none) : onRecord pid f records w = none := by
  induction records with
  | nil => rfl
  | cons r₁ rs ih =>
    rw [findRecord_cons] at hr
    split at hr
    case isTrue => cases hr
    case isFalse h₁ => rw [onRecord, if_neg h₁, ih hr, Option.map_none]

/-- A loop over the records keeps the effects sound. -/
theorem forRecords_sound (hf : ActsOnOwn cfg f) (records : List ThrottleRecord) {w : Effects}
    (hw : w.Sound cfg) : (forRecords f records w).2.Sound cfg := by
  induction records generalizing w with
  | nil => exact hw
  | cons r rs ih =>
    obtain ⟨step, h⟩ := hf r w
    exact ih (h.adds.sound hw)

theorem forRecords_pids (hf : ActsOnOwn cfg f) (records : List ThrottleRecord) (w : Effects) :
    (forRecords f records w).1.map (·.pid) = records.map (·.pid) := by
  induction records generalizing w with
  | nil => rfl
  | cons r rs ih =>
    obtain ⟨step, h⟩ := hf r w
    rw [forRecords, List.map_cons, List.map_cons, ih, h.pid]

/-- A process without a record is left alone by a loop over the records. -/
theorem forRecords_of_none (hf : ActsOnOwn cfg f) {records : List ThrottleRecord} (w : Effects)
    {p : ℤ} (hp : findRecord records p = none) :
    findRecord (forRecords f records w).1 p = none ∧ (forRecords f records w).2.on p = w.on p := by
  refine ⟨?_, ?_⟩
  · rw [findRecord_eq_none_iff, forRecords_pids hf]
    exact findRecord_eq_none_iff.1 hp
  · induction records generalizing w with
    | nil => rfl
    | cons r rs ih =>
      obtain ⟨step, h⟩ := hf r w
      rw [findRecord_cons] at hp
      split at hp
      case isTrue => cases hp
      case isFalse hne => exact (ih _ hp).trans (h.adds.on_ne (Ne.symm hne))

/-- A loop over the records meets a process once, at its record. -/
theorem forRecords_of_some (hf : ActsOnOwn cfg f) {records : List ThrottleRecord} (w : Effects)
    (hnd : (records.map (·.pid)).Nodup) {p : ℤ} {r : ThrottleRecord}
    (hp : findRecord records p = some r) :
    ∃ w₁, w₁.on p = w.on p ∧ findRecord (forRecords f records w).1 p = some (f r w₁).1 ∧
      (forRecords f records w).2.on p = (f r w₁).2.on p := by
  induction records generalizing w with
  | nil => cases hp
  | cons r₁ rs ih =>
    obtain ⟨step, h⟩ := hf r₁ w
    rw [List.map_cons, List.nodup_cons] at hnd
    rw [findRecord_cons] at hp
    rw [forRecords]
    split at hp
    case isTrue h₁ =>
      -- the rest of the loop does not meet the process again
      cases hp
      have hnone : findRecord rs p = none := findRecord_eq_none_iff.2 (h₁ ▸ hnd.1)
      refine ⟨w, rfl, ?_, (forRecords_of_none hf _ hnone).2⟩
      rw [findRecord_cons, h.pid, if_pos h₁]
    case isFalse h₁ =>
      obtain ⟨w₁, hw₁, hr, hon⟩ := ih (f r₁ w).2 hnd.2 hp
      refine ⟨w₁, hw₁.trans (h.adds.on_ne (Ne.symm h₁)), ?_, hon⟩
      rw [findRecord_cons, h.pid, if_neg h₁, hr]

end

/-! ## The candidates -/

/-- The candidates of a list whose processes have no record yet. -/
def unrecorded (records : List ThrottleRecord) (candidates : List InterferenceCandidate) :
    List InterferenceCandidate :=
  candidates.filter fun c => (findRecord records c.pid).isNone

/-- A list of candidates the validation accepts: valid, of distinct processes. -/
structure ValidList (candidates : List InterferenceCandidate) : Prop where
  valid : ∀ c ∈ candidates, candidateValid c = true
  distinct : (candidates.map (·.pid)).Nodup

theorem validList_cons (c : InterferenceCandidate) (cs : List InterferenceCandidate) :
    ValidList (c :: cs) ↔
      candidateValid c = true ∧ c.pid ∉ cs.map (·.pid) ∧ ValidList cs := by
  constructor
  · rintro ⟨hv, hd⟩
    rw [List.map_cons, List.nodup_cons] at hd
    exact ⟨hv c List.mem_cons_self, hd.1, fun c' hc' => hv c' (List.mem_cons_of_mem c hc'), hd.2⟩
  · rintro ⟨hv, hc, hcs⟩
    refine ⟨?_, by rw [List.map_cons, List.nodup_cons]; exact ⟨hc, hcs.distinct⟩⟩
    exact List.forall_mem_cons.2 ⟨hv, hcs.valid⟩

theorem length_unrecorded_cons (records : List ThrottleRecord) (c : InterferenceCandidate)
    (cs : List InterferenceCandidate) :
    (unrecorded records (c :: cs)).length =
      (if (findRecord records c.pid).isNone then 1 else 0) + (unrecorded records cs).length := by
  rw [unrecorded, List.filter_cons]
  split
  · rw [List.length_cons, unrecorded, Nat.add_comm]
  · rw [unrecorded, Nat.zero_add]

/-- The loop passes a list just if it is valid, and counts those that are new. -/
theorem prevalidateLoop_eq_some_iff (records : List ThrottleRecord)
    (earlier candidates : List InterferenceCandidate) (n m : ℕ) :
    prevalidateLoop records earlier candidates n = some m ↔
      ValidList candidates ∧ (∀ c ∈ candidates, c.pid ∉ earlier.map (·.pid)) ∧
        m = n + (unrecorded records candidates).length := by
  induction candidates generalizing earlier n with
  | nil =>
    simp only [prevalidateLoop, Option.some.injEq, unrecorded, List.filter_nil, List.length_nil,
      Nat.add_zero]
    exact ⟨fun h => ⟨⟨List.forall_mem_nil _, .nil⟩, List.forall_mem_nil _, h.symm⟩,
      fun h => h.2.2.symm⟩
  | cons c cs ih =>
    rw [prevalidateLoop]
    split
    case isTrue hc =>
      -- an invalid candidate
      refine ⟨nofun, fun h => absurd (h.1.valid c List.mem_cons_self) (by simpa using hc)⟩
    case isFalse hc =>
      split
      case isTrue hdup =>
        simp only [List.any_eq_true, decide_eq_true_eq] at hdup
        obtain ⟨c', hc', hpid⟩ := hdup
        exact ⟨nofun, fun h => absurd (hpid ▸ List.mem_map_of_mem hc')
          (h.2.1 c List.mem_cons_self)⟩
      case isFalse hdup =>
        have hc : candidateValid c = true := by simpa using hc
        have hearlier : c.pid ∉ earlier.map (·.pid) := by
          simpa [eq_comm (a := c.pid)] using hdup
        rw [ih, validList_cons, length_unrecorded_cons]
        simp only [hc, true_and, List.map_append, List.map_cons, List.map_nil, List.mem_append,
          List.mem_singleton, List.forall_mem_cons, hearlier, not_false_eq_true, not_or]
        have hm : m = (if (findRecord records c.pid).isNone then n + 1 else n) +
            (unrecorded records cs).length ↔
            m = n + ((if (findRecord records c.pid).isNone then 1 else 0) +
              (unrecorded records cs).length) := by
          split <;> omega
        -- a later candidate of the same process is found among the earlier ones
        have hpids : c.pid ∉ cs.map (·.pid) ↔ ∀ c' ∈ cs, c'.pid ≠ c.pid := by
          simp
        rw [hm, hpids]
        exact ⟨fun h => ⟨⟨fun c' hc' => (h.2.1 c' hc').2, h.1⟩, fun c' hc' => (h.2.1 c' hc').1,
          h.2.2⟩, fun h => ⟨h.1.2, fun c' hc' => ⟨h.2.1 c' hc', h.1.1 c' hc'⟩, h.2.2⟩⟩

/-- What is left of a controller's room for records. -/
theorem room_eq {cap : UInt64} {n : ℕ} (h : n ≤ cap.toNat) :
    (cap - UInt64.ofNat n).toNat = cap.toNat - n := by
  have hn : n < 2 ^ 64 := h.trans_lt cap.toNat_lt
  have hofNat : (UInt64.ofNat n).toNat = n := UInt64.toNat_ofNat_of_lt' hn
  rw [UInt64.toNat_sub_of_le _ _ (by rw [UInt64.le_iff_toNat_le, hofNat]; exact h), hofNat]

/-- A candidate takes the record of its process, from `o` to `o'`, through a step,
    adding to the actions on it. -/
def ListedAt (cfg : ThrottleConfig) (nowNs : UInt64) (candidate : InterferenceCandidate)
    (o o' : Option ThrottleRecord) (l l' : List Action) : Prop :=
  ∃ ok r', o' = some r' ∧ r'.seenInLastApply = true ∧
    (listedStep cfg nowNs candidate ok ((o.map (·.standing)).getD (.new nowNs))).2 = r'.standing ∧
    l' = (listedStep cfg nowNs candidate ok ((o.map (·.standing)).getD (.new nowNs))).1.toList.map
      (Attempt.action candidate.pid) ++ l

section

variable (c : ThrottleController) (env : CallEnv) (nowNs : UInt64)

/-- The record the turn of a candidate works on: that of its process, or a new one. -/
def turnRecord (records : List ThrottleRecord) (candidate : InterferenceCandidate) :
    ThrottleRecord :=
  (findRecord records candidate.pid).getD (newRecord candidate.pid nowNs)

theorem turnRecord_pid (records : List ThrottleRecord) (candidate : InterferenceCandidate) :
    (turnRecord nowNs records candidate).pid = candidate.pid := by
  rw [turnRecord]
  cases hr : findRecord records candidate.pid with
  | none => rfl
  | some r => exact pid_of_findRecord hr

/-- A turn of the loop over the candidates, if there is a record or room for it: it runs
    on the record of the candidate's process, and leaves the others alone. -/
theorem candidateTurn_eq (candidate : InterferenceCandidate) (records : List ThrottleRecord)
    (w : Effects)
    (hroom : findRecord records candidate.pid = none → records.length < c.recordCap.toNat) :
    ∃ records', candidateTurn c env nowNs candidate records w =
        some (records', (applyCandidate c.cfg env nowNs candidate
          (turnRecord nowNs records candidate) w).2) ∧
      records'.map (·.pid) = records.map (·.pid) ++
        (if (findRecord records candidate.pid).isNone then [candidate.pid] else []) ∧
      findRecord records' candidate.pid = some (applyCandidate c.cfg env nowNs candidate
        (turnRecord nowNs records candidate) w).1 ∧
      ∀ p, p ≠ candidate.pid → findRecord records' p = findRecord records p := by
  have hperf : (applyCandidate c.cfg env nowNs candidate (turnRecord nowNs records candidate)
      w).1.pid = (turnRecord nowNs records candidate).pid := by
    obtain ⟨ok, h⟩ := applyCandidate_performs c.cfg env nowNs
      (turnRecord nowNs records candidate) w candidate
    exact h.pid
  have hpid := hperf.trans (turnRecord_pid nowNs records candidate)
  rw [candidateTurn]
  cases hr : findRecord records candidate.pid with
  | some r =>
    have hturn : turnRecord nowNs records candidate = r := by rw [turnRecord, hr, Option.getD_some]
    rw [hturn] at hperf ⊢
    obtain ⟨records', heq, hpids, hself, hother⟩ := onRecord_eq_some candidate.pid w hr hperf
    rw [heq]
    exact ⟨records', rfl, by simp [hpids], hself, hother⟩
  | none =>
    -- A new record is appended, for which `hroom` keeps a place.
    have hturn : turnRecord nowNs records candidate = newRecord candidate.pid nowNs := by
      rw [turnRecord, hr, Option.getD_none]
    have hlt : ¬c.recordCap ≤ UInt64.ofNat records.length := by
      rw [UInt64.le_iff_toNat_le,
        UInt64.toNat_ofNat_of_lt' ((hroom hr).trans c.recordCap.toNat_lt)]
      exact Nat.not_le.2 (hroom hr)
    rw [onRecord_eq_none candidate.pid w hr]
    rw [hturn] at hpid ⊢
    simp only [if_neg hlt]
    refine ⟨_, rfl, ?_, ?_, fun p hp => ?_⟩
    · rw [List.map_append, List.map_singleton, hpid, Option.isNone_none, if_pos rfl]
    · rw [findRecord_append_of_none hr, findRecord_cons, hpid, if_pos rfl]
    · cases hp' : findRecord records p with
      | none =>
        rw [findRecord_append_of_none hp', findRecord_cons, hpid, if_neg (Ne.symm hp)]
        rfl
      | some r => rw [findRecord_append_of_some hp']

/-- What the turn of a candidate does, from the record `o` of its process: to the record
    and to the actions on the process. -/
def TurnAt (c : ThrottleController) (env : CallEnv) (nowNs : UInt64)
    (candidate : InterferenceCandidate) (o o' : Option ThrottleRecord) (l l' : List Action) :
    Prop :=
  ∃ w, w.on candidate.pid = l ∧
    o' = some (applyCandidate c.cfg env nowNs candidate
      (o.getD (newRecord candidate.pid nowNs)) w).1 ∧
    l' = (applyCandidate c.cfg env nowNs candidate
      (o.getD (newRecord candidate.pid nowNs)) w).2.on candidate.pid

/-- The loop over the candidates, if there is room for the records it creates: each
    candidate has its turn on the record of its process, and the others are left alone. -/
theorem candidatesLoop_at {candidates : List InterferenceCandidate}
    (hd : (candidates.map (·.pid)).Nodup) (records : List ThrottleRecord) (w : Effects)
    (hlen : records.length + (unrecorded records candidates).length ≤ c.recordCap.toNat) :
    ∃ records' w', candidatesLoop c env nowNs candidates records w = (true, records', w') ∧
      records'.map (·.pid) = records.map (·.pid) ++
        (unrecorded records candidates).map (·.pid) ∧
      (w.Sound c.cfg → w'.Sound c.cfg) ∧
      ∀ p, match candidates.find? (fun cand => cand.pid = p) with
        | none => findRecord records' p = findRecord records p ∧ w'.on p = w.on p
        | some cand => TurnAt c env nowNs cand (findRecord records p) (findRecord records' p)
            (w.on p) (w'.on p) := by
  induction candidates generalizing records w with
  | nil => exact ⟨records, w, rfl, by simp [unrecorded], id, fun p => ⟨rfl, rfl⟩⟩
  | cons cand cands ih =>
    rw [List.map_cons, List.nodup_cons] at hd
    rw [length_unrecorded_cons] at hlen
    obtain ⟨records₁, heq, hpids, hself, hother⟩ := candidateTurn_eq c env nowNs cand records w
      (fun hr => by rw [hr, Option.isNone_none, if_pos rfl] at hlen; omega)
    obtain ⟨ok, hperf⟩ := applyCandidate_performs c.cfg env nowNs
      (turnRecord nowNs records cand) w cand
    have hpid := turnRecord_pid nowNs records cand
    -- the other candidates find their records as they were
    have hkeep : ∀ c' ∈ cands, findRecord records₁ c'.pid = findRecord records c'.pid :=
      fun c' hc' => hother _ fun h => hd.1 (h ▸ List.mem_map_of_mem hc')
    have hunrec : unrecorded records₁ cands = unrecorded records cands :=
      List.filter_congr fun c' hc' => by rw [hkeep c' hc']
    have hlen₁ : records₁.length = records.length +
        (if (findRecord records cand.pid).isNone then 1 else 0) := by
      have := congrArg List.length hpids
      simp only [List.length_map, List.length_append] at this
      rw [this]
      split <;> simp
    obtain ⟨records', w', heq', hpids', hsound', hspec⟩ :=
      ih hd.2 records₁ _ (by rw [hunrec]; omega)
    refine ⟨records', w', by rw [candidatesLoop, heq]; exact heq', ?_,
      hsound' ∘ hperf.adds.sound, fun p => ?_⟩
    · rw [hpids', hpids, hunrec, unrecorded, unrecorded, List.filter_cons, List.append_assoc]
      split <;> simp
    · have hp := hspec p
      rcases eq_or_ne p cand.pid with rfl | hne
      · -- the process of this candidate: no other candidate names it
        have hnone : cands.find? (fun c' => c'.pid = cand.pid) = none := by
          rw [List.find?_eq_none]
          exact fun c' hc' h => hd.1 (of_decide_eq_true h ▸ List.mem_map_of_mem hc')
        rw [hnone] at hp
        rw [List.find?_cons_of_pos (by simp), hp.1, hp.2]
        exact ⟨w, rfl, hself, rfl⟩
      · have hon : (applyCandidate c.cfg env nowNs cand (turnRecord nowNs records cand) w).2.on p =
            w.on p := hperf.adds.on_ne (by rwa [← hpid] at hne)
        rw [List.find?_cons_of_neg (by simpa using hne.symm), ← hother p hne, ← hon]
        exact hp

/-- The turn of a candidate takes its process through a step. -/
theorem TurnAt.listedAt {candidate : InterferenceCandidate} {o o' : Option ThrottleRecord}
    {l l' : List Action} (ho : ∀ r ∈ o, r.pid = candidate.pid)
    (h : TurnAt c env nowNs candidate o o' l l') :
    ListedAt c.cfg nowNs candidate o o' l l' := by
  obtain ⟨w, rfl, rfl, rfl⟩ := h
  obtain ⟨ok, hperf⟩ := applyCandidate_performs c.cfg env nowNs
    (o.getD (newRecord candidate.pid nowNs)) w candidate
  have hpid : (o.getD (newRecord candidate.pid nowNs)).pid = candidate.pid := by
    cases o with
    | none => rfl
    | some r => exact ho r rfl
  have hstanding : (o.map (·.standing)).getD (.new nowNs) =
      (o.getD (newRecord candidate.pid nowNs)).standing := by
    cases o <;> rfl
  refine ⟨ok, _, rfl, hperf.seen, ?_, ?_⟩
  · rw [hstanding]
    exact hperf.standing.symm
  · have hself := hperf.adds.on_self
    rw [hstanding]
    rwa [hpid] at hself

/-- The loop over the candidates, process by process. -/
theorem candidatesLoop_spec {candidates : List InterferenceCandidate}
    (hd : (candidates.map (·.pid)).Nodup) (records : List ThrottleRecord) (w : Effects)
    (hlen : records.length + (unrecorded records candidates).length ≤ c.recordCap.toNat) :
    ∃ records' w', candidatesLoop c env nowNs candidates records w = (true, records', w') ∧
      records'.map (·.pid) = records.map (·.pid) ++
        (unrecorded records candidates).map (·.pid) ∧
      (w.Sound c.cfg → w'.Sound c.cfg) ∧
      ∀ p, match candidates.find? (fun cand => cand.pid = p) with
        | none => findRecord records' p = findRecord records p ∧ w'.on p = w.on p
        | some cand => ListedAt c.cfg nowNs cand (findRecord records p) (findRecord records' p)
            (w.on p) (w'.on p) := by
  obtain ⟨records', w', hloop, hpids, hsound, hat⟩ := candidatesLoop_at c env nowNs hd records w hlen
  refine ⟨records', w', hloop, hpids, hsound, fun p => ?_⟩
  have hp := hat p
  cases hfind : candidates.find? (fun cand => cand.pid = p) with
  | none =>
    rw [hfind] at hp
    exact hp
  | some cand =>
    rw [hfind] at hp
    have hpid : cand.pid = p := by simpa using List.find?_some hfind
    exact TurnAt.listedAt c env nowNs (fun r hr => (pid_of_findRecord hr).trans hpid.symm) hp

end

end CgroupResearch
