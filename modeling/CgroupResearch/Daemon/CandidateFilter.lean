import CgroupResearch.Daemon.Handler

/-!
# The candidate filter

`candidate_filter.c` sorts the tracked processes into those to protect, those
that may be throttled (*background*) and those to leave alone. A record carries
three signs of protection: `is_protected`, `inherited_protected` and its group,
whose zero value is that of the protected group.

* `SignsAgree`: the last two signs imply the first. The handler keeps it, for
  every record, through any events (`agree_tableAfter`);
* `FilterSpec`: hence the filter sees a process protected iff `is_protected` is
  set, and background only if it is not and its control group is known and outside
  the system slice.
-/

namespace CgroupResearch

open CString Machine

/-- `CGROUP_LINE_MAX`. -/
def cgroupLineMax : ℕ := 4096

/-- `CGROUP_PATH_MAX_LOCAL`. -/
def cgroupPathMaxLocal : ℕ := 4096

/-- `enum candidate_filter_kind`. -/
inductive CandidateFilterKind
  | filterExcluded
  | filterProtected
  | filterBackground
  deriving DecidableEq, Repr

/-- `enum candidate_filter_reason`. -/
inductive CandidateFilterReason
  | none
  | invalidProcess
  | daemonSelf
  | systemSlice
  | cgroupUnavailable
  deriving DecidableEq, Repr

/-- `struct candidate_filter_result`. -/
structure CandidateFilterResult where
  kind : CandidateFilterKind
  reason : CandidateFilterReason
  deriving DecidableEq, Repr

/-- `process_record_is_valid`. -/
def processRecordIsValid (p : ProcInfo) : Bool := p.used && decide (0 < p.pid)

/-- `process_record_is_protected`. -/
def processRecordIsProtected (p : ProcInfo) : Bool :=
  p.isProtected || p.inheritedProtected || decide (p.group = .groupProtected)

/-- `read_cgroup_v2_path`: the path of the first line of `/proc/[pid]/cgroup` that
    starts with `0::`. `file` is the content of the file, `none` when it cannot be
    opened, and `closed` whether closing it succeeds. -/
def readCgroupV2Path (pid : ℤ) (file : Option (List Char)) (closed : Bool) :
    Option (List Char) :=
  if pid ≤ 0 then
    none
  else
    match file with
    | none => none
    | some content =>
      match (fgetsLines cgroupLineMax content []).find? fun line => "0::".toList.isPrefixOf line with
      | none => none
      | some line =>
        let path := (cstr (line.drop 3)).takeWhile fun c => c ≠ '\r' ∧ c ≠ '\n'
        if path.length = 0 ∨ cgroupPathMaxLocal ≤ path.length ∨ closed = false then
          none
        else
          some path

/-- `candidate_filter_path_is_system_slice`. -/
def candidateFilterPathIsSystemSlice (cgroupV2Path : List Char) : Bool :=
  let systemSlice := "/system.slice".toList
  if systemSlice.isPrefixOf cgroupV2Path then
    let next := cgroupV2Path.getD systemSlice.length '\x00'
    next = '\x00' || next = '/'
  else
    false

/-- `candidate_filter_classify_path`. The path is `none` for a `NULL` one. -/
def candidateFilterClassifyPath (p : ProcInfo) (daemonPid : ℤ)
    (cgroupV2Path : Option (List Char)) : CandidateFilterResult :=
  if processRecordIsValid p = false then
    ⟨.filterExcluded, .invalidProcess⟩
  else if 0 < daemonPid ∧ p.pid = daemonPid then
    -- The daemon is never its own target, even if a protected rule matches it.
    ⟨.filterExcluded, .daemonSelf⟩
  else if processRecordIsProtected p then
    -- Protection comes before the system slice.
    ⟨.filterProtected, .none⟩
  else
    match cgroupV2Path with
    | none => ⟨.filterExcluded, .cgroupUnavailable⟩
    | some path =>
      if path.headD '\x00' = '\x00' then
        ⟨.filterExcluded, .cgroupUnavailable⟩
      else if candidateFilterPathIsSystemSlice path then
        ⟨.filterExcluded, .systemSlice⟩
      else
        ⟨.filterBackground, .none⟩

/-- `candidate_filter_classify_pid`: the file is read only for a process that is
    neither the daemon nor protected. -/
def candidateFilterClassifyPid (p : ProcInfo) (daemonPid : ℤ) (file : Option (List Char))
    (closed : Bool) : CandidateFilterResult :=
  if processRecordIsValid p = false then
    ⟨.filterExcluded, .invalidProcess⟩
  else if 0 < daemonPid ∧ p.pid = daemonPid then
    ⟨.filterExcluded, .daemonSelf⟩
  else if processRecordIsProtected p then
    ⟨.filterProtected, .none⟩
  else
    match readCgroupV2Path p.pid file closed with
    | none => ⟨.filterExcluded, .cgroupUnavailable⟩
    | some path => candidateFilterClassifyPath p daemonPid (some path)

/-- Classifying by pid is classifying by the path that is read. -/
theorem candidateFilterClassifyPid_eq (p : ProcInfo) (daemonPid : ℤ) (file : Option (List Char))
    (closed : Bool) : candidateFilterClassifyPid p daemonPid file closed =
      candidateFilterClassifyPath p daemonPid (readCgroupV2Path p.pid file closed) := by
  rw [candidateFilterClassifyPid]
  cases hread : readCgroupV2Path p.pid file closed with
  | none => rfl
  | some path =>
    simp only [candidateFilterClassifyPath]
    split_ifs <;> rfl

/-! ## What the filter answers -/

/-- The system slice is its own path and the paths under it. -/
theorem candidateFilterPathIsSystemSlice_eq_false {path : List Char}
    (h : candidateFilterPathIsSystemSlice path = false) :
    path ≠ "/system.slice".toList ∧ ¬"/system.slice/".toList <+: path := by
  refine ⟨fun heq => ?_, fun ⟨rest, hrest⟩ => ?_⟩
  · subst heq
    exact absurd h (by decide)
  · have hpre : "/system.slice".toList.isPrefixOf path = true :=
      List.isPrefixOf_iff_prefix.2 ⟨'/' :: rest, hrest⟩
    have hnext : path.getD "/system.slice".toList.length '\x00' = '/' := by
      rw [← hrest]
      rfl
    rw [candidateFilterPathIsSystemSlice] at h
    dsimp only at h
    rw [if_pos hpre, hnext] at h
    exact absurd h (by decide)

section Classify

variable {p : ProcInfo} {daemonPid : ℤ} {path : Option (List Char)}

/-- A valid record that is not the daemon's is seen protected iff it carries a sign
    of protection. -/
theorem classify_protected_iff (hvalid : processRecordIsValid p = true) (hd : p.pid ≠ daemonPid) :
    (candidateFilterClassifyPath p daemonPid path).kind = .filterProtected ↔
      processRecordIsProtected p = true := by
  rw [candidateFilterClassifyPath.eq_def, hvalid, if_neg (by decide), if_neg fun h => hd h.2]
  by_cases hp : processRecordIsProtected p = true
  · rw [if_pos hp]
    exact iff_of_true rfl hp
  · rw [if_neg hp]
    refine iff_of_false ?_ hp
    cases path with
    | none => exact nofun
    | some path =>
      dsimp only
      split_ifs <;> exact nofun

/-- What is known of a record seen as background. -/
theorem classify_background
    (h : (candidateFilterClassifyPath p daemonPid path).kind = .filterBackground) :
    processRecordIsValid p = true ∧ ¬(0 < daemonPid ∧ p.pid = daemonPid) ∧
    processRecordIsProtected p = false ∧
    ∃ s, path = some s ∧ s ≠ [] ∧ candidateFilterPathIsSystemSlice s = false := by
  rw [candidateFilterClassifyPath.eq_def] at h
  split_ifs at h with hvalid hd hp
  cases path with
  | none => exact nomatch h
  | some s =>
    dsimp only at h
    split_ifs at h with hempty hslice
    refine ⟨by simpa using hvalid, hd, by simpa using hp, s, rfl, ?_, by simpa using hslice⟩
    rintro rfl
    exact hempty rfl

end Classify

/-! ## The signs of protection -/

/-- The signs of protection of a record agree: no sign without `is_protected`. -/
structure ProcInfo.SignsAgree (p : ProcInfo) : Prop where
  inherited : p.inheritedProtected = true → p.isProtected = true
  group : p.group = .groupProtected → p.isProtected = true

theorem ProcInfo.SignsAgree.isProtected_eq {p : ProcInfo} (h : p.SignsAgree) :
    processRecordIsProtected p = p.isProtected := by
  cases hp : p.isProtected with
  | true => simp [processRecordIsProtected, hp]
  | false =>
    have hi : p.inheritedProtected = false := by
      by_contra hi
      exact Bool.false_ne_true (hp.symm.trans (h.inherited (by simpa using hi)))
    have hg : p.group ≠ .groupProtected := fun hg => Bool.false_ne_true (hp.symm.trans (h.group hg))
    simp [processRecordIsProtected, hp, hi, hg]

/-- An exec keeps the signs of the record it updates; a fresh record has none. -/
theorem execRecord_signsAgree (e : Event) (fs : ProcFs) {old : Option ProcInfo}
    (h : ∀ p, old = some p → p.SignsAgree) : (execRecord e fs old).SignsAgree := by
  cases old with
  | none =>
    obtain ⟨x, y, heq⟩ := execInfo_eq e fs false .zero
    rw [execRecord, heq]
    exact ⟨fun h => absurd h Bool.false_ne_true,
      fun h => absurd h (show ProcGroup.groupUnknown ≠ .groupProtected by decide)⟩
  | some p =>
    obtain ⟨x, y, heq⟩ := execInfo_eq e fs true p
    rw [execRecord, heq]
    exact ⟨(h p rfl).inherited, (h p rfl).group⟩

/-- The group is decided after `is_protected` is set, from it or from the name that
    sets it. -/
theorem decideGroup_signsAgree (d : DaemonConfig) {p : ProcInfo} (h : p.SignsAgree) :
    (decideGroup d p).SignsAgree := by
  refine ⟨fun hi => decideGroup_isProtected d (h.inherited ?_), ?_⟩
  · rw [decideGroup] at hi
    dsimp only at hi
    split_ifs at hi <;> exact hi
  · rw [decideGroup]
    dsimp only
    by_cases hpol : policyIsProtected d.protectedComm { p with execSeen := true } = true
    · rw [if_pos hpol]
      exact fun _ => rfl
    · rw [if_neg hpol, policyDecideGroup, Bool.eq_false_of_not_eq_true hpol, Bool.or_false]
      split_ifs with hign hp
      · exact nofun
      · exact fun _ => hp
      · exact nofun

/-- The record of an exec has one sign of protection or both. -/
theorem handledExec_signsAgree (d : DaemonConfig) (e : Event) (fs : ProcFs) {old : Option ProcInfo}
    (h : ∀ p, old = some p → p.SignsAgree) : (handledExec d e fs old).SignsAgree := by
  have hexec := execRecord_signsAgree e fs h
  rw [handledExec]
  split_ifs
  · exact hexec
  · exact decideGroup_signsAgree d hexec

theorem forkRecord_signsAgree (e : Event) (b : Bool) : (forkRecord e b).SignsAgree := by
  cases b with
  | false => exact ⟨nofun, nofun⟩
  | true => exact ⟨fun _ => rfl, fun _ => rfl⟩

/-- The signs agree in every record of the table. -/
def ProcessTable.SignsAgree (t : ProcessTable) : Prop :=
  ∀ q p, t.record q = some p → p.SignsAgree

/-- An event keeps the agreement of the signs. -/
theorem ProcessTable.Inv.handleEvent_signsAgree {t : ProcessTable} (h : t.Inv)
    (hagree : t.SignsAgree) (d : DaemonConfig) (x : Delivery) :
    (handleEvent d t x).2.SignsAgree := by
  intro q p hq
  rcases (h.handleEvent_cases d x).2 with ⟨_, _, _, hrec⟩ | ⟨_, _, _, _, hrec⟩ | ⟨_, hrec⟩ |
    ⟨_, _, heq⟩ | ⟨_, _, heq⟩
  · rw [hrec] at hq
    split_ifs at hq
    · obtain rfl := Option.some.inj hq
      exact handledExec_signsAgree d x.event x.fs (hagree x.event.pid)
    · exact hagree q p hq
  · rw [hrec] at hq
    split_ifs at hq
    · obtain rfl := Option.some.inj hq
      exact forkRecord_signsAgree _ _
    · exact hagree q p hq
  · rw [hrec] at hq
    split_ifs at hq
    exact hagree q p hq
  · exact hagree q p (heq ▸ hq)
  · exact hagree q p (heq ▸ hq)

/-- The signs agree in every record, after any events. -/
theorem agree_tableAfter (d : DaemonConfig) (xs : List Delivery) : (tableAfter d xs).SignsAgree := by
  induction xs with
  | nil =>
    intro q p hq
    exact nomatch (represents_reset.record_eq q).symm.trans hq
  | cons x xs ih => exact (inv_tableAfter d xs).handleEvent_signsAgree ih d x

/-- What the filter answers on the records of the table. -/
structure FilterSpec (t : ProcessTable) : Prop where
  /-- An inherited protection is a protection. -/
  inherited : ∀ i, t.slotStates i = .occupied → (t.procTable i).inheritedProtected = true →
    (t.procTable i).isProtected = true
  /-- The protected group is that of protected processes. -/
  group : ∀ i, t.slotStates i = .occupied → (t.procTable i).group = .groupProtected →
    (t.procTable i).isProtected = true
  /-- A process other than the daemon is seen protected iff it is. -/
  protected_iff : ∀ i, t.slotStates i = .occupied → ∀ daemonPid path,
    (t.procTable i).pid ≠ daemonPid →
    ((candidateFilterClassifyPath (t.procTable i) daemonPid path).kind = .filterProtected ↔
      (t.procTable i).isProtected = true)
  /-- A process seen as background may be throttled. -/
  background : ∀ i, t.slotStates i = .occupied → ∀ daemonPid path,
    (candidateFilterClassifyPath (t.procTable i) daemonPid path).kind = .filterBackground →
    (t.procTable i).isProtected = false ∧ (t.procTable i).inheritedProtected = false ∧
    (t.procTable i).group ≠ .groupProtected ∧ (t.procTable i).pid ≠ daemonPid ∧
    ∃ s, path = some s ∧ s ≠ [] ∧ s ≠ "/system.slice".toList ∧ ¬"/system.slice/".toList <+: s

/-- In a table whose signs agree the filter does what it is for. -/
theorem ProcessTable.Inv.filterSpec {t : ProcessTable} (h : t.Inv) (hagree : t.SignsAgree) :
    FilterSpec t := by
  have hsigns : ∀ i, t.slotStates i = .occupied → (t.procTable i).SignsAgree := fun i hi =>
    hagree _ _ (h.record_of_live (view_eq_live_iff.2 ⟨hi, rfl⟩))
  have hvalid : ∀ i, t.slotStates i = .occupied → processRecordIsValid (t.procTable i) = true := by
    intro i hi
    rw [processRecordIsValid, h.used i hi]
    simpa using h.pos i hi
  refine ⟨fun i hi => (hsigns i hi).inherited, fun i hi => (hsigns i hi).group,
    fun i hi daemonPid path hd => ?_, fun i hi daemonPid path hb => ?_⟩
  · rw [classify_protected_iff (hvalid i hi) hd, (hsigns i hi).isProtected_eq]
  · obtain ⟨_, hd, hp, s, hs, hne, hslice⟩ := classify_background hb
    obtain ⟨hself, hunder⟩ := candidateFilterPathIsSystemSlice_eq_false hslice
    rw [processRecordIsProtected, Bool.or_eq_false_iff, Bool.or_eq_false_iff] at hp
    have hpos := h.pos i hi
    exact ⟨hp.1.1, hp.1.2, of_decide_eq_false hp.2, fun heq => hd ⟨heq ▸ hpos, heq⟩,
      s, hs, hne, hself, hunder⟩

/-- After any events, the filter sees a process protected iff it is, and background
    only if it may be throttled. -/
theorem candidate_filter_sound (d : DaemonConfig) (xs : List Delivery) :
    FilterSpec (tableAfter d xs) :=
  (inv_tableAfter d xs).filterSpec (agree_tableAfter d xs)

end CgroupResearch
