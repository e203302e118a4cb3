import CgroupResearch.Policy
import CgroupResearch.Process.Refinement

/-!
# The event handler

`handle_event` of the daemon: it records the exec, fork and exit events the
kernel reports in the process table, and moves protected processes to their
group. `Inv.handleEvent_cases` tells all that an event can do to the records.

Protection (`is_protected`) is meant to be inherited through forks and kept
through execs, until the process exits or its pid is given to a child of another
process. It is (`protection_law_iff`), except by a fork whose child is the parent:
the record of the parent is overwritten before it is read, and the protection is
lost. The kernel reports such a fork whenever a thread is created, as the events
name thread groups.
-/

namespace CgroupResearch

open Machine

/-- What the daemon runs with: its own pid and the protected names, those that
    `policyLoadConfig` gives. -/
structure DaemonConfig where
  daemonPid : ℤ
  protectedComm : List (List Char)

/-- An event, with what the handler meets in the system: the content of `/proc`,
    and whether a write to `cgroup.procs` succeeds. -/
structure Delivery where
  event : Event
  fs : ProcFs
  written : Bool

/-- The record after the writes of `handle_event` on an exec. -/
def decideGroup (d : DaemonConfig) (p : ProcInfo) : ProcInfo :=
  let p := { p with execSeen := true }
  let p := if policyIsProtected d.protectedComm p then { p with isProtected := true } else p
  { p with group := policyDecideGroup d.protectedComm p }

/-- `handle_event`, with the moves it attempts. -/
def handleEvent (d : DaemonConfig) (t : ProcessTable) (x : Delivery) :
    List CgroupMove × ProcessTable :=
  let e := x.event
  match e.type with
  | .exec =>
    match processUpsertExec e x.fs t with
    | (none, t) => ([], t)
    | (some i, t) =>
      let p := t.procTable i
      if p.pid = d.daemonPid ∨ p.ppid = d.daemonPid then
        ([], t)
      else
        let p := decideGroup d p
        (if p.group = .groupProtected then [cgroupMovePid x.written p.pid .groupProtected] else [],
          t.setProc i p)
  | .fork =>
    let (child, t) := processUpsertFork e t
    let parent := processGet t e.pid
    match child with
    | none => ([], t)
    | some i =>
      if pointsToProtected t parent then
        ([cgroupMovePid x.written (t.procTable i).pid .groupProtected], inheritProtection t i)
      else
        ([], t)
  | .exit => ([], processRemove t e.pid)

/-! ## What an event does to the records -/

/-- The record of a pid after an exec event, given the one before. -/
def handledExec (d : DaemonConfig) (e : Event) (fs : ProcFs) (old : Option ProcInfo) : ProcInfo :=
  let p := execRecord e fs old
  if p.pid = d.daemonPid ∨ p.ppid = d.daemonPid then p else decideGroup d p

theorem decideGroup_used (d : DaemonConfig) (p : ProcInfo) : (decideGroup d p).used = p.used := by
  unfold decideGroup
  dsimp only
  split_ifs <;> rfl

theorem decideGroup_pid (d : DaemonConfig) (p : ProcInfo) : (decideGroup d p).pid = p.pid := by
  unfold decideGroup
  dsimp only
  split_ifs <;> rfl

/-- A process that is protected stays so when its group is decided. -/
theorem decideGroup_isProtected (d : DaemonConfig) {p : ProcInfo} (hp : p.isProtected = true) :
    (decideGroup d p).isProtected = true := by
  unfold decideGroup
  dsimp only
  split_ifs
  · rfl
  · exact hp

/-- A process that is protected stays so in an exec. -/
theorem handledExec_isProtected (d : DaemonConfig) (e : Event) (fs : ProcFs) {p : ProcInfo}
    (hp : p.isProtected = true) : (handledExec d e fs (some p)).isProtected = true := by
  have hexec : (execRecord e fs (some p)).isProtected = true := by simpa [execRecord] using hp
  unfold handledExec
  dsimp only
  split_ifs
  · exact hexec
  · exact decideGroup_isProtected d hexec

theorem ProcInfo.inherit_forkRecord_true (e : Event) :
    (forkRecord e true).inherit = forkRecord e true := rfl

namespace ProcessTable

variable {t : ProcessTable} {e : Event}

/-- After a fork, the handler sees the parent protected iff the fork did. -/
theorem Upserted.pointsToProtected_eq {i : Fin procMax} {t' : ProcessTable}
    (h : Upserted t (forkRecord e (parentProtected t e)) i t') :
    pointsToProtected t' (processGet t' e.pid) = parentProtected t e := by
  have hread : pointsToProtected t' (processGet t' e.pid) =
      (t'.record e.pid).any (·.isProtected) := by
    rw [ProcessTable.record]
    cases hg : processGet t' e.pid with
    | none => rfl
    | some j =>
      have hj := view_eq_live_iff.1 (h.inv.processGet_eq_some_iff.1 hg)
      simp [pointsToProtected, h.inv.used j hj.1]
  rw [hread, h.record, forkRecord_pid, parentProtected]
  by_cases hpid : e.pid = e.childPid
  · simp [hpid]
  · simp [hpid]

/-- What the event `x` does to the records of `t`. -/
inductive Handled (d : DaemonConfig) (t : ProcessTable) (x : Delivery) (t' : ProcessTable) : Prop
  | exec : x.event.type = .exec → 0 < x.event.pid → (processUpsertExec x.event x.fs t).1 ≠ none →
      (∀ q, t'.record q = if q = x.event.pid then
        some (handledExec d x.event x.fs (t.record x.event.pid)) else t.record q) →
      Handled d t x t'
  | fork : x.event.type = .fork → 0 < x.event.pid → 0 < x.event.childPid →
      (processUpsertFork x.event t).1 ≠ none →
      (∀ q, t'.record q = if q = x.event.childPid then
        some (forkRecord x.event (parentProtected t x.event)) else t.record q) →
      Handled d t x t'
  | exit : x.event.type = .exit →
      (∀ q, t'.record q = if q = x.event.pid then none else t.record q) → Handled d t x t'
  | execFailed : x.event.type = .exec → (processUpsertExec x.event x.fs t).1 = none → t' = t →
      Handled d t x t'
  | forkFailed : x.event.type = .fork → (processUpsertFork x.event t).1 = none → t' = t →
      Handled d t x t'

/-- An exec is handled. -/
theorem Inv.handled_exec (h : t.Inv) (d : DaemonConfig) {x : Delivery}
    (hx : x.event.type = .exec) :
    (handleEvent d t x).2.Inv ∧ Handled d t x (handleEvent d t x).2 := by
  rw [handleEvent]
  simp only [hx]
  by_cases hp : 0 < x.event.pid
  · rcases h.processUpsertExec_cases x.fs hp with ⟨i, t', hu, hup⟩ | ⟨hu, _⟩
    · rw [hu]
      have hne : (processUpsertExec x.event x.fs t).1 ≠ none := by rw [hu]; exact nofun
      dsimp only
      rw [hup.proc]
      by_cases hd : (execRecord x.event x.fs (t.record x.event.pid)).pid = d.daemonPid ∨
          (execRecord x.event x.fs (t.record x.event.pid)).ppid = d.daemonPid
      · -- A process of the daemon itself stays in the table, but its group is not decided.
        rw [if_pos hd]
        refine ⟨hup.inv, .exec hx hp hne fun q => ?_⟩
        rw [hup.record, handledExec, if_pos hd, execRecord_pid]
      · -- To decide the group rewrites the record in its slot, and keeps its pid.
        rw [if_neg hd]
        have hup' := hup.setProc (decideGroup_pid d _)
          ((decideGroup_used d _).trans (execRecord_used _ _ _))
        refine ⟨hup'.inv, .exec hx hp hne fun q => ?_⟩
        rw [hup'.record, handledExec, if_neg hd, decideGroup_pid, execRecord_pid]
    · rw [hu]
      exact ⟨h, .execFailed hx (by rw [hu]) rfl⟩
  · have hu : processUpsertExec x.event x.fs t = (none, t) := if_pos (not_lt.1 hp)
    rw [hu]
    exact ⟨h, .execFailed hx (by rw [hu]) rfl⟩

/-- A fork is handled. -/
theorem Inv.handled_fork (h : t.Inv) (d : DaemonConfig) {x : Delivery}
    (hx : x.event.type = .fork) :
    (handleEvent d t x).2.Inv ∧ Handled d t x (handleEvent d t x).2 := by
  rw [handleEvent]
  simp only [hx]
  by_cases hp : 0 < x.event.pid ∧ 0 < x.event.childPid
  · rcases h.processUpsertFork_cases hp.1 hp.2 with ⟨i, t', hu, hup⟩ | ⟨hu, _⟩
    · rw [hu]
      have hne : (processUpsertFork x.event t).1 ≠ none := by rw [hu]; exact nofun
      dsimp only
      rw [hup.pointsToProtected_eq]
      split_ifs with hpar
      · -- The handler writes the inherited protection once more.
        rw [inheritProtection, hup.proc, hpar, ProcInfo.inherit_forkRecord_true]
        rw [hpar] at hup
        have hup' := hup.setProc rfl (forkRecord_used x.event true)
        refine ⟨hup'.inv, .fork hx hp.1 hp.2 hne fun q => ?_⟩
        rw [hup'.record, forkRecord_pid, hpar]
      · refine ⟨hup.inv, .fork hx hp.1 hp.2 hne fun q => ?_⟩
        rw [hup.record, forkRecord_pid]
    · rw [hu]
      exact ⟨h, .forkFailed hx (by rw [hu]) rfl⟩
  · have hu : processUpsertFork x.event t = (none, t) := if_pos (by omega)
    rw [hu]
    exact ⟨h, .forkFailed hx (by rw [hu]) rfl⟩

/-- All that an event can do: the table stays well formed, and the record of at
    most one pid changes. -/
theorem Inv.handleEvent_cases (h : t.Inv) (d : DaemonConfig) (x : Delivery) :
    (handleEvent d t x).2.Inv ∧ Handled d t x (handleEvent d t x).2 := by
  cases hx : x.event.type with
  | exec => exact h.handled_exec d hx
  | fork => exact h.handled_fork d hx
  | exit =>
    rw [handleEvent]
    simp only [hx]
    obtain ⟨hinv, hrec⟩ := h.processRemove_spec x.event.pid
    exact ⟨hinv, .exit hx hrec⟩

end ProcessTable

/-- The table after the events, the latest first, from an empty table. -/
def tableAfter (d : DaemonConfig) (xs : List Delivery) : ProcessTable :=
  after (handleEvent d) processTableReset xs

theorem inv_tableAfter (d : DaemonConfig) (xs : List Delivery) : (tableAfter d xs).Inv :=
  after_invariant (fun _ t => ProcessTable.Inv t) ProcessTable.inv_reset
    (fun _ _ x h => (h.handleEvent_cases d x).1) xs

/-! ## Protection -/

/-- The record of the pid has `is_protected` set. -/
def isProtectedPid (t : ProcessTable) (q : ℤ) : Bool := (t.record q).any (·.isProtected)

/-- A pid is protected if its record says so. -/
theorem isProtectedPid_iff {t : ProcessTable} {q : ℤ} :
    isProtectedPid t q ↔ ∃ p, t.record q = some p ∧ p.isProtected = true :=
  Option.any_eq_true _ _

/-- The record of the pid is that of a process that inherited its protection. -/
def inheritedPid (t : ProcessTable) (q : ℤ) : Bool :=
  (t.record q).any fun p => p.isProtected && p.inheritedProtected && p.group = .groupProtected

/-- The fork `x`, handled in `t`, passes the protection of the parent on to the
    child, and the parent keeps it. -/
def Inherits (d : DaemonConfig) (t : ProcessTable) (x : Delivery) : Prop :=
  x.event.type = .fork → 0 < x.event.pid → 0 < x.event.childPid →
    (processUpsertFork x.event t).1 ≠ none → isProtectedPid t x.event.pid →
    inheritedPid (handleEvent d t x).2 x.event.childPid ∧
      isProtectedPid (handleEvent d t x).2 x.event.pid

/-- An event that may end the protection of the pid `q`: its exit, or a fork of
    another process that gives `q` to the child. -/
def EndsProtection (q : ℤ) (e : Event) : Prop :=
  (e.type = .exit ∧ e.pid = q) ∨ (e.type = .fork ∧ e.childPid = q ∧ e.pid ≠ q)

/-- Protection is inherited by every fork of the run, and kept between any two
    moments of it by a pid whose protection no event in between may end. -/
structure ProtectionLaw (d : DaemonConfig) (xs : List Delivery) : Prop where
  inherits : ∀ later x earlier, xs = later ++ x :: earlier → Inherits d (tableAfter d earlier) x
  keeps : ∀ later xs' earlier q, xs = later ++ (xs' ++ earlier) →
    isProtectedPid (tableAfter d earlier) q → (∀ x ∈ xs', ¬EndsProtection q x.event) →
    isProtectedPid (tableAfter d (xs' ++ earlier)) q

/-- A fork whose child is the parent, and whose parent is protected. -/
def SelfFork (t : ProcessTable) (e : Event) : Prop :=
  e.type = .fork ∧ e.pid = e.childPid ∧ isProtectedPid t e.pid

namespace ProcessTable

variable {t : ProcessTable} {d : DaemonConfig} {x : Delivery} {q : ℤ}

/-- A protected pid that an event may not end the protection of keeps it, unless
    it forks itself. -/
theorem Inv.handleEvent_keeps (h : t.Inv) (hq : isProtectedPid t q)
    (hx : ¬EndsProtection q x.event) (hs : ¬SelfFork t x.event) :
    isProtectedPid (handleEvent d t x).2 q := by
  obtain ⟨p, hp, hprot⟩ := isProtectedPid_iff.1 hq
  rw [isProtectedPid_iff]
  rcases (h.handleEvent_cases d x).2 with ⟨_, _, _, hrec⟩ | ⟨ht, _, _, _, hrec⟩ | ⟨ht, hrec⟩ |
    ⟨_, _, heq⟩ | ⟨_, _, heq⟩
  · rw [hrec]
    split_ifs with hpid
    · subst hpid
      exact ⟨_, rfl, hp ▸ handledExec_isProtected d x.event x.fs hprot⟩
    · exact ⟨p, hp, hprot⟩
  · rw [hrec]
    split_ifs with hpid
    · -- The fork names `q` as the child, and is not from another process.
      subst hpid
      have hself : x.event.pid = x.event.childPid := by
        by_contra hne
        exact hx (.inr ⟨ht, rfl, hne⟩)
      exact absurd ⟨ht, hself, hself ▸ hq⟩ hs
    · exact ⟨p, hp, hprot⟩
  · rw [hrec, if_neg fun hpid => hx (.inl ⟨ht, hpid.symm⟩)]
    exact ⟨p, hp, hprot⟩
  · rw [heq]
    exact ⟨p, hp, hprot⟩
  · rw [heq]
    exact ⟨p, hp, hprot⟩

/-- A fork passes the protection on, unless the child is the parent. -/
theorem Inv.handleEvent_inherits (h : t.Inv) (hs : ¬SelfFork t x.event) : Inherits d t x := by
  intro ht hp hc hne hprot
  have hpid : x.event.pid ≠ x.event.childPid := fun hpid => hs ⟨ht, hpid, hprot⟩
  rcases (h.handleEvent_cases d x).2 with ⟨ht', _⟩ | ⟨_, _, _, _, hrec⟩ | ⟨ht', _⟩ |
    ⟨ht', _⟩ | ⟨_, hnone, _⟩
  · exact absurd (ht.symm.trans ht') (by decide)
  · have hpar : parentProtected t x.event = true := by
      rw [parentProtected, if_neg hpid]
      exact hprot
    refine ⟨?_, ?_⟩
    · rw [inheritedPid, hrec, if_pos rfl, hpar]
      rfl
    · rw [isProtectedPid, hrec, if_neg hpid]
      exact hprot
  · exact absurd (ht.symm.trans ht') (by decide)
  · exact absurd (ht.symm.trans ht') (by decide)
  · exact absurd hnone hne

/-- A protected process that forks itself is not protected any more. -/
theorem Inv.handleEvent_selfFork (h : t.Inv) (hs : SelfFork t x.event) :
    (processUpsertFork x.event t).1 ≠ none ∧
      isProtectedPid (handleEvent d t x).2 x.event.pid = false := by
  obtain ⟨ht, hpid, hprot⟩ := hs
  obtain ⟨p, hp, _⟩ := isProtectedPid_iff.1 hprot
  have hpos := h.pos_of_record hp
  have hne : (processUpsertFork x.event t).1 ≠ none := by
    rcases h.processUpsertFork_cases hpos (hpid ▸ hpos) with ⟨i, t', hu, _⟩ | ⟨_, hn⟩
    · rw [hu]
      exact Option.some_ne_none _
    · rw [hpid, hn.absent] at hp
      exact absurd hp.symm (Option.some_ne_none _)
  refine ⟨hne, ?_⟩
  rcases (h.handleEvent_cases d x).2 with ⟨ht', _⟩ | ⟨_, _, _, _, hrec⟩ | ⟨ht', _⟩ |
    ⟨ht', _⟩ | ⟨_, hnone, _⟩
  · exact absurd (ht.symm.trans ht') (by decide)
  · rw [isProtectedPid, hrec, if_pos hpid, parentProtected, if_pos hpid]
    rfl
  · exact absurd (ht.symm.trans ht') (by decide)
  · exact absurd (ht.symm.trans ht') (by decide)
  · exact absurd hnone hne

end ProcessTable

/-- In a run without forks of a protected process to itself, a pid keeps its
    protection as long as no event may end it. -/
theorem keeps_protection {d : DaemonConfig} {earlier : List Delivery} {q : ℤ}
    (hq : isProtectedPid (tableAfter d earlier) q) :
    ∀ xs : List Delivery, (∀ x ∈ xs, ¬EndsProtection q x.event) →
      (∀ later x before, xs = later ++ x :: before →
        ¬SelfFork (tableAfter d (before ++ earlier)) x.event) →
      isProtectedPid (tableAfter d (xs ++ earlier)) q
  | [], _, _ => hq
  | x :: xs, hends, hself => by
    have ih := keeps_protection hq xs (fun y hy => hends y (List.mem_cons_of_mem _ hy))
      fun later y before hy => hself (x :: later) y before (by rw [hy]; rfl)
    exact (inv_tableAfter d (xs ++ earlier)).handleEvent_keeps ih
      (hends x List.mem_cons_self) (hself [] x xs rfl)

/-- The protection law holds of exactly the runs in which no protected process
    forks itself. -/
theorem protection_law_iff (d : DaemonConfig) (xs : List Delivery) :
    ProtectionLaw d xs ↔
      ∀ later x earlier, xs = later ++ x :: earlier → ¬SelfFork (tableAfter d earlier) x.event := by
  constructor
  · rintro ⟨hinh, _⟩ later x earlier hxs hs
    have hinv := inv_tableAfter d earlier
    obtain ⟨hne, hlost⟩ := hinv.handleEvent_selfFork (d := d) hs
    obtain ⟨ht, hpid, hprot⟩ := hs
    obtain ⟨p, hp, _⟩ := isProtectedPid_iff.1 hprot
    have hpos := hinv.pos_of_record hp
    obtain ⟨_, hkept⟩ := hinh later x earlier hxs ht hpos (hpid ▸ hpos) hne hprot
    exact nomatch hlost.symm.trans hkept
  · intro hself
    refine ⟨fun later x earlier hxs => ?_, fun later xs' earlier q hxs hq hends => ?_⟩
    · exact (inv_tableAfter d earlier).handleEvent_inherits (hself later x earlier hxs)
    · refine keeps_protection hq xs' hends fun later' x before hx => ?_
      exact hself (later ++ later') x (before ++ earlier) (by rw [hxs, hx]; simp)

/-- The configuration that protects `sleep` and `ls`. -/
def sleepProtected : DaemonConfig := ⟨7, policyLoadConfig "sleep\nls\n".toList⟩

/-- The exec of `sleep` by the process 100. -/
def sleepExec : Delivery :=
  ⟨⟨.exec, 100, 1, 0, 0, "sleep".toList⟩, ⟨none, none, true⟩, true⟩

/-- The creation of a thread by the process 100: the kernel reports it as a fork
    from the thread group to itself. -/
def sleepClone : Delivery :=
  ⟨⟨.fork, 100, 1, 100, 0, "sleep".toList⟩, ⟨none, none, true⟩, true⟩

/-- The creation of a thread loses the protection of the process. -/
theorem thread_creation_breaks_protection_law :
    ¬ProtectionLaw sleepProtected [sleepClone, sleepExec] := by
  intro h
  have hkept := h.keeps [] [sleepClone] [sleepExec] 100 rfl (by decide +kernel)
    (by simp [sleepClone, EndsProtection])
  revert hkept
  decide +kernel

end CgroupResearch
