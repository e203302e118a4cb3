import CgroupResearch.Lib.Machine
import CgroupResearch.Process.Invariant

/-!
# The process table is a finite map

The operations of the process table, run in any order from a reset table, are
those of a finite map from pids to records, of capacity `procMax` (`PidMap`).

* `processUpsertExec_cases`, `processUpsertFork_cases`: an upsert writes the
  record of its pid, keeping all the others, or fails on a full table;
* `represents_step`: the table simulates the map, operation by operation;
* `tableSpec`: what follows for every run, stated on the history of the calls
  alone.
-/

namespace CgroupResearch

open OpenAddressing Machine

/-! ## Upserts -/

theorem processReadExe_eq (fs : ProcFs) (p : ProcInfo) :
    ∃ x, (processReadExe fs p).2 = { p with exePath := x } := by
  unfold processReadExe
  split_ifs
  · exact ⟨p.exePath, rfl⟩
  · cases fs.exe with
    | none => exact ⟨[], rfl⟩
    | some target => exact ⟨_, rfl⟩

theorem processReadCmdline_eq (fs : ProcFs) (p : ProcInfo) :
    ∃ x, (processReadCmdline fs p).2 = { p with cmdline := x } := by
  unfold processReadCmdline
  split_ifs
  · exact ⟨p.cmdline, rfl⟩
  · cases fs.cmdline with
    | none => exact ⟨[], rfl⟩
    | some bytes =>
      dsimp only
      split_ifs <;> exact ⟨_, rfl⟩

/-- The record an exec writes, up to what it reads in `/proc`. -/
theorem execInfo_eq (e : Event) (fs : ProcFs) (found : Bool) (p : ProcInfo) :
    ∃ x y, execInfo e fs found p =
      { ProcInfo.zero with
        used := true
        pid := e.pid
        ppid := e.ppid
        uid := e.uid
        execSeen := true
        isProtected := if found then p.isProtected else false
        inheritedProtected := if found then p.inheritedProtected else false
        group := if found then p.group else .groupUnknown
        comm := CString.snprintfString taskCommLen e.comm
        exePath := x
        cmdline := y } := by
  unfold execInfo
  dsimp only
  obtain ⟨x, hx⟩ := processReadExe_eq fs
    { ProcInfo.zero with
      used := true
      pid := e.pid
      ppid := e.ppid
      uid := e.uid
      execSeen := true
      isProtected := if found then p.isProtected else false
      inheritedProtected := if found then p.inheritedProtected else false
      group := if found then p.group else .groupUnknown
      comm := CString.snprintfString taskCommLen e.comm }
  rw [hx]
  obtain ⟨y, hy⟩ := processReadCmdline_eq fs _
  exact ⟨x, y, hy⟩

@[simp] theorem execInfo_used (e : Event) (fs : ProcFs) (found : Bool) (p : ProcInfo) :
    (execInfo e fs found p).used = true := by
  obtain ⟨x, y, h⟩ := execInfo_eq e fs found p
  rw [h]

@[simp] theorem execInfo_pid (e : Event) (fs : ProcFs) (found : Bool) (p : ProcInfo) :
    (execInfo e fs found p).pid = e.pid := by
  obtain ⟨x, y, h⟩ := execInfo_eq e fs found p
  rw [h]

@[simp] theorem execInfo_ppid (e : Event) (fs : ProcFs) (found : Bool) (p : ProcInfo) :
    (execInfo e fs found p).ppid = e.ppid := by
  obtain ⟨x, y, h⟩ := execInfo_eq e fs found p
  rw [h]

@[simp] theorem execInfo_isProtected (e : Event) (fs : ProcFs) (found : Bool) (p : ProcInfo) :
    (execInfo e fs found p).isProtected = if found then p.isProtected else false := by
  obtain ⟨x, y, h⟩ := execInfo_eq e fs found p
  rw [h]

/-- The record of a pid after an exec, given the one before. -/
def execRecord (e : Event) (fs : ProcFs) : Option ProcInfo → ProcInfo
  | none => execInfo e fs false .zero
  | some p => execInfo e fs true p

/-- The record of a child after a fork, whether its parent is protected. -/
def forkRecord (e : Event) (parentProtected : Bool) : ProcInfo :=
  if parentProtected then (forkInfo e).inherit else forkInfo e

@[simp] theorem execRecord_used (e : Event) (fs : ProcFs) (old : Option ProcInfo) :
    (execRecord e fs old).used = true := by
  cases old <;> simp [execRecord]

@[simp] theorem execRecord_pid (e : Event) (fs : ProcFs) (old : Option ProcInfo) :
    (execRecord e fs old).pid = e.pid := by
  cases old <;> simp [execRecord]

@[simp] theorem execRecord_ppid (e : Event) (fs : ProcFs) (old : Option ProcInfo) :
    (execRecord e fs old).ppid = e.ppid := by
  cases old <;> simp [execRecord]

@[simp] theorem forkRecord_used (e : Event) (b : Bool) : (forkRecord e b).used = true := by
  cases b <;> rfl

@[simp] theorem forkRecord_pid (e : Event) (b : Bool) : (forkRecord e b).pid = e.childPid := by
  cases b <;> rfl

@[simp] theorem forkRecord_isProtected (e : Event) (b : Bool) :
    (forkRecord e b).isProtected = b := by
  cases b <;> rfl

namespace ProcessTable

variable {t : ProcessTable} {e : Event}

theorem setProc_setProc (t : ProcessTable) (i : Fin procMax) (p p' : ProcInfo) :
    (t.setProc i p).setProc i p' = t.setProc i p' := by
  simp [setProc, Function.update_idem]

/-- An exec of a positive pid writes its record, or fails for want of room. -/
theorem Inv.processUpsertExec_cases (h : t.Inv) (fs : ProcFs) (hp : 0 < e.pid) :
    (∃ i t', processUpsertExec e fs t = (some i, t') ∧
      Upserted t (execRecord e fs (t.record e.pid)) i t') ∨
    (processUpsertExec e fs t = (none, t) ∧ NoRoom t e.pid) := by
  rw [processUpsertExec, if_neg (not_le.2 hp)]
  rcases h.prepareUpsert_spec hp with ⟨i, found, t', hu, hprep⟩ | ⟨hu, hroom⟩
  · have hinfo : execInfo e fs found (t'.procTable i) = execRecord e fs (t.record e.pid) := by
      rw [hprep.found_eq, hprep.proc]
      cases t.record e.pid <;> rfl
    refine .inl ⟨i, t'.setProc i (execRecord e fs (t.record e.pid)), ?_,
      hprep.put _ (by simp) (by simp)⟩
    rw [hu, ← hinfo]
  · exact .inr ⟨by rw [hu], hroom⟩

/-- Whether a fork sees its parent protected: it does not when the child is the
    parent, whose record is overwritten before it is read. -/
def parentProtected (t : ProcessTable) (e : Event) : Bool :=
  if e.pid = e.childPid then false else (t.record e.pid).any (·.isProtected)

/-- Reading the parent's record, after the write of the child's. -/
theorem Prepared.pointsToProtected_eq (h : t.Inv) {t' : ProcessTable} {child : Fin procMax}
    {found : Bool} (hprep : Prepared t e.childPid child found t') :
    pointsToProtected (t'.setProc child (forkInfo e)) (processGet t e.pid) =
      parentProtected t e := by
  have hup := hprep.put (forkInfo e) rfl rfl
  rw [parentProtected, record]
  cases hg : processGet t e.pid with
  | none => simp [pointsToProtected]
  | some par =>
    have hpar := h.processGet_eq_some_iff.1 hg
    by_cases hc : par = child
    · have hpid : e.pid = e.childPid := hprep.held e.pid (hc ▸ hpar)
      rw [if_pos hpid, pointsToProtected, hc, hup.proc]
      rfl
    · -- The parent keeps its slot, which is not the child's.
      have hpid : e.pid ≠ e.childPid := fun hpid => hc (hprep.slot par (hpid ▸ hpar))
      have hframe : (t'.setProc child (forkInfo e)).procTable par = t.procTable par :=
        (Function.update_of_ne hc _ _).trans (hprep.frame par hc)
      rw [if_neg hpid, pointsToProtected, hframe, h.used par (view_eq_live_iff.1 hpar).1]
      rfl

/-- A fork of positive pids writes the record of the child, or fails for want of
    room. -/
theorem Inv.processUpsertFork_cases (h : t.Inv) (hp : 0 < e.pid) (hc : 0 < e.childPid) :
    (∃ i t', processUpsertFork e t = (some i, t') ∧
      Upserted t (forkRecord e (parentProtected t e)) i t') ∨
    (processUpsertFork e t = (none, t) ∧ NoRoom t e.childPid) := by
  rw [processUpsertFork, if_neg (by omega)]
  rcases h.prepareUpsert_spec hc with ⟨i, found, t', hu, hprep⟩ | ⟨hu, hroom⟩
  · refine .inl ⟨i, t'.setProc i (forkRecord e (parentProtected t e)), ?_,
      hprep.put _ (by simp) (by simp)⟩
    have hproc : (t'.setProc i (forkInfo e)).procTable i = forkInfo e := Function.update_self _ _ _
    rw [hu]
    dsimp only
    rw [hprep.pointsToProtected_eq h, inheritProtection, hproc, setProc_setProc, forkRecord]
    cases parentProtected t e <;> rfl
  · exact .inr ⟨by rw [hu], hroom⟩

end ProcessTable

/-! ## Finite maps -/

/-- A finite map from pids to records. -/
structure PidMap where
  record : ℤ → Option ProcInfo
  pids : Finset ℤ
  mem_pids : ∀ q, q ∈ pids ↔ (record q).isSome

namespace PidMap

/-- The empty map. -/
def empty : PidMap where
  record _ := none
  pids := ∅
  mem_pids _ := by simp

/-- The map with the record of a pid set. -/
def insert (m : PidMap) (q : ℤ) (p : ProcInfo) : PidMap where
  record := Function.update m.record q (some p)
  pids := Insert.insert q m.pids
  mem_pids q' := by
    by_cases hq : q' = q
    · simp [hq]
    · simp [hq, m.mem_pids]

/-- The map with a pid erased. -/
def erase (m : PidMap) (q : ℤ) : PidMap where
  record := Function.update m.record q none
  pids := m.pids.erase q
  mem_pids q' := by
    by_cases hq : q' = q
    · simp [hq]
    · simp [hq, m.mem_pids]

theorem insert_record (m : PidMap) (q : ℤ) (p : ProcInfo) (q' : ℤ) :
    (m.insert q p).record q' = if q' = q then some p else m.record q' :=
  Function.update_apply _ _ _ _

theorem erase_record (m : PidMap) (q q' : ℤ) :
    (m.erase q).record q' = if q' = q then none else m.record q' :=
  Function.update_apply _ _ _ _

/-- Setting the record of a pid in a map of capacity `procMax`: it fails if the
    pid is new and the map is full. -/
def upsert (m : PidMap) (q : ℤ) (p : ProcInfo) : Option ProcInfo × PidMap :=
  if q ∈ m.pids ∨ m.pids.card < procMax then (some p, m.insert q p) else (none, m)

end PidMap

/-! ## Runs -/

/-- The operations on the table. -/
inductive TableOp
  | reset
  | upsertExec (e : Event) (fs : ProcFs)
  | upsertFork (e : Event)
  | remove (pid : ℤ)
  | get (pid : ℤ)

/-- The operation on the table, with the record its result points to. -/
def ProcessTable.step (t : ProcessTable) : TableOp → Option ProcInfo × ProcessTable
  | .reset => (none, processTableReset)
  | .upsertExec e fs =>
    let (p, t') := processUpsertExec e fs t
    (p.map t'.procTable, t')
  | .upsertFork e =>
    let (p, t') := processUpsertFork e t
    (p.map t'.procTable, t')
  | .remove pid => (none, processRemove t pid)
  | .get pid => ((processGet t pid).map t.procTable, t)

/-- The operation on the map. -/
def PidMap.step (m : PidMap) : TableOp → Option ProcInfo × PidMap
  | .reset => (none, .empty)
  | .upsertExec e fs =>
    if 0 < e.pid then m.upsert e.pid (execRecord e fs (m.record e.pid)) else (none, m)
  | .upsertFork e =>
    if 0 < e.pid ∧ 0 < e.childPid then
      m.upsert e.childPid (forkRecord e
        (if e.pid = e.childPid then false else (m.record e.pid).any (·.isProtected)))
    else
      (none, m)
  | .remove pid => (none, m.erase pid)
  | .get pid => (m.record pid, m)

/-- The table holds the records of the map. -/
structure Represents (t : ProcessTable) (m : PidMap) : Prop where
  inv : t.Inv
  record_eq : ∀ q, t.record q = m.record q

namespace Represents

variable {t t' : ProcessTable} {m : PidMap} {q : ℤ} {p : ProcInfo} {i : Fin procMax}

theorem mem_pids_iff (h : Represents t m) : q ∈ m.pids ↔ ∃ i, t.view i = .live q := by
  rw [m.mem_pids, ← h.record_eq, Option.isSome_iff_exists]
  constructor
  · rintro ⟨p, hp⟩
    obtain ⟨i, hi, _⟩ := h.inv.record_eq_some_iff.1 hp
    exact ⟨i, hi⟩
  · exact fun ⟨i, hi⟩ => ⟨_, h.inv.record_of_live hi⟩

/-- The count is the number of pids. -/
theorem count_eq (h : Represents t m) : processTableCount t = m.pids.card := by
  rw [processTableCount, h.inv.count]
  refine (h.inv.wf.card_keys (fun q => h.mem_pids_iff) t.occupiedSlots fun i => ?_).symm
  rw [ProcessTable.mem_occupiedSlots]
  exact ⟨fun hs => ⟨_, ProcessTable.view_eq_live_iff.2 ⟨hs, rfl⟩⟩,
    fun ⟨_, hq⟩ => (ProcessTable.view_eq_live_iff.1 hq).1⟩

/-- There is no room for a pid iff it is not in the map, which is full. -/
theorem noRoom_iff (h : Represents t m) :
    ProcessTable.NoRoom t q ↔ q ∉ m.pids ∧ m.pids.card = procMax := by
  rw [h.inv.wf.card_keys_eq_iff fun q => h.mem_pids_iff, m.mem_pids, ← h.record_eq,
    Option.not_isSome_iff_eq_none]
  exact ⟨fun hn => ⟨hn.absent, hn.full⟩, fun hn => ⟨hn.1, hn.2⟩⟩

theorem upserted (h : Represents t m) (hup : ProcessTable.Upserted t p i t') :
    Represents t' (m.insert p.pid p) := by
  refine ⟨hup.inv, fun q => ?_⟩
  rw [hup.record, h.record_eq, PidMap.insert_record]

theorem upsert_of_upserted (h : Represents t m) (hup : ProcessTable.Upserted t p i t') :
    m.upsert p.pid p = (some p, m.insert p.pid p) := by
  refine if_pos (or_iff_not_imp_left.2 fun hq => lt_of_le_of_ne ?_ fun hcard => ?_)
  · exact h.inv.wf.card_keys_le fun q => h.mem_pids_iff
  · -- A full table has no slot left for a new pid, yet it got one.
    have hfull := (h.upserted hup).inv.wf.card_keys_le fun q => (h.upserted hup).mem_pids_iff
    rw [PidMap.insert, Finset.card_insert_of_notMem hq, hcard] at hfull
    omega

theorem upsert_of_noRoom (h : Represents t m) (hn : ProcessTable.NoRoom t q) :
    m.upsert q p = (none, m) := by
  obtain ⟨hq, hcard⟩ := h.noRoom_iff.1 hn
  exact if_neg fun hor => hor.elim hq fun hlt => absurd hcard hlt.ne

end Represents

/-- A table that was reset represents the empty map. -/
theorem represents_reset : Represents processTableReset .empty := by
  refine ⟨ProcessTable.inv_reset, fun q => ?_⟩
  rw [ProcessTable.inv_reset.record_eq_none_iff.2 fun i hi => nomatch hi]
  rfl

/-- The table simulates the map: every operation gives the same result, and
    keeps the records those of the map. -/
theorem represents_step (t : ProcessTable) (m : PidMap) (op : TableOp) (h : Represents t m) :
    (t.step op).1 = (m.step op).1 ∧ Represents (t.step op).2 (m.step op).2 := by
  cases op with
  | reset => exact ⟨rfl, represents_reset⟩
  | upsertExec e fs =>
    by_cases hp : 0 < e.pid
    · rw [PidMap.step, if_pos hp, ← h.record_eq, ProcessTable.step]
      rcases h.inv.processUpsertExec_cases fs hp with ⟨i, t', hu, hup⟩ | ⟨hu, hn⟩
      · have hm := h.upsert_of_upserted hup
        have hrep := h.upserted hup
        rw [execRecord_pid] at hm hrep
        rw [hu, hm]
        exact ⟨congrArg some hup.proc, hrep⟩
      · -- Without a free slot the table refuses the key, and so does the map at its bound.
        rw [hu, h.upsert_of_noRoom hn]
        exact ⟨rfl, h⟩
    · rw [PidMap.step, if_neg hp, ProcessTable.step, processUpsertExec, if_pos (not_lt.1 hp)]
      exact ⟨rfl, h⟩
  | upsertFork e =>
    by_cases hp : 0 < e.pid ∧ 0 < e.childPid
    · rw [PidMap.step, if_pos hp, ← h.record_eq, ProcessTable.step]
      rcases h.inv.processUpsertFork_cases hp.1 hp.2 with ⟨i, t', hu, hup⟩ | ⟨hu, hn⟩
      · have hm := h.upsert_of_upserted hup
        have hrep := h.upserted hup
        rw [forkRecord_pid, ProcessTable.parentProtected] at hm hrep
        rw [hu, hm]
        exact ⟨congrArg some hup.proc, hrep⟩
      · rw [hu, h.upsert_of_noRoom hn]
        exact ⟨rfl, h⟩
    · rw [PidMap.step, if_neg hp, ProcessTable.step, processUpsertFork, if_pos (by omega)]
      exact ⟨rfl, h⟩
  | remove pid =>
    obtain ⟨hinv, hrec⟩ := h.inv.processRemove_spec pid
    refine ⟨rfl, hinv, fun q => ?_⟩
    refine (hrec q).trans ?_
    rw [PidMap.step, PidMap.erase_record, h.record_eq]
  | get pid => exact ⟨h.record_eq pid, h⟩

/-- The pids inserted by an upsert that returned a record and neither removed nor
    reset since, after a history of calls (the latest first). -/
def live : List (TableOp × Option ProcInfo) → Finset ℤ
  | [] => ∅
  | (.reset, _) :: _ => ∅
  | (.upsertExec e _, some _) :: h => insert e.pid (live h)
  | (.upsertFork e, some _) :: h => insert e.childPid (live h)
  | (.remove q, _) :: h => (live h).erase q
  | _ :: h => live h

/-- An operation that is not on the pid `q`. -/
def TableOp.Spares (q : ℤ) : TableOp → Prop
  | .reset => False
  | .upsertExec e _ => e.pid ≠ q
  | .upsertFork e => e.childPid ≠ q
  | .remove pid => pid ≠ q
  | .get pid => pid ≠ q

/-- The pids of the map are those the history of the calls tells. -/
theorem pids_eq_live (ops : List TableOp) :
    (after PidMap.step .empty ops).pids = live (history PidMap.step .empty ops) := by
  induction ops with
  | nil => rfl
  | cons op ops ih =>
    rw [after_cons, history_cons]
    cases op with
    | reset => rfl
    | upsertExec e fs =>
      simp only [PidMap.step, PidMap.upsert]
      split_ifs <;> simp [live, PidMap.insert, ih]
    | upsertFork e =>
      simp only [PidMap.step, PidMap.upsert]
      split_ifs <;> simp [live, PidMap.insert, ih]
    | remove pid => simp [PidMap.step, live, PidMap.erase, ih]
    | get pid => simp [PidMap.step, live, ih]

/-- An operation keeps the records of the pids it is not on. -/
theorem Represents.step_frame {t : ProcessTable} {m : PidMap} (h : Represents t m) {op : TableOp}
    {q : ℤ} (hop : op.Spares q) : (t.step op).2.record q = t.record q := by
  rw [(represents_step t m op h).2.record_eq, h.record_eq]
  cases op with
  | reset => exact absurd hop id
  | upsertExec e fs =>
    simp only [PidMap.step, PidMap.upsert]
    split_ifs <;> simp [PidMap.insert_record, Ne.symm hop]
  | upsertFork e =>
    simp only [PidMap.step, PidMap.upsert]
    split_ifs <;> simp [PidMap.insert_record, Ne.symm hop]
  | remove pid => simp [PidMap.step, PidMap.erase_record, Ne.symm hop]
  | get pid => rfl

/-- What the process table, in the state `t` after the calls `h`, is for. -/
structure TableSpec (h : List (TableOp × Option ProcInfo)) (t : ProcessTable) : Prop where
  /-- It holds a finite map of the live pids. -/
  refines : ∃ m : PidMap, m.pids = live h ∧ ∀ q, t.record q = m.record q
  /-- A pid has a record iff it is live. -/
  get_iff : ∀ q, (processGet t q).isSome ↔ 0 < q ∧ q ∈ live h
  /-- The record of a pid is its own. -/
  get_pid : ∀ q i, processGet t q = some i → (t.procTable i).pid = q
  /-- An operation keeps the records of the pids it is not on. -/
  frame : ∀ op q, TableOp.Spares q op → (t.step op).2.record q = t.record q
  /-- No pid has two slots. -/
  unique : ∀ i j, t.slotStates i = .occupied → t.slotStates j = .occupied →
    (t.procTable i).pid = (t.procTable j).pid → i = j
  /-- The count is that of the live pids. -/
  count : processTableCount t = (live h).card
  /-- An exec fails iff its pid is new and the map is full. -/
  exec_none_iff : ∀ e fs, 0 < e.pid →
    ((processUpsertExec e fs t).1 = none ↔ e.pid ∉ live h ∧ (live h).card = procMax)
  /-- A fork fails iff its child is new and the map is full. -/
  fork_none_iff : ∀ e, 0 < e.pid → 0 < e.childPid →
    ((processUpsertFork e t).1 = none ↔ e.childPid ∉ live h ∧ (live h).card = procMax)

/-- A table that represents a map does what the map is for. -/
theorem Represents.tableSpec {t : ProcessTable} {m : PidMap} (h : Represents t m)
    {calls : List (TableOp × Option ProcInfo)} (hm : m.pids = live calls) :
    TableSpec calls t where
  refines := ⟨m, hm, h.record_eq⟩
  get_iff q := by
    rw [← hm, h.mem_pids_iff, Option.isSome_iff_exists]
    constructor
    · rintro ⟨i, hi⟩
      have hl := h.inv.processGet_eq_some_iff.1 hi
      exact ⟨h.inv.pos_of_live hl, i, hl⟩
    · exact fun ⟨_, i, hi⟩ => ⟨i, h.inv.processGet_eq_some_iff.2 hi⟩
  get_pid q i hi := (ProcessTable.view_eq_live_iff.1 (h.inv.processGet_eq_some_iff.1 hi)).2
  frame _ _ hop := h.step_frame hop
  unique i j hi hj hij := h.inv.wf.unique i j _ (ProcessTable.view_eq_live_iff.2 ⟨hi, hij⟩)
    (ProcessTable.view_eq_live_iff.2 ⟨hj, rfl⟩)
  count := hm ▸ h.count_eq
  exec_none_iff e fs hp := by
    rw [← hm, ← h.noRoom_iff]
    rcases h.inv.processUpsertExec_cases fs hp with ⟨i, t', hu, hup⟩ | ⟨hu, hn⟩
    · rw [hu]
      refine iff_of_false nofun fun hn => ?_
      exact nomatch (h.upsert_of_upserted hup).symm.trans
        (h.upsert_of_noRoom ((execRecord_pid e fs _).symm ▸ hn))
    · rw [hu]
      exact iff_of_true rfl hn
  fork_none_iff e hp hc := by
    rw [← hm, ← h.noRoom_iff]
    rcases h.inv.processUpsertFork_cases hp hc with ⟨i, t', hu, hup⟩ | ⟨hu, hn⟩
    · rw [hu]
      refine iff_of_false nofun fun hn => ?_
      exact nomatch (h.upsert_of_upserted hup).symm.trans
        (h.upsert_of_noRoom ((forkRecord_pid e _).symm ▸ hn))
    · rw [hu]
      exact iff_of_true rfl hn

/-- After any run from a reset table, the process table is the finite map its
    history tells. -/
theorem process_table_refines_map (ops : List TableOp) :
    TableSpec (history ProcessTable.step processTableReset ops)
      (after ProcessTable.step processTableReset ops) := by
  obtain ⟨hh, hrep⟩ := simulation Represents represents_reset represents_step ops
  exact hrep.tableSpec (hh ▸ pids_eq_live ops)

end CgroupResearch
