import CgroupResearch.Cgroup
import CgroupResearch.Lib.CString
import CgroupResearch.Lib.OpenAddressing

/-!
# The process table

The table of tracked processes (`process.c`): an open-addressing table of
`procMax` slots keyed by pid, with linear probing and reusable tombstones. The
functions follow the source. A pointer into the table is the index of its slot,
so that writes through two pointers to one slot are seen by both.

What the code reads from `/proc` is an input (`ProcFs`). A C `NULL` argument has
no counterpart: the types exclude it.
-/

namespace CgroupResearch

open OpenAddressing CString

/-- `PROC_MAX`, the number of slots. -/
def procMax : ℕ := 32768

instance : NeZero procMax := ⟨by decide⟩

/-- `TASK_COMM_LEN`, the size of a command name with its terminator. -/
def taskCommLen : ℕ := 16

/-- `PROC_PATH_MAX`. -/
def procPathMax : ℕ := 4096

/-- `CMDLINE_MAX`. -/
def cmdlineMax : ℕ := 4096

/-- `enum event_type`. -/
inductive EventType
  | exec
  | fork
  | exit
  deriving DecidableEq, Repr

/-- `struct event`: for a fork, `pid` is the parent and `childPid` the child. -/
structure Event where
  type : EventType
  pid : ℤ
  ppid : ℤ
  childPid : ℤ
  uid : UInt32
  comm : List Char
  deriving DecidableEq, Repr

/-- `struct proc_info`. -/
structure ProcInfo where
  used : Bool
  pid : ℤ
  ppid : ℤ
  uid : UInt32
  execSeen : Bool
  exited : Bool
  isProtected : Bool
  inheritedProtected : Bool
  group : ProcGroup
  comm : List Char
  exePath : List Char
  cmdline : List Char
  deriving DecidableEq, Repr

/-- The record a `memset` to zero leaves. -/
def ProcInfo.zero : ProcInfo where
  used := false
  pid := 0
  ppid := 0
  uid := 0
  execSeen := false
  exited := false
  isProtected := false
  inheritedProtected := false
  group := .groupProtected
  comm := []
  exePath := []
  cmdline := []

/-- What `/proc/[pid]` holds when a record is filled: the target of `exe`
    (`none` when `readlink` fails), the bytes of `cmdline` (`none` when it cannot
    be opened) and whether closing it succeeds. -/
structure ProcFs where
  exe : Option (List Char)
  cmdline : Option (List Char)
  cmdlineClosed : Bool
  deriving DecidableEq, Repr

/-- `enum process_slot_state`. -/
inductive SlotState
  | empty
  | occupied
  | tombstone
  deriving DecidableEq, Repr

/-- The static state of `process.c`. -/
structure ProcessTable where
  procTable : Fin procMax → ProcInfo
  slotStates : Fin procMax → SlotState
  occupiedCount : ℕ

namespace ProcessTable

variable (t : ProcessTable)

/-- Writing a record. -/
def setProc (i : Fin procMax) (p : ProcInfo) : ProcessTable :=
  { t with procTable := Function.update t.procTable i p }

/-- Writing the state of a slot. -/
def setState (i : Fin procMax) (s : SlotState) : ProcessTable :=
  { t with slotStates := Function.update t.slotStates i s }

end ProcessTable

/-! ## Slots -/

/-- `process_hash`. -/
def processHash (pid : ℤ) : ℕ := (pid % 2 ^ 64).toNat % procMax

/-- The body of the loop of `find_existing_slot`: only an empty slot stops the
    lookup, not a tombstone. -/
def findExistingStep (t : ProcessTable) (pid : ℤ) (idx : Fin procMax) (_ : Unit) :
    Option (Fin procMax) ⊕ Unit :=
  if t.slotStates idx = .empty then
    .inl none
  else if t.slotStates idx = .occupied ∧ (t.procTable idx).used ∧ (t.procTable idx).pid = pid then
    .inl (some idx)
  else
    .inr ()

/-- `find_existing_slot`; `none` stands for both its results `0` and `-1`. -/
def findExistingSlot (t : ProcessTable) (pid : ℤ) : Option (Fin procMax) :=
  if pid ≤ 0 then
    none
  else
    match scan (findExistingStep t pid) (processHash pid) procMax 0 () with
    | .inl r => r
    | .inr _ => none

/-- The body of the loop of `find_upsert_slot`, remembering the first tombstone. -/
def findUpsertStep (t : ProcessTable) (pid : ℤ) (idx : Fin procMax)
    (firstTombstone : Option (Fin procMax)) :
    (Fin procMax × Bool) ⊕ Option (Fin procMax) :=
  match t.slotStates idx with
  | .occupied =>
    if (t.procTable idx).used ∧ (t.procTable idx).pid = pid then
      .inl (idx, true)
    else
      .inr firstTombstone
  | .tombstone =>
    match firstTombstone with
    | none => .inr (some idx)
    | some i => .inr (some i)
  | .empty =>
    match firstTombstone with
    | none => .inl (idx, false)
    | some i => .inl (i, false)

/-- `find_upsert_slot`: the slot, and whether it already holds the pid. -/
def findUpsertSlot (t : ProcessTable) (pid : ℤ) : Option (Fin procMax × Bool) :=
  if pid ≤ 0 then
    none
  else
    match scan (findUpsertStep t pid) (processHash pid) procMax 0 none with
    | .inl r => some r
    | .inr none => none
    | .inr (some i) => some (i, false)

/-- `prepare_upsert`: a pointer to the record, whether it was found, and the
    table with the slot taken. -/
def prepareUpsert (t : ProcessTable) (pid : ℤ) : Option (Fin procMax × Bool × ProcessTable) :=
  match findUpsertSlot t pid with
  | none => none
  | some (idx, true) => some (idx, true, t)
  | some (idx, false) =>
    if procMax ≤ t.occupiedCount then
      none
    else
      let t := t.setProc idx .zero
      let t := t.setState idx .occupied
      some (idx, false, { t with occupiedCount := t.occupiedCount + 1 })

/-! ## Operations -/

/-- `process_table_reset`. -/
def processTableReset : ProcessTable where
  procTable _ := .zero
  slotStates _ := .empty
  occupiedCount := 0

/-- `process_table_count`. -/
def processTableCount (t : ProcessTable) : ℕ := t.occupiedCount

/-- `process_get`. -/
def processGet (t : ProcessTable) (pid : ℤ) : Option (Fin procMax) := findExistingSlot t pid

/-- `process_read_exe`, with its return code. -/
def processReadExe (fs : ProcFs) (p : ProcInfo) : ℤ × ProcInfo :=
  if p.pid ≤ 0 then
    (-1, p)
  else
    match fs.exe with
    | none => (-1, { p with exePath := [] })
    | some target => (0, { p with exePath := cstr (target.take (procPathMax - 1)) })

/-- `process_read_cmdline`, with its return code: the NULs that separate the
    arguments become spaces. -/
def processReadCmdline (fs : ProcFs) (p : ProcInfo) : ℤ × ProcInfo :=
  if p.pid ≤ 0 then
    (-1, p)
  else
    match fs.cmdline with
    | none => (-1, { p with cmdline := [] })
    | some bytes =>
      let read := bytes.take (cmdlineMax - 1)
      if fs.cmdlineClosed = false ∨ read = [] then
        (-1, { p with cmdline := [] })
      else
        (0, { p with cmdline := read.map fun c => if c = '\x00' then ' ' else c })

/-- The record `process_upsert_exec` writes over the record `p`: the metadata is
    refreshed, the protection of a record that was there (`found`) is preserved. -/
def execInfo (e : Event) (fs : ProcFs) (found : Bool) (p : ProcInfo) : ProcInfo :=
  let p : ProcInfo :=
    { ProcInfo.zero with
      used := true
      pid := e.pid
      ppid := e.ppid
      uid := e.uid
      execSeen := true
      isProtected := if found then p.isProtected else false
      inheritedProtected := if found then p.inheritedProtected else false
      group := if found then p.group else .groupUnknown
      comm := snprintfString taskCommLen e.comm }
  let p := (processReadExe fs p).2
  (processReadCmdline fs p).2

/-- `process_upsert_exec`. -/
def processUpsertExec (e : Event) (fs : ProcFs) (t : ProcessTable) :
    Option (Fin procMax) × ProcessTable :=
  if e.pid ≤ 0 then
    (none, t)
  else
    match prepareUpsert t e.pid with
    | none => (none, t)
    | some (idx, found, t) => (some idx, t.setProc idx (execInfo e fs found (t.procTable idx)))

/-- The fresh record `process_upsert_fork` writes for the child. -/
def forkInfo (e : Event) : ProcInfo :=
  { ProcInfo.zero with
    used := true
    pid := e.childPid
    ppid := e.pid
    uid := e.uid
    group := .groupUnknown
    comm := snprintfString taskCommLen e.comm }

/-- The record with an inherited protection. -/
def ProcInfo.inherit (p : ProcInfo) : ProcInfo :=
  { p with
    isProtected := true
    inheritedProtected := true
    group := .groupProtected }

/-- The write of an inherited protection through the pointer `child`. -/
def inheritProtection (t : ProcessTable) (child : Fin procMax) : ProcessTable :=
  t.setProc child (t.procTable child).inherit

/-- The test `p && p->used && p->is_protected` of a pointer. -/
def pointsToProtected (t : ProcessTable) (p : Option (Fin procMax)) : Bool :=
  match p with
  | none => false
  | some i => (t.procTable i).used && (t.procTable i).isProtected

/-- `process_upsert_fork`: the pointer to the parent is taken before the child's
    slot is overwritten, and read after. -/
def processUpsertFork (e : Event) (t : ProcessTable) : Option (Fin procMax) × ProcessTable :=
  if e.pid ≤ 0 ∨ e.childPid ≤ 0 then
    (none, t)
  else
    let parent := processGet t e.pid
    match prepareUpsert t e.childPid with
    | none => (none, t)
    | some (child, _, t) =>
      let t := t.setProc child (forkInfo e)
      (some child, if pointsToProtected t parent then inheritProtection t child else t)

/-- `process_remove`. -/
def processRemove (t : ProcessTable) (pid : ℤ) : ProcessTable :=
  match findExistingSlot t pid with
  | none => t
  | some idx =>
    let t := t.setProc idx .zero
    let t := t.setState idx .tombstone
    if 0 < t.occupiedCount then { t with occupiedCount := t.occupiedCount - 1 } else t

end CgroupResearch
