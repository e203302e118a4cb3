import Mathlib.Tactic

/-!
# Control groups

The groups the daemon sorts processes into, and the writes to `cgroup.procs`
that move a process between them (`cgroup.c`). What the file system does is an
input of the model: a write that the code attempts succeeds or fails as the
environment decides.
-/

namespace CgroupResearch

/-- `enum proc_group`. The value of `groupProtected` is `0`, which is what a
    `memset` leaves. -/
inductive ProcGroup
  | groupProtected
  | groupBackground
  | groupThrottled
  | groupIgnored
  | groupUnknown
  deriving DecidableEq, Repr

/-- The directory of a group under the base, for the groups that have one. -/
def groupToDirName : ProcGroup → Option String
  | .groupProtected => some "protected"
  | .groupBackground => some "background"
  | .groupThrottled => some "throttled"
  | _ => none

/-- A call of `cgroup_move_pid`, with whether it returned `0`. -/
structure CgroupMove where
  pid : ℤ
  group : ProcGroup
  ok : Bool
  deriving DecidableEq, Repr

/-- `cgroup_move_pid`: it fails on a pid that is not positive or a group without
    a directory, and otherwise as the write of the control file (`written`). -/
def cgroupMovePid (written : Bool) (pid : ℤ) (group : ProcGroup) : CgroupMove where
  pid := pid
  group := group
  ok := decide (0 < pid) && (groupToDirName group).isSome && written

end CgroupResearch
