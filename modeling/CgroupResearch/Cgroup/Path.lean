import CgroupResearch.Cgroup
import CgroupResearch.Lib.CString
import CgroupResearch.Lib.Prefix

/-!
# The paths of control files

The groups are directories under a base, which a test may set to a hierarchy of its own
(`cgroup_set_base_path`), and the daemon writes to the control files in them. Their paths are
built with `snprintf`, whose result tells whether the buffer was large enough.

The path of a control file is complete whenever `cgroup_control_path` returns `0`
(`controlPath_eq`). `cgroup_set_base_path` however checks the result of `snprintf` when the
base is already overwritten. An argument that is too long is refused, and the base is the
beginning of it (`base_is_last_set_iff`).
-/

namespace CgroupResearch

open CString

/-- `CGROUP_PATH_MAX`. -/
def cgroupPathMax : ℕ := 512

/-- `CGROUP_DEFAULT_BASE`. -/
def cgroupDefaultBase : List Char := "/sys/fs/cgroup/cgroup_research".toList

/-- What `snprintf` returns for a text: its length, if that is an `int`. -/
def snprintfWritten (text : List Char) : ℤ :=
  if text.length < 2 ^ 31 then text.length else -1

/-- `cgroup_set_base_path`, with what it leaves in `g_cgroup_base`. -/
def cgroupSetBasePath (gCgroupBase : List Char) (basePath : Option (List Char)) :
    ℤ × List Char :=
  match basePath with
  | none => (-1, gCgroupBase)
  | some path =>
    if cstr path = [] then
      (-1, gCgroupBase)
    else
      let written := snprintfWritten (cstr path)
      let gCgroupBase := snprintfString cgroupPathMax path
      if written < 0 ∨ cgroupPathMax ≤ written then (-1, gCgroupBase) else (0, gCgroupBase)

/-- `cgroup_group_dir`, with what it leaves in `out`. -/
def cgroupGroupDir (gCgroupBase : List Char) (group : ProcGroup) (out : List Char)
    (outSize : ℕ) : ℤ × List Char :=
  if outSize = 0 then
    (-1, out)
  else
    match groupToDirName group with
    | none => (-1, out)
    | some dirName =>
      let text := gCgroupBase ++ '/' :: dirName.toList
      let written := snprintfWritten text
      let out := text.take (outSize - 1)
      if written < 0 ∨ outSize ≤ written then (-1, out) else (0, out)

/-- `cgroup_control_path`, with what it leaves in `out`. -/
def cgroupControlPath (gCgroupBase : List Char) (group : ProcGroup)
    (controlFile : Option (List Char)) (out : List Char) (outSize : ℕ) : ℤ × List Char :=
  match controlFile with
  | none => (-1, out)
  | some file =>
    if cstr file = [] then
      (-1, out)
    else if '/' ∈ cstr file then
      (-1, out)
    else
      let (rc, dir) := cgroupGroupDir gCgroupBase group [] cgroupPathMax
      if rc ≠ 0 then
        (-1, out)
      else
        let text := dir ++ '/' :: cstr file
        let written := snprintfWritten text
        let out := if outSize = 0 then out else text.take (outSize - 1)
        if written < 0 ∨ outSize ≤ written then (-1, out) else (0, out)

/-! ## Paths -/

section

variable {base : List Char} {group : ProcGroup} {out : List Char} {outSize : ℕ}

/-- A text that `snprintf` did not cut. -/
theorem take_of_written {text : List Char} {size : ℕ}
    (h : ¬(snprintfWritten text < 0 ∨ (size : ℤ) ≤ snprintfWritten text)) :
    text.take (size - 1) = text ∧ size ≠ 0 := by
  rw [not_or, not_lt, not_le, snprintfWritten] at h
  split_ifs at h with hint
  · have hlt : text.length < size := by exact_mod_cast h.2
    exact ⟨List.take_of_length_le (by omega), by omega⟩
  · exact absurd h.1 (by decide)

/-- A directory of a group is the base path and the name. -/
theorem groupDir_eq (h : (cgroupGroupDir base group out outSize).1 = 0) :
    ∃ dirName, groupToDirName group = some dirName ∧
      (cgroupGroupDir base group out outSize).2 = base ++ '/' :: dirName.toList := by
  rw [cgroupGroupDir] at h ⊢
  split_ifs at h ⊢ with hsize
  · exact absurd h (neg_ne_zero.2 one_ne_zero)
  · cases hdir : groupToDirName group with
    | none =>
      rw [hdir] at h
      exact absurd h (neg_ne_zero.2 one_ne_zero)
    | some dirName =>
      rw [hdir] at h
      dsimp only at h ⊢
      split_ifs at h ⊢ with hwritten
      · exact absurd h (neg_ne_zero.2 one_ne_zero)
      · exact ⟨dirName, rfl, (take_of_written hwritten).1⟩

/-- A path that `cgroup_control_path` returns with `0` is complete. -/
theorem controlPath_eq {controlFile : Option (List Char)}
    (h : (cgroupControlPath base group controlFile out outSize).1 = 0) :
    ∃ dirName file, groupToDirName group = some dirName ∧ controlFile.map cstr = some file ∧
      '/' ∉ file ∧
      (cgroupControlPath base group controlFile out outSize).2 =
        base ++ '/' :: (dirName.toList ++ '/' :: file) := by
  cases controlFile with
  | none => exact absurd h (neg_ne_zero.2 one_ne_zero)
  | some file =>
    rw [cgroupControlPath] at h ⊢
    dsimp only at h ⊢
    by_cases hempty : cstr file = []
    · rw [if_pos hempty] at h
      exact absurd h (neg_ne_zero.2 one_ne_zero)
    rw [if_neg hempty] at h ⊢
    by_cases hslash : '/' ∈ cstr file
    · rw [if_pos hslash] at h
      exact absurd h (neg_ne_zero.2 one_ne_zero)
    rw [if_neg hslash] at h ⊢
    by_cases hdir : (cgroupGroupDir base group [] cgroupPathMax).1 = 0
    · rw [if_neg (not_not.2 hdir)] at h ⊢
      obtain ⟨dirName, hname, htext⟩ := groupDir_eq hdir
      rw [htext] at h ⊢
      refine ⟨dirName, cstr file, hname, rfl, hslash, ?_⟩
      by_cases hwritten : snprintfWritten (base ++ '/' :: dirName.toList ++ '/' :: cstr file) < 0 ∨
          (outSize : ℤ) ≤ snprintfWritten (base ++ '/' :: dirName.toList ++ '/' :: cstr file)
      · rw [if_pos hwritten] at h
        exact absurd h (neg_ne_zero.2 one_ne_zero)
      · obtain ⟨htake, hsize⟩ := take_of_written hwritten
        rw [if_neg hwritten, if_neg hsize, htake, List.append_assoc, List.cons_append]
    · rw [if_pos hdir] at h
      exact absurd h (neg_ne_zero.2 one_ne_zero)

end

/-! ## The base -/

/-- The base of a run of calls, and the argument of the last one that returned `0`. -/
structure BaseRun where
  base : List Char
  lastSet : List Char
  deriving DecidableEq, Repr

/-- A run, one call of `cgroup_set_base_path` later. -/
def BaseRun.call (r : BaseRun) (basePath : Option (List Char)) : BaseRun where
  base := (cgroupSetBasePath r.base basePath).2
  lastSet :=
    if (cgroupSetBasePath r.base basePath).1 = 0 then cstr (basePath.getD []) else r.lastSet

/-- The run of a sequence of calls. Before the first one, the base is the default. -/
def baseRun (calls : List (Option (List Char))) : BaseRun :=
  calls.foldl BaseRun.call ⟨cgroupDefaultBase, cgroupDefaultBase⟩

/-- A call that returns `-1` leaves the base unchanged. -/
def FailedKeepsBase (before : List (Option (List Char))) (basePath : Option (List Char)) : Prop :=
  (cgroupSetBasePath (baseRun before).base basePath).1 = -1 →
    (cgroupSetBasePath (baseRun before).base basePath).2 = (baseRun before).base

/-- The base is what the calls that returned `0` made it: it is the argument of the last of
    them, a call that returns `-1` leaves it unchanged, and a control path that is returned
    with `0` is a complete path under it. -/
structure BaseIsLastSet (calls : List (Option (List Char))) : Prop where
  base_eq : (baseRun calls).base = (baseRun calls).lastSet
  failed_eq : EachAfter FailedKeepsBase calls
  path_eq : ∀ group controlFile out outSize,
    (cgroupControlPath (baseRun calls).base group controlFile out outSize).1 = 0 →
    ∃ dirName file, groupToDirName group = some dirName ∧ controlFile.map cstr = some file ∧
      '/' ∉ file ∧
      (cgroupControlPath (baseRun calls).base group controlFile out outSize).2 =
        (baseRun calls).lastSet ++ '/' :: (dirName.toList ++ '/' :: file)

/-- The last of the arguments that is a path of fewer than `CGROUP_PATH_MAX` bytes, or the
    default. -/
def lastFitting (calls : List (Option (List Char))) : List Char :=
  (calls.filterMap fun basePath => (basePath.map cstr).filter fun path =>
    path ≠ [] ∧ path.length < cgroupPathMax).getLastD cgroupDefaultBase

/-- An argument that is too long begins with the last argument before it that was not. -/
def LongRepeatsBase (before : List (Option (List Char))) (basePath : Option (List Char)) : Prop :=
  ∀ path ∈ basePath, cgroupPathMax ≤ (cstr path).length →
    (cstr path).take (cgroupPathMax - 1) = lastFitting before

section

variable {calls : List (Option (List Char))} {basePath : Option (List Char)}

/-- The base path behind one more call. -/
theorem baseRun_concat : baseRun (calls ++ [basePath]) = (baseRun calls).call basePath :=
  List.foldl_concat _ _ _ _

/-- What a call does with its argument. -/
theorem setBasePath_cases (base : List Char) (basePath : Option (List Char)) :
    (cgroupSetBasePath base basePath = (-1, base) ∧ ∀ path ∈ basePath, cstr path = []) ∨
      ∃ path, basePath = some path ∧ cstr path ≠ [] ∧
        ((cgroupPathMax ≤ (cstr path).length ∧
            cgroupSetBasePath base basePath = (-1, (cstr path).take (cgroupPathMax - 1))) ∨
          ((cstr path).length < cgroupPathMax ∧
            cgroupSetBasePath base basePath = (0, cstr path))) := by
  cases basePath with
  | none => exact .inl ⟨rfl, fun path hpath => absurd hpath (Option.not_mem_none path)⟩
  | some path =>
    rw [cgroupSetBasePath]
    dsimp only
    by_cases hempty : cstr path = []
    · refine .inl ⟨if_pos hempty, fun path' hpath => ?_⟩
      rwa [← Option.mem_some_iff.1 hpath]
    · refine .inr ⟨path, rfl, hempty, ?_⟩
      rw [if_neg hempty]
      split_ifs with hwritten
      · refine .inl ⟨?_, rfl⟩
        rw [snprintfWritten] at hwritten
        split_ifs at hwritten with hint
        · omega
        · rw [cgroupPathMax]
          omega
      · refine .inr ⟨?_, ?_⟩
        · rw [snprintfWritten] at hwritten
          split_ifs at hwritten with hint <;> omega
        · rw [snprintfString, (take_of_written hwritten).1]

/-- A path that fits is the last one. -/
theorem lastFitting_concat_some {path : List Char} (hne : cstr path ≠ [])
    (hlt : (cstr path).length < cgroupPathMax) :
    lastFitting (calls ++ [some path]) = cstr path := by
  simp [lastFitting, Option.filter, hne, hlt]

/-- Another path is not. -/
theorem lastFitting_concat_of_not
    (h : ∀ path ∈ basePath, ¬(cstr path ≠ [] ∧ (cstr path).length < cgroupPathMax)) :
    lastFitting (calls ++ [basePath]) = lastFitting calls := by
  cases basePath with
  | none => simp [lastFitting]
  | some path =>
    have hnot := h path rfl
    rw [lastFitting, List.filterMap_append, List.filterMap_cons_none, List.filterMap_nil,
      List.append_nil, lastFitting]
    rw [Option.map_some, Option.filter_some, if_neg (by simpa using hnot)]

/-- The last argument that fitted is the one of the last call that returned `0`. -/
theorem lastSet_eq (calls : List (Option (List Char))) :
    (baseRun calls).lastSet = lastFitting calls := by
  induction calls using List.reverseRecOn with
  | nil => rfl
  | append_singleton calls basePath ih =>
    rw [baseRun_concat, BaseRun.call]
    dsimp only
    rcases setBasePath_cases (baseRun calls).base basePath with
      ⟨heq, hnone⟩ | ⟨path, rfl, hne, ⟨hlong, heq⟩ | ⟨hfits, heq⟩⟩
    · rw [heq, if_neg (neg_ne_zero.2 one_ne_zero), ih, lastFitting_concat_of_not]
      exact fun path hpath hfit => hfit.1 (hnone path hpath)
    · rw [heq, if_neg (neg_ne_zero.2 one_ne_zero), ih, lastFitting_concat_of_not]
      exact fun path' hpath hfit => absurd hfit.2 (not_lt.2 (Option.mem_some_iff.1 hpath ▸ hlong))
    · rw [heq, if_pos rfl, lastFitting_concat_some hne hfits]
      rfl

/-- Where no call that fails changes the base, it is the last argument that fitted. -/
theorem base_eq_lastSet (h : EachAfter FailedKeepsBase calls) :
    (baseRun calls).base = (baseRun calls).lastSet := by
  induction calls using List.reverseRecOn with
  | nil => rfl
  | append_singleton calls basePath ih =>
    obtain ⟨hcalls, hlast⟩ := EachAfter.concat_iff.1 h
    rw [baseRun_concat, BaseRun.call]
    dsimp only
    rcases setBasePath_cases (baseRun calls).base basePath with
      ⟨heq, -⟩ | ⟨path, rfl, -, ⟨-, heq⟩ | ⟨-, heq⟩⟩
    · rw [heq, if_neg (neg_ne_zero.2 one_ne_zero)]
      exact ih hcalls
    · rw [FailedKeepsBase, heq] at hlast
      rw [heq, if_neg (neg_ne_zero.2 one_ne_zero), hlast rfl]
      exact ih hcalls
    · rw [heq, if_pos rfl]
      rfl

/-- A failure keeps the base path just if a path that is too long repeats its first bytes. -/
theorem failedKeepsBase_iff (calls : List (Option (List Char))) :
    EachAfter FailedKeepsBase calls ↔ EachAfter LongRepeatsBase calls := by
  induction calls using List.reverseRecOn with
  | nil => exact ⟨fun _ => EachAfter.nil, fun _ => EachAfter.nil⟩
  | append_singleton calls basePath ih =>
    rw [EachAfter.concat_iff, EachAfter.concat_iff, ← ih]
    refine and_congr_right fun hcalls => ?_
    -- up to here the base is the last argument that fitted
    rw [FailedKeepsBase, LongRepeatsBase, base_eq_lastSet hcalls, lastSet_eq]
    rcases setBasePath_cases (lastFitting calls) basePath with
      ⟨heq, hnone⟩ | ⟨path, rfl, -, ⟨hlong, heq⟩ | ⟨hfits, heq⟩⟩
    · rw [heq]
      refine ⟨fun _ path hpath hlong => ?_, fun _ _ => rfl⟩
      rw [hnone path hpath] at hlong
      exact absurd hlong (by decide)
    · rw [heq]
      refine ⟨fun h path' hpath _ => Option.mem_some_iff.1 hpath ▸ h rfl, fun h _ => ?_⟩
      exact h path rfl hlong
    · rw [heq]
      refine ⟨fun _ path' hpath hlong => ?_, fun _ h0 => absurd h0.symm (neg_ne_zero.2 one_ne_zero)⟩
      exact absurd hfits (not_lt.2 (Option.mem_some_iff.1 hpath ▸ hlong))

end

/-- **When the base is the last one set.** The base is the argument of the last call that
    returned `0`, calls that fail leave it unchanged, and the control paths lie under it, iff
    every argument that is too long begins with the base that it is to leave unchanged. -/
theorem base_is_last_set_iff (calls : List (Option (List Char))) :
    BaseIsLastSet calls ↔ EachAfter LongRepeatsBase calls := by
  rw [← failedKeepsBase_iff]
  constructor
  · intro h
    exact h.failed_eq
  · intro h
    have hbase := base_eq_lastSet h
    refine ⟨hbase, h, fun group controlFile out outSize hzero => ?_⟩
    rw [← hbase]
    exact controlPath_eq hzero

/-- A path of 512 bytes is refused, and its first 511 bytes are the base from then on. -/
theorem long_path_changes_base : ¬BaseIsLastSet [some (List.replicate 512 'a')] := by
  intro h
  have hkeeps := h.failed_eq [] (some (List.replicate 512 'a')) [] rfl (by decide +kernel)
  exact absurd hkeeps (by decide +kernel)

end CgroupResearch
