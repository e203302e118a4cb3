import CgroupResearch.Process.Table

/-!
# The protection policy

The list of protected command names, read from the configuration file, and the
group of a process (`policy.c`).
-/

namespace CgroupResearch

open CString

/-- `MAX_PROTECTED`. -/
def maxProtected : ℕ := 128

/-- `trim_line`: the line is cut at the first carriage return or newline, and the
    spaces around it are removed. -/
def trimLine (s : List Char) : List Char :=
  (((cstr s).takeWhile fun c => c ≠ '\r' ∧ c ≠ '\n').dropWhile isspace).rdropWhile isspace

/-- One line of the configuration, added to the protected names. -/
def policyLoadLine (protectedComm : List (List Char)) (line : List Char) : List (List Char) :=
  match trimLine line with
  | [] => protectedComm
  | c :: cs =>
    if c = '#' then
      protectedComm
    else if maxProtected ≤ protectedComm.length then
      protectedComm
    else
      protectedComm ++ [snprintfString taskCommLen (c :: cs)]

/-- `policy_load_config`: the protected names that the content of the file gives;
    its lines are read with a buffer of 256 bytes. -/
def policyLoadConfig (content : List Char) : List (List Char) :=
  (fgetsLines 256 content []).foldl policyLoadLine []

/-- `policy_is_ignored`. -/
def policyIsIgnored (p : ProcInfo) : Bool := decide (p.pid ≤ 2) || decide (p.comm = [])

/-- `policy_is_protected`. -/
def policyIsProtected (protectedComm : List (List Char)) (p : ProcInfo) : Bool :=
  protectedComm.any fun c => p.comm = c

/-- `policy_decide_group`. -/
def policyDecideGroup (protectedComm : List (List Char)) (p : ProcInfo) : ProcGroup :=
  if policyIsIgnored p then
    .groupIgnored
  else if p.isProtected || policyIsProtected protectedComm p then
    .groupProtected
  else
    .groupBackground

end CgroupResearch
