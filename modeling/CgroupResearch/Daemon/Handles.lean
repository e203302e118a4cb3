import CgroupResearch.Calibrate.Reader
import CgroupResearch.Daemon.CandidateFilter
import CgroupResearch.Detector.Activity
import CgroupResearch.Lib.Handles
import CgroupResearch.Profile.Conserved
import CgroupResearch.Profile.Translate

/-!
# Open files

The functions of the sampling loop that read files, with the handles they open and close.
Each one is written out once more, with its early returns, and *does* (`Handles.Does`) what
its model without handles returns: the handles are all that is added.

* `bank_profile_build`, `candidate_filter_classify_pid`, `process_upsert_exec` and
  `calibration_load_result` close what they open, on every path;
* `proc_activity_sample_now` closes `/proc/[pid]/stat` only if there is no line to read. Once
  it has read one, it returns with the file open, whatever it makes of the line.

A sequence of calls therefore leaves as many handles open as it has samples that read their
line (`after_handles`).
-/

namespace CgroupResearch

open CString Handles Machine

/-! ## Activity samples -/

/-- `proc_activity_sample_now`, with its handle. -/
def procActivitySampleNowWithHandles (env : StatEnv) (pid : ℤ) :
    HandleM (Except ProcActivityRc ProcActivitySample) :=
  if pid ≤ 0 then
    return .error .errInvalidArg
  else if env.pageSize ≤ 0 ∨ env.clockTicks ≤ 0 then
    return .error .errSysconf
  else
    match getTimeNs env.clock with
    | .error rc => return .error rc
    | .ok timestampNs =>
      match env.stat with
      | none => return .error .errOpen
      | some text => do
        opened
        match (fgetsLines procActivityStatLineMax text []).head? with
        | none =>
          closed
          return .error .errRead
        | some line =>
          -- none of the returns from here on is after an `fclose`
          return parseStatLine (cstr line) { procActivitySampleReset with
            pid := pid
            timestampNs := timestampNs
            clockTicksPerSec := env.clockTicks
            pageSize := UInt64.ofNat env.pageSize.toNat }

/-- The line of `/proc/[pid]/stat` is read: the arguments and the system let
    `proc_activity_sample_now` open the file, and it is not empty. -/
def StatEnv.readsLine (env : StatEnv) (pid : ℤ) : Bool :=
  decide (0 < pid) && decide (0 < env.pageSize) && decide (0 < env.clockTicks) &&
    env.clock.isSome && env.stat.any fun text => !text.isEmpty

/-- Reading the statistics of a process leaves its file open once the line is read. -/
theorem does_procActivitySampleNow (env : StatEnv) (pid : ℤ) :
    Does (procActivitySampleNowWithHandles env pid) (procActivitySampleNow env pid)
      (if env.readsLine pid then 1 else 0) := by
  rw [procActivitySampleNowWithHandles, procActivitySampleNow]
  by_cases hpid : pid ≤ 0
  · have hreads : env.readsLine pid = false := by simp [StatEnv.readsLine, hpid]
    rw [if_pos hpid, if_pos hpid, hreads]
    exact does_pure _
  rw [if_neg hpid, if_neg hpid]
  by_cases hconf : env.pageSize ≤ 0 ∨ env.clockTicks ≤ 0
  · have hreads : env.readsLine pid = false := by
      rcases hconf with h | h <;> simp [StatEnv.readsLine, h]
    rw [if_pos hconf, if_pos hconf, hreads]
    exact does_pure _
  rw [if_neg hconf, if_neg hconf]
  cases hclock : env.clock with
  | none =>
    have hreads : env.readsLine pid = false := by simp [StatEnv.readsLine, hclock]
    rw [hreads]
    exact does_pure _
  | some time =>
    obtain ⟨sec, nsec⟩ := time
    cases hstat : env.stat with
    | none =>
      have hreads : env.readsLine pid = false := by simp [StatEnv.readsLine, hstat]
      rw [hreads]
      exact does_pure _
    | some text =>
      rw [not_or, not_le, not_le] at hconf
      have hreads : env.readsLine pid = !text.isEmpty := by
        simp [StatEnv.readsLine, hstat, hclock, hconf, not_le.1 hpid]
      rw [hreads]
      cases hline : (fgetsLines procActivityStatLineMax text []).head? with
      | none =>
        have hnil := (fgetsLines_eq_nil_iff.1 (List.head?_eq_none_iff.1 hline)).1
        subst hnil
        exact .after_opened (.after_closed (does_pure _))
      | some line =>
        have hne : text ≠ [] := by
          rintro rfl
          cases hline
        have hopen : (if (!text.isEmpty) = true then (1 : ℤ) else 0) = 1 := by simp [hne]
        rw [hopen]
        dsimp only [getTimeNs, Option.elim, bind, Except.bind]
        rw [hline]
        exact .after_opened (does_pure _)

/-! ## Profiles -/

/-- What `addr_translate_open` meets in the system: the result of `sysconf` and that of `open`. -/
structure PagemapEnv where
  pageSizeLong : ℤ
  fd : ℤ
  deriving DecidableEq, Repr

/-- `addr_translate_reset`. -/
def addrTranslateReset : AddrTranslateCtx := ⟨-1, -1, 0⟩

/-- `addr_translate_open`, with its handle. -/
def addrTranslateOpen (env : PagemapEnv) (ctx : AddrTranslateCtx) (pid : ℤ) :
    HandleM (AddrTranslateRc × AddrTranslateCtx) :=
  if pid ≤ 0 then
    return (.errInvalidArg, ctx)
  else if env.pageSizeLong ≤ 0 then
    return (.errPageSize, addrTranslateReset)
  else if env.fd < 0 then
    return (.errOpen, addrTranslateReset)
  else do
    opened
    return (.ok, ⟨pid, env.fd, UInt64.ofNat env.pageSizeLong.toNat⟩)

/-- `addr_translate_close`, with its handle. -/
def addrTranslateClose (ctx : AddrTranslateCtx) : HandleM AddrTranslateCtx :=
  if 0 ≤ ctx.pagemapFd then do
    closed
    return addrTranslateReset
  else
    return addrTranslateReset

/-- `bank_profile_build`, with its handles: that of `maps` and that of `pagemap`. -/
def bankProfileBuildWithHandles (fuel : ℕ) (env : BuildEnv) (pagemap : PagemapEnv) (pid : ℤ)
    (mapping : DramMapping) (cfg : Option BankProfileConfig) (out : BankProfile) :
    HandleM (Option Sampling) :=
  if pid ≤ 0 then
    return some ⟨.errInvalidArg, out, []⟩
  else if dramMappingIsReady mapping = false then
    return some ⟨.errNotReady, out, []⟩
  else
    let out := { bankProfileReset with pid := pid }
    let cfg := buildConfig cfg
    if env.pageSizeLong ≤ 0 then
      return some ⟨.errPageSize, profileSetError out "failed to get page size", []⟩
    else
      let out := { out with pageSize := UInt64.ofNat env.pageSizeLong.toNat }
      match env.maps with
      | none =>
        return some ⟨.errOpenMaps, profileSetError out "failed to open /proc/[pid]/maps", []⟩
      | some maps => do
        opened
        let (rc, ctx) ← addrTranslateOpen pagemap addrTranslateReset pid
        if rc ≠ .ok then
          closed
          return some ⟨.errAddrOpen, profileSetError out (addrTranslateStrerror rc), []⟩
        else
          match mapsLoop fuel env.translate mapping cfg (fgetsLines 1024 maps []) out [] with
          | none => return none
          | some ⟨.ok, out, queries⟩ =>
            if env.mapsError then
              let _ ← addrTranslateClose ctx
              closed
              return some ⟨.errIo, profileSetError out "error while reading /proc/[pid]/maps", queries⟩
            else
              let _ ← addrTranslateClose ctx
              closed
              let out := profileFinalize out
              if out.counters.pagesTranslated = 0 ∨ out.entries.length = 0 then
                return some ⟨.errNoSamples,
                  profileSetError out "no pages were translated into bank classes", queries⟩
              else
                return some ⟨.ok, out, queries⟩
          | some s =>
            let _ ← addrTranslateClose ctx
            closed
            return some s

/-- What `addr_translate_open` returns. -/
def PagemapEnv.openRc (env : PagemapEnv) : AddrTranslateRc :=
  if env.pageSizeLong ≤ 0 then .errPageSize else if env.fd < 0 then .errOpen else .ok

/-- `addr_translate_open` leaves a handle open exactly if it succeeds, and one that
    `addr_translate_close` closes. -/
theorem does_addrTranslateOpen (env : PagemapEnv) {pid : ℤ} (hpid : 0 < pid) :
    ∃ ctx, Does (addrTranslateOpen env addrTranslateReset pid) (env.openRc, ctx)
        (if env.openRc = .ok then 1 else 0) ∧
      (env.openRc = .ok → Does (addrTranslateClose ctx) addrTranslateReset (-1)) := by
  rw [addrTranslateOpen, if_neg (not_le.2 hpid), PagemapEnv.openRc]
  by_cases hsize : env.pageSizeLong ≤ 0
  · rw [if_pos hsize, if_pos hsize]
    exact ⟨_, does_pure _, fun h => absurd h (by decide)⟩
  rw [if_neg hsize, if_neg hsize]
  by_cases hfd : env.fd < 0
  · rw [if_pos hfd, if_pos hfd]
    exact ⟨_, does_pure _, fun h => absurd h (by decide)⟩
  · rw [if_neg hfd, if_neg hfd]
    refine ⟨_, .after_opened (does_pure _), fun _ => ?_⟩
    rw [addrTranslateClose, if_pos (not_lt.1 hfd)]
    exact .after_closed (does_pure _)

/-- The paths of `bank_profile_build` that close both files. -/
theorem does_closeBoth {ctx : AddrTranslateCtx}
    (hclose : Does (addrTranslateClose ctx) addrTranslateReset (-1)) (s : Option Sampling) :
    Does (do let _ ← addrTranslateClose ctx; closed; return s) s (-2) :=
  hclose.bind (.after_closed (does_pure _))

/-- Building a profile closes what it opens. -/
theorem does_bankProfileBuild {fuel : ℕ} {env : BuildEnv} (pagemap : PagemapEnv) {pid : ℤ}
    {mapping : DramMapping} {cfg : Option BankProfileConfig} {out : BankProfile}
    (hreturns : (bankProfileBuild fuel { env with addrOpen := pagemap.openRc } pid mapping cfg
      out).isSome) :
    Does (bankProfileBuildWithHandles fuel env pagemap pid mapping cfg out)
      (bankProfileBuild fuel { env with addrOpen := pagemap.openRc } pid mapping cfg out) 0 := by
  rw [bankProfileBuild] at hreturns ⊢
  rw [bankProfileBuildWithHandles]
  by_cases hpid : pid ≤ 0
  · rw [if_pos hpid, if_pos hpid]
    exact does_pure _
  rw [if_neg hpid] at hreturns ⊢
  rw [if_neg hpid]
  by_cases hready : dramMappingIsReady mapping = false
  · rw [if_pos hready, if_pos hready]
    exact does_pure _
  rw [if_neg hready] at hreturns ⊢
  rw [if_neg hready]
  dsimp only at hreturns ⊢
  by_cases hsize : env.pageSizeLong ≤ 0
  · rw [if_pos hsize, if_pos hsize]
    exact does_pure _
  rw [if_neg hsize] at hreturns ⊢
  rw [if_neg hsize]
  cases hmaps : env.maps with
  | none => exact does_pure _
  | some maps =>
    rw [hmaps] at hreturns
    dsimp only at hreturns ⊢
    obtain ⟨ctx, hopen, hclose⟩ := does_addrTranslateOpen pagemap (not_le.1 hpid)
    refine .after_opened (hopen.bind ?_)
    dsimp only
    by_cases hrc : pagemap.openRc = .ok
    · rw [if_pos hrc, if_neg (not_not.2 hrc), if_neg (not_not.2 hrc)]
      rw [if_neg (not_not.2 hrc)] at hreturns
      cases hloop : mapsLoop fuel env.translate mapping (buildConfig cfg) (fgetsLines 1024 maps [])
          { bankProfileReset with
            pid := pid, pageSize := UInt64.ofNat env.pageSizeLong.toNat } [] with
      | none =>
        rw [hloop] at hreturns
        cases hreturns
      | some s =>
        obtain ⟨rc, p, queries⟩ := s
        have hboth := does_closeBoth (hclose hrc)
        cases rc with
        | ok =>
          dsimp only
          split
          · exact hboth _
          · split <;> exact hboth _
        | _ => exact hboth _
    · rw [if_neg hrc, if_pos hrc, if_pos hrc]
      exact .after_closed (does_pure _)

/-! ## Candidates -/

/-- `read_cgroup_v2_path`, with its handle. -/
def readCgroupV2PathWithHandles (pid : ℤ) (file : Option (List Char)) (fclose : Bool) :
    HandleM (Option (List Char)) :=
  if pid ≤ 0 then
    return none
  else
    match file with
    | none => return none
    | some content => do
      opened
      match (fgetsLines cgroupLineMax content []).find? fun line => "0::".toList.isPrefixOf line with
      | none =>
        closed
        return none
      | some line =>
        let path := (cstr (line.drop 3)).takeWhile fun c => c ≠ '\r' ∧ c ≠ '\n'
        if path.length = 0 ∨ cgroupPathMaxLocal ≤ path.length then
          closed
          return none
        else
          closed
          if fclose = false then
            return none
          else
            return some path

/-- `candidate_filter_classify_pid`, with its handle. -/
def candidateFilterClassifyPidWithHandles (p : ProcInfo) (daemonPid : ℤ)
    (file : Option (List Char)) (fclose : Bool) : HandleM CandidateFilterResult :=
  if processRecordIsValid p = false then
    return ⟨.filterExcluded, .invalidProcess⟩
  else if 0 < daemonPid ∧ p.pid = daemonPid then
    return ⟨.filterExcluded, .daemonSelf⟩
  else if processRecordIsProtected p then
    return ⟨.filterProtected, .none⟩
  else do
    match ← readCgroupV2PathWithHandles p.pid file fclose with
    | none => return ⟨.filterExcluded, .cgroupUnavailable⟩
    | some path => return candidateFilterClassifyPath p daemonPid (some path)

/-- Reading the path of a group closes the file. -/
theorem does_readCgroupV2Path (pid : ℤ) (file : Option (List Char)) (fclose : Bool) :
    Does (readCgroupV2PathWithHandles pid file fclose) (readCgroupV2Path pid file fclose) 0 := by
  rw [readCgroupV2PathWithHandles.eq_def, readCgroupV2Path.eq_def]
  split
  · exact does_pure _
  cases file with
  | none => exact does_pure _
  | some content =>
    refine .after_opened ?_
    dsimp only
    cases (fgetsLines cgroupLineMax content []).find? fun line => "0::".toList.isPrefixOf line with
    | none => exact .after_closed (does_pure _)
    | some line =>
      dsimp only
      generalize (cstr (line.drop 3)).takeWhile _ = path
      split
      · next hlength =>
        rw [if_pos (hlength.imp_right .inl)]
        exact .after_closed (does_pure _)
      · next hlength =>
        rw [not_or] at hlength
        refine .after_closed ?_
        split
        · next hclose =>
          rw [if_pos (.inr (.inr hclose))]
          exact does_pure _
        · next hclose =>
          rw [if_neg (not_or.2 ⟨hlength.1, not_or.2 ⟨hlength.2, hclose⟩⟩)]
          exact does_pure _

theorem does_candidateFilterClassifyPid (p : ProcInfo) (daemonPid : ℤ) (file : Option (List Char))
    (fclose : Bool) :
    Does (candidateFilterClassifyPidWithHandles p daemonPid file fclose)
      (candidateFilterClassifyPid p daemonPid file fclose) 0 := by
  rw [candidateFilterClassifyPidWithHandles, candidateFilterClassifyPid]
  split
  · exact does_pure _
  split
  · exact does_pure _
  split
  · exact does_pure _
  refine (does_readCgroupV2Path p.pid file fclose).bind ?_
  cases readCgroupV2Path p.pid file fclose <;> exact does_pure _

/-! ## Processes -/

/-- `process_read_cmdline`, with its handle. -/
def processReadCmdlineWithHandles (fs : ProcFs) (p : ProcInfo) : HandleM (ℤ × ProcInfo) :=
  if p.pid ≤ 0 then
    return (-1, p)
  else
    match fs.cmdline with
    | none => return (-1, { p with cmdline := [] })
    | some bytes => do
      opened
      let read := bytes.take (cmdlineMax - 1)
      closed
      if fs.cmdlineClosed = false then
        return (-1, { p with cmdline := [] })
      else if read = [] then
        return (-1, { p with cmdline := [] })
      else
        return (0, { p with cmdline := read.map fun c => if c = '\x00' then ' ' else c })

/-- The end of `process_upsert_exec`, with its handle: `process_read_exe`, which opens nothing,
    and `process_read_cmdline`. -/
def execInfoWithHandles (e : Event) (fs : ProcFs) (found : Bool) (p : ProcInfo) :
    HandleM ProcInfo := do
  let p : ProcInfo :=
    { ProcInfo.zero with
      used := true
      pid := e.pid
      ppid := e.ppid
      uid := e.uid
      execSeen := true
      isProtected := if found then p.isProtected else false
      inheritedProtected := if found then p.inheritedProtected else false
      group := if found then p.group else .groupUnknown
      comm := snprintfString taskCommLen e.comm }
  let p := (processReadExe fs p).2
  let (_, p) ← processReadCmdlineWithHandles fs p
  return p

/-- `process_upsert_exec`, with its handle. -/
def processUpsertExecWithHandles (e : Event) (fs : ProcFs) (t : ProcessTable) :
    HandleM (Option (Fin procMax) × ProcessTable) :=
  if e.pid ≤ 0 then
    return (none, t)
  else
    match prepareUpsert t e.pid with
    | none => return (none, t)
    | some (idx, found, t) => do
      let p ← execInfoWithHandles e fs found (t.procTable idx)
      return (some idx, t.setProc idx p)

/-- Reading a command line closes the file. -/
theorem does_processReadCmdline (fs : ProcFs) (p : ProcInfo) :
    Does (processReadCmdlineWithHandles fs p) (processReadCmdline fs p) 0 := by
  rw [processReadCmdlineWithHandles, processReadCmdline]
  split
  · exact does_pure _
  cases fs.cmdline with
  | none => exact does_pure _
  | some bytes =>
    refine .after_opened (.after_closed ?_)
    dsimp only
    split
    · next hclosed =>
      rw [if_pos (.inl hclosed)]
      exact does_pure _
    split
    · next hread =>
      rw [if_pos (.inr hread)]
      exact does_pure _
    · next hclosed hread =>
      rw [if_neg (not_or.2 ⟨hclosed, hread⟩)]
      exact does_pure _

theorem does_processUpsertExec (e : Event) (fs : ProcFs) (t : ProcessTable) :
    Does (processUpsertExecWithHandles e fs t) (processUpsertExec e fs t) 0 := by
  rw [processUpsertExecWithHandles, processUpsertExec]
  split
  · exact does_pure _
  cases prepareUpsert t e.pid with
  | none => exact does_pure _
  | some found =>
    obtain ⟨idx, found, t⟩ := found
    have hinfo : Does (execInfoWithHandles e fs found (t.procTable idx))
        (execInfo e fs found (t.procTable idx)) 0 :=
      (does_processReadCmdline fs _).bind (does_pure _)
    exact hinfo.bind (does_pure _)

/-! ## Calibration results -/

/-- What `read_file_limited` meets in the system: whether the file opens, the results of the two
    `fseek`s, of `ftell`, of `calloc` and of `fclose`, and the bytes that `fread` reads. -/
structure ResultFile where
  fopen : Bool
  fseekEnd : Bool
  ftell : ℤ
  fseekSet : Bool
  calloc : Bool
  fread : List Char
  fclose : Bool
  deriving DecidableEq, Repr

/-- `read_file_limited`, with its handle. -/
def readFileLimitedWithHandles (file : ResultFile) : HandleM (Except CalibrationRc (List Char)) :=
  if file.fopen = false then
    return .error .errIo
  else do
    opened
    if file.fseekEnd = false then
      closed
      return .error .errIo
    else if file.ftell < 0 ∨ calibrationJsonMaxBytes < file.ftell then
      closed
      return .error .errIo
    else if file.fseekSet = false then
      closed
      return .error .errIo
    else if file.calloc = false then
      closed
      return .error .errIo
    else if (file.fread.length : ℤ) ≠ file.ftell then
      closed
      return .error .errIo
    else
      closed
      if file.fclose = false then
        return .error .errIo
      else
        return .ok file.fread

/-- `calibration_load_result`, with its handle: it opens no file once the text is read. -/
def calibrationLoadResultWithHandles (resultPath : List Char) (file : ResultFile) :
    HandleM (CalibrationRc × CalibrationResult) := do
  let json ← readFileLimitedWithHandles file
  return calibrationLoadResult resultPath json.toOption

/-- What is read of a file, if it can be read. -/
def ResultFile.content (file : ResultFile) : Option (List Char) :=
  if file.fopen ∧ file.fseekEnd ∧ file.fseekSet ∧ file.calloc ∧ file.fclose ∧
      (file.fread.length : ℤ) = file.ftell then
    some file.fread
  else
    none

/-- A call that fails leaves nothing to be read. -/
theorem readFileLimited_content_of_not {file : ResultFile}
    (h : ¬(file.fopen ∧ file.fseekEnd ∧ file.fseekSet ∧ file.calloc ∧ file.fclose ∧
      (file.fread.length : ℤ) = file.ftell)) :
    readFileLimited file.content = .error .errIo := by
  rw [ResultFile.content, if_neg h, readFileLimited]

/-- Reading a result closes the file. -/
theorem does_readFileLimited (file : ResultFile) :
    Does (readFileLimitedWithHandles file) (readFileLimited file.content) 0 := by
  rw [readFileLimitedWithHandles]
  split
  · next hopen =>
    rw [readFileLimited_content_of_not (by simp [hopen])]
    exact does_pure _
  refine .after_opened ?_
  split
  · next hend =>
    rw [readFileLimited_content_of_not (by simp [hend])]
    exact .after_closed (does_pure _)
  split
  · -- too large, the file is refused whether it can be read or not
    next hsize =>
    have herror : readFileLimited file.content = .error .errIo := by
      rw [ResultFile.content]
      split
      · next hall =>
        rw [readFileLimited, if_pos (by omega)]
      · rfl
    rw [herror]
    exact .after_closed (does_pure _)
  split
  · next hset =>
    rw [readFileLimited_content_of_not (by simp [hset])]
    exact .after_closed (does_pure _)
  split
  · next hcalloc =>
    rw [readFileLimited_content_of_not (by simp [hcalloc])]
    exact .after_closed (does_pure _)
  split
  · next hread =>
    rw [readFileLimited_content_of_not (by simp [hread])]
    exact .after_closed (does_pure _)
  refine .after_closed ?_
  split
  · next hclose =>
    rw [readFileLimited_content_of_not (by simp [hclose])]
    exact does_pure _
  next hopen hend hsize hset hcalloc hread hclose =>
    rw [ResultFile.content, if_pos ⟨by simpa using hopen, by simpa using hend, by simpa using hset,
      by simpa using hcalloc, by simpa using hclose, not_not.1 hread⟩,
      readFileLimited_of_le (by omega)]
    exact does_pure _

/-- What is read once is read again. -/
theorem readFileLimited_toOption (file : Option (List Char)) :
    readFileLimited (readFileLimited file).toOption = readFileLimited file := by
  cases file with
  | none => rfl
  | some bytes =>
    by_cases hsize : bytes.length ≤ calibrationJsonMaxBytes
    · rw [readFileLimited_of_le hsize]
      exact readFileLimited_of_le hsize
    · have herror : readFileLimited (some bytes) = .error .errIo := if_pos (not_le.1 hsize)
      rw [herror]
      rfl

theorem does_calibrationLoadResult (resultPath : List Char) (file : ResultFile) :
    Does (calibrationLoadResultWithHandles resultPath file)
      (calibrationLoadResult resultPath file.content) 0 := by
  have hload : calibrationLoadResult resultPath (readFileLimited file.content).toOption =
      calibrationLoadResult resultPath file.content := by
    rw [calibrationLoadResult, calibrationLoadResult, readFileLimited_toOption]
  rw [← hload]
  exact (does_readFileLimited file).bind (does_pure _)

/-! ## Sequences of calls -/

/-- The calls of the sampling loop, with all that they meet in the system. A page is more than
    one byte, and its size is a `long`. -/
inductive SamplingCall
  | sampleNow (env : StatEnv) (pid : ℤ)
  | build (env : BuildEnv) (hpage : env.pageSizeLong ≠ 1) (hlong : env.pageSizeLong < 2 ^ 63)
      (pagemap : PagemapEnv) (pid : ℤ) (mapping : DramMapping) (cfg : Option BankProfileConfig)
      (out : BankProfile)
  | classifyPid (p : ProcInfo) (daemonPid : ℤ) (file : Option (List Char)) (fclose : Bool)
  | upsertExec (e : Event) (fs : ProcFs)
  | loadResult (resultPath : List Char) (file : ResultFile)

/-- What the calls work on: the open handles, and the process table. -/
structure SamplingState where
  handles : ℤ
  table : ProcessTable

/-- The results of the calls. -/
inductive SamplingResult
  | sample (result : Except ProcActivityRc ProcActivitySample)
  | profile (result : Option Sampling)
  | candidate (result : CandidateFilterResult)
  | process (result : Option (Fin procMax))
  | calibration (result : CalibrationRc × CalibrationResult)

/-- Enough steps for every region: see `bankProfileBuild_isSome`. -/
def buildFuel : ℕ := 2 ^ 63 + 1

/-- A call, with its handles. -/
def SamplingCall.run (t : ProcessTable) : SamplingCall → HandleM (SamplingResult × ProcessTable)
  | .sampleNow env pid => do
    let result ← procActivitySampleNowWithHandles env pid
    return (.sample result, t)
  | .build env _ _ pagemap pid mapping cfg out => do
    let result ← bankProfileBuildWithHandles buildFuel env pagemap pid mapping cfg out
    return (.profile result, t)
  | .classifyPid p daemonPid file fclose => do
    let result ← candidateFilterClassifyPidWithHandles p daemonPid file fclose
    return (.candidate result, t)
  | .upsertExec e fs => do
    let (result, t) ← processUpsertExecWithHandles e fs t
    return (.process result, t)
  | .loadResult resultPath file => do
    let result ← calibrationLoadResultWithHandles resultPath file
    return (.calibration result, t)

/-- One call of a sequence. -/
def samplingStep (s : SamplingState) (c : SamplingCall) : SamplingResult × SamplingState :=
  let ((result, table), handles) := (c.run s.table).run s.handles
  (result, ⟨handles, table⟩)

/-- A call that reads the line of `/proc/[pid]/stat`. -/
def SamplingCall.readsStat : SamplingCall → Bool
  | .sampleNow env pid => env.readsLine pid
  | _ => false

/-- A call leaves a handle open iff it reads that line. -/
theorem SamplingCall.does_run (c : SamplingCall) (t : ProcessTable) :
    ∃ result, Does (c.run t) result (if c.readsStat then 1 else 0) := by
  cases c with
  | sampleNow env pid =>
    have hsample := does_procActivitySampleNow env pid
    refine ⟨(.sample (procActivitySampleNow env pid), t), hsample.bind ?_⟩
    rw [SamplingCall.readsStat, Int.sub_self]
    exact does_pure _
  | build env hpage hlong pagemap pid mapping cfg out =>
    have hreturns : (bankProfileBuild buildFuel { env with addrOpen := pagemap.openRc } pid mapping
        cfg out).isSome := by
      refine bankProfileBuild_isSome (Nat.lt_succ_self _) ?_ ?_ pid mapping cfg out
      · exact hpage
      · exact hlong
    exact ⟨_, (does_bankProfileBuild pagemap hreturns).bind (does_pure _)⟩
  | classifyPid p daemonPid file fclose =>
    exact ⟨_, (does_candidateFilterClassifyPid p daemonPid file fclose).bind (does_pure _)⟩
  | upsertExec e fs => exact ⟨_, (does_processUpsertExec e fs t).bind (does_pure _)⟩
  | loadResult resultPath file =>
    exact ⟨_, (does_calibrationLoadResult resultPath file).bind (does_pure _)⟩

/-- A call of the sampling leaves a handle open if it reads a line of statistics. -/
theorem samplingStep_handles (s : SamplingState) (c : SamplingCall) :
    (samplingStep s c).2.handles = s.handles + if c.readsStat then 1 else 0 := by
  obtain ⟨⟨result, t⟩, hdoes⟩ := c.does_run s.table
  rw [samplingStep, hdoes s.handles]

/-- Each call that reads the line of `/proc/[pid]/stat` adds a handle, and no other. -/
theorem after_handles (s : SamplingState) (calls : List SamplingCall) :
    (after samplingStep s calls).handles = s.handles + calls.countP SamplingCall.readsStat := by
  induction calls with
  | nil => exact (Int.add_zero _).symm
  | cons c calls ih =>
    rw [after_cons, samplingStep_handles, ih, List.countP_cons, Nat.cast_add, Nat.cast_ite,
      Nat.cast_one, Nat.cast_zero, Int.add_assoc]

/-- A sequence of calls leaves as many handles open as there were. -/
def HandlesRestored (s : SamplingState) (calls : List SamplingCall) : Prop :=
  (after samplingStep s calls).handles = s.handles

/-- The handles are restored iff none of the activity samples gets to read the line of
    `/proc/[pid]/stat`. -/
theorem handles_restored_iff (s : SamplingState) (calls : List SamplingCall) :
    HandlesRestored s calls ↔ ∀ c ∈ calls, c.readsStat = false := by
  have hcount : s.handles + (calls.countP SamplingCall.readsStat : ℤ) = s.handles ↔
      calls.countP SamplingCall.readsStat = 0 := by omega
  rw [HandlesRestored, after_handles, hcount, List.countP_eq_zero]
  simp only [Bool.not_eq_true]

/-- A process that the kernel shows as sleeping. -/
def sleepingStat : StatEnv where
  pageSize := 4096
  clockTicks := 100
  clock := some (1, 0)
  stat := some "7 (sleep) S 1 7 7 0 -1 0 1 0 0 0 0 0 0 0 20 0 1 0 100 4096 1\n".toList

/-- One sample that succeeds leaves a handle open. -/
theorem handles_not_restored :
    (procActivitySampleNow sleepingStat 7).isOk = true ∧
      ¬HandlesRestored ⟨0, processTableReset⟩ [.sampleNow sleepingStat 7] := by
  refine ⟨by decide +kernel, ?_⟩
  have hreads : sleepingStat.readsLine 7 = true := by decide +kernel
  rw [HandlesRestored, after_handles, List.countP_singleton, SamplingCall.readsStat, hreads]
  decide

end CgroupResearch
