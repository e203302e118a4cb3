import CgroupResearch.Calibrate.Mapping
import CgroupResearch.Lib.CNumber
import CgroupResearch.Profile.Basic

/-!
# Sampling the pages of a process

`bank_profile_build` reads the regions of a process from `/proc/[pid]/maps`, line by line,
and samples the pages of the selected ones: each sampled address is translated to a
physical one, whose bank class is counted.

What the functions meet in the system is an input (`BuildEnv`): the page size, the text of
`maps`, and the translation of addresses, which is that of `/proc/[pid]/pagemap`. The
addresses that are translated are recorded, in their order (`queries`).

The loop over the pages of a region steps a 64-bit index, and need not end for every page
size: it has fuel, and gives nothing when it runs out of it.
-/

namespace CgroupResearch

open CNumber CString

/-- `struct bank_profile_config`. -/
structure BankProfileConfig where
  maxPagesToSample : UInt64
  sampleStridePages : UInt64
  includeAnonymous : Bool
  includeHeap : Bool
  includeStack : Bool
  includeFileBacked : Bool
  includeReadonly : Bool
  deriving DecidableEq, Repr

/-- `struct maps_region`; `stop` is its `end`. -/
structure MapsRegion where
  start : UInt64
  stop : UInt64
  perms : List Char
  pathname : List Char
  deriving DecidableEq, Repr

/-- `enum addr_translate_rc`. -/
inductive AddrTranslateRc
  | ok
  | errInvalidArg
  | errPageSize
  | errOpen
  | errRead
  | errNotPresent
  | errSwapped
  | errPfnUnavailable
  | errOverflow
  deriving DecidableEq, Repr

/-- `addr_translate_strerror`. -/
def addrTranslateStrerror : AddrTranslateRc → String
  | .ok => "success"
  | .errInvalidArg => "invalid argument"
  | .errPageSize => "failed to determine page size"
  | .errOpen => "failed to open /proc/[pid]/pagemap"
  | .errRead => "failed to read pagemap entry"
  | .errNotPresent => "page is not present"
  | .errSwapped => "page is swapped out"
  | .errPfnUnavailable => "PFN unavailable or zero page"
  | .errOverflow => "address calculation overflow"

/-- What `bank_profile_build` meets in the system: the result of `sysconf`, the text of
    `/proc/[pid]/maps` (`none` when it cannot be opened) with whether reading it ends in an
    error, the result of `addr_translate_open`, and the physical addresses that
    `addr_translate_va_to_pa` gives. -/
structure BuildEnv where
  pageSizeLong : ℤ
  maps : Option (List Char)
  mapsError : Bool
  addrOpen : AddrTranslateRc
  translate : UInt64 → Except AddrTranslateRc UInt64

/-- `bank_profile_config_default`. -/
def bankProfileConfigDefault : BankProfileConfig where
  maxPagesToSample := 4096
  sampleStridePages := 16
  includeAnonymous := true
  includeHeap := true
  includeStack := true
  includeFileBacked := false
  includeReadonly := false

/-! ## Regions -/

/-- `is_space_or_newline`. -/
def isSpaceOrNewline (c : Char) : Bool := c = ' ' || c = '\t' || c = '\n' || c = '\r'

/-- `trim_trailing_space`. -/
def trimTrailingSpace (s : List Char) : List Char := s.rdropWhile isSpaceOrNewline

/-- `skip_leading_space`. -/
def skipLeadingSpace (s : List Char) : List Char := s.dropWhile fun c => c = ' ' || c = '\t'

/-- `parse_maps_line`: the conversions of its `sscanf` one after the other. -/
def parseMapsLine (line : List Char) : Option MapsRegion := do
  let (start, s) ← scanUll 16 (cstr line)
  let s ← scanLiteral '-' s
  let (stop, s) ← scanUll 16 s
  let (perms, s) ← scanString 7 (scanSpace s)
  let (_, s) ← scanUll 16 (scanSpace s)
  let (_, s) ← scanString 31 (scanSpace s)
  let (_, s) ← scanUll 10 (scanSpace s)
  let rest := scanSpace s
  if stop ≤ start then
    none
  else
    some ⟨start, stop, perms, trimTrailingSpace ((skipLeadingSpace rest).take 255)⟩

/-- `region_is_selected`. -/
def regionIsSelected (region : MapsRegion) (cfg : BankProfileConfig) : Bool :=
  let path := region.pathname
  if region.perms.getD 0 '\x00' ≠ 'r' then
    false
  else if cfg.includeReadonly = false ∧ region.perms.getD 1 '\x00' ≠ 'w' then
    false
  else if path = "[heap]".toList then
    cfg.includeHeap
  else if "[stack".toList.isPrefixOf path then
    cfg.includeStack
  else if path = [] then
    cfg.includeAnonymous
  else if path.getD 0 '\x00' ≠ '[' then
    cfg.includeFileBacked
  else
    false

/-! ## Pages -/

/-- `count_translation_skip`. -/
def countTranslationSkip (profile : BankProfile) (rc : AddrTranslateRc) : BankProfile :=
  let k := profile.counters
  match rc with
  | .errNotPresent => { profile with
      counters := { k with pagesSkippedNotPresent := k.pagesSkippedNotPresent + 1 } }
  | .errSwapped => { profile with
      counters := { k with pagesSkippedSwapped := k.pagesSkippedSwapped + 1 } }
  | .errPfnUnavailable => { profile with
      counters := { k with pagesSkippedPfnUnavailable := k.pagesSkippedPfnUnavailable + 1 } }
  | _ => { profile with
      counters := { k with pagesSkippedTranslationError := k.pagesSkippedTranslationError + 1 } }

/-- What `sample_region` and `bank_profile_build` leave: the return code, the profile and
    the addresses translated so far. -/
structure Sampling where
  rc : BankProfileRc
  profile : BankProfile
  queries : List UInt64

/-- Whether the limit of the configuration is reached. -/
def budgetReached (cfg : BankProfileConfig) (profile : BankProfile) : Bool :=
  decide (0 < cfg.maxPagesToSample) && decide (cfg.maxPagesToSample ≤ profile.counters.pagesSampled)

/-- The body of the loop of `sample_region` on the address `va`. -/
def samplePage (translate : UInt64 → Except AddrTranslateRc UInt64) (mapping : DramMapping)
    (pageSize : UInt64) (va : UInt64) (profile : BankProfile) : BankProfileRc × BankProfile :=
  let k := profile.counters
  let profile := { profile with
    counters := { k with
      pagesConsidered := k.pagesConsidered + 1
      pagesSampled := k.pagesSampled + 1 } }
  match translate va with
  | .error rc => (.ok, countTranslationSkip profile rc)
  | .ok physicalAddress =>
    let k := profile.counters
    let profile := { profile with
      counters := { k with pagesTranslated := k.pagesTranslated + 1 } }
    match dramMappingBankClass mapping physicalAddress with
    | .error _ =>
      let k := profile.counters
      (.ok, { profile with
        counters := { k with pagesSkippedMappingError := k.pagesSkippedMappingError + 1 } })
    | .ok bankClass => profileAddBankClass profile bankClass pageSize

/-- The loop of `sample_region`, from the page `pageIdx` on. -/
def sampleLoop (translate : UInt64 → Except AddrTranslateRc UInt64) (mapping : DramMapping)
    (cfg : BankProfileConfig) (region : MapsRegion) (pageSize regionPages stride : UInt64) :
    (fuel : ℕ) → (pageIdx : UInt64) → BankProfile → (queries : List UInt64) → Option Sampling
  | 0, _, _, _ => none
  | fuel + 1, pageIdx, profile, queries =>
    if ¬pageIdx < regionPages then
      some ⟨.ok, profile, queries⟩
    else if budgetReached cfg profile then
      some ⟨.ok, profile, queries⟩
    else
      let va := region.start + pageIdx * pageSize
      let queries := queries ++ [va]
      match samplePage translate mapping pageSize va profile with
      | (.ok, profile) =>
        sampleLoop translate mapping cfg region pageSize regionPages stride fuel
          (pageIdx + stride) profile queries
      | (rc, profile) => some ⟨rc, profile, queries⟩

/-- `sample_region`. -/
def sampleRegion (fuel : ℕ) (translate : UInt64 → Except AddrTranslateRc UInt64)
    (mapping : DramMapping) (cfg : BankProfileConfig) (region : MapsRegion) (profile : BankProfile)
    (queries : List UInt64) : Option Sampling :=
  let pageSize := profile.pageSize
  if pageSize = 0 then
    some ⟨.errPageSize, profile, queries⟩
  else
    let regionPages := (region.stop - region.start) / pageSize
    let k := profile.counters
    let profile := { profile with counters := { k with pagesSeen := k.pagesSeen + regionPages } }
    let stride := if cfg.sampleStridePages = 0 then 1 else cfg.sampleStridePages
    sampleLoop translate mapping cfg region pageSize regionPages stride fuel 0 profile queries

/-- The loop of `bank_profile_build` over the lines of `maps`. -/
def mapsLoop (fuel : ℕ) (translate : UInt64 → Except AddrTranslateRc UInt64)
    (mapping : DramMapping) (cfg : BankProfileConfig) :
    (lines : List (List Char)) → BankProfile → (queries : List UInt64) → Option Sampling
  | [], profile, queries => some ⟨.ok, profile, queries⟩
  | line :: rest, profile, queries =>
    match parseMapsLine line with
    | none => mapsLoop fuel translate mapping cfg rest profile queries
    | some region =>
      let k := profile.counters
      let profile := { profile with counters := { k with regionsSeen := k.regionsSeen + 1 } }
      if regionIsSelected region cfg = false then
        mapsLoop fuel translate mapping cfg rest profile queries
      else
        let k := profile.counters
        let profile := { profile with
          counters := { k with regionsSelected := k.regionsSelected + 1 } }
        match sampleRegion fuel translate mapping cfg region profile queries with
        | none => none
        | some ⟨.ok, profile, queries⟩ =>
          if budgetReached cfg profile then
            some ⟨.ok, profile, queries⟩
          else
            mapsLoop fuel translate mapping cfg rest profile queries
        | some s => some s

/-- The configuration that `bank_profile_build` works with. -/
def buildConfig : Option BankProfileConfig → BankProfileConfig
  | none => bankProfileConfigDefault
  | some cfg => if cfg.sampleStridePages = 0 then { cfg with sampleStridePages := 1 } else cfg

/-- `bank_profile_build`, over the profile `out`; no configuration (`none`) stands for the
    default. -/
def bankProfileBuild (fuel : ℕ) (env : BuildEnv) (pid : ℤ) (mapping : DramMapping)
    (cfg : Option BankProfileConfig) (out : BankProfile) : Option Sampling :=
  if pid ≤ 0 then
    some ⟨.errInvalidArg, out, []⟩
  else if dramMappingIsReady mapping = false then
    some ⟨.errNotReady, out, []⟩
  else
    let out := { bankProfileReset with pid := pid }
    let cfg := buildConfig cfg
    if env.pageSizeLong ≤ 0 then
      some ⟨.errPageSize, profileSetError out "failed to get page size", []⟩
    else
      let out := { out with pageSize := UInt64.ofNat env.pageSizeLong.toNat }
      match env.maps with
      | none => some ⟨.errOpenMaps, profileSetError out "failed to open /proc/[pid]/maps", []⟩
      | some maps =>
        if env.addrOpen ≠ .ok then
          some ⟨.errAddrOpen, profileSetError out (addrTranslateStrerror env.addrOpen), []⟩
        else
          match mapsLoop fuel env.translate mapping cfg (fgetsLines 1024 maps []) out [] with
          | none => none
          | some ⟨.ok, out, queries⟩ =>
            if env.mapsError then
              some ⟨.errIo, profileSetError out "error while reading /proc/[pid]/maps", queries⟩
            else
              let out := profileFinalize out
              if out.counters.pagesTranslated = 0 ∨ out.entries.length = 0 then
                some ⟨.errNoSamples,
                  profileSetError out "no pages were translated into bank classes", queries⟩
              else
                some ⟨.ok, out, queries⟩
          | some s => some s

end CgroupResearch
