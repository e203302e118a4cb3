import CgroupResearch.Calibrate.Mapping
import CgroupResearch.Lib.Stride
import CgroupResearch.Profile.Translate

/-!
# The bank worker

An experiment (`oracle_bank_worker.c`) reads memory of one bank class only. It maps a buffer of
candidate pages, and takes from it the blocks of its class, page by page in the order of the
buffer, until it has as many as are asked for; a block is as large as the lowest bit that a mask
has. All cache lines of a block are recorded. The pages without any are given back to the kernel.

The functions follow the source from the checks of the arguments up to that point. A `size_t`
that the checks keep in its range is a number, an address is the number of a byte, and an
allocation does not fail. What the pagemap says may change from turn to turn, as the pages are
faulted in one by one.
-/

namespace CgroupResearch

open Stride

/-- `CACHE_LINE_BYTES`. -/
def cacheLineBytes : ℕ := 64

/-- `MIB_BYTES`. -/
def mibBytes : ℕ := 1048576

/-- The failures of the worker, in the order of its messages. The write behind the end of `lines`
    is none of them: the source does not check for it. -/
inductive WorkerFailure
  | invalidArgument
  | outsideClassSpace
  | noGranularity
  | granularityOverflow
  | granularityLines
  | pageSize
  | granularityPage
  | mibOverflow
  | addressableRange
  | selectedAlignment
  | candidateAlignment
  | translation (page : ℕ) (rc : AddrTranslateRc)
  | linesOverrun
  | capacity
  deriving DecidableEq, Repr

/-! ## Sizes -/

/-- The inner loop of `find_minimum_mask_bit`, up to its `break`. -/
def lowestMaskBit (mask : UInt64) : Option ℕ :=
  (List.range 64).find? fun bit => mask &&& ((1 : UInt64) <<< UInt64.ofNat bit) ≠ 0

/-- The outer loop of `find_minimum_mask_bit`. -/
def minimumMaskBitLoop : (masks : List UInt64) → (minimum : ℕ) → ℕ
  | [], minimum => minimum
  | mask :: masks, minimum =>
    match lowestMaskBit mask with
    | none => minimumMaskBitLoop masks minimum
    | some bit => minimumMaskBitLoop masks (if bit < minimum then bit else minimum)

/-- `find_minimum_mask_bit`. -/
def findMinimumMaskBit (mapping : DramMapping) : Option ℕ :=
  if !dramMappingIsReady mapping then
    none
  else
    let minimum := minimumMaskBitLoop mapping.masks 64
    if 64 ≤ minimum then none else some minimum

/-- What `main` computes from its arguments: `lines` has room for `required_lines` entries,
    `keep_page` for `page_count`. -/
structure WorkerSizes where
  classGranularity : ℕ
  pageSize : ℕ
  pageCount : ℕ
  candidateBytes : ℕ
  requiredBlocks : ℕ
  requiredLines : ℕ
  deriving DecidableEq, Repr

/-- The checks of `main`, after the parsing. -/
def workerSizes (mapping : DramMapping) (targetClass candidateMib selectedMib runSeconds : UInt64)
    (pageSizeLong : ℤ) : Except WorkerFailure WorkerSizes :=
  if candidateMib = 0 ∨ selectedMib = 0 ∨ runSeconds = 0 then
    .error .invalidArgument
  else if 64 ≤ mapping.masks.length ∨ 2 ^ mapping.masks.length ≤ targetClass.toNat then
    .error .outsideClassSpace
  else
    match findMinimumMaskBit mapping with
    | none => .error .noGranularity
    | some minimumMaskBit =>
      if 64 ≤ minimumMaskBit then
        .error .granularityOverflow
      else
        let classGranularity := 2 ^ minimumMaskBit
        if classGranularity < cacheLineBytes ∨ classGranularity % cacheLineBytes ≠ 0 then
          .error .granularityLines
        else if pageSizeLong ≤ 0 then
          .error .pageSize
        else
          let pageSize := pageSizeLong.toNat
          if pageSize < classGranularity ∨ pageSize % classGranularity ≠ 0 then
            .error .granularityPage
          else if (2 ^ 64 - 1) / mibBytes < candidateMib.toNat ∨
              (2 ^ 64 - 1) / mibBytes < selectedMib.toNat then
            .error .mibOverflow
          else
            let candidateBytes := candidateMib.toNat * mibBytes
            let selectedBytes := selectedMib.toNat * mibBytes
            -- `SIZE_MAX`
            if 2 ^ 64 - 1 < candidateBytes ∨ 2 ^ 64 - 1 < selectedBytes then
              .error .addressableRange
            else if selectedBytes % classGranularity ≠ 0 ∨ selectedBytes % cacheLineBytes ≠ 0 then
              .error .selectedAlignment
            else if candidateBytes % pageSize ≠ 0 then
              .error .candidateAlignment
            else
              .ok {
                classGranularity := classGranularity
                pageSize := pageSize
                pageCount := candidateBytes / pageSize
                candidateBytes := candidateBytes
                requiredBlocks := selectedBytes / classGranularity
                requiredLines := selectedBytes / cacheLineBytes }

/-! ## Selection -/

/-- The variables of the selection, with the entries of `lines` that are written.
    `retained_pages` is only printed and left out. -/
structure Selection where
  lines : List ℕ
  keepPage : List Bool
  selectedBlocks : ℕ
  selectedLines : ℕ
  scannedPages : ℕ
  deriving DecidableEq, Repr

/-- What the worker runs on: the mapping and the class, its sizes, where the buffer is, its
    context, and what `pread` delivers in the turn of a page. -/
structure WorkerEnv where
  mapping : DramMapping
  targetClass : UInt64
  sizes : WorkerSizes
  buffer : ℕ
  pid : ℤ
  pagemapFd : ℤ
  pread : ℕ → Pread

/-- The context that `addr_translate_open` leaves. -/
def WorkerEnv.ctx (env : WorkerEnv) : AddrTranslateCtx :=
  ⟨env.pid, env.pagemapFd, UInt64.ofNat env.sizes.pageSize⟩

/-- The translation of an address, in the turn of a page. -/
def WorkerEnv.translate (env : WorkerEnv) (pageIndex address : ℕ) :
    AddrTranslateRc × AddrTranslation :=
  addrTranslateVaToPa (env.pread pageIndex) env.ctx (UInt64.ofNat address) addrTranslationZero

section Selection

variable (env : WorkerEnv)

/-- The loop of `main` over the lines of the block at an address. -/
def lineLoop (block : ℕ) : (lineOffsets : List ℕ) → Selection → Except WorkerFailure Selection
  | [], s => .ok s
  | lineOffset :: lineOffsets, s =>
    if env.sizes.requiredLines ≤ s.selectedLines then
      .error .linesOverrun
    else
      lineLoop block lineOffsets { s with
        lines := s.lines ++ [block + lineOffset]
        selectedLines := s.selectedLines + 1 }

/-- The body of the loop of `main` over the blocks of a page. -/
def selectBlock (pageIndex : ℕ) (physicalAddress : UInt64) (s : Selection) (blockOffset : ℕ) :
    Except WorkerFailure Selection :=
  let page := env.buffer + pageIndex * env.sizes.pageSize
  let bankClass :=
    dramMappingBankClassFast env.mapping (physicalAddress + UInt64.ofNat blockOffset)
  if bankClass = env.targetClass then do
    let s := { s with keepPage := s.keepPage.set pageIndex true }
    let s ← lineLoop env (page + blockOffset)
      (stride 0 env.sizes.classGranularity cacheLineBytes) s
    .ok { s with selectedBlocks := s.selectedBlocks + 1 }
  else
    .ok s

/-- The loop of `main` over the blocks of a page. -/
def blockLoop (pageIndex : ℕ) (physicalAddress : UInt64) :
    (blockOffsets : List ℕ) → Selection → Except WorkerFailure Selection
  | [], s => .ok s
  | blockOffset :: blockOffsets, s =>
    if s.selectedBlocks < env.sizes.requiredBlocks then do
      let s ← selectBlock env pageIndex physicalAddress s blockOffset
      blockLoop pageIndex physicalAddress blockOffsets s
    else
      .ok s

/-- The body of the loop of `main` over the pages, up to some of the blocks. -/
def selectPage (blockOffsets : List ℕ) (s : Selection) (pageIndex : ℕ) :
    Except WorkerFailure Selection :=
  let page := env.buffer + pageIndex * env.sizes.pageSize
  let s := { s with scannedPages := pageIndex + 1 }
  let (rc, tr) := env.translate pageIndex page
  if rc ≠ .ok then
    .error (.translation pageIndex rc)
  else
    blockLoop env pageIndex tr.physicalAddress blockOffsets s

/-- The values of `block_offset`. -/
def WorkerEnv.blockOffsets : List ℕ := stride 0 env.sizes.pageSize env.sizes.classGranularity

/-- The loop of `main` over the pages. -/
def pageLoop : (pages : List ℕ) → Selection → Except WorkerFailure Selection
  | [], s => .ok s
  | pageIndex :: pages, s =>
    if s.selectedBlocks < env.sizes.requiredBlocks then do
      let s ← selectPage env env.blockOffsets s pageIndex
      pageLoop pages s
    else
      .ok s

/-- The variables before the loops. -/
def WorkerEnv.start : Selection := ⟨[], List.replicate env.sizes.pageCount false, 0, 0, 0⟩

/-- The selection at the head of the loop over the pages, before the page `n`. -/
def WorkerEnv.selectedBefore (n : ℕ) : Except WorkerFailure Selection :=
  pageLoop env (List.range n) env.start

end Selection

/-! ## Release -/

section Release

variable (keepPage : List Bool) (scannedPages : ℕ)

/-- The inner loop of `release_unselected_pages`. -/
def runEnd (i : ℕ) : ℕ :=
  if i < scannedPages ∧ keepPage.getD i false = false then runEnd (i + 1) else i
termination_by scannedPages - i

theorem le_runEnd (i : ℕ) : i ≤ runEnd keepPage scannedPages i := by
  fun_induction runEnd keepPage scannedPages i with
  | case1 i h ih => omega
  | case2 i h => exact le_rfl

/-- The outer loop of `release_unselected_pages`, with the calls of `madvise` so far; `madvise`
    tells if the advice for an address and a length is taken. -/
def releaseLoop (buffer pageSize : ℕ) (madvise : ℕ → ℕ → Bool) (i : ℕ) (calls : List (ℕ × ℕ)) :
    Bool × List (ℕ × ℕ) :=
  if i < scannedPages then
    if keepPage.getD i false = true then
      releaseLoop buffer pageSize madvise (i + 1) calls
    else
      let start := i
      let stop := runEnd keepPage scannedPages i
      let lengthPages := stop - start
      let call := (buffer + start * pageSize, lengthPages * pageSize)
      if madvise call.1 call.2 then
        releaseLoop buffer pageSize madvise stop (calls ++ [call])
      else
        (false, calls ++ [call])
  else
    (true, calls)
termination_by scannedPages - i
decreasing_by
  · omega
  · have hstep : runEnd keepPage scannedPages i = runEnd keepPage scannedPages (i + 1) := by
      rw [runEnd, if_pos ⟨‹_›, Bool.eq_false_of_not_eq_true ‹_›⟩]
    have := le_runEnd keepPage scannedPages (i + 1)
    omega

/-- `release_unselected_pages`: whether it succeeds, and the calls of `madvise`. -/
def releaseUnselectedPages (buffer pageSize : ℕ) (madvise : ℕ → ℕ → Bool) :
    Bool × List (ℕ × ℕ) :=
  releaseLoop keepPage scannedPages buffer pageSize madvise 0 []

end Release

/-- The part of `main` after the checks: the selection, whether the release succeeds, and its
    calls of `madvise`. -/
def selectAndRelease (env : WorkerEnv) (madvise : ℕ → ℕ → Bool) :
    Except WorkerFailure (Selection × Bool × List (ℕ × ℕ)) := do
  let s ← env.selectedBefore env.sizes.pageCount
  if s.selectedBlocks ≠ env.sizes.requiredBlocks ∨ s.selectedLines ≠ env.sizes.requiredLines then
    .error .capacity
  else
    .ok (s, releaseUnselectedPages s.keepPage s.scannedPages env.buffer env.sizes.pageSize madvise)

end CgroupResearch
