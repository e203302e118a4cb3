import CgroupResearch.Calibrate.Mapping
import CgroupResearch.Lib.DoubleArith
import CgroupResearch.Lib.Histogram
import CgroupResearch.Lib.Quota

/-!
# The overlap sweep

An experiment (`oracle_bank_overlap_sweep.c`) measures what an aggressor costs a victim,
by how many bank classes they share. Both get lines of memory from pools of their own: the
victim from as many classes as a group has, the aggressor from as many, of which it shares
none, a quarter, a half, three quarters or all with the victim. Of every class, each gets
the same number of lines, its quota.

The functions follow the source, up to the measurements. Pages and lines are taken in an
order that is shuffled with a seed. A `size_t` is a number, with its overflow where the
source does not exclude it; an allocation does not fail.
-/

namespace CgroupResearch

open Quota Histogram

/-- `CACHELINE_BYTES`. -/
def cachelineBytes : ℕ := 64

/-- `enum condition`. -/
inductive Condition
  | none
  | overlap0
  | overlap25
  | overlap50
  | overlap75
  | overlap100
  deriving DecidableEq, Repr

/-- `struct memory_pool`, of a page size: its memory is mapped, and `pfns` are the frames of
    its pages. -/
structure MemoryPool (pageSize : ℕ) where
  base : ℕ
  bytes : ℕ
  pageCount : ℕ
  pfns : List UInt64
  bytes_eq : bytes = pageCount * pageSize
  mapped : base + bytes < 2 ^ 64
  length_pfns : pfns.length = pageCount

/-- `struct line_set`: `line_count` is the number of the addresses. -/
structure LineSet (pageSize : ℕ) where
  pool : MemoryPool pageSize
  addresses : List ℕ

/-! ## Shuffling -/

section Shuffle

variable {α : Type*}

/-- `rng_next`: the value, and the next state. -/
def rngNext (state : UInt64) : UInt64 × UInt64 :=
  let x := if state = 0 then 0x9e3779b97f4a7c15 else state
  let x := x ^^^ x >>> 12
  let x := x ^^^ x <<< 25
  let x := x ^^^ x >>> 27
  (x * 2685821657736338717, x)

/-- The values at two places swapped. -/
def swapValues (values : List α) (i j : ℕ) : List α :=
  if h : i < values.length ∧ j < values.length then
    (values.set i (values.get ⟨j, h.2⟩)).set j (values.get ⟨i, h.1⟩)
  else
    values

/-- The loop of the shuffles, from the index `i` down. -/
def shuffleLoop : (i : ℕ) → (state : UInt64) → (values : List α) → List α
  | 0, _, values => values
  | i + 1, state, values =>
    let (r, state) := rngNext state
    let j := (r % UInt64.ofNat (i + 1 + 1)).toNat
    shuffleLoop i state (swapValues values (i + 1) j)

/-- The shuffle of an array, of whichever type. -/
def shuffle (values : List α) (seed : UInt64) : List α :=
  if values.length < 2 then values else shuffleLoop (values.length - 1) seed values

/-- `shuffle_size_t`. -/
def shuffleSizeT (values : List ℕ) (seed : UInt64) : List ℕ := shuffle values seed

/-- `shuffle_u64`. -/
def shuffleU64 (values : List UInt64) (seed : UInt64) : List UInt64 := shuffle values seed

end Shuffle

/-! ## Classes -/

/-- `condition_shared_classes`. -/
def conditionSharedClasses (condition : Condition) (groupClasses : ℕ) : Option ℕ :=
  if groupClasses = 0 ∨ groupClasses % 4 ≠ 0 then
    none
  else
    match condition with
    | .overlap0 => some 0
    | .overlap25 => some (groupClasses / 4)
    | .overlap50 => some (groupClasses / 2)
    | .overlap75 => some (groupClasses * 3 % 2 ^ 64 / 4)
    | .overlap100 => some groupClasses
    | .none => none

/-- `build_overlap_classes`, of two arrays of `group_classes` classes. -/
def buildOverlapClasses (victimClasses disjointClasses : List UInt64)
    (groupClasses sharedClasses : ℕ) : Option (List UInt64) :=
  if groupClasses = 0 ∨ groupClasses < sharedClasses then
    none
  else
    let disjointNeeded := groupClasses - sharedClasses
    some (victimClasses.take sharedClasses ++ disjointClasses.take disjointNeeded)

/-- `build_offset_classes`: the classes of the lines of a page at the address zero. -/
def buildOffsetClasses (mapping : DramMapping) (pageSize : ℕ) : Option (List UInt64) :=
  if pageSize % cachelineBytes ≠ 0 then
    none
  else
    let linesPerPage := pageSize / cachelineBytes
    some ((List.range linesPerPage).map fun line =>
      dramMappingBankClassFast mapping (UInt64.ofNat (line * cachelineBytes)))

section Pool

variable {pageSize : ℕ}

/-- The loop of `count_line_classes` over the lines of a page. -/
def countLines (classSpace : ℕ) (baseClass : UInt64) :
    (offsetClasses counts : List UInt64) → Option (List UInt64)
  | [], counts => some counts
  | offsetClass :: offsetClasses, counts =>
    let cls := baseClass ^^^ offsetClass
    if classSpace ≤ cls.toNat then
      none
    else
      countLines classSpace baseClass offsetClasses (increment counts cls.toNat)

/-- The loop of `count_line_classes` over the pages. -/
def countPages (pageSize : ℕ) (mapping : DramMapping) (offsetClasses : List UInt64)
    (classSpace : ℕ) : (pfns counts : List UInt64) → Option (List UInt64)
  | [], counts => some counts
  | pfn :: pfns, counts =>
    let basePa := pfn * UInt64.ofNat pageSize
    let baseClass := dramMappingBankClassFast mapping basePa
    (countLines classSpace baseClass offsetClasses counts).bind
      (countPages pageSize mapping offsetClasses classSpace pfns)

/-- `count_line_classes`. -/
def countLineClasses (pool : MemoryPool pageSize) (mapping : DramMapping)
    (offsetClasses : List UInt64) (classSpace : ℕ) : Option (List UInt64) :=
  countPages pageSize mapping offsetClasses classSpace pool.pfns (List.replicate classSpace 0)

/-- The classes with a quota of lines in both pools. -/
def eligibleClasses (victimCounts aggressorCounts : List UInt64) (classSpace quotaLines : ℕ) :
    List UInt64 :=
  ((List.range classSpace).filter fun cls => quotaLines ≤ (victimCounts.getD cls 0).toNat ∧
    quotaLines ≤ (aggressorCounts.getD cls 0).toNat).map UInt64.ofNat

/-- `choose_base_class_sets`: the classes of the victim, and as many others. -/
def chooseBaseClassSets (victimCounts aggressorCounts : List UInt64)
    (classSpace groupClasses quotaLines : ℕ) (seed : UInt64) :
    Option (List UInt64 × List UInt64) :=
  if groupClasses = 0 ∨ quotaLines = 0 then
    none
  else
    let candidates := eligibleClasses victimCounts aggressorCounts classSpace quotaLines
    if candidates.length < groupClasses * 2 % 2 ^ 64 then
      none
    else
      let candidates := shuffleU64 candidates seed
      some (candidates.take groupClasses, (candidates.drop groupClasses).take groupClasses)

/-! ## Line sets -/

/-- The loop of `collect_line_set` that numbers the classes. -/
def slotLoop (classSpace : ℕ) :
    (classes : List UInt64) → (slot : ℕ) → (classToSlot : List ℤ) → Option (List ℤ)
  | [], _, classToSlot => some classToSlot
  | cls :: classes, slot, classToSlot =>
    if classSpace ≤ cls.toNat then
      none
    else
      -- the cast to an `int`
      slotLoop classSpace classes (slot + 1)
        (classToSlot.set cls.toNat ((slot : ℤ).bmod (2 ^ 32)))

/-- The loop of `collect_line_set` over the lines of a page. -/
def collectLines (pool : MemoryPool pageSize) (offsetClasses : List UInt64) (classSpace : ℕ)
    (classToSlot : List ℤ) (quotaLines page : ℕ) (baseClass : UInt64) :
    (lineOrder : List ℕ) → (set : Slots ℕ) → Option (Slots ℕ)
  | [], set => some set
  | line :: lineOrder, set =>
    let cls := baseClass ^^^ offsetClasses.getD line 0
    if classSpace ≤ cls.toNat then
      none
    else
      let selectedSlot := classToSlot.getD cls.toNat (-1)
      let address := pool.base + page * pageSize + line * cachelineBytes
      collectLines pool offsetClasses classSpace classToSlot quotaLines page baseClass lineOrder
        (if selectedSlot < 0 then set else set.store quotaLines selectedSlot.toNat address)

/-- The loop of `collect_line_set` over the pages, until all the slots are full. -/
def collectPages (pool : MemoryPool pageSize) (mapping : DramMapping)
    (offsetClasses : List UInt64) (classSpace : ℕ) (classToSlot : List ℤ) (quotaLines : ℕ)
    (lineOrder : List ℕ) : (pageOrder : List ℕ) → (set : Slots ℕ) → Option (Slots ℕ)
  | [], set => some set
  | page :: pageOrder, set =>
    if set.remaining = 0 then
      some set
    else
      let basePa := pool.pfns.getD page 0 * UInt64.ofNat pageSize
      let baseClass := dramMappingBankClassFast mapping basePa
      (collectLines pool offsetClasses classSpace classToSlot quotaLines page baseClass lineOrder
        set).bind (collectPages pool mapping offsetClasses classSpace classToSlot quotaLines
          lineOrder pageOrder)

/-- `collect_line_set`. -/
def collectLineSet (pool : MemoryPool pageSize) (mapping : DramMapping)
    (offsetClasses : List UInt64) (classSpace : ℕ) (classes : List UInt64) (quotaLines : ℕ)
    (seed : UInt64) : Option (LineSet pageSize) :=
  let classCount := classes.length
  if classCount = 0 ∨ quotaLines = 0 then
    none
  else if (2 ^ 64 - 1) / quotaLines < classCount then
    none
  else
    let pageOrder := shuffleSizeT (List.range pool.pageCount) (seed ^^^ 0x9e3779b97f4a7c15)
    let lineOrder := shuffleSizeT (List.range offsetClasses.length) (seed ^^^ 0xd1b54a32d192ed03)
    (slotLoop classSpace classes 0 (List.replicate classSpace (-1))).bind fun classToSlot =>
      (collectPages pool mapping offsetClasses classSpace classToSlot quotaLines lineOrder
        pageOrder (Slots.empty classCount quotaLines 0)).bind fun set =>
          if set.remaining ≠ 0 then none else some ⟨pool, set.values⟩

/-- `address_bank_class`. -/
def addressBankClass (set : LineSet pageSize) (mapping : DramMapping) (address : ℕ) :
    Option UInt64 :=
  if address < set.pool.base ∨ (set.pool.base + set.pool.bytes) % 2 ^ 64 ≤ address then
    none
  else
    let delta := address - set.pool.base
    let page := delta / pageSize
    let offset := delta % pageSize
    if offset % cachelineBytes ≠ 0 then
      none
    else
      let pa := set.pool.pfns.getD page 0 * UInt64.ofNat pageSize + UInt64.ofNat offset
      some (dramMappingBankClassFast mapping pa)

/-! ## Histograms -/

/-- The loop of `build_histogram`. -/
def histogramLoop (set : LineSet pageSize) (mapping : DramMapping) (classSpace : ℕ) :
    (addresses : List ℕ) → (histogram : List UInt64) → Option (List UInt64)
  | [], histogram => some histogram
  | address :: addresses, histogram =>
    (addressBankClass set mapping address).bind fun cls =>
      if classSpace ≤ cls.toNat then
        none
      else
        histogramLoop set mapping classSpace addresses (increment histogram cls.toNat)

/-- `build_histogram`. -/
def buildHistogram (set : LineSet pageSize) (mapping : DramMapping) (classSpace : ℕ) :
    Option (List UInt64) :=
  histogramLoop set mapping classSpace set.addresses (List.replicate classSpace 0)

end Pool

/-- The loop of `histogram_jaccard`: the intersection and the union. -/
def jaccardLoop : (a b : List UInt64) → (intersection unionCount : UInt64) → UInt64 × UInt64
  | x :: a, y :: b, intersection, unionCount =>
    let minimum := if x < y then x else y
    let maximum := if y < x then x else y
    jaccardLoop a b (intersection + minimum) (unionCount + maximum)
  | _, _, intersection, unionCount => (intersection, unionCount)

/-- `histogram_jaccard`: the index, the intersection and the union. -/
def histogramJaccard (a b : List UInt64) : Double × UInt64 × UInt64 :=
  let (intersection, unionCount) := jaccardLoop a b 0 0
  let jaccard :=
    if unionCount = 0 then .ofRat 0
    else .div (.round intersection.toNat) (.round unionCount.toNat)
  (jaccard, intersection, unionCount)

/-- `histogram_shared_classes`. -/
def histogramSharedClasses (a b : List UInt64) : ℕ :=
  (a.zip b).countP fun (x, y) => x ≠ 0 ∧ y ≠ 0

/-- `histogram_unique_classes`. -/
def histogramUniqueClasses (histogram : List UInt64) : ℕ := histogram.countP fun x => x ≠ 0

/-! ## The conditions -/

/-- Where `main` gives up, before it measures a condition. -/
inductive SweepFailure
  | classSpace
  | offsetClasses
  | victimCounts
  | aggressorCounts
  | baseClassSets
  | victimLineSet
  | victimHistogram
  /-- "victim unique-class count mismatch". -/
  | victimUniqueClasses
  | sharedClasses
  | overlapClasses
  | aggressorLineSet
  | aggressorHistogram
  /-- "aggressor unique-class count mismatch". -/
  | aggressorUniqueClasses
  /-- "actual overlap does not match requested sweep level". -/
  | overlapMismatch
  deriving DecidableEq, Repr

/-- A step of `main` that may fail. -/
def orFail {α : Type} (failure : SweepFailure) : Option α → Except SweepFailure α
  | none => .error failure
  | some a => .ok a

@[simp] theorem orFail_some_bind {α β : Type} (failure : SweepFailure) (a : α)
    (k : α → Except SweepFailure β) : (orFail failure (some a) >>= k) = k a := rfl

@[simp] theorem orFail_none_bind {α β : Type} (failure : SweepFailure)
    (k : α → Except SweepFailure β) : (orFail failure none >>= k) = .error failure := rfl

/-- What `main` keeps for the conditions: the classes and the histogram of the victim, and
    classes that are not the victim's. -/
structure SweepBase where
  classSpace : ℕ
  offsetClasses : List UInt64
  victimClasses : List UInt64
  disjointClasses : List UInt64
  victimHist : List UInt64
  deriving DecidableEq, Repr

section Main

variable {pageSize : ℕ} (mapping : DramMapping) (victimPool aggressorPool : MemoryPool pageSize)
  (groupClasses quotaLines : ℕ) (seed : UInt64)

/-- `main` up to the conditions, the pools being there. -/
def sweepVictim : Except SweepFailure SweepBase := do
  let classSpace ← orFail .classSpace (classSpaceFromMapping mapping)
  let offsetClasses ← orFail .offsetClasses (buildOffsetClasses mapping pageSize)
  let victimCounts ← orFail .victimCounts
    (countLineClasses victimPool mapping offsetClasses classSpace)
  let aggressorCounts ← orFail .aggressorCounts
    (countLineClasses aggressorPool mapping offsetClasses classSpace)
  let (victimClasses, disjointClasses) ← orFail .baseClassSets
    (chooseBaseClassSets victimCounts aggressorCounts classSpace groupClasses quotaLines seed)
  let victimSet ← orFail .victimLineSet
    (collectLineSet victimPool mapping offsetClasses classSpace victimClasses quotaLines
      (seed ^^^ 0x4444444444444444))
  let victimHist ← orFail .victimHistogram (buildHistogram victimSet mapping classSpace)
  if histogramUniqueClasses victimHist ≠ groupClasses then
    .error .victimUniqueClasses
  else
    .ok { classSpace, offsetClasses, victimClasses, disjointClasses, victimHist }

/-- A condition of `main`, up to its measurement: the index and the shared classes that are
    reported with it. -/
def sweepCondition (b : SweepBase) (condition : Condition) : Except SweepFailure (Double × ℕ) :=
  if condition = .none then
    .ok (.ofRat 0, 0)
  else do
    let sharedClasses ← orFail .sharedClasses (conditionSharedClasses condition groupClasses)
    let aggressorClasses ← orFail .overlapClasses
      (buildOverlapClasses b.victimClasses b.disjointClasses groupClasses sharedClasses)
    let aggressorSet ← orFail .aggressorLineSet
      (collectLineSet aggressorPool mapping b.offsetClasses b.classSpace aggressorClasses quotaLines
        (seed ^^^ 0x5555555555555555))
    let aggressorHist ← orFail .aggressorHistogram
      (buildHistogram aggressorSet mapping b.classSpace)
    if histogramUniqueClasses aggressorHist ≠ groupClasses then
      .error .aggressorUniqueClasses
    else
      let (jaccard, intersection, unionCount) := histogramJaccard b.victimHist aggressorHist
      let actualSharedClasses := histogramSharedClasses b.victimHist aggressorHist
      let expectedIntersection := UInt64.ofNat sharedClasses * UInt64.ofNat quotaLines
      let expectedUnion :=
        (UInt64.ofNat groupClasses * 2 - UInt64.ofNat sharedClasses) * UInt64.ofNat quotaLines
      if actualSharedClasses ≠ sharedClasses ∨ intersection ≠ expectedIntersection ∨
          unionCount ≠ expectedUnion then
        .error .overlapMismatch
      else
        .ok (jaccard, actualSharedClasses)

/-- The conditions of `main`, in the order of the configuration. -/
def sweepConditions (order : List Condition) : Except SweepFailure (List (Double × ℕ)) := do
  let b ← sweepVictim mapping victimPool aggressorPool groupClasses quotaLines seed
  order.mapM (sweepCondition mapping aggressorPool groupClasses quotaLines seed b)

end Main

end CgroupResearch
