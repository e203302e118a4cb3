import CgroupResearch.Experiment.Protocol
import CgroupResearch.Sweep.Overlap
import CgroupResearch.Worker.Program

/-!
# Five candidates at once

Where the sweep has one aggressor whose overlap changes, the multi-candidate control has five that
run at the same time, each with a pool and an overlap of its own. `main` chooses the classes from
those with a quota of lines in all six pools, and gives the candidate `i` as many of the classes
of the victim as its level asks for (`backgroundClasses`).

It gives up only for want of such classes. Once twice `groupClasses` are there, the candidates get
their lines and share `i` quarters of the classes with the victim (`candidates_share_their_levels`):
a pair of the victim and a candidate is a condition of the sweep (`candidateOverlap_of_realised`).
-/

namespace CgroupResearch

open Quota Histogram
open scoped UInt64.CommRing

/-! ## The program -/

/-- `POOL_COUNT`: the victim's pool is the first. -/
abbrev poolCount : ℕ := candidateCount + 1

/-- A loop of `main` that fills an array. -/
def forAll {α : Type} {n : ℕ} (f : Fin n → Option α) : Option (Fin n → α) :=
  if h : ∀ i, (f i).isSome then some fun i => (f i).get (h i) else none

/-- `candidate_shared_classes`. -/
def candidateSharedClasses (candidate groupClasses : ℕ) : ℕ :=
  match candidate with
  | 0 => 0
  | 1 => groupClasses / 4
  | 2 => groupClasses / 2
  | 3 => groupClasses * 3 % 2 ^ 64 / 4
  | 4 => groupClasses
  | _ => 0

/-- The quota of lines of each class that `main` has from the size of a working set. -/
def worksetQuota (worksetMib groupClasses : ℕ) : Option ℕ :=
  if (2 ^ 64 - 1) / mibBytes < worksetMib then
    none
  else
    let worksetBytes := worksetMib * mibBytes
    if worksetBytes % cachelineBytes ≠ 0 then
      none
    else
      let worksetLines := worksetBytes / cachelineBytes
      if worksetLines % groupClasses ≠ 0 ∨ groupClasses % 4 ≠ 0 then
        none
      else
        some (worksetLines / groupClasses)

/-- The classes with a quota of lines in all of the pools. -/
def commonEligibleClasses (poolCounts : Fin poolCount → List UInt64) (classSpace quotaLines : ℕ) :
    List UInt64 :=
  ((List.range classSpace).filter fun cls =>
    ∀ p, quotaLines ≤ ((poolCounts p).getD cls 0).toNat).map UInt64.ofNat

/-- `choose_class_sets`. -/
def chooseClassSets (poolCounts : Fin poolCount → List UInt64)
    (classSpace groupClasses quotaLines : ℕ) (seed : UInt64) :
    Option (List UInt64 × List UInt64) :=
  if groupClasses = 0 ∨ quotaLines = 0 then
    none
  else
    let candidates := commonEligibleClasses poolCounts classSpace quotaLines
    if candidates.length < groupClasses * 2 % 2 ^ 64 then
      none
    else
      let candidates := shuffleU64 candidates seed
      some (candidates.take groupClasses, (candidates.drop groupClasses).take groupClasses)

/-- The `background_classes` of a candidate. -/
def backgroundClasses (victimClasses disjointClasses : List UInt64)
    (groupClasses candidate : ℕ) : List UInt64 :=
  let shared := candidateSharedClasses candidate groupClasses
  (List.range groupClasses).map fun j =>
    if j < shared then victimClasses.getD j 0 else disjointClasses.getD (j - shared) 0

/-- The `select_seed` of a candidate. -/
def selectSeed (seed : UInt64) (candidate : ℕ) : UInt64 :=
  seed ^^^ (0x5555555555555555 + UInt64.ofNat candidate * 0x0101010101010101)

/-- What `main` has of a candidate before it builds the chains. -/
structure CandidateLines (pageSize : ℕ) where
  set : LineSet pageSize
  jaccard : Double
  intersection : UInt64
  unionCount : UInt64
  shared : ℕ

/-- What `main` has before it builds the chains. -/
structure SelectedLines (pageSize : ℕ) where
  victim : LineSet pageSize
  background : Fin candidateCount → CandidateLines pageSize

section Main

variable {pageSize : ℕ} (mapping : DramMapping)

/-- The overlap of a candidate with the victim, if it is the one of its level. -/
def candidateOverlap (classSpace groupClasses quotaLines : ℕ) (victimHist : List UInt64)
    (candidate : ℕ) (set : LineSet pageSize) : Option (CandidateLines pageSize) :=
  let expectedShared := candidateSharedClasses candidate groupClasses
  let expectedIntersection := UInt64.ofNat expectedShared * UInt64.ofNat quotaLines
  let expectedUnion :=
    (2 * UInt64.ofNat groupClasses - UInt64.ofNat expectedShared) * UInt64.ofNat quotaLines
  (buildHistogram set mapping classSpace).bind fun hist =>
    let (jaccard, intersection, unionCount) := histogramJaccard victimHist hist
    let shared := histogramSharedClasses victimHist hist
    if histogramUniqueClasses hist ≠ groupClasses ∨ shared ≠ expectedShared ∨
        intersection ≠ expectedIntersection ∨ unionCount ≠ expectedUnion then
      none
    else
      some { set, jaccard, intersection, unionCount, shared }

/-- `main` up to the chains, with the pools and a quota. It fails in one way (`goto fail`). -/
def selectLines (pools : Fin poolCount → MemoryPool pageSize) (groupClasses quotaLines : ℕ)
    (seed : UInt64) : Option (SelectedLines pageSize) := do
  let classSpace ← classSpaceFromMapping mapping
  let offsetClasses ← buildOffsetClasses mapping pageSize
  -- the victim's pool first, then those of the candidates
  let poolCounts ← forAll fun p => countLineClasses (pools p) mapping offsetClasses classSpace
  let (victimClasses, disjointClasses) ←
    chooseClassSets poolCounts classSpace groupClasses quotaLines seed
  let victimSet ← collectLineSet (pools 0) mapping offsetClasses classSpace victimClasses quotaLines
    (seed ^^^ 0x4444444444444444)
  let backgroundSet ← forAll fun i : Fin candidateCount =>
    collectLineSet (pools i.succ) mapping offsetClasses classSpace
      (backgroundClasses victimClasses disjointClasses groupClasses i) quotaLines
      (selectSeed seed i)
  let victimHist ← buildHistogram victimSet mapping classSpace
  let background ← forAll fun i : Fin candidateCount =>
    candidateOverlap mapping classSpace groupClasses quotaLines victimHist i (backgroundSet i)
  some { victim := victimSet, background }

/-- `main` up to the chains, with the pools and the size of a working set. -/
def mainLines (pools : Fin poolCount → MemoryPool pageSize) (worksetMib groupClasses : ℕ)
    (seed : UInt64) : Option (SelectedLines pageSize) := do
  let quotaLines ← worksetQuota worksetMib groupClasses
  selectLines mapping pools groupClasses quotaLines seed

end Main

theorem forAll_eq_some {α : Type} {n : ℕ} {f : Fin n → Option α} {g : Fin n → α}
    (h : ∀ i, f i = some (g i)) : forAll f = some g := by
  have hsome : ∀ i, (f i).isSome := by
    intro i
    rw [h i, Option.isSome_some]
  rw [forAll, dif_pos hsome]
  congr 1
  funext i
  exact Option.get_of_eq_some _ (h i)

/-- A quota of `main` is not zero and makes up the working set, and the classes are in quarters. -/
theorem worksetQuota_eq_some {worksetMib groupClasses quotaLines : ℕ} (hmib : worksetMib ≠ 0)
    (h : worksetQuota worksetMib groupClasses = some quotaLines) :
    groupClasses % 4 = 0 ∧ 0 < quotaLines ∧
      quotaLines * groupClasses * cachelineBytes = worksetMib * mibBytes := by
  rw [worksetQuota] at h
  split at h
  · cases h
  dsimp only at h
  split at h
  · cases h
  case isFalse hbytes =>
    split at h
    · cases h
    case isFalse hlines =>
      rw [not_or, not_not, not_not] at hlines
      rw [not_not] at hbytes
      obtain rfl := Option.some.inj h
      have hset : worksetMib * mibBytes / cachelineBytes / groupClasses * groupClasses *
          cachelineBytes = worksetMib * mibBytes := by
        rw [Nat.div_mul_cancel (Nat.dvd_of_mod_eq_zero hlines.1),
          Nat.div_mul_cancel (Nat.dvd_of_mod_eq_zero hbytes)]
      refine ⟨hlines.2, Nat.pos_of_ne_zero fun hzero => ?_, hset⟩
      rw [hzero, Nat.zero_mul, Nat.zero_mul] at hset
      exact absurd hset.symm (Nat.mul_ne_zero hmib (by decide))

/-! ## The common classes -/

section Common

variable {poolCounts : Fin poolCount → List UInt64} {space groupClasses quotaLines : ℕ}
  {seed : UInt64}

theorem mem_commonEligibleClasses (hspace : space ≤ 2 ^ 64) {cls : UInt64}
    (h : cls ∈ commonEligibleClasses poolCounts space quotaLines) :
    cls.toNat < space ∧ ∀ p, quotaLines ≤ ((poolCounts p).getD cls.toNat 0).toNat := by
  obtain ⟨c, hc, rfl⟩ := List.mem_map.1 h
  obtain ⟨hc, hcounts⟩ := List.mem_filter.1 hc
  rw [List.mem_range] at hc
  rw [UInt64.toNat_ofNat_of_lt' (hc.trans_le hspace)]
  exact ⟨hc, of_decide_eq_true hcounts⟩

/-- With too few common classes none are chosen. -/
theorem chooseClassSets_eq_none (hdouble : groupClasses * 2 < 2 ^ 64) (hquota : quotaLines ≠ 0)
    (hlen : (commonEligibleClasses poolCounts space quotaLines).length < 2 * groupClasses) :
    chooseClassSets poolCounts space groupClasses quotaLines seed = none := by
  rw [chooseClassSets, if_neg (by omega)]
  dsimp only
  rw [Nat.mod_eq_of_lt hdouble, if_pos (by omega)]

/-- If there are enough, classes are chosen that do for any two of the pools. -/
theorem exists_chosen (hspace : space ≤ 2 ^ 64) (hgroup : groupClasses ≠ 0)
    (hdouble : groupClasses * 2 < 2 ^ 64) (hquota : quotaLines ≠ 0)
    (hlen : 2 * groupClasses ≤ (commonEligibleClasses poolCounts space quotaLines).length) :
    ∃ victimClasses disjointClasses,
      chooseClassSets poolCounts space groupClasses quotaLines seed =
        some (victimClasses, disjointClasses) ∧
      ∀ p q, Chosen (poolCounts p) (poolCounts q) space groupClasses quotaLines victimClasses
        disjointClasses := by
  rw [chooseClassSets, if_neg (by omega)]
  dsimp only
  rw [Nat.mod_eq_of_lt hdouble, if_neg (by omega)]
  refine ⟨_, _, rfl, fun p q => ?_⟩
  have hnodup : (commonEligibleClasses poolCounts space quotaLines).Nodup :=
    nodup_map_ofNat hspace _
  obtain ⟨hvictim, hdisjoint, hsplit, hmem⟩ := shuffled_halves hnodup hlen seed
  refine ⟨hvictim, hdisjoint, hsplit, fun cls hcls => ?_⟩
  obtain ⟨hlt, hcounts⟩ := mem_commonEligibleClasses hspace (hmem cls hcls)
  exact ⟨hlt, hcounts p, hcounts q⟩

end Common

/-! ## The levels of the candidates -/

/-- The condition of the sweep with the overlap of a candidate. -/
def candidateCondition : Fin candidateCount → Condition
  | 0 => .overlap0
  | 1 => .overlap25
  | 2 => .overlap50
  | 3 => .overlap75
  | 4 => .overlap100

theorem candidateCondition_ne_none (i : Fin candidateCount) : candidateCondition i ≠ .none := by
  revert i
  decide

theorem quarters_candidateCondition (i : Fin candidateCount) :
    (candidateCondition i).quarters = i := by
  revert i
  decide

theorem conditionSharedClasses_candidateCondition {groupClasses : ℕ} (hgroup : groupClasses ≠ 0)
    (hfour : groupClasses % 4 = 0) (i : Fin candidateCount) :
    conditionSharedClasses (candidateCondition i) groupClasses =
      some (candidateSharedClasses i groupClasses) := by
  rw [conditionSharedClasses.eq_def, if_neg (by omega)]
  fin_cases i <;> rfl

/-- The classes of a candidate are those of an aggressor with its overlap. -/
theorem backgroundClasses_eq {victimClasses disjointClasses classes : List UInt64}
    {groupClasses candidate : ℕ} (hvictim : victimClasses.length = groupClasses)
    (hdisjoint : disjointClasses.length = groupClasses)
    (hclasses : buildOverlapClasses victimClasses disjointClasses groupClasses
      (candidateSharedClasses candidate groupClasses) = some classes) :
    backgroundClasses victimClasses disjointClasses groupClasses candidate = classes := by
  rw [buildOverlapClasses] at hclasses
  split at hclasses
  · cases hclasses
  case isFalse hle =>
    obtain rfl := Option.some.inj hclasses
    rw [backgroundClasses]
    generalize candidateSharedClasses candidate groupClasses = shared at hle ⊢
    -- position by position: below `shared` it is the victim's class
    refine List.ext_getElem ?_ fun j hj hj' => ?_
    · rw [List.length_map, List.length_range, List.length_append, List.length_take,
        List.length_take]
      omega
    rw [List.length_map, List.length_range] at hj
    rw [List.getElem_map, List.getElem_range, List.getElem_append]
    have hlen : (victimClasses.take shared).length = shared := by
      rw [List.length_take]
      omega
    simp only [hlen]
    split
    case isTrue hlt =>
      rw [List.getElem_take, List.getD_eq_getElem _ _ (by omega)]
    case isFalse hlt =>
      rw [List.getElem_take, List.getD_eq_getElem _ _ (by omega)]

/-- The lines of a candidate: a quota for each of its classes, and as many classes of the victim
    as its level asks for. -/
structure CandidateRealised {pageSize : ℕ} (mapping : DramMapping)
    (pool : MemoryPool pageSize) (offsetClasses : List UInt64) (space : ℕ)
    (victimClasses disjointClasses : List UInt64) (groupClasses quotaLines : ℕ) (seed : UInt64)
    (candidate : ℕ) (lines : CandidateLines pageSize) : Prop where
  collected : ∃ hist, CollectedLines pool mapping offsetClasses space
    (backgroundClasses victimClasses disjointClasses groupClasses candidate) quotaLines
    (selectSeed seed candidate) lines.set hist
  /-- The candidate `i` shares `i` quarters of the classes. -/
  level : lines.shared * 4 = candidate * groupClasses
  intersection : lines.intersection.toNat = lines.shared * quotaLines
  union : lines.unionCount.toNat = (2 * groupClasses - lines.shared) * quotaLines

section Select

variable {mapping : DramMapping} {pageSize space groupClasses quotaLines : ℕ}
  {offsetClasses victimClasses disjointClasses victimHist : List UInt64}

/-- A candidate is an aggressor of the sweep, with its own seed. -/
theorem candidateOverlap_of_realised {pool : MemoryPool pageSize} {seed : UInt64}
    {i : Fin candidateCount} {shared : ℕ} {classes hist : List UInt64} {set : LineSet pageSize}
    (hgroup : groupClasses ≠ 0) (hfour : groupClasses % 4 = 0)
    (hvictim : victimClasses.length = groupClasses)
    (hdisjoint : disjointClasses.length = groupClasses)
    (h : Realised mapping pool offsetClasses space victimClasses disjointClasses groupClasses
      quotaLines (selectSeed seed i ^^^ 0x5555555555555555) victimHist (candidateCondition i)
      shared classes set hist) :
    collectLineSet pool mapping offsetClasses space
        (backgroundClasses victimClasses disjointClasses groupClasses i) quotaLines
        (selectSeed seed i) = some set ∧
      ∃ lines, candidateOverlap mapping space groupClasses quotaLines victimHist i set =
          some lines ∧
        CandidateRealised mapping pool offsetClasses space victimClasses disjointClasses
          groupClasses quotaLines seed i lines := by
  have hshared : candidateSharedClasses i groupClasses = shared := by
    have hcond := conditionSharedClasses_candidateCondition hgroup hfour i
    rw [h.shared_eq] at hcond
    exact (Option.some.inj hcond).symm
  have hclasses : backgroundClasses victimClasses disjointClasses groupClasses i = classes :=
    backgroundClasses_eq hvictim hdisjoint (by rw [hshared]; exact h.classes_eq)
  -- the sweep would mix the constant into its seed; mixed in twice, it is gone
  have hcollected := h.collected
  rw [UInt64.xor_assoc, UInt64.xor_self, UInt64.xor_zero, ← hclasses] at hcollected
  refine ⟨hcollected.collected, ⟨set, (histogramJaccard victimHist hist).1,
    (histogramJaccard victimHist hist).2.1, (histogramJaccard victimHist hist).2.2, shared⟩,
    ?_, ⟨hist, hcollected⟩, ?_, h.intersection, h.union⟩
  · have hunion := h.union_eq
    rw [mul_comm (UInt64.ofNat groupClasses) 2] at hunion
    rw [candidateOverlap, hshared]
    dsimp only
    rw [hcollected.histogram, Option.bind_some,
      if_neg (by simp [h.unique, h.actualShared, h.intersection_eq, hunion]), h.actualShared]
  · rw [← quarters_candidateCondition i]
    exact h.level

section Pools

variable {pools : Fin poolCount → MemoryPool pageSize} {poolCounts : Fin poolCount → List UInt64}
  (h : Prepared mapping pageSize space offsetClasses)
  (hcounts : ∀ p, countLineClasses (pools p) mapping offsetClasses space = some (poolCounts p) ∧
    ∀ cls : UInt64, cls.toNat < space →
      ((poolCounts p).getD cls.toNat 0).toNat = lineCount (pools p) mapping offsetClasses cls)
include h hcounts

/-- The common classes are those with a quota of lines in every pool. -/
theorem length_commonEligibleClasses :
    (commonEligibleClasses poolCounts space quotaLines).length =
      (List.range space).countP fun cls =>
        ∀ p, quotaLines ≤ lineCount (pools p) mapping offsetClasses (UInt64.ofNat cls) := by
  have hspace : space ≤ 2 ^ 64 := h.space_le.trans (by decide)
  rw [commonEligibleClasses, List.length_map, ← List.countP_eq_length_filter]
  refine List.countP_congr fun cls hcls => ?_
  rw [List.mem_range] at hcls
  have hword : (UInt64.ofNat cls).toNat = cls := UInt64.toNat_ofNat_of_lt' (hcls.trans_le hspace)
  have hlines : ∀ p, ((poolCounts p).getD cls 0).toNat =
      lineCount (pools p) mapping offsetClasses (UInt64.ofNat cls) := by
    intro p
    have hcount := (hcounts p).2 (UInt64.ofNat cls) (by rwa [hword])
    rwa [hword] at hcount
  simp only [hlines]

/-- Once the classes are chosen, the victim and all the candidates get their lines. -/
theorem selectLines_of_chosen {seed : UInt64} (hgroup : groupClasses ≠ 0)
    (hfour : groupClasses % 4 = 0) (halloc : groupClasses * 8 < 2 ^ 64) (hquota : 0 < quotaLines)
    (hchoose : chooseClassSets poolCounts space groupClasses quotaLines seed =
      some (victimClasses, disjointClasses))
    (hchosen : ∀ p q, Chosen (poolCounts p) (poolCounts q) space groupClasses quotaLines
      victimClasses disjointClasses) :
    ∃ selected, selectLines mapping pools groupClasses quotaLines seed = some selected ∧
      ∃ victimHist,
        CollectedLines (pools 0) mapping offsetClasses space victimClasses quotaLines
          (seed ^^^ 0x4444444444444444) selected.victim victimHist ∧
        ∀ i : Fin candidateCount, CandidateRealised mapping (pools i.succ) offsetClasses space
          victimClasses disjointClasses groupClasses quotaLines seed i (selected.background i) := by
  -- the victim and one candidate are a sweep
  have hcounted : ∀ i : Fin candidateCount, Counted mapping (pools 0) (pools i.succ) space
      offsetClasses (poolCounts 0) (poolCounts i.succ) := fun i =>
    ⟨h, (hcounts 0).1, (hcounts i.succ).1, (hcounts 0).2, (hcounts i.succ).2⟩
  obtain ⟨victimSet, victimHist, hvictim, -⟩ := exists_collected_victim (hcounted 0) (hchosen 0 _)
    hgroup hquota (seed ^^^ 0x4444444444444444)
  have hcandidates : ∀ i : Fin candidateCount, ∃ set lines,
      collectLineSet (pools i.succ) mapping offsetClasses space
        (backgroundClasses victimClasses disjointClasses groupClasses i) quotaLines
        (selectSeed seed i) = some set ∧
      candidateOverlap mapping space groupClasses quotaLines victimHist i set = some lines ∧
      CandidateRealised mapping (pools i.succ) offsetClasses space victimClasses disjointClasses
        groupClasses quotaLines seed i lines := by
    intro i
    obtain ⟨shared, classes, set, hist, hrealised⟩ := exists_realised (hcounted i) (hchosen 0 _)
      hgroup hquota hfour halloc hvictim.exact (selectSeed seed i ^^^ 0x5555555555555555)
      (candidateCondition_ne_none i)
    obtain ⟨hset, lines, hlines⟩ := candidateOverlap_of_realised hgroup hfour
      (hchosen 0 0).length_victim (hchosen 0 0).length_disjoint hrealised
    exact ⟨set, lines, hset, hlines⟩
  choose set lines hset hlines hrealised using hcandidates
  refine ⟨⟨victimSet, lines⟩, ?_, victimHist, hvictim, hrealised⟩
  have hpools := forAll_eq_some fun p => (hcounts p).1
  have hsets := forAll_eq_some hset
  have hbackground := forAll_eq_some hlines
  simp only [selectLines, Option.bind_eq_bind, h.classSpace, h.offsets, hpools, hchoose,
    hvictim.collected, hsets, hvictim.histogram, hbackground, Option.bind_some]

/-- With a quota, `main` gives up just if too few classes have it in all the pools, and else has the
    lines of the victim and of all the candidates. -/
theorem selectLines_levels {seed : UInt64} (hgroup : groupClasses ≠ 0)
    (hfour : groupClasses % 4 = 0) (halloc : groupClasses * 8 < 2 ^ 64) (hquota : 0 < quotaLines) :
    (selectLines mapping pools groupClasses quotaLines seed = none ↔
      ((List.range space).countP fun cls =>
        ∀ p, quotaLines ≤ lineCount (pools p) mapping offsetClasses (UInt64.ofNat cls)) <
          2 * groupClasses) ∧
    ∀ selected, selectLines mapping pools groupClasses quotaLines seed = some selected →
      ∃ victimClasses disjointClasses victimHist,
        victimClasses.length = groupClasses ∧ disjointClasses.length = groupClasses ∧
        (victimClasses ++ disjointClasses).Nodup ∧
        CollectedLines (pools 0) mapping offsetClasses space victimClasses quotaLines
          (seed ^^^ 0x4444444444444444) selected.victim victimHist ∧
        ∀ i : Fin candidateCount, CandidateRealised mapping (pools i.succ) offsetClasses space
          victimClasses disjointClasses groupClasses quotaLines seed i (selected.background i) := by
  have hdouble : groupClasses * 2 < 2 ^ 64 := by omega
  rw [← length_commonEligibleClasses h hcounts]
  rcases lt_or_ge (commonEligibleClasses poolCounts space quotaLines).length (2 * groupClasses)
    with hlen | hlen
  -- too few classes: `choose_class_sets` fails, and nothing else does
  · have hchoose := @chooseClassSets_eq_none poolCounts space groupClasses quotaLines seed
      hdouble hquota.ne' hlen
    have hpools := forAll_eq_some fun p => (hcounts p).1
    have hnone : selectLines mapping pools groupClasses quotaLines seed = none := by
      simp only [selectLines, Option.bind_eq_bind, h.classSpace, h.offsets, hpools, hchoose,
        Option.bind_some, Option.bind_none]
    refine ⟨iff_of_true hnone hlen, fun selected hselected => ?_⟩
    rw [hnone] at hselected
    cases hselected
  · obtain ⟨victimClasses, disjointClasses, hchoose, hchosen⟩ :=
      @exists_chosen poolCounts space groupClasses quotaLines seed (h.space_le.trans (by decide))
        hgroup hdouble hquota.ne' hlen
    obtain ⟨selected, hselected, victimHist, hrealised⟩ :=
      selectLines_of_chosen h hcounts hgroup hfour halloc hquota hchoose hchosen
    refine ⟨iff_of_false (by rw [hselected]; exact Option.some_ne_none _) (not_lt.2 hlen), ?_⟩
    intro selected' hselected'
    obtain rfl : selected = selected' := by
      rw [hselected] at hselected'
      exact Option.some.inj hselected'
    exact ⟨victimClasses, disjointClasses, victimHist, (hchosen 0 0).length_victim,
      (hchosen 0 0).length_disjoint, (hchosen 0 0).nodup, hrealised⟩

end Pools

/-- With a working set, `main` gives up just if it has no quota, or too few classes have it in all
    the pools. Else it has a quota that makes up the working set, and the lines of the victim and
    of all the candidates. -/
theorem mainLines_levels (hspace : classSpaceFromMapping mapping = some space)
    (hpage : ∃ s, 6 ≤ s ∧ pageSize = 2 ^ s) (pools : Fin poolCount → MemoryPool pageSize)
    (seed : UInt64) {worksetMib : ℕ} (hmib : worksetMib ≠ 0) (hgroup : groupClasses ≠ 0)
    (halloc : groupClasses * 8 < 2 ^ 64) :
    ∃ offsetClasses, buildOffsetClasses mapping pageSize = some offsetClasses ∧
      (mainLines mapping pools worksetMib groupClasses seed = none ↔
        ∀ quotaLines, worksetQuota worksetMib groupClasses = some quotaLines →
          ((List.range space).countP fun cls =>
            ∀ p, quotaLines ≤ lineCount (pools p) mapping offsetClasses (UInt64.ofNat cls)) <
              2 * groupClasses) ∧
      ∀ selected, mainLines mapping pools worksetMib groupClasses seed = some selected →
        ∃ quotaLines victimClasses disjointClasses victimHist,
          quotaLines * groupClasses * cachelineBytes = worksetMib * mibBytes ∧
          CollectedLines (pools 0) mapping offsetClasses space victimClasses quotaLines
            (seed ^^^ 0x4444444444444444) selected.victim victimHist ∧
          ∀ i : Fin candidateCount, CandidateRealised mapping (pools i.succ) offsetClasses space
            victimClasses disjointClasses groupClasses quotaLines seed i
            (selected.background i) := by
  obtain ⟨offsetClasses, _, _, hcounted⟩ := exists_counted hspace hpage (pools 0) (pools 0)
  have h := hcounted.toPrepared
  choose poolCounts hcounts using fun p => h.exists_counts (pools p)
  refine ⟨offsetClasses, h.offsets, ?_⟩
  rw [mainLines]
  cases hsome : worksetQuota worksetMib groupClasses with
  | none => exact ⟨iff_of_true rfl nofun, nofun⟩
  | some quotaLines =>
    obtain ⟨hfour, hquota, hset⟩ := worksetQuota_eq_some hmib hsome
    obtain ⟨hnone, hlines⟩ :=
      @selectLines_levels _ _ _ groupClasses quotaLines _ _ _ h hcounts seed hgroup hfour halloc
        hquota
    refine ⟨⟨fun hgive quotaLines' hquota' => ?_, fun hall => hnone.2 (hall quotaLines rfl)⟩, ?_⟩
    · obtain rfl := Option.some.inj hquota'
      exact hnone.1 hgive
    · intro selected hselected
      obtain ⟨victimClasses, disjointClasses, victimHist, -, -, -, hvictim, hrealised⟩ :=
        hlines selected hselected
      exact ⟨quotaLines, victimClasses, disjointClasses, victimHist, hset, hvictim, hrealised⟩

/-- The candidates share their levels. For every mapping with a class space, page size, seed and
    six pools, a number of classes in a group that is a multiple of four, and a quota, if memory is
    there, `main` gives up only if less than twice the classes of a group have a quota of lines in
    all the pools. Else it has lines of the victim and of all five candidates, a quota of each of
    their classes; the candidate `i` shares `i` quarters of the classes with the victim, and their
    intersection and union are those of its level. -/
theorem candidates_share_their_levels (hspace : classSpaceFromMapping mapping = some space)
    (hpage : ∃ s, 6 ≤ s ∧ pageSize = 2 ^ s) (pools : Fin poolCount → MemoryPool pageSize)
    (seed : UInt64) (hgroup : groupClasses ≠ 0) (hfour : groupClasses % 4 = 0)
    (halloc : groupClasses * 8 < 2 ^ 64) (hquota : 0 < quotaLines) :
    ∃ offsetClasses, buildOffsetClasses mapping pageSize = some offsetClasses ∧
      (selectLines mapping pools groupClasses quotaLines seed = none ↔
        ((List.range space).countP fun cls =>
          ∀ p, quotaLines ≤ lineCount (pools p) mapping offsetClasses (UInt64.ofNat cls)) <
            2 * groupClasses) ∧
      ∀ selected, selectLines mapping pools groupClasses quotaLines seed = some selected →
        ∃ victimClasses disjointClasses victimHist,
          victimClasses.length = groupClasses ∧ disjointClasses.length = groupClasses ∧
          (victimClasses ++ disjointClasses).Nodup ∧
          CollectedLines (pools 0) mapping offsetClasses space victimClasses quotaLines
            (seed ^^^ 0x4444444444444444) selected.victim victimHist ∧
          ∀ i : Fin candidateCount, CandidateRealised mapping (pools i.succ) offsetClasses space
            victimClasses disjointClasses groupClasses quotaLines seed i
            (selected.background i) := by
  obtain ⟨offsetClasses, _, _, hcounted⟩ := exists_counted hspace hpage (pools 0) (pools 0)
  have h := hcounted.toPrepared
  choose poolCounts hcounts using fun p => h.exists_counts (pools p)
  exact ⟨offsetClasses, h.offsets, selectLines_levels h hcounts hgroup hfour halloc hquota⟩

/-- Three masks and six pools of two pages with eight lines each: all the classes have their two
    lines in all of them. -/
theorem candidates_share_their_levels_two :
    let mapping : DramMapping := ⟨[0x40, 0x80, 0x100], [], true⟩
    let pools : Fin poolCount → MemoryPool 512 := fun p =>
      ⟨0x10000 * (p + 1), 1024, 2, [UInt64.ofNat p + 5, UInt64.ofNat p + 40], rfl,
        by have hp : (p : ℕ) < 6 := p.isLt; omega, rfl⟩
    ∃ selected, selectLines mapping pools 4 2 42 = some selected ∧
      ∀ i : Fin candidateCount, (selected.background i).shared = i := by
  intro mapping pools
  obtain ⟨offsetClasses, hoffsets, hnone, hsome⟩ := candidates_share_their_levels
    (show classSpaceFromMapping mapping = some 8 by decide) ⟨9, by decide, by decide⟩ pools 42
    (show 4 ≠ 0 by decide) (by decide) (by decide) (show 0 < 2 by decide)
  obtain rfl : [0, 1, 2, 3, 4, 5, 6, 7] = offsetClasses :=
    Option.some.inj (Eq.trans (by decide +kernel) hoffsets)
  have hcommon : ((List.range 8).countP fun cls =>
      ∀ p, 2 ≤ lineCount (pools p) mapping [0, 1, 2, 3, 4, 5, 6, 7] (UInt64.ofNat cls)) = 8 := by
    decide +kernel
  cases hselected : selectLines mapping pools 4 2 42 with
  | none =>
    have hlt := hnone.1 hselected
    rw [hcommon] at hlt
    omega
  | some selected =>
    obtain ⟨_, _, _, -, -, -, -, hrealised⟩ := hsome selected hselected
    refine ⟨selected, rfl, fun i => ?_⟩
    have hlevel := (hrealised i).level
    omega

end Select

end CgroupResearch
