import CgroupResearch.Sweep.Collect
import CgroupResearch.Lib.Except

/-!
# The sweep realises the overlap

After it has collected the lines of a condition, the sweep checks what it has: the histograms
of the lines of the victim and of the aggressor must share the classes that the condition
asks for, with a quota of lines each. The check never fails (`requested_overlap_realised`):
once the classes are chosen, both get a quota of lines of each of their classes, so that the
histograms are known (`quotaHistogram`), and the sums of their minima and maxima are a number
of classes times the quota (`exists_realised`).
-/

namespace CgroupResearch

open Quota Histogram
open scoped UInt64.CommRing

/-- The histogram with a quota for each class of a list. -/
def quotaHistogram (space : ℕ) (classes : List UInt64) (quotaLines : ℕ) : List ℕ :=
  (List.range space).map fun c => if UInt64.ofNat c ∈ classes then quotaLines else 0

/-- A set of lines of the classes, and its histogram. -/
structure CollectedLines {pageSize : ℕ} (pool : MemoryPool pageSize) (mapping : DramMapping)
    (offsetClasses : List UInt64) (space : ℕ) (classes : List UInt64) (quotaLines : ℕ)
    (seed : UInt64) (set : LineSet pageSize) (hist : List UInt64) : Prop where
  collected : collectLineSet pool mapping offsetClasses space classes quotaLines seed = some set
  /-- No line is there twice. -/
  distinct : set.addresses.Nodup
  histogram : buildHistogram set mapping space = some hist
  /-- The quota for each class, and `0` elsewhere. -/
  exact : hist.map UInt64.toNat = quotaHistogram space classes quotaLines

/-! ## The histogram of a set -/

theorem histogramLoop_eq {pageSize space : ℕ} {set : LineSet pageSize} {mapping : DramMapping}
    {addresses : List ℕ} {classes : List UInt64}
    (hclasses : addresses.map (addressBankClass set mapping) = classes.map some)
    (hlt : ∀ cls ∈ classes, cls.toNat < space) (hist : List UInt64) :
    histogramLoop set mapping space addresses hist =
      some ((classes.map UInt64.toNat).foldl increment hist) := by
  induction addresses generalizing classes hist with
  | nil =>
    obtain rfl : classes = [] := by simpa using hclasses.symm
    rfl
  | cons address addresses ih =>
    obtain ⟨cls, classes, rfl⟩ : ∃ cls rest, classes = cls :: rest := by
      cases classes with
      | nil => cases hclasses
      | cons cls rest => exact ⟨cls, rest, rfl⟩
    rw [List.map_cons, List.map_cons, List.cons.injEq] at hclasses
    rw [List.forall_mem_cons] at hlt
    rw [histogramLoop, hclasses.1, Option.bind_some, if_neg (Nat.not_le.2 hlt.1),
      ih hclasses.2 hlt.2, List.map_cons, List.foldl_cons]

theorem mem_map_toNat {classes : List UInt64} {c : ℕ} (hc : c < 2 ^ 64) :
    c ∈ classes.map UInt64.toNat ↔ UInt64.ofNat c ∈ classes := by
  constructor
  · rintro hmem
    obtain ⟨cls, hcls, rfl⟩ := List.mem_map.1 hmem
    rwa [UInt64.ofNat_toNat]
  · intro hmem
    exact List.mem_map.2 ⟨_, hmem, UInt64.toNat_ofNat_of_lt' hc⟩

/-- With a quota of lines of every class in the pool, they are collected, and counted. -/
theorem Prepared.exists_collected {mapping : DramMapping} {pageSize space quotaLines : ℕ}
    {offsetClasses classes : List UInt64} (h : Prepared mapping pageSize space offsetClasses)
    {pool : MemoryPool pageSize} (hquota : 0 < quotaLines) (hne : classes ≠ [])
    (hnodup : classes.Nodup) (hlt : ∀ cls ∈ classes, cls.toNat < space)
    (hcount : ∀ cls ∈ classes, quotaLines ≤ lineCount pool mapping offsetClasses cls)
    (seed : UInt64) : ∃ set hist,
      CollectedLines pool mapping offsetClasses space classes quotaLines seed set hist := by
  obtain ⟨set, hset, hdistinct, hclasses⟩ :=
    h.collectLineSet_exact hquota hne hnodup hlt hcount seed
  have hlt' : ∀ cls ∈ classes.flatMap (List.replicate quotaLines), cls.toNat < space := by
    intro cls hcls
    obtain ⟨cls', hcls', hmem⟩ := List.mem_flatMap.1 hcls
    rw [List.eq_of_mem_replicate hmem]
    exact hlt cls' hcls'
  rw [← map_flatMap_replicate] at hclasses
  refine ⟨set, _, hset, hdistinct, histogramLoop_eq hclasses hlt' _, ?_⟩
  have hquota' : quotaLines < 2 ^ 64 := by
    have hpos := List.length_pos_iff.2 hne
    exact lt_of_le_of_lt (Nat.le_mul_of_pos_left _ hpos) (h.length_mul_quota_lt hnodup hcount)
  have hspace := h.space_le
  rw [foldl_increment, quotaHistogram, List.map_map, map_flatMap_replicate]
  refine List.map_congr_left fun c hc => ?_
  rw [List.mem_range] at hc
  rw [Function.comp_apply, count_flatMap_replicate (hnodup.map fun _ _ => UInt64.toNat_inj.1)]
  simp only [mem_map_toNat (show c < 2 ^ 64 by omega)]
  split
  case isTrue => exact UInt64.toNat_ofNat_of_lt' hquota'
  case isFalse => rfl

/-! ## Sums over the classes -/

section Sums

variable {space quotaLines : ℕ} {classes : List UInt64}

/-- The classes of a list are counted once each. -/
theorem countP_mem_classes (hspace : space ≤ 2 ^ 64) (hnodup : classes.Nodup)
    (hlt : ∀ cls ∈ classes, cls.toNat < space) :
    (List.range space).countP (fun c => UInt64.ofNat c ∈ classes) = classes.length := by
  have hperm : ((List.range space).filter fun c => UInt64.ofNat c ∈ classes).Perm
      (classes.map UInt64.toNat) := by
    refine (List.perm_ext_iff_of_nodup (List.nodup_range.filter _)
      (hnodup.map fun _ _ => UInt64.toNat_inj.1)).2 fun c => ?_
    rw [List.mem_filter, List.mem_range, decide_eq_true_iff]
    constructor
    · intro hc
      exact (mem_map_toNat (hc.1.trans_le hspace)).2 hc.2
    · intro hc
      obtain ⟨cls, hcls, rfl⟩ := List.mem_map.1 hc
      rw [UInt64.ofNat_toNat]
      exact ⟨hlt cls hcls, hcls⟩
  rw [List.countP_eq_length_filter, hperm.length_eq, List.length_map]

theorem sum_quotaHistogram (hspace : space ≤ 2 ^ 64) (hnodup : classes.Nodup)
    (hlt : ∀ cls ∈ classes, cls.toNat < space) :
    (quotaHistogram space classes quotaLines).sum = classes.length * quotaLines := by
  have hsum : ∀ l : List ℕ,
      (l.map fun c => if UInt64.ofNat c ∈ classes then quotaLines else 0).sum =
        l.countP (fun c => UInt64.ofNat c ∈ classes) * quotaLines := by
    intro l
    induction l with
    | nil => simp
    | cons c l ih =>
      rw [List.map_cons, List.sum_cons, ih, List.countP_cons]
      split
      case isTrue hc => simp [hc, Nat.add_mul, Nat.add_comm]
      case isFalse hc => simp [hc]
  rw [quotaHistogram, hsum, countP_mem_classes hspace hnodup hlt]

theorem toNat_eq_zero_iff (x : UInt64) : x.toNat = 0 ↔ x = 0 := by
  rw [← UInt64.toNat_inj]
  rfl

/-- The classes of a histogram are those with a quota. -/
theorem histogramUniqueClasses_eq (hspace : space ≤ 2 ^ 64) (hnodup : classes.Nodup)
    (hlt : ∀ cls ∈ classes, cls.toNat < space) (hquota : 0 < quotaLines) {hist : List UInt64}
    (hexact : hist.map UInt64.toNat = quotaHistogram space classes quotaLines) :
    histogramUniqueClasses hist = classes.length := by
  have hcount : histogramUniqueClasses hist = (hist.map UInt64.toNat).countP (· ≠ 0) := by
    rw [histogramUniqueClasses, List.countP_map]
    refine List.countP_congr fun x _ => ?_
    simp [toNat_eq_zero_iff]
  rw [hcount, hexact, quotaHistogram, List.countP_map, ← countP_mem_classes hspace hnodup hlt]
  refine List.countP_congr fun c _ => ?_
  simp [hquota.ne']

end Sums

/-! ## The intersection and the union -/

section Jaccard

variable {space quotaLines : ℕ} {a b : List UInt64} {as bs : List UInt64}

/-- The loop sums up the smaller and the larger counts. -/
theorem jaccardLoop_eq (a b : List UInt64) (intersection unionCount : UInt64) :
    jaccardLoop a b intersection unionCount =
      (intersection + (List.zipWith (fun x y => if x < y then x else y) a b).sum,
        unionCount + (List.zipWith (fun x y => if y < x then x else y) a b).sum) := by
  induction a generalizing b intersection unionCount with
  | nil => simp [jaccardLoop]
  | cons x a ih =>
    cases b with
    | nil => simp [jaccardLoop]
    | cons y b =>
      rw [jaccardLoop, ih, List.zipWith_cons_cons, List.zipWith_cons_cons, List.sum_cons,
        List.sum_cons, add_assoc, add_assoc]

/-- A sum of words, class by class, if it fits in a word. -/
theorem toNat_sum_zipWith {w : UInt64 → UInt64 → UInt64} {f : ℕ → ℕ → ℕ}
    (hw : ∀ x y, (w x y).toNat = f x.toNat y.toNat)
    (hsum : (List.zipWith f (a.map UInt64.toNat) (b.map UInt64.toNat)).sum < 2 ^ 64) :
    (List.zipWith w a b).sum.toNat =
      (List.zipWith f (a.map UInt64.toNat) (b.map UInt64.toNat)).sum := by
  have hmap : (List.zipWith w a b).map UInt64.toNat =
      List.zipWith f (a.map UInt64.toNat) (b.map UInt64.toNat) := by
    rw [List.map_zipWith, List.zipWith_map]
    simp only [hw]
  rw [← hmap] at hsum ⊢
  exact toNat_sum hsum

/-- The intersection is the sum of the minima. -/
theorem toNat_intersection
    (hsum : (List.zipWith min (a.map UInt64.toNat) (b.map UInt64.toNat)).sum < 2 ^ 64) :
    (histogramJaccard a b).2.1.toNat =
      (List.zipWith min (a.map UInt64.toNat) (b.map UInt64.toNat)).sum := by
  rw [histogramJaccard, jaccardLoop_eq, zero_add, zero_add]
  exact toNat_sum_zipWith toNat_minimum hsum

/-- The union is the sum of the maxima. -/
theorem toNat_union
    (hsum : (List.zipWith max (a.map UInt64.toNat) (b.map UInt64.toNat)).sum < 2 ^ 64) :
    (histogramJaccard a b).2.2.toNat =
      (List.zipWith max (a.map UInt64.toNat) (b.map UInt64.toNat)).sum := by
  rw [histogramJaccard, jaccardLoop_eq, zero_add, zero_add]
  exact toNat_sum_zipWith toNat_maximum hsum

/-- Two histograms with a quota, class by class. -/
theorem zipWith_quotaHistogram {f : ℕ → ℕ → ℕ} {classes : List UInt64}
    (hf : ∀ cls, f (if cls ∈ as then quotaLines else 0) (if cls ∈ bs then quotaLines else 0) =
      if cls ∈ classes then quotaLines else 0) :
    List.zipWith f (quotaHistogram space as quotaLines) (quotaHistogram space bs quotaLines) =
      quotaHistogram space classes quotaLines := by
  rw [quotaHistogram, quotaHistogram, quotaHistogram, List.zipWith_map, List.zipWith_self]
  exact List.map_congr_left fun c _ => hf _

/-- The minima are the quota of the common classes. -/
theorem zipWith_min_quotaHistogram {common : List UInt64}
    (hcommon : ∀ cls, cls ∈ common ↔ cls ∈ as ∧ cls ∈ bs) :
    List.zipWith min (quotaHistogram space as quotaLines) (quotaHistogram space bs quotaLines) =
      quotaHistogram space common quotaLines := by
  refine zipWith_quotaHistogram fun cls => ?_
  simp only [hcommon]
  by_cases ha : cls ∈ as
  · by_cases hb : cls ∈ bs
    · simp [ha, hb]
    · simp [hb]
  · simp [ha]

/-- The maxima are the quota of the classes of both. -/
theorem zipWith_max_quotaHistogram {all : List UInt64}
    (hall : ∀ cls, cls ∈ all ↔ cls ∈ as ∨ cls ∈ bs) :
    List.zipWith max (quotaHistogram space as quotaLines) (quotaHistogram space bs quotaLines) =
      quotaHistogram space all quotaLines := by
  refine zipWith_quotaHistogram fun cls => ?_
  simp only [hall]
  by_cases ha : cls ∈ as
  · by_cases hb : cls ∈ bs
    · simp [ha, hb]
    · simp [ha, hb]
  · simp [ha]

/-- The shared classes of two histograms with a quota are the common ones. -/
theorem histogramSharedClasses_eq {common : List UInt64} (hspace : space ≤ 2 ^ 64)
    (hnodup : common.Nodup) (hlt : ∀ cls ∈ common, cls.toNat < space) (hquota : 0 < quotaLines)
    (hcommon : ∀ cls, cls ∈ common ↔ cls ∈ as ∧ cls ∈ bs)
    (ha : a.map UInt64.toNat = quotaHistogram space as quotaLines)
    (hb : b.map UInt64.toNat = quotaHistogram space bs quotaLines) :
    histogramSharedClasses a b = common.length := by
  have hcount : histogramSharedClasses a b =
      ((a.map UInt64.toNat).zip (b.map UInt64.toNat)).countP fun x => x.1 ≠ 0 ∧ x.2 ≠ 0 := by
    rw [histogramSharedClasses, List.zip_map, List.countP_map]
    refine List.countP_congr fun x _ => ?_
    simp [toNat_eq_zero_iff]
  rw [hcount, ha, hb, quotaHistogram, quotaHistogram, List.zip_map', List.countP_map,
    ← countP_mem_classes hspace hnodup hlt]
  refine List.countP_congr fun c _ => ?_
  simp [hcommon, hquota.ne']

end Jaccard

/-! ## The levels of the sweep -/

/-- The quarters of the classes that are shared in a condition. -/
def Condition.quarters : Condition → ℕ
  | .none => 0
  | .overlap0 => 0
  | .overlap25 => 1
  | .overlap50 => 2
  | .overlap75 => 3
  | .overlap100 => 4

/-- An overlap condition shares its quarters of the classes. -/
theorem exists_sharedClasses {condition : Condition} (hcondition : condition ≠ .none)
    {groupClasses : ℕ} (hgroup : groupClasses ≠ 0) (hfour : groupClasses % 4 = 0)
    (halloc : groupClasses * 8 < 2 ^ 64) :
    ∃ shared, conditionSharedClasses condition groupClasses = some shared ∧
      shared * 4 = condition.quarters * groupClasses ∧ shared ≤ groupClasses := by
  rw [conditionSharedClasses.eq_def, if_neg (by omega)]
  cases condition with
  | none => exact absurd rfl hcondition
  | overlap0 => exact ⟨_, rfl, by simp [Condition.quarters], Nat.zero_le _⟩
  | overlap25 => exact ⟨_, rfl, by rw [Condition.quarters]; omega, by omega⟩
  | overlap50 => exact ⟨_, rfl, by rw [Condition.quarters]; omega, by omega⟩
  | overlap75 =>
    have hmod : groupClasses * 3 % 2 ^ 64 = groupClasses * 3 := Nat.mod_eq_of_lt (by omega)
    exact ⟨groupClasses * 3 / 4, by dsimp only; rw [hmod], by rw [Condition.quarters]; omega,
      by omega⟩
  | overlap100 => exact ⟨_, rfl, by rw [Condition.quarters]; omega, le_rfl⟩

/-- The classes of the aggressor: as many as the victim's, of which they share some. -/
structure OverlapClasses (victimClasses disjointClasses : List UInt64)
    (groupClasses shared : ℕ) (classes : List UInt64) : Prop where
  build : buildOverlapClasses victimClasses disjointClasses groupClasses shared = some classes
  length : classes.length = groupClasses
  sublist : classes.Sublist (victimClasses ++ disjointClasses)
  common : ∀ cls, cls ∈ victimClasses.take shared ↔ cls ∈ victimClasses ∧ cls ∈ classes
  all : ∀ cls, cls ∈ victimClasses ++ disjointClasses.take (groupClasses - shared) ↔
    cls ∈ victimClasses ∨ cls ∈ classes

theorem exists_overlapClasses {victimCounts aggressorCounts : List UInt64}
    {space groupClasses quotaLines : ℕ} {victimClasses disjointClasses : List UInt64}
    (h : Chosen victimCounts aggressorCounts space groupClasses quotaLines victimClasses
      disjointClasses) (hgroup : groupClasses ≠ 0) {shared : ℕ} (hshared : shared ≤ groupClasses) :
    ∃ classes, OverlapClasses victimClasses disjointClasses groupClasses shared classes := by
  have hdisjoint := (List.nodup_append.1 h.nodup).2.2
  refine ⟨victimClasses.take shared ++ disjointClasses.take (groupClasses - shared),
    ?_, ?_, ?_, fun cls => ?_, fun cls => ?_⟩
  · rw [buildOverlapClasses, if_neg (by omega)]
  · rw [List.length_append, List.length_take, List.length_take, h.length_victim, h.length_disjoint]
    omega
  · exact (List.take_sublist _ _).append (List.take_sublist _ _)
  · rw [List.mem_append]
    constructor
    · exact fun hcls => ⟨List.mem_of_mem_take hcls, .inl hcls⟩
    · rintro ⟨hvictim, hcls | hcls⟩
      · exact hcls
      · exact absurd rfl (hdisjoint cls hvictim cls (List.mem_of_mem_take hcls))
  · rw [List.mem_append, List.mem_append]
    constructor
    · exact fun hcls => hcls.imp_right .inr
    · rintro (hcls | hcls | hcls)
      · exact .inl hcls
      · exact .inl (List.mem_of_mem_take hcls)
      · exact .inr hcls

/-- What the sweep has for an overlap condition, given the histogram of the victim: classes
    and lines of the aggressor, with the overlap that the condition asks for. -/
structure Realised {pageSize : ℕ} (mapping : DramMapping) (aggressorPool : MemoryPool pageSize)
    (offsetClasses : List UInt64) (space : ℕ) (victimClasses disjointClasses : List UInt64)
    (groupClasses quotaLines : ℕ) (seed : UInt64) (victimHist : List UInt64)
    (condition : Condition) (shared : ℕ) (classes : List UInt64) (set : LineSet pageSize)
    (hist : List UInt64) : Prop where
  shared_eq : conditionSharedClasses condition groupClasses = some shared
  level : shared * 4 = condition.quarters * groupClasses
  classes_eq :
    buildOverlapClasses victimClasses disjointClasses groupClasses shared = some classes
  collected : CollectedLines aggressorPool mapping offsetClasses space classes quotaLines
    (seed ^^^ 0x5555555555555555) set hist
  unique : histogramUniqueClasses hist = groupClasses
  actualShared : histogramSharedClasses victimHist hist = shared
  intersection : (histogramJaccard victimHist hist).2.1.toNat = shared * quotaLines
  union : (histogramJaccard victimHist hist).2.2.toNat = (2 * groupClasses - shared) * quotaLines

/-- The lines of both pools are counted. -/
structure Counted {pageSize : ℕ} (mapping : DramMapping)
    (victimPool aggressorPool : MemoryPool pageSize) (space : ℕ)
    (offsetClasses victimCounts aggressorCounts : List UInt64) : Prop extends
    Prepared mapping pageSize space offsetClasses where
  victim : countLineClasses victimPool mapping offsetClasses space = some victimCounts
  aggressor : countLineClasses aggressorPool mapping offsetClasses space = some aggressorCounts
  victimLines : ∀ cls : UInt64, cls.toNat < space →
    (victimCounts.getD cls.toNat 0).toNat = lineCount victimPool mapping offsetClasses cls
  aggressorLines : ∀ cls : UInt64, cls.toNat < space →
    (aggressorCounts.getD cls.toNat 0).toNat = lineCount aggressorPool mapping offsetClasses cls

/-- The lines of both pools are counted. -/
theorem exists_counted {mapping : DramMapping} {pageSize space : ℕ}
    (hspace : classSpaceFromMapping mapping = some space) (hpage : ∃ s, 6 ≤ s ∧ pageSize = 2 ^ s)
    (victimPool aggressorPool : MemoryPool pageSize) :
    ∃ offsetClasses victimCounts aggressorCounts, Counted mapping victimPool aggressorPool space
      offsetClasses victimCounts aggressorCounts := by
  obtain ⟨offsetClasses, hoffsets⟩ :
      ∃ offsetClasses, buildOffsetClasses mapping pageSize = some offsetClasses := by
    obtain ⟨s, hs, rfl⟩ := hpage
    have hmod : 2 ^ s % cachelineBytes = 0 := Nat.mod_eq_zero_of_dvd (pow_dvd_pow 2 hs)
    rw [buildOffsetClasses, if_neg (not_not.2 hmod)]
    exact ⟨_, rfl⟩
  have h : Prepared mapping pageSize space offsetClasses := ⟨hspace, hpage, hoffsets⟩
  obtain ⟨victimCounts, hvictim, hvictimLines⟩ := h.exists_counts victimPool
  obtain ⟨aggressorCounts, haggressor, haggressorLines⟩ := h.exists_counts aggressorPool
  exact ⟨offsetClasses, victimCounts, aggressorCounts, h, hvictim, haggressor, hvictimLines,
    haggressorLines⟩

section Levels

variable {mapping : DramMapping} {pageSize space groupClasses quotaLines : ℕ}
  {offsetClasses victimCounts aggressorCounts victimClasses disjointClasses : List UInt64}
  {victimPool aggressorPool : MemoryPool pageSize}
  (h : Counted mapping victimPool aggressorPool space offsetClasses victimCounts aggressorCounts)
  (hchosen : Chosen victimCounts aggressorCounts space groupClasses quotaLines victimClasses
    disjointClasses)
  (hgroup : groupClasses ≠ 0) (hquota : 0 < quotaLines)

/-- Some of the chosen classes, none twice. -/
structure SomeChosen (victimPool aggressorPool : MemoryPool pageSize) (mapping : DramMapping)
    (offsetClasses : List UInt64) (space quotaLines : ℕ) (classes : List UInt64) : Prop where
  nodup : classes.Nodup
  lt : ∀ cls ∈ classes, cls.toNat < space
  victim : ∀ cls ∈ classes, quotaLines ≤ lineCount victimPool mapping offsetClasses cls
  aggressor : ∀ cls ∈ classes, quotaLines ≤ lineCount aggressorPool mapping offsetClasses cls

include h hchosen in
theorem someChosen {classes : List UInt64}
    (hsub : classes.Sublist (victimClasses ++ disjointClasses)) :
    SomeChosen victimPool aggressorPool mapping offsetClasses space quotaLines classes where
  nodup := hchosen.nodup.sublist hsub
  lt cls hcls := (hchosen.eligible cls (hsub.subset hcls)).1
  victim cls hcls := by
    obtain ⟨hlt, hle, -⟩ := hchosen.eligible cls (hsub.subset hcls)
    rwa [← h.victimLines cls hlt]
  aggressor cls hcls := by
    obtain ⟨hlt, -, hle⟩ := hchosen.eligible cls (hsub.subset hcls)
    rwa [← h.aggressorLines cls hlt]

include h hchosen hgroup hquota in
/-- The lines of the victim are collected. -/
theorem exists_collected_victim (seed : UInt64) : ∃ set hist,
    CollectedLines victimPool mapping offsetClasses space victimClasses quotaLines seed set hist ∧
      histogramUniqueClasses hist = groupClasses := by
  have hsome := someChosen h hchosen (List.sublist_append_left _ _)
  have hne : victimClasses ≠ [] := by
    rw [← List.length_pos_iff, hchosen.length_victim]
    omega
  obtain ⟨set, hist, hcollected⟩ :=
    h.exists_collected hquota hne hsome.nodup hsome.lt hsome.victim seed
  refine ⟨set, hist, hcollected, ?_⟩
  rw [histogramUniqueClasses_eq (h.space_le.trans (by decide)) hsome.nodup hsome.lt hquota
    hcollected.exact, hchosen.length_victim]

include h hchosen hgroup hquota in
/-- Every overlap condition is realised. -/
theorem exists_realised (hfour : groupClasses % 4 = 0) (halloc : groupClasses * 8 < 2 ^ 64)
    {victimHist : List UInt64}
    (hexact : victimHist.map UInt64.toNat = quotaHistogram space victimClasses quotaLines)
    (seed : UInt64) {condition : Condition} (hcondition : condition ≠ .none) :
    ∃ shared classes set hist,
      Realised mapping aggressorPool offsetClasses space victimClasses disjointClasses groupClasses
        quotaLines seed victimHist condition shared classes set hist := by
  obtain ⟨shared, hshared, hlevel, hle⟩ := exists_sharedClasses hcondition hgroup hfour halloc
  obtain ⟨classes, hclasses⟩ := exists_overlapClasses hchosen hgroup hle
  have hspace : space ≤ 2 ^ 64 := h.space_le.trans (by decide)
  have hsome := someChosen h hchosen hclasses.sublist
  have hne : classes ≠ [] := by
    rw [← List.length_pos_iff, hclasses.length]
    omega
  obtain ⟨set, hist, hcollected⟩ := h.exists_collected hquota hne hsome.nodup hsome.lt
    hsome.aggressor (seed ^^^ 0x5555555555555555)
  -- the common classes, and those of both
  have hcommon := someChosen h hchosen
    ((List.take_sublist shared victimClasses).trans (List.sublist_append_left _ disjointClasses))
  have hall := someChosen h hchosen ((List.Sublist.refl victimClasses).append
    (List.take_sublist (groupClasses - shared) disjointClasses))
  have hlen_common : (victimClasses.take shared).length = shared := by
    rw [List.length_take, hchosen.length_victim, min_eq_left hle]
  have hlen_all : (victimClasses ++ disjointClasses.take (groupClasses - shared)).length =
      2 * groupClasses - shared := by
    rw [List.length_append, List.length_take, hchosen.length_victim, hchosen.length_disjoint]
    omega
  have hmin : (List.zipWith min (victimHist.map UInt64.toNat) (hist.map UInt64.toNat)).sum =
      shared * quotaLines := by
    rw [hexact, hcollected.exact, zipWith_min_quotaHistogram hclasses.common,
      sum_quotaHistogram hspace hcommon.nodup hcommon.lt, hlen_common]
  have hmax : (List.zipWith max (victimHist.map UInt64.toNat) (hist.map UInt64.toNat)).sum =
      (2 * groupClasses - shared) * quotaLines := by
    rw [hexact, hcollected.exact, zipWith_max_quotaHistogram hclasses.all,
      sum_quotaHistogram hspace hall.nodup hall.lt, hlen_all]
  have hlt_common := h.length_mul_quota_lt hcommon.nodup hcommon.victim
  have hlt_all := h.length_mul_quota_lt hall.nodup hall.victim
  rw [hlen_common, ← hmin] at hlt_common
  rw [hlen_all, ← hmax] at hlt_all
  refine ⟨shared, classes, set, hist, hshared, hlevel, hclasses.build, hcollected, ?_, ?_, ?_, ?_⟩
  · rw [histogramUniqueClasses_eq hspace hsome.nodup hsome.lt hquota hcollected.exact,
      hclasses.length]
  · rw [histogramSharedClasses_eq hspace hcommon.nodup hcommon.lt hquota hclasses.common hexact
      hcollected.exact, hlen_common]
  · rw [toNat_intersection hlt_common, hmin]
  · rw [toNat_union hlt_all, hmax]

end Levels

/-! ## The sweep -/

section Sweep

variable {mapping : DramMapping} {pageSize space groupClasses quotaLines : ℕ}
  {victimPool aggressorPool : MemoryPool pageSize} {seed : UInt64}

section Realised

variable {offsetClasses victimClasses disjointClasses victimHist classes hist : List UInt64}
  {condition : Condition} {shared : ℕ} {set : LineSet pageSize}
  (h : Realised mapping aggressorPool offsetClasses space victimClasses disjointClasses
    groupClasses quotaLines seed victimHist condition shared classes set hist)
include h

/-- The intersection is the product of words with which the program compares it. -/
theorem Realised.intersection_eq : (histogramJaccard victimHist hist).2.1 =
    UInt64.ofNat shared * UInt64.ofNat quotaLines := by
  rw [← UInt64.ofNat_mul, ← h.intersection, UInt64.ofNat_toNat]

/-- So is the union. -/
theorem Realised.union_eq : (histogramJaccard victimHist hist).2.2 =
    (UInt64.ofNat groupClasses * 2 - UInt64.ofNat shared) * UInt64.ofNat quotaLines := by
  have hle : shared ≤ 2 * groupClasses := by
    have hquarters : condition.quarters ≤ 4 := by cases condition <;> decide
    have hlevel := h.level
    have := Nat.mul_le_mul_right groupClasses hquarters
    omega
  have hsub : UInt64.ofNat groupClasses * 2 - UInt64.ofNat shared =
      UInt64.ofNat (2 * groupClasses - shared) := by
    rw [UInt64.ofNat_sub hle, UInt64.ofNat_mul, mul_comm]
    rfl
  rw [hsub, ← UInt64.ofNat_mul, ← h.union, UInt64.ofNat_toNat]

end Realised

/-- The check of a realised condition passes. -/
theorem sweepCondition_of_realised {b : SweepBase} {condition : Condition} {shared : ℕ}
    {classes : List UInt64} {set : LineSet pageSize} {hist : List UInt64}
    (hcondition : condition ≠ .none)
    (h : Realised mapping aggressorPool b.offsetClasses b.classSpace b.victimClasses
      b.disjointClasses groupClasses quotaLines seed b.victimHist condition shared classes set
      hist) :
    sweepCondition mapping aggressorPool groupClasses quotaLines seed b condition =
      .ok ((histogramJaccard b.victimHist hist).1, shared) := by
  rw [sweepCondition, if_neg hcondition, h.shared_eq, orFail_some_bind, h.classes_eq,
    orFail_some_bind, h.collected.collected, orFail_some_bind, h.collected.histogram,
    orFail_some_bind, if_neg (not_not.2 h.unique)]
  dsimp only
  rw [if_neg (by simp [h.actualShared, h.intersection_eq, h.union_eq]), h.actualShared]

section Counted

variable {offsetClasses victimCounts aggressorCounts : List UInt64}
  (h : Counted mapping victimPool aggressorPool space offsetClasses victimCounts aggressorCounts)
include h

theorem sweepVictim_eq_error
    (hchoose : chooseBaseClassSets victimCounts aggressorCounts space groupClasses quotaLines seed =
      none) :
    sweepVictim mapping victimPool aggressorPool groupClasses quotaLines seed =
      .error .baseClassSets := by
  rw [sweepVictim, h.classSpace, orFail_some_bind, h.offsets, orFail_some_bind, h.victim,
    orFail_some_bind, h.aggressor, orFail_some_bind, hchoose, orFail_none_bind]

theorem sweepVictim_eq_ok {victimClasses disjointClasses victimHist : List UInt64}
    {victimSet : LineSet pageSize}
    (hchoose : chooseBaseClassSets victimCounts aggressorCounts space groupClasses quotaLines seed =
      some (victimClasses, disjointClasses))
    (hcollected : CollectedLines victimPool mapping offsetClasses space victimClasses quotaLines
      (seed ^^^ 0x4444444444444444) victimSet victimHist)
    (hunique : histogramUniqueClasses victimHist = groupClasses) :
    sweepVictim mapping victimPool aggressorPool groupClasses quotaLines seed =
      .ok ⟨space, offsetClasses, victimClasses, disjointClasses, victimHist⟩ := by
  rw [sweepVictim, h.classSpace, orFail_some_bind, h.offsets, orFail_some_bind, h.victim,
    orFail_some_bind, h.aggressor, orFail_some_bind, hchoose, orFail_some_bind]
  dsimp only
  rw [hcollected.collected, orFail_some_bind, hcollected.histogram, orFail_some_bind,
    if_neg (not_not.2 hunique)]

/-- Once the classes are chosen, the victim and every overlap condition get their lines, and
    the sweep does not fail. -/
theorem sweep_of_chosen (hgroup : groupClasses ≠ 0) (hfour : groupClasses % 4 = 0)
    (halloc : groupClasses * 8 < 2 ^ 64) (hquota : 0 < quotaLines)
    {victimClasses disjointClasses : List UInt64}
    (hchoose : chooseBaseClassSets victimCounts aggressorCounts space groupClasses quotaLines seed =
      some (victimClasses, disjointClasses)) :
    (∃ victimSet victimHist,
      CollectedLines victimPool mapping offsetClasses space victimClasses quotaLines
        (seed ^^^ 0x4444444444444444) victimSet victimHist ∧
      ∀ condition ≠ .none, ∃ shared classes set hist,
        Realised mapping aggressorPool offsetClasses space victimClasses disjointClasses
          groupClasses quotaLines seed victimHist condition shared classes set hist) ∧
    ∀ order, ∃ results, sweepConditions mapping victimPool aggressorPool groupClasses quotaLines
      seed order = .ok results := by
  have hchosen :=
    chosen_of_chooseBaseClassSets (h.space_le.trans (by decide)) (by omega) hchoose
  obtain ⟨victimSet, victimHist, hcollected, hunique⟩ :=
    exists_collected_victim h hchosen hgroup hquota (seed ^^^ 0x4444444444444444)
  have hlevels : ∀ condition ≠ .none, ∃ shared classes set hist,
      Realised mapping aggressorPool offsetClasses space victimClasses disjointClasses
        groupClasses quotaLines seed victimHist condition shared classes set hist := by
    intro condition hcondition
    exact exists_realised h hchosen hgroup hquota hfour halloc hcollected.exact seed hcondition
  refine ⟨⟨victimSet, victimHist, hcollected, hlevels⟩, fun order => ?_⟩
  rw [sweepConditions, sweepVictim_eq_ok h hchoose hcollected hunique]
  refine Except.exists_mapM_eq_ok (fun condition => ?_) order
  by_cases hcondition : condition = .none
  · rw [sweepCondition, if_pos hcondition]
    exact ⟨_, rfl⟩
  · obtain ⟨shared, classes, set, hist, hrealised⟩ := hlevels condition hcondition
    exact ⟨_, sweepCondition_of_realised hcondition hrealised⟩

end Counted

/-- The overlap sweep realises every overlap it is asked for. For every mapping with a class
    space, page size, pools and seed, the lines are counted. If the classes are chosen, lines
    of the victim and, in every overlap condition, of the aggressor are collected, with a
    quota of each class in their histograms; the intersection and the union are those of the
    condition, and the sweep does not fail. It never fails for an overlap that does not
    match. -/
theorem requested_overlap_realised (hspace : classSpaceFromMapping mapping = some space)
    (hpage : ∃ s, 6 ≤ s ∧ pageSize = 2 ^ s) (victimPool aggressorPool : MemoryPool pageSize)
    (seed : UInt64) (hgroup : groupClasses ≠ 0) (hfour : groupClasses % 4 = 0)
    (halloc : groupClasses * 8 < 2 ^ 64) (hquota : 1 ≤ quotaLines) :
    (∃ offsetClasses victimCounts aggressorCounts,
      buildOffsetClasses mapping pageSize = some offsetClasses ∧
      countLineClasses victimPool mapping offsetClasses space = some victimCounts ∧
      countLineClasses aggressorPool mapping offsetClasses space = some aggressorCounts ∧
      ∀ victimClasses disjointClasses,
        chooseBaseClassSets victimCounts aggressorCounts space groupClasses quotaLines seed =
          some (victimClasses, disjointClasses) →
        (∃ victimSet victimHist,
          CollectedLines victimPool mapping offsetClasses space victimClasses quotaLines
            (seed ^^^ 0x4444444444444444) victimSet victimHist ∧
          ∀ condition ≠ .none, ∃ shared classes set hist,
            Realised mapping aggressorPool offsetClasses space victimClasses disjointClasses
              groupClasses quotaLines seed victimHist condition shared classes set hist) ∧
        ∀ order, ∃ results, sweepConditions mapping victimPool aggressorPool groupClasses quotaLines
          seed order = .ok results) ∧
    ∀ order, sweepConditions mapping victimPool aggressorPool groupClasses quotaLines seed order ≠
      .error .overlapMismatch := by
  obtain ⟨offsetClasses, victimCounts, aggressorCounts, h⟩ :=
    exists_counted hspace hpage victimPool aggressorPool
  refine ⟨⟨offsetClasses, victimCounts, aggressorCounts, h.offsets, h.victim, h.aggressor,
    fun _ _ hchoose => sweep_of_chosen h hgroup hfour halloc hquota hchoose⟩, ?_⟩
  intro order herror
  cases hchoose :
    chooseBaseClassSets victimCounts aggressorCounts space groupClasses quotaLines seed with
  | none =>
    rw [sweepConditions, sweepVictim_eq_error h hchoose] at herror
    cases herror
  | some classes =>
    obtain ⟨results, hresults⟩ := (sweep_of_chosen h hgroup hfour halloc hquota hchoose).2 order
    rw [hresults] at herror
    cases herror

/-- Three masks and pools of two pages with eight lines each: all the classes have their two
    lines, and four are chosen for the victim. -/
theorem requested_overlap_realised_two :
    let mapping : DramMapping := ⟨[0x40, 0x80, 0x100], [], true⟩
    let victimPool : MemoryPool 512 := ⟨0x10000, 1024, 2, [5, 9], rfl, by decide, rfl⟩
    let aggressorPool : MemoryPool 512 := ⟨0x20000, 1024, 2, [3, 12], rfl, by decide, rfl⟩
    let counts : List UInt64 := List.replicate 8 2
    classSpaceFromMapping mapping = some 8 ∧
    chooseBaseClassSets counts counts 8 4 2 42 = some ([1, 4, 3, 5], [6, 2, 7, 0]) ∧
    ∀ order, ∃ results, sweepConditions mapping victimPool aggressorPool 4 2 42 order =
      .ok results := by
  intro mapping victimPool aggressorPool counts
  have hspace : classSpaceFromMapping mapping = some 8 := by decide
  have hchoose :
      chooseBaseClassSets counts counts 8 4 2 42 = some ([1, 4, 3, 5], [6, 2, 7, 0]) := by
    decide +kernel
  refine ⟨hspace, hchoose, ?_⟩
  obtain ⟨⟨offsetClasses, victimCounts, aggressorCounts, hoffsets, hvictim, haggressor, h⟩, -⟩ :=
    requested_overlap_realised hspace ⟨9, by decide, by decide⟩ victimPool aggressorPool 42
      (show 4 ≠ 0 by decide) (by decide) (by decide) (show 1 ≤ 2 by decide)
  obtain rfl : [0, 1, 2, 3, 4, 5, 6, 7] = offsetClasses :=
    Option.some.inj (Eq.trans (by decide +kernel) hoffsets)
  obtain rfl : counts = victimCounts := Option.some.inj (Eq.trans (by decide +kernel) hvictim)
  obtain rfl : counts = aggressorCounts :=
    Option.some.inj (Eq.trans (by decide +kernel) haggressor)
  exact (h _ _ hchoose).2

end Sweep

end CgroupResearch
