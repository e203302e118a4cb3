import CgroupResearch.Sweep.Program
import Mathlib.Data.List.Perm.Basic
import Mathlib.Data.List.ProdSigma

/-!
# Collecting lines

`collect_line_set` looks at the lines of a pool in a shuffled order and takes, of every
class it is asked for, the first lines up to the quota. With the pool's counts of these
classes not below the quota, it finds them all, whatever the order
(`collectLineSet_exact`).

A line is a page and a number in it, and its class is computed in two ways: from the classes
of the page and of the offset when it is counted and collected (`lineClass`), and from the
whole physical address when the histogram is built. They agree, as a page begins at a
multiple of its size (`addressBankClass_lineAddress`).
-/

namespace CgroupResearch

open Quota Histogram

/-! ## Shuffling -/

section Shuffle

variable {α : Type*}

theorem swapValues_perm (values : List α) (i j : ℕ) : (swapValues values i j).Perm values := by
  rw [swapValues]
  split
  case isTrue h => exact List.set_set_perm h.1 h.2
  case isFalse => exact .refl _

/-- The loop only changes the order. -/
theorem shuffleLoop_perm (i : ℕ) (state : UInt64) (values : List α) :
    (shuffleLoop i state values).Perm values := by
  induction i generalizing state values with
  | zero => exact .refl _
  | succ i ih => exact (ih _ _).trans (swapValues_perm _ _ _)

/-- A shuffle only changes the order. -/
theorem shuffle_perm (values : List α) (seed : UInt64) : (shuffle values seed).Perm values := by
  rw [shuffle]
  split
  case isTrue => exact .refl _
  case isFalse => exact shuffleLoop_perm _ _ _

end Shuffle

/-! ## The class of a line -/

/-- What `main` has of the mapping before it looks at the pools. -/
structure Prepared (mapping : DramMapping) (pageSize space : ℕ) (offsetClasses : List UInt64) :
    Prop where
  classSpace : classSpaceFromMapping mapping = some space
  page : ∃ s, 6 ≤ s ∧ pageSize = 2 ^ s
  offsets : buildOffsetClasses mapping pageSize = some offsetClasses

/-- The class of a line of a pool, from those of its page and of its offset. -/
def lineClass {pageSize : ℕ} (pool : MemoryPool pageSize) (mapping : DramMapping)
    (offsetClasses : List UInt64) (line : ℕ × ℕ) : UInt64 :=
  dramMappingBankClassFast mapping (pool.pfns.getD line.1 0 * UInt64.ofNat pageSize) ^^^
    offsetClasses.getD line.2 0

/-- The address of a line. -/
def lineAddress {pageSize : ℕ} (pool : MemoryPool pageSize) (line : ℕ × ℕ) : ℕ :=
  pool.base + line.1 * pageSize + line.2 * cachelineBytes

/-- The lines of a pool, page by page. -/
def poolLines {pageSize : ℕ} (pool : MemoryPool pageSize) (offsetClasses : List UInt64) :
    List (ℕ × ℕ) :=
  List.range pool.pageCount ×ˢ List.range offsetClasses.length

/-- The sum of a multiple of a power of two and a smaller number has the bits of both. -/
theorem mul_two_pow_add_eq_xor (x : UInt64) {s off : ℕ} (hs : s < 64) (hoff : off < 2 ^ s) :
    x * UInt64.ofNat (2 ^ s) + UInt64.ofNat off =
      (x * UInt64.ofNat (2 ^ s)) ^^^ UInt64.ofNat off := by
  have hpow : 2 ^ s < 2 ^ 64 := Nat.pow_lt_pow_right one_lt_two hs
  have hbase : (x * UInt64.ofNat (2 ^ s)).toNat = 2 ^ s * (x.toNat % 2 ^ (64 - s)) := by
    rw [UInt64.toNat_mul, UInt64.toNat_ofNat_of_lt' hpow, Nat.mul_comm, ← Nat.mul_mod_mul_left,
      ← Nat.pow_add, Nat.add_sub_cancel' hs.le]
  have hoffset : (UInt64.ofNat off).toNat = off := UInt64.toNat_ofNat_of_lt' (hoff.trans hpow)
  have hsum : 2 ^ s * (x.toNat % 2 ^ (64 - s)) + off < 2 ^ 64 := by
    have hlt : x.toNat % 2 ^ (64 - s) < 2 ^ (64 - s) := Nat.mod_lt _ (Nat.two_pow_pos _)
    calc 2 ^ s * (x.toNat % 2 ^ (64 - s)) + off
        < 2 ^ s * (x.toNat % 2 ^ (64 - s)) + 2 ^ s := Nat.add_lt_add_left hoff _
      _ = 2 ^ s * (x.toNat % 2 ^ (64 - s) + 1) := (Nat.mul_succ _ _).symm
      _ ≤ 2 ^ s * 2 ^ (64 - s) := Nat.mul_le_mul_left _ hlt
      _ = 2 ^ 64 := by rw [← Nat.pow_add, Nat.add_sub_cancel' hs.le]
  refine UInt64.toNat_inj.1 (Nat.eq_of_testBit_eq fun i => ?_)
  rw [UInt64.toNat_add, UInt64.toNat_xor, hbase, hoffset, Nat.mod_eq_of_lt hsum, Nat.testBit_xor,
    Nat.testBit_two_pow_mul_add _ hoff, Nat.testBit_two_pow_mul]
  by_cases hi : i < s
  · simp [hi, Nat.not_le.2 hi]
  · have hzero : off.testBit i = false :=
      Nat.testBit_lt_two_pow (hoff.trans_le (Nat.pow_le_pow_right two_pos (Nat.not_lt.1 hi)))
    simp [hi, Nat.not_lt.1 hi, hzero]

namespace Prepared

variable {mapping : DramMapping} {pageSize space : ℕ} {offsetClasses : List UInt64}
  (h : Prepared mapping pageSize space offsetClasses)
include h

theorem masks_le : mapping.masks.length ≤ 20 := by
  have hspace := h.classSpace
  rw [classSpaceFromMapping] at hspace
  split at hspace
  · cases hspace
  split at hspace
  · cases hspace
  case isFalse hle => exact Nat.not_lt.1 hle

theorem space_eq : space = 2 ^ mapping.masks.length := by
  have hspace := h.classSpace
  have hle := h.masks_le
  rw [classSpaceFromMapping] at hspace
  split at hspace
  · cases hspace
  rw [if_neg (by omega)] at hspace
  exact (Option.some.inj hspace).symm

theorem space_le : space ≤ 2 ^ 20 := by
  rw [h.space_eq]
  exact Nat.pow_le_pow_right two_pos h.masks_le

/-- A page is a whole number of lines. -/
theorem page_eq : pageSize = pageSize / cachelineBytes * cachelineBytes := by
  obtain ⟨s, hs, rfl⟩ := h.page
  have hdvd : cachelineBytes ∣ 2 ^ s := pow_dvd_pow 2 hs
  exact (Nat.div_mul_cancel hdvd).symm

theorem offsets_eq : offsetClasses = (List.range (pageSize / cachelineBytes)).map fun line =>
    dramMappingBankClassFast mapping (UInt64.ofNat (line * cachelineBytes)) := by
  have hoffsets := h.offsets
  rw [buildOffsetClasses] at hoffsets
  split at hoffsets
  · cases hoffsets
  · exact (Option.some.inj hoffsets).symm

theorem length_offsets : offsetClasses.length = pageSize / cachelineBytes := by
  rw [h.offsets_eq, List.length_map, List.length_range]

theorem getD_offsets {line : ℕ} (hline : line < offsetClasses.length) :
    offsetClasses.getD line 0 =
      dramMappingBankClassFast mapping (UInt64.ofNat (line * cachelineBytes)) := by
  rw [h.length_offsets] at hline
  rw [h.offsets_eq]
  simp [hline]

/-- The class of a line is that of the physical address with the bits of both. -/
theorem lineClass_eq (pool : MemoryPool pageSize) {line : ℕ × ℕ}
    (hline : line.2 < offsetClasses.length) : lineClass pool mapping offsetClasses line =
      dramMappingBankClassFast mapping
        ((pool.pfns.getD line.1 0 * UInt64.ofNat pageSize) ^^^
          UInt64.ofNat (line.2 * cachelineBytes)) := by
  rw [lineClass, h.getD_offsets hline, bankClass_xor (h.masks_le.trans (by decide))]

theorem lineClass_lt (pool : MemoryPool pageSize) {line : ℕ × ℕ}
    (hline : line.2 < offsetClasses.length) :
    (lineClass pool mapping offsetClasses line).toNat < space := by
  rw [h.lineClass_eq pool hline, h.space_eq]
  exact bankClass_lt (h.masks_le.trans (by decide)) _

/-- The page and the offset of a line, from its address in the pool. -/
theorem lineAddress_spec {pool : MemoryPool pageSize} {line : ℕ × ℕ}
    (hline : line ∈ poolLines pool offsetClasses) :
    pool.base ≤ lineAddress pool line ∧ lineAddress pool line < pool.base + pool.bytes ∧
      (lineAddress pool line - pool.base) / pageSize = line.1 ∧
      (lineAddress pool line - pool.base) % pageSize = line.2 * cachelineBytes := by
  obtain ⟨page, n⟩ := line
  rw [poolLines, List.mem_product, List.mem_range, List.mem_range, h.length_offsets] at hline
  have hoff : n * cachelineBytes < pageSize := by
    calc n * cachelineBytes < pageSize / cachelineBytes * cachelineBytes :=
          Nat.mul_lt_mul_of_pos_right hline.2 (by decide)
      _ = pageSize := h.page_eq.symm
  have hin : page * pageSize + n * cachelineBytes < pool.bytes := by
    rw [pool.bytes_eq]
    calc page * pageSize + n * cachelineBytes < page * pageSize + pageSize :=
          Nat.add_lt_add_left hoff _
      _ = (page + 1) * pageSize := (Nat.succ_mul page pageSize).symm
      _ ≤ pool.pageCount * pageSize := Nat.mul_le_mul_right pageSize hline.1
  have haddress : lineAddress pool (page, n) =
      pool.base + (n * cachelineBytes + page * pageSize) := by
    rw [lineAddress, Nat.add_assoc, Nat.add_comm (page * pageSize)]
  rw [haddress, Nat.add_sub_cancel_left, Nat.add_mul_div_right _ _ (by omega),
    Nat.div_eq_of_lt hoff, Nat.add_mul_mod_self_right, Nat.mod_eq_of_lt hoff]
  exact ⟨Nat.le_add_right _ _, by omega, Nat.zero_add page, rfl⟩

/-- The class of the whole address of a line. -/
theorem addressBankClass_lineAddress {set : LineSet pageSize} {line : ℕ × ℕ}
    (hline : line ∈ poolLines set.pool offsetClasses) :
    addressBankClass set mapping (lineAddress set.pool line) =
      some (lineClass set.pool mapping offsetClasses line) := by
  obtain ⟨hbase, hend, hpage, hoffset⟩ := h.lineAddress_spec hline
  have hmem := hline
  rw [poolLines, List.mem_product, List.mem_range, List.mem_range] at hmem
  rw [addressBankClass, Nat.mod_eq_of_lt set.pool.mapped, if_neg (by omega)]
  dsimp only
  rw [hpage, hoffset, if_neg (by simp), h.lineClass_eq set.pool hmem.2]
  -- the page size is a word, as there is a page
  have hbytes := set.pool.bytes_eq
  have hmapped := set.pool.mapped
  obtain ⟨s, -, rfl⟩ := h.page
  have hs : s < 64 := by
    rw [← Nat.pow_lt_pow_iff_right one_lt_two]
    calc 2 ^ s ≤ set.pool.pageCount * 2 ^ s := Nat.le_mul_of_pos_left _ (by omega)
      _ = set.pool.bytes := hbytes.symm
      _ < 2 ^ 64 := by omega
  have hoff : line.2 * cachelineBytes < 2 ^ s := hoffset ▸ Nat.mod_lt _ (Nat.two_pow_pos s)
  rw [mul_two_pow_add_eq_xor _ hs hoff]

end Prepared

/-! ## Counting -/

/-- The lines of a class in a pool. -/
def lineCount {pageSize : ℕ} (pool : MemoryPool pageSize) (mapping : DramMapping)
    (offsetClasses : List UInt64) (cls : UInt64) : ℕ :=
  ((poolLines pool offsetClasses).map (lineClass pool mapping offsetClasses)).count cls

theorem countLines_eq {space : ℕ} {baseClass : UInt64} {offsetClasses : List UInt64}
    (hlt : ∀ o ∈ offsetClasses, (baseClass ^^^ o).toNat < space) (counts : List UInt64) :
    countLines space baseClass offsetClasses counts =
      some ((offsetClasses.map fun o => (baseClass ^^^ o).toNat).foldl increment counts) := by
  induction offsetClasses generalizing counts with
  | nil => rfl
  | cons o os ih =>
    rw [List.forall_mem_cons] at hlt
    rw [countLines, if_neg (Nat.not_le.2 hlt.1), ih hlt.2, List.map_cons, List.foldl_cons]

theorem countPages_eq {pageSize space : ℕ} {mapping : DramMapping} {offsetClasses : List UInt64}
    (hlt : ∀ pa, ∀ o ∈ offsetClasses, (dramMappingBankClassFast mapping pa ^^^ o).toNat < space)
    (pfns counts : List UInt64) :
    countPages pageSize mapping offsetClasses space pfns counts =
      some ((pfns.flatMap fun pfn => offsetClasses.map fun o =>
        (dramMappingBankClassFast mapping (pfn * UInt64.ofNat pageSize) ^^^ o).toNat).foldl
          increment counts) := by
  induction pfns generalizing counts with
  | nil => rfl
  | cons pfn pfns ih =>
    rw [countPages, countLines_eq (hlt _), Option.bind_some, ih, List.flatMap_cons,
      List.foldl_append]

/-- A list, by its indices. -/
theorem map_range_getD {α : Type*} (l : List α) (d : α) :
    (List.range l.length).map (fun i => l.getD i d) = l := by
  refine List.ext_getElem (by simp) fun i hi _ => ?_
  rw [List.length_map, List.length_range] at hi
  simp [hi]

/-- The classes of the lines, page by page. -/
theorem map_lineClass {pageSize : ℕ} (pool : MemoryPool pageSize) (mapping : DramMapping)
    (offsetClasses : List UInt64) : (poolLines pool offsetClasses).map (fun line =>
      (lineClass pool mapping offsetClasses line).toNat) =
    pool.pfns.flatMap fun pfn => offsetClasses.map fun o =>
      (dramMappingBankClassFast mapping (pfn * UInt64.ofNat pageSize) ^^^ o).toNat := by
  have hpage : ∀ base : UInt64, (offsetClasses.map fun o => (base ^^^ o).toNat) =
      (List.range offsetClasses.length).map fun n => (base ^^^ offsetClasses.getD n 0).toNat := by
    intro base
    conv_lhs => rw [← map_range_getD offsetClasses 0]
    rw [List.map_map]
    rfl
  simp only [hpage]
  conv_rhs => rw [← map_range_getD pool.pfns 0]
  rw [List.flatMap_map, pool.length_pfns, poolLines]
  refine List.map_flatMap.trans (List.flatMap_congr fun page _ => ?_)
  rw [List.map_map]
  rfl

namespace Prepared

variable {mapping : DramMapping} {pageSize space : ℕ} {offsetClasses : List UInt64}
  (h : Prepared mapping pageSize space offsetClasses)
include h

/-- A pool has fewer than `2 ^ 64` lines. -/
theorem length_poolLines_lt (pool : MemoryPool pageSize) :
    (poolLines pool offsetClasses).length < 2 ^ 64 := by
  rw [poolLines, List.length_product, List.length_range, List.length_range, h.length_offsets]
  calc pool.pageCount * (pageSize / cachelineBytes) ≤ pool.pageCount * pageSize :=
        Nat.mul_le_mul_left _ (Nat.div_le_self _ _)
    _ = pool.bytes := pool.bytes_eq.symm
    _ ≤ pool.base + pool.bytes := Nat.le_add_left _ _
    _ < 2 ^ 64 := pool.mapped

/-- The counts of a pool are there, and those of its lines. -/
theorem exists_counts (pool : MemoryPool pageSize) : ∃ counts,
    countLineClasses pool mapping offsetClasses space = some counts ∧
    ∀ cls : UInt64, cls.toNat < space →
      (counts.getD cls.toNat 0).toNat = lineCount pool mapping offsetClasses cls := by
  have hlt : ∀ pa, ∀ o ∈ offsetClasses,
      (dramMappingBankClassFast mapping pa ^^^ o).toNat < space := by
    intro pa o ho
    rw [h.offsets_eq] at ho
    obtain ⟨line, -, rfl⟩ := List.mem_map.1 ho
    have hlen : mapping.masks.length ≤ 64 := h.masks_le.trans (by decide)
    rw [← bankClass_xor hlen, h.space_eq]
    exact bankClass_lt hlen _
  refine ⟨_, countPages_eq hlt _ _, fun cls hcls => ?_⟩
  rw [← map_lineClass pool, foldl_increment]
  have hcount : ((poolLines pool offsetClasses).map fun line =>
      (lineClass pool mapping offsetClasses line).toNat).count cls.toNat =
      lineCount pool mapping offsetClasses cls := by
    rw [lineCount, ← List.count_map_of_injective _ UInt64.toNat (fun _ _ => UInt64.toNat_inj.1),
      List.map_map]
    rfl
  have hle : lineCount pool mapping offsetClasses cls < 2 ^ 64 := by
    refine lt_of_le_of_lt ?_ (h.length_poolLines_lt pool)
    rw [lineCount, ← List.length_map (lineClass pool mapping offsetClasses)]
    exact List.count_le_length
  rw [List.getD_eq_getElem _ _ (by simpa using hcls), List.getElem_map, List.getElem_range, hcount,
    UInt64.toNat_ofNat_of_lt' hle]

end Prepared

/-! ## Choosing -/

/-- Chosen classes are of the class space, distinct, and have a quota of lines in both
    pools. -/
structure Chosen (victimCounts aggressorCounts : List UInt64) (space groupClasses quotaLines : ℕ)
    (victimClasses disjointClasses : List UInt64) : Prop where
  length_victim : victimClasses.length = groupClasses
  length_disjoint : disjointClasses.length = groupClasses
  nodup : (victimClasses ++ disjointClasses).Nodup
  eligible : ∀ cls ∈ victimClasses ++ disjointClasses, cls.toNat < space ∧
    quotaLines ≤ (victimCounts.getD cls.toNat 0).toNat ∧
    quotaLines ≤ (aggressorCounts.getD cls.toNat 0).toNat

theorem mem_eligibleClasses {victimCounts aggressorCounts : List UInt64} {space quotaLines : ℕ}
    (hspace : space ≤ 2 ^ 64) {cls : UInt64}
    (h : cls ∈ eligibleClasses victimCounts aggressorCounts space quotaLines) :
    cls.toNat < space ∧ quotaLines ≤ (victimCounts.getD cls.toNat 0).toNat ∧
      quotaLines ≤ (aggressorCounts.getD cls.toNat 0).toNat := by
  obtain ⟨c, hc, rfl⟩ := List.mem_map.1 h
  obtain ⟨hc, hcounts⟩ := List.mem_filter.1 hc
  rw [List.mem_range] at hc
  rw [UInt64.toNat_ofNat_of_lt' (hc.trans_le hspace)]
  exact ⟨hc, of_decide_eq_true hcounts⟩

/-- Classes below the class space are distinct words. -/
theorem nodup_map_ofNat {space : ℕ} (hspace : space ≤ 2 ^ 64) (p : ℕ → Bool) :
    (((List.range space).filter p).map UInt64.ofNat).Nodup := by
  refine List.Nodup.map_on ?_ (List.nodup_range.filter _)
  intro c hc c' hc' heq
  rw [List.mem_filter, List.mem_range] at hc hc'
  rw [← UInt64.toNat_ofNat_of_lt' (hc.1.trans_le hspace), heq,
    UInt64.toNat_ofNat_of_lt' (hc'.1.trans_le hspace)]

/-- A shuffled list, split in two groups: they have no class in common. -/
theorem shuffled_halves {candidates : List UInt64} (hnodup : candidates.Nodup) {groupClasses : ℕ}
    (hlen : 2 * groupClasses ≤ candidates.length) (seed : UInt64) :
    let victimClasses := (shuffleU64 candidates seed).take groupClasses
    let disjointClasses := ((shuffleU64 candidates seed).drop groupClasses).take groupClasses
    victimClasses.length = groupClasses ∧ disjointClasses.length = groupClasses ∧
      (victimClasses ++ disjointClasses).Nodup ∧
      ∀ cls ∈ victimClasses ++ disjointClasses, cls ∈ candidates := by
  have hperm := shuffle_perm candidates seed
  have hlen' := hperm.length_eq
  have happend : ∀ l : List UInt64, l.take groupClasses ++
      (l.drop groupClasses).take groupClasses = l.take (2 * groupClasses) := by
    intro l
    rw [two_mul, List.take_add]
  refine ⟨?_, ?_, ?_, fun cls hcls => ?_⟩
  · rw [shuffleU64, List.length_take]
    omega
  · rw [shuffleU64, List.length_take, List.length_drop]
    omega
  · rw [happend]
    exact (hperm.nodup_iff.2 hnodup).sublist (List.take_sublist _ _)
  · rw [happend] at hcls
    exact hperm.mem_iff.1 (List.mem_of_mem_take hcls)

theorem chosen_of_chooseBaseClassSets {victimCounts aggressorCounts : List UInt64}
    {space groupClasses quotaLines : ℕ} {seed : UInt64}
    {victimClasses disjointClasses : List UInt64}
    (hspace : space ≤ 2 ^ 64) (hgroup : groupClasses * 2 < 2 ^ 64)
    (h : chooseBaseClassSets victimCounts aggressorCounts space groupClasses quotaLines seed =
      some (victimClasses, disjointClasses)) :
    Chosen victimCounts aggressorCounts space groupClasses quotaLines victimClasses
      disjointClasses := by
  rw [chooseBaseClassSets] at h
  split at h
  · cases h
  dsimp only at h
  rw [Nat.mod_eq_of_lt hgroup] at h
  split at h
  · cases h
  case isFalse hlen =>
    obtain ⟨rfl, rfl⟩ := Prod.mk.inj (Option.some.inj h)
    have hnodup : (eligibleClasses victimCounts aggressorCounts space quotaLines).Nodup :=
      nodup_map_ofNat hspace _
    rw [not_lt, Nat.mul_comm] at hlen
    obtain ⟨hvictim, hdisjoint, hsplit, hmem⟩ := shuffled_halves hnodup hlen seed
    exact ⟨hvictim, hdisjoint, hsplit, fun cls hcls => mem_eligibleClasses hspace (hmem cls hcls)⟩

/-! ## Collecting -/

/-- The slot of a class: its number, as an `int`, or `-1`. -/
theorem slotLoop_some {space : ℕ} {classes : List UInt64} (hnodup : classes.Nodup) {slot : ℕ}
    {init classToSlot : List ℤ} (hinit : init.length = space)
    (h : slotLoop space classes slot init = some classToSlot) (cls : UInt64) :
    classToSlot.getD cls.toNat (-1) =
      match classes.idxOf? cls with
      | some i => ((slot + i : ℕ) : ℤ).bmod (2 ^ 32)
      | none => init.getD cls.toNat (-1) := by
  induction classes generalizing slot init with
  | nil =>
    cases h
    rfl
  | cons c classes ih =>
    rw [List.nodup_cons] at hnodup
    rw [slotLoop] at h
    split at h
    case isTrue => cases h
    case isFalse hlt =>
      rw [ih hnodup.2 (by rw [List.length_set, hinit]) h, List.idxOf?_cons]
      by_cases hc : c = cls
      · subst hc
        have hnone : classes.idxOf? c = none := List.idxOf?_eq_none_iff.2 hnodup.1
        have hlt' : c.toNat < init.length := by omega
        rw [hnone, if_pos (beq_self_eq_true c)]
        dsimp only
        rw [Nat.add_zero, List.getD_eq_getElem?_getD, List.getElem?_set_self hlt', Option.getD_some]
      · have hne : c.toNat ≠ cls.toNat := fun hnat => hc (UInt64.toNat_inj.1 hnat)
        rw [if_neg (by simpa using hc)]
        cases classes.idxOf? cls with
        | none =>
          dsimp only [Option.map_none]
          rw [List.getD_eq_getElem?_getD, List.getElem?_set_ne hne, ← List.getD_eq_getElem?_getD]
        | some i =>
          dsimp only [Option.map_some]
          rw [Nat.add_assoc, Nat.add_comm 1 i]

/-- The classes of the class space are numbered. -/
theorem exists_slotLoop {space : ℕ} {classes : List UInt64}
    (hlt : ∀ cls ∈ classes, cls.toNat < space) (slot : ℕ) (init : List ℤ) :
    ∃ classToSlot, slotLoop space classes slot init = some classToSlot := by
  induction classes generalizing slot init with
  | nil => exact ⟨init, rfl⟩
  | cons c classes ih =>
    rw [List.forall_mem_cons] at hlt
    rw [slotLoop, if_neg (Nat.not_le.2 hlt.1)]
    exact ih hlt.2 _ _

/-- What a line is offered to: the slot of its class, if it has one. -/
def lineOffer {pageSize : ℕ} (pool : MemoryPool pageSize) (mapping : DramMapping)
    (offsetClasses classes : List UInt64) (line : ℕ × ℕ) : Option (ℕ × ℕ) :=
  (classes.idxOf? (lineClass pool mapping offsetClasses line)).map fun slot =>
    (slot, lineAddress pool line)

/-- The slots of the classes, by class. -/
def IsSlotTable (classes : List UInt64) (classToSlot : List ℤ) : Prop :=
  ∀ cls : UInt64, classToSlot.getD cls.toNat (-1) =
    match classes.idxOf? cls with
    | some slot => (slot : ℤ)
    | none => -1

theorem IsSlotTable.lt {classes : List UInt64} {classToSlot : List ℤ}
    (h : IsSlotTable classes classToSlot) (cls : UInt64) :
    classToSlot.getD cls.toNat (-1) < classes.length := by
  rw [h]
  cases hidx : classes.idxOf? cls with
  | none =>
    dsimp only
    omega
  | some slot =>
    obtain ⟨hslot, -⟩ := List.idxOf?_eq_some_iff.1 hidx
    dsimp only
    omega

theorem getD_replicate_neg_one (space i : ℕ) :
    (List.replicate space (-1 : ℤ)).getD i (-1) = -1 := by
  simp [List.getD_eq_getElem?_getD, List.getElem?_replicate]
  split <;> rfl

/-- The numbers of the classes fit an `int`. -/
theorem isSlotTable_of_slotLoop {space : ℕ} {classes : List UInt64} (hnodup : classes.Nodup)
    (hlen : classes.length ≤ 2 ^ 31) {classToSlot : List ℤ}
    (h : slotLoop space classes 0 (List.replicate space (-1)) = some classToSlot) :
    IsSlotTable classes classToSlot := by
  intro cls
  rw [slotLoop_some hnodup List.length_replicate h, getD_replicate_neg_one]
  cases hidx : classes.idxOf? cls with
  | none => rfl
  | some i =>
    obtain ⟨hi, -⟩ := List.idxOf?_eq_some_iff.1 hidx
    dsimp only
    rw [Nat.zero_add]
    exact Int.bmod_eq_of_le (by omega) (by omega)

section Collect

variable {mapping : DramMapping} {pageSize space quotaLines n : ℕ} {offsetClasses : List UInt64}
  {classToSlot : List ℤ} {lineOrder : List ℕ} {pool : MemoryPool pageSize}

/-- What a line is offered to, by the table of the slots. -/
def tableOffer (pool : MemoryPool pageSize) (mapping : DramMapping) (offsetClasses : List UInt64)
    (classToSlot : List ℤ) (line : ℕ × ℕ) : Option (ℕ × ℕ) :=
  let selectedSlot := classToSlot.getD (lineClass pool mapping offsetClasses line).toNat (-1)
  if selectedSlot < 0 then none else some (selectedSlot.toNat, lineAddress pool line)

theorem tableOffer_eq {classes : List UInt64} (htable : IsSlotTable classes classToSlot) :
    tableOffer pool mapping offsetClasses classToSlot =
      lineOffer pool mapping offsetClasses classes := by
  funext line
  rw [tableOffer, lineOffer, htable]
  cases classes.idxOf? (lineClass pool mapping offsetClasses line) with
  | none => rfl
  | some slot =>
    have hslot : ¬(slot : ℤ) < 0 := by omega
    dsimp only
    rw [if_neg hslot, Int.toNat_natCast]
    rfl

/-- The lines of a page are offered in their order. -/
theorem collectLines_holds (hslots : ∀ cls : UInt64, classToSlot.getD cls.toNat (-1) < n)
    {page : ℕ} {set set' : Slots ℕ} {offers : List (ℕ × ℕ)} (hset : set.Holds n quotaLines offers)
    (h : collectLines pool offsetClasses space classToSlot quotaLines page
      (dramMappingBankClassFast mapping (pool.pfns.getD page 0 * UInt64.ofNat pageSize))
      lineOrder set = some set') :
    set'.Holds n quotaLines (offers ++ (lineOrder.map (Prod.mk page)).filterMap
      (tableOffer pool mapping offsetClasses classToSlot)) := by
  induction lineOrder generalizing set offers with
  | nil =>
    cases h
    simpa using hset
  | cons line lineOrder ih =>
    rw [collectLines, ← lineClass.eq_1 pool mapping offsetClasses (page, line)] at h
    dsimp only at h
    split at h
    case isTrue => cases h
    case isFalse =>
      have hslot := hslots (lineClass pool mapping offsetClasses (page, line))
      rw [List.map_cons, List.filterMap_cons, tableOffer]
      split at h
      case isTrue hneg =>
        rw [if_pos hneg]
        exact ih hset h
      case isFalse hneg =>
        rw [if_neg hneg]
        have hlt := (Int.toNat_lt (not_lt.1 hneg)).2 hslot
        have hstore := hset.store hlt (lineAddress pool (page, line))
        simpa using ih hstore h

/-- The pages are looked at until all the slots are full, or to the last. -/
theorem collectPages_holds (hslots : ∀ cls : UInt64, classToSlot.getD cls.toNat (-1) < n)
    {pageOrder : List ℕ} {set set' : Slots ℕ} {offers : List (ℕ × ℕ)}
    (hset : set.Holds n quotaLines offers)
    (h : collectPages pool mapping offsetClasses space classToSlot quotaLines lineOrder pageOrder
      set = some set') :
    ∃ pages, pages <+: pageOrder ∧
      set'.Holds n quotaLines (offers ++ (pages ×ˢ lineOrder).filterMap
        (tableOffer pool mapping offsetClasses classToSlot)) ∧
      (set'.remaining = 0 ∨ pages = pageOrder) := by
  induction pageOrder generalizing set offers with
  | nil =>
    cases h
    exact ⟨[], List.prefix_rfl, by simpa using hset, .inr rfl⟩
  | cons page pageOrder ih =>
    rw [collectPages] at h
    split at h
    case isTrue hfull =>
      cases h
      exact ⟨[], List.nil_prefix, by simpa using hset, .inl hfull⟩
    case isFalse =>
      obtain ⟨set₁, h₁, hrest⟩ := Option.bind_eq_some_iff.1 h
      obtain ⟨pages, hinit, hset', hend⟩ := ih (collectLines_holds hslots hset h₁) hrest
      refine ⟨page :: pages, List.cons_prefix_cons.2 ⟨rfl, hinit⟩, ?_, ?_⟩
      · rwa [List.product_cons, List.filterMap_append, ← List.append_assoc]
      · exact hend.imp_right (congrArg _)

/-- No line has a class out of the class space. -/
theorem exists_collectLines (h : Prepared mapping pageSize space offsetClasses)
    (hlines : ∀ line ∈ lineOrder, line < offsetClasses.length) (page : ℕ) (set : Slots ℕ) :
    ∃ set', collectLines pool offsetClasses space classToSlot quotaLines page
      (dramMappingBankClassFast mapping (pool.pfns.getD page 0 * UInt64.ofNat pageSize))
      lineOrder set = some set' := by
  induction lineOrder generalizing set with
  | nil => exact ⟨set, rfl⟩
  | cons line lineOrder ih =>
    rw [List.forall_mem_cons] at hlines
    have hlt : (lineClass pool mapping offsetClasses (page, line)).toNat < space :=
      h.lineClass_lt pool hlines.1
    rw [collectLines, ← lineClass.eq_1 pool mapping offsetClasses (page, line)]
    dsimp only
    rw [if_neg (Nat.not_le.2 hlt)]
    exact ih hlines.2 _

theorem exists_collectPages (h : Prepared mapping pageSize space offsetClasses)
    (hlines : ∀ line ∈ lineOrder, line < offsetClasses.length) (pageOrder : List ℕ)
    (set : Slots ℕ) :
    ∃ set', collectPages pool mapping offsetClasses space classToSlot quotaLines lineOrder pageOrder
      set = some set' := by
  induction pageOrder generalizing set with
  | nil => exact ⟨set, rfl⟩
  | cons page pageOrder ih =>
    rw [collectPages]
    split
    case isTrue => exact ⟨set, rfl⟩
    case isFalse =>
      obtain ⟨set₁, h₁⟩ := exists_collectLines h hlines page set
      dsimp only
      rw [h₁, Option.bind_some]
      exact ih set₁

end Collect

/-! ## What is collected -/

section Exact

variable {pageSize : ℕ} {pool : MemoryPool pageSize} {mapping : DramMapping}
  {offsetClasses classes : List UInt64}

theorem idxOf?_eq_some_iff_of_nodup (hnodup : classes.Nodup) {cls : UInt64} {slot : ℕ} :
    classes.idxOf? cls = some slot ↔ classes[slot]? = some cls := by
  rw [List.idxOf?_eq_some_iff, List.getElem?_eq_some_iff]
  refine exists_congr fun hslot => and_iff_left_of_imp fun hcls i hi heq => ?_
  exact hi.ne ((hnodup.getElem_inj_iff).1 (heq.trans hcls.symm))

/-- What is offered to the slot of a class: the lines of the class. -/
theorem pile_lineOffer (hnodup : classes.Nodup) {cls : UInt64} {slot : ℕ}
    (hslot : classes[slot]? = some cls) (lines : List (ℕ × ℕ)) :
    pile (lines.filterMap (lineOffer pool mapping offsetClasses classes)) slot =
      (lines.filter fun line => lineClass pool mapping offsetClasses line = cls).map
        (lineAddress pool) := by
  induction lines with
  | nil => rfl
  | cons line lines ih =>
    have hiff : classes.idxOf? (lineClass pool mapping offsetClasses line) = some slot ↔
        lineClass pool mapping offsetClasses line = cls := by
      rw [idxOf?_eq_some_iff_of_nodup hnodup, hslot, Option.some_inj, eq_comm]
    rw [List.filterMap_cons, lineOffer]
    by_cases hcls : lineClass pool mapping offsetClasses line = cls
    · rw [hiff.2 hcls, List.filter_cons_of_pos (by simpa using hcls), List.map_cons, ← ih]
      exact (pile_cons slot slot _ _).trans (if_pos rfl)
    · rw [List.filter_cons_of_neg (by simpa using hcls), ← ih]
      cases hidx : classes.idxOf? (lineClass pool mapping offsetClasses line) with
      | none => rfl
      | some slot' =>
        have hne : slot' ≠ slot := fun heq => hcls (hiff.1 (heq ▸ hidx))
        exact (pile_cons slot' slot _ _).trans (if_neg hne)

/-- As many offers as there are lines of the class. -/
theorem length_pile_lineOffer (hnodup : classes.Nodup) {cls : UInt64} {slot : ℕ}
    (hslot : classes[slot]? = some cls) {lines : List (ℕ × ℕ)}
    (hlines : lines.Perm (poolLines pool offsetClasses)) :
    (pile (lines.filterMap (lineOffer pool mapping offsetClasses classes)) slot).length =
      lineCount pool mapping offsetClasses cls := by
  rw [pile_lineOffer hnodup hslot, List.length_map, lineCount,
    ← (hlines.map (lineClass pool mapping offsetClasses)).count_eq, List.count, List.countP_map,
    List.countP_eq_length_filter]
  rfl

/-- Offered addresses are those of lines, in the slots of their classes. -/
theorem of_mem_lineOffers (hnodup : classes.Nodup) {lines : List (ℕ × ℕ)} {slot a : ℕ}
    (h : (slot, a) ∈ lines.filterMap (lineOffer pool mapping offsetClasses classes)) :
    ∃ line ∈ lines, a = lineAddress pool line ∧
      classes[slot]? = some (lineClass pool mapping offsetClasses line) := by
  obtain ⟨line, hline, hoffer⟩ := List.mem_filterMap.1 h
  obtain ⟨slot', hslot', heq⟩ := Option.map_eq_some_iff.1 hoffer
  obtain ⟨rfl, rfl⟩ := Prod.mk.inj heq
  exact ⟨line, hline, rfl, (idxOf?_eq_some_iff_of_nodup hnodup).1 hslot'⟩

theorem lineOffers_sublist (lines : List (ℕ × ℕ)) :
    ((lines.filterMap (lineOffer pool mapping offsetClasses classes)).map Prod.snd).Sublist
      (lines.map (lineAddress pool)) := by
  induction lines with
  | nil => exact List.Sublist.refl _
  | cons line lines ih =>
    rw [List.filterMap_cons, lineOffer]
    cases classes.idxOf? (lineClass pool mapping offsetClasses line) with
    | none => exact ih.cons _
    | some slot => exact ih.cons_cons _

end Exact

namespace Prepared

variable {mapping : DramMapping} {pageSize space quotaLines : ℕ}
  {offsetClasses classes : List UInt64} (h : Prepared mapping pageSize space offsetClasses)
  {pool : MemoryPool pageSize}
include h

/-- Lines are at different addresses. -/
theorem lineAddress_inj {line line' : ℕ × ℕ} (hline : line ∈ poolLines pool offsetClasses)
    (hline' : line' ∈ poolLines pool offsetClasses)
    (heq : lineAddress pool line = lineAddress pool line') : line = line' := by
  obtain ⟨-, -, hpage, hoffset⟩ := h.lineAddress_spec hline
  obtain ⟨-, -, hpage', hoffset'⟩ := h.lineAddress_spec hline'
  rw [← heq] at hpage' hoffset'
  refine Prod.ext (hpage.symm.trans hpage') ?_
  exact Nat.eq_of_mul_eq_mul_right (by decide) (hoffset.symm.trans hoffset')

/-- No two lines of a pool have the same address. -/
theorem nodup_lineAddress : ((poolLines pool offsetClasses).map (lineAddress pool)).Nodup :=
  (List.nodup_range.product List.nodup_range).map_on fun _ hline _ hline' =>
    h.lineAddress_inj hline hline'

/-- Distinct classes of the class space are not more than its classes. -/
theorem length_classes_le (hnodup : classes.Nodup) (hlt : ∀ cls ∈ classes, cls.toNat < space) :
    classes.length ≤ 2 ^ 20 := by
  have hsub : (classes.map UInt64.toNat).Subperm (List.range space) := by
    refine List.subperm_of_subset (hnodup.map fun _ _ => UInt64.toNat_inj.1) fun c hc => ?_
    obtain ⟨cls, hcls, rfl⟩ := List.mem_map.1 hc
    exact List.mem_range.2 (hlt cls hcls)
  have hlen := hsub.length_le
  rw [List.length_map, List.length_range] at hlen
  exact hlen.trans h.space_le

/-- A quota of lines of every class does not exceed the pool. -/
theorem length_mul_quota_lt (hnodup : classes.Nodup)
    (hcount : ∀ cls ∈ classes, quotaLines ≤ lineCount pool mapping offsetClasses cls) :
    classes.length * quotaLines < 2 ^ 64 := by
  have hsub : (classes.flatMap (List.replicate quotaLines)).Subperm
      ((poolLines pool offsetClasses).map (lineClass pool mapping offsetClasses)) := by
    refine List.subperm_ext_iff.2 fun cls hcls => ?_
    rw [count_flatMap_replicate hnodup]
    split
    case isTrue hmem => exact hcount cls hmem
    case isFalse => exact Nat.zero_le _
  calc classes.length * quotaLines = (classes.flatMap (List.replicate quotaLines)).length := by
        simp [List.length_flatMap]
    _ ≤ (poolLines pool offsetClasses).length := by
        rw [← List.length_map (lineClass pool mapping offsetClasses)]
        exact hsub.length_le
    _ < 2 ^ 64 := h.length_poolLines_lt pool

/-- With a quota of lines of every class in the pool, the slots get full, in whatever order
    the lines are looked at: with different lines, each in the slot of its class. -/
theorem collectPages_full (hquota : 0 < quotaLines) (hnodup : classes.Nodup)
    (hcount : ∀ cls ∈ classes, quotaLines ≤ lineCount pool mapping offsetClasses cls)
    {classToSlot : List ℤ} (htable : IsSlotTable classes classToSlot) {pageOrder lineOrder : List ℕ}
    (hpages : pageOrder.Perm (List.range pool.pageCount))
    (hlines : lineOrder.Perm (List.range offsetClasses.length)) :
    ∃ set, collectPages pool mapping offsetClasses space classToSlot quotaLines lineOrder pageOrder
        (Slots.empty classes.length quotaLines 0) = some set ∧
      set.remaining = 0 ∧ set.values.Nodup ∧
      set.values.map (addressBankClass ⟨pool, set.values⟩ mapping) =
        (classes.map some).flatMap (List.replicate quotaLines) := by
  have hlines_lt : ∀ n ∈ lineOrder, n < offsetClasses.length :=
    fun n hn => List.mem_range.1 (hlines.mem_iff.1 hn)
  have hperm : (pageOrder ×ˢ lineOrder).Perm (poolLines pool offsetClasses) :=
    hpages.product hlines
  obtain ⟨set, heq⟩ := exists_collectPages h hlines_lt pageOrder
    (Slots.empty classes.length quotaLines 0)
  obtain ⟨pages, ⟨rest, rfl⟩, hset, hend⟩ :=
    collectPages_holds htable.lt (Slots.Holds.empty hquota 0) heq
  rw [List.nil_append, tableOffer_eq htable] at hset
  have hsplit : (pages ++ rest) ×ˢ lineOrder = pages ×ˢ lineOrder ++ rest ×ˢ lineOrder :=
    List.flatMap_append
  have hsub : (pages ×ˢ lineOrder).Sublist ((pages ++ rest) ×ˢ lineOrder) := by
    rw [hsplit]
    exact List.sublist_append_left _ _
  have hfull : set.remaining = 0 := by
    refine hend.elim id fun hall => hset.remaining_eq_zero_iff.2 fun slot hslot => ?_
    -- all the lines were looked at
    rw [← hall] at hperm
    rw [length_pile_lineOffer hnodup (List.getElem?_eq_getElem hslot) hperm]
    exact hcount _ (List.getElem_mem hslot)
  refine ⟨set, heq, hfull, ?_, ?_⟩
  · have hnodup' := (hperm.map (lineAddress pool)).nodup_iff.2 h.nodup_lineAddress
    exact hset.nodup_values hfull (hnodup'.sublist ((lineOffers_sublist _).trans (hsub.map _)))
  · refine hset.map_values hquota hfull (List.length_map _) fun slot a ha => ?_
    obtain ⟨line, hline, rfl, hslot⟩ := of_mem_lineOffers hnodup ha
    have hmem : line ∈ poolLines pool offsetClasses := hperm.mem_iff.1 (hsub.subset hline)
    have hclass : addressBankClass ⟨pool, set.values⟩ mapping (lineAddress pool line) =
        some (lineClass pool mapping offsetClasses line) := h.addressBankClass_lineAddress hmem
    rw [List.getElem?_map, hslot, hclass]
    rfl

/-- With a quota of lines of every class in the pool, the set has them, each line once. -/
theorem collectLineSet_exact (hquota : 0 < quotaLines) (hne : classes ≠ [])
    (hnodup : classes.Nodup) (hlt : ∀ cls ∈ classes, cls.toNat < space)
    (hcount : ∀ cls ∈ classes, quotaLines ≤ lineCount pool mapping offsetClasses cls)
    (seed : UInt64) : ∃ set,
      collectLineSet pool mapping offsetClasses space classes quotaLines seed = some set ∧
      set.addresses.Nodup ∧
      set.addresses.map (addressBankClass set mapping) =
        (classes.map some).flatMap (List.replicate quotaLines) := by
  have hlen := h.length_classes_le hnodup hlt
  have hpos := List.length_pos_iff.2 hne
  have hover : ¬(2 ^ 64 - 1) / quotaLines < classes.length := by
    rw [Nat.not_lt, Nat.le_div_iff_mul_le hquota]
    exact Nat.le_pred_of_lt (h.length_mul_quota_lt hnodup hcount)
  obtain ⟨classToSlot, hloop⟩ := exists_slotLoop hlt 0 (List.replicate space (-1))
  have htable := isSlotTable_of_slotLoop hnodup (by omega) hloop
  obtain ⟨set, heq, hfull, hdistinct, hclasses⟩ := h.collectPages_full hquota hnodup hcount htable
    (shuffle_perm (List.range pool.pageCount) (seed ^^^ 0x9e3779b97f4a7c15))
    (shuffle_perm (List.range offsetClasses.length) (seed ^^^ 0xd1b54a32d192ed03))
  refine ⟨⟨pool, set.values⟩, ?_, hdistinct, hclasses⟩
  rw [collectLineSet, if_neg (by omega), if_neg hover, hloop, Option.bind_some, shuffleSizeT,
    shuffleSizeT, heq, Option.bind_some, if_neg (by simpa using hfull)]

end Prepared

end CgroupResearch
