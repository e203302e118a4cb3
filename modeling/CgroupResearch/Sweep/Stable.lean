import CgroupResearch.Sweep.Collect

/-!
# Lines that stay

The conditions of the sweep use the same seed for the aggressor's lines, so that a class which
two of them share keeps its lines. `collect_line_set` stops when the classes it was asked for are
full, and puts the lines of a class where the list has the class; neither matters to the lines
that it takes (`shared_classes_keep_lines`): they are the first of the class, up to the quota, in
the order in which the seed has all the lines looked at.

Nothing is asked of the mapping, the classes of the offsets or the class space: a call that
succeeds has met no class out of the class space, and has not more slots than an `int` can number
(`length_le_of_full`).
-/

namespace CgroupResearch

open Quota

section

variable {pageSize : ℕ}

/-- The order in which `collect_line_set` looks at the lines: page by page. -/
def scanOrder (pool : MemoryPool pageSize) (offsetClasses : List UInt64) (seed : UInt64) :
    List (ℕ × ℕ) :=
  shuffleSizeT (List.range pool.pageCount) (seed ^^^ 0x9e3779b97f4a7c15) ×ˢ
    shuffleSizeT (List.range offsetClasses.length) (seed ^^^ 0xd1b54a32d192ed03)

/-- The first lines of a class, in this order. -/
def firstLines (pool : MemoryPool pageSize) (mapping : DramMapping) (offsetClasses : List UInt64)
    (quotaLines : ℕ) (seed : UInt64) (cls : UInt64) : List ℕ :=
  (((scanOrder pool offsetClasses seed).filter fun line =>
    lineClass pool mapping offsetClasses line = cls).take quotaLines).map (lineAddress pool)

/-- The lines that a set has of a class, where it was collected for the classes. -/
def linesOfClass (set : LineSet pageSize) (classes : List UInt64) (quotaLines : ℕ) (cls : UInt64) :
    List ℕ :=
  (set.addresses.drop (classes.idxOf cls * quotaLines)).take quotaLines

variable {pool : MemoryPool pageSize} {mapping : DramMapping} {offsetClasses classes : List UInt64}
  {space quotaLines : ℕ} {classToSlot : List ℤ}

/-- A number as an `int` is below the number itself. -/
theorem bmod_le (i : ℕ) : (i : ℤ).bmod (2 ^ 32) ≤ i := by
  rcases Nat.lt_or_ge i (2 ^ 31) with hi | hi
  · exact (Int.bmod_eq_of_le (by omega) (by omega)).le
  · have hlt := Int.bmod_lt (x := (i : ℤ)) (m := 2 ^ 32) (by decide)
    omega

/-- The slots in the table are slots, and values of an `int`. -/
theorem slot_lt_of_slotLoop (hnodup : classes.Nodup)
    (h : slotLoop space classes 0 (List.replicate space (-1)) = some classToSlot) (cls : UInt64) :
    classToSlot.getD cls.toNat (-1) < classes.length ∧
      classToSlot.getD cls.toNat (-1) < 2 ^ 31 := by
  rw [slotLoop_some hnodup List.length_replicate h, getD_replicate_neg_one]
  cases hidx : classes.idxOf? cls with
  | none =>
    dsimp only
    omega
  | some i =>
    obtain ⟨hi, -⟩ := List.idxOf?_eq_some_iff.1 hidx
    have hle := bmod_le i
    have hlt := Int.bmod_lt (x := (i : ℤ)) (m := 2 ^ 32) (by decide)
    dsimp only
    rw [Nat.zero_add]
    omega

/-- Slots that are all full are not more than the values of an `int`: no line is offered to a slot
    beyond them. -/
theorem length_le_of_full {set : Slots ℕ} {lines : List (ℕ × ℕ)} (hquota : 0 < quotaLines)
    (hslots : ∀ cls : UInt64, classToSlot.getD cls.toNat (-1) < 2 ^ 31)
    (hset : set.Holds classes.length quotaLines (lines.filterMap
      (tableOffer pool mapping offsetClasses classToSlot))) (hfull : set.remaining = 0) :
    classes.length ≤ 2 ^ 31 := by
  by_contra hlt
  have hpile := hset.remaining_eq_zero_iff.1 hfull (2 ^ 31) (by omega)
  obtain ⟨a, ha⟩ := List.exists_mem_of_length_pos (hquota.trans_le hpile)
  obtain ⟨line, -, hoffer⟩ := List.mem_filterMap.1 (mem_offers_of_mem_pile ha)
  have hslot := hslots (lineClass pool mapping offsetClasses line)
  rw [tableOffer] at hoffer
  split at hoffer
  case isTrue => cases hoffer
  case isFalse =>
    obtain ⟨heq, -⟩ := Prod.mk.inj (Option.some.inj hoffer)
    omega

/-- Lines that were looked at, and have the quota of a class, have its first lines. -/
theorem firstLines_eq {seed : UInt64} {lines : List (ℕ × ℕ)} {cls : UInt64}
    (hinit : lines <+: scanOrder pool offsetClasses seed)
    (hquota : quotaLines ≤
      (lines.filter fun line => lineClass pool mapping offsetClasses line = cls).length) :
    firstLines pool mapping offsetClasses quotaLines seed cls =
      ((lines.filter fun line => lineClass pool mapping offsetClasses line = cls).map
        (lineAddress pool)).take quotaLines := by
  obtain ⟨rest, hrest⟩ := hinit
  rw [firstLines, ← hrest, List.filter_append, List.take_append_of_le_length hquota, List.map_take]

/-- A set that was collected has the first lines of each of its classes. -/
theorem linesOfClass_eq {seed : UInt64} (hnodup : classes.Nodup) {set : LineSet pageSize}
    (h : collectLineSet pool mapping offsetClasses space classes quotaLines seed = some set)
    {cls : UInt64} (hcls : cls ∈ classes) :
    linesOfClass set classes quotaLines cls =
        firstLines pool mapping offsetClasses quotaLines seed cls ∧
      (linesOfClass set classes quotaLines cls).length = quotaLines := by
  rw [collectLineSet] at h
  dsimp only at h
  split at h
  case isTrue => cases h
  case isFalse hargs =>
  split at h
  case isTrue => cases h
  case isFalse =>
  obtain ⟨classToSlot, hloop, h⟩ := Option.bind_eq_some_iff.1 h
  obtain ⟨slots, hpages, h⟩ := Option.bind_eq_some_iff.1 h
  split at h
  case isTrue => cases h
  case isFalse hfull =>
  cases h
  rw [not_not] at hfull
  have hquota : 0 < quotaLines := by omega
  obtain ⟨pages, ⟨rest, hrest⟩, hset, -⟩ := collectPages_holds
    (fun cls => (slot_lt_of_slotLoop hnodup hloop cls).1) (Slots.Holds.empty hquota 0) hpages
  rw [List.nil_append] at hset
  have hlen := length_le_of_full hquota
    (fun cls => (slot_lt_of_slotLoop hnodup hloop cls).2) hset hfull
  rw [tableOffer_eq (isSlotTable_of_slotLoop hnodup hlen hloop)] at hset
  -- the slot of the class, and what was offered to it
  have hslot : classes.idxOf cls < classes.length := List.idxOf_lt_length_iff.2 hcls
  have hget : classes[classes.idxOf cls]? = some cls := by
    rw [List.getElem?_eq_getElem hslot, List.getElem_idxOf hslot]
  have hpile := hset.remaining_eq_zero_iff.1 hfull _ hslot
  have hvalues := hset.slot_values hslot hpile
  have hinit : pages ×ˢ shuffleSizeT (List.range offsetClasses.length)
      (seed ^^^ 0xd1b54a32d192ed03) <+: scanOrder pool offsetClasses seed := by
    rw [scanOrder, ← hrest]
    exact ⟨_, List.flatMap_append.symm⟩
  rw [pile_lineOffer hnodup hget] at hpile hvalues
  rw [linesOfClass, hvalues]
  rw [List.length_map] at hpile
  refine ⟨(firstLines_eq hinit hpile).symm, ?_⟩
  rw [List.length_take, List.length_map]
  omega

end

/-- For every pool, mapping, quota and seed, and any two lists of distinct classes that have a
    class in common: where both are collected, the lines of this class are the same, as many as
    the quota, and in both the first of the class in the order of the seed. -/
theorem shared_classes_keep_lines {pageSize : ℕ} (pool : MemoryPool pageSize)
    (mapping : DramMapping) (offsetClasses : List UInt64) (classSpace quotaLines : ℕ)
    (seed : UInt64) {classes classes' : List UInt64} (hnodup : classes.Nodup)
    (hnodup' : classes'.Nodup) {set set' : LineSet pageSize}
    (h : collectLineSet pool mapping offsetClasses classSpace classes quotaLines seed = some set)
    (h' : collectLineSet pool mapping offsetClasses classSpace classes' quotaLines seed =
      some set') {c : UInt64} (hc : c ∈ classes) (hc' : c ∈ classes') :
    linesOfClass set classes quotaLines c = linesOfClass set' classes' quotaLines c ∧
      linesOfClass set classes quotaLines c =
        firstLines pool mapping offsetClasses quotaLines seed c ∧
      (linesOfClass set classes quotaLines c).length = quotaLines := by
  obtain ⟨heq, hlen⟩ := linesOfClass_eq hnodup h hc
  obtain ⟨heq', -⟩ := linesOfClass_eq hnodup' h' hc'
  exact ⟨heq.trans heq'.symm, heq, hlen⟩

/-- Two conditions that share the class three, in different places. -/
theorem shared_classes_keep_lines_two :
    let mapping : DramMapping := ⟨[0x40, 0x80, 0x100], [], true⟩
    let pool : MemoryPool 512 := ⟨0x20000, 1024, 2, [3, 12], rfl, by decide, rfl⟩
    ∃ set set', collectLineSet pool mapping [0, 1, 2, 3, 4, 5, 6, 7] 8 [6, 3] 2 42 = some set ∧
      collectLineSet pool mapping [0, 1, 2, 3, 4, 5, 6, 7] 8 [3, 1, 4] 2 42 = some set' ∧
      linesOfClass set [6, 3] 2 3 = [131776, 131264] ∧
      linesOfClass set [6, 3] 2 3 = linesOfClass set' [3, 1, 4] 2 3 := by
  intro mapping pool
  have haddresses : (collectLineSet pool mapping [0, 1, 2, 3, 4, 5, 6, 7] 8 [6, 3] 2 42).map
      (·.addresses) = some [131968, 131456, 131776, 131264] := by decide +kernel
  have haddresses' : (collectLineSet pool mapping [0, 1, 2, 3, 4, 5, 6, 7] 8 [3, 1, 4] 2 42).map
      (·.addresses) = some [131776, 131264, 131648, 131136, 131840, 131328] := by decide +kernel
  obtain ⟨set, h, hset⟩ := Option.map_eq_some_iff.1 haddresses
  obtain ⟨set', h', -⟩ := Option.map_eq_some_iff.1 haddresses'
  refine ⟨set, set', h, h', ?_, ?_⟩
  · rw [linesOfClass, hset]
    decide
  · exact (shared_classes_keep_lines pool mapping _ 8 2 42 (by decide) (by decide) h h'
      (by decide) (by decide)).1

end CgroupResearch
