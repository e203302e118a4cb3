import CgroupResearch.Worker.Program

/-!
# What the bank worker takes

The class of a block is tested once, at its first byte, and all its lines are taken.
No mask has a bit below the size of a block, so they share the class
(`SizesOk.bankClass_eq`). The loops end when enough blocks are found, in the midst of a page too,
and never write behind the end of `lines`, for which nothing else is checked.

* `Holds`: the blocks that are selected account for all the variables;
* `selectBlock_eq`, `blockLoop_spec`, `pageLoop_spec`: a turn, a page and all pages;
* `releaseLoop_spec`: the runs of pages that are released.
-/

namespace CgroupResearch

open Stride

/-! ## Sizes -/

theorem lowestMaskBit_eq_some_iff {mask : UInt64} {bit : ℕ} :
    lowestMaskBit mask = some bit ↔ bit < 64 ∧ mask.toNat.testBit bit = true ∧
      ∀ j < bit, mask.toNat.testBit j = false := by
  have hbit {j : ℕ} (hj : j < 64) : decide (mask &&& ((1 : UInt64) <<< UInt64.ofNat j) ≠ 0) =
      mask.toNat.testBit j :=
    (Bool.decide_congr (and_bit_ne_zero_iff mask hj)).trans Bool.decide_eq_true
  rw [lowestMaskBit, List.find?_range_eq_some, List.mem_range]
  constructor
  · rintro ⟨hset, hlt, hclear⟩
    rw [hbit hlt] at hset
    refine ⟨hlt, hset, fun j hj => ?_⟩
    simpa [hbit (hj.trans hlt)] using hclear j hj
  · rintro ⟨hlt, hset, hclear⟩
    rw [hbit hlt]
    refine ⟨hset, hlt, fun j hj => ?_⟩
    rw [hbit (hj.trans hlt), hclear j hj]
    rfl

/-- A mask with a bit has a lowest one. -/
theorem exists_lowestMaskBit {mask : UInt64} {j : ℕ} (hj : j < 64)
    (hset : mask.toNat.testBit j = true) : ∃ bit ≤ j, lowestMaskBit mask = some bit := by
  have hex : ∃ j, mask.toNat.testBit j = true := ⟨j, hset⟩
  have hle : Nat.find hex ≤ j := Nat.find_min' hex hset
  refine ⟨Nat.find hex, hle, lowestMaskBit_eq_some_iff.2 ⟨by omega, Nat.find_spec hex, ?_⟩⟩
  exact fun i hi => Bool.eq_false_of_not_eq_true (Nat.find_min hex hi)

/-- The loop finds the lowest bit of all the masks. -/
theorem minimumMaskBitLoop_spec (masks : List UInt64) (minimum : ℕ) :
    minimumMaskBitLoop masks minimum ≤ minimum ∧
      (∀ mask ∈ masks, ∀ bit, lowestMaskBit mask = some bit →
        minimumMaskBitLoop masks minimum ≤ bit) ∧
      (minimumMaskBitLoop masks minimum = minimum ∨
        ∃ mask ∈ masks, lowestMaskBit mask = some (minimumMaskBitLoop masks minimum)) := by
  induction masks generalizing minimum with
  | nil => exact ⟨le_rfl, by simp, .inl rfl⟩
  | cons mask masks ih =>
    rw [minimumMaskBitLoop, List.forall_mem_cons, List.exists_mem_cons_iff]
    cases hlow : lowestMaskBit mask with
    | none =>
      obtain ⟨hle, hmin, hattained⟩ := ih minimum
      exact ⟨hle, ⟨by simp, hmin⟩, hattained.imp_right .inr⟩
    | some bit =>
      dsimp only
      obtain ⟨hle, hmin, hattained⟩ := ih (if bit < minimum then bit else minimum)
      have hnew : (if bit < minimum then bit else minimum) = min bit minimum := by
        rw [min_def]
        split_ifs <;> omega
      rw [hnew] at hle hmin hattained ⊢
      refine ⟨hle.trans (min_le_right _ _), ⟨?_, hmin⟩, ?_⟩
      · rintro _ ⟨⟩
        exact hle.trans (min_le_left _ _)
      · rcases hattained with heq | hex
        · rcases min_choice bit minimum with hbit | hold
          · exact .inr (.inl (by rw [heq, hbit]))
          · exact .inl (heq.trans hold)
        · exact .inr (.inr hex)

/-- The lowest bit set in any of the masks. -/
structure IsLowestBit (masks : List UInt64) (bit : ℕ) : Prop where
  exists_set : ∃ mask ∈ masks, mask.toNat.testBit bit = true
  clear_below : ∀ mask ∈ masks, ∀ j < bit, mask.toNat.testBit j = false

theorem isLowestBit_of_find {mapping : DramMapping} {bit : ℕ}
    (h : findMinimumMaskBit mapping = some bit) : IsLowestBit mapping.masks bit := by
  rw [findMinimumMaskBit] at h
  dsimp only at h
  split_ifs at h with hready hlt
  obtain ⟨-, hmin, hattained⟩ := minimumMaskBitLoop_spec mapping.masks 64
  rw [Option.some.inj h] at hlt hmin hattained
  rw [not_le] at hlt
  refine ⟨?_, fun mask hmask j hj => ?_⟩
  · rcases hattained with heq | ⟨mask, hmask, hlow⟩
    · exact absurd heq hlt.ne
    · exact ⟨mask, hmask, (lowestMaskBit_eq_some_iff.1 hlow).2.1⟩
  · refine Bool.eq_false_of_not_eq_true fun hset => ?_
    obtain ⟨low, hle, hlow⟩ := exists_lowestMaskBit (hj.trans hlt) hset
    exact absurd (hmin mask hmask low hlow) (by omega)

/-- Addresses of one aligned block of the size of the lowest bit share their class. -/
theorem IsLowestBit.bankClass_eq {mapping : DramMapping} {bit : ℕ}
    (h : IsLowestBit mapping.masks bit) (hlen : mapping.masks.length ≤ 64) {a a' : UInt64}
    (hblock : a.toNat / 2 ^ bit = a'.toNat / 2 ^ bit) :
    dramMappingBankClassFast mapping a = dramMappingBankClassFast mapping a' := by
  have hand : ∀ mask ∈ mapping.masks, a.toNat &&& mask.toNat = a'.toNat &&& mask.toNat := by
    intro mask hmask
    refine Nat.eq_of_testBit_eq fun j => ?_
    rw [Nat.testBit_and, Nat.testBit_and]
    rcases lt_or_ge j bit with hj | hj
    · rw [h.clear_below mask hmask j hj, Bool.and_false, Bool.and_false]
    · obtain ⟨k, rfl⟩ := Nat.exists_eq_add_of_le' hj
      have hbit : a.toNat.testBit (k + bit) = a'.toNat.testBit (k + bit) := by
        rw [← Nat.testBit_div_two_pow, ← Nat.testBit_div_two_pow, hblock]
      rw [hbit]
  refine UInt64.toNat_inj.1 (Nat.eq_of_testBit_eq fun c => ?_)
  rw [testBit_bankClass hlen, testBit_bankClass hlen]
  cases hc : mapping.masks[c]? with
  | none => rfl
  | some mask => rw [Option.any_some, Option.any_some, hand mask (List.mem_of_getElem? hc)]

/-- What the checks of `main` ensure. -/
structure SizesOk (mapping : DramMapping) (z : WorkerSizes) : Prop where
  masks_length : mapping.masks.length < 64
  exists_bit : ∃ bit, z.classGranularity = 2 ^ bit ∧ IsLowestBit mapping.masks bit
  line_dvd : cacheLineBytes ∣ z.classGranularity
  granularity_dvd : z.classGranularity ∣ z.pageSize
  page_pos : 0 < z.pageSize
  page_lt : z.pageSize < 2 ^ 64
  candidate_eq : z.candidateBytes = z.pageCount * z.pageSize
  required_eq : z.requiredLines = z.requiredBlocks * (z.classGranularity / cacheLineBytes)

/-- A check that is passed. -/
theorem check_passed {failure : WorkerFailure} {c : Prop} [Decidable c]
    {r : Except WorkerFailure WorkerSizes} {z : WorkerSizes}
    (h : (if c then .error failure else r) = .ok z) : ¬c ∧ r = .ok z := by
  split at h
  case isTrue => cases h
  case isFalse hc => exact ⟨hc, h⟩

theorem sizesOk_of_workerSizes {mapping : DramMapping}
    {targetClass candidateMib selectedMib runSeconds : UInt64} {pageSizeLong : ℤ} {z : WorkerSizes}
    (h : workerSizes mapping targetClass candidateMib selectedMib runSeconds pageSizeLong = .ok z) :
    SizesOk mapping z := by
  rw [workerSizes] at h
  obtain ⟨hzero, h⟩ := check_passed h
  obtain ⟨hspace, h⟩ := check_passed h
  cases hfind : findMinimumMaskBit mapping with
  | none =>
    rw [hfind] at h
    cases h
  | some bit =>
    rw [hfind] at h
    obtain ⟨-, h⟩ := check_passed h
    obtain ⟨hline, h⟩ := check_passed h
    obtain ⟨hlong, h⟩ := check_passed h
    obtain ⟨hpage, h⟩ := check_passed h
    obtain ⟨-, h⟩ := check_passed h
    obtain ⟨hrange, h⟩ := check_passed h
    obtain ⟨hselected, h⟩ := check_passed h
    obtain ⟨hcandidate, h⟩ := check_passed h
    cases h
    have hlow := isLowestBit_of_find hfind
    have hbytes : 0 < candidateMib.toNat * mibBytes := by
      have hne : candidateMib.toNat ≠ 0 := fun h0 => hzero (.inl (UInt64.toNat_inj.1 h0))
      exact Nat.mul_pos (Nat.pos_of_ne_zero hne) (by decide)
    rw [not_or, not_not] at hline hpage hselected
    rw [not_not] at hcandidate
    have hline := Nat.dvd_of_mod_eq_zero hline.2
    have hblock := Nat.dvd_of_mod_eq_zero hselected.1
    have hcandidate := Nat.dvd_of_mod_eq_zero hcandidate
    have hle := Nat.le_of_dvd hbytes hcandidate
    exact {
      masks_length := by omega
      exists_bit := ⟨bit, rfl, hlow⟩
      line_dvd := hline
      granularity_dvd := Nat.dvd_of_mod_eq_zero hpage.2
      page_pos := Int.lt_toNat.2 (not_le.1 hlong)
      page_lt := hle.trans_lt (by omega)
      candidate_eq := (Nat.div_mul_cancel hcandidate).symm
      required_eq := by
        dsimp only
        obtain ⟨blocks, heq⟩ := hblock
        rw [heq, Nat.mul_div_cancel_left _ (Nat.two_pow_pos bit), Nat.mul_comm,
          Nat.mul_div_assoc _ hline] }

/-- All addresses of a block have the same class. -/
theorem SizesOk.bankClass_eq {mapping : DramMapping} {z : WorkerSizes} (h : SizesOk mapping z)
    {a a' : UInt64}
    (hblock : a.toNat / z.classGranularity = a'.toNat / z.classGranularity) :
    dramMappingBankClassFast mapping a = dramMappingBankClassFast mapping a' := by
  obtain ⟨bit, heq, hlow⟩ := h.exists_bit
  rw [heq] at hblock
  exact hlow.bankClass_eq h.masks_length.le hblock

theorem SizesOk.granularity_pos {mapping : DramMapping} {z : WorkerSizes}
    (h : SizesOk mapping z) : 0 < z.classGranularity := by
  obtain ⟨bit, heq, -⟩ := h.exists_bit
  rw [heq]
  exact Nat.two_pow_pos bit

/-! ## Blocks -/

/-- The checks are passed, the size of a page is a power of two, and the buffer is mapped. -/
structure WorkerEnv.Valid (env : WorkerEnv) : Prop where
  sizes : SizesOk env.mapping env.sizes
  page_dvd : env.sizes.pageSize ∣ 2 ^ 64
  aligned : env.sizes.pageSize ∣ env.buffer
  fits : env.buffer + env.sizes.candidateBytes ≤ 2 ^ 64

namespace WorkerEnv

variable (env : WorkerEnv)

/-- An address is in a page of the buffer. -/
def InPage (page address : ℕ) : Prop :=
  env.buffer + page * env.sizes.pageSize ≤ address ∧
    address < env.buffer + (page + 1) * env.sizes.pageSize

instance (page address : ℕ) : Decidable (env.InPage page address) :=
  inferInstanceAs (Decidable (_ ∧ _))

/-- The lines of a block, which is a page and an offset in it. -/
def blockLines (block : ℕ × ℕ) : List ℕ :=
  (stride 0 env.sizes.classGranularity cacheLineBytes).map
    (env.buffer + block.1 * env.sizes.pageSize + block.2 + ·)

/-- The translation of a page, in its turn. -/
def translatePage (page : ℕ) : AddrTranslateRc × AddrTranslation :=
  env.translate page (env.buffer + page * env.sizes.pageSize)

/-- The test of the worker succeeds for a block. -/
structure IsTarget (block : ℕ × ℕ) : Prop where
  mem_offsets : block.2 ∈ env.blockOffsets
  translated : (env.translatePage block.1).1 = .ok
  class_eq : dramMappingBankClassFast env.mapping
    ((env.translatePage block.1).2.physicalAddress + UInt64.ofNat block.2) = env.targetClass

variable {env}

theorem mem_blockOffsets (h : env.Valid) {offset : ℕ} : offset ∈ env.blockOffsets ↔
    offset < env.sizes.pageSize ∧ env.sizes.classGranularity ∣ offset := by
  rw [blockOffsets, mem_stride h.sizes.granularity_pos, Nat.dvd_iff_mod_eq_zero]

/-- A block does not go beyond its page. -/
theorem block_le_page (h : env.Valid) {offset : ℕ} (hoffset : offset ∈ env.blockOffsets) :
    offset + env.sizes.classGranularity ≤ env.sizes.pageSize := by
  obtain ⟨hlt, k, rfl⟩ := (mem_blockOffsets h).1 hoffset
  obtain ⟨n, hn⟩ := h.sizes.granularity_dvd
  rw [hn] at hlt ⊢
  rw [← Nat.mul_succ]
  exact Nat.mul_le_mul_left _ (Nat.lt_of_mul_lt_mul_left hlt)

/-- The lines of a block. -/
theorem mem_blockLines {block : ℕ × ℕ} {a : ℕ} : a ∈ env.blockLines block ↔
    ∃ l < env.sizes.classGranularity, cacheLineBytes ∣ l ∧
      a = env.buffer + block.1 * env.sizes.pageSize + block.2 + l := by
  rw [blockLines, List.mem_map]
  simp only [mem_stride (show 0 < cacheLineBytes by decide), ← Nat.dvd_iff_mod_eq_zero, and_assoc,
    eq_comm]

theorem length_blockLines (h : env.Valid) (block : ℕ × ℕ) :
    (env.blockLines block).length = env.sizes.classGranularity / cacheLineBytes := by
  obtain ⟨k, hk⟩ := h.sizes.line_dvd
  rw [blockLines, List.length_map, stride, List.length_range', hk, cacheLineBytes]
  omega

/-- A line tells its block. -/
theorem block_eq_of_mem (h : env.Valid) {block : ℕ × ℕ} (hblock : block.2 ∈ env.blockOffsets)
    {a : ℕ} (ha : a ∈ env.blockLines block) :
    block.1 = (a - env.buffer) / env.sizes.pageSize ∧
      block.2 = (a - env.buffer) % env.sizes.pageSize / env.sizes.classGranularity *
        env.sizes.classGranularity := by
  obtain ⟨l, hl, -, rfl⟩ := mem_blockLines.1 ha
  have hle := block_le_page h hblock
  obtain ⟨-, k, hk⟩ := (mem_blockOffsets h).1 hblock
  have hsub : env.buffer + block.1 * env.sizes.pageSize + block.2 + l - env.buffer =
      env.sizes.pageSize * block.1 + (block.2 + l) := by
    rw [Nat.mul_comm block.1]
    omega
  rw [hsub, Nat.mul_add_div h.sizes.page_pos, Nat.mul_add_mod,
    Nat.div_eq_of_lt (by omega), Nat.mod_eq_of_lt (by omega), hk,
    Nat.mul_add_div h.sizes.granularity_pos, Nat.div_eq_of_lt hl, Nat.add_zero, Nat.add_zero,
    Nat.mul_comm k]
  exact ⟨rfl, rfl⟩

theorem inPage_iff (h : env.Valid) {block : ℕ × ℕ} (hblock : block.2 ∈ env.blockOffsets)
    {a : ℕ} (ha : a ∈ env.blockLines block) {page : ℕ} : env.InPage page a ↔ block.1 = page := by
  constructor
  · rintro ⟨hge, hlt⟩
    rw [(block_eq_of_mem h hblock ha).1]
    rw [Nat.add_mul, Nat.one_mul] at hlt
    exact Nat.div_eq_of_lt_le (by omega) (by rw [Nat.succ_mul]; omega)
  · rintro rfl
    obtain ⟨l, hl, -, rfl⟩ := mem_blockLines.1 ha
    have hle := block_le_page h hblock
    rw [InPage, Nat.add_mul, Nat.one_mul]
    omega

/-- The blocks of a page are in the buffer. -/
theorem page_fits (h : env.Valid) {page : ℕ} (hpage : page < env.sizes.pageCount) :
    env.buffer + page * env.sizes.pageSize + env.sizes.pageSize ≤ 2 ^ 64 := by
  have hfits := h.fits
  rw [h.sizes.candidate_eq] at hfits
  have hle : (page + 1) * env.sizes.pageSize ≤ env.sizes.pageCount * env.sizes.pageSize :=
    Nat.mul_le_mul_right _ hpage
  rw [Nat.add_mul, Nat.one_mul] at hle
  omega

theorem toNat_pageSize (h : env.Valid) : env.ctx.pageSize.toNat = env.sizes.pageSize :=
  UInt64.toNat_ofNat_of_lt' h.sizes.page_lt

/-- All lines of a block that passes the test are of the class. -/
theorem IsTarget.line_class (h : env.Valid) {block : ℕ × ℕ} (htarget : env.IsTarget block)
    (hpage : block.1 < env.sizes.pageCount) {a : ℕ} (ha : a ∈ env.blockLines block) :
    (env.translate block.1 a).1 = .ok ∧
      dramMappingBankClassFast env.mapping (env.translate block.1 a).2.physicalAddress =
        env.targetClass := by
  obtain ⟨l, hl, -, rfl⟩ := mem_blockLines.1 ha
  have hle := block_le_page h htarget.mem_offsets
  have hfits := page_fits h hpage
  have hsize := toNat_pageSize h
  have hpos := h.sizes.page_pos
  have hword {n : ℕ} (hn : n < 2 ^ 64) : (UInt64.ofNat n).toNat = n := UInt64.toNat_ofNat_of_lt' hn
  have hpageVa := hword (n := env.buffer + block.1 * env.sizes.pageSize) (by omega)
  have hlineVa : (UInt64.ofNat (env.buffer + block.1 * env.sizes.pageSize + block.2 + l)).toNat =
      (UInt64.ofNat (env.buffer + block.1 * env.sizes.pageSize)).toNat + (block.2 + l) := by
    rw [hpageVa, hword (by omega), Nat.add_assoc]
  have hdvd : env.ctx.pageSize.toNat ∣
      (UInt64.ofNat (env.buffer + block.1 * env.sizes.pageSize)).toNat := by
    rw [hpageVa, hsize]
    exact Nat.dvd_add h.aligned (Nat.dvd_mul_left _ _)
  obtain ⟨hframe, hok, hpa⟩ := translate_in_page (hsize ▸ h.page_dvd) hdvd (by omega) hlineVa
    htarget.translated addrTranslationZero
  refine ⟨hok, ?_⟩
  rw [← htarget.class_eq]
  refine h.sizes.bankClass_eq ?_
  -- the line and the first byte of the block, in the frame
  have hlt := (env.translate block.1
    (env.buffer + block.1 * env.sizes.pageSize + block.2 + l)).2.physicalAddress.toNat_lt
  rw [translate, hpa] at hlt ⊢
  rw [translatePage, translate, UInt64.toNat_add, hword (n := block.2) (by omega),
    Nat.mod_eq_of_lt (by omega), ← Nat.add_assoc]
  have hblock := Nat.dvd_add (h.sizes.granularity_dvd.trans (hsize ▸ hframe))
    ((mem_blockOffsets h).1 htarget.mem_offsets).2
  rw [Nat.add_div_of_dvd_right hblock, Nat.div_eq_of_lt hl, Nat.add_zero]

end WorkerEnv

/-! ## The loops -/

/-- The selected blocks account for all the variables. -/
structure Holds (env : WorkerEnv) (blocks : List (ℕ × ℕ)) (s : Selection) : Prop where
  lines_eq : s.lines = blocks.flatMap env.blockLines
  selectedBlocks_eq : s.selectedBlocks = blocks.length
  selectedLines_eq : s.selectedLines = s.lines.length
  room : blocks.length ≤ env.sizes.requiredBlocks
  keep_length : s.keepPage.length = env.sizes.pageCount
  keep_iff : ∀ page, s.keepPage.getD page false = true ↔ ∃ block ∈ blocks, block.1 = page
  nodup : blocks.Nodup
  isTarget : ∀ block ∈ blocks, env.IsTarget block
  scanned : ∀ block ∈ blocks, block.1 < s.scannedPages
  scanned_le : s.scannedPages ≤ env.sizes.pageCount

section Loops

variable {env : WorkerEnv} {blocks : List (ℕ × ℕ)} {s : Selection}

theorem holds_start : Holds env [] env.start where
  lines_eq := rfl
  selectedBlocks_eq := rfl
  selectedLines_eq := rfl
  room := Nat.zero_le _
  keep_length := List.length_replicate
  keep_iff := by simp [WorkerEnv.start]
  nodup := List.nodup_nil
  isTarget := by simp
  scanned := by simp
  scanned_le := Nat.zero_le _

/-- A further page is scanned. -/
theorem Holds.scan (h : Holds env blocks s) (hlt : s.scannedPages < env.sizes.pageCount) :
    Holds env blocks { s with scannedPages := s.scannedPages + 1 } :=
  { h with
    scanned := fun block hblock => (h.scanned block hblock).trans (Nat.lt_succ_self _)
    scanned_le := hlt }

/-- The number of the lines, by that of the blocks. -/
theorem Holds.length_lines (h : Holds env blocks s) (hvalid : env.Valid) :
    s.lines.length = s.selectedBlocks * (env.sizes.classGranularity / cacheLineBytes) := by
  rw [h.lines_eq, h.selectedBlocks_eq, List.length_flatMap]
  simp only [WorkerEnv.length_blockLines hvalid, List.map_const', List.sum_replicate, smul_eq_mul]

/-- A block is selected. -/
def Selection.add (env : WorkerEnv) (s : Selection) (block : ℕ × ℕ) : Selection where
  lines := s.lines ++ env.blockLines block
  keepPage := s.keepPage.set block.1 true
  selectedBlocks := s.selectedBlocks + 1
  selectedLines := s.selectedLines + (env.blockLines block).length
  scannedPages := s.scannedPages

/-- One more block keeps the invariant. -/
theorem Holds.add (h : Holds env blocks s) (hlt : s.selectedBlocks < env.sizes.requiredBlocks)
    {block : ℕ × ℕ} (htarget : env.IsTarget block) (hpage : block.1 < s.scannedPages)
    (hnew : block ∉ blocks) : Holds env (blocks ++ [block]) (s.add env block) where
  lines_eq := by simp [Selection.add, h.lines_eq]
  selectedBlocks_eq := by simp [Selection.add, h.selectedBlocks_eq]
  selectedLines_eq := by simp [Selection.add, h.selectedLines_eq]
  room := by
    rw [h.selectedBlocks_eq] at hlt
    simpa using hlt
  keep_length := by simp [Selection.add, h.keep_length]
  keep_iff page := by
    have hlen : block.1 < s.keepPage.length :=
      hpage.trans_le (h.scanned_le.trans h.keep_length.ge)
    have hmem : (∃ b ∈ blocks ++ [block], b.1 = page) ↔
        s.keepPage.getD page false = true ∨ block.1 = page := by
      rw [h.keep_iff page]
      simp only [List.mem_append, List.mem_singleton, or_and_right, exists_or, exists_eq_left]
    rw [hmem, Selection.add, List.getD_eq_getElem?_getD, List.getElem?_set,
      List.getD_eq_getElem?_getD]
    by_cases heq : block.1 = page
    · simp [heq, heq ▸ hlen]
    · simp [heq]
  nodup := h.nodup.append (List.nodup_singleton _) (List.disjoint_singleton.2 hnew)
  isTarget := List.forall_mem_append.2 ⟨h.isTarget, List.forall_mem_singleton.2 htarget⟩
  scanned := List.forall_mem_append.2 ⟨h.scanned, List.forall_mem_singleton.2 hpage⟩
  scanned_le := h.scanned_le

/-- Where there is room for the lines of a block, they are all written. -/
theorem lineLoop_eq (block : ℕ) (lineOffsets : List ℕ) (s : Selection)
    (hroom : s.selectedLines + lineOffsets.length ≤ env.sizes.requiredLines) :
    lineLoop env block lineOffsets s = .ok { s with
      lines := s.lines ++ lineOffsets.map (block + ·)
      selectedLines := s.selectedLines + lineOffsets.length } := by
  induction lineOffsets generalizing s with
  | nil => simp [lineLoop]
  | cons lineOffset lineOffsets ih =>
    rw [List.length_cons] at hroom
    rw [lineLoop, if_neg (by omega), ih _ (by dsimp only; omega)]
    simp [Nat.add_assoc, Nat.add_comm 1]

/-- Before the last block there is room for the lines of one more. -/
theorem selectBlock_eq (hvalid : env.Valid) (h : Holds env blocks s)
    (hlt : s.selectedBlocks < env.sizes.requiredBlocks) (page : ℕ) (pa : UInt64) (offset : ℕ) :
    selectBlock env page pa s offset =
      if dramMappingBankClassFast env.mapping (pa + UInt64.ofNat offset) = env.targetClass then
        .ok (s.add env (page, offset))
      else
        .ok s := by
  have hlen := WorkerEnv.length_blockLines hvalid (page, offset)
  rw [WorkerEnv.blockLines, List.length_map] at hlen
  have hroom : s.selectedLines + (stride 0 env.sizes.classGranularity cacheLineBytes).length ≤
      env.sizes.requiredLines := by
    rw [h.selectedLines_eq, h.length_lines hvalid, hlen, hvalid.sizes.required_eq, ← Nat.succ_mul]
    exact Nat.mul_le_mul_right _ hlt
  rw [selectBlock]
  dsimp only
  rw [lineLoop_eq _ _ { s with keepPage := s.keepPage.set page true } hroom, Selection.add,
    WorkerEnv.blockLines, List.length_map]
  rfl

/-- A page is searched for blocks, up to the last that is needed. -/
theorem blockLoop_spec (hvalid : env.Valid) (h : Holds env blocks s) {page : ℕ}
    (hpage : page < s.scannedPages) (hok : (env.translatePage page).1 = .ok) {offsets : List ℕ}
    (hsub : offsets ⊆ env.blockOffsets) (hnodup : offsets.Nodup)
    (hnew : ∀ offset ∈ offsets, (page, offset) ∉ blocks) :
    ∃ s' blocks', blockLoop env page (env.translatePage page).2.physicalAddress offsets s =
        .ok s' ∧ Holds env blocks' s' ∧ s'.scannedPages = s.scannedPages := by
  induction offsets generalizing s blocks with
  | nil => exact ⟨s, blocks, rfl, h, rfl⟩
  | cons offset offsets ih =>
    rw [List.cons_subset] at hsub
    rw [List.nodup_cons] at hnodup
    rw [List.forall_mem_cons] at hnew
    rw [blockLoop]
    split
    case isFalse => exact ⟨s, blocks, rfl, h, rfl⟩
    case isTrue hlt =>
      rw [selectBlock_eq hvalid h hlt]
      split
      case isFalse => exact ih h hpage hsub.2 hnodup.2 hnew.2
      case isTrue hclass =>
        have htarget : env.IsTarget (page, offset) := ⟨hsub.1, hok, hclass⟩
        refine ih (h.add hlt htarget hpage hnew.1) hpage hsub.2 hnodup.2 fun offset' hoffset' => ?_
        rw [List.mem_append, List.mem_singleton, not_or]
        refine ⟨hnew.2 offset' hoffset', fun heq => ?_⟩
        rw [Prod.mk.injEq] at heq
        exact hnodup.1 (heq.2 ▸ hoffset')

/-- The result has a property, unless the translation of a page has failed. -/
def UnlessUntranslated (P : Selection → Prop) : Except WorkerFailure Selection → Prop
  | .error (.translation _ _) => True
  | .error _ => False
  | .ok s => P s

theorem UnlessUntranslated.ne_overrun {P : Selection → Prop}
    {r : Except WorkerFailure Selection} (h : UnlessUntranslated P r) :
    r ≠ .error .linesOverrun := by
  rintro rfl
  exact h

theorem UnlessUntranslated.of_ok {P : Selection → Prop} {r : Except WorkerFailure Selection}
    (h : UnlessUntranslated P r) {s : Selection} (hs : r = .ok s) : P s := by
  subst hs
  exact h

theorem UnlessUntranslated.bind {P Q : Selection → Prop} {r : Except WorkerFailure Selection}
    {f : Selection → Except WorkerFailure Selection} (h : UnlessUntranslated P r)
    (hf : ∀ s, P s → UnlessUntranslated Q (f s)) : UnlessUntranslated Q (r >>= f) := by
  cases r with
  | ok s => exact hf s h
  | error failure => cases failure <;> exact h

/-- Once a page is translated, its blocks are searched. -/
theorem selectPage_eq {page : ℕ} (hok : (env.translatePage page).1 = .ok) (offsets : List ℕ)
    (s : Selection) : selectPage env offsets s page =
      blockLoop env page (env.translatePage page).2.physicalAddress offsets
        { s with scannedPages := page + 1 } :=
  if_neg (not_not.2 hok)

/-- A page that is one block is taken or not. -/
theorem selectPage_eq_of_single (hvalid : env.Valid) (h : Holds env blocks s) {page : ℕ}
    (hok : (env.translatePage page).1 = .ok) {offset : ℕ}
    (hlt : s.selectedBlocks < env.sizes.requiredBlocks) (hpage : page = s.scannedPages)
    (hcount : page < env.sizes.pageCount) : selectPage env [offset] s page =
      if dramMappingBankClassFast env.mapping
          ((env.translatePage page).2.physicalAddress + UInt64.ofNat offset) = env.targetClass then
        .ok (Selection.add env { s with scannedPages := page + 1 } (page, offset))
      else
        .ok { s with scannedPages := page + 1 } := by
  subst hpage
  have hturn := selectBlock_eq hvalid (h.scan hcount) hlt s.scannedPages
    (env.translatePage s.scannedPages).2.physicalAddress offset
  rw [selectPage_eq hok, blockLoop, if_pos hlt, hturn]
  split <;> rfl

/-- A turn of the loop over the pages, up to some of the blocks. -/
theorem selectPage_spec (hvalid : env.Valid) (h : Holds env blocks s)
    (hlt : s.scannedPages < env.sizes.pageCount) {offsets : List ℕ}
    (hsub : offsets.Sublist env.blockOffsets) :
    UnlessUntranslated (fun s' => (∃ blocks', Holds env blocks' s') ∧
      s'.scannedPages = s.scannedPages + 1) (selectPage env offsets s s.scannedPages) := by
  by_cases hok : (env.translatePage s.scannedPages).1 = .ok
  · -- the blocks so far are of earlier pages
    have hnew : ∀ offset ∈ offsets, (s.scannedPages, offset) ∉ blocks :=
      fun offset _ hmem => absurd (h.scanned _ hmem) (lt_irrefl _)
    have hnodup : env.blockOffsets.Nodup := nodup_stride hvalid.sizes.granularity_pos
    obtain ⟨s', blocks', hloop, hholds, hscanned⟩ := blockLoop_spec hvalid (h.scan hlt)
      (Nat.lt_succ_self _) hok hsub.subset (hnodup.sublist hsub) hnew
    rw [selectPage_eq hok, hloop]
    exact ⟨⟨blocks', hholds⟩, hscanned⟩
  · have hpage : selectPage env offsets s s.scannedPages =
        .error (.translation s.scannedPages (env.translatePage s.scannedPages).1) := if_pos hok
    rw [hpage]
    trivial

/-- A turn that succeeds is followed by the other pages. -/
theorem pageLoop_cons {page : ℕ} {s' : Selection}
    (hlt : s.selectedBlocks < env.sizes.requiredBlocks)
    (hpage : selectPage env env.blockOffsets s page = .ok s') (pages : List ℕ) :
    pageLoop env (page :: pages) s = pageLoop env pages s' := by
  rw [pageLoop, if_pos hlt, hpage]
  rfl

/-- With enough blocks, no further page is scanned. -/
theorem pageLoop_of_enough (hge : ¬s.selectedBlocks < env.sizes.requiredBlocks) (pages : List ℕ) :
    pageLoop env pages s = .ok s := by
  cases pages with
  | nil => rfl
  | cons page pages => rw [pageLoop, if_neg hge]

/-- The loop over the next `n` pages. -/
theorem pageLoop_spec (hvalid : env.Valid) (n : ℕ) (h : Holds env blocks s)
    (hle : s.scannedPages + n ≤ env.sizes.pageCount) :
    UnlessUntranslated (fun s' => (∃ blocks', Holds env blocks' s') ∧
        (s'.selectedBlocks < env.sizes.requiredBlocks → s'.scannedPages = s.scannedPages + n))
      (pageLoop env (List.range' s.scannedPages n) s) := by
  induction n generalizing s blocks with
  | zero => exact ⟨⟨blocks, h⟩, fun _ => rfl⟩
  | succ n ih =>
    rw [List.range'_succ, pageLoop]
    split
    case isFalse hge => exact ⟨⟨blocks, h⟩, fun hlt => absurd hlt hge⟩
    case isTrue hlt =>
      refine (selectPage_spec hvalid h (by omega) (List.Sublist.refl _)).bind ?_
      rintro s' ⟨⟨blocks', hholds⟩, hscanned⟩
      have hrest := ih hholds (by omega)
      rwa [hscanned, Nat.add_assoc, Nat.add_comm 1] at hrest

end Loops

/-! ## What is selected -/

/-- The entries of `lines` that are written are as many as the blocks account for and have room,
    and they are distinct lines of the class. -/
structure SelectionSound (env : WorkerEnv) (s : Selection) : Prop where
  written : s.lines.length = s.selectedLines
  room : s.selectedLines ≤ env.sizes.requiredLines
  whole_blocks :
    s.selectedLines = s.selectedBlocks * (env.sizes.classGranularity / cacheLineBytes)
  distinct : s.lines.Nodup
  of_class : ∀ a ∈ s.lines, ∃ page < s.scannedPages, env.InPage page a ∧
    (env.translate page a).1 = .ok ∧
    dramMappingBankClassFast env.mapping (env.translate page a).2.physicalAddress =
      env.targetClass

section

variable {env : WorkerEnv} {blocks : List (ℕ × ℕ)} {s : Selection}

/-- With the invariant the selection is sound. -/
theorem Holds.sound (h : Holds env blocks s) (hvalid : env.Valid) : SelectionSound env s where
  written := h.selectedLines_eq.symm
  room := by
    rw [h.selectedLines_eq, h.length_lines hvalid, hvalid.sizes.required_eq, h.selectedBlocks_eq]
    exact Nat.mul_le_mul_right _ h.room
  whole_blocks := by rw [h.selectedLines_eq, h.length_lines hvalid]
  distinct := by
    rw [h.lines_eq, List.nodup_flatMap]
    constructor
    · intro block _
      exact (nodup_stride (by decide)).map (add_right_injective _)
    · refine h.nodup.pairwise_of_forall_ne fun b hb b' hb' hne a ha ha' => hne ?_
      obtain ⟨hpage, hoffset⟩ :=
        WorkerEnv.block_eq_of_mem hvalid (h.isTarget b hb).mem_offsets ha
      obtain ⟨hpage', hoffset'⟩ :=
        WorkerEnv.block_eq_of_mem hvalid (h.isTarget b' hb').mem_offsets ha'
      exact Prod.ext (hpage.trans hpage'.symm) (hoffset.trans hoffset'.symm)
  of_class a ha := by
    rw [h.lines_eq, List.mem_flatMap] at ha
    obtain ⟨block, hblock, ha⟩ := ha
    have htarget := h.isTarget block hblock
    have hlt := h.scanned block hblock
    exact ⟨block.1, hlt, (WorkerEnv.inPage_iff hvalid htarget.mem_offsets ha).2 rfl,
      htarget.line_class hvalid (hlt.trans_le h.scanned_le) ha⟩

/-- The pages to keep are those with a line that is recorded. -/
theorem Holds.keep_iff_line (h : Holds env blocks s) (hvalid : env.Valid) (page : ℕ) :
    s.keepPage.getD page false = true ↔ ∃ a ∈ s.lines, env.InPage page a := by
  rw [h.keep_iff, h.lines_eq]
  constructor
  · rintro ⟨block, hblock, hpage⟩
    have hfirst : env.buffer + block.1 * env.sizes.pageSize + block.2 ∈ env.blockLines block :=
      WorkerEnv.mem_blockLines.2 ⟨0, hvalid.sizes.granularity_pos, dvd_zero _, rfl⟩
    exact ⟨_, List.mem_flatMap.2 ⟨block, hblock, hfirst⟩,
      (WorkerEnv.inPage_iff hvalid (h.isTarget block hblock).mem_offsets hfirst).2 hpage⟩
  · rintro ⟨a, ha, hpage⟩
    obtain ⟨block, hblock, ha⟩ := List.mem_flatMap.1 ha
    exact ⟨block, hblock,
      (WorkerEnv.inPage_iff hvalid (h.isTarget block hblock).mem_offsets ha).1 hpage⟩

/-- At the head of every turn of the loop over the pages. -/
theorem selectedBefore_spec (hvalid : env.Valid) {n : ℕ} (hn : n ≤ env.sizes.pageCount) :
    UnlessUntranslated (fun s => (∃ blocks, Holds env blocks s) ∧
        (s.selectedBlocks < env.sizes.requiredBlocks → s.scannedPages = n))
      (env.selectedBefore n) := by
  have hloop := pageLoop_spec hvalid n (holds_start : Holds env [] env.start)
    (by simpa [WorkerEnv.start])
  rw [WorkerEnv.selectedBefore, List.range_eq_range']
  simpa [WorkerEnv.start] using hloop

end

/-! ## Release -/

section Release

variable {keepPage : List Bool} {scannedPages : ℕ}

/-- The pages from `i` on that are not kept. -/
def unkeptFrom (keepPage : List Bool) (scannedPages i : ℕ) : List ℕ :=
  (List.range' i (scannedPages - i)).filter fun page => keepPage.getD page false = false

theorem unkeptFrom_of_lt {i : ℕ} (hlt : i < scannedPages) :
    unkeptFrom keepPage scannedPages i =
      if keepPage.getD i false = false then i :: unkeptFrom keepPage scannedPages (i + 1)
      else unkeptFrom keepPage scannedPages (i + 1) := by
  have hlen : scannedPages - i = scannedPages - (i + 1) + 1 := by omega
  rw [unkeptFrom, hlen, List.range'_succ, List.filter_cons]
  simp only [decide_eq_true_eq]
  rfl

/-- The inner loop goes to the end of a run of pages that are not kept. -/
theorem unkeptFrom_runEnd (i : ℕ) : unkeptFrom keepPage scannedPages i =
    List.range' i (runEnd keepPage scannedPages i - i) ++
      unkeptFrom keepPage scannedPages (runEnd keepPage scannedPages i) := by
  fun_induction runEnd keepPage scannedPages i with
  | case1 i h ih =>
    have hle := le_runEnd keepPage scannedPages (i + 1)
    have hlen : runEnd keepPage scannedPages (i + 1) - i =
        runEnd keepPage scannedPages (i + 1) - (i + 1) + 1 := by omega
    rw [unkeptFrom_of_lt h.1, if_pos h.2, ih, hlen, List.range'_succ, List.cons_append]
  | case2 i h => rw [Nat.sub_self, List.range'_zero, List.nil_append]

/-- The call of `madvise` for a run: its first page, and how many pages it has. -/
def adviceCall (buffer pageSize : ℕ) (run : ℕ × ℕ) : ℕ × ℕ :=
  (buffer + run.1 * pageSize, run.2 * pageSize)

/-- How a loop over calls ends: it succeeds if `madvise` takes them all, and else the last of
    them, and no other, is refused. -/
inductive AdviceEnd (madvise : ℕ → ℕ → Bool) : Bool → List (ℕ × ℕ) → Prop
  | taken {calls : List (ℕ × ℕ)} (h : ∀ call ∈ calls, madvise call.1 call.2 = true) :
      AdviceEnd madvise true calls
  | refused {calls : List (ℕ × ℕ)} {call : ℕ × ℕ}
      (h : ∀ call ∈ calls, madvise call.1 call.2 = true)
      (hlast : madvise call.1 call.2 = false) : AdviceEnd madvise false (calls ++ [call])

/-- A call that is taken comes before the others. -/
theorem AdviceEnd.cons {madvise : ℕ → ℕ → Bool} {released : Bool} {calls : List (ℕ × ℕ)}
    (h : AdviceEnd madvise released calls) {call : ℕ × ℕ}
    (htaken : madvise call.1 call.2 = true) : AdviceEnd madvise released (call :: calls) := by
  cases h with
  | taken h => exact .taken (List.forall_mem_cons.2 ⟨htaken, h⟩)
  | refused h hlast => exact .refused (List.forall_mem_cons.2 ⟨htaken, h⟩) hlast

/-- If `madvise` takes every call, the loop succeeds. -/
theorem AdviceEnd.eq_true {madvise : ℕ → ℕ → Bool} {released : Bool} {calls : List (ℕ × ℕ)}
    (h : AdviceEnd madvise released calls) (hall : ∀ a n, madvise a n = true) :
    released = true := by
  cases h with
  | taken => rfl
  | refused _ hlast => exact absurd (hall _ _) (ne_true_of_eq_false hlast)

/-- The calls are for runs of pages, which are together the pages that are not kept, up to the
    first call that fails. -/
theorem releaseLoop_spec (keepPage : List Bool) (scannedPages buffer pageSize : ℕ)
    (madvise : ℕ → ℕ → Bool) (i : ℕ) (calls : List (ℕ × ℕ)) :
    let r := releaseLoop keepPage scannedPages buffer pageSize madvise i calls
    ∃ runs : List (ℕ × ℕ),
      r.2 = calls ++ runs.map (adviceCall buffer pageSize) ∧
      (runs.flatMap fun run => List.range' run.1 run.2) <+: unkeptFrom keepPage scannedPages i ∧
      (r.1 = true → (runs.flatMap fun run => List.range' run.1 run.2) =
        unkeptFrom keepPage scannedPages i) ∧
      AdviceEnd madvise r.1 (runs.map (adviceCall buffer pageSize)) := by
  fun_induction releaseLoop keepPage scannedPages buffer pageSize madvise i calls with
  | case1 i calls hlt hkeep ih =>
    rw [unkeptFrom_of_lt hlt, if_neg (ne_false_of_eq_true hkeep)]
    exact ih
  | case2 i calls hlt hkeep start stop lengthPages call hadvice ih =>
    obtain ⟨runs, hcalls, hinit, hall, hend⟩ := ih
    refine ⟨(start, lengthPages) :: runs, ?_, ?_, fun hok => ?_, hend.cons hadvice⟩
    · rw [hcalls, List.append_assoc, List.singleton_append, List.map_cons]
      rfl
    · rw [List.flatMap_cons, unkeptFrom_runEnd i]
      exact (List.prefix_append_right_inj _).2 hinit
    · rw [List.flatMap_cons, unkeptFrom_runEnd i, hall hok]
  | case3 i calls hlt hkeep start stop lengthPages call hadvice =>
    refine ⟨[(start, lengthPages)], rfl, ?_, fun hok => absurd hok Bool.false_ne_true,
      .refused (fun _ h => absurd h List.not_mem_nil) (Bool.eq_false_of_not_eq_true hadvice)⟩
    rw [List.flatMap_singleton, unkeptFrom_runEnd i]
    exact List.prefix_append _ _
  | case4 i calls hge =>
    have hnone : unkeptFrom keepPage scannedPages i = [] := by
      rw [unkeptFrom, Nat.sub_eq_zero_of_le (not_lt.1 hge)]
      rfl
    exact ⟨[], by simp, List.nil_prefix, fun _ => hnone.symm,
      .taken fun _ h => absurd h List.not_mem_nil⟩

/-- What is not kept are the scanned pages without a line. -/
theorem Holds.unkeptFrom_zero {env : WorkerEnv} {blocks : List (ℕ × ℕ)} {s : Selection}
    (h : Holds env blocks s) (hvalid : env.Valid) :
    unkeptFrom s.keepPage s.scannedPages 0 =
      (List.range s.scannedPages).filter fun page => ¬∃ a ∈ s.lines, env.InPage page a := by
  rw [unkeptFrom, Nat.sub_zero, ← List.range_eq_range']
  refine List.filter_congr fun page _ => ?_
  rw [decide_eq_decide, ← h.keep_iff_line hvalid, Bool.not_eq_true]

/-- The release comes after a selection that is complete. -/
theorem selectAndRelease_eq_ok {env : WorkerEnv} {madvise : ℕ → ℕ → Bool} {s : Selection}
    {released : Bool} {calls : List (ℕ × ℕ)}
    (h : selectAndRelease env madvise = .ok (s, released, calls)) :
    env.selectedBefore env.sizes.pageCount = .ok s ∧ s.selectedLines = env.sizes.requiredLines ∧
      releaseLoop s.keepPage s.scannedPages env.buffer env.sizes.pageSize madvise 0 [] =
        (released, calls) := by
  rw [selectAndRelease] at h
  cases hs : env.selectedBefore env.sizes.pageCount with
  | error failure =>
    rw [hs] at h
    cases h
  | ok s' =>
    rw [hs] at h
    dsimp only [bind, Except.bind] at h
    split at h
    case isTrue => cases h
    case isFalse hcapacity =>
      rw [not_or, not_not, not_not] at hcapacity
      rw [Except.ok.injEq, Prod.mk.injEq] at h
      obtain ⟨rfl, hrelease⟩ := h
      exact ⟨rfl, hcapacity.2, hrelease⟩

theorem selectedBefore_of_overrun {env : WorkerEnv} {madvise : ℕ → ℕ → Bool}
    (h : selectAndRelease env madvise = .error .linesOverrun) :
    env.selectedBefore env.sizes.pageCount = .error .linesOverrun := by
  rw [selectAndRelease] at h
  cases hs : env.selectedBefore env.sizes.pageCount with
  | error failure =>
    rw [hs] at h
    obtain rfl : failure = .linesOverrun := Except.error.inj h
    rfl
  | ok s =>
    rw [hs] at h
    dsimp only [bind, Except.bind] at h
    split at h <;> cases h

end Release

/-- For every ready mapping and all sizes that pass the checks of `main`, a page being a power of
    two of bytes: the granularity is that of the lowest bit set in any mask, at least a line and
    at most a page, and addresses of one block share a class.

    Whatever the pages translate to, at the head of each turn of the loops over the pages and over
    the blocks, no write has gone behind the end of `lines`, and the selection is sound: the lines
    are distinct, of the class and as many as the blocks have.

    Whatever `madvise` returns, the calls of the release are for runs of pages. It succeeds if
    `madvise` takes every call, and these are then the scanned pages without a line, each once. It
    fails only after a last call that was refused, with the first of these pages. -/
theorem worker_takes_its_class {mapping : DramMapping}
    {targetClass candidateMib selectedMib runSeconds : UInt64} {pageSizeLong : ℤ} {z : WorkerSizes}
    (hz : workerSizes mapping targetClass candidateMib selectedMib runSeconds pageSizeLong = .ok z)
    {e : ℕ} (hpow : z.pageSize = 2 ^ e) {buffer : ℕ} (haligned : z.pageSize ∣ buffer)
    (hmapped : buffer + z.candidateBytes ≤ 2 ^ 64) (pid pagemapFd : ℤ) (pread : ℕ → Pread) :
    let env : WorkerEnv := ⟨mapping, targetClass, z, buffer, pid, pagemapFd, pread⟩
    (∃ bit, z.classGranularity = 2 ^ bit ∧ (∃ mask ∈ mapping.masks, mask.toNat.testBit bit = true) ∧
      ∀ mask ∈ mapping.masks, ∀ j < bit, mask.toNat.testBit j = false) ∧
    64 ≤ z.classGranularity ∧ z.classGranularity ≤ z.pageSize ∧
    (∀ a a' : UInt64, a.toNat / z.classGranularity = a'.toNat / z.classGranularity →
      dramMappingBankClassFast mapping a = dramMappingBankClassFast mapping a') ∧
    (∀ n ≤ z.pageCount, env.selectedBefore n ≠ .error .linesOverrun ∧
      ∀ s, env.selectedBefore n = .ok s → SelectionSound env s ∧
        (n < z.pageCount → s.selectedBlocks < z.requiredBlocks → ∀ k,
          selectPage env (env.blockOffsets.take k) s n ≠ .error .linesOverrun ∧
          ∀ s', selectPage env (env.blockOffsets.take k) s n = .ok s' →
            SelectionSound env s')) ∧
    ∀ madvise, selectAndRelease env madvise ≠ .error .linesOverrun ∧
      ∀ s released calls, selectAndRelease env madvise = .ok (s, released, calls) →
        SelectionSound env s ∧ s.lines.length = z.requiredLines ∧
        ∃ runs : List (ℕ × ℕ),
          calls = runs.map (adviceCall buffer z.pageSize) ∧
          let pages := runs.flatMap fun run => List.range' run.1 run.2
          let unselected := (List.range s.scannedPages).filter fun page =>
            ¬∃ a ∈ s.lines, env.InPage page a
          pages <+: unselected ∧ (released = true → pages = unselected) ∧
          AdviceEnd madvise released calls ∧ ((∀ a n, madvise a n = true) → released = true) := by
  intro env
  have hsizes := sizesOk_of_workerSizes hz
  obtain ⟨bit, hgranularity, hlow⟩ := hsizes.exists_bit
  have hvalid : env.Valid := {
    sizes := hsizes
    page_dvd := by
      have hlt := hsizes.page_lt
      rw [hpow] at hlt
      exact hpow ▸ Nat.pow_dvd_pow 2 ((Nat.pow_lt_pow_iff_right one_lt_two).1 hlt).le
    aligned := haligned
    fits := hmapped }
  refine ⟨⟨bit, hgranularity, hlow.exists_set, hlow.clear_below⟩,
    Nat.le_of_dvd hsizes.granularity_pos hsizes.line_dvd,
    Nat.le_of_dvd hsizes.page_pos hsizes.granularity_dvd, fun a a' => hsizes.bankClass_eq, ?_, ?_⟩
  · intro n hn
    have hbefore := selectedBefore_spec hvalid hn
    refine ⟨hbefore.ne_overrun, fun s hs => ?_⟩
    obtain ⟨⟨blocks, h⟩, hscanned⟩ := hbefore.of_ok hs
    refine ⟨h.sound hvalid, fun hlt hmore k => ?_⟩
    obtain rfl := hscanned hmore
    have hpage := selectPage_spec hvalid h hlt (List.take_sublist k env.blockOffsets)
    refine ⟨hpage.ne_overrun, fun s' hs' => ?_⟩
    obtain ⟨⟨blocks', h'⟩, -⟩ := hpage.of_ok hs'
    exact h'.sound hvalid
  · intro madvise
    have hbefore := selectedBefore_spec hvalid le_rfl
    refine ⟨fun hover => hbefore.ne_overrun (selectedBefore_of_overrun hover),
      fun s released calls hok => ?_⟩
    obtain ⟨hs, hlines, hrelease⟩ := selectAndRelease_eq_ok hok
    obtain ⟨⟨blocks, h⟩, -⟩ := hbefore.of_ok hs
    have hsound := h.sound hvalid
    obtain ⟨runs, hcalls, hinit, hall, hend⟩ :=
      releaseLoop_spec s.keepPage s.scannedPages buffer z.pageSize madvise 0 []
    rw [hrelease] at hcalls hall hend
    rw [h.unkeptFrom_zero hvalid] at hinit hall
    obtain rfl : calls = runs.map (adviceCall buffer z.pageSize) := hcalls
    exact ⟨hsound, hsound.written.trans hlines, runs, rfl, hinit, hall, hend, hend.eq_true⟩

/-- The worker on three pages of 1 MiB, each a block, in the frames 4, 5 and 6. -/
def threeMapped : WorkerEnv where
  mapping := ⟨[0x100000], "one".toList, true⟩
  targetClass := 1
  sizes := ⟨1048576, 1048576, 3, 3145728, 1, 16384⟩
  buffer := 0x100000
  pid := 7
  pagemapFd := 3
  pread page _ := some (bytesLe (UInt64.ofNat (2 ^ 63 + page + 4)))

/-- The first page is not of the class 1, the second is, and then there is enough. -/
theorem threeMapped_selected (hvalid : threeMapped.Valid) :
    ∃ s, threeMapped.selectedBefore 3 = .ok s ∧ Holds threeMapped [(1, 0)] s ∧
      s.scannedPages = 2 := by
  have hoffsets : threeMapped.blockOffsets = [0] := by decide +kernel
  have hok (page : ℕ) (hpage : page < 2) : (threeMapped.translatePage page).1 = .ok := by
    revert hpage page
    decide +kernel
  let s₁ : Selection := { threeMapped.start with scannedPages := 1 }
  have hfirst : selectPage threeMapped threeMapped.blockOffsets threeMapped.start 0 = .ok s₁ := by
    rw [hoffsets, selectPage_eq_of_single hvalid holds_start (hok 0 (by decide)) (by decide) rfl
      (by decide), if_neg (by decide +kernel)]
  have h₁ : Holds threeMapped [] s₁ := holds_start.scan (by decide)
  have hclass : dramMappingBankClassFast threeMapped.mapping
      ((threeMapped.translatePage 1).2.physicalAddress + UInt64.ofNat 0) = 1 := by
    decide +kernel
  obtain ⟨s₂, hs₂⟩ : ∃ s₂, s₂ = Selection.add threeMapped { s₁ with scannedPages := 2 } (1, 0) :=
    ⟨_, rfl⟩
  have hsecond : selectPage threeMapped threeMapped.blockOffsets s₁ 1 = .ok s₂ := by
    rw [hoffsets, selectPage_eq_of_single hvalid h₁ (hok 1 (by decide)) (by decide) rfl
      (by decide), hs₂]
    exact if_pos hclass
  have h₂ : Holds threeMapped ([] ++ [(1, 0)]) s₂ :=
    hs₂ ▸ (h₁.scan (by decide)).add (by decide)
      ⟨hoffsets ▸ List.mem_singleton_self 0, hok 1 (by decide), hclass⟩ (by decide)
      List.not_mem_nil
  have hblocks : ¬s₂.selectedBlocks < threeMapped.sizes.requiredBlocks := by
    rw [h₂.selectedBlocks_eq]
    decide
  refine ⟨s₂, ?_, h₂, congrArg Selection.scannedPages hs₂⟩
  rw [WorkerEnv.selectedBefore, show List.range 3 = [0, 1, 2] from rfl,
    pageLoop_cons (by decide) hfirst, pageLoop_cons (by decide) hsecond, pageLoop_of_enough hblocks]

/-- The first page is given back, and nothing else. -/
theorem worker_takes_its_class_released :
    let z := threeMapped.sizes
    workerSizes threeMapped.mapping 1 3 1 60 1048576 = .ok z ∧
    ∃ s calls, selectAndRelease threeMapped (fun _ _ => true) = .ok (s, true, calls) ∧
      SelectionSound threeMapped s ∧ s.lines.length = 16384 ∧ ∃ runs : List (ℕ × ℕ),
        calls = runs.map (adviceCall 0x100000 1048576) ∧
        (runs.flatMap fun run => List.range' run.1 run.2) = [0] := by
  intro z
  have hz : workerSizes threeMapped.mapping 1 3 1 60 1048576 = .ok z := by decide +kernel
  have hvalid : threeMapped.Valid := ⟨sizesOk_of_workerSizes hz, by decide, by decide, by decide⟩
  obtain ⟨s, hs, hholds, hscanned⟩ := threeMapped_selected hvalid
  obtain ⟨-, -, -, -, -, hrelease⟩ := worker_takes_its_class hz (e := 20) (by decide)
    (show z.pageSize ∣ 0x100000 by decide) (by decide) 7 3 threeMapped.pread
  have hblocks : s.selectedBlocks = 1 := hholds.selectedBlocks_eq
  have hlines : s.selectedLines = 16384 := by
    rw [hholds.selectedLines_eq, hholds.length_lines hvalid, hblocks]
    decide
  rcases hreleased : releaseUnselectedPages s.keepPage s.scannedPages 0x100000 1048576
    (fun _ _ => true) with ⟨released, calls⟩
  have hok : selectAndRelease threeMapped (fun _ _ => true) = .ok (s, released, calls) := by
    rw [selectAndRelease,
      show threeMapped.selectedBefore threeMapped.sizes.pageCount = .ok s from hs]
    change (if s.selectedBlocks ≠ 1 ∨ s.selectedLines ≠ 16384 then _ else _) = _
    rw [if_neg (by rw [hblocks, hlines]; decide)]
    exact congrArg (fun r => Except.ok (s, r)) hreleased
  obtain ⟨hsound, hlength, runs, hcalls, -, hall, -, htaken⟩ :=
    (hrelease fun _ _ => true).2 s released calls hok
  obtain rfl := htaken fun _ _ => rfl
  refine ⟨hz, s, calls, hok, hsound, hlength, runs, hcalls, (hall rfl).trans ?_⟩
  -- the pages without a line, of the two that are scanned
  have hkeep (page : ℕ) : (∃ a ∈ s.lines, threeMapped.InPage page a) ↔ 1 = page := by
    rw [← hholds.keep_iff_line hvalid, hholds.keep_iff]
    simp
  have hpages : ((List.range 2).filter fun page => ¬1 = page) = [0] := by decide
  rw [hscanned, ← hpages]
  exact List.filter_congr fun page _ => decide_eq_decide.2 (not_congr (hkeep page))

end CgroupResearch
