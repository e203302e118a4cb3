import CgroupResearch.Profile.Maps

/-!
# The translation of addresses

The kernel has an entry of 64 bits for every page of a process, in `/proc/[pid]/pagemap`:
whether the page is present or swapped out, and the number of its page frame. The daemon
reads the entry of an address and computes the physical address
(`addr_translate_va_to_pa` of `addr_translate.c`).

The arithmetic is exact (`translation_exact`): an address is translated iff its page is
present in a known frame and the result is a word, and the result is the address in the
frame. What `pread` delivers is an input.
-/

namespace CgroupResearch

/-- `PAGEMAP_ENTRY_BYTES`. -/
def pagemapEntryBytes : UInt64 := 8

/-- `PAGEMAP_PFN_MASK`. -/
def pagemapPfnMask : UInt64 := ((1 : UInt64) <<< 55) - 1

/-- `PAGEMAP_SOFT_DIRTY_BIT`. -/
def pagemapSoftDirtyBit : UInt64 := (1 : UInt64) <<< 55

/-- `PAGEMAP_EXCLUSIVE_BIT`. -/
def pagemapExclusiveBit : UInt64 := (1 : UInt64) <<< 56

/-- `PAGEMAP_UFFD_WP_BIT`. -/
def pagemapUffdWpBit : UInt64 := (1 : UInt64) <<< 57

/-- `PAGEMAP_GUARD_BIT`. -/
def pagemapGuardBit : UInt64 := (1 : UInt64) <<< 58

/-- `PAGEMAP_FILE_SHARED_BIT`. -/
def pagemapFileSharedBit : UInt64 := (1 : UInt64) <<< 61

/-- `PAGEMAP_SWAPPED_BIT`. -/
def pagemapSwappedBit : UInt64 := (1 : UInt64) <<< 62

/-- `PAGEMAP_PRESENT_BIT`. -/
def pagemapPresentBit : UInt64 := (1 : UInt64) <<< 63

/-- `struct addr_translate_ctx`. -/
structure AddrTranslateCtx where
  pid : ℤ
  pagemapFd : ℤ
  pageSize : UInt64
  deriving DecidableEq, Repr

/-- `struct addr_translation`. -/
structure AddrTranslation where
  pid : ℤ
  virtualAddress : UInt64
  physicalAddress : UInt64
  pageSize : UInt64
  pageIndex : UInt64
  pageOffset : UInt64
  pagemapEntry : UInt64
  pfn : UInt64
  present : Bool
  swapped : Bool
  softDirty : Bool
  exclusivelyMapped : Bool
  uffdWp : Bool
  guardRegion : Bool
  fileOrSharedAnon : Bool
  deriving DecidableEq, Repr

/-- What `pread` delivers at an offset of the pagemap: eight bytes, or `none` if it delivers
    fewer. -/
abbrev Pread := UInt64 → Option (Vector UInt8 8)

/-- An `addr_translation` after `memset`. -/
def addrTranslationZero : AddrTranslation :=
  ⟨0, 0, 0, 0, 0, 0, 0, 0, false, false, false, false, false, false, false⟩

/-- `decode_u64_le`. -/
def decodeU64Le (bytes : Vector UInt8 8) : UInt64 :=
  bytes[0].toUInt64 |||
    bytes[1].toUInt64 <<< 8 |||
    bytes[2].toUInt64 <<< 16 |||
    bytes[3].toUInt64 <<< 24 |||
    bytes[4].toUInt64 <<< 32 |||
    bytes[5].toUInt64 <<< 40 |||
    bytes[6].toUInt64 <<< 48 |||
    bytes[7].toUInt64 <<< 56

/-- `read_pagemap_entry`. -/
def readPagemapEntry (pread : Pread) (ctx : AddrTranslateCtx) (pageIndex : UInt64) :
    Except AddrTranslateRc UInt64 :=
  if ctx.pagemapFd < 0 then
    .error .errInvalidArg
  else if (2 ^ 64 - 1) / pagemapEntryBytes.toNat < pageIndex.toNat then
    .error .errOverflow
  else
    let offset := pageIndex * pagemapEntryBytes
    if 2 ^ 63 - 1 < offset.toNat then
      .error .errOverflow
    else
      match pread offset with
      | none => .error .errRead
      | some bytes => .ok (decodeU64Le bytes)

/-- `addr_translate_va_to_pa`, with what it leaves in `out`. -/
def addrTranslateVaToPa (pread : Pread) (ctx : AddrTranslateCtx) (virtualAddress : UInt64)
    (out : AddrTranslation) : AddrTranslateRc × AddrTranslation :=
  if ctx.pid ≤ 0 ∨ ctx.pagemapFd < 0 ∨ ctx.pageSize = 0 then
    (.errInvalidArg, out)
  else
    let out := addrTranslationZero
    let pageIndex := virtualAddress / ctx.pageSize
    let pageOffset := virtualAddress % ctx.pageSize
    match readPagemapEntry pread ctx pageIndex with
    | .error rc => (rc, out)
    | .ok entry =>
      let out := { out with
        pid := ctx.pid
        virtualAddress := virtualAddress
        pageSize := ctx.pageSize
        pageIndex := pageIndex
        pageOffset := pageOffset
        pagemapEntry := entry
        present := entry &&& pagemapPresentBit ≠ 0
        swapped := entry &&& pagemapSwappedBit ≠ 0
        softDirty := entry &&& pagemapSoftDirtyBit ≠ 0
        exclusivelyMapped := entry &&& pagemapExclusiveBit ≠ 0
        uffdWp := entry &&& pagemapUffdWpBit ≠ 0
        guardRegion := entry &&& pagemapGuardBit ≠ 0
        fileOrSharedAnon := entry &&& pagemapFileSharedBit ≠ 0 }
      if !out.present then
        if out.swapped then (.errSwapped, out) else (.errNotPresent, out)
      else
        let pfn := entry &&& pagemapPfnMask
        let out := { out with pfn := pfn }
        if pfn = 0 then
          (.errPfnUnavailable, out)
        else if ((0xffffffffffffffff : UInt64) - pageOffset) / ctx.pageSize < pfn then
          (.errOverflow, out)
        else
          (.ok, { out with physicalAddress := pfn * ctx.pageSize + pageOffset })

/-! ## Bytes and bits -/

/-- The bytes of a word, the lowest first. -/
def bytesLe (x : UInt64) : Vector UInt8 8 :=
  #v[x.toUInt8, (x >>> 8).toUInt8, (x >>> 16).toUInt8, (x >>> 24).toUInt8, (x >>> 32).toUInt8,
    (x >>> 40).toUInt8, (x >>> 48).toUInt8, (x >>> 56).toUInt8]

theorem mod_or_byte (x n : ℕ) :
    x % 2 ^ n ||| ((x >>> n) % 2 ^ 8) <<< n = x % 2 ^ (n + 8) := by
  refine Nat.eq_of_testBit_eq fun i => ?_
  rw [Nat.testBit_or, Nat.testBit_mod_two_pow, Nat.testBit_shiftLeft, Nat.testBit_mod_two_pow,
    Nat.testBit_shiftRight, Nat.testBit_mod_two_pow]
  rcases lt_or_ge i n with h | h
  · simp [h, Nat.not_le.2 h, Nat.lt_add_right 8 h]
  · have hlt : i - n < 8 ↔ i < n + 8 := by omega
    simp [h, Nat.not_lt.2 h, hlt]

theorem toNat_shifted_byte (x : UInt64) {n : ℕ} (hn : n ≤ 56) :
    ((x >>> UInt64.ofNat n).toUInt8.toUInt64 <<< UInt64.ofNat n).toNat =
      ((x.toNat >>> n) % 2 ^ 8) <<< n := by
  have hmod : n % 2 ^ 64 % 64 = n := by omega
  have hlt : ((x.toNat >>> n) % 2 ^ 8) <<< n < 2 ^ 64 := by
    rw [Nat.shiftLeft_eq]
    calc x.toNat >>> n % 2 ^ 8 * 2 ^ n
        < 2 ^ 8 * 2 ^ n :=
          Nat.mul_lt_mul_of_pos_right (Nat.mod_lt _ (by decide)) (Nat.two_pow_pos n)
      _ ≤ 2 ^ 8 * 2 ^ 56 := Nat.mul_le_mul_left _ (Nat.pow_le_pow_right two_pos hn)
  rw [UInt64.toNat_shiftLeft, UInt8.toNat_toUInt64, UInt64.toNat_toUInt8, UInt64.toNat_shiftRight,
    UInt64.toNat_ofNat', hmod, Nat.mod_eq_of_lt hlt]

/-- The bytes that the kernel writes for an entry are read back as the entry. -/
theorem decodeU64Le_bytesLe (x : UInt64) : decodeU64Le (bytesLe x) = x := by
  have hbyte (n : ℕ) (hn : n ≤ 56) := toNat_shifted_byte x hn
  refine UInt64.toNat_inj.1 ?_
  calc (decodeU64Le (bytesLe x)).toNat
      = x.toNat % 2 ^ 8 ||| ((x.toNat >>> 8) % 2 ^ 8) <<< 8 |||
          ((x.toNat >>> 16) % 2 ^ 8) <<< 16 ||| ((x.toNat >>> 24) % 2 ^ 8) <<< 24 |||
          ((x.toNat >>> 32) % 2 ^ 8) <<< 32 ||| ((x.toNat >>> 40) % 2 ^ 8) <<< 40 |||
          ((x.toNat >>> 48) % 2 ^ 8) <<< 48 ||| ((x.toNat >>> 56) % 2 ^ 8) <<< 56 := by
        rw [← hbyte 8 (by decide), ← hbyte 16 (by decide), ← hbyte 24 (by decide),
          ← hbyte 32 (by decide), ← hbyte 40 (by decide), ← hbyte 48 (by decide),
          ← hbyte 56 (by decide)]
        simp only [decodeU64Le, UInt64.toNat_or]
        rfl
    _ = x.toNat % 2 ^ 64 := by simp only [mod_or_byte]
    _ = x.toNat := Nat.mod_eq_of_lt x.toNat_lt

theorem and_bit_ne_zero_iff (x : UInt64) {i : ℕ} (hi : i < 64) :
    x &&& ((1 : UInt64) <<< UInt64.ofNat i) ≠ 0 ↔ x.toNat.testBit i = true := by
  have hmod : i % 2 ^ 64 % 64 = i := by omega
  have hbit : ((1 : UInt64) <<< UInt64.ofNat i).toNat = 2 ^ i := by
    rw [UInt64.toNat_shiftLeft, UInt64.toNat_ofNat', hmod, UInt64.toNat_one, Nat.one_shiftLeft,
      Nat.mod_eq_of_lt (Nat.pow_lt_pow_right one_lt_two hi)]
  rw [ne_eq, ← UInt64.toNat_inj, UInt64.toNat_and, hbit, Nat.and_two_pow]
  cases h : x.toNat.testBit i <;> simp

/-- The mask keeps the lower 55 bits. -/
theorem toNat_and_pfnMask (x : UInt64) : (x &&& pagemapPfnMask).toNat = x.toNat % 2 ^ 55 := by
  have hmask : pagemapPfnMask.toNat = 2 ^ 55 - 1 := by decide
  rw [UInt64.toNat_and, hmask, Nat.and_two_pow_sub_one_eq_mod]

/-! ## The entry of a page -/

/-- The context is open, and its pagemap has `entry` for the page of `va`: at the offset of
    that page in the natural numbers, eight bytes for each page before it. -/
structure EntryOf (pread : Pread) (ctx : AddrTranslateCtx) (va entry : UInt64) : Prop where
  pid_pos : 0 < ctx.pid
  fd_nonneg : 0 ≤ ctx.pagemapFd
  page : 4096 ≤ ctx.pageSize.toNat
  read : pread (UInt64.ofNat (va.toNat / ctx.pageSize.toNat * 8)) = some (bytesLe entry)

/-- The page frame number of an entry, its lowest 55 bits. -/
def entryPfn (entry : UInt64) : ℕ := entry.toNat % 2 ^ 55

/-- The physical address of `va`, in the natural numbers. -/
def exactAddress (pageSize va entry : UInt64) : ℕ :=
  entryPfn entry * pageSize.toNat + va.toNat % pageSize.toNat

section

variable {pread : Pread} {ctx : AddrTranslateCtx} {va entry : UInt64} {out : AddrTranslation}

/-- The page size keeps the offset of an entry far below the limits that
    `read_pagemap_entry` checks. -/
theorem EntryOf.readPagemapEntry_eq (h : EntryOf pread ctx va entry) :
    readPagemapEntry pread ctx (va / ctx.pageSize) = .ok entry := by
  have hindex : (va / ctx.pageSize).toNat = va.toNat / ctx.pageSize.toNat := UInt64.toNat_div _ _
  have hsmall : va.toNat / ctx.pageSize.toNat < 2 ^ 52 :=
    (Nat.div_le_div_left h.page (by decide)).trans_lt
      (Nat.div_lt_of_lt_mul (by simpa using va.toNat_lt))
  have height : pagemapEntryBytes.toNat = 8 := rfl
  have hoffset : va / ctx.pageSize * pagemapEntryBytes =
      UInt64.ofNat (va.toNat / ctx.pageSize.toNat * 8) := by
    refine UInt64.toNat_inj.1 ?_
    rw [UInt64.toNat_mul, UInt64.toNat_ofNat', hindex, height]
  have hword : (UInt64.ofNat (va.toNat / ctx.pageSize.toNat * 8)).toNat ≤ 2 ^ 63 - 1 := by
    rw [UInt64.toNat_ofNat', Nat.mod_eq_of_lt (by omega)]
    omega
  rw [readPagemapEntry, if_neg (not_lt.2 h.fd_nonneg), hindex, height, if_neg (by omega)]
  dsimp only
  rw [hoffset, if_neg (not_lt.2 hword), h.read]
  dsimp only
  rw [decodeU64Le_bytesLe]

/-- The guard against overflow, which divides, is neither too strict nor too lax. -/
theorem guard_iff (pageSize va entry : UInt64) (hpos : 0 < pageSize.toNat) :
    ((0xffffffffffffffff : UInt64) - va % pageSize) / pageSize < entry &&& pagemapPfnMask ↔
      2 ^ 64 ≤ exactAddress pageSize va entry := by
  have hmax : (0xffffffffffffffff : UInt64).toNat = 2 ^ 64 - 1 := by decide
  have hle : va % pageSize ≤ (0xffffffffffffffff : UInt64) := by
    have := (va % pageSize).toNat_lt
    rw [UInt64.le_iff_toNat_le, hmax]
    omega
  have hoff := (va % pageSize).toNat_lt
  rw [UInt64.toNat_mod] at hoff
  rw [UInt64.lt_iff_toNat_lt, UInt64.toNat_div, UInt64.toNat_sub_of_le _ _ hle, UInt64.toNat_mod,
    hmax, toNat_and_pfnMask, Nat.div_lt_iff_lt_mul hpos, exactAddress, entryPfn]
  omega

/-- The return code for the entry of a page. -/
def entryRc (pageSize va entry : UInt64) : AddrTranslateRc :=
  if entry.toNat.testBit 63 then
    if entryPfn entry = 0 then .errPfnUnavailable
    else if 2 ^ 64 ≤ exactAddress pageSize va entry then .errOverflow
    else .ok
  else if entry.toNat.testBit 62 then .errSwapped
  else .errNotPresent

/-- The context is open. -/
structure AddrTranslateCtx.IsOpen (ctx : AddrTranslateCtx) : Prop where
  pid_pos : 0 < ctx.pid
  fd_nonneg : 0 ≤ ctx.pagemapFd
  page_pos : 0 < ctx.pageSize.toNat

theorem AddrTranslateCtx.isOpen_iff :
    ctx.IsOpen ↔ ¬(ctx.pid ≤ 0 ∨ ctx.pagemapFd < 0 ∨ ctx.pageSize = 0) := by
  have hzero : ctx.pageSize = 0 ↔ ctx.pageSize.toNat = 0 := UInt64.toNat_inj.symm
  rw [hzero, not_or, not_or, not_le, not_lt]
  constructor
  · intro h
    exact ⟨h.pid_pos, h.fd_nonneg, h.page_pos.ne'⟩
  · rintro ⟨hpid, hfd, hpage⟩
    exact ⟨hpid, hfd, Nat.pos_of_ne_zero hpage⟩

/-- What is made of the entry that is read. -/
theorem translate_of_read (hopen : ctx.IsOpen)
    (hread : readPagemapEntry pread ctx (va / ctx.pageSize) = .ok entry) (out : AddrTranslation) :
    (addrTranslateVaToPa pread ctx va out).1 = entryRc ctx.pageSize va entry ∧
      (entryRc ctx.pageSize va entry = .ok →
        (addrTranslateVaToPa pread ctx va out).2.physicalAddress.toNat =
          exactAddress ctx.pageSize va entry) := by
  have hpresent : decide (entry &&& pagemapPresentBit ≠ 0) = entry.toNat.testBit 63 :=
    (Bool.decide_congr (and_bit_ne_zero_iff entry (by decide))).trans Bool.decide_eq_true
  have hswapped : decide (entry &&& pagemapSwappedBit ≠ 0) = entry.toNat.testBit 62 :=
    (Bool.decide_congr (and_bit_ne_zero_iff entry (by decide))).trans Bool.decide_eq_true
  have hpfn : entry &&& pagemapPfnMask = 0 ↔ entryPfn entry = 0 := by
    rw [← UInt64.toNat_inj, toNat_and_pfnMask]
    rfl
  have hguard := guard_iff ctx.pageSize va entry hopen.page_pos
  rw [addrTranslateVaToPa, if_neg (AddrTranslateCtx.isOpen_iff.1 hopen)]
  dsimp only
  rw [hread, entryRc]
  dsimp only
  rw [hpresent]
  simp only [hswapped]
  cases entry.toNat.testBit 63 with
  | false =>
    simp only [Bool.not_false, Bool.false_eq_true, if_true, if_false]
    cases entry.toNat.testBit 62 with
    | false => exact ⟨rfl, fun hok => AddrTranslateRc.noConfusion hok⟩
    | true => exact ⟨rfl, fun hok => AddrTranslateRc.noConfusion hok⟩
  | true =>
    simp only [Bool.not_true, Bool.false_eq_true, if_false, if_true, hpfn, hguard]
    by_cases hzero : entryPfn entry = 0
    · rw [if_pos hzero, if_pos hzero]
      exact ⟨rfl, fun hok => AddrTranslateRc.noConfusion hok⟩
    · rw [if_neg hzero, if_neg hzero]
      by_cases hover : 2 ^ 64 ≤ exactAddress ctx.pageSize va entry
      · rw [if_pos hover, if_pos hover]
        exact ⟨rfl, fun hok => AddrTranslateRc.noConfusion hok⟩
      · rw [if_neg hover, if_neg hover]
        refine ⟨rfl, fun _ => ?_⟩
        dsimp only
        rw [UInt64.toNat_add, UInt64.toNat_mul, toNat_and_pfnMask, UInt64.toNat_mod,
          Nat.mod_add_mod]
        exact Nat.mod_eq_of_lt (not_le.1 hover)

/-- No error of the reading is `ok`. -/
theorem readPagemapEntry_ne_ok (pageIndex : UInt64) :
    readPagemapEntry pread ctx pageIndex ≠ .error .ok := by
  intro h
  rw [readPagemapEntry] at h
  dsimp only at h
  split_ifs at h
  · cases h
  · cases h
  · cases h
  · cases hp : pread (pageIndex * pagemapEntryBytes) <;> rw [hp] at h <;> cases h

/-- Only what is read is translated. -/
theorem exists_read_of_translate (h : (addrTranslateVaToPa pread ctx va out).1 = .ok) :
    ctx.IsOpen ∧ ∃ entry, readPagemapEntry pread ctx (va / ctx.pageSize) = .ok entry := by
  rw [addrTranslateVaToPa] at h
  split at h
  case isTrue => exact AddrTranslateRc.noConfusion h
  case isFalse hargs =>
    refine ⟨AddrTranslateCtx.isOpen_iff.2 hargs, ?_⟩
    dsimp only at h
    cases hread : readPagemapEntry pread ctx (va / ctx.pageSize) with
    | ok entry => exact ⟨entry, rfl⟩
    | error rc =>
      rw [hread] at h
      obtain rfl : rc = .ok := h
      exact absurd hread (readPagemapEntry_ne_ok _)

theorem EntryOf.isOpen (h : EntryOf pread ctx va entry) : ctx.IsOpen where
  pid_pos := h.pid_pos
  fd_nonneg := h.fd_nonneg
  page_pos := by
    have := h.page
    omega

end

/-! ## Exactness -/

section

variable {pageSize va va' entry entry' : UInt64}

/-- An address in a page determines the page and the offset in it. -/
theorem exactAddress_eq_iff (hpos : 0 < pageSize.toNat) :
    exactAddress pageSize va entry = exactAddress pageSize va' entry' ↔
      entryPfn entry = entryPfn entry' ∧
        va.toNat % pageSize.toNat = va'.toNat % pageSize.toNat := by
  constructor
  · intro h
    rw [exactAddress, exactAddress] at h
    have hdiv := congrArg (· / pageSize.toNat) h
    have hmod := congrArg (· % pageSize.toNat) h
    rw [Nat.mul_comm, Nat.mul_add_div hpos, Nat.mod_div_self, Nat.mul_comm, Nat.mul_add_div hpos,
      Nat.mod_div_self] at hdiv
    rw [Nat.mul_add_mod_self_right, Nat.mul_add_mod_self_right, Nat.mod_mod, Nat.mod_mod] at hmod
    exact ⟨hdiv, hmod⟩
  · rintro ⟨hpfn, hoff⟩
    rw [exactAddress, exactAddress, hpfn, hoff]

end

theorem entryRc_spec (pageSize va entry : UInt64) :
    let rc := entryRc pageSize va entry
    let present := entry.toNat.testBit 63 = true
    let swapped := entry.toNat.testBit 62 = true
    (rc = .ok ↔ present ∧ entryPfn entry ≠ 0 ∧ exactAddress pageSize va entry < 2 ^ 64) ∧
      (rc = .errSwapped ↔ ¬present ∧ swapped) ∧
      (rc = .errNotPresent ↔ ¬present ∧ ¬swapped) ∧
      (rc = .errPfnUnavailable ↔ present ∧ entryPfn entry = 0) ∧
      (rc = .errOverflow ↔
        present ∧ entryPfn entry ≠ 0 ∧ 2 ^ 64 ≤ exactAddress pageSize va entry) := by
  intro rc present swapped
  have hrc : rc = entryRc pageSize va entry := rfl
  rw [entryRc] at hrc
  split_ifs at hrc with hpresent hzero hover hswapped <;> rw [hrc]
  · simp [present, hpresent, hzero]
  · simpa [present, hpresent, hzero] using hover
  · simpa [present, hpresent, hzero] using hover
  · simp [present, swapped, hpresent, hswapped]
  · simp [present, swapped, hpresent, hswapped]

/-- With the first address of a page all its addresses are translated, each to its offset in the
    frame. -/
theorem translate_in_page {pread : Pread} {ctx : AddrTranslateCtx} {va va' : UInt64} {k : ℕ}
    {out : AddrTranslation} (hpow : ctx.pageSize.toNat ∣ 2 ^ 64)
    (hpage : ctx.pageSize.toNat ∣ va.toNat) (hk : k < ctx.pageSize.toNat)
    (hva' : va'.toNat = va.toNat + k) (h : (addrTranslateVaToPa pread ctx va out).1 = .ok)
    (out' : AddrTranslation) :
    ctx.pageSize.toNat ∣ (addrTranslateVaToPa pread ctx va out).2.physicalAddress.toNat ∧
      (addrTranslateVaToPa pread ctx va' out').1 = .ok ∧
      (addrTranslateVaToPa pread ctx va' out').2.physicalAddress.toNat =
        (addrTranslateVaToPa pread ctx va out).2.physicalAddress.toNat + k := by
  obtain ⟨hopen, entry, hread⟩ := exists_read_of_translate h
  have hindex : va' / ctx.pageSize = va / ctx.pageSize := by
    rw [← UInt64.toNat_inj, UInt64.toNat_div, UInt64.toNat_div, hva',
      Nat.add_div_of_dvd_right hpage, Nat.div_eq_of_lt hk, Nat.add_zero]
  obtain ⟨hrc, hpa⟩ := translate_of_read hopen hread out
  obtain ⟨hrc', hpa'⟩ := translate_of_read hopen (hindex ▸ hread) out'
  have hfirst : exactAddress ctx.pageSize va entry = entryPfn entry * ctx.pageSize.toNat := by
    rw [exactAddress, Nat.mod_eq_zero_of_dvd hpage, Nat.add_zero]
  have hother : exactAddress ctx.pageSize va' entry =
      entryPfn entry * ctx.pageSize.toNat + k := by
    rw [exactAddress, hva', Nat.add_mod, Nat.mod_eq_zero_of_dvd hpage, Nat.zero_add, Nat.mod_mod,
      Nat.mod_eq_of_lt hk]
  obtain ⟨hpresent, hpfn, hlt⟩ := (entryRc_spec _ _ _).1.1 (hrc ▸ h)
  rw [hfirst] at hlt
  -- a frame that starts below `2 ^ 64` ends there at the latest
  have hend : entryPfn entry * ctx.pageSize.toNat + ctx.pageSize.toNat ≤ 2 ^ 64 := by
    obtain ⟨c, hc⟩ := hpow
    rw [hc, Nat.mul_comm ctx.pageSize.toNat c] at hlt ⊢
    rw [← Nat.succ_mul]
    exact Nat.mul_le_mul_right _ (Nat.lt_of_mul_lt_mul_right hlt)
  have hok' : entryRc ctx.pageSize va' entry = .ok :=
    (entryRc_spec _ _ _).1.2 ⟨hpresent, hpfn, by omega⟩
  rw [hrc', hpa (hrc ▸ h), hpa' hok', hfirst, hother]
  exact ⟨Nat.dvd_mul_left _ _, hok', rfl⟩

/-- **Address translation is exact.** For the entry of the page of an address, reading it
    never fails, and the translation returns

    * `ok` iff the page is present, its frame is known and the physical address, computed in
      the natural numbers, is below `2 ^ 64`, and then it is that address;
    * an error that tells which of these fails, and for a page that is not present whether it
      is swapped out.

    Two successful translations give one address iff they have the same frame and offset. -/
theorem translation_exact (pread : Pread) (ctx : AddrTranslateCtx) (va entry : UInt64)
    (out : AddrTranslation) (h : EntryOf pread ctx va entry) :
    let r := addrTranslateVaToPa pread ctx va out
    let present := entry.toNat.testBit 63 = true
    let swapped := entry.toNat.testBit 62 = true
    let pa := entryPfn entry * ctx.pageSize.toNat + va.toNat % ctx.pageSize.toNat
    readPagemapEntry pread ctx (va / ctx.pageSize) = .ok entry ∧
      (r.1 = .ok ↔ present ∧ entryPfn entry ≠ 0 ∧ pa < 2 ^ 64) ∧
      (r.1 = .ok → r.2.physicalAddress.toNat = pa) ∧
      (r.1 = .errSwapped ↔ ¬present ∧ swapped) ∧
      (r.1 = .errNotPresent ↔ ¬present ∧ ¬swapped) ∧
      (r.1 = .errPfnUnavailable ↔ present ∧ entryPfn entry = 0) ∧
      (r.1 = .errOverflow ↔ present ∧ entryPfn entry ≠ 0 ∧ 2 ^ 64 ≤ pa) ∧
      ∀ (pread' : Pread) (ctx' : AddrTranslateCtx) (va' entry' : UInt64) (out' : AddrTranslation),
        EntryOf pread' ctx' va' entry' → ctx'.pageSize = ctx.pageSize →
        let r' := addrTranslateVaToPa pread' ctx' va' out'
        r.1 = .ok → r'.1 = .ok →
        (r.2.physicalAddress = r'.2.physicalAddress ↔
          entryPfn entry = entryPfn entry' ∧
            va.toNat % ctx.pageSize.toNat = va'.toNat % ctx.pageSize.toNat) := by
  intro r present swapped pa
  obtain ⟨hrc, hpa⟩ := translate_of_read h.isOpen h.readPagemapEntry_eq out
  have hr : r.1 = entryRc ctx.pageSize va entry := hrc
  obtain ⟨hok, hswapped, hnotPresent, hunavailable, hoverflow⟩ :=
    entryRc_spec ctx.pageSize va entry
  rw [← hr] at hok hswapped hnotPresent hunavailable hoverflow
  refine ⟨h.readPagemapEntry_eq, hok, fun hr1 => hpa (hr ▸ hr1), hswapped, hnotPresent,
    hunavailable, hoverflow, ?_⟩
  intro pread' ctx' va' entry' out' h' hsize r' hr1 hr1'
  obtain ⟨hrc', hpa'⟩ := translate_of_read h'.isOpen h'.readPagemapEntry_eq out'
  rw [← UInt64.toNat_inj, hpa (hr ▸ hr1), hpa' (hrc' ▸ hr1'), hsize,
    exactAddress_eq_iff h.isOpen.page_pos]

/-- The page of `0x12345` is present in frame 2. -/
theorem translation_exact_present :
    let entry : UInt64 := 0x8000000000000002
    let pread : Pread := fun offset => if offset = 144 then some (bytesLe entry) else none
    let r := addrTranslateVaToPa pread ⟨7, 3, 4096⟩ 0x12345 addrTranslationZero
    r.1 = .ok ∧ r.2.physicalAddress.toNat = 0x2345 := by
  intro entry pread r
  have h : EntryOf pread ⟨7, 3, 4096⟩ 0x12345 entry :=
    ⟨by decide, by decide, by decide, by decide⟩
  obtain ⟨-, hok, hpa, -⟩ := translation_exact pread ⟨7, 3, 4096⟩ 0x12345 entry
    addrTranslationZero h
  have hr : r.1 = .ok := hok.2 (by decide)
  exact ⟨hr, (hpa hr).trans (by decide)⟩

end CgroupResearch
