import CgroupResearch.Lib.Histogram
import Mathlib.Data.UInt

/-!
# Bank profiles

A bank profile (`bank_profile.c`) is a histogram of the pages of a process over the
DRAM bank classes, with counters of what was seen while sampling them. Profiles are
merged into the profile of a group of processes, and compared by how much they
overlap.

The functions follow the source. `entries` are the entries in use, and `entry_count`
is their number. The quotients of `double`s are exact here. A C `NULL` argument has no
counterpart, but for the optional outputs: those are always there.

An entry is added to a histogram as `Histogram.accumulate` does it
(`profileAddBankClassCount_cases`).
-/

namespace CgroupResearch

open Histogram

/-- `BANK_PROFILE_MAX_ENTRIES`. -/
def bankProfileMaxEntries : ℕ := 4096

/-- `BANK_PROFILE_ERROR_MESSAGE_MAX`. -/
def bankProfileErrorMessageMax : ℕ := 256

/-- `enum bank_profile_rc`. -/
inductive BankProfileRc
  | ok
  | errInvalidArg
  | errNotReady
  | errPageSize
  | errOpenMaps
  | errAddrOpen
  | errTooManyClasses
  | errNoSamples
  | errIo
  deriving DecidableEq, Repr

/-- `struct bank_profile_entry`. -/
structure BankProfileEntry where
  bankClass : UInt64
  pageCount : UInt64
  byteCount : UInt64
  deriving DecidableEq, Repr

/-- The region and page counters of `struct bank_profile`. -/
structure BankProfileCounters where
  regionsSeen : UInt64
  regionsSelected : UInt64
  pagesSeen : UInt64
  pagesConsidered : UInt64
  pagesSampled : UInt64
  pagesTranslated : UInt64
  pagesSkippedNotPresent : UInt64
  pagesSkippedSwapped : UInt64
  pagesSkippedPfnUnavailable : UInt64
  pagesSkippedTranslationError : UInt64
  pagesSkippedMappingError : UInt64
  deriving DecidableEq, Repr

/-- `struct bank_profile`. -/
structure BankProfile where
  pid : ℤ
  pageSize : UInt64
  counters : BankProfileCounters
  entries : List BankProfileEntry
  dominantBankClass : UInt64
  dominantPageCount : UInt64
  dominantFraction : ℚ
  errorMessage : String
  deriving DecidableEq, Repr

/-- The counters a `memset` to zero leaves. -/
def BankProfileCounters.zero : BankProfileCounters := ⟨0, 0, 0, 0, 0, 0, 0, 0, 0, 0, 0⟩

/-- `bank_profile_reset`. -/
def bankProfileReset : BankProfile where
  pid := 0
  pageSize := 0
  counters := .zero
  entries := []
  dominantBankClass := 0
  dominantPageCount := 0
  dominantFraction := 0
  errorMessage := ""

/-- `profile_set_error`. -/
def profileSetError (profile : BankProfile) (message : String) : BankProfile :=
  { profile with
    errorMessage := String.ofList (message.toList.take (bankProfileErrorMessageMax - 1)) }

/-! ## The histogram -/

/-- The loop of `profile_add_bank_class_count`: the entry of the class, if there is one,
    is increased in place. -/
def addToEntry (bankClass pageCount byteCount : UInt64) :
    List BankProfileEntry → Option (List BankProfileEntry)
  | [] => none
  | e :: es =>
    if e.bankClass = bankClass then
      some ({ e with
        pageCount := e.pageCount + pageCount
        byteCount := e.byteCount + byteCount } :: es)
    else
      (addToEntry bankClass pageCount byteCount es).map fun es => e :: es

/-- `profile_add_bank_class_count`. -/
def profileAddBankClassCount (profile : BankProfile) (bankClass pageCount byteCount : UInt64) :
    BankProfileRc × BankProfile :=
  if pageCount = 0 ∧ byteCount = 0 then
    (.ok, profile)
  else
    match addToEntry bankClass pageCount byteCount profile.entries with
    | some entries => (.ok, { profile with entries := entries })
    | none =>
      if bankProfileMaxEntries ≤ profile.entries.length then
        (.errTooManyClasses, profileSetError profile "too many unique bank classes")
      else
        (.ok, { profile with entries := profile.entries ++ [⟨bankClass, pageCount, byteCount⟩] })

/-- `profile_add_bank_class`. -/
def profileAddBankClass (profile : BankProfile) (bankClass bytes : UInt64) :
    BankProfileRc × BankProfile :=
  profileAddBankClassCount profile bankClass 1 bytes

/-- The loop of `profile_finalize`: the total, and the class with the most pages, with
    their number. -/
def finalizeLoop : List BankProfileEntry → (total maxCount maxClass : UInt64) →
    UInt64 × UInt64 × UInt64
  | [], total, maxCount, maxClass => (total, maxCount, maxClass)
  | e :: es, total, maxCount, maxClass =>
    if maxCount < e.pageCount then
      finalizeLoop es (total + e.pageCount) e.pageCount e.bankClass
    else
      finalizeLoop es (total + e.pageCount) maxCount maxClass

/-- `profile_finalize`. -/
def profileFinalize (profile : BankProfile) : BankProfile :=
  let (total, maxCount, maxClass) := finalizeLoop profile.entries 0 0 0
  { profile with
    dominantBankClass := maxClass
    dominantPageCount := maxCount
    dominantFraction := if 0 < total then (maxCount.toNat : ℚ) / total.toNat else 0 }

/-- `bank_profile_count_for_class`. -/
def bankProfileCountForClass (profile : BankProfile) (bankClass : UInt64) : UInt64 :=
  match profile.entries.find? fun e => e.bankClass = bankClass with
  | some e => e.pageCount
  | none => 0

/-! ## Merging -/

/-- `bank_profile_merge_counters`, on the counters of the two profiles. -/
def bankProfileMergeCounters (dst src : BankProfileCounters) : BankProfileCounters where
  regionsSeen := dst.regionsSeen + src.regionsSeen
  regionsSelected := dst.regionsSelected + src.regionsSelected
  pagesSeen := dst.pagesSeen + src.pagesSeen
  pagesConsidered := dst.pagesConsidered + src.pagesConsidered
  pagesSampled := dst.pagesSampled + src.pagesSampled
  pagesTranslated := dst.pagesTranslated + src.pagesTranslated
  pagesSkippedNotPresent := dst.pagesSkippedNotPresent + src.pagesSkippedNotPresent
  pagesSkippedSwapped := dst.pagesSkippedSwapped + src.pagesSkippedSwapped
  pagesSkippedPfnUnavailable := dst.pagesSkippedPfnUnavailable + src.pagesSkippedPfnUnavailable
  pagesSkippedTranslationError :=
    dst.pagesSkippedTranslationError + src.pagesSkippedTranslationError
  pagesSkippedMappingError := dst.pagesSkippedMappingError + src.pagesSkippedMappingError

/-- The loop of `bank_profile_merge` over the entries of the source, left on the first
    error. -/
def mergeEntries (dst : BankProfile) : List BankProfileEntry → BankProfileRc × BankProfile
  | [] => (.ok, dst)
  | e :: es =>
    match profileAddBankClassCount dst e.bankClass e.pageCount e.byteCount with
    | (.ok, dst) => mergeEntries dst es
    | (rc, dst) => (rc, dst)

/-- `bank_profile_merge`. -/
def bankProfileMerge (dst src : BankProfile) : BankProfileRc × BankProfile :=
  if src.entries.length = 0 then
    (.ok, dst)
  else if src.pageSize = 0 then
    (.errPageSize, profileSetError dst "source profile has invalid page size")
  else if dst.pageSize ≠ 0 ∧ dst.pageSize ≠ src.pageSize then
    (.errPageSize, profileSetError dst "cannot merge profiles with different page sizes")
  else
    let dst := if dst.pageSize = 0 then { dst with pageSize := src.pageSize } else dst
    let dst := { dst with pid := 0 }
    match mergeEntries dst src.entries with
    | (.ok, dst) =>
      let dst := { dst with counters := bankProfileMergeCounters dst.counters src.counters }
      (.ok, profileFinalize dst)
    | (rc, dst) => (rc, dst)

/-! ## Overlap -/

/-- The first loop of `bank_profile_overlap_score`: the intersection and what the classes
    of `a` give of the union. -/
def overlapLoopA (b : BankProfile) : List BankProfileEntry → (intersection unionCount : UInt64) →
    UInt64 × UInt64
  | [], intersection, unionCount => (intersection, unionCount)
  | e :: es, intersection, unionCount =>
    let countA := e.pageCount
    let countB := bankProfileCountForClass b e.bankClass
    overlapLoopA b es (intersection + if countA < countB then countA else countB)
      (unionCount + if countB < countA then countA else countB)

/-- The second loop of `bank_profile_overlap_score`: the classes of `b` that are not in
    `a`. -/
def overlapLoopB (a : BankProfile) : List BankProfileEntry → (unionCount : UInt64) → UInt64
  | [], unionCount => unionCount
  | e :: es, unionCount =>
    let existsInA := a.entries.any fun e' => e'.bankClass = e.bankClass
    overlapLoopB a es (if existsInA then unionCount else unionCount + e.pageCount)

/-- The intersection and the union that `bank_profile_overlap_score` computes. -/
def overlapCounts (a b : BankProfile) : UInt64 × UInt64 :=
  let (intersection, unionCount) := overlapLoopA b a.entries 0 0
  (intersection, overlapLoopB a b.entries unionCount)

/-- `bank_profile_overlap_score`: the score, and the pages in common. -/
def bankProfileOverlapScore (a b : BankProfile) : Except BankProfileRc (ℚ × UInt64) :=
  if a.entries.length = 0 ∨ b.entries.length = 0 then
    .error .errInvalidArg
  else
    let (intersection, unionCount) := overlapCounts a b
    if unionCount = 0 then
      .error .errNoSamples
    else
      .ok ((intersection.toNat : ℚ) / unionCount.toNat, intersection)

/-! ## Entries as a histogram -/

namespace BankProfileEntry

/-- The merge of an entry into another of its class. -/
def plus (x e : BankProfileEntry) : BankProfileEntry :=
  { x with pageCount := x.pageCount + e.pageCount, byteCount := x.byteCount + e.byteCount }

theorem plus_bankClass (x e : BankProfileEntry) : (x.plus e).bankClass = x.bankClass := rfl

theorem plus_pageCount (x e : BankProfileEntry) :
    (x.plus e).pageCount = x.pageCount + e.pageCount := rfl

theorem plus_byteCount (x e : BankProfileEntry) :
    (x.plus e).byteCount = x.byteCount + e.byteCount := rfl

end BankProfileEntry

namespace BankProfile

/-- The bytes of a class: the `byte_count` of its entry. -/
def bytesForClass (profile : BankProfile) (bankClass : UInt64) : UInt64 :=
  match profile.entries.find? fun e => e.bankClass = bankClass with
  | some e => e.byteCount
  | none => 0

/-- The classes of the entries. -/
def classes (profile : BankProfile) : Finset UInt64 :=
  (profile.entries.map BankProfileEntry.bankClass).toFinset

/-- The entries have distinct classes. -/
def DistinctClasses (profile : BankProfile) : Prop :=
  Distinct BankProfileEntry.bankClass profile.entries

instance (profile : BankProfile) : Decidable profile.DistinctClasses :=
  inferInstanceAs (Decidable (profile.entries.map BankProfileEntry.bankClass).Nodup)

/-- The profile with an entry accumulated. -/
def accumulate (profile : BankProfile) (e : BankProfileEntry) : BankProfile :=
  { profile with
    entries := Histogram.accumulate BankProfileEntry.bankClass BankProfileEntry.plus e
      profile.entries }

/-- The profile with the entries of another accumulated. -/
def accumulateAll (profile : BankProfile) (es : List BankProfileEntry) : BankProfile :=
  { profile with
    entries := Histogram.accumulateAll BankProfileEntry.bankClass BankProfileEntry.plus es
      profile.entries }

variable {profile : BankProfile} {e : BankProfileEntry}

open scoped UInt64.CommRing

theorem countForClass_eq (profile : BankProfile) (c : UInt64) :
    bankProfileCountForClass profile c =
      valueAt BankProfileEntry.bankClass BankProfileEntry.pageCount profile.entries c := by
  rw [bankProfileCountForClass, valueAt, entry]
  cases profile.entries.find? fun e => e.bankClass = c <;> rfl

theorem bytesForClass_eq (profile : BankProfile) (c : UInt64) :
    profile.bytesForClass c =
      valueAt BankProfileEntry.bankClass BankProfileEntry.byteCount profile.entries c := by
  rw [bytesForClass, valueAt, entry]
  cases profile.entries.find? fun e => e.bankClass = c <;> rfl

theorem classes_congr {profile' : BankProfile} (h : profile'.entries = profile.entries) :
    profile'.classes = profile.classes := by rw [classes, h, classes]

theorem countForClass_congr {profile' : BankProfile} (h : profile'.entries = profile.entries)
    (c : UInt64) : bankProfileCountForClass profile' c = bankProfileCountForClass profile c := by
  rw [countForClass_eq, h, ← countForClass_eq]

theorem DistinctClasses.congr {profile' : BankProfile} (hd : profile.DistinctClasses)
    (h : profile'.entries = profile.entries) : profile'.DistinctClasses := by
  rw [DistinctClasses, h]
  exact hd

theorem mem_classes {c : UInt64} :
    c ∈ profile.classes ↔ c ∈ profile.entries.map BankProfileEntry.bankClass :=
  List.mem_toFinset

theorem DistinctClasses.card_classes (h : profile.DistinctClasses) :
    profile.classes.card = profile.entries.length := by
  rw [classes, List.toFinset_card_of_nodup h, List.length_map]

/-- An entry adds to the count of its class. -/
theorem countForClass_accumulate (profile : BankProfile) (e : BankProfileEntry) (c : UInt64) :
    bankProfileCountForClass (profile.accumulate e) c =
      bankProfileCountForClass profile c + if e.bankClass = c then e.pageCount else 0 := by
  rw [countForClass_eq, countForClass_eq]
  exact valueAt_accumulate BankProfileEntry.plus_bankClass BankProfileEntry.plus_pageCount e
    profile.entries c

theorem countForClass_accumulateAll (dst : BankProfile) {src : BankProfile}
    (hsrc : src.DistinctClasses) (c : UInt64) :
    bankProfileCountForClass (dst.accumulateAll src.entries) c =
      bankProfileCountForClass dst c + bankProfileCountForClass src c := by
  rw [countForClass_eq, countForClass_eq, countForClass_eq]
  exact valueAt_accumulateAll BankProfileEntry.plus_bankClass BankProfileEntry.plus_pageCount hsrc
    dst.entries c

theorem bytesForClass_accumulateAll (dst : BankProfile) {src : BankProfile}
    (hsrc : src.DistinctClasses) (c : UInt64) :
    (dst.accumulateAll src.entries).bytesForClass c =
      dst.bytesForClass c + src.bytesForClass c := by
  rw [bytesForClass_eq, bytesForClass_eq, bytesForClass_eq]
  exact valueAt_accumulateAll BankProfileEntry.plus_bankClass BankProfileEntry.plus_byteCount hsrc
    dst.entries c

/-- An entry adds its class. -/
theorem classes_accumulate (profile : BankProfile) (e : BankProfileEntry) :
    (profile.accumulate e).classes = insert e.bankClass profile.classes := by
  ext c
  rw [mem_classes, Finset.mem_insert, mem_classes]
  exact mem_keys_accumulate BankProfileEntry.plus_bankClass

theorem DistinctClasses.accumulate (h : profile.DistinctClasses) (e : BankProfileEntry) :
    (profile.accumulate e).DistinctClasses :=
  Histogram.Distinct.accumulate BankProfileEntry.plus_bankClass h e

theorem classes_accumulateAll (profile : BankProfile) (es : List BankProfileEntry) :
    (profile.accumulateAll es).classes =
      profile.classes ∪ (es.map BankProfileEntry.bankClass).toFinset := by
  ext c
  rw [mem_classes, Finset.mem_union, mem_classes, List.mem_toFinset, or_comm]
  exact mem_keys_accumulateAll BankProfileEntry.plus_bankClass

theorem DistinctClasses.accumulateAll (h : profile.DistinctClasses)
    (es : List BankProfileEntry) : (profile.accumulateAll es).DistinctClasses :=
  Histogram.Distinct.accumulateAll BankProfileEntry.plus_bankClass h es

end BankProfile

/-- The loop over the entries accumulates, if the class has an entry. -/
theorem addToEntry_eq (e : BankProfileEntry) (es : List BankProfileEntry) :
    addToEntry e.bankClass e.pageCount e.byteCount es =
      if e.bankClass ∈ es.map BankProfileEntry.bankClass then
        some (Histogram.accumulate BankProfileEntry.bankClass BankProfileEntry.plus e es)
      else
        none := by
  induction es with
  | nil => rfl
  | cons x es ih =>
    rw [addToEntry, Histogram.accumulate]
    by_cases h : x.bankClass = e.bankClass
    · simp [h, BankProfileEntry.plus]
    · rw [if_neg h, if_neg h, ih, List.map_cons]
      simp only [List.mem_cons, Ne.symm h, false_or]
      split <;> rfl

/-- An entry of a new class is appended. -/
theorem accumulate_of_notMem {e : BankProfileEntry} {es : List BankProfileEntry}
    (h : e.bankClass ∉ es.map BankProfileEntry.bankClass) :
    Histogram.accumulate BankProfileEntry.bankClass BankProfileEntry.plus e es = es ++ [e] := by
  induction es with
  | nil => rfl
  | cons x es ih =>
    rw [List.map_cons, List.mem_cons, not_or] at h
    rw [Histogram.accumulate, if_neg (Ne.symm h.1), ih h.2, List.cons_append]

/-- Adding to a class: the entry is accumulated, unless its class is new and there is no
    room for it. -/
theorem profileAddBankClassCount_cases {profile : BankProfile} (hd : profile.DistinctClasses)
    (hlen : profile.classes.card ≤ bankProfileMaxEntries) (e : BankProfileEntry)
    (hpos : e.pageCount ≠ 0) :
    (profileAddBankClassCount profile e.bankClass e.pageCount e.byteCount =
        (.ok, profile.accumulate e) ∧
      (profile.accumulate e).classes.card ≤ bankProfileMaxEntries) ∨
    (profileAddBankClassCount profile e.bankClass e.pageCount e.byteCount =
        (.errTooManyClasses, profileSetError profile "too many unique bank classes") ∧
      bankProfileMaxEntries < (profile.accumulate e).classes.card) := by
  rw [profileAddBankClassCount, if_neg fun h => hpos h.1, addToEntry_eq,
    BankProfile.classes_accumulate]
  by_cases hmem : e.bankClass ∈ profile.entries.map BankProfileEntry.bankClass
  · rw [if_pos hmem, Finset.insert_eq_of_mem (BankProfile.mem_classes.2 hmem)]
    exact .inl ⟨rfl, hlen⟩
  · have hcard : (insert e.bankClass profile.classes).card = profile.entries.length + 1 := by
      rw [Finset.card_insert_of_notMem (mt BankProfile.mem_classes.1 hmem), hd.card_classes]
    rw [if_neg hmem, hcard]
    dsimp only
    by_cases hroom : bankProfileMaxEntries ≤ profile.entries.length
    · rw [if_pos hroom]
      exact .inr ⟨rfl, Nat.lt_succ_of_le hroom⟩
    · rw [if_neg hroom, BankProfile.accumulate, accumulate_of_notMem hmem]
      exact .inl ⟨rfl, Nat.lt_of_not_le hroom⟩

end CgroupResearch
