import CgroupResearch.Profile.Basic

/-!
# Merging profiles

Merging profiles one after the other into an empty one (`mergeAll`) adds up their
histograms and counters. It fails exactly when the classes of all the profiles are
more than there is room for, and otherwise what it gives does not depend on the order
of the profiles, but for the order of the entries (`merge_order_irrelevant`).

* `mergeEntries_cases`: merging the entries of a profile accumulates them, or fails for
  want of room;
* `profileFinalize_dominant`: the dominant class has the most pages;
* `mergeAll_cases`: the whole loop.
-/

namespace CgroupResearch

open Histogram
open scoped UInt64.CommRing

/-- The eleven counters, by index. -/
def BankProfileCounters.values (k : BankProfileCounters) : Fin 11 → UInt64 :=
  ![k.regionsSeen, k.regionsSelected, k.pagesSeen, k.pagesConsidered, k.pagesSampled,
    k.pagesTranslated, k.pagesSkippedNotPresent, k.pagesSkippedSwapped,
    k.pagesSkippedPfnUnavailable, k.pagesSkippedTranslationError, k.pagesSkippedMappingError]

theorem values_mergeCounters (dst src : BankProfileCounters) :
    (bankProfileMergeCounters dst src).values = dst.values + src.values := by
  funext i
  fin_cases i <;> rfl

/-- Merging the profiles in turn, left on the first error. -/
def mergeAll (dst : BankProfile) : List BankProfile → BankProfileRc × BankProfile
  | [] => (.ok, dst)
  | src :: srcs =>
    match bankProfileMerge dst src with
    | (.ok, dst) => mergeAll dst srcs
    | (rc, dst) => (rc, dst)

/-- The classes of all the profiles. -/
def unionClasses (profiles : List BankProfile) : Finset UInt64 :=
  (profiles.flatMap fun p => p.entries.map BankProfileEntry.bankClass).toFinset

theorem unionClasses_cons (p : BankProfile) (ps : List BankProfile) :
    unionClasses (p :: ps) = p.classes ∪ unionClasses ps := by
  rw [unionClasses, List.flatMap_cons, List.toFinset_append]
  rfl

theorem unionClasses_perm {ps ps' : List BankProfile} (h : ps'.Perm ps) :
    unionClasses ps' = unionClasses ps :=
  List.toFinset_eq_of_perm _ _ (h.flatMap_right _)

/-! ## The entries of one profile -/

section Entries

variable {dst : BankProfile} {es : List BankProfileEntry}

/-- Merging entries accumulates them, or fails if there is no room for their classes. -/
theorem mergeEntries_cases (hd : dst.DistinctClasses)
    (hlen : dst.classes.card ≤ bankProfileMaxEntries) (hpos : ∀ e ∈ es, e.pageCount ≠ 0) :
    (mergeEntries dst es = (.ok, dst.accumulateAll es) ∧
      (dst.accumulateAll es).classes.card ≤ bankProfileMaxEntries) ∨
    ((mergeEntries dst es).1 = .errTooManyClasses ∧
      bankProfileMaxEntries < (dst.accumulateAll es).classes.card) := by
  induction es generalizing dst with
  | nil => exact .inl ⟨rfl, hlen⟩
  | cons e es ih =>
    rw [List.forall_mem_cons] at hpos
    have hcons : dst.accumulateAll (e :: es) = (dst.accumulate e).accumulateAll es := rfl
    rw [mergeEntries, hcons]
    rcases profileAddBankClassCount_cases hd hlen e hpos.1 with ⟨hadd, hlen'⟩ | ⟨hadd, hfull⟩
    · rw [hadd]
      exact ih (hd.accumulate e) hlen' hpos.2
    · -- the classes only grow from here
      rw [hadd]
      refine .inr ⟨rfl, hfull.trans_le (Finset.card_le_card ?_)⟩
      rw [BankProfile.classes_accumulateAll]
      exact Finset.subset_union_left

end Entries

/-! ## The dominant class -/

/-- The loop of `profile_finalize` finds the most pages, and a class that has them. -/
theorem finalizeLoop_max (es : List BankProfileEntry) (total maxCount maxClass : UInt64) :
    maxCount ≤ (finalizeLoop es total maxCount maxClass).2.1 ∧
    (∀ e ∈ es, e.pageCount ≤ (finalizeLoop es total maxCount maxClass).2.1) ∧
    ((finalizeLoop es total maxCount maxClass).2 = (maxCount, maxClass) ∨
      ∃ e ∈ es, (finalizeLoop es total maxCount maxClass).2 = (e.pageCount, e.bankClass)) := by
  induction es generalizing total maxCount maxClass with
  | nil => exact ⟨UInt64.le_refl _, List.forall_mem_nil _, .inl rfl⟩
  | cons e es ih =>
    rw [finalizeLoop]
    split
    case isTrue hlt =>
      obtain ⟨hle, hall, hfrom⟩ := ih (total + e.pageCount) e.pageCount e.bankClass
      refine ⟨UInt64.le_trans (UInt64.le_of_lt hlt) hle, List.forall_mem_cons.2 ⟨hle, hall⟩, .inr ?_⟩
      rcases hfrom with heq | ⟨x, hx, heq⟩
      · exact ⟨e, List.mem_cons_self, heq⟩
      · exact ⟨x, List.mem_cons_of_mem e hx, heq⟩
    case isFalse hge =>
      obtain ⟨hle, hall, hfrom⟩ := ih (total + e.pageCount) maxCount maxClass
      refine ⟨hle, List.forall_mem_cons.2 ⟨UInt64.le_trans (UInt64.not_lt.1 hge) hle, hall⟩, ?_⟩
      rcases hfrom with heq | ⟨x, hx, heq⟩
      · exact .inl heq
      · exact .inr ⟨x, List.mem_cons_of_mem e hx, heq⟩

/-- The dominant class of a profile has the most pages. -/
structure Dominant (profile : BankProfile) : Prop where
  max : ∀ c, bankProfileCountForClass profile c ≤ profile.dominantPageCount
  attained : bankProfileCountForClass profile profile.dominantBankClass = profile.dominantPageCount

theorem count_le_of_forall {profile : BankProfile} {m : UInt64}
    (h : ∀ e ∈ profile.entries, e.pageCount ≤ m) (c : UInt64) :
    bankProfileCountForClass profile c ≤ m := by
  rw [bankProfileCountForClass]
  split
  case h_1 e he => exact h e (List.mem_of_find?_eq_some he)
  case h_2 => exact UInt64.zero_le

theorem bytes_le_of_forall {profile : BankProfile} {m : UInt64}
    (h : ∀ e ∈ profile.entries, e.byteCount ≤ m) (c : UInt64) : profile.bytesForClass c ≤ m := by
  rw [BankProfile.bytesForClass]
  split
  case h_1 e he => exact h e (List.mem_of_find?_eq_some he)
  case h_2 => exact UInt64.zero_le

/-- The dominant class has the most pages. -/
theorem profileFinalize_dominant {profile : BankProfile} (hd : profile.DistinctClasses) :
    Dominant (profileFinalize profile) := by
  obtain ⟨-, hall, hfrom⟩ := finalizeLoop_max profile.entries 0 0 0
  have hmax : ∀ c, bankProfileCountForClass (profileFinalize profile) c ≤
      (profileFinalize profile).dominantPageCount := count_le_of_forall hall
  refine ⟨hmax, ?_⟩
  rcases hfrom with heq | ⟨e, he, heq⟩
  · -- no class has pages
    have hzero : (profileFinalize profile).dominantPageCount = 0 := congrArg Prod.fst heq
    have hle := hmax (profileFinalize profile).dominantBankClass
    rw [hzero] at hle ⊢
    exact UInt64.le_antisymm hle UInt64.zero_le
  · have hcount : (profileFinalize profile).dominantPageCount = e.pageCount :=
      congrArg Prod.fst heq
    have hclass : (profileFinalize profile).dominantBankClass = e.bankClass :=
      congrArg Prod.snd heq
    rw [hcount, hclass, BankProfile.countForClass_eq]
    exact valueAt_of_mem hd he

/-! ## Merging in turn -/

/-- What a profile to merge must be: a histogram of pages of size `pageSize`. -/
structure Mergeable (pageSize : UInt64) (p : BankProfile) : Prop where
  distinct : p.DistinctClasses
  positive : ∀ e ∈ p.entries, e.pageCount ≠ 0
  pageSize_eq : p.pageSize = pageSize
  nonempty : p.entries ≠ []

/-- What holds of the aggregate throughout. -/
structure Merging (pageSize : UInt64) (dst : BankProfile) : Prop where
  distinct : dst.DistinctClasses
  room : dst.classes.card ≤ bankProfileMaxEntries
  pageSize_eq : dst.pageSize = 0 ∨ dst.pageSize = pageSize
  dominant : Dominant dst

theorem merging_reset (pageSize : UInt64) : Merging pageSize bankProfileReset :=
  ⟨List.nodup_nil, Nat.zero_le _, .inl rfl, fun _ => UInt64.le_refl _, rfl⟩

/-- What a merge adds to the aggregate. -/
structure Added (dst : BankProfile) (src : BankProfile) (dst' : BankProfile) : Prop where
  count : ∀ c, bankProfileCountForClass dst' c =
    bankProfileCountForClass dst c + bankProfileCountForClass src c
  bytes : ∀ c, dst'.bytesForClass c = dst.bytesForClass c + src.bytesForClass c
  counters : dst'.counters.values = dst.counters.values + src.counters.values
  classes : dst'.classes = dst.classes ∪ src.classes

/-- A merge adds a profile to the aggregate, or fails if there is no room for its
    classes. -/
theorem bankProfileMerge_cases {pageSize : UInt64} {dst src : BankProfile} (hsize : pageSize ≠ 0)
    (hdst : Merging pageSize dst) (hsrc : Mergeable pageSize src) :
    (∃ dst', bankProfileMerge dst src = (.ok, dst') ∧ Merging pageSize dst' ∧
      Added dst src dst') ∨
    ((bankProfileMerge dst src).1 = .errTooManyClasses ∧
      bankProfileMaxEntries < (dst.classes ∪ src.classes).card) := by
  obtain ⟨hd, hpos, hps, hne⟩ := hsrc
  have hlen : ¬src.entries.length = 0 := fun h => hne (List.length_eq_zero_iff.1 h)
  have hsame : ¬(dst.pageSize ≠ 0 ∧ dst.pageSize ≠ src.pageSize) := by
    rintro ⟨h, h'⟩
    exact hdst.pageSize_eq.elim h fun heq => h' (heq.trans hps.symm)
  rw [bankProfileMerge, if_neg hlen, if_neg (hps ▸ hsize), if_neg hsame]
  -- the page size and the pid are set before the entries are merged
  have hset : ∃ size, (size = pageSize) ∧
      (if dst.pageSize = 0 then { dst with pageSize := src.pageSize } else dst) =
        { dst with pageSize := size } := by
    by_cases h : dst.pageSize = 0
    · exact ⟨src.pageSize, hps, if_pos h⟩
    · exact ⟨dst.pageSize, hdst.pageSize_eq.resolve_left h, if_neg h⟩
  obtain ⟨size, hsize', heq⟩ := hset
  rw [heq]
  dsimp only
  have hentries : ∀ es, ({ dst with pageSize := size, pid := 0 }.accumulateAll es).classes =
      (dst.accumulateAll es).classes := fun es => rfl
  have hd' : BankProfile.DistinctClasses { dst with pageSize := size, pid := 0 } := hdst.distinct
  rcases mergeEntries_cases hd' hdst.room hpos with ⟨hm, hroom⟩ | ⟨hm, hfull⟩
  · rw [hm]
    refine .inl ⟨_, rfl, ⟨hdst.distinct.accumulateAll src.entries, hroom, .inr hsize',
      profileFinalize_dominant (hd'.accumulateAll src.entries)⟩, ?_, ?_, ?_, ?_⟩
    · exact dst.countForClass_accumulateAll hd
    · exact dst.bytesForClass_accumulateAll hd
    · exact values_mergeCounters _ _
    · exact dst.classes_accumulateAll src.entries
  · refine .inr ⟨?_, ?_⟩
    · revert hm
      cases hres : mergeEntries { dst with pageSize := size, pid := 0 } src.entries with
      | mk rc dst' =>
        rintro rfl
        rfl
    · rwa [hentries, BankProfile.classes_accumulateAll] at hfull

/-- Merging in turn adds up the profiles, or fails if there is no room for their
    classes. -/
theorem mergeAll_cases {pageSize : UInt64} (hsize : pageSize ≠ 0) {dst : BankProfile}
    (hdst : Merging pageSize dst) {profiles : List BankProfile}
    (hprofiles : ∀ p ∈ profiles, Mergeable pageSize p) :
    (∃ agg, mergeAll dst profiles = (.ok, agg) ∧ Merging pageSize agg ∧
      (∀ c, bankProfileCountForClass agg c = bankProfileCountForClass dst c +
        (profiles.map fun p => bankProfileCountForClass p c).sum) ∧
      (∀ c, agg.bytesForClass c = dst.bytesForClass c +
        (profiles.map fun p => p.bytesForClass c).sum) ∧
      (∀ i, agg.counters.values i = dst.counters.values i +
        (profiles.map fun p => p.counters.values i).sum) ∧
      agg.classes = dst.classes ∪ unionClasses profiles) ∨
    ((mergeAll dst profiles).1 ≠ .ok ∧
      bankProfileMaxEntries < (dst.classes ∪ unionClasses profiles).card) := by
  induction profiles generalizing dst with
  | nil =>
    refine .inl ⟨dst, rfl, hdst, fun c => (add_zero _).symm, fun c => (add_zero _).symm,
      fun i => (add_zero _).symm, ?_⟩
    rw [unionClasses, List.flatMap_nil, List.toFinset_nil, Finset.union_empty]
  | cons src srcs ih =>
    -- The first merge adds `src` to `dst`, or has no room: then no later one is made.
    rw [List.forall_mem_cons] at hprofiles
    rw [mergeAll, unionClasses_cons, ← Finset.union_assoc]
    rcases bankProfileMerge_cases hsize hdst hprofiles.1 with ⟨dst', hm, hdst', hadd⟩ | ⟨hm, hfull⟩
    · rw [hm]
      dsimp only
      rcases ih hdst' hprofiles.2 with ⟨agg, hagg, hmerging, hc, hb, hk, hcl⟩ | ⟨hrc, hfull⟩
      · refine .inl ⟨agg, hagg, hmerging, fun c => ?_, fun c => ?_, fun i => ?_, ?_⟩
        · rw [hc, hadd.count, List.map_cons, List.sum_cons, add_assoc]
        · rw [hb, hadd.bytes, List.map_cons, List.sum_cons, add_assoc]
        · rw [hk, hadd.counters, Pi.add_apply, List.map_cons, List.sum_cons, add_assoc]
        · rw [hcl, hadd.classes]
      · exact .inr ⟨hrc, hadd.classes ▸ hfull⟩
    · refine .inr ⟨?_, hfull.trans_le (Finset.card_le_card Finset.subset_union_left)⟩
      revert hm
      cases hres : bankProfileMerge dst src with
      | mk rc dst' =>
        rintro rfl
        exact nofun

/-! ## The order of the profiles -/

/-- Profiles to merge, of pages of one size, whose sums fit in their fields. -/
structure Aggregable (pageSize : UInt64) (profiles : List BankProfile) : Prop where
  mergeable : ∀ p ∈ profiles, Mergeable pageSize p
  pages_lt : ∀ c, (profiles.map fun p => (bankProfileCountForClass p c).toNat).sum < 2 ^ 64
  bytes_lt : ∀ c, (profiles.map fun p => (p.bytesForClass c).toNat).sum < 2 ^ 64
  counters_lt : ∀ i, (profiles.map fun p => (p.counters.values i).toNat).sum < 2 ^ 64

/-- The aggregate of the profiles. -/
structure Aggregate (profiles : List BankProfile) (agg : BankProfile) : Prop where
  pages : ∀ c, (bankProfileCountForClass agg c).toNat =
    (profiles.map fun p => (bankProfileCountForClass p c).toNat).sum
  bytes : ∀ c, (agg.bytesForClass c).toNat =
    (profiles.map fun p => (p.bytesForClass c).toNat).sum
  counters : ∀ i, (agg.counters.values i).toNat =
    (profiles.map fun p => (p.counters.values i).toNat).sum
  entryCount : agg.entries.length = (unionClasses profiles).card
  dominant : Dominant agg

theorem Aggregable.perm {pageSize : UInt64} {profiles profiles' : List BankProfile}
    (h : Aggregable pageSize profiles) (hperm : profiles'.Perm profiles) :
    Aggregable pageSize profiles' where
  mergeable p hp := h.mergeable p (hperm.subset hp)
  pages_lt c := by rw [(hperm.map _).sum_eq]; exact h.pages_lt c
  bytes_lt c := by rw [(hperm.map _).sum_eq]; exact h.bytes_lt c
  counters_lt i := by rw [(hperm.map _).sum_eq]; exact h.counters_lt i

theorem Aggregate.perm {profiles profiles' : List BankProfile} {agg : BankProfile}
    (h : Aggregate profiles' agg) (hperm : profiles'.Perm profiles) : Aggregate profiles agg where
  pages c := by rw [h.pages, (hperm.map _).sum_eq]
  bytes c := by rw [h.bytes, (hperm.map _).sum_eq]
  counters i := by rw [h.counters, (hperm.map _).sum_eq]
  entryCount := by rw [h.entryCount, unionClasses_perm hperm]
  dominant := h.dominant

/-- Merging from an empty profile succeeds iff there is room for the classes of all the
    profiles, and then it gives their aggregate. -/
theorem mergeAll_reset {pageSize : UInt64} (hsize : pageSize ≠ 0) {profiles : List BankProfile}
    (h : Aggregable pageSize profiles) :
    ((mergeAll bankProfileReset profiles).1 = .ok ↔
      (unionClasses profiles).card ≤ bankProfileMaxEntries) ∧
    ((mergeAll bankProfileReset profiles).1 = .ok →
      Aggregate profiles (mergeAll bankProfileReset profiles).2) := by
  have hclasses : bankProfileReset.classes ∪ unionClasses profiles = unionClasses profiles :=
    Finset.empty_union _
  rcases mergeAll_cases hsize (merging_reset pageSize) h.mergeable with
    ⟨agg, hagg, hmerging, hc, hb, hk, hcl⟩ | ⟨hrc, hfull⟩
  · rw [hagg]
    rw [hclasses] at hcl
    refine ⟨iff_of_true rfl (hcl ▸ hmerging.room), fun _ => ⟨fun c => ?_, fun c => ?_,
      fun i => ?_, ?_, hmerging.dominant⟩⟩
    · rw [hc, show bankProfileCountForClass bankProfileReset c = 0 from rfl, zero_add,
        toNat_sum (by rw [List.map_map]; exact h.pages_lt c), List.map_map]
      rfl
    · rw [hb, show bankProfileReset.bytesForClass c = 0 from rfl, zero_add,
        toNat_sum (by rw [List.map_map]; exact h.bytes_lt c), List.map_map]
      rfl
    · have hzero : bankProfileReset.counters.values i = 0 := by fin_cases i <;> rfl
      rw [hk, hzero, zero_add, toNat_sum (by rw [List.map_map]; exact h.counters_lt i),
        List.map_map]
      rfl
    · rw [← hmerging.distinct.card_classes, hcl]
  · rw [hclasses] at hfull
    exact ⟨iff_of_false hrc (Nat.not_le.2 hfull), fun hok => absurd hok hrc⟩

/-- Two aggregates agree, but for the order of their entries and for which class of
    the most pages is the dominant one. -/
structure SameAggregate (agg agg' : BankProfile) : Prop where
  count : ∀ c, bankProfileCountForClass agg' c = bankProfileCountForClass agg c
  bytes : ∀ c, agg'.bytesForClass c = agg.bytesForClass c
  counters : agg'.counters = agg.counters
  entryCount : agg'.entries.length = agg.entries.length
  dominantPageCount : agg'.dominantPageCount = agg.dominantPageCount

theorem Dominant.le {agg agg' : BankProfile} (h : Dominant agg) (h' : Dominant agg')
    (hcount : ∀ c, bankProfileCountForClass agg' c = bankProfileCountForClass agg c) :
    agg'.dominantPageCount ≤ agg.dominantPageCount := by
  rw [← h'.attained, hcount]
  exact h.max _

theorem counters_eq_of_values {k k' : BankProfileCounters} (h : k.values = k'.values) : k = k' := by
  obtain ⟨⟩ := k
  obtain ⟨⟩ := k'
  have hi := congrFun h
  simp only [BankProfileCounters.mk.injEq]
  exact ⟨hi 0, hi 1, hi 2, hi 3, hi 4, hi 5, hi 6, hi 7, hi 8, hi 9, hi 10⟩

/-- Two aggregates of the same profiles agree. -/
theorem Aggregate.same {profiles : List BankProfile} {agg agg' : BankProfile}
    (h : Aggregate profiles agg) (h' : Aggregate profiles agg') : SameAggregate agg agg' := by
  have hcount : ∀ c, bankProfileCountForClass agg' c = bankProfileCountForClass agg c :=
    fun c => UInt64.toNat_inj.1 ((h'.pages c).trans (h.pages c).symm)
  refine ⟨hcount, fun c => UInt64.toNat_inj.1 ((h'.bytes c).trans (h.bytes c).symm), ?_,
    h'.entryCount.trans h.entryCount.symm, UInt64.le_antisymm (h.dominant.le h'.dominant hcount)
      (h'.dominant.le h.dominant fun c => (hcount c).symm)⟩
  refine counters_eq_of_values (funext fun i => ?_)
  exact UInt64.toNat_inj.1 ((h'.counters i).trans (h.counters i).symm)

/-- Merging profiles in turn into an empty one succeeds iff they have no more classes in
    all than there is room for, and then every order of the profiles gives the same: the
    sums of the pages and bytes of every class and of every counter, and a dominant class
    with the most pages. -/
theorem merge_order_irrelevant {pageSize : UInt64} (hsize : pageSize ≠ 0)
    {profiles : List BankProfile} (h : Aggregable pageSize profiles) :
    ((mergeAll bankProfileReset profiles).1 = .ok ↔
      (unionClasses profiles).card ≤ bankProfileMaxEntries) ∧
    ((mergeAll bankProfileReset profiles).1 = .ok → ∀ profiles', profiles'.Perm profiles →
      (mergeAll bankProfileReset profiles').1 = .ok ∧
      Aggregate profiles (mergeAll bankProfileReset profiles').2 ∧
      SameAggregate (mergeAll bankProfileReset profiles).2
        (mergeAll bankProfileReset profiles').2) := by
  obtain ⟨hiff, hagg⟩ := mergeAll_reset hsize h
  refine ⟨hiff, fun hok profiles' hperm => ?_⟩
  obtain ⟨hiff', hagg'⟩ := mergeAll_reset hsize (h.perm hperm)
  have hok' := hiff'.2 (unionClasses_perm hperm ▸ hiff.1 hok)
  have hper := (hagg' hok').perm hperm
  exact ⟨hok', hper, (hagg hok).same hper⟩

/-- A profile with the given entries. -/
def profileOf (pid : ℤ) (entries : List BankProfileEntry) : BankProfile :=
  { bankProfileReset with pid := pid, pageSize := 4096, entries := entries }

/-- Two profiles with a class in common, merged the other way round. -/
theorem merge_order_irrelevant_two :
    let a := profileOf 7 [⟨0, 3, 12288⟩, ⟨1, 1, 4096⟩]
    let b := profileOf 8 [⟨1, 2, 8192⟩]
    (mergeAll bankProfileReset [a, b]).1 = .ok ∧
      SameAggregate (mergeAll bankProfileReset [a, b]).2 (mergeAll bankProfileReset [b, a]).2 := by
  intro a b
  have h : Aggregable 4096 [a, b] := by
    refine ⟨?_, fun c => ?_, fun c => ?_, fun i => ?_⟩
    · have ha : Mergeable 4096 a :=
        ⟨by decide +kernel, by decide +kernel, rfl, List.cons_ne_nil _ _⟩
      have hb : Mergeable 4096 b :=
        ⟨by decide +kernel, by decide +kernel, rfl, List.cons_ne_nil _ _⟩
      exact List.forall_mem_cons.2 ⟨ha, List.forall_mem_singleton.2 hb⟩
    · have ha : bankProfileCountForClass a c ≤ 3 := count_le_of_forall (by decide +kernel) c
      have hb : bankProfileCountForClass b c ≤ 2 := count_le_of_forall (by decide +kernel) c
      rw [UInt64.le_iff_toNat_le] at ha hb
      simp only [List.map_cons, List.map_nil, List.sum_cons, List.sum_nil]
      exact lt_of_le_of_lt (Nat.add_le_add ha (Nat.add_le_add hb (Nat.le_refl 0))) (by decide)
    · have ha : a.bytesForClass c ≤ 12288 := bytes_le_of_forall (by decide +kernel) c
      have hb : b.bytesForClass c ≤ 8192 := bytes_le_of_forall (by decide +kernel) c
      rw [UInt64.le_iff_toNat_le] at ha hb
      simp only [List.map_cons, List.map_nil, List.sum_cons, List.sum_nil]
      exact lt_of_le_of_lt (Nat.add_le_add ha (Nat.add_le_add hb (Nat.le_refl 0))) (by decide)
    · revert i
      decide +kernel
  have hok : (mergeAll bankProfileReset [a, b]).1 = .ok := by decide +kernel
  have hirr := merge_order_irrelevant (by decide) h
  exact ⟨hok, (hirr.2 hok [b, a] (.swap a b [])).2.2⟩

end CgroupResearch
