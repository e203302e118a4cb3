import CgroupResearch.Profile.Merge

/-!
# Merges that fail

`bank_profile_merge` checks the page sizes before it touches the destination, but not
whether there is room for the classes of the source. If there is not, it returns with the
entries before the one that does not fit already merged, and neither the counters nor the
dominant class brought up to date. `bankProfileMerge_atomic_iff` says exactly when a merge
leaves the destination as it was, if it fails.

* `mergeEntries_ok_iff`: when there is room;
* `mergeEntries_full`: what a full destination takes of the source;
* `accumulateAll_eq_self_iff`: when accumulated entries change nothing.
-/

namespace CgroupResearch

open Histogram
open scoped UInt64.CommRing

/-- A merge leaves the destination as it was, but for the error message, if it fails. -/
def MergeAtomic (dst src : BankProfile) : Prop :=
  (bankProfileMerge dst src).1 ≠ .ok →
    { (bankProfileMerge dst src).2 with errorMessage := dst.errorMessage } = dst

instance (dst src : BankProfile) : Decidable (MergeAtomic dst src) :=
  inferInstanceAs (Decidable (_ → _))

/-- An entry that `profile_add_bank_class_count` skips. -/
def BankProfileEntry.isZero (e : BankProfileEntry) : Bool := e.pageCount = 0 ∧ e.byteCount = 0

/-- The classes the entries `es` add to those of `entries`. -/
def newClasses (entries es : List BankProfileEntry) : Finset UInt64 :=
  ((es.filter fun e => !e.isZero).map BankProfileEntry.bankClass).toFinset \
    (entries.map BankProfileEntry.bankClass).toFinset

/-- There is no room for the classes of `es` in `entries`. -/
def Overfull (entries es : List BankProfileEntry) : Prop :=
  (newClasses entries es).Nonempty ∧
    bankProfileMaxEntries < entries.length + (newClasses entries es).card

/-- The entries `es` add nothing to any class. -/
def AddsNothing (es : List BankProfileEntry) : Prop :=
  ∀ c, ((es.filter fun e => e.bankClass = c).map BankProfileEntry.pageCount).sum = 0 ∧
    ((es.filter fun e => e.bankClass = c).map BankProfileEntry.byteCount).sum = 0

/-- What is added of `es` before the first that needs a new entry in `entries`. -/
def fitting (entries es : List BankProfileEntry) : List BankProfileEntry :=
  (es.takeWhile fun e => e.isZero || e.bankClass ∈ entries.map BankProfileEntry.bankClass).filter
    fun e => !e.isZero

theorem mem_classes_of_fitting {entries es : List BankProfileEntry} {e : BankProfileEntry}
    (h : e ∈ fitting entries es) : e.bankClass ∈ entries.map BankProfileEntry.bankClass := by
  obtain ⟨htake, hzero⟩ := List.mem_filter.1 h
  have hfits := List.all_eq_true.1 List.all_takeWhile e htake
  rw [Bool.or_eq_true_iff, decide_eq_true_eq] at hfits
  exact hfits.resolve_left (by simpa using hzero)

/-! ## Entries that change nothing -/

theorem foldl_plus (es : List BankProfileEntry) (x : BankProfileEntry) :
    es.foldl BankProfileEntry.plus x =
      { x with
        pageCount := x.pageCount + (es.map BankProfileEntry.pageCount).sum
        byteCount := x.byteCount + (es.map BankProfileEntry.byteCount).sum } := by
  induction es generalizing x with
  | nil => simp
  | cons e es ih =>
    rw [List.foldl_cons, ih]
    simp [BankProfileEntry.plus, add_assoc]

/-- What adds nothing, class by class. -/
theorem addsNothing_iff (es : List BankProfileEntry) (c : UInt64) :
    AddsNothing es ↔
      (((es.filter fun e => e.bankClass = c).map BankProfileEntry.pageCount).sum = 0 ∧
        ((es.filter fun e => e.bankClass = c).map BankProfileEntry.byteCount).sum = 0) ∧
      AddsNothing (es.filter fun e => e.bankClass ≠ c) := by
  have hself : (es.filter fun e => e.bankClass ≠ c).filter (fun e => e.bankClass = c) = [] := by
    simp [List.filter_filter]
  have hother : ∀ c', c' ≠ c → (es.filter fun e => e.bankClass ≠ c).filter
      (fun e => e.bankClass = c') = es.filter fun e => e.bankClass = c' := by
    intro c' hne
    rw [List.filter_filter]
    refine List.filter_congr fun e _ => ?_
    by_cases h : e.bankClass = c'
    · simp [h, hne]
    · simp [h]
  refine ⟨fun h => ⟨h c, fun c' => ?_⟩, fun h c' => ?_⟩
  · rcases eq_or_ne c' c with rfl | hne
    · rw [hself]
      exact ⟨rfl, rfl⟩
    · rw [hother c' hne]
      exact h c'
  · rcases eq_or_ne c' c with rfl | hne
    · exact h.1
    · rw [← hother c' hne]
      exact h.2 c'

/-- Accumulated entries change nothing iff their classes have entries and they add nothing
    to them. -/
theorem accumulateAll_eq_self_iff (es entries : List BankProfileEntry) :
    accumulateAll BankProfileEntry.bankClass BankProfileEntry.plus es entries = entries ↔
      (∀ e ∈ es, e.bankClass ∈ entries.map BankProfileEntry.bankClass) ∧ AddsNothing es := by
  induction entries generalizing es with
  | nil =>
    constructor
    · intro h
      have hnil : es = [] := by
        rw [List.eq_nil_iff_forall_not_mem]
        intro e he
        have hmem := (mem_keys_accumulateAll (l := []) BankProfileEntry.plus_bankClass).2
          (.inl (List.mem_map_of_mem he))
        rw [h] at hmem
        exact List.not_mem_nil hmem
      rw [hnil]
      exact ⟨List.forall_mem_nil _, fun c => ⟨rfl, rfl⟩⟩
    · rintro ⟨h, -⟩
      have hnil : es = [] := List.eq_nil_iff_forall_not_mem.2 fun e he => List.not_mem_nil (h e he)
      rw [hnil]
      rfl
  | cons x entries ih =>
    have hx : ∀ p b : UInt64, { x with
        pageCount := x.pageCount + p, byteCount := x.byteCount + b } = x ↔ p = 0 ∧ b = 0 := by
      intro p b
      obtain ⟨c, n, m⟩ := x
      simp
    have hmem : (∀ e ∈ es, e.bankClass ∈ (x :: entries).map BankProfileEntry.bankClass) ↔
        ∀ e ∈ es.filter (fun e => e.bankClass ≠ x.bankClass),
          e.bankClass ∈ entries.map BankProfileEntry.bankClass := by
      simp only [List.mem_filter, List.map_cons, List.mem_cons, decide_eq_true_eq, and_imp]
      exact forall₂_congr fun e _ => or_iff_not_imp_left
    rw [accumulateAll_cons BankProfileEntry.plus_bankClass, List.cons.injEq, ih, foldl_plus, hx,
      addsNothing_iff es x.bankClass, hmem]
    exact and_left_comm

/-! ## The loop over the entries -/

section

variable {dst : BankProfile} {e : BankProfileEntry} {es : List BankProfileEntry}

/-- Adding an entry: it is skipped, added to that of its class, new, or does not fit. -/
inductive AddCase (profile : BankProfile) (e : BankProfileEntry) :
    BankProfileRc × BankProfile → Prop
  | skipped (hzero : e.isZero = true) : AddCase profile e (.ok, profile)
  | known (hzero : e.isZero = false)
      (hmem : e.bankClass ∈ profile.entries.map BankProfileEntry.bankClass) :
      AddCase profile e (.ok, profile.accumulate e)
  | new (hzero : e.isZero = false)
      (hmem : e.bankClass ∉ profile.entries.map BankProfileEntry.bankClass)
      (hroom : profile.entries.length < bankProfileMaxEntries) :
      AddCase profile e (.ok, { profile with entries := profile.entries ++ [e] })
  | full (hzero : e.isZero = false)
      (hmem : e.bankClass ∉ profile.entries.map BankProfileEntry.bankClass)
      (hroom : bankProfileMaxEntries ≤ profile.entries.length) :
      AddCase profile e
        (.errTooManyClasses, profileSetError profile "too many unique bank classes")

/-- What adding a class does. -/
theorem addCase (profile : BankProfile) (e : BankProfileEntry) :
    AddCase profile e
      (profileAddBankClassCount profile e.bankClass e.pageCount e.byteCount) := by
  rw [profileAddBankClassCount, addToEntry_eq]
  split
  case isTrue h => exact .skipped (decide_eq_true h)
  case isFalse h =>
    by_cases hmem : e.bankClass ∈ profile.entries.map BankProfileEntry.bankClass
    · rw [if_pos hmem]
      exact .known (decide_eq_false h) hmem
    · rw [if_neg hmem]
      dsimp only
      split
      case isTrue hroom => exact .full (decide_eq_false h) hmem hroom
      case isFalse hroom => exact .new (decide_eq_false h) hmem (Nat.lt_of_not_le hroom)

/-- An entry that adds no class, with the classes of the list `entries'` as before. -/
theorem newClasses_cons_of_known {entries entries' : List BankProfileEntry}
    (hkeys : entries'.map BankProfileEntry.bankClass = entries.map BankProfileEntry.bankClass)
    (h : e.isZero = true ∨ e.bankClass ∈ entries.map BankProfileEntry.bankClass) :
    newClasses entries (e :: es) = newClasses entries' es := by
  rw [newClasses, newClasses, hkeys]
  rcases h with hzero | hmem
  · rw [List.filter_cons_of_neg (by simp [hzero])]
  · cases hzero : e.isZero with
    | true => rw [List.filter_cons_of_neg (by simp [hzero])]
    | false =>
      rw [List.filter_cons_of_pos (by simp [hzero]), List.map_cons, List.toFinset_cons,
        Finset.insert_sdiff_of_mem _ (List.mem_toFinset.2 hmem)]

theorem newClasses_cons_of_new (es : List BankProfileEntry) {entries : List BankProfileEntry}
    (hzero : e.isZero = false)
    (hmem : e.bankClass ∉ entries.map BankProfileEntry.bankClass) :
    newClasses entries (e :: es) = insert e.bankClass (newClasses (entries ++ [e]) es) ∧
      e.bankClass ∉ newClasses (entries ++ [e]) es := by
  have hkeys : ((entries ++ [e]).map BankProfileEntry.bankClass).toFinset =
      insert e.bankClass (entries.map BankProfileEntry.bankClass).toFinset := by
    rw [List.map_append, List.toFinset_append, Finset.union_comm]
    rfl
  constructor
  · rw [newClasses, newClasses, hkeys, List.filter_cons_of_pos (by simp [hzero]), List.map_cons,
      List.toFinset_cons, Finset.insert_sdiff_of_notMem _ (mt List.mem_toFinset.1 hmem)]
    ext c
    simp only [Finset.mem_insert, Finset.mem_sdiff]
    tauto
  · rw [newClasses, hkeys]
    simp

theorem keys_accumulate_of_mem (h : e.bankClass ∈ dst.entries.map BankProfileEntry.bankClass) :
    (dst.accumulate e).entries.map BankProfileEntry.bankClass =
      dst.entries.map BankProfileEntry.bankClass :=
  (keys_accumulate BankProfileEntry.plus_bankClass e dst.entries).trans (if_pos h)

/-- The loop goes through iff there is room for the classes of the source. -/
theorem mergeEntries_ok_iff (dst : BankProfile) (es : List BankProfileEntry) :
    (mergeEntries dst es).1 = .ok ↔ ¬Overfull dst.entries es := by
  induction es generalizing dst with
  | nil =>
    refine iff_of_true rfl fun h => ?_
    simpa [newClasses] using h.1
  | cons e es ih =>
    rw [mergeEntries]
    have hcase := addCase dst e
    revert hcase
    generalize profileAddBankClassCount dst e.bankClass e.pageCount e.byteCount = out
    intro hcase
    cases hcase with
    | skipped hzero =>
      rw [Overfull, newClasses_cons_of_known rfl (.inl hzero)]
      exact ih dst
    | known hzero hmem =>
      have hkeys := keys_accumulate_of_mem hmem
      have hlen := congrArg List.length hkeys
      rw [List.length_map, List.length_map] at hlen
      rw [Overfull, newClasses_cons_of_known hkeys (.inr hmem), ← hlen]
      exact ih (dst.accumulate e)
    | new hzero hmem hroom =>
      obtain ⟨hnew, hnotMem⟩ := newClasses_cons_of_new es hzero hmem
      have hcard := Finset.card_insert_of_notMem hnotMem
      dsimp only
      rw [ih, Overfull, Overfull, hnew, hcard, List.length_append, List.length_singleton,
        ← Finset.card_pos, ← Finset.card_pos, hcard]
      dsimp only
      omega
    | full hzero hmem hroom =>
      obtain ⟨hnew, hnotMem⟩ := newClasses_cons_of_new es hzero hmem
      refine iff_of_false (by rintro ⟨⟩) (not_not_intro ⟨?_, ?_⟩)
      · rw [hnew]
        exact Finset.insert_nonempty _ _
      · rw [hnew, Finset.card_insert_of_notMem hnotMem]
        omega

/-- The loop changes the entries and the error message only, and it fails with the entries
    full. -/
theorem mergeEntries_frame (dst : BankProfile) (es : List BankProfileEntry) :
    ∃ entries message,
      (mergeEntries dst es).2 = { dst with entries := entries, errorMessage := message } ∧
      ((mergeEntries dst es).1 ≠ .ok → bankProfileMaxEntries ≤ entries.length) := by
  induction es generalizing dst with
  | nil => exact ⟨dst.entries, dst.errorMessage, rfl, fun h => absurd rfl h⟩
  | cons e es ih =>
    rw [mergeEntries]
    have hcase := addCase dst e
    revert hcase
    generalize profileAddBankClassCount dst e.bankClass e.pageCount e.byteCount = out
    intro hcase
    cases hcase with
    | skipped hzero => exact ih dst
    | known hzero hmem => exact ih (dst.accumulate e)
    | new hzero hmem hroom => exact ih { dst with entries := dst.entries ++ [e] }
    | full hzero hmem hroom => exact ⟨dst.entries, _, rfl, fun _ => hroom⟩

/-- A full destination takes the entries before the first that does not fit. -/
theorem mergeEntries_full (dst : BankProfile) (es : List BankProfileEntry)
    (hfull : bankProfileMaxEntries ≤ dst.entries.length) (hrc : (mergeEntries dst es).1 ≠ .ok) :
    (mergeEntries dst es).2.entries =
      accumulateAll BankProfileEntry.bankClass BankProfileEntry.plus (fitting dst.entries es)
        dst.entries := by
  induction es generalizing dst with
  | nil => exact absurd rfl hrc
  | cons e es ih =>
    rw [mergeEntries] at hrc ⊢
    have hcase := addCase dst e
    revert hcase hrc
    generalize profileAddBankClassCount dst e.bankClass e.pageCount e.byteCount = out
    intro hrc hcase
    cases hcase with
    | skipped hzero =>
      rw [fitting, List.takeWhile_cons_of_pos (by simp [hzero]),
        List.filter_cons_of_neg (by simp [hzero])]
      exact ih dst hfull hrc
    | known hzero hmem =>
      have hkeys := keys_accumulate_of_mem hmem
      have hlen := congrArg List.length hkeys
      rw [List.length_map, List.length_map] at hlen
      have hfit : fitting (dst.accumulate e).entries es = fitting dst.entries es := by
        rw [fitting, hkeys, fitting]
      rw [fitting, List.takeWhile_cons_of_pos (by simp [hmem]),
        List.filter_cons_of_pos (by simp [hzero]), ← fitting, ← hfit]
      exact ih (dst.accumulate e) (hlen ▸ hfull) hrc
    | new hzero hmem hroom => exact absurd hfull (Nat.not_le.2 hroom)
    | full hzero hmem hroom =>
      rw [fitting, List.takeWhile_cons_of_neg (by simp [hzero, hmem])]
      rfl

end

/-! ## The merge -/

/-- The merge gets to the entries, and there is no room for them. -/
structure Overflows (dst src : BankProfile) : Prop where
  pageSize : src.pageSize ≠ 0
  compatible : dst.pageSize = 0 ∨ dst.pageSize = src.pageSize
  overfull : Overfull dst.entries src.entries

/-- There is nothing to undo when the entry that does not fit is met: the destination is a
    full aggregate of the same page size, to which the entries before that one add nothing. -/
structure Unharmed (dst src : BankProfile) : Prop where
  pid : dst.pid = 0
  pageSize : dst.pageSize = src.pageSize
  full : bankProfileMaxEntries ≤ dst.entries.length
  nothing : AddsNothing (fitting dst.entries src.entries)

/-- The profile as the loop of the merge finds it. -/
def mergeStart (dst src : BankProfile) : BankProfile :=
  { dst with pageSize := src.pageSize, pid := 0 }

/-- A merge past the checks of the page sizes. -/
theorem bankProfileMerge_eq {dst src : BankProfile} (hne : src.entries ≠ [])
    (hsize : src.pageSize ≠ 0) (hcompat : dst.pageSize = 0 ∨ dst.pageSize = src.pageSize) :
    bankProfileMerge dst src =
      match mergeEntries (mergeStart dst src) src.entries with
      | (.ok, dst) =>
        (.ok, profileFinalize
          { dst with counters := bankProfileMergeCounters dst.counters src.counters })
      | (rc, dst) => (rc, dst) := by
  have hlen : ¬src.entries.length = 0 := fun h => hne (List.length_eq_zero_iff.1 h)
  have hsame : ¬(dst.pageSize ≠ 0 ∧ dst.pageSize ≠ src.pageSize) := by tauto
  have hset : (if dst.pageSize = 0 then { dst with pageSize := src.pageSize } else dst) =
      { dst with pageSize := src.pageSize } := by
    split
    case isTrue => rfl
    case isFalse h => rw [← hcompat.resolve_left h]
  rw [bankProfileMerge, if_neg hlen, if_neg hsize, if_neg hsame, hset]
  rfl

/-- Past the checks of the page sizes, a merge succeeds if there is room, and else ends as the
    loop over the entries does. -/
theorem bankProfileMerge_cases_entries (dst src : BankProfile) (hne : src.entries ≠ [])
    (hsize : src.pageSize ≠ 0) (hcompat : dst.pageSize = 0 ∨ dst.pageSize = src.pageSize) :
    (¬Overfull dst.entries src.entries ∧ (bankProfileMerge dst src).1 = .ok) ∨
      (Overfull dst.entries src.entries ∧ (bankProfileMerge dst src).1 ≠ .ok ∧
        (mergeEntries (mergeStart dst src) src.entries).1 ≠ .ok ∧
        (bankProfileMerge dst src).2 = (mergeEntries (mergeStart dst src) src.entries).2) := by
  have hok := mergeEntries_ok_iff (mergeStart dst src) src.entries
  rw [bankProfileMerge_eq hne hsize hcompat]
  cases hres : mergeEntries (mergeStart dst src) src.entries with
  | mk rc out =>
    rw [hres] at hok
    by_cases hrc : rc = .ok
    · subst hrc
      exact .inl ⟨hok.1 rfl, rfl⟩
    · have hover : Overfull dst.entries src.entries := not_not.1 (mt hok.2 hrc)
      cases rc <;> first | exact absurd rfl hrc | exact .inr ⟨hover, hrc, hrc, rfl⟩

/-- The checks of the page sizes come before any change. -/
theorem mergeAtomic_of_checks {dst src : BankProfile}
    (h : ¬(src.entries ≠ [] ∧ src.pageSize ≠ 0 ∧
      (dst.pageSize = 0 ∨ dst.pageSize = src.pageSize))) :
    MergeAtomic dst src ∧ ¬Overflows dst src := by
  refine ⟨?_, fun hover => h ⟨?_, hover.pageSize, hover.compatible⟩⟩
  · rw [MergeAtomic, bankProfileMerge]
    split
    · exact fun hrc => absurd rfl hrc
    split
    · exact fun _ => rfl
    split
    · exact fun _ => rfl
    case isFalse hlen hsize hsame =>
      exact absurd ⟨fun hnil => hlen (by rw [hnil, List.length_nil]), hsize, by tauto⟩ h
  · intro hnil
    have hnonempty := hover.overfull.1
    rw [hnil] at hnonempty
    simp [newClasses] at hnonempty

/-- A merge that fails leaves the destination as it was, but for the error message, iff it
    does not fail for want of room, or has changed nothing by then. -/
theorem bankProfileMerge_atomic_iff (dst src : BankProfile) :
    MergeAtomic dst src ↔ ¬Overflows dst src ∨ Unharmed dst src := by
  by_cases hchecks : src.entries ≠ [] ∧ src.pageSize ≠ 0 ∧
      (dst.pageSize = 0 ∨ dst.pageSize = src.pageSize)
  case neg =>
    obtain ⟨hatomic, hfits⟩ := mergeAtomic_of_checks hchecks
    exact iff_of_true hatomic (.inl hfits)
  obtain ⟨hne, hsize, hcompat⟩ := hchecks
  rcases bankProfileMerge_cases_entries dst src hne hsize hcompat with
    ⟨hroom, hok⟩ | ⟨hover, hrc, hfail, hout⟩
  · exact iff_of_true (fun hrc => absurd hok hrc) (.inl fun h => hroom h.overfull)
  have hoverflows : Overflows dst src := ⟨hsize, hcompat, hover⟩
  obtain ⟨entries, message, hframe, hfull⟩ := mergeEntries_frame (mergeStart dst src) src.entries
  -- what is left of the destination is its entries, the page size and the pid
  have hsame : { (bankProfileMerge dst src).2 with errorMessage := dst.errorMessage } = dst ↔
      dst.pid = 0 ∧ dst.pageSize = src.pageSize ∧ entries = dst.entries := by
    rw [hout, hframe]
    obtain ⟨⟩ := dst
    simp [mergeStart, eq_comm]
  have hatomic : MergeAtomic dst src ↔
      { (bankProfileMerge dst src).2 with errorMessage := dst.errorMessage } = dst :=
    ⟨fun h => h hrc, fun h _ => h⟩
  rw [hatomic, hsame, or_iff_right (not_not_intro hoverflows)]
  constructor
  · rintro ⟨hpid, hps, hentries⟩
    have hlen := hfull hfail
    rw [hentries] at hlen
    have htaken := mergeEntries_full (mergeStart dst src) src.entries hlen hfail
    rw [hframe] at htaken
    exact ⟨hpid, hps, hlen, ((accumulateAll_eq_self_iff _ _).1 (htaken.symm.trans hentries)).2⟩
  · rintro ⟨hpid, hps, hlen, hnothing⟩
    have htaken := mergeEntries_full (mergeStart dst src) src.entries hlen hfail
    rw [hframe] at htaken
    refine ⟨hpid, hps, htaken.trans ((accumulateAll_eq_self_iff _ _).2 ⟨fun e he => ?_, hnothing⟩)⟩
    exact mem_classes_of_fitting he

theorem MergeAtomic.entries {dst src : BankProfile} (h : MergeAtomic dst src)
    (hrc : (bankProfileMerge dst src).1 ≠ .ok) :
    (bankProfileMerge dst src).2.entries = dst.entries := by
  have hentries := congrArg BankProfile.entries (h hrc)
  exact hentries

/-- An aggregate of `n` classes, with a page of each. -/
def aggregateOf (n : ℕ) : BankProfile :=
  profileOf 0 ((List.range n).map fun i => ⟨.ofNat i, 1, 4096⟩)

/-- A profile of two classes past `5000`. -/
def twoClasses : BankProfile :=
  { profileOf 8 [⟨5000, 9, 36864⟩, ⟨5001, 1, 4096⟩] with
    counters := { BankProfileCounters.zero with pagesTranslated := 10 } }

theorem class_lt_of_aggregateOf {n : ℕ} {c : UInt64} (hn : n < 2 ^ 64)
    (hc : c ∈ ((aggregateOf n).entries.map BankProfileEntry.bankClass).toFinset) : c.toNat < n := by
  obtain ⟨e, he, rfl⟩ := List.mem_map.1 (List.mem_toFinset.1 hc)
  obtain ⟨i, hi, rfl⟩ := List.mem_map.1 he
  rw [List.mem_range] at hi
  rw [UInt64.toNat_ofNat_of_lt' (hi.trans hn)]
  exact hi

theorem newClasses_twoClasses :
    newClasses (aggregateOf 4095).entries twoClasses.entries = {5000, 5001} := by
  have htwo : ((twoClasses.entries.filter fun e => !e.isZero).map
      BankProfileEntry.bankClass).toFinset = {5000, 5001} := by decide
  rw [newClasses, htwo, Finset.sdiff_eq_self_iff_disjoint, Finset.disjoint_right]
  intro c hc hmem
  have hlt := class_lt_of_aggregateOf (by norm_num) hc
  rw [Finset.mem_insert, Finset.mem_singleton] at hmem
  rcases hmem with rfl | rfl
  · exact absurd hlt (by decide)
  · exact absurd hlt (by decide)

/-- An aggregate of `4095` classes, and a profile of two new ones: the first is merged, the
    second does not fit, and the counters do not follow. -/
theorem bankProfileMerge_not_atomic :
    (bankProfileMerge (aggregateOf 4095) twoClasses).1 ≠ .ok ∧
      (aggregateOf 4095).entries.length = 4095 ∧
      4096 ≤ (bankProfileMerge (aggregateOf 4095) twoClasses).2.entries.length ∧
      (bankProfileMerge (aggregateOf 4095) twoClasses).2.counters.pagesTranslated = 0 ∧
      ¬MergeAtomic (aggregateOf 4095) twoClasses := by
  have hlen : (aggregateOf 4095).entries.length = 4095 := by
    rw [aggregateOf, profileOf, List.length_map, List.length_range]
  have hover : Overfull (aggregateOf 4095).entries twoClasses.entries := by
    rw [Overfull, newClasses_twoClasses, hlen, Finset.card_pair (by decide), bankProfileMaxEntries]
    exact ⟨Finset.insert_nonempty _ _, by norm_num⟩
  rcases bankProfileMerge_cases_entries (aggregateOf 4095) twoClasses
    (List.cons_ne_nil _ _) (by decide) (.inr rfl) with ⟨hroom, -⟩ | ⟨-, hrc, hfail, hout⟩
  · exact absurd hover hroom
  obtain ⟨entries, message, hframe, hfull⟩ :=
    mergeEntries_frame (mergeStart (aggregateOf 4095) twoClasses) twoClasses.entries
  rw [hframe] at hout
  have hlonger : 4096 ≤ (bankProfileMerge (aggregateOf 4095) twoClasses).2.entries.length := by
    rw [hout]
    exact hfull hfail
  refine ⟨hrc, hlen, hlonger, by rw [hout]; rfl, fun hatomic => ?_⟩
  rw [hatomic.entries hrc, hlen] at hlonger
  exact absurd hlonger (by norm_num)

end CgroupResearch
