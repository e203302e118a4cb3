import CgroupResearch.Profile.Basic
import Mathlib.Algebra.Order.BigOperators.Group.Finset

/-!
# The overlap of two profiles

`bank_profile_overlap_score` walks over the entries of one profile, looking the classes
up in the other, and then over the classes that only the other has. What it computes is
the weighted Jaccard index of the two histograms: the sum of the minima of the counts of
every class over the sum of their maxima (`overlap_is_weighted_jaccard`).

The sums over the entries are first read as sums over classes (`sum_minCount`,
`sum_leftover`); the rest is `min + max = +`, class by class.
-/

namespace CgroupResearch

open Histogram
open scoped UInt64.CommRing

namespace BankProfile

/-- The pages of a class, as a number. -/
def pages (p : BankProfile) (c : UInt64) : ℕ := (bankProfileCountForClass p c).toNat

/-- The pages of all the entries. -/
def total (p : BankProfile) : ℕ := (p.entries.map fun e => e.pageCount.toNat).sum

theorem pages_eq (p : BankProfile) (c : UInt64) :
    p.pages c = valueAt BankProfileEntry.bankClass (fun e => e.pageCount.toNat) p.entries c := by
  rw [pages, bankProfileCountForClass, valueAt, entry]
  cases p.entries.find? fun e => e.bankClass = c <;> rfl

/-- A class without an entry has no pages. -/
theorem pages_of_notMem {p : BankProfile} {c : UInt64} (h : c ∉ p.classes) : p.pages c = 0 := by
  rw [pages_eq]
  exact valueAt_of_notMem (mt mem_classes.2 h)

end BankProfile

/-! ## The loops -/

/-- What an entry adds to the intersection, given the other profile. -/
def minCount (b : BankProfile) (e : BankProfileEntry) : UInt64 :=
  if e.pageCount < bankProfileCountForClass b e.bankClass then e.pageCount
  else bankProfileCountForClass b e.bankClass

/-- What an entry adds to the union, given the other profile. -/
def maxCount (b : BankProfile) (e : BankProfileEntry) : UInt64 :=
  if bankProfileCountForClass b e.bankClass < e.pageCount then e.pageCount
  else bankProfileCountForClass b e.bankClass

/-- What an entry of the second profile adds to the union, given the first. -/
def leftover (a : BankProfile) (e : BankProfileEntry) : UInt64 :=
  if e.bankClass ∈ a.classes then 0 else e.pageCount

theorem overlapLoopA_eq (b : BankProfile) (es : List BankProfileEntry) (i u : UInt64) :
    overlapLoopA b es i u = (i + (es.map (minCount b)).sum, u + (es.map (maxCount b)).sum) := by
  induction es generalizing i u with
  | nil => rw [overlapLoopA, List.map_nil, List.map_nil, List.sum_nil, add_zero, add_zero]
  | cons e es ih =>
    rw [overlapLoopA, ih, List.map_cons, List.map_cons, List.sum_cons, List.sum_cons, ← add_assoc,
      ← add_assoc]
    rfl

theorem overlapLoopB_eq (a : BankProfile) (es : List BankProfileEntry) (u : UInt64) :
    overlapLoopB a es u = u + (es.map (leftover a)).sum := by
  induction es generalizing u with
  | nil => rw [overlapLoopB, List.map_nil, List.sum_nil, add_zero]
  | cons e es ih =>
    have hexists : (a.entries.any fun e' => e'.bankClass = e.bankClass) =
        decide (e.bankClass ∈ a.classes) := by
      rw [Bool.eq_iff_iff, List.any_eq_true, decide_eq_true_iff, BankProfile.mem_classes,
        List.mem_map]
      simp
    rw [overlapLoopB, ih, List.map_cons, List.sum_cons, ← add_assoc, hexists, leftover]
    by_cases h : e.bankClass ∈ a.classes
    · simp [h]
    · simp [h]

/-- The counts are sums over the entries. -/
theorem overlapCounts_eq (a b : BankProfile) : overlapCounts a b =
    ((a.entries.map (minCount b)).sum,
      (a.entries.map (maxCount b) ++ b.entries.map (leftover a)).sum) := by
  rw [overlapCounts, overlapLoopA_eq, List.sum_append]
  dsimp only
  rw [overlapLoopB_eq, zero_add, zero_add]

theorem toNat_minCount (b : BankProfile) (e : BankProfileEntry) :
    (minCount b e).toNat = min e.pageCount.toNat (b.pages e.bankClass) :=
  toNat_minimum _ _

theorem toNat_maxCount (b : BankProfile) (e : BankProfileEntry) :
    (maxCount b e).toNat = max e.pageCount.toNat (b.pages e.bankClass) :=
  toNat_maximum _ _

theorem toNat_leftover (a : BankProfile) (e : BankProfileEntry) :
    (leftover a e).toNat = if e.bankClass ∈ a.classes then 0 else e.pageCount.toNat := by
  rw [leftover]
  split <;> rfl

/-! ## Sums over classes -/

section Sums

variable {a b : BankProfile} {S : Finset UInt64}

theorem total_eq_sum (ha : a.DistinctClasses) (hS : a.classes ⊆ S) :
    a.total = ∑ c ∈ S, a.pages c := by
  simp only [BankProfile.pages_eq]
  exact sum_entries ha (fun _ n => n) (fun _ => rfl)
    fun e he => hS (BankProfile.mem_classes.2 (List.mem_map_of_mem he))

/-- The smaller counts sum up to the intersection. -/
theorem sum_minCount (ha : a.DistinctClasses) (b : BankProfile) (hS : a.classes ⊆ S) :
    (a.entries.map fun e => (minCount b e).toNat).sum = ∑ c ∈ S, min (a.pages c) (b.pages c) := by
  simp only [toNat_minCount, BankProfile.pages_eq a]
  exact sum_entries ha (fun c n => min n (b.pages c)) (fun _ => Nat.zero_min _)
    fun e he => hS (BankProfile.mem_classes.2 (List.mem_map_of_mem he))

/-- The pages that the second profile has in classes of the first, and the rest of its
    pages. -/
theorem sum_leftover (ha : a.DistinctClasses) (hb : b.DistinctClasses) :
    (a.entries.map fun e => b.pages e.bankClass).sum +
      (b.entries.map fun e => (leftover a e).toNat).sum = b.total := by
  have hfirst : (a.entries.map fun e => b.pages e.bankClass).sum =
      ∑ c ∈ a.classes, b.pages c := by
    rw [BankProfile.classes, List.sum_toFinset _ ha, List.map_map]
    rfl
  have hrest : (b.entries.map fun e => (leftover a e).toNat).sum =
      ∑ c ∈ a.classes ∪ b.classes, if c ∈ a.classes then 0 else b.pages c := by
    simp only [toNat_leftover, BankProfile.pages_eq b]
    exact sum_entries hb (fun c n => if c ∈ a.classes then 0 else n) (fun c => by simp)
      fun e he => Finset.mem_union_right _ (BankProfile.mem_classes.2 (List.mem_map_of_mem he))
  have hin : ∑ c ∈ a.classes, b.pages c =
      ∑ c ∈ a.classes ∪ b.classes, if c ∈ a.classes then b.pages c else 0 := by
    rw [← Finset.sum_filter, Finset.filter_mem_eq_inter, Finset.union_inter_cancel_left]
  rw [hfirst, hrest, hin, total_eq_sum hb Finset.subset_union_right, ← Finset.sum_add_distrib]
  refine Finset.sum_congr rfl fun c _ => ?_
  split <;> simp

/-- The larger counts and what is left over sum up to the union. -/
theorem sum_maxCount (ha : a.DistinctClasses) (hb : b.DistinctClasses) :
    (a.entries.map fun e => (maxCount b e).toNat).sum +
      (b.entries.map fun e => (leftover a e).toNat).sum =
    ∑ c ∈ a.classes ∪ b.classes, max (a.pages c) (b.pages c) := by
  -- `min + max = +` over the entries of `a`, and over the classes
  have hentries : (a.entries.map fun e => (minCount b e).toNat).sum +
      (a.entries.map fun e => (maxCount b e).toNat).sum =
      a.total + (a.entries.map fun e => b.pages e.bankClass).sum := by
    rw [BankProfile.total, ← List.sum_map_add, ← List.sum_map_add]
    congr 2
    funext e
    rw [toNat_minCount, toNat_maxCount, min_add_max]
  have hclasses : ∑ c ∈ a.classes ∪ b.classes, min (a.pages c) (b.pages c) +
      ∑ c ∈ a.classes ∪ b.classes, max (a.pages c) (b.pages c) = a.total + b.total := by
    rw [← Finset.sum_add_distrib, total_eq_sum ha Finset.subset_union_left,
      total_eq_sum hb Finset.subset_union_right, ← Finset.sum_add_distrib]
    exact Finset.sum_congr rfl fun c _ => min_add_max _ _
  have hmin := sum_minCount ha b (S := a.classes ∪ b.classes) Finset.subset_union_left
  have hrest := sum_leftover ha hb
  omega

/-- A sum over all the classes has the terms of those of the two profiles only. -/
theorem finsum_classes (a b : BankProfile) (f : ℕ → ℕ → ℕ) (hf : f 0 0 = 0) :
    ∑ᶠ c, f (a.pages c) (b.pages c) = ∑ c ∈ a.classes ∪ b.classes, f (a.pages c) (b.pages c) := by
  refine finsum_eq_sum_of_support_subset _ fun c hc => ?_
  by_contra hmem
  rw [Finset.mem_coe, Finset.mem_union, not_or] at hmem
  refine hc ?_
  dsimp only
  rw [BankProfile.pages_of_notMem hmem.1, BankProfile.pages_of_notMem hmem.2, hf]

/-! ## The intersection and the union -/

/-- The intersection is the sum of the minima. -/
theorem intersection_eq (ha : a.DistinctClasses) (hsum : a.total + b.total < 2 ^ 64) :
    (overlapCounts a b).1.toNat = ∑ c ∈ a.classes ∪ b.classes, min (a.pages c) (b.pages c) := by
  have hmin := sum_minCount ha b (S := a.classes ∪ b.classes) Finset.subset_union_left
  have hle : ∑ c ∈ a.classes ∪ b.classes, min (a.pages c) (b.pages c) ≤ a.total := by
    rw [total_eq_sum ha Finset.subset_union_left]
    exact Finset.sum_le_sum fun c _ => min_le_left _ _
  rw [overlapCounts_eq]
  refine (toNat_sum ?_).trans ?_
  · rw [List.map_map]
    exact lt_of_le_of_lt (hmin.le.trans hle) (by omega)
  · rw [List.map_map]
    exact hmin

/-- The union is the sum of the maxima. -/
theorem union_eq (ha : a.DistinctClasses) (hb : b.DistinctClasses)
    (hsum : a.total + b.total < 2 ^ 64) :
    (overlapCounts a b).2.toNat = ∑ c ∈ a.classes ∪ b.classes, max (a.pages c) (b.pages c) := by
  have hmax := sum_maxCount ha hb
  have hle : ∑ c ∈ a.classes ∪ b.classes, max (a.pages c) (b.pages c) ≤ a.total + b.total := by
    rw [total_eq_sum ha Finset.subset_union_left, total_eq_sum hb Finset.subset_union_right,
      ← Finset.sum_add_distrib]
    exact Finset.sum_le_sum fun c _ => max_le_add_of_nonneg (Nat.zero_le _) (Nat.zero_le _)
  have hlist : ((a.entries.map (maxCount b) ++ b.entries.map (leftover a)).map
      UInt64.toNat).sum = ∑ c ∈ a.classes ∪ b.classes, max (a.pages c) (b.pages c) := by
    rw [List.map_append, List.sum_append, List.map_map, List.map_map]
    exact hmax
  rw [overlapCounts_eq]
  exact (toNat_sum (hlist ▸ lt_of_le_of_lt hle hsum)).trans hlist

end Sums

/-! ## The score -/

/-- What `bank_profile_overlap_score` computes of two profiles. -/
structure OverlapSpec (a b : BankProfile) : Prop where
  /-- The intersection is the sum over all classes of the smaller counts. -/
  intersection : (overlapCounts a b).1.toNat = ∑ᶠ c, min (a.pages c) (b.pages c)
  /-- The union is the sum over all classes of the larger counts. -/
  union : (overlapCounts a b).2.toNat = ∑ᶠ c, max (a.pages c) (b.pages c)
  /-- Together they are all the pages. -/
  total : (overlapCounts a b).1.toNat + (overlapCounts a b).2.toNat = a.total + b.total
  /-- They do not depend on the order of the profiles. -/
  symm : overlapCounts a b = overlapCounts b a
  /-- The call fails iff neither profile has pages, for want of samples. -/
  error_iff : ∀ rc, bankProfileOverlapScore a b = .error rc ↔
    rc = .errNoSamples ∧ a.total = 0 ∧ b.total = 0
  /-- The score is the quotient of the two, between `0` and `1`. -/
  score : ∀ score common, bankProfileOverlapScore a b = .ok (score, common) →
    common = (overlapCounts a b).1 ∧
    score = ((overlapCounts a b).1.toNat : ℚ) / (overlapCounts a b).2.toNat ∧
    0 ≤ score ∧ score ≤ 1 ∧
    (score = 1 ↔ ∀ c, a.pages c = b.pages c) ∧
    (score = 0 ↔ ∀ c, a.pages c = 0 ∨ b.pages c = 0)

section Score

variable {a b : BankProfile}

theorem overlapCounts_symm (ha : a.DistinctClasses) (hb : b.DistinctClasses)
    (hsum : a.total + b.total < 2 ^ 64) : overlapCounts a b = overlapCounts b a := by
  have hsum' : b.total + a.total < 2 ^ 64 := by omega
  refine Prod.ext (UInt64.toNat_inj.1 ?_) (UInt64.toNat_inj.1 ?_)
  · rw [intersection_eq ha hsum, intersection_eq hb hsum', Finset.union_comm]
    exact Finset.sum_congr rfl fun c _ => min_comm _ _
  · rw [union_eq ha hb hsum, union_eq hb ha hsum', Finset.union_comm]
    exact Finset.sum_congr rfl fun c _ => max_comm _ _

/-- The minima and the maxima have the same sum iff the counts are the same. -/
theorem min_sum_eq_max_sum_iff : ∑ c ∈ a.classes ∪ b.classes, min (a.pages c) (b.pages c) =
      ∑ c ∈ a.classes ∪ b.classes, max (a.pages c) (b.pages c) ↔
    ∀ c, a.pages c = b.pages c := by
  rw [Finset.sum_eq_sum_iff_of_le fun c _ => min_le_max]
  refine ⟨fun h c => ?_, fun h c _ => by rw [h c, min_self, max_self]⟩
  by_cases hc : c ∈ a.classes ∪ b.classes
  · exact le_antisymm (max_le_iff.1 (h c hc).ge |>.1 |>.trans (min_le_right _ _))
      (max_le_iff.1 (h c hc).ge |>.2 |>.trans (min_le_left _ _))
  · rw [Finset.mem_union, not_or] at hc
    rw [BankProfile.pages_of_notMem hc.1, BankProfile.pages_of_notMem hc.2]

/-- The minima sum to zero iff no class has pages in both profiles. -/
theorem min_sum_eq_zero_iff : ∑ c ∈ a.classes ∪ b.classes, min (a.pages c) (b.pages c) = 0 ↔
    ∀ c, a.pages c = 0 ∨ b.pages c = 0 := by
  rw [Finset.sum_eq_zero_iff]
  refine ⟨fun h c => ?_, fun h c _ => ?_⟩
  · by_cases hc : c ∈ a.classes ∪ b.classes
    · exact Nat.min_eq_zero_iff.1 (h c hc)
    · rw [Finset.mem_union, not_or] at hc
      exact .inl (BankProfile.pages_of_notMem hc.1)
  · exact Nat.min_eq_zero_iff.2 (h c)

/-- The score of two profiles with distinct classes is their weighted Jaccard index. -/
theorem overlap_is_weighted_jaccard (ha : a.DistinctClasses) (hb : b.DistinctClasses)
    (hane : a.entries ≠ []) (hbne : b.entries ≠ []) (hsum : a.total + b.total < 2 ^ 64) :
    OverlapSpec a b := by
  have hinter := intersection_eq ha hsum
  have hunion := union_eq ha hb hsum
  have htotal : (overlapCounts a b).1.toNat + (overlapCounts a b).2.toNat =
      a.total + b.total := by
    rw [hinter, hunion, ← Finset.sum_add_distrib, total_eq_sum ha Finset.subset_union_left,
      total_eq_sum hb Finset.subset_union_right, ← Finset.sum_add_distrib]
    exact Finset.sum_congr rfl fun c _ => min_add_max _ _
  have hle : (overlapCounts a b).1.toNat ≤ (overlapCounts a b).2.toNat := by
    rw [hinter, hunion]
    exact Finset.sum_le_sum fun c _ => min_le_max
  have hzero : (overlapCounts a b).2 = 0 ↔ a.total = 0 ∧ b.total = 0 := by
    rw [← UInt64.toNat_inj, show (0 : UInt64).toNat = 0 from rfl]
    omega
  have hscore : bankProfileOverlapScore a b =
      if (overlapCounts a b).2 = 0 then .error .errNoSamples
      else .ok (((overlapCounts a b).1.toNat : ℚ) / (overlapCounts a b).2.toNat,
        (overlapCounts a b).1) := by
    rw [bankProfileOverlapScore, if_neg]
    rw [List.length_eq_zero_iff, List.length_eq_zero_iff, not_or]
    exact ⟨hane, hbne⟩
  refine ⟨?_, ?_, htotal, overlapCounts_symm ha hb hsum, fun rc => ?_, fun score common hok => ?_⟩
  · rw [hinter, finsum_classes a b min rfl]
  · rw [hunion, finsum_classes a b max rfl]
  · rw [hscore, ← hzero]
    split
    case isTrue h => exact ⟨fun heq => ⟨(Except.error.inj heq).symm, h⟩, fun heq => by rw [heq.1]⟩
    case isFalse h => exact ⟨nofun, fun heq => absurd heq.2 h⟩
  · rw [hscore] at hok
    split at hok
    case isTrue => cases hok
    case isFalse h =>
      cases hok
      have hpos : (0 : ℚ) < (overlapCounts a b).2.toNat := by
        rw [← UInt64.toNat_inj, show (0 : UInt64).toNat = 0 from rfl] at h
        exact_mod_cast Nat.pos_of_ne_zero h
      refine ⟨rfl, rfl, by positivity, ?_, ?_, ?_⟩
      · rw [div_le_one hpos]
        exact_mod_cast hle
      · rw [div_eq_one_iff_eq hpos.ne', Nat.cast_inj, hinter, hunion]
        exact min_sum_eq_max_sum_iff
      · rw [div_eq_zero_iff, or_iff_left hpos.ne', Nat.cast_eq_zero, hinter]
        exact min_sum_eq_zero_iff

/-- Profiles with three and two pages in a common class, and one page that is not
    shared. -/
theorem overlap_is_weighted_jaccard_two :
    let a : BankProfile := { bankProfileReset with entries := [⟨0, 3, 12288⟩, ⟨1, 1, 4096⟩] }
    let b : BankProfile := { bankProfileReset with entries := [⟨0, 2, 8192⟩] }
    OverlapSpec a b ∧ bankProfileOverlapScore a b = .ok (1 / 2, 2) := by
  intro a b
  have hok : bankProfileOverlapScore a b = .ok (1 / 2, 2) := by decide +kernel
  exact ⟨overlap_is_weighted_jaccard (by decide +kernel) (by decide +kernel)
    (List.cons_ne_nil _ _) (List.cons_ne_nil _ _) (by decide +kernel), hok⟩

end Score

end CgroupResearch
