import Mathlib.Algebra.BigOperators.Group.List.Basic
import Mathlib.Algebra.BigOperators.Group.Finset.Basic
import Mathlib.Data.UInt
import Mathlib.Tactic

/-!
# Histograms

A histogram kept as a list of entries, each with a key: the value of a key is that of
its first entry, and nothing (`0`) if it has none (`valueAt`). Entries are accumulated
into the list: an entry is merged with the one of its key, or else appended
(`accumulate`).

* `valueAt_accumulate`: accumulating adds to the value of one key;
* `valueAt_accumulateAll`: accumulating the entries of a histogram adds their values;
* `accumulateAll_cons`: what the first entry of a list takes of the others;
* `mem_keys_accumulate`, `Distinct.accumulate`: the keys of the list, which stay distinct;
* `perm_of_valueAt_eq`: the values say what the entries are, but for their order;
* `sum_entries`: with distinct keys, a sum over the entries is a sum over the keys, in
  whatever order the entries come.

A histogram of small numbers is also kept as an array of counters, one for each number
(`increment`).

* `foldl_increment`: after counting a list, the counters are those of the list.
-/

namespace Histogram

variable {K E M N : Type*} [DecidableEq K] (key : E → K)

/-- The entry of a key. -/
def entry (l : List E) (k : K) : Option E := l.find? fun e => key e = k

/-- The value of a key, zero if it has no entry. -/
def valueAt [Zero M] (val : E → M) (l : List E) (k : K) : M := ((entry key l k).map val).getD 0

/-- The keys of the entries are distinct. -/
def Distinct (l : List E) : Prop := (l.map key).Nodup

/-- The list with an entry merged with that of its key, or appended. -/
def accumulate (merge : E → E → E) (e : E) : List E → List E
  | [] => [e]
  | x :: xs => if key x = key e then merge x e :: xs else x :: accumulate merge e xs

/-- The list with the entries of another accumulated, in their order. -/
def accumulateAll (merge : E → E → E) (es l : List E) : List E :=
  es.foldl (fun l e => accumulate key merge e l) l

variable {key}

/-! ## Values -/

section Values

variable [Zero M] (val : E → M)

@[simp] theorem valueAt_nil (k : K) : valueAt key val [] k = 0 := rfl

theorem valueAt_cons (e : E) (l : List E) (k : K) :
    valueAt key val (e :: l) k = if key e = k then val e else valueAt key val l k := by
  rw [valueAt, entry, List.find?_cons]
  by_cases h : key e = k
  · simp [h]
  · simp [h, valueAt, entry]

variable {val}

/-- A key without an entry. -/
theorem valueAt_of_notMem {l : List E} {k : K} (h : k ∉ l.map key) : valueAt key val l k = 0 := by
  induction l with
  | nil => rfl
  | cons e l ih =>
    rw [List.map_cons, List.mem_cons, not_or] at h
    rw [valueAt_cons, if_neg (Ne.symm h.1), ih h.2]

/-- With distinct keys, every entry gives the value of its key. -/
theorem valueAt_of_mem {l : List E} (hl : Distinct key l) {e : E} (he : e ∈ l) :
    valueAt key val l (key e) = val e := by
  induction l with
  | nil => exact absurd he List.not_mem_nil
  | cons x l ih =>
    rw [Distinct, List.map_cons, List.nodup_cons] at hl
    rw [valueAt_cons]
    rcases List.mem_cons.1 he with rfl | he
    · rw [if_pos rfl]
    · have hne : key x ≠ key e := fun h => hl.1 (h ▸ List.mem_map_of_mem he)
      rw [if_neg hne, ih hl.2 he]

end Values

/-! ## Accumulating -/

section Accumulate

variable {merge : E → E → E} (hkey : ∀ x e, key (merge x e) = key x)
include hkey

/-- A new key goes to the end, and an old one stays where it is. -/
theorem keys_accumulate (e : E) (l : List E) : (accumulate key merge e l).map key =
    if key e ∈ l.map key then l.map key else l.map key ++ [key e] := by
  induction l with
  | nil => rfl
  | cons x l ih =>
    rw [accumulate]
    by_cases h : key x = key e
    · simp [h, hkey]
    · rw [if_neg h, List.map_cons, ih]
      have hiff : key e ∈ (x :: l).map key ↔ key e ∈ l.map key := by
        rw [List.map_cons, List.mem_cons, or_iff_right (Ne.symm h)]
      by_cases hmem : key e ∈ l.map key
      · rw [if_pos hmem, if_pos (hiff.2 hmem), List.map_cons]
      · rw [if_neg hmem, if_neg (mt hiff.1 hmem), List.map_cons, List.cons_append]

/-- The keys are the old ones and the new one. -/
theorem mem_keys_accumulate {e : E} {l : List E} {k : K} :
    k ∈ (accumulate key merge e l).map key ↔ k = key e ∨ k ∈ l.map key := by
  rw [keys_accumulate hkey]
  split
  case isTrue h => exact ⟨.inr, fun hk => hk.elim (fun heq => heq ▸ h) id⟩
  case isFalse => rw [List.mem_append, List.mem_singleton, or_comm]

/-- Each key stays there once. -/
theorem Distinct.accumulate {l : List E} (hl : Distinct key l) (e : E) :
    Distinct key (Histogram.accumulate key merge e l) := by
  rw [Distinct, keys_accumulate hkey]
  split
  case isTrue => exact hl
  case isFalse h =>
    rw [List.nodup_append]
    refine ⟨hl, List.nodup_singleton _, fun k hk k' hk' heq => ?_⟩
    rw [List.mem_singleton] at hk'
    exact h (hk' ▸ heq ▸ hk)

/-- Accumulating an entry adds its value to that of its key. -/
theorem valueAt_accumulate [AddCommMonoid M] {val : E → M}
    (hval : ∀ x e, val (merge x e) = val x + val e) (e : E) (l : List E) (k : K) :
    valueAt key val (accumulate key merge e l) k =
      valueAt key val l k + if key e = k then val e else 0 := by
  induction l with
  | nil => rw [accumulate, valueAt_cons, valueAt_nil, zero_add]
  | cons x l ih =>
    rw [accumulate]
    by_cases hx : key x = key e
    · rw [if_pos hx, valueAt_cons, valueAt_cons, hkey, hval, ← hx]
      split <;> simp
    · rw [if_neg hx, valueAt_cons, valueAt_cons, ih]
      split
      case isTrue hk => rw [if_neg (fun h => hx (hk.trans h.symm)), add_zero]
      case isFalse => rfl

/-- The first entry takes all the entries of its key, in their order. -/
theorem accumulateAll_cons (es : List E) (x : E) (l : List E) :
    accumulateAll key merge es (x :: l) =
      (es.filter fun e => key e = key x).foldl merge x ::
        accumulateAll key merge (es.filter fun e => key e ≠ key x) l := by
  induction es generalizing x l with
  | nil => rfl
  | cons e es ih =>
    rw [accumulateAll, List.foldl_cons, ← accumulateAll, accumulate]
    by_cases h : key x = key e
    · rw [if_pos h, ih, hkey, List.filter_cons_of_pos (by simpa using h.symm),
        List.filter_cons_of_neg (by simpa using h.symm), List.foldl_cons]
    · rw [if_neg h, ih, List.filter_cons_of_neg (by simpa using Ne.symm h),
        List.filter_cons_of_pos (by simpa using Ne.symm h)]
      rfl

theorem mem_keys_accumulateAll {es l : List E} {k : K} :
    k ∈ (accumulateAll key merge es l).map key ↔ k ∈ es.map key ∨ k ∈ l.map key := by
  induction es generalizing l with
  | nil => simp [accumulateAll]
  | cons e es ih =>
    rw [accumulateAll, List.foldl_cons, ← accumulateAll, ih, mem_keys_accumulate hkey,
      List.map_cons, List.mem_cons]
    tauto

theorem Distinct.accumulateAll {l : List E} (hl : Distinct key l) (es : List E) :
    Distinct key (Histogram.accumulateAll key merge es l) := by
  induction es generalizing l with
  | nil => exact hl
  | cons e es ih => exact ih (hl.accumulate hkey e)

/-- Accumulating a histogram adds its values. -/
theorem valueAt_accumulateAll [AddCommMonoid M] {val : E → M}
    (hval : ∀ x e, val (merge x e) = val x + val e) {es : List E} (hes : Distinct key es)
    (l : List E) (k : K) :
    valueAt key val (accumulateAll key merge es l) k =
      valueAt key val l k + valueAt key val es k := by
  induction es generalizing l with
  | nil => exact (add_zero _).symm
  | cons e es ih =>
    rw [Distinct, List.map_cons, List.nodup_cons] at hes
    rw [accumulateAll, List.foldl_cons, ← accumulateAll, ih hes.2,
      valueAt_accumulate hkey hval, valueAt_cons, add_assoc]
    split
    case isTrue hk =>
      have hnone : valueAt key val es k = 0 := valueAt_of_notMem (hk ▸ hes.1)
      rw [hnone, add_zero]
    case isFalse => rw [zero_add]

/-- Accumulating entries one by one adds what those of a key add up to. -/
theorem valueAt_accumulateAll_eq_sum [AddCommMonoid M] {val : E → M}
    (hval : ∀ x e, val (merge x e) = val x + val e) (es l : List E) (k : K) :
    valueAt key val (accumulateAll key merge es l) k =
      valueAt key val l k + ((es.filter fun e => key e = k).map val).sum := by
  induction es generalizing l with
  | nil => simp [accumulateAll]
  | cons e es ih =>
    have hstep : accumulateAll key merge (e :: es) l =
        accumulateAll key merge es (Histogram.accumulate key merge e l) := rfl
    rw [hstep, ih, valueAt_accumulate hkey hval]
    by_cases hk : key e = k
    · rw [if_pos hk, List.filter_cons_of_pos (by simpa using hk), List.map_cons, List.sum_cons,
        add_assoc]
    · rw [if_neg hk, List.filter_cons_of_neg (by simpa using hk), add_zero]

end Accumulate

/-! ## Entries -/

/-- Two histograms with the same values have the same entries, in some order. -/
theorem perm_of_valueAt_eq [Zero M] {val : E → M} {l l' : List E} (hl : Distinct key l)
    (hl' : Distinct key l') (hne : ∀ e ∈ l, val e ≠ 0) (hne' : ∀ e ∈ l', val e ≠ 0)
    (h : ∀ k, valueAt key val l k = valueAt key val l' k) :
    (l.map fun e => (key e, val e)).Perm (l'.map fun e => (key e, val e)) := by
  have hnodup : ∀ l : List E, Distinct key l → (l.map fun e => (key e, val e)).Nodup := by
    intro l hl
    refine List.Nodup.of_map Prod.fst ?_
    rwa [List.map_map]
  -- the entries are the keys that have a value, with it
  have hmem : ∀ l : List E, Distinct key l → (∀ e ∈ l, val e ≠ 0) → ∀ k v,
      (k, v) ∈ l.map (fun e => (key e, val e)) ↔ v ≠ 0 ∧ valueAt key val l k = v := by
    intro l hl hne k v
    constructor
    · intro hkv
      obtain ⟨e, he, heq⟩ := List.mem_map.1 hkv
      cases heq
      exact ⟨hne e he, valueAt_of_mem hl he⟩
    · rintro ⟨hv, rfl⟩
      by_cases hk : k ∈ l.map key
      · obtain ⟨e, he, rfl⟩ := List.mem_map.1 hk
        exact List.mem_map.2 ⟨e, he, by rw [valueAt_of_mem hl he]⟩
      · exact absurd (valueAt_of_notMem hk) hv
  rw [List.perm_ext_iff_of_nodup (hnodup l hl) (hnodup l' hl')]
  rintro ⟨k, v⟩
  rw [hmem l hl hne, hmem l' hl' hne', h k]

/-! ## Sums -/

section Sums

variable [Zero M] [AddCommMonoid N] {val : E → M}

/-- With distinct keys, a sum over the entries is a sum over the keys. -/
theorem sum_entries {l : List E} (hl : Distinct key l) (f : K → M → N) (hf : ∀ k, f k 0 = 0)
    {S : Finset K} (hS : ∀ e ∈ l, key e ∈ S) :
    (l.map fun e => f (key e) (val e)).sum = ∑ k ∈ S, f k (valueAt key val l k) := by
  induction l with
  | nil => simp [hf]
  | cons x l ih =>
    rw [Distinct, List.map_cons, List.nodup_cons] at hl
    rw [List.map_cons, List.sum_cons, ih hl.2 fun e he => hS e (List.mem_cons_of_mem x he)]
    have hx : key x ∈ S := hS x List.mem_cons_self
    -- the key of the first entry has no other entry
    rw [← Finset.add_sum_erase S _ hx, ← Finset.add_sum_erase S _ hx, valueAt_cons, if_pos rfl,
      valueAt_of_notMem hl.1, hf, zero_add]
    congr 1
    refine Finset.sum_congr rfl fun k hk => ?_
    rw [valueAt_cons, if_neg (Ne.symm (Finset.ne_of_mem_erase hk))]

end Sums

/-! ## Counters -/

section Counters

open scoped UInt64.CommRing

/-- The counters, with that of a number incremented. -/
def increment (counts : List UInt64) (c : ℕ) : List UInt64 := counts.modify c (· + 1)

/-- One count of a table of counts increases. -/
theorem increment_map_range (n : ℕ) (f : ℕ → UInt64) (c : ℕ) :
    increment ((List.range n).map f) c =
      (List.range n).map fun k => f k + if c = k then 1 else 0 := by
  refine List.ext_getElem (by simp [increment]) fun k hk _ => ?_
  simp only [increment, List.getElem_modify, List.getElem_map, List.getElem_range]
  split <;> simp

/-- Counting the numbers of a list, one after the other. -/
theorem foldl_increment (n : ℕ) (l : List ℕ) : l.foldl increment (List.replicate n 0) =
    (List.range n).map fun c => UInt64.ofNat (l.count c) := by
  have hgen : ∀ (l : List ℕ) (f : ℕ → UInt64), l.foldl increment ((List.range n).map f) =
      (List.range n).map fun c => f c + UInt64.ofNat (l.count c) := by
    intro l
    induction l with
    | nil => simp
    | cons x l ih =>
      intro f
      rw [List.foldl_cons, increment_map_range, ih]
      refine List.map_congr_left fun c _ => ?_
      rw [List.count_cons, UInt64.ofNat_add, add_assoc, add_comm (UInt64.ofNat (l.count c))]
      by_cases h : x = c
      · simp [h]
      · simp [h]
  have hzero : List.replicate n (0 : UInt64) = (List.range n).map fun _ => 0 := by simp
  rw [hzero, hgen]
  simp only [zero_add]

/-- A sum of words is that of their values, if it fits in a word. -/
theorem toNat_sum {l : List UInt64} (h : (l.map UInt64.toNat).sum < 2 ^ 64) :
    l.sum.toNat = (l.map UInt64.toNat).sum := by
  have hmod : ∀ l : List UInt64, l.sum.toNat = (l.map UInt64.toNat).sum % 2 ^ 64 := by
    intro l
    induction l with
    | nil => rfl
    | cons x l ih =>
      rw [List.sum_cons, List.map_cons, List.sum_cons, UInt64.toNat_add, ih, Nat.add_mod_mod]
  rw [hmod, Nat.mod_eq_of_lt h]

/-- The smaller of two words. -/
theorem toNat_minimum (x y : UInt64) : (if x < y then x else y).toNat = min x.toNat y.toNat := by
  split
  case isTrue h => exact (min_eq_left (UInt64.lt_iff_toNat_lt.1 h).le).symm
  case isFalse h =>
    rw [UInt64.not_lt, UInt64.le_iff_toNat_le] at h
    exact (min_eq_right h).symm

/-- The larger of two words. -/
theorem toNat_maximum (x y : UInt64) : (if y < x then x else y).toNat = max x.toNat y.toNat := by
  split
  case isTrue h => exact (max_eq_left (UInt64.lt_iff_toNat_lt.1 h).le).symm
  case isFalse h =>
    rw [UInt64.not_lt, UInt64.le_iff_toNat_le] at h
    exact (max_eq_right h).symm

end Counters

end Histogram
