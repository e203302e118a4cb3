import CgroupResearch.Lib.PointerMemory
import Mathlib.Data.List.Iterate
import Mathlib.Data.List.Perm.Basic

/-!
# Walks along cycles

Where the steps of a walk along a cycle come to. It goes around the places again and again, and so
comes to each of them as often as to any other, or once more (`IsCycle.iterate_eq`). Several walks
may take their steps in turn (`takeTurns`): each goes around its own cycle, and they come to the
places of a short cycle more often than to those of a long one.

* `IsCycle.le_countP_iterate`, `IsCycle.countP_iterate_le`: how often a walk comes to the places
  with a property;
* `le_countP_takeTurns`, `countP_takeTurns_le`: how often several walks do.
-/

namespace PointerMemory

variable {α : Type*} {next : α → α}

/-! ## One walk -/

namespace IsCycle

variable {root : α} {places : List α} (h : IsCycle next root places)
include h

/-- The first time around. -/
theorem iterate_eq_take {n : ℕ} (hn : n ≤ places.length) :
    List.iterate next root n = places.take n := by
  refine List.ext_getElem? fun k => ?_
  rcases Nat.lt_or_ge k n with hk | hk
  · rw [List.getElem?_iterate next root n k hk, List.getElem?_take_of_lt hk, h.visits k (by omega)]
  · rw [List.getElem?_eq_none (by simpa using hk), List.getElem?_eq_none (by simp [hk])]

/-- A walk goes around the places again and again. -/
theorem iterate_eq (hne : places ≠ []) (n : ℕ) :
    List.iterate next root n =
      (List.replicate (n / places.length) places).flatten ++ places.take (n % places.length) := by
  have hpos := List.length_pos_iff.2 hne
  induction n using Nat.strong_induction_on with
  | _ n ih =>
    rcases Nat.lt_or_ge n places.length with hlt | hge
    · rw [Nat.div_eq_of_lt hlt, Nat.mod_eq_of_lt hlt, h.iterate_eq_take hlt.le]
      rfl
    · obtain ⟨m, rfl⟩ := Nat.exists_eq_add_of_le hge
      -- once around, and the rest from the same place
      rw [List.iterate_add, h.returns, ih m (by omega), h.iterate_eq_take le_rfl, List.take_length,
        Nat.add_div_left m hpos, Nat.add_mod_left, List.replicate_succ, List.flatten_cons,
        List.append_assoc]

/-- The walk does not leave the places. -/
theorem mem_of_mem_iterate (hne : places ≠ []) {n : ℕ} {x : α}
    (hx : x ∈ List.iterate next root n) : x ∈ places := by
  rw [h.iterate_eq hne, List.mem_append] at hx
  rcases hx with hx | hx
  · obtain ⟨l, hl, hx⟩ := List.mem_flatten.1 hx
    rwa [← List.eq_of_mem_replicate hl]
  · exact List.mem_of_mem_take hx

/-- The walk goes round: each place is passed once a turn. -/
theorem countP_iterate (hne : places ≠ []) (p : α → Bool) (n : ℕ) :
    (List.iterate next root n).countP p =
      n / places.length * places.countP p + (places.take (n % places.length)).countP p := by
  rw [h.iterate_eq hne, List.countP_append, List.countP_flatten, List.map_replicate,
    List.sum_replicate, smul_eq_mul]

theorem le_countP_iterate (hne : places ≠ []) (p : α → Bool) (n : ℕ) :
    n / places.length * places.countP p ≤ (List.iterate next root n).countP p := by
  rw [h.countP_iterate hne]
  exact Nat.le_add_right _ _

theorem countP_iterate_le (hne : places ≠ []) (p : α → Bool) (n : ℕ) :
    (List.iterate next root n).countP p ≤ (n / places.length + 1) * places.countP p := by
  rw [h.countP_iterate hne, Nat.add_mul, Nat.one_mul]
  exact Nat.add_le_add_left (List.take_sublist _ _).countP_le _

end IsCycle

/-! ## Several walks -/

/-- Where several walks come to, which take their steps in turn. -/
def takeTurns (next : α → α) : ℕ → List α → List α
  | 0, _ => []
  | n + 1, pointers => pointers ++ takeTurns next n (pointers.map next)

/-- Turns are taken one after the other. -/
theorem takeTurns_add (m n : ℕ) (pointers : List α) :
    takeTurns next (m + n) pointers =
      takeTurns next m pointers ++ takeTurns next n (pointers.map next^[m]) := by
  induction m generalizing pointers with
  | zero => simp [takeTurns]
  | succ m ih =>
    rw [Nat.succ_add, takeTurns, ih, takeTurns, List.append_assoc, List.map_map]
    rfl

theorem length_takeTurns (n : ℕ) (pointers : List α) :
    (takeTurns next n pointers).length = n * pointers.length := by
  induction n generalizing pointers with
  | zero => simp [takeTurns]
  | succ n ih =>
    rw [takeTurns, List.length_append, ih, List.length_map, Nat.succ_mul, Nat.add_comm]

/-- The walks one after the other. -/
theorem takeTurns_perm (n : ℕ) (pointers : List α) :
    (takeTurns next n pointers).Perm (pointers.flatMap fun p => List.iterate next p n) := by
  induction n generalizing pointers with
  | zero => simp [takeTurns, List.iterate]
  | succ n ih =>
    have hsplit := List.flatMap_append_perm pointers (fun p => [p])
      fun p => List.iterate next (next p) n
    rw [List.flatMap_singleton'] at hsplit
    rw [takeTurns]
    refine ((ih (pointers.map next)).append_left pointers).trans ?_
    rw [List.flatMap_map]
    exact hsplit

section Chains

variable {ι : Type*} {chains : List ι} {root : ι → α} {places : ι → List α}
  (h : ∀ i ∈ chains, IsCycle next (root i) (places i)) (hne : ∀ i ∈ chains, places i ≠ [])
include h hne

/-- The walks do not leave their chains. -/
theorem mem_of_mem_takeTurns {n : ℕ} {x : α} (hx : x ∈ takeTurns next n (chains.map root)) :
    x ∈ chains.flatMap places := by
  rw [(takeTurns_perm n _).mem_iff, List.flatMap_map, List.mem_flatMap] at hx
  obtain ⟨i, hi, hx⟩ := hx
  exact List.mem_flatMap.2 ⟨i, hi, (h i hi).mem_of_mem_iterate (hne i hi) hx⟩

/-- If no cycle is longer than `hi`. -/
theorem le_countP_takeTurns {hi : ℕ} (hlen : ∀ i ∈ chains, (places i).length ≤ hi)
    (p : α → Bool) (n : ℕ) :
    n / hi * (chains.flatMap places).countP p ≤
      (takeTurns next n (chains.map root)).countP p := by
  rw [(takeTurns_perm n _).countP_eq, List.flatMap_map, List.countP_flatMap, List.countP_flatMap,
    ← List.sum_map_mul_left]
  refine List.sum_le_sum fun i hmem => ?_
  have hpos := List.length_pos_iff.2 (hne i hmem)
  calc n / hi * (places i).countP p
      ≤ n / (places i).length * (places i).countP p :=
        Nat.mul_le_mul_right _ (Nat.div_le_div_left (hlen i hmem) hpos)
    _ ≤ _ := (h i hmem).le_countP_iterate (hne i hmem) p n

/-- If no cycle is shorter than `lo`. -/
theorem countP_takeTurns_le {lo : ℕ} (hlo : 0 < lo) (hlen : ∀ i ∈ chains, lo ≤ (places i).length)
    (p : α → Bool) (n : ℕ) :
    (takeTurns next n (chains.map root)).countP p ≤
      (n / lo + 1) * (chains.flatMap places).countP p := by
  rw [(takeTurns_perm n _).countP_eq, List.flatMap_map, List.countP_flatMap, List.countP_flatMap,
    ← List.sum_map_mul_left]
  refine List.sum_le_sum fun i hmem => ?_
  calc (List.iterate next (root i) n).countP p
      ≤ (n / (places i).length + 1) * (places i).countP p :=
        (h i hmem).countP_iterate_le (hne i hmem) p n
    _ ≤ (n / lo + 1) * (places i).countP p :=
        Nat.mul_le_mul_right _ (Nat.add_le_add_right (Nat.div_le_div_left (hlen i hmem) hlo) 1)

end Chains

end PointerMemory
