import Mathlib.Algebra.Order.BigOperators.Group.List
import Mathlib.Data.Finset.Card
import Mathlib.Order.Interval.Finset.Nat
import Mathlib.Tactic

/-!
# Slots with a quota

Values are sorted into slots that take no more than a quota of them each: the slots lie one
after the other in an array, each with a count of the values it has, and there is a count
of the slots that are not full (`Slots`). A value for a full slot is dropped
(`Slots.store`).

The values offered to a slot are its *pile*. What the slots hold is known from the offers
(`Slots.Holds`): of every pile, as much as fits, in its order.

* `Holds.store`: the next offer;
* `Holds.remaining_eq_zero_iff`: nothing remains when every pile fills its slot;
* `Holds.slot_values`: a full slot has the first values of its pile;
* `Holds.nodup_values`: the full array has no value twice;
* `Holds.map_values`: the full array, by what the values of a slot have in common.
-/

namespace Quota

variable {α β : Type*}

/-- The values of the slots, how many each has, and how many slots are not full. -/
structure Slots (α : Type*) where
  values : List α
  filled : List ℕ
  remaining : ℕ

namespace Slots

/-- Empty slots, with `a` at the places of the values. -/
def empty (n quota : ℕ) (a : α) : Slots α := ⟨List.replicate (n * quota) a, List.replicate n 0, n⟩

/-- A value for a slot. -/
def store (quota : ℕ) (s : Slots α) (slot : ℕ) (a : α) : Slots α :=
  let k := s.filled.getD slot 0
  if quota ≤ k then
    s
  else
    { values := s.values.set (slot * quota + k) a
      filled := s.filled.set slot (k + 1)
      remaining := if k + 1 = quota then s.remaining - 1 else s.remaining }

end Slots

/-- The values offered to a slot, in their order. -/
def pile (offers : List (ℕ × α)) (slot : ℕ) : List α :=
  (offers.filter fun o => o.1 = slot).map Prod.snd

/-- What `n` slots hold after the offers. -/
structure Slots.Holds (n quota : ℕ) (offers : List (ℕ × α)) (s : Slots α) : Prop where
  length : s.values.length = n * quota
  filled : s.filled = (List.range n).map fun slot => min quota (pile offers slot).length
  value : ∀ slot < n, ∀ k < quota, k < (pile offers slot).length →
    s.values[slot * quota + k]? = (pile offers slot)[k]?
  remaining : s.remaining =
    ((Finset.range n).filter fun slot => (pile offers slot).length < quota).card

/-- The pile of a slot, offer by offer. -/
theorem pile_append (offers offers' : List (ℕ × α)) (slot : ℕ) :
    pile (offers ++ offers') slot = pile offers slot ++ pile offers' slot := by
  simp [pile]

theorem pile_cons (slot slot' : ℕ) (a : α) (offers : List (ℕ × α)) :
    pile ((slot, a) :: offers) slot' =
      if slot = slot' then a :: pile offers slot' else pile offers slot' := by
  by_cases h : slot = slot'
  · simp [pile, h]
  · simp [pile, h]

theorem pile_concat (slot slot' : ℕ) (a : α) (offers : List (ℕ × α)) :
    pile (offers ++ [(slot, a)]) slot' =
      pile offers slot' ++ if slot = slot' then [a] else [] := by
  rw [pile_append, pile_cons]
  rfl

theorem mem_offers_of_mem_pile {offers : List (ℕ × α)} {slot : ℕ} {a : α}
    (h : a ∈ pile offers slot) : (slot, a) ∈ offers := by
  obtain ⟨⟨slot', a'⟩, hmem, rfl⟩ := List.mem_map.1 h
  obtain ⟨hmem, hslot⟩ := List.mem_filter.1 hmem
  have : slot' = slot := by simpa using hslot
  rwa [this] at hmem

namespace Slots.Holds

variable {n quota : ℕ} {offers : List (ℕ × α)} {s : Slots α}

/-- The slot of a place in the array. -/
theorem slot_of_index {slot k : ℕ} (hk : k < quota) : (slot * quota + k) / quota = slot := by
  rw [Nat.add_comm, Nat.add_mul_div_right _ _ (by omega), Nat.div_eq_of_lt hk, Nat.zero_add]

/-- Empty slots, before any offer. -/
theorem empty (hquota : 0 < quota) (a : α) : Holds n quota [] (Slots.empty n quota a) where
  length := List.length_replicate
  filled := by simp [Slots.empty, pile]
  value := by simp [pile]
  remaining := by simp [Slots.empty, pile, hquota]

/-- A slot is filled with its pile, up to the quota. -/
theorem getD_filled (h : Holds n quota offers s) {slot : ℕ} (hslot : slot < n) :
    s.filled.getD slot 0 = min quota (pile offers slot).length := by
  rw [h.filled]
  simp [hslot]

/-- An offer to a full slot changes nothing. -/
theorem store_full (h : Holds n quota offers s) {slot : ℕ} (hslot : slot < n)
    (hfull : quota ≤ (pile offers slot).length) (a : α) : s.store quota slot a = s := by
  rw [store, h.getD_filled hslot, min_eq_left hfull, if_pos le_rfl]

/-- An offer to a slot that is not full is the next of its values. -/
theorem store_room (h : Holds n quota offers s) {slot : ℕ} (hslot : slot < n)
    (hroom : (pile offers slot).length < quota) (a : α) : s.store quota slot a =
      { values := s.values.set (slot * quota + (pile offers slot).length) a
        filled := s.filled.set slot ((pile offers slot).length + 1)
        remaining := if (pile offers slot).length + 1 = quota then s.remaining - 1
          else s.remaining } := by
  rw [store, h.getD_filled hslot, min_eq_right hroom.le, if_neg (Nat.not_le.2 hroom)]

/-- The slots that are not full, less one that the offer fills. -/
theorem notFull_append {slot : ℕ} (a : α) :
    ((Finset.range n).filter fun t => (pile (offers ++ [(slot, a)]) t).length < quota) =
      if (pile offers slot).length + 1 = quota then
        ((Finset.range n).filter fun t => (pile offers t).length < quota).erase slot
      else (Finset.range n).filter fun t => (pile offers t).length < quota := by
  ext t
  rw [Finset.mem_filter, pile_concat, List.length_append]
  by_cases hlast : (pile offers slot).length + 1 = quota
  · rw [if_pos hlast, Finset.mem_erase, Finset.mem_filter]
    by_cases ht : slot = t
    · subst ht
      simp [hlast]
    · simp [ht, Ne.symm ht]
  · rw [if_neg hlast, Finset.mem_filter]
    by_cases ht : slot = t
    · subst ht
      rw [if_pos rfl, List.length_singleton]
      exact and_congr_right fun _ => ⟨fun h => by omega, fun h => by omega⟩
    · simp [ht]

/-- The values after an offer to a slot that is not full: its place is that of no other value. -/
theorem value_set (h : Holds n quota offers s) {slot : ℕ} (hslot : slot < n)
    (hroom : (pile offers slot).length < quota) (a : α) {t k : ℕ} (ht : t < n) (hk : k < quota)
    (hpile : k < (pile (offers ++ [(slot, a)]) t).length) :
    (s.values.set (slot * quota + (pile offers slot).length) a)[t * quota + k]? =
      (pile (offers ++ [(slot, a)]) t)[k]? := by
  rw [pile_concat] at hpile ⊢
  by_cases heq : slot = t
  · subst heq
    rw [if_pos rfl] at hpile ⊢
    rw [List.length_append, List.length_singleton] at hpile
    rcases Nat.lt_or_eq_of_le (Nat.le_of_lt_succ hpile) with hlt | rfl
    · rw [List.getElem?_set_ne (by omega), h.value slot ht k hk hlt,
        List.getElem?_append_left hlt]
    · have hin : slot * quota + (pile offers slot).length < s.values.length := by
        rw [h.length]
        calc slot * quota + (pile offers slot).length < slot * quota + quota := by omega
          _ = (slot + 1) * quota := (Nat.succ_mul slot quota).symm
          _ ≤ n * quota := Nat.mul_le_mul_right quota hslot
      rw [List.getElem?_set_self hin, List.getElem?_concat_length]
  · rw [if_neg heq, List.append_nil] at hpile ⊢
    have hne : slot * quota + (pile offers slot).length ≠ t * quota + k := by
      intro hidx
      have hslot' : (slot * quota + (pile offers slot).length) / quota = slot :=
        slot_of_index hroom
      rw [hidx, slot_of_index hk] at hslot'
      exact heq hslot'.symm
    rw [List.getElem?_set_ne hne, h.value t ht k hk hpile]

/-- An offer to a full slot leaves what the slots hold. -/
theorem concat_full (h : Holds n quota offers s) {slot : ℕ}
    (hfull : quota ≤ (pile offers slot).length) (a : α) :
    Holds n quota (offers ++ [(slot, a)]) s := by
  refine ⟨h.length, ?_, ?_, ?_⟩
  · rw [h.filled]
    refine List.map_congr_left fun t _ => ?_
    rw [pile_concat, List.length_append]
    split
    case isTrue heq =>
      subst heq
      rw [min_eq_left hfull, min_eq_left (Nat.le_add_right_of_le hfull)]
    case isFalse => rw [List.length_nil, Nat.add_zero]
  · intro t ht k hk hkpile
    rw [pile_concat] at hkpile ⊢
    have hkpile' : k < (pile offers t).length := by
      split at hkpile
      case isTrue heq =>
        subst heq
        exact hk.trans_le hfull
      case isFalse => rwa [List.append_nil] at hkpile
    rw [List.getElem?_append_left hkpile', h.value t ht k hk hkpile']
  · rw [notFull_append, if_neg (by omega), h.remaining]

/-- After the next offer. -/
theorem store (h : Holds n quota offers s) {slot : ℕ} (hslot : slot < n) (a : α) :
    Holds n quota (offers ++ [(slot, a)]) (s.store quota slot a) := by
  rcases Nat.lt_or_ge (pile offers slot).length quota with hroom | hfull
  · rw [h.store_room hslot hroom]
    refine ⟨?_, ?_, fun t ht k hk => h.value_set hslot hroom a ht hk, ?_⟩
    · rw [List.length_set, h.length]
    · rw [h.filled]
      refine List.ext_getElem (by simp) fun t ht _ => ?_
      simp only [List.getElem_set, List.getElem_map, List.getElem_range, pile_concat,
        List.length_append]
      by_cases heq : slot = t
      · subst heq
        rw [if_pos rfl, if_pos rfl, List.length_singleton, min_eq_right (Nat.succ_le_of_lt hroom)]
      · simp [heq]
    · dsimp only
      rw [notFull_append]
      split
      · rw [Finset.card_erase_of_mem (by simp [hslot, hroom]), h.remaining]
      · exact h.remaining
  · rw [h.store_full hslot hfull]
    exact h.concat_full hfull a

/-- Nothing remains when every pile fills its slot. -/
theorem remaining_eq_zero_iff (h : Holds n quota offers s) :
    s.remaining = 0 ↔ ∀ slot < n, quota ≤ (pile offers slot).length := by
  rw [h.remaining, Finset.card_eq_zero, Finset.filter_eq_empty_iff]
  simp

/-- Every place of full slots has a value that was offered to its slot. -/
theorem exists_offer (h : Holds n quota offers s) (hfull : s.remaining = 0) {i : ℕ}
    (hi : i < n * quota) : ∃ a, s.values[i]? = some a ∧ (i / quota, a) ∈ offers ∧
      (pile offers (i / quota))[i % quota]? = some a := by
  have hquota : 0 < quota := Nat.pos_of_lt_mul_left hi
  have hslot : i / quota < n := (Nat.div_lt_iff_lt_mul hquota).2 hi
  have hk : i % quota < quota := Nat.mod_lt i hquota
  have hpile := hk.trans_le ((h.remaining_eq_zero_iff.1 hfull) (i / quota) hslot)
  have hvalue := h.value (i / quota) hslot (i % quota) hk hpile
  rw [Nat.div_add_mod', List.getElem?_eq_getElem hpile] at hvalue
  exact ⟨_, hvalue, mem_offers_of_mem_pile (List.getElem_mem _), List.getElem?_eq_getElem hpile⟩

/-- The values of a full slot are the first of its pile. -/
theorem slot_values (h : Holds n quota offers s) {slot : ℕ} (hslot : slot < n)
    (hfull : quota ≤ (pile offers slot).length) :
    (s.values.drop (slot * quota)).take quota = (pile offers slot).take quota := by
  refine List.ext_getElem? fun k => ?_
  rw [List.getElem?_take, List.getElem?_take, List.getElem?_drop]
  split
  case isTrue hk => exact h.value slot hslot k hk (hk.trans_le hfull)
  case isFalse => rfl

/-- No value is there twice, if none was offered twice. -/
theorem nodup_values (h : Holds n quota offers s) (hfull : s.remaining = 0)
    (hoffers : (offers.map Prod.snd).Nodup) : s.values.Nodup := by
  refine List.nodup_iff_getElem?_ne_getElem?.2 fun i j hij hj heq => ?_
  rw [h.length] at hj
  obtain ⟨a, ha, hmem, hpile⟩ := h.exists_offer hfull (hij.trans hj)
  obtain ⟨b, hb, hmem', hpile'⟩ := h.exists_offer hfull hj
  obtain rfl : a = b := by rwa [ha, hb, Option.some.injEq] at heq
  -- the same slot, and the same place in it
  have hslot : i / quota = j / quota :=
    congrArg Prod.fst (List.inj_on_of_nodup_map hoffers hmem hmem' rfl)
  rw [← hslot] at hpile'
  have hnodup : (pile offers (i / quota)).Nodup := hoffers.sublist (List.filter_sublist.map _)
  have hk : i % quota = j % quota :=
    (List.getElem?_inj (List.getElem?_eq_some_iff.1 hpile).1 hnodup).1 (hpile.trans hpile'.symm)
  exact hij.ne (by rw [← Nat.div_add_mod i quota, hslot, hk, Nat.div_add_mod])

end Slots.Holds

/-! ## The full array -/

/-- In runs of equal length the key is the quotient. -/
theorem getElem?_flatMap_replicate {quota : ℕ} (hquota : 0 < quota) (keys : List β) (i : ℕ) :
    (keys.flatMap (List.replicate quota))[i]? = keys[i / quota]? := by
  induction keys generalizing i with
  | nil => rfl
  | cons key keys ih =>
    rw [List.flatMap_cons]
    rcases Nat.lt_or_ge i quota with hi | hi
    · rw [List.getElem?_append_left (by simpa using hi), Nat.div_eq_of_lt hi]
      simp [hi]
    · obtain ⟨j, rfl⟩ := Nat.exists_eq_add_of_le' hi
      rw [List.getElem?_append_right (by simp), List.length_replicate, ih, Nat.add_sub_cancel,
        Nat.add_div_right j hquota, List.getElem?_cons_succ]

/-- If the values offered to a slot have its key, the array is a run of every key. -/
theorem Slots.Holds.map_values {n quota : ℕ} {offers : List (ℕ × α)} {s : Slots α}
    (h : s.Holds n quota offers) (hquota : 0 < quota) (hfull : s.remaining = 0) {f : α → β}
    {keys : List β} (hn : keys.length = n)
    (hkeys : ∀ slot a, (slot, a) ∈ offers → keys[slot]? = some (f a)) :
    s.values.map f = keys.flatMap (List.replicate quota) := by
  have hlen : (keys.flatMap (List.replicate quota)).length = n * quota := by
    simp [List.length_flatMap, hn]
  refine List.ext_getElem? fun i => ?_
  rcases Nat.lt_or_ge i (n * quota) with hi | hi
  · obtain ⟨a, ha, hmem, -⟩ := h.exists_offer hfull hi
    rw [List.getElem?_map, ha, getElem?_flatMap_replicate hquota, hkeys _ a hmem]
    rfl
  · rw [List.getElem?_eq_none (by rwa [List.length_map, h.length]),
      List.getElem?_eq_none (by rwa [hlen])]

theorem map_flatMap_replicate {γ : Type*} (f : β → γ) (quota : ℕ) (keys : List β) :
    (keys.flatMap (List.replicate quota)).map f = (keys.map f).flatMap (List.replicate quota) := by
  rw [List.flatMap_map, List.map_flatMap]
  simp only [List.map_replicate]

/-- A run of every key has the quota of each. -/
theorem count_flatMap_replicate [DecidableEq β] {quota : ℕ} {keys : List β} (hkeys : keys.Nodup)
    (key : β) :
    (keys.flatMap (List.replicate quota)).count key = if key ∈ keys then quota else 0 := by
  induction keys with
  | nil => simp
  | cons x keys ih =>
    rw [List.nodup_cons] at hkeys
    rw [List.flatMap_cons, List.count_append, List.count_replicate, ih hkeys.2]
    by_cases hx : x = key
    · subst hx
      simp [hkeys.1]
    · simp [hx, Ne.symm hx]

end Quota
