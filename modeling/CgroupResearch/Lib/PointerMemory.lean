import Mathlib.Data.List.Rotate
import Mathlib.Logic.Function.Iterate
import Mathlib.Tactic

/-!
# Memory and chains of pointers

A memory of bytes, in which words of `w` bytes are stored and loaded, the lowest byte first
(`store`, `load`). A store changes no word that lies apart from it (`load_store_of_apart`), so
after stores to places that are all apart, each of them has its word (`load_storeAll`).

Places are linked to a cycle by storing in each the address of the next, and in the last that of
the first (`cycleLinks`). Following the addresses from the first then visits the places one after
the other, and comes back (`isCycle_of_links`). So it does for several cycles, if all their places
are apart (`isCycle_storeAll`).
-/

namespace PointerMemory

/-- The bytes, by their addresses. -/
def Memory : Type := ℕ → UInt8

/-! ## Words -/

/-- The word of `w` bytes at an address. -/
def load (mem : Memory) : (w a : ℕ) → ℕ
  | 0, _ => 0
  | w + 1, a => (mem a).toNat + 256 * load mem w (a + 1)

/-- A word of `w` bytes at an address. -/
def store (mem : Memory) (w a x : ℕ) : Memory := fun b =>
  if a ≤ b ∧ b < a + w then UInt8.ofNat (x / 256 ^ (b - a)) else mem b

/-- Words at these addresses have no byte in common. -/
def Apart (w a b : ℕ) : Prop := a + w ≤ b ∨ b + w ≤ a

/-- Words stored one after the other: `(a, x)` is the word `x` at the address `a`. -/
def storeAll (w : ℕ) (mem : Memory) (links : List (ℕ × ℕ)) : Memory :=
  links.foldl (fun mem link => store mem w link.1 link.2) mem

section

variable {mem : Memory} {w a b x : ℕ}

theorem Apart.symm (h : Apart w a b) : Apart w b a := Or.symm h

theorem Apart.ne (hw : 0 < w) (h : Apart w a b) : a ≠ b := by
  rintro rfl
  rcases h with h | h <;> omega

/-- A load depends on its own bytes only. -/
theorem load_congr {mem mem' : Memory} (h : ∀ c, a ≤ c → c < a + w → mem c = mem' c) :
    load mem w a = load mem' w a := by
  induction w generalizing a with
  | zero => rfl
  | succ w ih =>
    rw [load, load, h a le_rfl (by omega), ih fun c hc hlt => h c (by omega) (by omega)]

/-- The last bytes of a word that was stored. -/
theorem load_store_drop (i : ℕ) {w' : ℕ} (h : i + w' = w) :
    load (store mem w a x) w' (a + i) = x / 256 ^ i % 256 ^ w' := by
  induction w' generalizing i with
  | zero =>
    rw [pow_zero, Nat.mod_one]
    rfl
  | succ w' ih =>
    have hbyte : (store mem w a x (a + i)).toNat = x / 256 ^ i % 256 := by
      rw [store, if_pos ⟨by omega, by omega⟩, Nat.add_sub_cancel_left, UInt8.toNat_ofNat']
    rw [load, hbyte, Nat.add_assoc, ih (i + 1) (by omega), pow_succ' 256 w', Nat.mod_mul,
      Nat.div_div_eq_div_mul, ← pow_succ]

/-- What was stored is loaded. -/
theorem load_store (hx : x < 256 ^ w) : load (store mem w a x) w a = x := by
  have h : load (store mem w a x) w (a + 0) = x / 256 ^ 0 % 256 ^ w :=
    load_store_drop 0 (Nat.zero_add w)
  rwa [pow_zero, Nat.div_one, Nat.mod_eq_of_lt hx] at h

/-- A store leaves the words that lie apart. -/
theorem load_store_of_apart (h : Apart w a b) : load (store mem w a x) w b = load mem w b := by
  refine load_congr fun c hc hlt => ?_
  rw [store, if_neg]
  rcases h with h | h <;> omega

theorem storeAll_append (links links' : List (ℕ × ℕ)) :
    storeAll w mem (links ++ links') = storeAll w (storeAll w mem links) links' :=
  List.foldl_append

/-- Stores elsewhere do not change a load. -/
theorem load_storeAll_of_apart {links : List (ℕ × ℕ)} (h : ∀ link ∈ links, Apart w link.1 b) :
    load (storeAll w mem links) w b = load mem w b := by
  induction links generalizing mem with
  | nil => rfl
  | cons link links ih =>
    rw [List.forall_mem_cons] at h
    exact (ih h.2).trans (load_store_of_apart h.1)

/-- After stores to places that are all apart, each place has its word. -/
theorem load_storeAll {links : List (ℕ × ℕ)} (hapart : (links.map Prod.fst).Pairwise (Apart w))
    (hlt : ∀ link ∈ links, link.2 < 256 ^ w) {link : ℕ × ℕ} (hmem : link ∈ links) :
    load (storeAll w mem links) w link.1 = link.2 := by
  induction links generalizing mem with
  | nil => exact absurd hmem List.not_mem_nil
  | cons link' links ih =>
    rw [List.map_cons, List.pairwise_cons] at hapart
    rw [List.forall_mem_cons] at hlt
    rcases List.mem_cons.1 hmem with rfl | hmem
    · -- no later store touches it
      have hrest : ∀ l ∈ links, Apart w l.1 link.1 := fun l hl =>
        (hapart.1 l.1 (List.mem_map_of_mem hl)).symm
      exact (load_storeAll_of_apart hrest).trans (load_store hlt.1)
    · exact ih hapart.2 hlt.2 hmem

end

/-! ## Cycles -/

section

variable {α : Type*}

/-- From `root`, `next` visits the places one after the other, each once, and then comes back. -/
structure IsCycle (next : α → α) (root : α) (places : List α) : Prop where
  nodup : places.Nodup
  visits : ∀ k < places.length, places[k]? = some (next^[k] root)
  returns : next^[places.length] root = root

/-- The links of a cycle: every place with the one behind it. -/
def cycleLinks (places : List α) : List (α × α) := places.zip (places.rotate 1)

/-- Each place has one link. -/
theorem map_fst_cycleLinks (places : List α) : (cycleLinks places).map Prod.fst = places := by
  rw [cycleLinks, List.map_fst_zip]
  rw [List.length_rotate]

theorem mem_of_mem_cycleLinks {places : List α} {link : α × α} (h : link ∈ cycleLinks places) :
    link.2 ∈ places := by
  rw [cycleLinks] at h
  exact List.mem_rotate.1 (List.of_mem_zip h).2

/-- The place behind the one at `k`, around the end. -/
theorem mem_cycleLinks {places : List α} {k : ℕ} {x y : α}
    (hx : places[k % places.length]? = some x) (hy : places[(k + 1) % places.length]? = some y) :
    (x, y) ∈ cycleLinks places := by
  obtain ⟨hlt, -⟩ := List.getElem?_eq_some_iff.1 hx
  have hrotate : (places.rotate 1)[k % places.length]? = some y := by
    rw [List.getElem?_rotate hlt, Nat.mod_add_mod, hy]
  exact List.mem_of_getElem? (List.getElem?_zip_eq_some.2 ⟨hx, hrotate⟩)

/-- Linked places make a cycle. -/
theorem isCycle_of_links {next : α → α} {root : α} {places : List α} (hnodup : places.Nodup)
    (hroot : places.head? = some root) (h : ∀ link ∈ cycleLinks places, next link.1 = link.2) :
    IsCycle next root places := by
  have hpos : 0 < places.length := by
    cases places with
    | nil => cases hroot
    | cons _ _ => exact Nat.succ_pos _
  have hvisits : ∀ k, places[k % places.length]? = some (next^[k] root) := by
    intro k
    induction k with
    | zero => rwa [Nat.zero_mod, ← List.head?_eq_getElem?]
    | succ k ih =>
      have hlt := Nat.mod_lt (k + 1) hpos
      have hlink := h _ (mem_cycleLinks ih (List.getElem?_eq_getElem hlt))
      dsimp only at hlink
      rw [Function.iterate_succ_apply', hlink, List.getElem?_eq_getElem hlt]
  refine ⟨hnodup, fun k hk => ?_, ?_⟩
  · rw [← hvisits k, Nat.mod_eq_of_lt hk]
  · have hback := hvisits places.length
    rw [Nat.mod_self, ← List.head?_eq_getElem?, hroot] at hback
    exact (Option.some.inj hback).symm

end

/-- After the links of chains whose places are all apart, every chain is a cycle. -/
theorem isCycle_storeAll {ι : Type*} {mem : Memory} {w : ℕ} (hw : 0 < w) {chains : List ι}
    {places : ι → List ℕ} (hapart : (chains.flatMap places).Pairwise (Apart w))
    (hlt : ∀ a ∈ chains.flatMap places, a < 256 ^ w) {chain : ι} (hchain : chain ∈ chains)
    {root : ℕ} (hroot : (places chain).head? = some root) :
    IsCycle (load (storeAll w mem (chains.flatMap fun i => cycleLinks (places i))) w) root
      (places chain) := by
  have hfst : (chains.flatMap fun i => cycleLinks (places i)).map Prod.fst =
      chains.flatMap places := by
    rw [List.map_flatMap]
    simp only [map_fst_cycleLinks]
  have hnodup : (chains.flatMap places).Nodup := hapart.imp fun h => h.ne hw
  have hword : ∀ link ∈ chains.flatMap fun i => cycleLinks (places i), link.2 < 256 ^ w := by
    intro link hlink
    obtain ⟨i, hi, hlink⟩ := List.mem_flatMap.1 hlink
    exact hlt _ (List.mem_flatMap.2 ⟨i, hi, mem_of_mem_cycleLinks hlink⟩)
  refine isCycle_of_links ((List.nodup_flatMap.1 hnodup).1 chain hchain) hroot fun link hlink => ?_
  exact load_storeAll (hfst ▸ hapart) hword (List.mem_flatMap.2 ⟨chain, hchain, hlink⟩)

end PointerMemory
