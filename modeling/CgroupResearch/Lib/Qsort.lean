import Mathlib.Data.List.Sort

/-!
# Sorting with a comparison function

`qsort` puts the elements of an array in the order of a comparison function, and elements
that compare equal in any order. Every function with this behaviour is a `Qsort`.

A comparison function may be consistent on some arrays only: one that compares `double`s is
not if one of them is not a number. Of such an array the standard says nothing, and a
`CarefulQsort` promises nothing. Where elements that compare equal are equal, there is one way
to sort them (`CarefulQsort.sort_eq`).
-/

/-- What `qsort` may do with a comparison function. -/
structure Qsort {α : Type} (compar : α → α → ℤ) where
  sort : List α → List α
  perm : ∀ l, (sort l).Perm l
  sorted : ∀ l, (sort l).Pairwise fun a b => compar a b ≤ 0

namespace Qsort

variable {α : Type} {compar : α → α → ℤ}

/-- Sorting keeps the elements. -/
theorem mem_sort (q : Qsort compar) {a : α} {l : List α} : a ∈ q.sort l ↔ a ∈ l :=
  (q.perm l).mem_iff

/-- An insertion sort is one of them, if the comparison is consistent. -/
def insertion (compar : α → α → ℤ)
    (htrans : ∀ a b c, compar a b ≤ 0 → compar b c ≤ 0 → compar a c ≤ 0)
    (htotal : ∀ a b, compar a b ≤ 0 ∨ compar b a ≤ 0) : Qsort compar where
  sort l := l.insertionSort fun a b => compar a b ≤ 0
  perm l := List.perm_insertionSort _ l
  sorted l :=
    haveI : Std.Total fun a b => compar a b ≤ 0 := ⟨htotal⟩
    haveI : IsTrans α fun a b => compar a b ≤ 0 := ⟨htrans⟩
    List.pairwise_insertionSort _ l

end Qsort

/-! ## Comparison functions that are consistent on some lists -/

/-- The comparison orders the elements of the list. -/
structure ConsistentOn {α : Type} (compar : α → α → ℤ) (l : List α) : Prop where
  flip : ∀ a ∈ l, ∀ b ∈ l, compar a b ≤ 0 ↔ 0 ≤ compar b a
  trans : ∀ a ∈ l, ∀ b ∈ l, ∀ c ∈ l, compar a b ≤ 0 → compar b c ≤ 0 → compar a c ≤ 0

/-- What `qsort` may do with a comparison function where that is consistent. -/
structure CarefulQsort {α : Type} (compar : α → α → ℤ) where
  sort : List α → List α
  perm : ∀ l, ConsistentOn compar l → (sort l).Perm l
  sorted : ∀ l, ConsistentOn compar l → (sort l).Pairwise fun a b => compar a b ≤ 0

namespace ConsistentOn

variable {α : Type} {compar : α → α → ℤ} {l l' : List α}

theorem total (h : ConsistentOn compar l) {a b : α} (ha : a ∈ l) (hb : b ∈ l) :
    compar a b ≤ 0 ∨ compar b a ≤ 0 := by
  have := h.flip a ha b hb
  omega

theorem of_perm (h : ConsistentOn compar l) (hl : l'.Perm l) : ConsistentOn compar l' where
  flip a ha b hb := h.flip a (hl.mem_iff.1 ha) b (hl.mem_iff.1 hb)
  trans a ha b hb c hc := h.trans a (hl.mem_iff.1 ha) b (hl.mem_iff.1 hb) c (hl.mem_iff.1 hc)

end ConsistentOn

namespace CarefulQsort

variable {α : Type} {compar : α → α → ℤ} {l s : List α}

/-- There is one way to sort elements of which no two compare equal. -/
theorem sort_eq (q : CarefulQsort compar) (hl : ConsistentOn compar l)
    (hinj : ∀ a ∈ l, ∀ b ∈ l, compar a b = 0 → a = b) (hperm : s.Perm l)
    (hs : s.Pairwise fun a b => compar a b ≤ 0) : q.sort l = s := by
  refine ((q.perm l hl).trans hperm.symm).eq_of_pairwise (fun a b ha hb hab hba => ?_)
    (q.sorted l hl) hs
  have ha' := (q.perm l hl).mem_iff.1 ha
  have hb' := hperm.mem_iff.1 hb
  exact hinj a ha' b hb' (le_antisymm hab ((hl.flip b hb' a ha').1 hba))

/-- An insertion sort of the elements, as members of the list. -/
def insertion (compar : α → α → ℤ) : CarefulQsort compar where
  sort l := (l.attach.insertionSort fun a b : {x // x ∈ l} => compar a b ≤ 0).map Subtype.val
  perm l _ := by
    have h := (List.perm_insertionSort (fun a b : {x // x ∈ l} => compar a b ≤ 0) l.attach).map
      Subtype.val
    rwa [List.attach_map_subtype_val] at h
  sorted l h := by
    have : Std.Total fun a b : {x // x ∈ l} => compar a b ≤ 0 := ⟨fun a b => h.total a.2 b.2⟩
    have : IsTrans {x // x ∈ l} fun a b => compar a b ≤ 0 :=
      ⟨fun a b c => h.trans a a.2 b b.2 c c.2⟩
    rw [List.pairwise_map]
    exact List.pairwise_insertionSort _ _

end CarefulQsort
