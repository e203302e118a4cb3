import Mathlib.Data.Finset.Basic
import Mathlib.Tactic

/-!
# Trees of directories

The directories below a root, each in its parent (`DirTree`). A directory is made where it is not
yet, in a parent that is there (`mkdir`), and removed when it is empty (`rmdir`).

A directory with others in it, made in a tree, is a branch of it (`Branch`). Nothing else is in a
fresh directory, so that a branch can be taken away again, in any order of the directories in it,
and leaves the tree as it was (`Branch.removeAll_eq`). Attempts to remove other directories, or
ones that fail, leave the tree there in any case (`subset_removeAll`).
-/

/-- Directories with their parents, up to a root. -/
structure DirTree {α : Type*} (parent : α → α) (root : α) where
  dirs : Finset α
  root_mem : root ∈ dirs
  parent_mem : ∀ d ∈ dirs, d ≠ root → parent d ∈ dirs

namespace DirTree

variable {α : Type*} [DecidableEq α] {parent : α → α} {root : α}

/-- A new directory. -/
def mkdir (t : DirTree parent root) (d : α) : Option (DirTree parent root) :=
  if h : d ∉ t.dirs ∧ parent d ∈ t.dirs then
    some {
      dirs := insert d t.dirs
      root_mem := Finset.mem_insert_of_mem t.root_mem
      parent_mem := by
        intro e he hroot
        rcases Finset.mem_insert.1 he with rfl | he
        · exact Finset.mem_insert_of_mem h.2
        · exact Finset.mem_insert_of_mem (t.parent_mem e he hroot) }
  else
    none

/-- An empty directory is removed. -/
def rmdir (t : DirTree parent root) (d : α) : Option (DirTree parent root) :=
  if h : (d ∈ t.dirs ∧ d ≠ root) ∧ ∀ e ∈ t.dirs, e ≠ root → parent e ≠ d then
    some {
      dirs := t.dirs.erase d
      root_mem := Finset.mem_erase.2 ⟨h.1.2.symm, t.root_mem⟩
      parent_mem := by
        intro e he hroot
        have hmem := Finset.mem_of_mem_erase he
        exact Finset.mem_erase.2 ⟨h.2 e hmem hroot, t.parent_mem e hmem hroot⟩ }
  else
    none

/-- Directories are removed one after the other, where that is granted and they are empty. -/
def removeAll (granted : α → Bool) : List α → DirTree parent root → DirTree parent root
  | [], t => t
  | d :: ds, t => removeAll granted ds (if granted d then (t.rmdir d).getD t else t)

variable {t t' t₀ : DirTree parent root} {d run : α} {granted : α → Bool}

/-- `mkdir` makes a directory that is not there, in one that is. -/
theorem of_mkdir (h : t.mkdir d = some t') :
    d ∉ t.dirs ∧ parent d ∈ t.dirs ∧ t'.dirs = insert d t.dirs := by
  rw [mkdir] at h
  split at h
  case isTrue hd =>
    cases h
    exact ⟨hd.1, hd.2, rfl⟩
  case isFalse => cases h

/-- `rmdir` removes the directory. -/
theorem of_rmdir (h : t.rmdir d = some t') : d ∈ t.dirs ∧ t'.dirs = t.dirs.erase d := by
  rw [rmdir] at h
  split at h
  case isTrue hd =>
    cases h
    exact ⟨hd.1.1, rfl⟩
  case isFalse => cases h

/-- A directory with nothing in it can be removed. -/
theorem exists_rmdir (hd : d ∈ t.dirs) (hroot : d ≠ root)
    (hempty : ∀ e ∈ t.dirs, e ≠ root → parent e ≠ d) : ∃ t', t.rmdir d = some t' := by
  rw [rmdir, dif_pos ⟨⟨hd, hroot⟩, hempty⟩]
  exact ⟨_, rfl⟩

theorem rmdir_of_notMem (hd : d ∉ t.dirs) : t.rmdir d = none := by
  rw [rmdir, dif_neg fun h => hd h.1.1]

/-- What an attempt to remove a directory leaves. -/
theorem subset_rmdir {s : Finset α} (hs : s ⊆ t.dirs) (hd : d ∉ s) :
    s ⊆ (if granted d then (t.rmdir d).getD t else t).dirs := by
  split
  case isFalse => exact hs
  case isTrue =>
    cases h : t.rmdir d with
    | none => exact hs
    | some t' =>
      rw [Option.getD_some, (of_rmdir h).2]
      exact fun e he => Finset.mem_erase.2 ⟨fun heq => hd (heq ▸ he), hs he⟩

/-- Other directories stay, whatever is granted. -/
theorem subset_removeAll {s : Finset α} {ds : List α} (hs : s ⊆ t.dirs) (hds : ∀ d ∈ ds, d ∉ s) :
    s ⊆ (removeAll granted ds t).dirs := by
  induction ds generalizing t with
  | nil => exact hs
  | cons d ds ih =>
    rw [List.forall_mem_cons] at hds
    exact ih (subset_rmdir hs hds.1) hds.2

theorem removeAll_append (ds ds' : List α) (t : DirTree parent root) :
    removeAll granted (ds ++ ds') t = removeAll granted ds' (removeAll granted ds t) := by
  induction ds generalizing t with
  | nil => rfl
  | cons d ds ih => exact ih _

/-- A directory that was made in a tree, with others in it, is all that the tree has more. -/
structure Branch (t₀ : DirTree parent root) (run : α) (made : Finset α)
    (t : DirTree parent root) : Prop where
  fresh : run ∉ t₀.dirs
  run_parent : parent run ∈ t₀.dirs
  made_fresh : ∀ d ∈ made, d ∉ t₀.dirs
  parents : ∀ d ∈ made, parent d = run ∧ d ≠ run
  dirs_eq : t.dirs = insert run (made ∪ t₀.dirs)

namespace Branch

variable {made : Finset α}

/-- A branch starts with its root. -/
theorem start (h : t₀.mkdir run = some t) : Branch t₀ run ∅ t := by
  obtain ⟨hfresh, hparent, hdirs⟩ := of_mkdir h
  refine ⟨hfresh, hparent, by simp, by simp, ?_⟩
  rw [hdirs, Finset.empty_union]

variable (h : Branch t₀ run made t)
include h

/-- The directories are the branch and those that were there before. -/
theorem mem_dirs {d : α} : d ∈ t.dirs ↔ d = run ∨ d ∈ made ∨ d ∈ t₀.dirs := by
  rw [h.dirs_eq, Finset.mem_insert, Finset.mem_union]

theorem subset : t₀.dirs ⊆ t.dirs := fun _ hd => h.mem_dirs.2 (.inr (.inr hd))

/-- A directory in a fresh one is fresh. -/
theorem notMem_of_parent (hparent : parent d = run) (hroot : d ≠ root) : d ∉ t₀.dirs :=
  fun hd => h.fresh (hparent ▸ t₀.parent_mem d hd hroot)

/-- A directory is made in the branch. -/
theorem mkdir (hd : t.mkdir d = some t') (hparent : parent d = run) :
    Branch t₀ run (insert d made) t' := by
  obtain ⟨hnew, -, hdirs⟩ := of_mkdir hd
  rw [h.mem_dirs, not_or, not_or] at hnew
  refine ⟨h.fresh, h.run_parent, ?_, ?_, ?_⟩
  · exact Finset.forall_mem_insert _ _ _ |>.2 ⟨hnew.2.2, h.made_fresh⟩
  · exact Finset.forall_mem_insert _ _ _ |>.2 ⟨⟨hparent, hnew.1⟩, h.parents⟩
  · rw [hdirs, h.dirs_eq, Finset.insert_union, Finset.insert_comm]

/-- Nothing is in a directory of the branch. -/
theorem rmdir (hd : d ∈ made) :
    ∃ t', t.rmdir d = some t' ∧ Branch t₀ run (made.erase d) t' := by
  have hfresh := h.made_fresh d hd
  have hrun := (h.parents d hd).2
  obtain ⟨t', ht'⟩ := exists_rmdir (h.mem_dirs.2 (.inr (.inl hd)))
    (fun hroot => hfresh (hroot ▸ t₀.root_mem)) fun e he hroot hparent => by
      rcases h.mem_dirs.1 he with rfl | he | he
      · exact hfresh (hparent ▸ h.run_parent)
      · exact hrun (hparent.symm.trans (h.parents e he).1)
      · exact hfresh (hparent ▸ t₀.parent_mem e he hroot)
  refine ⟨t', ht', h.fresh, h.run_parent, fun e he => h.made_fresh e (Finset.mem_of_mem_erase he),
    fun e he => h.parents e (Finset.mem_of_mem_erase he), ?_⟩
  rw [(of_rmdir ht').2, h.dirs_eq, Finset.erase_insert_of_ne hrun.symm, Finset.erase_union_distrib,
    Finset.erase_eq_of_notMem hfresh]

/-- The directories in the branch are removed, in any order, among others that are not there. -/
theorem removeAll (hgranted : ∀ d, granted d = true) {ds : List α} (hmade : ∀ d ∈ made, d ∈ ds)
    (hds : ∀ d ∈ ds, d ∈ made ∨ d ∉ t.dirs) : Branch t₀ run ∅ (t.removeAll granted ds) := by
  induction ds generalizing t made with
  | nil =>
    have hnone : made = ∅ := Finset.eq_empty_of_forall_notMem fun d hd =>
      List.not_mem_nil (hmade d hd)
    exact hnone ▸ h
  | cons d ds ih =>
    rw [List.forall_mem_cons] at hds
    rw [DirTree.removeAll, if_pos (hgranted d)]
    by_cases hd : d ∈ made
    · obtain ⟨t', ht', hbranch⟩ := h.rmdir hd
      rw [ht', Option.getD_some]
      refine ih hbranch (fun e he => ?_) fun e he => ?_
      · obtain ⟨hne, hmem⟩ := Finset.mem_erase.1 he
        exact (List.mem_cons.1 (hmade e hmem)).resolve_left hne
      · rw [(of_rmdir ht').2, Finset.mem_erase, Finset.mem_erase]
        rcases hds.2 e he with hmem | hmem
        · by_cases hne : e = d
          · exact .inr fun h => h.1 hne
          · exact .inl ⟨hne, hmem⟩
        · exact .inr fun h => hmem h.2
    · have hnot := hds.1.resolve_left hd
      rw [rmdir_of_notMem hnot, Option.getD_none]
      refine ih h (fun e he => (List.mem_cons.1 (hmade e he)).resolve_left ?_) hds.2
      rintro rfl
      exact hd he

/-- A branch is taken away. -/
theorem removeAll_eq (hgranted : ∀ d, granted d = true) {ds : List α}
    (hmade : ∀ d ∈ made, d ∈ ds) (hds : ∀ d ∈ ds, d ∈ made ∨ d ∉ t.dirs) :
    (t.removeAll granted (ds ++ [run])).dirs = t₀.dirs := by
  have hbranch := h.removeAll hgranted hmade hds
  have hdirs : (t.removeAll granted ds).dirs = insert run t₀.dirs := by
    rw [hbranch.dirs_eq, Finset.empty_union]
  obtain ⟨t', ht'⟩ := exists_rmdir (hbranch.mem_dirs.2 (.inl rfl))
    (fun hroot => h.fresh (hroot ▸ t₀.root_mem)) fun e he hroot hparent => by
      rcases hbranch.mem_dirs.1 he with rfl | he | he
      · exact h.fresh (hparent ▸ h.run_parent)
      · exact absurd he (Finset.notMem_empty e)
      · exact h.fresh (hparent ▸ t₀.parent_mem e he hroot)
  rw [removeAll_append, DirTree.removeAll, if_pos (hgranted run), ht', Option.getD_some,
    DirTree.removeAll, (of_rmdir ht').2, hdirs, Finset.erase_insert h.fresh]

end Branch

end DirTree
