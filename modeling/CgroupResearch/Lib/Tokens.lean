import Mathlib.Data.List.TakeWhile
import Mathlib.Tactic

/-!
# Tokens

The parts of a text between delimiters that are not empty (`tokens`), as `strtok` and many loops by
hand take them from it, one after the other: the next one begins where the delimiters end, and ends
before the next delimiter (`tokens_of_ne_nil`). Words that are joined by a delimiter are the tokens
(`tokens_intercalate`).
-/

namespace Tokens

variable {α : Type*}

/-- The tokens of a text, with the delimiters `p`. -/
def tokens (p : α → Bool) (s : List α) : List (List α) := (s.splitOnP p).filter (!·.isEmpty)

variable {p : α → Bool} {s : List α}

@[simp] theorem tokens_nil : tokens p [] = [] := by simp [tokens]

/-- A delimiter in front. -/
theorem tokens_cons_of_pos {d : α} (hd : p d = true) : tokens p (d :: s) = tokens p s := by
  have hsplit : (d :: s).splitOnP p = [] :: s.splitOnP p :=
    @List.splitOnP_append_cons_of_forall_mem _ p [] (by simp) d hd s
  rw [tokens, hsplit]
  rfl

/-- Separators in front make no token. -/
theorem tokens_dropWhile (s : List α) : tokens p (s.dropWhile p) = tokens p s := by
  induction s with
  | nil => rfl
  | cons c s ih =>
    rw [List.dropWhile_cons]
    split
    case isTrue hc => rw [ih, tokens_cons_of_pos hc]
    case isFalse => rfl

theorem tokens_eq_nil_of_dropWhile (h : s.dropWhile p = []) : tokens p s = [] := by
  rw [← tokens_dropWhile, h, tokens_nil]

/-- A word, and what follows it. -/
theorem tokens_append {w rest : List α} (hw : ∀ c ∈ w, p c = false) (hne : w ≠ [])
    (hrest : ∀ c ∈ rest.head?, p c = true) : tokens p (w ++ rest) = w :: tokens p rest := by
  cases rest with
  | nil => simp [tokens, List.splitOnP_eq_singleton hw, hne]
  | cons d rest =>
    have hd : p d = true := hrest d rfl
    rw [tokens_cons_of_pos hd, tokens, List.splitOnP_append_cons_of_forall_mem hw d hd,
      List.filter_cons_of_pos (by simp [hne]), tokens]

theorem of_mem_head?_dropWhile {q : α → Bool} (s : List α) :
    ∀ c ∈ (s.dropWhile q).head?, q c = false := by
  intro c hc
  have hnot := List.head?_dropWhile_not q s
  rwa [Option.mem_def.1 hc] at hnot

/-- The next token, and those of what follows. -/
theorem tokens_of_ne_nil (h : s.dropWhile p ≠ []) :
    tokens p s = (s.dropWhile p).takeWhile (!p ·) ::
      tokens p ((s.dropWhile p).dropWhile (!p ·)) := by
  obtain ⟨c, rest, heq⟩ := List.exists_cons_of_ne_nil h
  have hc : p c = false := of_mem_head?_dropWhile s c (by rw [heq]; rfl)
  have hword : ∀ x ∈ (s.dropWhile p).takeWhile (!p ·), p x = false := fun x hx => by
    simpa using List.mem_takeWhile_imp hx
  have hne : (s.dropWhile p).takeWhile (!p ·) ≠ [] := by
    rw [heq, List.takeWhile_cons_of_pos (by simp [hc])]
    exact List.cons_ne_nil _ _
  have hdelim : ∀ x ∈ ((s.dropWhile p).dropWhile (!p ·)).head?, p x = true := fun x hx => by
    simpa using @of_mem_head?_dropWhile _ (!p ·) _ x hx
  rw [← tokens_append hword hne hdelim, List.takeWhile_append_dropWhile, tokens_dropWhile]

/-- The delimiter behind a token does not matter. -/
theorem tokens_drop_one (h : ∀ c ∈ s.head?, p c = true) : tokens p (s.drop 1) = tokens p s := by
  cases s with
  | nil => rfl
  | cons d s => exact (tokens_cons_of_pos (h d rfl)).symm

/-- Words that are joined by a delimiter. -/
theorem tokens_intercalate {d : α} (hd : p d = true) {words : List (List α)}
    (hwords : ∀ w ∈ words, w ≠ [] ∧ ∀ c ∈ w, p c = false) :
    tokens p ([d].intercalate words) = words := by
  induction words with
  | nil => simp [List.intercalate]
  | cons w words ih =>
    rw [List.forall_mem_cons] at hwords
    obtain ⟨⟨hne, hw⟩, hwords⟩ := hwords
    cases words with
    | nil =>
      have htoken := @tokens_append _ p w [] hw hne (by simp)
      simpa using htoken
    | cons w' words =>
      rw [List.intercalate_cons_cons, List.append_assoc, tokens_append hw hne (by simp [hd]),
        List.singleton_append, tokens_cons_of_pos hd, ih hwords]

end Tokens
