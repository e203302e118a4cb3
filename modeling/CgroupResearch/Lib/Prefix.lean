import Mathlib.Data.List.Induction

/-!
# The elements of a list after those before them

What happens in a sequence of steps depends on the steps before. A property of every step is
a property of the list of the earlier steps and the step itself (`EachAfter`), and is proved
from the end of the sequence.
-/

/-- `P` holds of each element of a list and those before it. -/
def EachAfter {α : Type} (P : List α → α → Prop) (l : List α) : Prop :=
  ∀ before a after, l = before ++ a :: after → P before a

namespace EachAfter

variable {α : Type} {P : List α → α → Prop} {l : List α} {x : α}

theorem nil : EachAfter P [] :=
  fun before _ _ h =>
    absurd h.symm (List.append_ne_nil_of_right_ne_nil before (List.cons_ne_nil _ _))

/-- It holds of one more element, and of all those before it. -/
theorem concat_iff : EachAfter P (l ++ [x]) ↔ EachAfter P l ∧ P l x := by
  constructor
  · intro h
    refine ⟨fun before a after hl => h before a (after ++ [x]) ?_, h l x [] rfl⟩
    rw [hl, List.append_assoc, List.cons_append]
  · rintro ⟨h, hx⟩ before a after hl
    rcases List.eq_nil_or_concat after with rfl | ⟨after, y, rfl⟩
    · obtain ⟨rfl, hax⟩ := List.append_inj' hl rfl
      rwa [← (List.cons.inj hax).1]
    · refine h before a after ?_
      rw [List.concat_eq_append, ← List.cons_append, ← List.append_assoc] at hl
      exact (List.append_inj' hl rfl).1

end EachAfter
