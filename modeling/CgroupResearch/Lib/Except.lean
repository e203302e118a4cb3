import Mathlib.Data.List.Basic

/-!
# Computations that can fail

A computation that has succeeded has done all its steps (`Except.bind_eq_ok`), and one whose steps
all succeed does.
-/

namespace Except

variable {ε ε' α β : Type}

/-- What follows a step is reached with the result of the step. -/
theorem bind_eq_ok {x : Except ε α} {f : α → Except ε β} {b : β} :
    (x >>= f) = .ok b ↔ ∃ a, x = .ok a ∧ f a = .ok b := by
  cases x with
  | error e => exact ⟨nofun, fun ⟨_, h, _⟩ => nomatch h⟩
  | ok a => exact ⟨fun h => ⟨a, rfl, h⟩, fun ⟨_, h, h'⟩ => by cases h; exact h'⟩

/-- Renaming the errors leaves a success as it is. -/
theorem eq_ok_of_mapError {f : ε → ε'} {x : Except ε α} {a : α} (h : x.mapError f = .ok a) :
    x = .ok a := by
  cases x with
  | error e => cases h
  | ok b =>
    cases h
    rfl

theorem eq_ok_of_toOption {x : Except ε α} {a : α} (h : x.toOption = some a) : x = .ok a := by
  cases x with
  | error e => cases h
  | ok b =>
    cases h
    rfl

/-- Steps that all succeed succeed one after the other. -/
theorem exists_mapM_eq_ok {f : α → Except ε β} (hf : ∀ a, ∃ b, f a = .ok b) (l : List α) :
    ∃ bs, l.mapM f = .ok bs := by
  induction l with
  | nil => exact ⟨[], rfl⟩
  | cons a l ih =>
    obtain ⟨b, hb⟩ := hf a
    obtain ⟨bs, hbs⟩ := ih
    rw [List.mapM_cons, hb, hbs]
    exact ⟨b :: bs, rfl⟩

end Except
