import Mathlib.Data.Int.Basic

/-!
# Programs that open and close handles

A program that opens and closes files, with the number of those that are open as its
state (`HandleM`). `Does m a n` says what such a program does: it returns `a`, and leaves
`n` handles more than there were, however many there were. A program is free of leaks if it
`Does` something with `n = 0`.

The rules follow the program: one for each way to build it.
-/

namespace Handles

variable {α β : Type}

/-- Programs over the number of open handles. -/
abbrev HandleM (α : Type) := StateM ℤ α

/-- A successful `fopen` or `open`. -/
def opened : HandleM Unit := modify (· + 1)

/-- An `fclose` or a `close`, whatever it returns. -/
def closed : HandleM Unit := modify (· - 1)

/-- The program returns `a` and adds `n` to the open handles. -/
def Does (m : HandleM α) (a : α) (n : ℤ) : Prop := ∀ h, m.run h = (a, h + n)

/-- A value opens nothing. -/
theorem does_pure (a : α) : Does (pure a) a 0 := fun h => by
  rw [Int.add_zero]
  rfl

theorem does_opened : Does opened () 1 := fun _ => rfl

theorem does_closed : Does closed () (-1) := fun _ => rfl

/-- What a program does is what its first part does and then what is left to do. -/
theorem Does.bind {m : HandleM α} {f : α → HandleM β} {a : α} {b : β} {n k : ℤ} (hm : Does m a k)
    (hf : Does (f a) b (n - k)) : Does (m >>= f) b n := by
  intro h
  rw [StateT.run_bind, hm h]
  have hk : h + k + (n - k) = h + n := by omega
  exact (hf (h + k)).trans (by rw [hk])

/-- A handle that is opened for the rest of the program. -/
theorem Does.after_opened {m : HandleM α} {a : α} {n : ℤ} (hm : Does m a (n - 1)) :
    Does (do opened; m) a n :=
  does_opened.bind hm

/-- A handle that is closed before the rest of the program. -/
theorem Does.after_closed {m : HandleM α} {a : α} {n : ℤ} (hm : Does m a (n + 1)) :
    Does (do closed; m) a n := by
  have hn : n + 1 = n - -1 := by omega
  exact does_closed.bind (hn ▸ hm)

end Handles
