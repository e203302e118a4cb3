import Mathlib.Data.List.Basic

/-!
# Runs of a machine

A deterministic machine takes actions one after the other, each giving a result
and the next state. A run is the list of its actions, the latest first: the
state it ends in (`after`) and its history, the actions with their results
(`history`).

* `after_invariant`: what holds initially and is preserved by every action holds
  after every run, of the history and the state;
* `simulation`: two machines, related step by step, have the same histories.
-/

namespace Machine

variable {S T A B : Type*} (step : S → A → B × S) (s₀ : S)

/-- The state after the actions, the latest first. -/
def after : List A → S
  | [] => s₀
  | a :: as => (step (after as) a).2

/-- The actions with their results, the latest first. -/
def history : List A → List (A × B)
  | [] => []
  | a :: as => (a, (step (after step s₀ as) a).1) :: history as

@[simp] theorem after_nil : after step s₀ [] = s₀ := rfl

@[simp] theorem after_cons (a : A) (as : List A) :
    after step s₀ (a :: as) = (step (after step s₀ as) a).2 := rfl

@[simp] theorem history_nil : history step s₀ [] = [] := rfl

@[simp] theorem history_cons (a : A) (as : List A) :
    history step s₀ (a :: as) = (a, (step (after step s₀ as) a).1) :: history step s₀ as := rfl

/-- A run in two parts. -/
theorem after_append (as bs : List A) :
    after step s₀ (bs ++ as) = after step (after step s₀ as) bs := by
  induction bs with
  | nil => rfl
  | cons b bs ih => rw [List.cons_append, after_cons, after_cons, ih]

/-- The history of a run in two parts. -/
theorem history_append (as bs : List A) :
    history step s₀ (bs ++ as) = history step (after step s₀ as) bs ++ history step s₀ as := by
  induction bs with
  | nil => rfl
  | cons b bs ih =>
    rw [List.cons_append, history_cons, history_cons, ih, after_append, List.cons_append]

variable {step s₀}

/-- The invariant rule of runs. -/
theorem after_invariant (P : List (A × B) → S → Prop) (h₀ : P [] s₀)
    (hstep : ∀ h s a, P h s → P ((a, (step s a).1) :: h) (step s a).2) :
    ∀ as, P (history step s₀ as) (after step s₀ as)
  | [] => h₀
  | a :: as => hstep _ _ a (after_invariant P h₀ hstep as)

/-- Machines related step by step stay related and have the same results. -/
theorem simulation {step' : T → A → B × T} {t₀ : T} (R : S → T → Prop) (h₀ : R s₀ t₀)
    (hstep : ∀ s t a, R s t → (step s a).1 = (step' t a).1 ∧ R (step s a).2 (step' t a).2) :
    ∀ as, history step s₀ as = history step' t₀ as ∧ R (after step s₀ as) (after step' t₀ as)
  | [] => ⟨rfl, h₀⟩
  | a :: as => by
    obtain ⟨hh, hR⟩ := simulation R h₀ hstep as
    obtain ⟨hb, hR'⟩ := hstep _ _ a hR
    exact ⟨by rw [history_cons, history_cons, hh, hb], hR'⟩

end Machine
