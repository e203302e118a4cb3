import Mathlib.Algebra.Order.Group.Nat
import Mathlib.Data.List.Basic
import Mathlib.Tactic.Common

/-!
# Runs of a transition system

A system takes a step for an event, where one is possible (`step : S → E → Option S`): the
event says who acts and what its environment answers. A run is the list of its events, the
first one first; what is proved of every run is proved for every interleaving.

* `run_invariant`: what holds at first and is kept by every step holds after every run;
* `exists_step_of_run`: a run that comes to a property comes to it in one of its steps;
* `countP_le_of_decreases`, `length_le_of_decreases`: a measure that steps lower bounds their
  number.
-/

namespace Transition

variable {S E : Type*} (step : S → E → Option S)

/-- The state after the events, if each of them is possible where it comes. -/
def run : S → List E → Option S
  | s, [] => some s
  | s, e :: es => (step s e).bind fun s' => run s' es

@[simp] theorem run_nil (s : S) : run step s [] = some s := rfl

theorem run_cons (s : S) (e : E) (es : List E) :
    run step s (e :: es) = (step s e).bind fun s' => run step s' es := rfl

/-- A run takes its first step, and then the others. -/
theorem run_cons_eq_some {s t : S} {e : E} {es : List E} :
    run step s (e :: es) = some t ↔ ∃ s', step s e = some s' ∧ run step s' es = some t := by
  rw [run_cons, Option.bind_eq_some_iff]

/-- A run in two parts. -/
theorem run_append (s : S) (es fs : List E) :
    run step s (es ++ fs) = (run step s es).bind fun t => run step t fs := by
  induction es generalizing s with
  | nil => rfl
  | cons e es ih =>
    rw [List.cons_append, run_cons, run_cons, Option.bind_assoc]
    simp only [ih]

variable {step}

/-- The invariant rule of runs, which may use what is known of their events. -/
theorem run_invariant (P : S → Prop) {s t : S} {es : List E}
    (hstep : ∀ s, ∀ e ∈ es, ∀ s', P s → step s e = some s' → P s') (hs : P s)
    (hrun : run step s es = some t) : P t := by
  induction es generalizing s with
  | nil => exact Option.some.inj hrun ▸ hs
  | cons e es ih =>
    obtain ⟨s', hs', hrun⟩ := (run_cons_eq_some step).1 hrun
    exact ih (fun s e he => hstep s e (List.mem_cons_of_mem _ he))
      (hstep s e List.mem_cons_self s' hs hs') hrun

/-- A run that comes to a property it does not start with comes to it in one of its steps. -/
theorem exists_step_of_run (P : S → Prop) {s t : S} {es : List E} (hs : ¬P s) (ht : P t)
    (hrun : run step s es = some t) :
    ∃ as e bs s₁ s₂, es = as ++ e :: bs ∧ run step s as = some s₁ ∧ step s₁ e = some s₂ ∧
      run step s₂ bs = some t ∧ ¬P s₁ ∧ P s₂ := by
  induction es generalizing s with
  | nil => exact absurd (Option.some.inj hrun ▸ ht) hs
  | cons e es ih =>
    obtain ⟨s', hs', hrun'⟩ := (run_cons_eq_some step).1 hrun
    by_cases hP : P s'
    · exact ⟨[], e, es, s, s', rfl, rfl, hs', hrun', hs, hP⟩
    · obtain ⟨as, f, bs, s₁, s₂, rfl, h₁, h₂, h₃, h₄⟩ := ih hP hrun'
      exact ⟨e :: as, f, bs, s₁, s₂, rfl, (run_cons_eq_some step).2 ⟨s', hs', h₁⟩, h₂, h₃, h₄⟩

/-- A measure that every event of a kind lowers, and no event raises, bounds their number. -/
theorem countP_le_of_decreases (P : S → Prop) (m : S → ℕ) (p : E → Bool) {s t : S} {es : List E}
    (hstep : ∀ s, ∀ e ∈ es, ∀ s', P s → step s e = some s' →
      P s' ∧ m s' + (if p e then 1 else 0) ≤ m s)
    (hs : P s) (hrun : run step s es = some t) : es.countP p + m t ≤ m s := by
  induction es generalizing s with
  | nil => exact Option.some.inj hrun ▸ (Nat.zero_add _).le
  | cons e es ih =>
    obtain ⟨s', hs', hrun⟩ := (run_cons_eq_some step).1 hrun
    obtain ⟨hP, hm⟩ := hstep s e List.mem_cons_self s' hs hs'
    have hle := ih (fun s e he => hstep s e (List.mem_cons_of_mem _ he)) hP hrun
    rw [List.countP_cons]
    omega

/-- A measure that every step lowers bounds the length of runs. -/
theorem length_le_of_decreases (P : S → Prop) (m : S → ℕ) {s t : S} {es : List E}
    (hstep : ∀ s e s', P s → step s e = some s' → P s' ∧ m s' < m s) (hs : P s)
    (hrun : run step s es = some t) : es.length + m t ≤ m s := by
  have h := countP_le_of_decreases P m (fun _ => true)
    (fun s e _ s' hs hs' => hstep s e s' hs hs') hs hrun
  rwa [List.countP_true] at h

end Transition
