import Mathlib.Data.List.MinMax

/-!
# The first of the largest

A loop that keeps the best of what it has seen, and takes another only if it is better, finds
the first element of the list with the largest value, `List.argmax`; the loop may skip some of
the elements. The rule for such loops is `loop_eq`, and `spec_of_mem` says what is known of the
result.
-/

namespace Argmax

variable {α β γ δ : Type*} [LinearOrder β] {f : α → β} {p : α → Bool} {l : List α}

/-- A turn of `List.argmax`: an element replaces the best one if it is better, or the first. -/
theorem argAux_eq_ite (f : α → β) (best : Option α) (x : α) :
    List.argAux (fun b c => f c < f b) best x =
      if best.all fun b => f b < f x then some x else best := by
  cases best with
  | none => rfl
  | some b =>
    rw [List.argAux, Option.all_some]
    exact if_congr decide_eq_true_iff.symm rfl rfl

/-- The loop `loop` keeps the best element `x` as `mk x`, skips those without `p`, and returns
    `ret` of what it has in the end. Its turns are only looked at on elements with `q`, which
    those of the list have. -/
theorem loop_eq {q : α → Prop} (hl : ∀ x ∈ l, q x) {loop : List α → Option γ → δ}
    {ret : Option γ → δ} {mk : α → γ} (hnil : ∀ best, loop [] best = ret best)
    (hskip : ∀ x rest best, q x → p x = false → loop (x :: rest) best = loop rest best)
    (hturn : ∀ x rest (best : Option α), q x → p x = true → loop (x :: rest) (best.map mk) =
      if best.all fun b => f b < f x then loop rest (some (mk x)) else loop rest (best.map mk)) :
    loop l none = ret (((l.filter p).argmax f).map mk) := by
  suffices h : ∀ best : Option α, loop l (best.map mk) =
      ret (((l.filter p).foldl (List.argAux fun b c => f c < f b) best).map mk) from h none
  intro best
  induction l generalizing best with
  | nil => exact hnil _
  | cons x l ih =>
    have hx := hl x List.mem_cons_self
    have ih := ih fun y hy => hl y (List.mem_cons_of_mem x hy)
    cases hp : p x with
    | false => rw [hskip x l _ hx hp, ih, List.filter_cons_of_neg (Bool.eq_false_iff.1 hp)]
    | true =>
      rw [hturn x l best hx hp, List.filter_cons_of_pos hp, List.foldl_cons, argAux_eq_ite]
      by_cases hbetter : (best.all fun b => f b < f x) = true
      · rw [if_pos hbetter, if_pos hbetter]
        exact ih (some x)
      · rw [if_neg hbetter, if_neg hbetter]
        exact ih best

/-- The result is one of the elements that are not skipped, with the largest value of these. -/
theorem spec_of_mem {m : α} (h : m ∈ (l.filter p).argmax f) :
    m ∈ l ∧ p m = true ∧ ∀ a ∈ l, p a = true → f a ≤ f m := by
  obtain ⟨hmem, hp⟩ := List.mem_filter.1 (List.argmax_mem h)
  exact ⟨hmem, hp, fun a ha hpa => List.le_of_mem_argmax (List.mem_filter.2 ⟨ha, hpa⟩) h⟩

end Argmax
