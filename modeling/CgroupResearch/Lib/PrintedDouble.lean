import CgroupResearch.Lib.DoubleError
import CgroupResearch.Lib.DoubleExact
import CgroupResearch.Lib.PyJson

/-!
# The decimals of Python for `double`s

`float.__repr__` writes a decimal that reads back as the `double`. There is one for each `double`,
as a binary fraction has a decimal expansion that ends (`PyFloat.exists_prints`), and the decimal
for a result that was computed with a small error is itself near the exact number
(`PyFloat.Prints.computes`).
-/

namespace PyFloat

open CNumber Double

/-! ## Decimals -/

/-- What `float.__repr__` writes for a `double`: zero, or a decimal that reads back as it. -/
inductive Prints : PyFloat → Double → Prop
  | nan : Prints .nan .nan
  | inf (neg : Bool) : Prints (.inf neg) (.inf neg)
  | zero (neg : Bool) : Prints (.dec neg 0 [] 1) (.fin neg 0)
  | dec {neg : Bool} {d : Fin 10} {ds : List (Fin 10)} {decpt : ℤ} {mag : ℚ} (hne : mag ≠ 0)
      (hread : toDouble neg (decimal d ds decpt) = .fin neg mag) :
      Prints (.dec neg d ds decpt) (.fin neg mag)

theorem decimal_nonneg (d : Fin 10) (ds : List (Fin 10)) (decpt : ℤ) : 0 ≤ decimal d ds decpt :=
  mul_nonneg (Nat.cast_nonneg _) (by positivity)

/-- Every number has digits. -/
theorem exists_digitsValue (n : ℕ) : ∃ d ds, digitsValue (d :: ds) = n := by
  induction n using Nat.strong_induction_on with
  | _ n ih =>
    rcases Nat.lt_or_ge n 10 with hn | hn
    · exact ⟨⟨n, hn⟩, [], by simp [digitsValue]⟩
    · obtain ⟨d, ds, hds⟩ := ih (n / 10) (by omega)
      refine ⟨d, ds ++ [⟨n % 10, by omega⟩], ?_⟩
      rw [← List.cons_append, digitsValue, List.foldl_append, ← digitsValue, hds]
      exact Nat.div_add_mod n 10

/-- A binary fraction has a decimal expansion that ends. -/
theorem exists_decimal (a : ℕ) (e : ℤ) : ∃ d ds decpt, decimal d ds decpt = a * 2 ^ e := by
  obtain ⟨n, j, hnj⟩ : ∃ (n : ℕ) (j : ℤ), (n : ℚ) * 10 ^ j = a * 2 ^ e := by
    cases e with
    | ofNat m => exact ⟨a * 2 ^ m, 0, by simp⟩
    | negSucc m =>
      refine ⟨a * 5 ^ (m + 1), Int.negSucc m, ?_⟩
      rw [zpow_negSucc, zpow_negSucc, show (10 : ℚ) = 5 * 2 by norm_num, mul_pow]
      push_cast
      field_simp
  obtain ⟨d, ds, hds⟩ := exists_digitsValue n
  exact ⟨d, ds, j + (ds.length + 1), by rw [decimal, hds, add_sub_cancel_right, hnj]⟩

/-- A `double` other than NaN: one that something is rounded to. -/
theorem exists_prints (neg : Bool) {q : ℚ} (hq : 0 ≤ q) :
    ∃ x : PyFloat, x.Prints (toDouble neg q) := by
  obtain ⟨a, e, hdigits, hagain⟩ := roundMagnitude_eq_digits hq
  obtain ⟨d, ds, decpt, hdecimal⟩ := exists_decimal a e
  rw [toDouble]
  split_ifs with hlarge
  · exact ⟨_, .inf neg⟩
  rcases eq_or_ne (roundMagnitude q) 0 with hzero | hne
  · rw [hzero]
    exact ⟨_, .zero neg⟩
  · refine ⟨.dec neg d ds decpt, .dec hne ?_⟩
    rw [hdecimal, ← hdigits, toDouble, hagain, if_neg hlarge]

section

variable {x : PyFloat} {y : Double} {c q : ℚ}

theorem Prints.eq_zero (h : x.Prints (.ofRat 0)) : x = .dec false 0 [] 1 := by
  cases h with
  | zero => rfl
  | dec hne => exact absurd rfl hne

/-- The decimal for zero. -/
theorem Prints.computes_zero (h : x.Prints (.ofRat 0)) : x.Computes 0 := .inl ⟨rfl, h.eq_zero⟩

/-- A decimal with few binary digits stands for itself. -/
theorem Prints.of_dyadic {d : Fin 10} {ds : List (Fin 10)} {decpt : ℤ} {k : ℕ} (hk : k ≤ 52)
    (hdecimal : decimal d ds decpt = q) (hne : q ≠ 0) (hq : Dyadic k q) :
    (PyFloat.dec false d ds decpt).Prints (.ofRat q) := by
  refine .dec hne ?_
  rw [hdecimal]
  exact toDouble_of_dyadic hk (hdecimal ▸ decimal_nonneg d ds decpt) hq false

/-- The decimal for a result with a small error is near the number too. -/
theorem Prints.computes (h : x.Prints y) (hy : y.Approx c q) (hc : roundingFactor * c ≤ 2)
    (hq : Middling q) : x.Computes q := by
  obtain ⟨v, rfl, hv⟩ := hy
  cases h with
  | zero => exact absurd hv.left_pos (lt_irrefl 0)
  | @dec _ d ds decpt _ _ hread =>
    have hround : roundMagnitude (decimal d ds decpt) = v := by
      rw [toDouble] at hread
      split_ifs at hread
      exact (Double.fin.inj hread).2
    have hv_lower : (2 : ℚ) ^ (-1021 : ℤ) ≤ v := by
      have hdouble : (2 : ℚ) ^ (-200 : ℤ) = 2 * 2 ^ (-201 : ℤ) :=
        zpow_one_add₀ (by norm_num) (-201)
      have hfactor : c ≤ 2 :=
        (le_mul_of_one_le_left hv.factor_pos.le (by norm_num [roundingFactor])).trans hc
      have hlower := hv.lower.trans (mul_le_mul_of_nonneg_right hfactor hv.left_pos.le)
      have hsmall : (2 : ℚ) ^ (-1021 : ℤ) ≤ 2 ^ (-201 : ℤ) :=
        zpow_le_zpow_right₀ (by norm_num) (by norm_num)
      linarith [hq.lower]
    have hnormal := normal_of_roundMagnitude (decimal_nonneg d ds decpt) (hround ▸ hv_lower)
    have hnear := (within_roundMagnitude hnormal).symm
    rw [hround] at hnear
    have hwithin := (hnear.trans hv).mono hc
    exact .inr ⟨d, ds, decpt, rfl, by linarith [hwithin.lower], hwithin.upper⟩

end

end PyFloat
