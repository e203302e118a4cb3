import CgroupResearch.Lib.DoubleArith

/-!
# Exact floating-point arithmetic

Where a result is a `double` itself, nothing is rounded. The numbers with few enough binary
digits (`Dyadic`) are `double`s (`round_of_dyadic`), so that sums, differences and halves of them
are exact as long as these have few digits too.

* `exact q`: the `double` of the value `q`, with the sign of `q`;
* `le_exact`, `lt_exact`: the comparisons are those of the values;
* `add_exact`, `sub_exact`, `half_exact`: the operations are those of the values.
-/

namespace CNumber

/-! ## Binary digits -/

/-- A number with no more than 53 binary digits, above the least of them, is not rounded. -/
theorem roundMagnitude_of_digits {a : ℕ} (ha : a < 2 ^ 53) {e : ℤ} (he : -1074 ≤ e) :
    roundMagnitude (a * 2 ^ e) = a * 2 ^ e := by
  rcases Nat.eq_zero_or_pos a with rfl | hpos
  · rw [Nat.cast_zero, zero_mul, roundMagnitude_zero]
  have hq : (0 : ℚ) < a * 2 ^ e := by positivity
  have hlt : (a : ℚ) * 2 ^ e < ((2 : ℕ) : ℚ) ^ (53 + e) := by
    rw [Nat.cast_ofNat, zpow_add₀ (by norm_num)]
    exact mul_lt_mul_of_pos_right (by exact_mod_cast ha) (by positivity)
  have hlog := (Int.lt_zpow_iff_log_lt (by norm_num) hq).1 hlt
  have hplace : lastPlace (a * 2 ^ e) ≤ e := max_le (by omega) he
  obtain ⟨m, hm⟩ := Int.eq_ofNat_of_zero_le (sub_nonneg.2 hplace)
  -- in units of the last place, the number is an integer
  have hunits : (a : ℚ) * 2 ^ e / 2 ^ lastPlace (a * 2 ^ e) = ((a * 2 ^ m : ℤ) : ℚ) := by
    rw [mul_div_assoc, ← zpow_sub₀ (by norm_num), hm]
    push_cast
    rfl
  rw [roundMagnitude, hunits, Double.roundHalfEven_intCast, ← hunits]
  exact div_mul_cancel₀ _ (by positivity)

/-- A rounded number has a decimal expansion, and is not changed by rounding it again. -/
theorem roundMagnitude_eq_digits {q : ℚ} (hq : 0 ≤ q) :
    ∃ (a : ℕ) (e : ℤ), roundMagnitude q = a * 2 ^ e ∧
      roundMagnitude (roundMagnitude q) = roundMagnitude q := by
  have hplace : -1074 ≤ lastPlace q := le_max_right _ _
  have hlt : q / 2 ^ lastPlace q < 2 ^ 53 := by
    rw [div_lt_iff₀ (by positivity), ← zpow_natCast, ← zpow_add₀ (by norm_num)]
    calc q < ((2 : ℕ) : ℚ) ^ (Int.log 2 q + 1) := Int.lt_zpow_succ_log_self (by norm_num) q
      _ ≤ 2 ^ ((53 : ℕ) + lastPlace q) := by
        rw [Nat.cast_ofNat]
        refine zpow_le_zpow_right₀ (by norm_num) ?_
        have hle : Int.log 2 q - 52 ≤ lastPlace q := le_max_left _ _
        push_cast
        omega
  have hfloor : ⌊q / 2 ^ lastPlace q⌋ < 2 ^ 53 := Int.floor_lt.2 (by exact_mod_cast hlt)
  have hround : 0 ≤ Double.roundHalfEven (q / 2 ^ lastPlace q) ∧
      Double.roundHalfEven (q / 2 ^ lastPlace q) ≤ 2 ^ 53 := by
    have hnonneg : (0 : ℤ) ≤ ⌊q / 2 ^ lastPlace q⌋ := Int.floor_nonneg.2 (by positivity)
    rw [Double.roundHalfEven]
    split_ifs <;> omega
  obtain ⟨a, ha⟩ := Int.eq_ofNat_of_zero_le hround.1
  have heq : roundMagnitude q = a * 2 ^ lastPlace q := by
    rw [roundMagnitude, ha]
    rfl
  refine ⟨a, lastPlace q, heq, ?_⟩
  rw [heq]
  rcases Nat.lt_or_ge a (2 ^ 53) with hsmall | hlarge
  · exact roundMagnitude_of_digits hsmall hplace
  · -- the digits have run over into the next place
    obtain rfl : a = 2 ^ 53 := by
      have hle := hround.2
      rw [ha] at hle
      exact le_antisymm (by exact_mod_cast hle) hlarge
    have hnext : (((2 ^ 53 : ℕ) : ℚ)) * 2 ^ lastPlace q =
        ((2 ^ 52 : ℕ) : ℚ) * 2 ^ (lastPlace q + 1) := by
      rw [zpow_add_one₀ (by norm_num)]
      push_cast
      ring
    rw [hnext]
    exact roundMagnitude_of_digits (by norm_num) (by omega)

end CNumber

namespace Double

open CNumber

/-! ## Few digits -/

/-- The `double` of a value; its zero is the positive one. -/
def exact (q : ℚ) : Double := .fin (decide (q < 0)) |q|

theorem value_exact (q : ℚ) : value (decide (q < 0)) |q| = q := by
  rw [value]
  by_cases h : q < 0
  · rw [decide_eq_true h, if_pos rfl, abs_of_neg h, neg_neg]
  · rw [decide_eq_false h, if_neg Bool.false_ne_true, abs_of_nonneg (not_lt.1 h)]

/-- Exact numbers are compared as rationals. -/
theorem le_exact (p q : ℚ) : le (exact p) (exact q) = decide (p ≤ q) := by
  rw [exact, exact, le, value_exact, value_exact]

theorem lt_exact (p q : ℚ) : lt (exact p) (exact q) = decide (p < q) := by
  rw [exact, exact, lt, value_exact, value_exact]

theorem exact_zero : exact 0 = .ofRat 0 := by
  rw [exact, abs_zero, decide_eq_false (by norm_num)]
  rfl

/-- A number with no more than 53 binary digits, the last of them the `k`-th behind the point. -/
def Dyadic (k : ℕ) (q : ℚ) : Prop := ∃ a : ℤ, |a| < 2 ^ 53 ∧ q = a / 2 ^ k

theorem Dyadic.abs {k : ℕ} {q : ℚ} (h : Dyadic k q) : Dyadic k |q| := by
  obtain ⟨a, ha, rfl⟩ := h
  refine ⟨|a|, by rwa [abs_abs], ?_⟩
  rw [abs_div, abs_of_pos (show (0 : ℚ) < 2 ^ k by positivity), Int.cast_abs]

/-- Few digits are not rounded. -/
theorem Dyadic.roundMagnitude_eq {k : ℕ} (hk : k ≤ 52) {q : ℚ} (hq : 0 ≤ q) (h : Dyadic k q) :
    roundMagnitude q = q := by
  obtain ⟨a, ha, rfl⟩ := h
  obtain ⟨m, rfl⟩ : ∃ m : ℕ, a = m := by
    refine Int.eq_ofNat_of_zero_le ?_
    have hnonneg := (le_div_iff₀ (by positivity)).1 hq
    rw [zero_mul] at hnonneg
    exact_mod_cast hnonneg
  have heq : ((m : ℤ) : ℚ) / 2 ^ k = m * 2 ^ (-k : ℤ) := by
    rw [zpow_neg, zpow_natCast, div_eq_mul_inv, Int.cast_natCast]
  rw [heq]
  exact roundMagnitude_of_digits (by rw [Nat.abs_cast] at ha; exact_mod_cast ha) (by omega)

/-- A dyadic number is not rounded. -/
theorem toDouble_of_dyadic {k : ℕ} (hk : k ≤ 52) {q : ℚ} (hq : 0 ≤ q) (h : Dyadic k q)
    (neg : Bool) : toDouble neg q = .fin neg q := by
  obtain ⟨a, ha, hqa⟩ := id h
  have hle : q ≤ 2 ^ 53 := by
    have hone : (1 : ℚ) ≤ 2 ^ k := one_le_pow₀ (by norm_num)
    have habs : (a : ℚ) ≤ 2 ^ 53 := by exact_mod_cast (le_abs_self a).trans ha.le
    rw [hqa, div_le_iff₀ (by positivity)]
    nlinarith
  rw [toDouble_eq_fin hle (by norm_num), h.roundMagnitude_eq hk hq]

/-- Numbers with few digits are `double`s. -/
theorem round_of_dyadic {k : ℕ} (hk : k ≤ 52) {q : ℚ} (h : Dyadic k q) : round q = exact q :=
  toDouble_of_dyadic hk (abs_nonneg q) h.abs _

section

variable {k : ℕ} {p q : ℚ}

/-- A sum with few digits is exact. -/
theorem add_exact (hk : k ≤ 52) (h : Dyadic k (p + q)) :
    add (exact p) (exact q) = exact (p + q) := by
  rw [exact, exact, add]
  simp only [value_exact]
  split_ifs with hzero
  · -- two numbers that are negative do not have the sum zero
    have hsigns : (decide (p < 0) && decide (q < 0)) = false := by
      rw [Bool.and_eq_false_iff, decide_eq_false_iff_not, decide_eq_false_iff_not]
      by_contra hboth
      push Not at hboth
      linarith [hboth.1, hboth.2]
    rw [hsigns, hzero, exact_zero]
    rfl
  · exact round_of_dyadic hk h

/-- A difference with few digits is exact. -/
theorem sub_exact (hk : k ≤ 52) (h : Dyadic k (p - q)) :
    sub (exact p) (exact q) = exact (p - q) := by
  have hneg : value (!decide (q < 0)) |q| = -q := by
    rw [value]
    by_cases h : q < 0
    · rw [decide_eq_true h, Bool.not_true, if_neg Bool.false_ne_true, abs_of_neg h]
    · rw [decide_eq_false h, Bool.not_false, if_pos rfl, abs_of_nonneg (not_lt.1 h)]
  rw [exact, exact, sub, neg, add]
  simp only [value_exact, hneg, ← sub_eq_add_neg]
  split_ifs with hzero
  · rw [sub_eq_zero.1 hzero, Bool.and_not_self, sub_self, exact_zero]
    rfl
  · exact round_of_dyadic hk h

/-- A half with few digits is exact. -/
theorem half_exact (hk : k ≤ 52) (h : Dyadic k (p / 2)) :
    div (exact p) (.ofRat 2) = exact (p / 2) := by
  have hsign : decide (p / 2 < 0) = decide (p < 0) := by
    rw [decide_eq_decide, div_lt_iff₀ (by norm_num), zero_mul]
  have habs : |p| / 2 = |p / 2| := by rw [abs_div, abs_two]
  rw [exact, ofRat, div, if_neg (by norm_num), Bool.xor_false, exact, hsign, habs]
  exact toDouble_of_dyadic hk (abs_nonneg _) h.abs _

end

end Double
