import CgroupResearch.Lib.DoubleArith

/-!
# Relative errors of floating-point arithmetic

A `double` that was computed for a positive number is off by a factor close to one. Each operation
multiplies the factors of its arguments, and rounding adds one factor more, as long as the results
are far from the ends of the range.

* `Within c x q`: two positive numbers that differ by a factor of `c` at most;
* `within_roundMagnitude`: the factor of one rounding;
* `Approx c x q`: a `double` within such a factor of `q`, and what the operations make of it.
-/

namespace CNumber

/-! ## Rounding to an integer -/

theorem le_roundHalfEven (q : ℚ) : q ≤ Double.roundHalfEven q + 1 := by
  have hfloor := Int.lt_floor_add_one q
  rw [Double.roundHalfEven]
  split_ifs
  · exact hfloor.le
  · push_cast
    linarith

/-- Rounding takes away one unit in the last place at most. -/
theorem le_roundMagnitude (q : ℚ) : q ≤ roundMagnitude q + 2 ^ lastPlace q := by
  have hpos : (0 : ℚ) < 2 ^ lastPlace q := by positivity
  calc q = q / 2 ^ lastPlace q * 2 ^ lastPlace q := (div_mul_cancel₀ _ hpos.ne').symm
    _ ≤ (Double.roundHalfEven (q / 2 ^ lastPlace q) + 1) * 2 ^ lastPlace q :=
        mul_le_mul_of_nonneg_right (le_roundHalfEven _) hpos.le
    _ = roundMagnitude q + 2 ^ lastPlace q := by rw [add_mul, one_mul, roundMagnitude]

/-- A number is normal: none is smaller that has all its binary digits. -/
def Normal (q : ℚ) : Prop := (2 : ℚ) ^ (-1022 : ℤ) ≤ q

theorem Normal.pos {q : ℚ} (h : Normal q) : 0 < q := lt_of_lt_of_le (by positivity) h

/-- The last place of a normal number is its 53rd binary digit. -/
theorem Normal.two_pow_lastPlace_le {q : ℚ} (h : Normal q) : 2 ^ lastPlace q ≤ q / 2 ^ 52 := by
  have hlog : -1022 ≤ Int.log 2 q := by
    rw [← Int.zpow_le_iff_le_log (by norm_num) h.pos]
    exact_mod_cast h
  have hplace : lastPlace q = Int.log 2 q - 52 := max_eq_left (by omega)
  have hle : (2 : ℚ) ^ Int.log 2 q ≤ q := by
    exact_mod_cast Int.zpow_log_le_self (b := 2) (by norm_num) h.pos
  rw [hplace, zpow_sub₀ (by norm_num)]
  exact div_le_div_of_nonneg_right hle (by norm_num)

/-- What is rounded to a normal number other than the least one is normal. -/
theorem normal_of_roundMagnitude {q : ℚ} (hq : 0 ≤ q)
    (h : (2 : ℚ) ^ (-1021 : ℤ) ≤ roundMagnitude q) : Normal q := by
  rcases hq.eq_or_lt with rfl | hpos
  · rw [roundMagnitude_zero] at h
    exact absurd h (not_le.2 (by positivity))
  by_contra hsmall
  rw [Normal, not_le] at hsmall
  have hlog := (Int.lt_zpow_iff_log_lt (b := 2) (x := -1022) (by norm_num) hpos).1
    (by exact_mod_cast hsmall)
  have hplace : lastPlace q = -1074 := max_eq_right (by omega)
  have hround := roundMagnitude_le q
  have hlt : (2 : ℚ) ^ (-1074 : ℤ) < 2 ^ (-1022 : ℤ) :=
    zpow_lt_zpow_right₀ (by norm_num) (by norm_num)
  have hdouble : (2 : ℚ) ^ (-1021 : ℤ) = 2 * 2 ^ (-1022 : ℤ) :=
    zpow_one_add₀ (by norm_num) (-1022)
  rw [hplace] at hround
  linarith

/-! ## Factors -/

/-- Two positive numbers differ by a factor of `c` at most. -/
structure Within (c x q : ℚ) : Prop where
  one_le : 1 ≤ c
  pos : 0 < q
  lower : q ≤ c * x
  upper : x ≤ c * q

namespace Within

variable {c d x y q r : ℚ}

theorem refl (hq : 0 < q) : Within 1 q q := ⟨le_rfl, hq, (one_mul q).ge, (one_mul q).ge⟩

theorem factor_pos (h : Within c x q) : 0 < c := zero_lt_one.trans_le h.one_le

theorem left_pos (h : Within c x q) : 0 < x :=
  pos_of_mul_pos_right (h.pos.trans_le h.lower) h.factor_pos.le

theorem symm (h : Within c x q) : Within c q x := ⟨h.one_le, h.left_pos, h.upper, h.lower⟩

theorem mono (h : Within c x q) (hcd : c ≤ d) : Within d x q where
  one_le := h.one_le.trans hcd
  pos := h.pos
  lower := h.lower.trans (mul_le_mul_of_nonneg_right hcd h.left_pos.le)
  upper := h.upper.trans (mul_le_mul_of_nonneg_right hcd h.pos.le)

/-- Errors multiply. -/
theorem trans (h : Within c x q) (h' : Within d q r) : Within (c * d) x r where
  one_le := one_le_mul_of_one_le_of_one_le h.one_le h'.one_le
  pos := h'.pos
  lower := by
    have hstep := mul_le_mul_of_nonneg_left h.lower h'.factor_pos.le
    linarith [h'.lower, mul_left_comm d c x, mul_assoc c d x]
  upper := by
    have hstep := mul_le_mul_of_nonneg_left h'.upper h.factor_pos.le
    linarith [h.upper, mul_assoc c d r]

/-- The errors of a product multiply. -/
theorem mul (h : Within c x q) (h' : Within d y r) : Within (c * d) (x * y) (q * r) where
  one_le := one_le_mul_of_one_le_of_one_le h.one_le h'.one_le
  pos := mul_pos h.pos h'.pos
  lower := (mul_le_mul h.lower h'.lower h'.pos.le
    (mul_pos h.factor_pos h.left_pos).le).trans (mul_mul_mul_comm c x d y).le
  upper := (mul_le_mul h.upper h'.upper h'.left_pos.le
    (mul_pos h.factor_pos h.pos).le).trans (mul_mul_mul_comm c q d r).le

/-- The inverse has the same error. -/
theorem inv (h : Within c x q) : Within c x⁻¹ q⁻¹ where
  one_le := h.one_le
  pos := inv_pos.2 h.pos
  lower := by
    rw [← div_eq_mul_inv, inv_eq_one_div, div_le_div_iff₀ h.pos h.left_pos, one_mul]
    exact h.upper
  upper := by
    rw [← div_eq_mul_inv, inv_eq_one_div, div_le_div_iff₀ h.left_pos h.pos, one_mul]
    exact h.lower

/-- The errors of a quotient multiply. -/
theorem div (h : Within c x q) (h' : Within d y r) : Within (c * d) (x / y) (q / r) := by
  rw [div_eq_mul_inv, div_eq_mul_inv]
  exact h.mul h'.inv

/-- A sum has the larger of the errors. -/
theorem add (h : Within c x q) (h' : Within c y r) : Within c (x + y) (q + r) where
  one_le := h.one_le
  pos := add_pos h.pos h'.pos
  lower := (add_le_add h.lower h'.lower).trans (mul_add c x y).ge
  upper := (add_le_add h.upper h'.upper).trans (mul_add c q r).ge

end Within

/-- The factor of one rounding. -/
def roundingFactor : ℚ := 1 + 1 / 2 ^ 51

/-- Rounding a normal number changes it by that factor at most. -/
theorem within_roundMagnitude {q : ℚ} (h : Normal q) :
    Within roundingFactor (roundMagnitude q) q := by
  have hplace := h.two_pow_lastPlace_le
  have hlower := le_roundMagnitude q
  have hupper := roundMagnitude_le q
  have hpos := h.pos
  rw [roundingFactor]
  refine ⟨by norm_num, hpos, ?_, ?_⟩
  · nlinarith
  · linarith

end CNumber

namespace Double

open CNumber

/-- A number that is zero or normal is not rounded to a negative zero. -/
theorem canonical_round {q : ℚ} (hq : q = 0 ∨ Normal |q|) : Canonical (round q) := by
  rw [round, toDouble]
  split_ifs
  · exact trivial
  refine ⟨roundMagnitude_nonneg (abs_nonneg q), fun hneg => ?_⟩
  rcases hq with rfl | hnormal
  · simp at hneg
  · exact (within_roundMagnitude hnormal).left_pos.ne'

/-! ## Operations -/

/-- A `double` that was computed for a positive number, with an error of a factor of `c` at
    most. -/
def Approx (c : ℚ) (x : Double) (q : ℚ) : Prop := ∃ v, x = .fin false v ∧ Within c v q

/-- A number that is far from the ends of the range. -/
structure Middling (q : ℚ) : Prop where
  lower : (2 : ℚ) ^ (-200 : ℤ) ≤ q
  upper : q ≤ 2 ^ 200

theorem approx_ofRat {q : ℚ} (hq : 0 < q) : Approx 1 (ofRat q) q := ⟨q, rfl, .refl hq⟩

/-- A result near a middling number is rounded to a `double` near it. -/
theorem approx_toDouble {c v q : ℚ} (h : Within c v q) (hc : c ≤ 2) (hq : Middling q) :
    Approx (c * roundingFactor) (toDouble false v) q := by
  have hnormal : Normal v := by
    have hhalf : (2 : ℚ) ^ (-201 : ℤ) ≤ v := by
      have hdouble : (2 : ℚ) ^ (-200 : ℤ) = 2 * 2 ^ (-201 : ℤ) :=
        zpow_one_add₀ (by norm_num) (-201)
      have hlower := h.lower.trans (mul_le_mul_of_nonneg_right hc h.left_pos.le)
      linarith [hq.lower]
    exact (zpow_le_zpow_right₀ (by norm_num) (by norm_num)).trans hhalf
  have hsmall : v ≤ 2 ^ 201 := by
    have hupper := h.upper.trans (mul_le_mul_of_nonneg_right hc h.pos.le)
    rw [pow_succ]
    linarith [hq.upper]
  refine ⟨roundMagnitude v, toDouble_eq_fin hsmall (by norm_num), ?_⟩
  rw [mul_comm c]
  exact (within_roundMagnitude hnormal).trans h

section

variable {c d p q : ℚ} {x y : Double}

/-- A product is rounded once. -/
theorem Approx.mul (hx : Approx c x p) (hy : Approx d y q) (hcd : c * d ≤ 2)
    (hq : Middling (p * q)) : Approx (c * d * roundingFactor) (x.mul y) (p * q) := by
  obtain ⟨v, rfl, hv⟩ := hx
  obtain ⟨w, rfl, hw⟩ := hy
  exact approx_toDouble (hv.mul hw) hcd hq

/-- A quotient is rounded once. -/
theorem Approx.div (hx : Approx c x p) (hy : Approx d y q) (hcd : c * d ≤ 2)
    (hq : Middling (p / q)) : Approx (c * d * roundingFactor) (x.div y) (p / q) := by
  obtain ⟨v, rfl, hv⟩ := hx
  obtain ⟨w, rfl, hw⟩ := hy
  rw [Double.div, if_neg hw.left_pos.ne']
  exact approx_toDouble (hv.div hw) hcd hq

/-- A sum is rounded once. -/
theorem Approx.add (hx : Approx c x p) (hy : Approx c y q) (hc : c ≤ 2)
    (hq : Middling (p + q)) : Approx (c * roundingFactor) (x.add y) (p + q) := by
  obtain ⟨v, rfl, hv⟩ := hx
  obtain ⟨w, rfl, hw⟩ := hy
  have hsum := hv.add hw
  have hpos := hsum.left_pos
  have hadd : (Double.fin false v).add (.fin false w) = toDouble false (v + w) := by
    show (if v + w = 0 then _ else round (v + w)) = _
    rw [if_neg hpos.ne', round, decide_eq_false (not_lt.2 hpos.le), abs_of_pos hpos]
  rw [hadd]
  exact approx_toDouble hsum hc hq

/-- A middling number, rounded. -/
theorem approx_round (hq : Middling q) : Approx roundingFactor (round q) q := by
  have hpos : 0 < q := lt_of_lt_of_le (by positivity) hq.lower
  rw [round, decide_eq_false (not_lt.2 hpos.le), abs_of_pos hpos, ← one_mul roundingFactor]
  exact approx_toDouble (.refl hpos) one_le_two hq

theorem Approx.mono (h : Approx c x q) (hcd : c ≤ d) : Approx d x q := by
  obtain ⟨v, hx, hv⟩ := h
  exact ⟨v, hx, hv.mono hcd⟩

end

end Double
