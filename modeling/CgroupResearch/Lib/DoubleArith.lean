import CgroupResearch.Lib.CNumber

/-!
# Arithmetic of floating-point values

The operations of IEEE 754 on `double`s, rounding to nearest: the result is the `double`
nearest to the exact one, to even on ties. The sign of a zero is that of the standard.
-/

namespace Double

open CNumber

/-- The `double` nearest to a number. -/
def round (q : ℚ) : Double := toDouble (decide (q < 0)) |q|

/-- The sum. A sum of opposite values is the positive zero. -/
def add : Double → Double → Double
  | .nan, _ => .nan
  | _, .nan => .nan
  | .inf s, .inf s' => if s = s' then .inf s else .nan
  | .inf s, .fin _ _ => .inf s
  | .fin _ _, .inf s => .inf s
  | .fin s a, .fin s' b =>
    let q := value s a + value s' b
    if q = 0 then .fin (s && s') 0 else round q

/-- The product. -/
def mul : Double → Double → Double
  | .nan, _ => .nan
  | _, .nan => .nan
  | .inf s, .inf s' => .inf (xor s s')
  | .inf s, .fin s' b => if b = 0 then .nan else .inf (xor s s')
  | .fin s a, .inf s' => if a = 0 then .nan else .inf (xor s s')
  | .fin s a, .fin s' b => toDouble (xor s s') (a * b)

/-- The quotient. -/
def div : Double → Double → Double
  | .nan, _ => .nan
  | _, .nan => .nan
  | .inf _, .inf _ => .nan
  | .inf s, .fin s' _ => .inf (xor s s')
  | .fin s _, .inf s' => .fin (xor s s') 0
  | .fin s a, .fin s' b =>
    if b = 0 then
      if a = 0 then .nan else .inf (xor s s')
    else
      toDouble (xor s s') (a / b)

/-- The negation. -/
def neg : Double → Double
  | .nan => .nan
  | .inf s => .inf (!s)
  | .fin s a => .fin (!s) a

/-- The difference. -/
def sub (x y : Double) : Double := add x (neg y)

/-- `fabs`. -/
def abs : Double → Double
  | .nan => .nan
  | .inf _ => .inf false
  | .fin _ a => .fin false a

/-- The comparison `x == y`. -/
def eq (x y : Double) : Bool := le x y && le y x

theorem roundHalfEven_intCast (n : ℤ) : roundHalfEven n = n := by
  rw [roundHalfEven, Int.floor_intCast, sub_self, if_pos (.inl (by norm_num))]

/-- A number that is rounded is a number. -/
theorem toDouble_ne_nan (neg : Bool) (q : ℚ) : toDouble neg q ≠ .nan := by
  rw [toDouble]
  split_ifs
  · exact fun h => Double.noConfusion h
  · exact fun h => Double.noConfusion h

theorem round_one : round 1 = .ofRat 1 := by
  have hplace : lastPlace 1 = -52 := by
    rw [lastPlace, Int.log_one_right]
    rfl
  have hround : roundMagnitude 1 = 1 := by
    have hdiv : (1 : ℚ) / 2 ^ (-52 : ℤ) = ((2 ^ 52 : ℤ) : ℚ) := by norm_num
    rw [roundMagnitude, hplace, hdiv, roundHalfEven_intCast]
    norm_num
  rw [round, abs_one, toDouble_eq_fin (n := 0) (by norm_num) (by norm_num), hround]
  rfl

end Double
