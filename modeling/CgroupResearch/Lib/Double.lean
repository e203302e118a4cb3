import Mathlib.Data.Rat.Floor
import Mathlib.Tactic

/-!
# Floating-point values

A `double` as the values it can take: a finite value is a rational with a sign
(so that there are two zeros), the others are the infinities and NaN. The
comparisons of C are exact on them. (Every finite rational is a value here, of
which those of a real `double` are a part.)
-/

/-- The values of a `double`. -/
inductive Double
  | nan
  | inf (neg : Bool)
  | fin (neg : Bool) (mag : ℚ)
  deriving DecidableEq, Repr

namespace Double

/-- The finite value of a magnitude. -/
def value (neg : Bool) (mag : ℚ) : ℚ := if neg then -mag else mag

/-- The constant of a rational. -/
def ofRat (q : ℚ) : Double := .fin false q

/-- `isfinite`. -/
def isfinite : Double → Bool
  | .fin _ _ => true
  | _ => false

/-- The comparison `x <= y`. -/
def le : Double → Double → Bool
  | .nan, _ => false
  | _, .nan => false
  | .inf true, _ => true
  | _, .inf false => true
  | .inf false, _ => false
  | _, .inf true => false
  | .fin s a, .fin s' b => value s a ≤ value s' b

/-- The comparison `x < y`. -/
def lt : Double → Double → Bool
  | .nan, _ => false
  | _, .nan => false
  | .inf true, .inf true => false
  | .inf true, _ => true
  | .inf false, .inf false => false
  | _, .inf false => true
  | .inf false, _ => false
  | _, .inf true => false
  | .fin s a, .fin s' b => value s a < value s' b

/-- `x < y` and `y <= x` exclude each other. -/
theorem le_eq_false_of_lt {x y : Double} (h : lt x y = true) : le y x = false := by
  rcases x with _ | ⟨_ | _⟩ | ⟨s, a⟩ <;> rcases y with _ | ⟨_ | _⟩ | ⟨s', b⟩ <;>
    simp_all [lt, le]

/-- Of two numbers, one is at most the other. -/
theorem le_of_lt_eq_false {x y : Double} (hx : x ≠ .nan) (hy : y ≠ .nan) (h : lt x y = false) :
    le y x = true := by
  cases x with
  | nan => exact absurd rfl hx
  | inf s => cases y with
    | nan => exact absurd rfl hy
    | inf s' => cases s <;> cases s' <;> first | rfl | cases h
    | fin s' b => cases s <;> first | rfl | cases h
  | fin s a => cases y with
    | nan => exact absurd rfl hy
    | inf s' => cases s' <;> first | rfl | cases h
    | fin s' b => simpa [lt, le] using h

/-! ## Order -/

/-- The place of a value that is a number in the order of the numbers. -/
def rank : Double → WithBot (WithTop ℚ)
  | .nan => ⊥
  | .inf true => ⊥
  | .inf false => (⊤ : WithTop ℚ)
  | .fin s a => ((value s a : ℚ) : WithTop ℚ)

/-- Numbers are compared by their places. -/
theorem lt_iff_rank_lt {x y : Double} (hx : x ≠ .nan) (hy : y ≠ .nan) :
    lt x y = true ↔ rank x < rank y := by
  cases x with
  | nan => exact absurd rfl hx
  | inf s =>
    cases y with
    | nan => exact absurd rfl hy
    | inf s' => cases s <;> cases s' <;> simp [lt, rank]
    | fin s' b => cases s <;> simp [lt, rank]
  | fin s a =>
    cases y with
    | nan => exact absurd rfl hy
    | inf s' =>
      cases s' with
      | false => exact ⟨fun _ => WithBot.coe_lt_coe.2 (WithTop.coe_lt_top _), fun _ => rfl⟩
      | true => simp [lt, rank]
    | fin s' b => simp [lt, rank]

theorem ne_nan_of_lt {x y : Double} (h : lt x y = true) : x ≠ .nan ∧ y ≠ .nan := by
  constructor
  · rintro rfl
    cases h
  · rintro rfl
    cases x <;> cases h

/-- The order is transitive. -/
theorem lt_trans {x y z : Double} (hxy : lt x y = true) (hyz : lt y z = true) :
    lt x z = true := by
  obtain ⟨hx, hy⟩ := ne_nan_of_lt hxy
  obtain ⟨-, hz⟩ := ne_nan_of_lt hyz
  rw [lt_iff_rank_lt hx hz]
  exact ((lt_iff_rank_lt hx hy).1 hxy).trans ((lt_iff_rank_lt hy hz).1 hyz)

theorem lt_asymm {x y : Double} (h : lt x y = true) : lt y x = false := by
  obtain ⟨hx, hy⟩ := ne_nan_of_lt h
  rw [← Bool.not_eq_true, lt_iff_rank_lt hy hx]
  exact ((lt_iff_rank_lt hx hy).1 h).asymm

/-- Numbers are in the order of their places. -/
theorem le_iff_rank_le {x y : Double} (hx : x ≠ .nan) (hy : y ≠ .nan) :
    le x y = true ↔ rank x ≤ rank y := by
  rw [← not_lt, ← lt_iff_rank_lt hy hx, Bool.not_eq_true]
  constructor
  · intro hle
    by_contra hlt
    rw [Bool.not_eq_false] at hlt
    rw [le_eq_false_of_lt hlt] at hle
    cases hle
  · exact le_of_lt_eq_false hy hx

theorem lt_irrefl (x : Double) : lt x x = false := by
  cases h : lt x x with
  | false => rfl
  | true => rw [← h, lt_asymm h]

/-! ## Sorting -/

/-- A number other than the negative zero, with its sign apart. -/
def Canonical : Double → Prop
  | .nan => False
  | .inf _ => True
  | .fin neg mag => 0 ≤ mag ∧ (neg = true → mag ≠ 0)

theorem Canonical.ne_nan {x : Double} (h : x.Canonical) : x ≠ .nan := by
  rintro rfl
  exact h

/-- Such a number is determined by its place. -/
theorem Canonical.eq_of_rank_eq {x y : Double} (hx : x.Canonical) (hy : y.Canonical)
    (h : rank x = rank y) : x = y := by
  have hfin : ∀ {s : Bool} {a : ℚ}, ((value s a : ℚ) : WithTop ℚ) ≠ ⊤ := WithTop.coe_ne_top
  cases x with
  | nan => exact hx.elim
  | inf s =>
    cases y with
    | nan => exact hy.elim
    | inf s' => cases s <;> cases s' <;> simp_all [rank]
    | fin s' b => cases s <;> simp [rank] at h
  | fin s a =>
    cases y with
    | nan => exact hy.elim
    | inf s' => cases s' <;> simp [rank] at h
    | fin s' b =>
      have hvalue : value s a = value s' b := by simpa [rank] using h
      obtain ⟨ha, hsa⟩ := hx
      obtain ⟨hb, hsb⟩ := hy
      cases s <;> cases s' <;> simp [value] at hvalue hsa hsb ⊢
      · exact hvalue
      · have hzero : b = 0 := by linarith
        exact hsb hzero
      · have hzero : a = 0 := by linarith
        exact hsa hzero
      · exact hvalue

/-- Such numbers have one order. -/
theorem insertionSort_eq_of_perm {l l' : List Double} (h : l.Perm l')
    (hl : ∀ x ∈ l, Canonical x) :
    l.insertionSort (fun x y => le x y = true) = l'.insertionSort fun x y => le x y = true := by
  classical
  have hsort : ∀ k : List Double, (∀ x ∈ k, Canonical x) →
      k.insertionSort (fun x y => le x y = true) =
        k.insertionSort fun x y => rank x ≤ rank y := by
    intro k hk
    have hmap := List.map_insertionSort (r := fun x y => le x y = true)
      (s := fun x y => rank x ≤ rank y) id k fun x hx y hy =>
        le_iff_rank_le (hk x hx).ne_nan (hk y hy).ne_nan
    rwa [List.map_id, List.map_id] at hmap
  have hl' : ∀ x ∈ l', Canonical x := fun x hx => hl x (h.mem_iff.2 hx)
  rw [hsort l hl, hsort l' hl']
  have htotal : Std.Total fun x y : Double => rank x ≤ rank y := ⟨fun x y => le_total _ _⟩
  have htrans : IsTrans Double fun x y => rank x ≤ rank y := ⟨fun _ _ _ => le_trans⟩
  refine List.Perm.eq_of_pairwise (fun x y hx hy hxy hyx => ?_)
    (List.pairwise_insertionSort _ _) (List.pairwise_insertionSort _ _)
    (((List.perm_insertionSort _ _).trans h).trans (List.perm_insertionSort _ _).symm)
  rw [(List.perm_insertionSort _ _).mem_iff] at hx hy
  exact (hl x hx).eq_of_rank_eq (hl' y hy) (le_antisymm hxy hyx)

/-! ## Printing -/

/-- The nearest integer, to even on ties. -/
def roundHalfEven (q : ℚ) : ℤ :=
  if q - ⌊q⌋ < 1 / 2 ∨ (q - ⌊q⌋ = 1 / 2 ∧ ⌊q⌋ % 2 = 0) then ⌊q⌋ else ⌊q⌋ + 1

/-- The last four decimal digits of a number. -/
def fourDigits (n : ℕ) : String :=
  String.ofList [Nat.digitChar (n / 1000 % 10), Nat.digitChar (n / 100 % 10),
    Nat.digitChar (n / 10 % 10), Nat.digitChar (n % 10)]

/-- What `printf` writes for the conversion `%.4f`. -/
def formatFixed4 : Double → String
  | .nan => "nan"
  | .inf neg => if neg then "-inf" else "inf"
  | .fin neg mag =>
    let n := (roundHalfEven (|mag| * 10000)).toNat
    (if xor neg (decide (mag < 0)) then "-" else "") ++
      toString (n / 10000) ++ "." ++ fourDigits n

/-- What `printf` writes for the conversion `%.2f`. -/
def formatFixed2 : Double → String
  | .nan => "nan"
  | .inf neg => if neg then "-inf" else "inf"
  | .fin neg mag =>
    let n := (roundHalfEven (|mag| * 100)).toNat
    (if xor neg (decide (mag < 0)) then "-" else "") ++ toString (n / 100) ++ "." ++
      String.ofList [Nat.digitChar (n / 10 % 10), Nat.digitChar (n % 10)]

end Double
