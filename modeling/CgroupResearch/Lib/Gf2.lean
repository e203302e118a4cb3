import Mathlib.Data.Nat.Bitwise
import Mathlib.Data.ZMod.Basic
import Mathlib.LinearAlgebra.Matrix.Rank
import Mathlib.LinearAlgebra.StdBasis
import Mathlib.Tactic

/-!
# Numbers as vectors over GF(2)

A number is the vector of its bits (`bit`, `vec`): `xor` is addition, `and` is the
product bit by bit, and the parity of the number of ones is the sum of the bits.

* `parity_and_eq_zero_iff`: the parity of a conjunction is a dot product;
* `bit_xorAll`: an `xor` of numbers is a sum;
* `card_eq_sub_finrank`: independent vectors that span the solutions of a homogeneous
  system are as many as the unknowns less the rank;
* `ncard_solutions`: independent equations have equally many solutions for every right-hand
  side;
* `bit_mem_bitSpan_iff`: the numbers of a span are the exclusive ors of some of those that span
  it.
-/

namespace Gf2

/-- `int.bit_length`. -/
def bitLength (x : ℕ) : ℕ := if x = 0 then 0 else x.log2 + 1

/-- `int.bit_count`, the number of ones. -/
def bitCount (x : ℕ) : ℕ := (List.range (bitLength x)).countP x.testBit

/-- The parity of the number of ones. -/
def parity (x : ℕ) : ℕ := bitCount x &&& 1

/-- The `xor` of a list of numbers. -/
def xorAll (l : List ℕ) : ℕ := l.foldr (· ^^^ ·) 0

/-- A bit of a number, in GF(2). -/
def bit (x c : ℕ) : ZMod 2 := if x.testBit c then 1 else 0

/-- The dot product of the first `n` bits. -/
def dot (n x y : ℕ) : ZMod 2 := ∑ c ∈ Finset.range n, bit x c * bit y c

/-- The first `n` bits of a number, as a vector. -/
def vec (n x : ℕ) : Fin n → ZMod 2 := fun c => bit x c

/-! ## Bits -/

section

variable {n x y c : ℕ}

@[simp] theorem bit_zero (c : ℕ) : bit 0 c = 0 := by simp [bit]

/-- The bits of a sum are the sums of the bits. -/
@[simp] theorem bit_xor (x y c : ℕ) : bit (x ^^^ y) c = bit x c + bit y c := by
  rw [bit, bit, bit, Nat.testBit_xor]
  rcases x.testBit c <;> rcases y.testBit c <;> decide

/-- The bits of a product are the products of the bits. -/
@[simp] theorem bit_and (x y c : ℕ) : bit (x &&& y) c = bit x c * bit y c := by
  rw [bit, bit, bit, Nat.testBit_and]
  rcases x.testBit c <;> rcases y.testBit c <;> decide

theorem bit_eq_one_iff : bit x c = 1 ↔ x.testBit c = true := by
  rw [bit]
  rcases x.testBit c <;> decide

theorem bit_eq_zero_iff : bit x c = 0 ↔ x.testBit c = false := by
  rw [bit]
  rcases x.testBit c <;> decide

theorem bit_eq_zero_of_lt (hx : x < 2 ^ n) (hc : n ≤ c) : bit x c = 0 :=
  bit_eq_zero_iff.2 (Nat.testBit_lt_two_pow (hx.trans_le (Nat.pow_le_pow_right two_pos hc)))

/-- A number is known by its bits. -/
theorem eq_of_bit_eq (h : ∀ c, bit x c = bit y c) : x = y := by
  refine Nat.eq_of_testBit_eq fun c => ?_
  rw [Bool.eq_iff_iff, ← bit_eq_one_iff, ← bit_eq_one_iff, h c]

theorem lt_two_pow_of_bit (h : ∀ c, n ≤ c → bit x c = 0) : x < 2 ^ n :=
  Nat.lt_pow_two_of_testBit x fun c hc => bit_eq_zero_iff.1 (h c hc)

/-- The bits of a number truncated to `n` bits. -/
theorem bit_mod_two_pow (x n c : ℕ) : bit (x % 2 ^ n) c = if c < n then bit x c else 0 := by
  simp only [bit, Nat.testBit_mod_two_pow]
  by_cases h : c < n <;> simp [h]

@[simp] theorem dot_zero (n y : ℕ) : dot n 0 y = 0 := by simp [dot]

@[simp] theorem xorAll_nil : xorAll [] = 0 := rfl

@[simp] theorem xorAll_cons (x : ℕ) (l : List ℕ) : xorAll (x :: l) = x ^^^ xorAll l := rfl

/-- An `xor` of numbers is a sum of vectors. -/
theorem bit_xorAll (l : List ℕ) (c : ℕ) : bit (xorAll l) c = (l.map fun x => bit x c).sum := by
  induction l with
  | nil => simp
  | cons x l ih => simp [ih]

end

/-- The bits of a number to which bits were added one by one. -/
theorem testBit_foldl_or {α : Type*} (p : α → Bool) (f : α → ℕ) (l : List α) (init c : ℕ) :
    (l.foldl (fun out x => if p x then out ||| 1 <<< f x else out) init).testBit c =
      (init.testBit c || l.any fun x => p x && decide (f x = c)) := by
  induction l generalizing init with
  | nil => simp
  | cons x l ih =>
    rw [List.foldl_cons, ih, List.any_cons, ← Bool.or_assoc]
    congr 1
    split
    case isTrue h => simp [h, Nat.one_shiftLeft, Nat.testBit_two_pow]
    case isFalse h => simp [h]

/-! ## Parity -/

/-- A number has no bit behind its length. -/
theorem lt_two_pow_bitLength (x : ℕ) : x < 2 ^ bitLength x := by
  rw [bitLength]
  split
  case isTrue h => simp [h]
  case isFalse h => exact Nat.lt_log2_self

theorem cast_countP_testBit (x n : ℕ) :
    ((List.range n).countP x.testBit : ZMod 2) = ∑ c ∈ Finset.range n, bit x c := by
  induction n with
  | zero => simp
  | succ n ih =>
    rw [List.range_succ, List.countP_append, Nat.cast_add, ih, Finset.sum_range_succ, bit]
    congr 1
    rcases h : x.testBit n <;> simp [h]

/-- The sum of the bits, over any number of them that covers the number. -/
theorem sum_bit_eq {x m n : ℕ} (hm : x < 2 ^ m) (hn : x < 2 ^ n) :
    ∑ c ∈ Finset.range m, bit x c = ∑ c ∈ Finset.range n, bit x c := by
  wlog h : m ≤ n generalizing m n
  · exact (this hn hm (Nat.le_of_not_le h)).symm
  refine Finset.sum_subset (Finset.range_subset_range.2 h) fun c _ hc => ?_
  exact bit_eq_zero_of_lt hm (by simpa using hc)

/-- The parity is the number of bits modulo 2. -/
theorem parity_eq_mod (x : ℕ) : parity x = bitCount x % 2 := Nat.and_one_is_mod _

theorem parity_lt_two (x : ℕ) : parity x < 2 := by
  rw [parity_eq_mod]
  exact Nat.mod_lt _ two_pos

/-- The parity of a number is the sum of its bits. -/
theorem cast_parity {x n : ℕ} (hx : x < 2 ^ n) :
    (parity x : ZMod 2) = ∑ c ∈ Finset.range n, bit x c := by
  rw [parity_eq_mod, ZMod.natCast_mod, bitCount, cast_countP_testBit]
  exact sum_bit_eq (lt_two_pow_bitLength x) hx

theorem parity_eq_zero_iff (x : ℕ) : parity x = 0 ↔ (parity x : ZMod 2) = 0 := by
  have h := parity_lt_two x
  interval_cases parity x <;> decide

theorem parity_eq_iff (x y : ℕ) : parity x = parity y ↔ (parity x : ZMod 2) = parity y := by
  rw [ZMod.natCast_eq_natCast_iff', Nat.mod_eq_of_lt (parity_lt_two x),
    Nat.mod_eq_of_lt (parity_lt_two y)]

/-- The parity of a conjunction is a dot product. -/
theorem parity_and_eq_zero_iff {y n : ℕ} (x : ℕ) (hy : y < 2 ^ n) :
    parity (x &&& y) = 0 ↔ dot n x y = 0 := by
  rw [parity_eq_zero_iff, cast_parity (Nat.and_le_right.trans_lt hy), dot]
  simp only [bit_and]

/-- Parity is additive. -/
theorem parity_xor (x y : ℕ) : parity (x ^^^ y) = parity x ^^^ parity y := by
  obtain ⟨n, hx, hy⟩ : ∃ n, x < 2 ^ n ∧ y < 2 ^ n :=
    ⟨max x y, Nat.lt_two_pow_self.trans_le (Nat.pow_le_pow_right two_pos (le_max_left x y)),
      Nat.lt_two_pow_self.trans_le (Nat.pow_le_pow_right two_pos (le_max_right x y))⟩
  have hcast : (parity (x ^^^ y) : ZMod 2) = parity x + parity y := by
    rw [cast_parity (Nat.xor_lt_two_pow hx hy), cast_parity hx, cast_parity hy,
      ← Finset.sum_add_distrib]
    simp only [bit_xor]
  have h₁ := parity_lt_two (x ^^^ y)
  have h₂ := parity_lt_two x
  have h₃ := parity_lt_two y
  interval_cases parity (x ^^^ y) <;> interval_cases parity x <;> interval_cases parity y <;>
    revert hcast <;> decide

/-- The part of a mask is additive in the number. -/
theorem parity_xor_and (x y m : ℕ) :
    parity ((x ^^^ y) &&& m) = parity (x &&& m) ^^^ parity (y &&& m) := by
  rw [Nat.and_xor_distrib_right, parity_xor]

/-- The high half of a number folded on its low half has the parity of both. -/
theorem parity_fold (x k : ℕ) : parity ((x ^^^ x >>> k) % 2 ^ k) = parity (x % 2 ^ (k + k)) := by
  rw [parity_eq_iff, cast_parity (Nat.mod_lt _ (Nat.two_pow_pos k)),
    cast_parity (Nat.mod_lt _ (Nat.two_pow_pos (k + k))), Finset.sum_range_add,
    ← Finset.sum_add_distrib]
  refine Finset.sum_congr rfl fun c hc => ?_
  have hlt := Finset.mem_range.1 hc
  have hshift : bit (x >>> k) c = bit x (k + c) := by rw [bit, bit, Nat.testBit_shiftRight]
  rw [bit_mod_two_pow, bit_mod_two_pow, bit_mod_two_pow, if_pos hlt, if_pos (by omega),
    if_pos (by omega), bit_xor, hshift]

/-! ## Rank -/

/-- The rank of the first `n` bits of the numbers. -/
noncomputable def rank (n : ℕ) (rows : List ℕ) : ℕ :=
  Module.finrank (ZMod 2) (Submodule.span (ZMod 2) {v | ∃ r ∈ rows, v = vec n r})

/-- Vectors that are unit vectors on some of the coordinates are independent. -/
theorem linearIndependent_of_coord {K : Type*} [Field K] {n k : ℕ} {b : Fin k → Fin n → K}
    (f : Fin k → Fin n) (h : ∀ i j, b i (f j) = if i = j then 1 else 0) :
    LinearIndependent K b := by
  rw [Fintype.linearIndependent_iff]
  intro g hg j
  have hj := congrFun hg (f j)
  simpa [Finset.sum_apply, h] using hj

/-- Every vector is that of a number. -/
theorem exists_vec_eq {n : ℕ} (v : Fin n → ZMod 2) : ∃ x < 2 ^ n, vec n x = v := by
  refine ⟨Nat.ofBits fun c => v c = 1, Nat.ofBits_lt_two_pow _, ?_⟩
  funext c
  rw [vec, bit, Nat.testBit_ofBits_lt _ _ c.isLt]
  have hc : v c = 0 ∨ v c = 1 := by
    generalize v c = z
    revert z
    decide
  rcases hc with hc | hc <;> simp [hc]

theorem vec_xorAll (n : ℕ) (l : List ℕ) : vec n (xorAll l) = (l.map (vec n)).sum := by
  induction l with
  | nil => funext c; simp [vec]
  | cons x l ih =>
    rw [List.map_cons, List.sum_cons, ← ih]
    funext c
    simp [vec]

/-- The dot product is the one of the vectors. -/
theorem sum_vec_mul (n x y : ℕ) : ∑ c, vec n x c * vec n y c = dot n x y :=
  (Finset.sum_range fun c => bit x c * bit y c).symm

/-- Independent vectors that span the solutions of a homogeneous system are as many as
    the unknowns less the rank. -/
theorem card_eq_sub_finrank {K ι : Type*} [Field K] [Fintype ι] {n k : ℕ} (A : ι → Fin n → K)
    {b : Fin k → Fin n → K} (hb : LinearIndependent K b)
    (hspan : ∀ x, x ∈ Submodule.span K (Set.range b) ↔ ∀ i, ∑ c, A i c * x c = 0) :
    k = n - Module.finrank K (Submodule.span K (Set.range A)) := by
  have hker : LinearMap.ker (Matrix.of A).mulVecLin = Submodule.span K (Set.range b) := by
    ext x
    rw [hspan, LinearMap.mem_ker, Matrix.mulVecLin_apply, funext_iff]
    rfl
  have hrank : Module.finrank K (Submodule.span K (Set.range A)) = (Matrix.of A).rank :=
    ((Matrix.of A).rank_eq_finrank_span_row).symm
  have hsum := LinearMap.finrank_range_add_finrank_ker (Matrix.of A).mulVecLin
  rw [hker, finrank_span_eq_card hb, Fintype.card_fin, Module.finrank_fin_fun] at hsum
  rw [hrank, Matrix.rank]
  omega

/-! ## Spans and solutions -/

/-- The span of the first `n` bits of the numbers. -/
noncomputable def span (n : ℕ) (rows : List ℕ) : Submodule (ZMod 2) (Fin n → ZMod 2) :=
  Submodule.span (ZMod 2) {v | ∃ r ∈ rows, v = vec n r}

theorem vec_zero (n : ℕ) : vec n 0 = 0 := by
  funext c
  exact bit_zero c

/-- Vectors are added by `xor`. -/
theorem vec_xor (n x y : ℕ) : vec n (x ^^^ y) = vec n x + vec n y := by
  funext c
  exact bit_xor x y c

theorem vec_mem_span {n x : ℕ} {rows : List ℕ} (h : x ∈ rows) : vec n x ∈ span n rows :=
  Submodule.subset_span ⟨x, h, rfl⟩

/-- More rows span more. -/
theorem span_append (n : ℕ) (rows rows' : List ℕ) :
    span n (rows ++ rows') = span n rows ⊔ span n rows' := by
  rw [span, span, span, ← Submodule.span_union]
  congr 1
  ext v
  simp [or_and_right, exists_or]

theorem span_singleton (n x : ℕ) : span n [x] = Submodule.span (ZMod 2) {vec n x} := by
  rw [span]
  congr 1
  ext v
  simp

/-- A number may be replaced by its `xor` with one of the span. -/
theorem span_sup_xor {n x y : ℕ} {rows : List ℕ} (hy : y ∈ rows) :
    span n rows ⊔ span n [x ^^^ y] = span n rows ⊔ span n [x] := by
  have hmem : vec n y ∈ span n rows := vec_mem_span hy
  have hself : ∀ {z}, vec n z ∈ span n rows ⊔ span n [z] := fun {z} =>
    Submodule.mem_sup_right (vec_mem_span (List.mem_singleton_self z))
  refine le_antisymm (sup_le le_sup_left ?_) (sup_le le_sup_left ?_)
  · rw [span_singleton, Submodule.span_singleton_le_iff_mem, vec_xor]
    exact Submodule.add_mem _ hself (Submodule.mem_sup_left hmem)
  · rw [span_singleton n x, Submodule.span_singleton_le_iff_mem]
    have hx : vec n x = vec n (x ^^^ y) - vec n y := by rw [vec_xor, add_sub_cancel_right]
    rw [hx]
    exact Submodule.sub_mem _ hself (Submodule.mem_sup_left hmem)

theorem setOf_vec_eq_range (n : ℕ) (rows : List ℕ) :
    {v | ∃ r ∈ rows, v = vec n r} = Set.range fun i : Fin rows.length => vec n (rows.get i) := by
  ext v
  constructor
  · rintro ⟨r, hr, rfl⟩
    obtain ⟨i, rfl⟩ := List.get_of_mem hr
    exact ⟨i, rfl⟩
  · rintro ⟨i, rfl⟩
    exact ⟨_, List.get_mem rows i, rfl⟩

/-- Numbers are independent iff their rank is their number. -/
theorem linearIndependent_iff_rank {n : ℕ} {rows : List ℕ} :
    LinearIndependent (ZMod 2) (fun i : Fin rows.length => vec n (rows.get i)) ↔
      rank n rows = rows.length := by
  rw [linearIndependent_iff_card_eq_finrank_span, Fintype.card_fin, rank, setOf_vec_eq_range]
  exact eq_comm

/-- Numbers whose highest bits are all different are independent. -/
theorem linearIndependent_of_top {ι : Type*} [Fintype ι] {n : ℕ} {y t : ι → ℕ}
    (hinj : Function.Injective t) (htop : ∀ i, t i < n) (hone : ∀ i, bit (y i) (t i) = 1)
    (hzero : ∀ i c, t i < c → bit (y i) c = 0) :
    LinearIndependent (ZMod 2) fun i => vec n (y i) := by
  classical
  rw [Fintype.linearIndependent_iff]
  intro g hg
  by_contra hne
  push Not at hne
  -- the highest of the highest bits that take part is that of one number alone
  obtain ⟨i, hi, hmax⟩ := Finset.exists_max_image (Finset.univ.filter fun i => g i ≠ 0) t
    (hne.imp fun i hi => by simpa using hi)
  rw [Finset.mem_filter] at hi
  have hsum := congrFun hg ⟨t i, htop i⟩
  rw [Finset.sum_apply, Finset.sum_eq_single i] at hsum
  · rw [Pi.smul_apply, vec, hone i, smul_eq_mul, mul_one] at hsum
    exact hi.2 hsum
  · intro j _ hj
    by_cases hgj : g j = 0
    · rw [hgj, zero_smul, Pi.zero_apply]
    · have hlt : t j < t i := lt_of_le_of_ne (hmax j (by simpa using hgj)) fun h => hj (hinj h)
      rw [Pi.smul_apply, vec, hzero j (t i) hlt, smul_zero]
  · exact fun h => absurd (Finset.mem_univ i) h

/-- A system of `k` independent equations in `n` unknowns has `2 ^ (n - k)` solutions, whatever
    its right-hand side. -/
theorem ncard_solutions {n k : ℕ} {A : Fin k → Fin n → ZMod 2} (hA : LinearIndependent (ZMod 2) A)
    (y : Fin k → ZMod 2) : {x : Fin n → ZMod 2 | ∀ i, ∑ c, A i c * x c = y i}.ncard =
      2 ^ (n - k) := by
  set L := (Matrix.of A).mulVecLin with hL
  have hrank : Module.finrank (ZMod 2) (LinearMap.range L) = k :=
    (LinearIndependent.rank_matrix (M := Matrix.of A) hA).trans (Fintype.card_fin k)
  have htop : LinearMap.range L = ⊤ :=
    Submodule.eq_top_of_finrank_eq (hrank.trans (Module.finrank_fin_fun (ZMod 2)).symm)
  have hker : Module.finrank (ZMod 2) (LinearMap.ker L) = n - k := by
    have hsum := LinearMap.finrank_range_add_finrank_ker L
    rw [hrank, Module.finrank_fin_fun] at hsum
    omega
  obtain ⟨x₀, hx₀⟩ := LinearMap.range_eq_top.1 htop y
  have hmem : ∀ x : Fin n → ZMod 2, (∀ i, ∑ c, A i c * x c = y i) ↔ L x = y := fun x =>
    ⟨funext, fun h i => congrFun h i⟩
  -- the solutions are those of the homogeneous system, moved by one of them
  have himage : {x : Fin n → ZMod 2 | ∀ i, ∑ c, A i c * x c = y i} =
      Set.image (fun x => x + x₀) (LinearMap.ker L : Set (Fin n → ZMod 2)) := by
    ext x
    rw [Set.mem_ofPred_eq, hmem]
    constructor
    · intro hx
      exact ⟨x - x₀, by simp [hx, hx₀], sub_add_cancel x x₀⟩
    · rintro ⟨z, hz, rfl⟩
      rw [map_add, LinearMap.mem_ker.1 hz, zero_add, hx₀]
  rw [himage, Set.ncard_image_of_injective _ (add_left_injective x₀), ← Nat.card_coe_set_eq]
  calc Nat.card (LinearMap.ker L) = Nat.card (ZMod 2) ^ Module.finrank (ZMod 2) (LinearMap.ker L) :=
        Module.natCard_eq_pow_finrank
    _ = 2 ^ (n - k) := by rw [Nat.card_zmod, hker]

/-! ## Spans of numbers of any length -/

/-- Finitely many rows have finitely many columns. -/
theorem exists_two_pow_bound (rows : List ℕ) : ∃ n, ∀ r ∈ rows, r < 2 ^ n :=
  ⟨rows.sum, fun _ hr => (List.le_sum_of_mem hr).trans_lt Nat.lt_two_pow_self⟩

/-- The span of the numbers, each with all of its bits. -/
noncomputable def bitSpan (rows : List ℕ) : Submodule (ZMod 2) (ℕ → ZMod 2) :=
  Submodule.span (ZMod 2) {v | ∃ r ∈ rows, v = bit r}

/-- The first `n` bits, and zeros. -/
noncomputable def extend (n : ℕ) : (Fin n → ZMod 2) →ₗ[ZMod 2] (ℕ → ZMod 2) :=
  Function.ExtendByZero.linearMap (ZMod 2) Fin.val

theorem extend_injective (n : ℕ) : Function.Injective (extend n) :=
  Function.extend_injective Fin.val_injective 0

/-- A number of `n` bits has no others. -/
theorem extend_vec {n x : ℕ} (hx : x < 2 ^ n) : extend n (vec n x) = bit x := by
  funext c
  rcases Nat.lt_or_ge c n with hc | hc
  · exact Fin.val_injective.extend_apply (vec n x) 0 ⟨c, hc⟩
  · have hout : ¬∃ i : Fin n, i.val = c := by
      rintro ⟨i, rfl⟩
      exact i.isLt.not_ge hc
    rw [bit_eq_zero_of_lt hx hc]
    exact Function.extend_apply' (vec n x) (0 : ℕ → ZMod 2) c hout

/-- The span of the bits is that of the vectors of any length that suffices. -/
theorem bitSpan_eq_map {n : ℕ} {rows : List ℕ} (hrows : ∀ r ∈ rows, r < 2 ^ n) :
    bitSpan rows = (span n rows).map (extend n) := by
  rw [span, Submodule.map_span, bitSpan]
  congr 1
  ext v
  constructor
  · rintro ⟨r, hr, rfl⟩
    exact ⟨vec n r, ⟨r, hr, rfl⟩, extend_vec (hrows r hr)⟩
  · rintro ⟨_, ⟨r, hr, rfl⟩, rfl⟩
    exact ⟨r, hr, extend_vec (hrows r hr)⟩

/-- The dimension of the span is the rank of any number of bits that hold the numbers. -/
theorem finrank_bitSpan {n : ℕ} {rows : List ℕ} (hrows : ∀ r ∈ rows, r < 2 ^ n) :
    Module.finrank (ZMod 2) (bitSpan rows) = rank n rows := by
  rw [bitSpan_eq_map hrows]
  have e := Submodule.equivMapOfInjective (extend n) (extend_injective n) (span n rows)
  exact e.finrank_eq.symm

/-- The span depends only on which rows there are. -/
theorem bitSpan_congr {rows rows' : List ℕ} (h : ∀ r, r ∈ rows ↔ r ∈ rows') :
    bitSpan rows = bitSpan rows' := by
  simp only [bitSpan, h]

theorem bitSpan_cons (x : ℕ) (rows : List ℕ) :
    bitSpan (x :: rows) = Submodule.span (ZMod 2) {bit x} ⊔ bitSpan rows := by
  rw [bitSpan, bitSpan, ← Submodule.span_union]
  congr 1
  ext v
  simp

/-- The vectors of the span are those of exclusive ors of some of the numbers. -/
theorem mem_bitSpan_iff {rows : List ℕ} {v : ℕ → ZMod 2} :
    v ∈ bitSpan rows ↔ ∃ l, l.Sublist rows ∧ bit (xorAll l) = v := by
  induction rows generalizing v with
  | nil =>
    have hzero : bit (xorAll []) = 0 := funext bit_zero
    have hempty : {v | ∃ r ∈ ([] : List ℕ), v = bit r} = ∅ := by simp
    rw [bitSpan, hempty, Submodule.span_empty, Submodule.mem_bot]
    simp only [List.sublist_nil, exists_eq_left, hzero, eq_comm]
  | cons x rows ih =>
    rw [bitSpan_cons, Submodule.mem_sup]
    constructor
    · rintro ⟨a, ha, b, hb, rfl⟩
      obtain ⟨c, rfl⟩ := Submodule.mem_span_singleton.1 ha
      obtain ⟨l, hl, rfl⟩ := ih.1 hb
      -- a coefficient leaves the number out, or takes it
      have hc : ∀ c : ZMod 2, c = 0 ∨ c = 1 := by decide
      rcases hc c with rfl | rfl
      · exact ⟨l, hl.cons x, by rw [zero_smul, zero_add]⟩
      · refine ⟨x :: l, hl.cons_cons x, ?_⟩
        rw [one_smul, xorAll_cons]
        exact funext (bit_xor x (xorAll l))
    · rintro ⟨l, hl, rfl⟩
      rcases List.sublist_cons_iff.1 hl with hl | ⟨l', rfl, hl'⟩
      · exact ⟨0, Submodule.zero_mem _, _, ih.2 ⟨l, hl, rfl⟩, zero_add _⟩
      · refine ⟨bit x, Submodule.mem_span_singleton_self _, _, ih.2 ⟨l', hl', rfl⟩, ?_⟩
        rw [xorAll_cons]
        exact (funext (bit_xor x (xorAll l'))).symm

/-- A number in the span is an exclusive or of some of the numbers. -/
theorem bit_mem_bitSpan_iff {rows : List ℕ} {m : ℕ} :
    bit m ∈ bitSpan rows ↔ ∃ l, l.Sublist rows ∧ xorAll l = m := by
  rw [mem_bitSpan_iff]
  exact exists_congr fun l => and_congr_right fun _ =>
    ⟨fun h => eq_of_bit_eq fun c => congrFun h c, congrArg bit⟩

instance (rows : List ℕ) : FiniteDimensional (ZMod 2) (bitSpan rows) := by
  refine FiniteDimensional.span_of_finite (ZMod 2) (Set.Finite.subset
    ((List.finite_toSet rows).image bit) ?_)
  rintro _ ⟨r, hr, rfl⟩
  exact ⟨r, hr, rfl⟩

/-- A number that does not raise the dimension is in the span. -/
theorem finrank_bitSpan_cons_eq_iff {rows : List ℕ} {m : ℕ} :
    Module.finrank (ZMod 2) (bitSpan (m :: rows)) = Module.finrank (ZMod 2) (bitSpan rows) ↔
      bit m ∈ bitSpan rows := by
  have hle : bitSpan rows ≤ bitSpan (m :: rows) := by
    rw [bitSpan_cons]
    exact le_sup_right
  have hmem : bit m ∈ bitSpan rows ↔ bitSpan (m :: rows) = bitSpan rows := by
    rw [bitSpan_cons, sup_eq_right, Submodule.span_singleton_le_iff_mem]
  rw [hmem]
  exact ⟨fun h => (Submodule.eq_of_le_of_finrank_eq hle h.symm).symm, fun h => by rw [h]⟩
/-! ## Highest bits -/

/-- A number has at most `n` bits if it is less than `2 ^ n`. -/
theorem bitLength_le_iff {x n : ℕ} : bitLength x ≤ n ↔ x < 2 ^ n := by
  rw [bitLength]
  split
  · next h => simp [h]
  · next h => rw [Nat.add_one_le_iff, Nat.log2_lt h]

/-- The highest bit is one. -/
theorem bit_top {x : ℕ} (hx : x ≠ 0) : bit x (bitLength x - 1) = 1 := by
  rw [bit_eq_one_iff, bitLength, if_neg hx, Nat.add_sub_cancel]
  exact Nat.testBit_log2 hx

theorem bitLength_pos {x : ℕ} (hx : x ≠ 0) : 0 < bitLength x := by
  rw [bitLength, if_neg hx]
  exact Nat.succ_pos _

/-- The `xor` of two numbers with the same highest bit is shorter. -/
theorem bitLength_xor_lt {x y : ℕ} (hx : x ≠ 0) (hy : y ≠ 0) (h : bitLength y = bitLength x) :
    bitLength (x ^^^ y) < bitLength x := by
  have hpos := bitLength_pos hx
  have hle : bitLength (x ^^^ y) ≤ bitLength x - 1 := by
    rw [bitLength_le_iff]
    refine lt_two_pow_of_bit fun c hc => ?_
    rw [bit_xor]
    rcases hc.eq_or_lt with rfl | hlt
    · -- the highest bits cancel
      have hy' := bit_top hy
      rw [h] at hy'
      rw [bit_top hx, hy']
      rfl
    · rw [bit_eq_zero_of_lt (lt_two_pow_bitLength x) (by omega),
        bit_eq_zero_of_lt (lt_two_pow_bitLength y) (by omega), add_zero]
  omega

end Gf2
