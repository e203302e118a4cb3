import CgroupResearch.Lib.Gf2

/-!
# The null space of the conflict differences

The calibration (`kk_calibrate.py`) looks for bank masks in the null space, over GF(2),
of the differences of conflicting addresses. `gf2_nullspace` brings the rows into
reduced echelon form, column by column, and reads a basis off the columns without a
pivot.

After every column, the elimination is *reduced* up to it (`Reduced`): each pivot
column is a unit vector, the rows after the pivots are zero, and the solutions are
those of the given rows. The basis is exact (`gf2Nullspace_exact`): it consists of
solutions, is independent, spans all solutions, and has the size the rank demands.
-/

namespace CgroupResearch

open Gf2

/-! ## The program -/

/-- The variables of the loop over the columns. -/
structure Elimination where
  matrix : List ℕ
  pivotCols : List ℕ
  r : ℕ
  deriving DecidableEq, Repr

/-- A row, or zero past the last one. -/
def Elimination.row (s : Elimination) (i : ℕ) : ℕ := s.matrix.getD i 0

/-- The search for a pivot: the first row from `r` on with the bit of the column. -/
def findPivot (s : Elimination) (col : ℕ) : Option ℕ :=
  (List.range' s.r (s.matrix.length - s.r)).find? fun i => (s.row i).testBit col

/-- `matrix[r], matrix[pivot] = matrix[pivot], matrix[r]`. -/
def swapRows (matrix : List ℕ) (r pivot : ℕ) : List ℕ :=
  (matrix.set r (matrix.getD pivot 0)).set pivot (matrix.getD r 0)

/-- The loop that adds the pivot row to the other rows with the bit of the column. -/
def eliminate (matrix : List ℕ) (r col pivotRow : ℕ) : List ℕ :=
  matrix.mapIdx fun i x => if i ≠ r ∧ x.testBit col then x ^^^ pivotRow else x

/-- A turn of the loop over the columns, once a pivot is found. -/
def pivotTurn (s : Elimination) (col pivot : ℕ) : Elimination where
  matrix := eliminate (swapRows s.matrix s.r pivot) s.r col (s.row pivot)
  pivotCols := s.pivotCols ++ [col]
  r := s.r + 1

/-- The loop over the columns. -/
def columnLoop : List ℕ → Elimination → Elimination
  | [], s => s
  | col :: cols, s =>
    match findPivot s col with
    | none => columnLoop cols s
    | some pivot =>
      let s := pivotTurn s col pivot
      if s.r = s.matrix.length then s else columnLoop cols s

/-- The vector of a free column. -/
def freeVec (matrix pivotCols : List ℕ) (free : ℕ) : ℕ :=
  (matrix.zip pivotCols).foldl
    (fun vec (row, pivotCol) => if row.testBit free then vec ||| 1 <<< pivotCol else vec)
    (1 <<< free)

/-- The rows the loop over the columns starts with: the first `ncols` bits of those
    that are not zero, each once. -/
def startMatrix (rows : List ℕ) (ncols : ℕ) : List ℕ :=
  ((rows.filter (· ≠ 0)).map fun x => x &&& ((1 <<< ncols) - 1)).eraseDups

/-- The columns without a pivot. -/
def Elimination.freeCols (s : Elimination) (ncols : ℕ) : List ℕ :=
  (List.range ncols).filter fun c => c ∉ s.pivotCols

/-- The vector of a free column, read off the elimination. -/
def Elimination.basisVec (s : Elimination) (free : ℕ) : ℕ :=
  freeVec (s.matrix.take s.r) s.pivotCols free

/-- `gf2_nullspace`. -/
def gf2Nullspace (rows : List ℕ) (ncols : ℕ) : List ℕ :=
  let s := columnLoop (List.range ncols) ⟨startMatrix rows ncols, [], 0⟩
  (s.freeCols ncols).map s.basisVec

/-! ## Rows -/

/-- The rows behind the swap of two of them. -/
theorem getD_swapRows {matrix : List ℕ} {r pivot : ℕ} (hr : r < matrix.length)
    (hp : pivot < matrix.length) (j : ℕ) :
    (swapRows matrix r pivot).getD j 0 = matrix.getD (Equiv.swap r pivot j) 0 := by
  rw [swapRows, List.getD_eq_getElem?_getD, List.getElem?_set, List.getElem?_set]
  rcases eq_or_ne pivot j with rfl | hj
  · simp [hp]
  · rcases eq_or_ne r j with rfl | hj'
    · simp [hj, hr]
    · rw [Equiv.swap_apply_of_ne_of_ne hj'.symm hj.symm]
      simp [hj, hj']

/-- The rows behind an elimination: the pivot is added to those that have the bit of its column. -/
theorem getD_eliminate (matrix : List ℕ) (r col pivotRow j : ℕ) :
    (eliminate matrix r col pivotRow).getD j 0 =
      if j ≠ r ∧ (matrix.getD j 0).testBit col then matrix.getD j 0 ^^^ pivotRow
      else matrix.getD j 0 := by
  rw [eliminate, List.getD_eq_getElem?_getD, List.getElem?_mapIdx, List.getD_eq_getElem?_getD]
  rcases matrix[j]? with _ | x <;> simp

/-- A row after the turn of a pivot: that of the swapped rows, with the pivot row
    added if it has the bit of the column. -/
theorem row_pivotTurn {s : Elimination} {pivot : ℕ} (col : ℕ) (hr : s.r < s.matrix.length)
    (hp : pivot < s.matrix.length) (j : ℕ) :
    (pivotTurn s col pivot).row j =
      if j ≠ s.r ∧ (s.row (Equiv.swap s.r pivot j)).testBit col then
        s.row (Equiv.swap s.r pivot j) ^^^ s.row pivot
      else s.row (Equiv.swap s.r pivot j) := by
  rw [Elimination.row, pivotTurn, getD_eliminate, getD_swapRows hr hp]
  rfl

section

variable {s : Elimination} {pivot : ℕ} (col : ℕ) (hr : s.r < s.matrix.length)
  (hp : pivot < s.matrix.length)
include hr hp

/-- The bits behind a turn with a pivot. -/
theorem bit_pivotTurn (j c : ℕ) :
    bit ((pivotTurn s col pivot).row j) c = bit (s.row (Equiv.swap s.r pivot j)) c +
      if j = s.r then 0 else bit (s.row (Equiv.swap s.r pivot j)) col * bit (s.row pivot) c := by
  rw [row_pivotTurn col hr hp]
  rcases eq_or_ne j s.r with rfl | hj
  · simp
  · rw [if_neg hj]
    split
    case isTrue h => rw [bit_xor, bit_eq_one_iff.2 h.2, one_mul]
    case isFalse h =>
      have hbit : bit (s.row (Equiv.swap s.r pivot j)) col = 0 := by
        rw [bit_eq_zero_iff, ← Bool.not_eq_true]
        exact fun h' => h ⟨hj, h'⟩
      rw [hbit, zero_mul, add_zero]

theorem dot_pivotTurn (n j x : ℕ) :
    dot n ((pivotTurn s col pivot).row j) x = dot n (s.row (Equiv.swap s.r pivot j)) x +
      if j = s.r then 0 else bit (s.row (Equiv.swap s.r pivot j)) col * dot n (s.row pivot) x := by
  simp only [dot, bit_pivotTurn col hr hp, add_mul, Finset.sum_add_distrib]
  split
  case isTrue => simp
  case isFalse => simp only [mul_assoc, Finset.mul_sum]

/-- The turn of a pivot does not change the solutions. -/
theorem solves_pivotTurn (n x : ℕ) :
    (∀ j, dot n ((pivotTurn s col pivot).row j) x = 0) ↔ ∀ j, dot n (s.row j) x = 0 := by
  constructor
  · intro h
    -- the pivot row is now that of `r`, to which nothing was added
    have hpivot : dot n (s.row pivot) x = 0 := by
      have := h s.r
      rwa [dot_pivotTurn col hr hp, if_pos rfl, add_zero, Equiv.swap_apply_left] at this
    intro j
    have hj := h (Equiv.swap s.r pivot j)
    rwa [dot_pivotTurn col hr hp, Equiv.swap_apply_self, hpivot, mul_zero, ite_self,
      add_zero] at hj
  · intro h j
    rw [dot_pivotTurn col hr hp, h, h, mul_zero, ite_self, add_zero]

end

/-! ## Reduced eliminations -/

/-- The elimination is reduced up to the column `col`, and has the solutions `S`. -/
structure Reduced (n : ℕ) (S : ℕ → Prop) (col : ℕ) (s : Elimination) : Prop where
  rank : s.r = s.pivotCols.length
  le_length : s.r ≤ s.matrix.length
  lt_col : ∀ q ∈ s.pivotCols, q < col
  nodup : s.pivotCols.Nodup
  unit : ∀ i q, s.pivotCols[i]? = some q → ∀ j, bit (s.row j) q = if j = i then 1 else 0
  below : ∀ j, s.r ≤ j → ∀ c < col, bit (s.row j) c = 0
  solves : ∀ x, (∀ j, dot n (s.row j) x = 0) ↔ S x

/-- A pivot is a row with the bit of the column, behind the rows that are done. -/
theorem findPivot_spec {s : Elimination} {col pivot : ℕ} (h : findPivot s col = some pivot) :
    s.r ≤ pivot ∧ pivot < s.matrix.length ∧ bit (s.row pivot) col = 1 := by
  rw [findPivot] at h
  have hmem := List.mem_of_find?_eq_some h
  rw [List.mem_range'_1] at hmem
  have hbit := List.find?_some h
  exact ⟨hmem.1, by omega, bit_eq_one_iff.2 hbit⟩

/-- Without a pivot no row behind those that are done has the bit. -/
theorem findPivot_none {s : Elimination} {col : ℕ} (h : findPivot s col = none) {j : ℕ}
    (hj : s.r ≤ j) : bit (s.row j) col = 0 := by
  rw [findPivot, List.find?_eq_none] at h
  rcases Nat.lt_or_ge j s.matrix.length with hlt | hge
  · rw [bit_eq_zero_iff, ← Bool.not_eq_true]
    exact h j (by rw [List.mem_range'_1]; omega)
  · rw [Elimination.row, List.getD_eq_default _ _ hge, bit_zero]

section

variable {n col : ℕ} {S : ℕ → Prop} {s : Elimination}

/-- A column without a pivot. -/
theorem Reduced.skip (h : Reduced n S col s) (hnone : findPivot s col = none) :
    Reduced n S (col + 1) s where
  rank := h.rank
  le_length := h.le_length
  lt_col q hq := (h.lt_col q hq).trans (Nat.lt_succ_self col)
  nodup := h.nodup
  unit := h.unit
  below j hj c hc := by
    rcases Nat.lt_succ_iff_lt_or_eq.1 hc with hc | rfl
    · exact h.below j hj c hc
    · exact findPivot_none hnone hj
  solves := h.solves

/-- The swap of two rows after the pivots stays among them. -/
theorem le_swap {r pivot j : ℕ} (hp : r ≤ pivot) (hj : r ≤ j) : r ≤ Equiv.swap r pivot j := by
  rw [Equiv.swap_apply_def]
  split_ifs <;> omega

theorem swap_eq_iff {r pivot i j : ℕ} (hp : r ≤ pivot) (hi : i < r) :
    Equiv.swap r pivot j = i ↔ j = i := by
  have hi' : Equiv.swap r pivot i = i :=
    Equiv.swap_apply_of_ne_of_ne (Nat.ne_of_lt hi) (Nat.ne_of_lt (hi.trans_le hp))
  constructor
  · intro h
    exact (Equiv.swap r pivot).injective (h.trans hi'.symm)
  · rintro rfl
    exact hi'

/-- The column of the pivot becomes a unit vector. -/
theorem bit_pivotTurn_self {pivot : ℕ} (hr : s.r < s.matrix.length)
    (hp : pivot < s.matrix.length) (hbit : bit (s.row pivot) col = 1) (j : ℕ) :
    bit ((pivotTurn s col pivot).row j) col = if j = s.r then 1 else 0 := by
  rw [bit_pivotTurn col hr hp, hbit, mul_one]
  split
  case isTrue h => rw [h, Equiv.swap_apply_left, hbit, add_zero]
  case isFalse => exact CharTwo.add_self_eq_zero _

/-- A column with a pivot. -/
theorem Reduced.pivot {pivot : ℕ} (h : Reduced n S col s) (hsome : findPivot s col = some pivot) :
    Reduced n S (col + 1) (pivotTurn s col pivot) := by
  obtain ⟨hle, hlt, hbit⟩ := findPivot_spec hsome
  have hr : s.r < s.matrix.length := hle.trans_lt hlt
  have hself := bit_pivotTurn_self hr hlt hbit
  refine ⟨?_, ?_, ?_, ?_, ?_, ?_, ?_⟩
  · simp [pivotTurn, h.rank]
  · simpa [pivotTurn, eliminate, swapRows] using hr
  · intro q hq
    rcases List.mem_append.1 hq with hq | hq
    · exact (h.lt_col q hq).trans (Nat.lt_succ_self col)
    · rw [List.mem_singleton.1 hq]
      exact Nat.lt_succ_self col
  · refine List.nodup_append.2 ⟨h.nodup, List.nodup_singleton _, ?_⟩
    intro q hq c hc
    rw [List.mem_singleton.1 hc]
    exact Nat.ne_of_lt (h.lt_col q hq)
  · intro i q hq j
    rw [pivotTurn, List.getElem?_append] at hq
    split at hq
    case isTrue hi =>
      -- an earlier pivot column: the pivot row is zero there
      have hir : i < s.r := h.rank ▸ hi
      have hzero : bit (s.row pivot) q = 0 := by rw [h.unit i q hq, if_neg (by omega)]
      rw [bit_pivotTurn col hr hlt, hzero, mul_zero, ite_self, add_zero, h.unit i q hq]
      simp only [swap_eq_iff hle hir]
    case isFalse hi =>
      have hi' : i = s.r ∧ q = col := by
        rw [List.getElem?_singleton] at hq
        split at hq
        · exact ⟨by have := h.rank; omega, (Option.some.inj hq).symm⟩
        · cases hq
      rw [hi'.1, hi'.2]
      exact hself j
  · intro j hj c hc
    have hj' : s.r + 1 ≤ j := hj
    rcases Nat.lt_succ_iff_lt_or_eq.1 hc with hc | rfl
    · rw [bit_pivotTurn col hr hlt, h.below _ (le_swap hle (by omega)) c hc,
        h.below _ hle c hc, mul_zero, ite_self, add_zero]
    · rw [hself, if_neg (by omega)]
  · exact fun x => (solves_pivotTurn col hr hlt n x).trans (h.solves x)

/-- The loop over the columns from `col` on: in the end, the rows after the pivots are
    zero in all of them. -/
theorem Reduced.columnLoop {k : ℕ} (h : Reduced n S col s) :
    ∃ col' ≤ col + k, Reduced n S col' (columnLoop (List.range' col k) s) ∧
      ∀ j, (CgroupResearch.columnLoop (List.range' col k) s).r ≤ j → ∀ c < col + k,
        bit ((CgroupResearch.columnLoop (List.range' col k) s).row j) c = 0 := by
  induction k generalizing col s with
  | zero => exact ⟨col, Nat.le_refl _, h, h.below⟩
  | succ k ih =>
    rw [List.range'_succ, CgroupResearch.columnLoop, Nat.add_left_comm, Nat.add_comm]
    cases hpivot : findPivot s col with
    | none => exact ih (h.skip hpivot)
    | some pivot =>
      simp only
      split
      case isTrue hfull =>
        -- all rows are pivots
        refine ⟨col + 1, by omega, h.pivot hpivot, fun j hj c _ => ?_⟩
        rw [Elimination.row, List.getD_eq_default _ _ (hfull ▸ hj), bit_zero]
      case isFalse => exact ih (h.pivot hpivot)

end

/-! ## Reading off the basis -/

/-- The vector of a free column has its bit, and those of the pivots that it belongs to. -/
theorem testBit_freeVec (matrix pivotCols : List ℕ) (free c : ℕ) :
    (freeVec matrix pivotCols free).testBit c = (decide (free = c) ||
      (matrix.zip pivotCols).any fun x => x.1.testBit free && decide (x.2 = c)) := by
  rw [freeVec, testBit_foldl_or (fun x : ℕ × ℕ => x.1.testBit free) Prod.snd, Nat.one_shiftLeft,
    Nat.testBit_two_pow]

section

variable {n col : ℕ} {S : ℕ → Prop} {s : Elimination}

theorem nodup_freeCols (s : Elimination) (n : ℕ) : (s.freeCols n).Nodup :=
  (List.nodup_range).filter _

/-- The free columns are those without a pivot. -/
theorem mem_freeCols {f : ℕ} : f ∈ s.freeCols n ↔ f < n ∧ f ∉ s.pivotCols := by
  simp [Elimination.freeCols]

/-- The rows paired with their pivot columns. -/
theorem Reduced.mem_zip (h : Reduced n S col s) {x : ℕ × ℕ} :
    x ∈ (s.matrix.take s.r).zip s.pivotCols ↔
      ∃ i, s.pivotCols[i]? = some x.2 ∧ s.row i = x.1 := by
  rw [List.mem_iff_getElem?]
  refine exists_congr fun i => ?_
  rw [List.getElem?_zip_eq_some, List.getElem?_take]
  have hrank := h.rank
  have hlen := h.le_length
  constructor
  · rintro ⟨hrow, hcol⟩
    split at hrow
    · exact ⟨hcol, by rw [Elimination.row, List.getD_eq_getElem?_getD, hrow]; rfl⟩
    · cases hrow
  · rintro ⟨hcol, hrow⟩
    obtain ⟨hi, -⟩ := List.getElem?_eq_some_iff.1 hcol
    rw [if_pos (by omega), ← hrow, Elimination.row, List.getD_eq_getElem?_getD,
      List.getElem?_eq_getElem (by omega)]
    exact ⟨rfl, hcol⟩

/-- On the free columns, the vector of one is a unit vector. -/
theorem Reduced.bit_basisVec_free (h : Reduced n S col s) (f : ℕ) {c : ℕ}
    (hc : c ∉ s.pivotCols) : bit (s.basisVec f) c = if f = c then 1 else 0 := by
  have hany : ((s.matrix.take s.r).zip s.pivotCols).any
      (fun x => x.1.testBit f && decide (x.2 = c)) = false := by
    rw [List.any_eq_false]
    intro x hx hxc
    obtain ⟨i, hi, -⟩ := h.mem_zip.1 hx
    rw [Bool.and_eq_true, decide_eq_true_eq] at hxc
    exact hc (hxc.2 ▸ List.mem_of_getElem? hi)
  rw [bit, Elimination.basisVec, testBit_freeVec, hany, Bool.or_false]
  simp

/-- At a pivot column, it has the bit of the pivot's row at the free column. -/
theorem Reduced.bit_basisVec_pivot (h : Reduced n S col s) {f i q : ℕ} (hf : f ∉ s.pivotCols)
    (hq : s.pivotCols[i]? = some q) : bit (s.basisVec f) q = bit (s.row i) f := by
  have hne : f ≠ q := fun hfq => hf (hfq ▸ List.mem_of_getElem? hq)
  rw [bit, bit, Elimination.basisVec, testBit_freeVec, decide_eq_false hne, Bool.false_or]
  congr 2
  rw [Bool.eq_iff_iff, List.any_eq_true]
  constructor
  · rintro ⟨x, hx, hxq⟩
    rw [Bool.and_eq_true, decide_eq_true_eq] at hxq
    obtain ⟨j, hj, hrow⟩ := h.mem_zip.1 hx
    -- a column is the pivot of one row only
    have hij : i = j := by
      obtain ⟨hi', hiq⟩ := List.getElem?_eq_some_iff.1 hq
      obtain ⟨hj', hjq⟩ := List.getElem?_eq_some_iff.1 hj
      exact (List.Nodup.getElem_inj_iff h.nodup).1 (hiq.trans (hxq.2.symm.trans hjq.symm))
    rw [hij, hrow]
    exact hxq.1
  · intro hbit
    exact ⟨(s.row i, q), h.mem_zip.2 ⟨i, hq, rfl⟩, by simpa using hbit⟩

/-- The product with a row: the pivot's bit, and those of the free columns. -/
theorem Reduced.dot_row (h : Reduced n S col s) (hcol : col ≤ n) {i q : ℕ}
    (hq : s.pivotCols[i]? = some q) (x : ℕ) :
    dot n (s.row i) x =
      bit x q + ((s.freeCols n).map fun f => bit (s.row i) f * bit x f).sum := by
  have hqn : q < n := (h.lt_col q (List.mem_of_getElem? hq)).trans_le hcol
  have hfree : (s.freeCols n).toFinset = (Finset.range n).filter (· ∉ s.pivotCols) := by
    ext f
    simp [Elimination.freeCols]
  rw [← List.sum_toFinset _ (nodup_freeCols s n), hfree, dot,
    ← Finset.sum_filter_add_sum_filter_not (Finset.range n) (· ∈ s.pivotCols)]
  congr 1
  have hmem : q ∈ (Finset.range n).filter (· ∈ s.pivotCols) :=
    Finset.mem_filter.2 ⟨Finset.mem_range.2 hqn, List.mem_of_getElem? hq⟩
  rw [Finset.sum_eq_single_of_mem q hmem, h.unit i q hq, if_pos rfl, one_mul]
  intro c hc hcq
  -- the other pivot columns are those of other rows
  obtain ⟨j, hj⟩ := List.mem_iff_getElem?.1 (Finset.mem_filter.1 hc).2
  have hij : i ≠ j := by
    rintro rfl
    exact hcq (Option.some.inj (hj.symm.trans hq))
  rw [h.unit j c hj, if_neg hij, zero_mul]

/-- What is reduced in all columns: the solutions, in terms of the pivots. -/
theorem Reduced.solves_iff (h : Reduced n S col s) (hcol : col ≤ n)
    (hzero : ∀ j, s.r ≤ j → ∀ c < n, bit (s.row j) c = 0) (x : ℕ) :
    S x ↔ ∀ i q, s.pivotCols[i]? = some q →
      bit x q = ((s.freeCols n).map fun f => bit (s.row i) f * bit x f).sum := by
  rw [← h.solves]
  constructor
  · intro hx i q hq
    have hi := hx i
    rwa [h.dot_row hcol hq, CharTwo.add_eq_zero] at hi
  · intro hx i
    rcases Nat.lt_or_ge i s.r with hi | hi
    · have hq := List.getElem?_eq_getElem (h.rank ▸ hi : i < s.pivotCols.length)
      rw [h.dot_row hcol hq, hx i _ hq]
      exact CharTwo.add_self_eq_zero _
    · exact Finset.sum_eq_zero fun c hc => by
        rw [hzero i hi c (Finset.mem_range.1 hc), zero_mul]

/-- The sum of a function over the free columns at one of them. -/
theorem sum_freeCols_single (F : ℕ → ZMod 2) {f : ℕ} (hf : f ∈ s.freeCols n) :
    ((s.freeCols n).map fun g => F g * if g = f then 1 else 0).sum = F f := by
  rw [← List.sum_toFinset _ (nodup_freeCols s n), Finset.sum_eq_single_of_mem f (by simpa using hf)]
  · simp
  · intro g _ hgf
    simp [hgf]

/-- The vectors read off are solutions. -/
theorem Reduced.solves_basisVec (h : Reduced n S col s) (hcol : col ≤ n)
    (hzero : ∀ j, s.r ≤ j → ∀ c < n, bit (s.row j) c = 0) {f : ℕ} (hf : f ∈ s.freeCols n) :
    S (s.basisVec f) := by
  rw [h.solves_iff hcol hzero]
  intro i q hq
  rw [h.bit_basisVec_pivot (mem_freeCols.1 hf).2 hq, ← sum_freeCols_single (bit (s.row i)) hf]
  congr 1
  refine List.map_congr_left fun g hg => ?_
  rw [h.bit_basisVec_free f (mem_freeCols.1 hg).2]
  simp only [eq_comm]

theorem Reduced.basisVec_lt (h : Reduced n S col s) (hcol : col ≤ n) {f : ℕ}
    (hf : f ∈ s.freeCols n) : s.basisVec f < 2 ^ n := by
  refine lt_two_pow_of_bit fun c hc => ?_
  have hpivot : c ∉ s.pivotCols := fun hmem => absurd (h.lt_col c hmem) (by omega)
  have hne : f ≠ c := by
    have := (mem_freeCols.1 hf).1
    omega
  rw [h.bit_basisVec_free f hpivot, if_neg hne]

/-- A solution is the `xor` of the vectors of its free columns. -/
theorem Reduced.eq_xorAll (h : Reduced n S col s) (hcol : col ≤ n)
    (hzero : ∀ j, s.r ≤ j → ∀ c < n, bit (s.row j) c = 0) {x : ℕ} (hx : x < 2 ^ n) (hS : S x) :
    x = xorAll (((s.freeCols n).filter x.testBit).map s.basisVec) := by
  rw [h.solves_iff hcol hzero] at hS
  refine eq_of_bit_eq fun c => ?_
  have hsum : bit (xorAll (((s.freeCols n).filter x.testBit).map s.basisVec)) c =
      ((s.freeCols n).map fun f => bit x f * bit (s.basisVec f) c).sum := by
    rw [bit_xorAll, List.map_map]
    induction s.freeCols n with
    | nil => rfl
    | cons f fs ih =>
      rw [List.filter_cons, List.map_cons, List.sum_cons, ← ih]
      split
      case isTrue hf => simp [bit_eq_one_iff.2 hf]
      case isFalse hf => simp [bit_eq_zero_iff.2 (Bool.eq_false_of_not_eq_true hf)]
  rw [hsum]
  by_cases hc : c ∈ s.pivotCols
  · -- a pivot column
    obtain ⟨i, hi⟩ := List.mem_iff_getElem?.1 hc
    rw [hS i c hi]
    congr 1
    refine List.map_congr_left fun f hf => ?_
    rw [h.bit_basisVec_pivot (mem_freeCols.1 hf).2 hi, mul_comm]
  · simp only [h.bit_basisVec_free _ hc]
    rcases Nat.lt_or_ge c n with hcn | hcn
    · exact (sum_freeCols_single _ (mem_freeCols.2 ⟨hcn, hc⟩)).symm
    · rw [bit_eq_zero_of_lt hx hcn]
      symm
      refine List.sum_eq_zero fun z hz => ?_
      obtain ⟨f, hf, rfl⟩ := List.mem_map.1 hz
      have hne : f ≠ c := by
        have := (mem_freeCols.1 hf).1
        omega
      rw [if_neg hne, mul_zero]

end

/-! ## The result -/

theorem mem_startMatrix {rows : List ℕ} {n m : ℕ} :
    m ∈ startMatrix rows n ↔ ∃ r ∈ rows, r ≠ 0 ∧ r % 2 ^ n = m := by
  simp [startMatrix, List.mem_eraseDups, Nat.one_shiftLeft, Nat.and_two_pow_sub_one_eq_mod,
    and_assoc]

theorem dot_mod_two_pow (n r x : ℕ) : dot n (r % 2 ^ n) x = dot n r x := by
  refine Finset.sum_congr rfl fun c hc => ?_
  rw [bit_mod_two_pow, if_pos (Finset.mem_range.1 hc)]

/-- The rows as the loop finds them have the solutions of the given rows. -/
theorem reduced_start (rows : List ℕ) (n : ℕ) :
    Reduced n (fun x => ∀ r ∈ rows, dot n r x = 0) 0 ⟨startMatrix rows n, [], 0⟩ where
  rank := rfl
  le_length := Nat.zero_le _
  lt_col := List.forall_mem_nil _
  nodup := .nil
  unit i q hq := by cases hq
  below j _ c hc := absurd hc (Nat.not_lt_zero c)
  solves x := by
    constructor
    · intro h r hr
      rcases eq_or_ne r 0 with rfl | hne
      · exact dot_zero n x
      · obtain ⟨j, hj⟩ := List.mem_iff_getElem?.1 (mem_startMatrix.2 ⟨r, hr, hne, rfl⟩)
        have hrow := h j
        rwa [Elimination.row, List.getD_eq_getElem?_getD, hj, Option.getD_some,
          dot_mod_two_pow] at hrow
    · intro h j
      rw [Elimination.row, List.getD_eq_getElem?_getD]
      cases hj : (startMatrix rows n)[j]? with
      | none => exact dot_zero n x
      | some m =>
        obtain ⟨r, hr, -, rfl⟩ := mem_startMatrix.1 (List.mem_of_getElem? hj)
        rw [Option.getD_some, dot_mod_two_pow]
        exact h r hr

/-- The elimination `gf2_nullspace` ends with. -/
theorem exists_reduced (rows : List ℕ) (n : ℕ) : ∃ col ≤ n, ∃ s : Elimination,
    Reduced n (fun x => ∀ r ∈ rows, dot n r x = 0) col s ∧
      (∀ j, s.r ≤ j → ∀ c < n, bit (s.row j) c = 0) ∧
      gf2Nullspace rows n = (s.freeCols n).map s.basisVec := by
  obtain ⟨col, hcol, h, hzero⟩ := (reduced_start rows n).columnLoop (k := n)
  rw [Nat.zero_add, ← List.range_eq_range'] at *
  exact ⟨col, hcol, _, h, hzero, rfl⟩

/-- On the free columns, the vectors read off are unit vectors. -/
theorem Reduced.linearIndependent {n col : ℕ} {S : ℕ → Prop} {s : Elimination}
    (h : Reduced n S col s) :
    LinearIndependent (ZMod 2) fun i : Fin ((s.freeCols n).map s.basisVec).length =>
      vec n (((s.freeCols n).map s.basisVec).get i) := by
  have hlen : ((s.freeCols n).map s.basisVec).length = (s.freeCols n).length := List.length_map _
  have hmem (i : Fin ((s.freeCols n).map s.basisVec).length) :
      (s.freeCols n).get (i.cast hlen) ∈ s.freeCols n := List.get_mem _ _
  refine linearIndependent_of_coord
    (fun i => ⟨(s.freeCols n).get (i.cast hlen), (mem_freeCols.1 (hmem i)).1⟩) fun i j => ?_
  have hget : ((s.freeCols n).map s.basisVec).get i =
      s.basisVec ((s.freeCols n).get (i.cast hlen)) := by simp
  rw [hget, vec, h.bit_basisVec_free _ (mem_freeCols.1 (hmem j)).2]
  simp only [(nodup_freeCols s n).get_inj_iff, Fin.cast_inj]

/-- The null space as a subspace: the span of what `gf2_nullspace` returns. -/
theorem mem_span_iff {n : ℕ} {rows basis : List ℕ}
    (hsolves : ∀ v ∈ basis, ∀ r ∈ rows, dot n r v = 0)
    (hxor : ∀ x < 2 ^ n, (∀ r ∈ rows, dot n r x = 0) → ∃ l, l.Sublist basis ∧ xorAll l = x)
    (v : Fin n → ZMod 2) :
    v ∈ Submodule.span (ZMod 2) (Set.range fun i : Fin basis.length => vec n (basis.get i)) ↔
      ∀ i : Fin rows.length, ∑ c, vec n (rows.get i) c * v c = 0 := by
  constructor
  · intro hv i
    induction hv using Submodule.span_induction with
    | mem v hv =>
      obtain ⟨j, rfl⟩ := hv
      rw [sum_vec_mul]
      exact hsolves _ (List.get_mem _ _) _ (List.get_mem _ _)
    | zero => simp
    | add v w _ _ hv hw => simp only [Pi.add_apply, mul_add, Finset.sum_add_distrib, hv, hw, add_zero]
    | smul a v _ hv =>
      simp only [Pi.smul_apply, smul_eq_mul, mul_left_comm _ a, ← Finset.mul_sum, hv, mul_zero]
  · intro hv
    -- A solution is the vector of a number, which is an exclusive or of basis numbers: a sum of
    -- basis vectors.
    obtain ⟨x, hx, rfl⟩ := exists_vec_eq v
    have hS : ∀ r ∈ rows, dot n r x = 0 := by
      intro r hr
      obtain ⟨i, rfl⟩ := List.get_of_mem hr
      rw [← sum_vec_mul]
      exact hv i
    obtain ⟨l, hl, rfl⟩ := hxor x hx hS
    rw [vec_xorAll]
    refine list_sum_mem fun w hw => ?_
    obtain ⟨y, hy, rfl⟩ := List.mem_map.1 hw
    obtain ⟨i, rfl⟩ := List.get_of_mem (hl.subset hy)
    exact Submodule.subset_span ⟨i, rfl⟩

/-- The vectors of the basis are orthogonal to all rows. -/
theorem lt_and_dot_of_mem_gf2Nullspace {rows : List ℕ} {ncols v : ℕ}
    (hv : v ∈ gf2Nullspace rows ncols) : v < 2 ^ ncols ∧ ∀ r ∈ rows, dot ncols r v = 0 := by
  obtain ⟨col, hcol, s, h, hzero, heq⟩ := exists_reduced rows ncols
  rw [heq] at hv
  obtain ⟨f, hf, rfl⟩ := List.mem_map.1 hv
  exact ⟨h.basisVec_lt hcol hf, h.solves_basisVec hcol hzero hf⟩

theorem parity_of_mem_gf2Nullspace {rows : List ℕ} {ncols v : ℕ}
    (hv : v ∈ gf2Nullspace rows ncols) {r : ℕ} (hr : r ∈ rows) : parity (r &&& v) = 0 := by
  obtain ⟨hlt, hdot⟩ := lt_and_dot_of_mem_gf2Nullspace hv
  exact (parity_and_eq_zero_iff r hlt).2 (hdot r hr)

/-- The vectors of the basis are linearly independent. -/
theorem linearIndependent_gf2Nullspace (rows : List ℕ) (ncols : ℕ) :
    LinearIndependent (ZMod 2) fun i : Fin (gf2Nullspace rows ncols).length =>
      vec ncols ((gf2Nullspace rows ncols).get i) := by
  obtain ⟨col, hcol, s, h, hzero, heq⟩ := exists_reduced rows ncols
  rw [heq]
  exact h.linearIndependent

theorem nodup_gf2Nullspace (rows : List ℕ) (ncols : ℕ) : (gf2Nullspace rows ncols).Nodup :=
  List.nodup_iff_injective_get.2 fun _ _ hij =>
    (linearIndependent_gf2Nullspace rows ncols).injective (congrArg (vec ncols) hij)

theorem ne_zero_of_mem_gf2Nullspace {rows : List ℕ} {ncols v : ℕ}
    (hv : v ∈ gf2Nullspace rows ncols) : v ≠ 0 := by
  obtain ⟨i, rfl⟩ := List.get_of_mem hv
  intro hzero
  refine (linearIndependent_gf2Nullspace rows ncols).ne_zero i ?_
  rw [hzero, vec_zero]

/-- `gf2_nullspace` is exact: it returns solutions, independent and of which every
    solution is an `xor`, as many as there are columns less the rank of the rows. -/
theorem gf2Nullspace_exact (rows : List ℕ) (ncols : ℕ) :
    (∀ v ∈ gf2Nullspace rows ncols, v < 2 ^ ncols ∧ ∀ r ∈ rows, parity (r &&& v) = 0) ∧
      LinearIndependent (ZMod 2) (fun i : Fin (gf2Nullspace rows ncols).length =>
        vec ncols ((gf2Nullspace rows ncols).get i)) ∧
      (∀ x < 2 ^ ncols, (∀ r ∈ rows, parity (r &&& x) = 0) →
        ∃ l, l.Sublist (gf2Nullspace rows ncols) ∧ xorAll l = x) ∧
      (gf2Nullspace rows ncols).length = ncols - rank ncols rows := by
  have hxor : ∀ x < 2 ^ ncols, (∀ r ∈ rows, dot ncols r x = 0) →
      ∃ l, l.Sublist (gf2Nullspace rows ncols) ∧ xorAll l = x := by
    intro x hx hS
    obtain ⟨col, hcol, s, h, hzero, heq⟩ := exists_reduced rows ncols
    rw [heq]
    exact ⟨_, List.filter_sublist.map _, (h.eq_xorAll hcol hzero hx hS).symm⟩
  refine ⟨fun v hv => ?_, linearIndependent_gf2Nullspace rows ncols, fun x hx hS => ?_, ?_⟩
  · exact ⟨(lt_and_dot_of_mem_gf2Nullspace hv).1, fun r hr => parity_of_mem_gf2Nullspace hv hr⟩
  · exact hxor x hx fun r hr => (parity_and_eq_zero_iff r hx).1 (hS r hr)
  · -- The basis is independent and spans the solutions, so its length is their dimension.
    have hspan := mem_span_iff (fun v hv => (lt_and_dot_of_mem_gf2Nullspace hv).2) hxor
    rw [rank, setOf_vec_eq_range]
    exact card_eq_sub_finrank (fun i => vec ncols (rows.get i))
      (linearIndependent_gf2Nullspace rows ncols) hspan

end CgroupResearch
