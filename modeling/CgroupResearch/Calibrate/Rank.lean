import CgroupResearch.Calibrate.Select

/-!
# The rank over GF(2)

`gf2_rank` of `kk_calibrate.py` takes a row after the other. While a row has the highest bit of
a pivot, that pivot is added to it, and what is left is a new pivot, unless it is zero. The
pivots are not reduced by each other, so nothing bounds the turns of the `while` loop but that
each of them makes the row shorter.

* `WhileEnds`, `RankEnds`: the loops with as many turns as they take, which the functions of
  `CgroupResearch.Calibrate.Select` bound by the length of the row;
* `rankEnds_iff`: they end, with the pivots of these functions;
* `gf2Rank_dimension`: their number is the dimension of the span of the rows.
-/

namespace CgroupResearch

open Gf2

/-! ## The loops -/

/-- The `while` loop of `gf2_rank`, from the pivots and the value `x` to the pivots at its end. -/
inductive WhileEnds : List (ℕ × ℕ) → ℕ → List (ℕ × ℕ) → Prop
  | zero (pivots : List (ℕ × ℕ)) : WhileEnds pivots 0 pivots
  | turn {pivots pivots' : List (ℕ × ℕ)} {x y : ℕ} (hx : x ≠ 0)
      (hp : pivots.lookup (bitLength x - 1) = some y) (h : WhileEnds pivots (x ^^^ y) pivots') :
      WhileEnds pivots x pivots'
  | store {pivots : List (ℕ × ℕ)} {x : ℕ} (hx : x ≠ 0)
      (hp : pivots.lookup (bitLength x - 1) = none) :
      WhileEnds pivots x (pivots ++ [(bitLength x - 1, x)])

/-- The `for` loop of `gf2_rank`, from the pivots and the rows to the pivots at its end. -/
inductive RankEnds : List (ℕ × ℕ) → List ℕ → List (ℕ × ℕ) → Prop
  | nil (pivots : List (ℕ × ℕ)) : RankEnds pivots [] pivots
  | cons {pivots pivots₁ pivots₂ : List (ℕ × ℕ)} {value : ℕ} {rows : List ℕ}
      (h : WhileEnds pivots value pivots₁) (hs : RankEnds pivots₁ rows pivots₂) :
      RankEnds pivots (value :: rows) pivots₂

/-- The inner loop ends in one way. -/
theorem WhileEnds.unique {pivots pivots₁ pivots₂ : List (ℕ × ℕ)} {x : ℕ}
    (h₁ : WhileEnds pivots x pivots₁) (h₂ : WhileEnds pivots x pivots₂) : pivots₁ = pivots₂ := by
  induction h₁ with
  | zero =>
    cases h₂ with
    | zero => rfl
    | turn hx => exact absurd rfl hx
    | store hx => exact absurd rfl hx
  | turn hx hp _ ih =>
    cases h₂ with
    | zero => exact absurd rfl hx
    | turn _ hp' h =>
      obtain rfl := Option.some.inj (hp.symm.trans hp')
      exact ih h
    | store _ hp' => exact absurd (hp.symm.trans hp') (Option.some_ne_none _)
  | store hx hp =>
    cases h₂ with
    | zero => exact absurd rfl hx
    | turn _ hp' => exact absurd (hp'.symm.trans hp) (Option.some_ne_none _)
    | store => rfl

/-- The outer loop ends in one way. -/
theorem RankEnds.unique {pivots pivots₁ pivots₂ : List (ℕ × ℕ)} {rows : List ℕ}
    (h₁ : RankEnds pivots rows pivots₁) (h₂ : RankEnds pivots rows pivots₂) :
    pivots₁ = pivots₂ := by
  induction h₁ with
  | nil =>
    cases h₂
    rfl
  | cons h _ ih =>
    cases h₂ with
    | cons h' hs' =>
      obtain rfl := h.unique h'
      exact ih hs'

section

variable {n : ℕ} {pivots : List (ℕ × ℕ)}

/-- The loop ends within as many turns as the value has bits. -/
theorem Echelon.whileEnds (h : Echelon n pivots) {fuel x : ℕ} (hfuel : bitLength x ≤ fuel) :
    WhileEnds pivots x (reduceLoop fuel pivots x) := by
  induction fuel generalizing x with
  | zero =>
    obtain rfl : x = 0 := by
      have hlt := bitLength_le_iff.1 hfuel
      omega
    exact .zero pivots
  | succ fuel ih =>
    rw [reduceLoop]
    split
    case isTrue hx =>
      subst hx
      exact .zero pivots
    case isFalse hx =>
      dsimp only
      cases hp : pivots.lookup (bitLength x - 1) with
      | none => exact .store hx hp
      | some y =>
        have hshorter := (h.shorter hx hp).2
        exact .turn hx hp (ih (by omega))

/-- So does the loop over the rows. -/
theorem Echelon.rankEnds (h : Echelon n pivots) {rows : List ℕ} (hrows : ∀ r ∈ rows, r < 2 ^ n) :
    RankEnds pivots rows
      (rows.foldl (fun pivots value => reduceLoop (bitLength value) pivots value) pivots) := by
  induction rows generalizing pivots with
  | nil => exact .nil pivots
  | cons x rows ih =>
    rw [List.forall_mem_cons] at hrows
    obtain ⟨hech, -⟩ := reduceLoop_spec h le_rfl hrows.1
    exact .cons (h.whileEnds le_rfl) (ih hech hrows.2)

end

/-- `gf2_rank` ends, and its pivots are those of `pivotsOf`. -/
theorem rankEnds_iff {rows : List ℕ} {pivots : List (ℕ × ℕ)} :
    RankEnds [] rows pivots ↔ pivots = pivotsOf rows := by
  obtain ⟨n, hrows⟩ := exists_two_pow_bound rows
  have hends : RankEnds [] rows (pivotsOf rows) := (echelon_nil n).rankEnds hrows
  constructor
  · intro h
    exact h.unique hends
  · rintro rfl
    exact hends

/-! ## The dimension -/

section

variable {rows : List ℕ}

/-- The highest bits of the pivots are all different. -/
theorem nodup_top_pivotsOf (rows : List ℕ) :
    ((pivotsOf rows).map fun e => bitLength e.2).Nodup := by
  obtain ⟨n, hrows⟩ := exists_two_pow_bound rows
  obtain ⟨hech, -⟩ := pivotsOf_spec hrows
  have htop : ((pivotsOf rows).map fun e => bitLength e.2) =
      ((pivotsOf rows).map Prod.fst).map (· + 1) := by
    rw [List.map_map]
    exact List.map_congr_left fun e he => (hech.top e he).2.1
  rw [htop]
  exact hech.nodup.map (add_left_injective 1)

/-- A pivot is filed under its highest bit. -/
theorem mem_pivotsOf {e : ℕ × ℕ} (he : e ∈ pivotsOf rows) : e.2 ≠ 0 ∧ bitLength e.2 = e.1 + 1 := by
  obtain ⟨n, hrows⟩ := exists_two_pow_bound rows
  obtain ⟨hne, htop, -⟩ := (pivotsOf_spec hrows).1.top e he
  exact ⟨hne, htop⟩

/-- The pivots span what the rows span. -/
theorem bitSpan_pivotsOf (rows : List ℕ) :
    bitSpan ((pivotsOf rows).map Prod.snd) = bitSpan rows := by
  obtain ⟨n, hrows⟩ := exists_two_pow_bound rows
  obtain ⟨hech, hspan⟩ := pivotsOf_spec hrows
  have hpivots : ∀ r ∈ (pivotsOf rows).map Prod.snd, r < 2 ^ n := by
    intro r hr
    obtain ⟨e, he, rfl⟩ := List.mem_map.1 hr
    obtain ⟨-, htop, hlt⟩ := hech.top e he
    exact bitLength_le_iff.1 (by omega)
  rw [bitSpan_eq_map hpivots, hspan, bitSpan_eq_map hrows]

/-- The loops compute the rank. -/
theorem gf2Rank_eq_finrank (rows : List ℕ) :
    gf2Rank rows = Module.finrank (ZMod 2) (bitSpan rows) := by
  obtain ⟨n, hrows⟩ := exists_two_pow_bound rows
  rw [gf2Rank_eq_rank hrows, finrank_bitSpan hrows]

/-- The rank is that of the set of the rows. -/
theorem gf2Rank_congr {rows' : List ℕ} (h : ∀ r, r ∈ rows ↔ r ∈ rows') :
    gf2Rank rows = gf2Rank rows' := by
  rw [gf2Rank_eq_finrank, gf2Rank_eq_finrank, bitSpan_congr h]

/-- The test of `select_masks_greedy`. -/
theorem gf2Rank_concat_iff {m : ℕ} :
    gf2Rank (rows ++ [m]) = gf2Rank rows ↔ bit m ∈ bitSpan rows := by
  have hcons : gf2Rank (rows ++ [m]) = gf2Rank (m :: rows) :=
    gf2Rank_congr fun r => (List.perm_append_singleton m rows).mem_iff
  rw [hcons, gf2Rank_eq_finrank, gf2Rank_eq_finrank, finrank_bitSpan_cons_eq_iff]

end

/-- For all rows, the loops of `gf2_rank` end, in one way. The pivots have different highest
    bits, under which they are stored, and the span of the rows. Their number is the dimension
    of this span, whatever the order of the rows, and a further row leaves it as it is iff that
    row is the exclusive or of some of the others. -/
theorem gf2Rank_dimension (rows : List ℕ) :
    ∃ pivots, (∀ pivots', RankEnds [] rows pivots' ↔ pivots' = pivots) ∧
      gf2Rank rows = pivots.length ∧
      (∀ e ∈ pivots, e.2 ≠ 0 ∧ bitLength e.2 = e.1 + 1) ∧
      (pivots.map fun e => bitLength e.2).Nodup ∧
      bitSpan (pivots.map Prod.snd) = bitSpan rows ∧
      gf2Rank rows = Module.finrank (ZMod 2) (bitSpan rows) ∧
      (∀ rows', rows'.Perm rows → gf2Rank rows' = gf2Rank rows) ∧
      ∀ m, gf2Rank (rows ++ [m]) = gf2Rank rows ↔ ∃ l, l.Sublist rows ∧ xorAll l = m := by
  refine ⟨pivotsOf rows, fun pivots => rankEnds_iff, rfl, fun e he => mem_pivotsOf he,
    nodup_top_pivotsOf rows, bitSpan_pivotsOf rows, gf2Rank_eq_finrank rows, ?_, ?_⟩
  · intro rows' hperm
    exact gf2Rank_congr fun r => hperm.mem_iff
  · intro m
    rw [gf2Rank_concat_iff, bit_mem_bitSpan_iff]

end CgroupResearch
