import CgroupResearch.Calibrate.Mapping
import CgroupResearch.Calibrate.Report
import CgroupResearch.Lib.DoubleArith

/-!
# The choice of the masks

The calibration chooses the masks of the mapping one by one (`select_masks_greedy` of
`kk_calibrate.py`): each time the candidate with the best metrics on the records set aside
for it, among those that are independent, over GF(2), of the masks chosen already. The
daemon does not check that the masks are independent. That they are rests on the test of the
rank in this loop (`gf2_rank`), and it makes the classes of the mapping balanced: each value
of as many bits as there are masks is the class of equally many addresses
(`selected_masks_balanced`).

* `Echelon`: the pivots of `gf2_rank` have different highest bits and the span of the rows,
  so that there are as many as the rank (`gf2Rank_eq_rank`);
* `selectLoop_rank`: the chosen masks have full rank;
* `ncard_bankClass`: the addresses of a class are the solutions of independent equations.
-/

namespace CgroupResearch

open Gf2

/-! ## The program -/

/-- The `while` loop of `gf2_rank` on the value `x`, with the dictionary of the pivots. Each turn
    makes `x` shorter. -/
def reduceLoop : (fuel : ℕ) → (pivots : List (ℕ × ℕ)) → (x : ℕ) → List (ℕ × ℕ)
  | 0, pivots, _ => pivots
  | fuel + 1, pivots, x =>
    if x = 0 then
      pivots
    else
      let p := bitLength x - 1
      match pivots.lookup p with
      | some y => reduceLoop fuel pivots (x ^^^ y)
      | none => pivots ++ [(p, x)]

/-- The pivots of `gf2_rank` after some rows. -/
def pivotsOf (rows : List ℕ) : List (ℕ × ℕ) :=
  rows.foldl (fun pivots value => reduceLoop (bitLength value) pivots value) []

/-- `gf2_rank`. -/
def gf2Rank (rows : List ℕ) : ℕ := (pivotsOf rows).length

/-- The fields of `PairRecord` that the choice looks at. -/
structure PairRecord where
  diff : ℕ
  labelConflict : Bool
  deriving DecidableEq, Repr

/-- `Metrics`, with its rates as `double`s. -/
structure TuneMetrics where
  tp : ℕ
  tn : ℕ
  fp : ℕ
  fn : ℕ
  accuracy : Double
  precision : Double
  «recall» : Double
  f1 : Double
  deriving DecidableEq, Repr

/-- A quotient of counts, zero if there is nothing to count. -/
def countRatio (a b : ℕ) : Double := if b = 0 then .ofRat 0 else .round (a / b)

/-- `evaluate`. -/
def evaluate (records : List PairRecord) (masks : List ℕ) : TuneMetrics :=
  let count := fun pred actual => records.countP fun rec =>
    predictSameBank rec.diff masks = pred ∧ rec.labelConflict = actual
  let tp := count true true
  let fp := count true false
  let fn := count false true
  let tn := count false false
  let precision := countRatio tp (tp + fp)
  let «recall» := countRatio tp (tp + fn)
  let sum := precision.add «recall»
  { tp := tp
    tn := tn
    fp := fp
    fn := fn
    accuracy := countRatio (tp + tn) (tp + tn + fp + fn)
    precision := precision
    «recall» := «recall»
    f1 := if sum.eq (.ofRat 0) then .ofRat 0
      else (((Double.ofRat 2).mul precision).mul «recall»).div sum }

/-- The key of a candidate in `select_masks_greedy`. -/
structure SelectionKey where
  f1 : Double
  precision : Double
  «recall» : Double
  count : ℤ
  weight : ℤ
  deriving DecidableEq, Repr

/-- The comparison `k > b` of tuples: that of the first components that differ. -/
def SelectionKey.gt (k b : SelectionKey) : Bool :=
  if !k.f1.eq b.f1 then b.f1.lt k.f1
  else if !k.precision.eq b.precision then b.precision.lt k.precision
  else if !k.recall.eq b.recall then b.recall.lt k.recall
  else if k.count ≠ b.count then b.count < k.count
  else b.weight < k.weight

/-- `candidate_counts.get(mask, 0)`. -/
def countOf (candidateCounts : List (ℕ × ℤ)) (mask : ℕ) : ℤ := (candidateCounts.lookup mask).getD 0

/-- The best of the candidates seen so far: its mask, its metrics and its key. -/
structure BestMask where
  mask : ℕ
  metrics : TuneMetrics
  key : SelectionKey
  deriving DecidableEq, Repr

/-- The inner loop of `select_masks_greedy`, over the masks that remain. -/
def bestLoop (candidateCounts : List (ℕ × ℤ)) (tuneRecords : List PairRecord)
    (selected : List ℕ) : List ℕ → Option BestMask → Option BestMask
  | [], best => best
  | mask :: remaining, best =>
    if gf2Rank (selected ++ [mask]) = gf2Rank selected then
      bestLoop candidateCounts tuneRecords selected remaining best
    else
      let metrics := evaluate tuneRecords (selected ++ [mask])
      let key : SelectionKey := ⟨metrics.f1, metrics.precision, metrics.recall,
        countOf candidateCounts mask, -(bitCount mask : ℤ)⟩
      if best.all fun b => key.gt b.key then
        bestLoop candidateCounts tuneRecords selected remaining (some ⟨mask, metrics, key⟩)
      else
        bestLoop candidateCounts tuneRecords selected remaining best

/-- An entry of the history of `select_masks_greedy`. -/
structure TuneStep where
  mask : List Char
  weight : ℕ
  frequency : ℤ
  tuneMetrics : TuneMetrics
  deriving DecidableEq, Repr

/-- The outer loop of `select_masks_greedy`, with `n` turns left. -/
def selectLoop (candidateCounts : List (ℕ × ℤ)) (tuneRecords : List PairRecord)
    (minImprovement : Double) : (n : ℕ) → (selected remaining : List ℕ) → (current : TuneMetrics) →
    (history : List TuneStep) → List ℕ × List TuneStep
  | 0, selected, _, _, history => (selected, history)
  | n + 1, selected, remaining, current, history =>
    match bestLoop candidateCounts tuneRecords selected remaining none with
    | none => (selected, history)
    | some best =>
      if best.metrics.f1.lt (current.f1.add minImprovement) then
        (selected, history)
      else
        selectLoop candidateCounts tuneRecords minImprovement n (selected ++ [best.mask])
          (remaining.erase best.mask) best.metrics
          (history ++ [⟨formatMask best.mask, bitCount best.mask,
            countOf candidateCounts best.mask, best.metrics⟩])

/-- `select_masks_greedy`. -/
def selectMasksGreedy (candidates : List ℕ) (candidateCounts : List (ℕ × ℤ))
    (tuneRecords : List PairRecord) (maxMasks : ℤ) (minImprovement : Double) :
    List ℕ × List TuneStep :=
  selectLoop candidateCounts tuneRecords minImprovement maxMasks.toNat [] candidates
    (evaluate tuneRecords []) []

/-! ## The rank -/

/-- The pivots of `gf2_rank` in echelon form: each under its highest bit, one for each of
    these. -/
structure Echelon (n : ℕ) (pivots : List (ℕ × ℕ)) : Prop where
  nodup : (pivots.map Prod.fst).Nodup
  top : ∀ e ∈ pivots, e.2 ≠ 0 ∧ bitLength e.2 = e.1 + 1 ∧ e.1 < n

section

variable {n : ℕ} {pivots : List (ℕ × ℕ)}

theorem echelon_nil (n : ℕ) : Echelon n [] := ⟨List.nodup_nil, List.forall_mem_nil _⟩

/-- A turn makes the value shorter. -/
theorem Echelon.shorter (h : Echelon n pivots) {x y : ℕ} (hx : x ≠ 0)
    (hp : pivots.lookup (bitLength x - 1) = some y) :
    (bitLength x - 1, y) ∈ pivots ∧ bitLength (x ^^^ y) < bitLength x := by
  have hmem : (bitLength x - 1, y) ∈ pivots := by
    obtain ⟨l₁, l₂, rfl, -⟩ := List.lookup_eq_some_iff.1 hp
    exact List.mem_append_right _ List.mem_cons_self
  obtain ⟨hy, htop, -⟩ := h.top _ hmem
  have hpos := bitLength_pos hx
  exact ⟨hmem, bitLength_xor_lt hx hy (by dsimp only at htop; omega)⟩

/-- A row is reduced to zero, or it is a new pivot: in both cases it is in the span of the
    pivots. -/
theorem reduceLoop_spec {fuel : ℕ} (h : Echelon n pivots) {x : ℕ} (hfuel : bitLength x ≤ fuel)
    (hx : x < 2 ^ n) :
    Echelon n (reduceLoop fuel pivots x) ∧
      span n ((reduceLoop fuel pivots x).map Prod.snd) =
        span n (pivots.map Prod.snd) ⊔ span n [x] := by
  have hzero : span n (pivots.map Prod.snd) =
      span n (pivots.map Prod.snd) ⊔ span n [0] := by
    rw [span_singleton, vec_zero, Submodule.span_zero_singleton, sup_bot_eq]
  induction fuel generalizing x with
  | zero =>
    obtain rfl : x = 0 := by
      have hlt := bitLength_le_iff.1 hfuel
      omega
    exact ⟨h, hzero⟩
  | succ fuel ih =>
    rw [reduceLoop]
    split
    · next hx0 =>
      subst hx0
      exact ⟨h, hzero⟩
    next hx0 =>
    dsimp only
    have hpos := bitLength_pos hx0
    have hle : bitLength x ≤ n := bitLength_le_iff.2 hx
    cases hlookup : pivots.lookup (bitLength x - 1) with
    | some y =>
      obtain ⟨hmem, hshorter⟩ := h.shorter hx0 hlookup
      have hlt : x ^^^ y < 2 ^ n := bitLength_le_iff.1 (by omega)
      obtain ⟨hech, hspan⟩ := ih (by omega) hlt
      refine ⟨hech, hspan.trans ?_⟩
      exact span_sup_xor (List.mem_map_of_mem hmem)
    | none =>
      dsimp only
      refine ⟨⟨?_, ?_⟩, ?_⟩
      · rw [List.map_append, List.map_singleton, List.nodup_append]
        refine ⟨h.nodup, List.nodup_singleton _, fun a ha b hb => ?_⟩
        obtain ⟨e, he, rfl⟩ := List.mem_map.1 ha
        rw [List.mem_singleton.1 hb]
        have hnone := List.lookup_eq_none_iff.1 hlookup e he
        exact fun heq => absurd heq.symm (by simpa using hnone)
      · rw [List.forall_mem_append]
        refine ⟨h.top, ?_⟩
        rw [List.forall_mem_singleton]
        exact ⟨hx0, by dsimp only; omega, by dsimp only; omega⟩
      · rw [List.map_append, span_append]
        rfl

/-- The last row is reduced by the pivots of those before it. -/
theorem pivotsOf_append_singleton (rows : List ℕ) (x : ℕ) :
    pivotsOf (rows ++ [x]) = reduceLoop (bitLength x) (pivotsOf rows) x := by
  rw [pivotsOf, List.foldl_append]
  rfl

/-- The pivots are in echelon form, and have the span of the rows. -/
theorem pivotsOf_spec {rows : List ℕ} (hrows : ∀ r ∈ rows, r < 2 ^ n) :
    Echelon n (pivotsOf rows) ∧ span n ((pivotsOf rows).map Prod.snd) = span n rows := by
  induction rows using List.reverseRecOn with
  | nil => exact ⟨echelon_nil n, rfl⟩
  | append_singleton rows x ih =>
    rw [List.forall_mem_append, List.forall_mem_singleton] at hrows
    obtain ⟨hech, hspan⟩ := ih hrows.1
    obtain ⟨hech', hspan'⟩ := reduceLoop_spec hech le_rfl hrows.2
    rw [pivotsOf_append_singleton, span_append]
    exact ⟨hech', hspan'.trans (by rw [hspan])⟩

/-- Rows in echelon form are linearly independent. -/
theorem Echelon.linearIndependent (h : Echelon n pivots) :
    LinearIndependent (ZMod 2)
      fun i : Fin (pivots.map Prod.snd).length => vec n ((pivots.map Prod.snd).get i) := by
  have hlen : (pivots.map Prod.snd).length = (pivots.map Prod.fst).length := by
    rw [List.length_map, List.length_map]
  have hmem : ∀ i : Fin (pivots.map Prod.snd).length,
      ((pivots.map Prod.fst).get (i.cast hlen), (pivots.map Prod.snd).get i) ∈ pivots := by
    intro i
    simp
  refine linearIndependent_of_top (t := fun i => (pivots.map Prod.fst).get (i.cast hlen))
    ?_ (fun i => (h.top _ (hmem i)).2.2) (fun i => ?_) fun i c hc => ?_
  · exact (List.nodup_iff_injective_get.1 h.nodup).comp (Fin.cast_injective hlen)
  · obtain ⟨hne, htop, -⟩ := h.top _ (hmem i)
    have hone := bit_top hne
    rwa [htop] at hone
  · obtain ⟨-, htop, -⟩ := h.top _ (hmem i)
    exact bit_eq_zero_of_lt (lt_two_pow_bitLength _) (htop ▸ hc)

/-- `gf2_rank` computes the rank. -/
theorem gf2Rank_eq_rank {rows : List ℕ} (hrows : ∀ r ∈ rows, r < 2 ^ n) :
    gf2Rank rows = rank n rows := by
  obtain ⟨hech, hspan⟩ := pivotsOf_spec hrows
  have hrank := linearIndependent_iff_rank.1 hech.linearIndependent
  have heq : rank n rows = rank n ((pivotsOf rows).map Prod.snd) :=
    congrArg (fun S : Submodule (ZMod 2) (Fin n → ZMod 2) => Module.finrank (ZMod 2) S) hspan.symm
  rw [heq, hrank, List.length_map]
  rfl

end

/-- A row brings one pivot or none. -/
theorem reduceLoop_length (fuel : ℕ) (pivots : List (ℕ × ℕ)) (x : ℕ) :
    (reduceLoop fuel pivots x).length = pivots.length ∨
      (reduceLoop fuel pivots x).length = pivots.length + 1 := by
  induction fuel generalizing x with
  | zero => exact .inl rfl
  | succ fuel ih =>
    rw [reduceLoop]
    split
    · exact .inl rfl
    dsimp only
    split
    · exact ih _
    · exact .inr List.length_append

/-- One row more adds one to the rank at most. -/
theorem gf2Rank_append_singleton (rows : List ℕ) (x : ℕ) :
    gf2Rank (rows ++ [x]) = gf2Rank rows ∨ gf2Rank (rows ++ [x]) = gf2Rank rows + 1 := by
  rw [gf2Rank, pivotsOf_append_singleton]
  exact reduceLoop_length _ _ _

/-! ## The chosen masks -/

section

variable {candidateCounts : List (ℕ × ℤ)} {tuneRecords : List PairRecord} {minImprovement : Double}

/-- A candidate raises the rank. -/
theorem bestLoop_rank {selected remaining : List ℕ} {best : Option BestMask} {b : BestMask}
    (hbest : ∀ b ∈ best, gf2Rank (selected ++ [b.mask]) ≠ gf2Rank selected)
    (h : bestLoop candidateCounts tuneRecords selected remaining best = some b) :
    gf2Rank (selected ++ [b.mask]) ≠ gf2Rank selected := by
  induction remaining generalizing best with
  | nil => exact hbest b h
  | cons mask remaining ih =>
    rw [bestLoop] at h
    split at h
    · exact ih hbest h
    next hrank =>
    dsimp only at h
    split at h
    · refine ih (fun b' hb' => ?_) h
      rw [← Option.some.inj hb']
      exact hrank
    · exact ih hbest h

/-- The chosen masks have full rank. -/
theorem selectLoop_rank (n : ℕ) {selected remaining : List ℕ} {current : TuneMetrics}
    {history : List TuneStep} (h : gf2Rank selected = selected.length) :
    gf2Rank (selectLoop candidateCounts tuneRecords minImprovement n selected remaining current
        history).1 =
      (selectLoop candidateCounts tuneRecords minImprovement n selected remaining current
        history).1.length := by
  induction n generalizing selected remaining current history with
  | zero => exact h
  | succ n ih =>
    rw [selectLoop]
    split
    · exact h
    next best hbest =>
    split
    · exact h
    · refine ih ?_
      have hraises := bestLoop_rank (fun b hb => absurd hb (Option.not_mem_none b)) hbest
      rw [(gf2Rank_append_singleton selected best.mask).resolve_left hraises, h,
        List.length_append, List.length_singleton]

end

/-- The masks that are selected have full rank. -/
theorem selectMasksGreedy_rank (candidates : List ℕ) (candidateCounts : List (ℕ × ℤ))
    (tuneRecords : List PairRecord) (maxMasks : ℤ) (minImprovement : Double) :
    gf2Rank (selectMasksGreedy candidates candidateCounts tuneRecords maxMasks minImprovement).1 =
      (selectMasksGreedy candidates candidateCounts tuneRecords maxMasks
        minImprovement).1.length :=
  selectLoop_rank maxMasks.toNat rfl

/-! ## Balanced classes -/

/-- Addresses are vectors of 64 bits. -/
theorem bijective_vec_toNat : Function.Bijective fun a : UInt64 => vec 64 a.toNat := by
  constructor
  · intro a b h
    refine UInt64.toNat_inj.1 (eq_of_bit_eq fun c => ?_)
    rcases Nat.lt_or_ge c 64 with hc | hc
    · exact congrFun h ⟨c, hc⟩
    · rw [bit_eq_zero_of_lt a.toNat_lt hc, bit_eq_zero_of_lt b.toNat_lt hc]
  · intro v
    obtain ⟨x, hx, rfl⟩ := exists_vec_eq v
    exact ⟨UInt64.ofNat x, by dsimp only; rw [UInt64.toNat_ofNat_of_lt' hx]⟩

/-- The class of an address, bit by bit: the equations that its vector solves. -/
theorem bankClass_eq_iff {mapping : DramMapping} (hlen : mapping.masks.length ≤ 63) (a : UInt64)
    {c : ℕ} (hc : c < 2 ^ mapping.masks.length) :
    dramMappingBankClassFast mapping a = UInt64.ofNat c ↔
      ∀ i : Fin mapping.masks.length,
        ∑ j, vec 64 (mapping.masks.get i).toNat j * vec 64 a.toNat j =
          vec mapping.masks.length c i := by
  have hlen' : mapping.masks.length ≤ 64 := by omega
  have hc64 : c < 2 ^ 64 := hc.trans_le (Nat.pow_le_pow_right two_pos hlen')
  have hbit : ∀ i : Fin mapping.masks.length,
      bit (dramMappingBankClassFast mapping a).toNat i =
        dot 64 (mapping.masks.get i).toNat a.toNat := by
    intro i
    have hparity : (parity (a.toNat &&& (mapping.masks.get i).toNat) : ZMod 2) =
        dot 64 (mapping.masks.get i).toNat a.toNat := by
      rw [cast_parity (Nat.and_le_left.trans_lt a.toNat_lt), dot]
      refine Finset.sum_congr rfl fun j _ => ?_
      rw [bit_and, mul_comm]
    rw [← hparity, bit, testBit_bankClass hlen', List.getElem?_eq_getElem i.isLt, Option.any_some]
    have hlt := parity_lt_two (a.toNat &&& (mapping.masks.get i).toNat)
    rw [List.get_eq_getElem] at hlt ⊢
    interval_cases parity (a.toNat &&& mapping.masks[i].toNat) <;> rfl
  rw [← UInt64.toNat_inj, UInt64.toNat_ofNat_of_lt' hc64]
  simp only [sum_vec_mul, ← hbit]
  constructor
  · intro h i
    rw [h]
    rfl
  · intro h
    refine eq_of_bit_eq fun j => ?_
    rcases Nat.lt_or_ge j mapping.masks.length with hj | hj
    · exact h ⟨j, hj⟩
    · rw [bit_eq_zero_of_lt (bankClass_lt hlen' a) hj, bit_eq_zero_of_lt hc hj]

/-- Under independent masks, each class has equally many addresses. -/
theorem ncard_bankClass {mapping : DramMapping} (hlen : mapping.masks.length ≤ 63)
    (hind : LinearIndependent (ZMod 2) fun i : Fin mapping.masks.length =>
      vec 64 (mapping.masks.get i).toNat) {c : ℕ} (hc : c < 2 ^ mapping.masks.length) :
    {a | dramMappingBankClassFast mapping a = UInt64.ofNat c}.ncard =
      2 ^ (64 - mapping.masks.length) := by
  have hset : {a | dramMappingBankClassFast mapping a = UInt64.ofNat c} =
      Set.preimage (fun a : UInt64 => vec 64 a.toNat)
        {x | ∀ i : Fin mapping.masks.length,
          ∑ j, vec 64 (mapping.masks.get i).toNat j * x j = vec mapping.masks.length c i} := by
    ext a
    exact bankClass_eq_iff hlen a hc
  rw [hset, Set.ncard_preimage_of_injective_subset_range bijective_vec_toNat.1
    (bijective_vec_toNat.2.range_eq ▸ Set.subset_univ _)]
  exact ncard_solutions hind _

/-- The classes of a mapping are all the values of as many bits as there are masks, each the
    class of equally many addresses; none of the class space of the oracle programs is out of
    reach. -/
structure BalancedClasses (mapping : DramMapping) : Prop where
  ncard : ∀ c < 2 ^ mapping.masks.length,
    {a | dramMappingBankClass mapping a = .ok (UInt64.ofNat c)}.ncard =
      2 ^ (64 - mapping.masks.length)
  reachable : ∀ space, classSpaceFromMapping mapping = some space → ∀ c < space,
    ∃ a, dramMappingBankClass mapping a = .ok (UInt64.ofNat c)

/-- Independent masks make balanced classes. -/
theorem balancedClasses_of_linearIndependent {mapping : DramMapping}
    (hready : dramMappingIsReady mapping = true) (hlen : mapping.masks.length ≤ 63)
    (hind : LinearIndependent (ZMod 2) fun i : Fin mapping.masks.length =>
      vec 64 (mapping.masks.get i).toNat) : BalancedClasses mapping := by
  have hclass : ∀ a c, dramMappingBankClass mapping a = .ok c ↔
      dramMappingBankClassFast mapping a = c := by
    intro a c
    rw [dramMappingBankClass, hready]
    exact ⟨Except.ok.inj, congrArg Except.ok⟩
  have hncard : ∀ c < 2 ^ mapping.masks.length,
      {a | dramMappingBankClass mapping a = .ok (UInt64.ofNat c)}.ncard =
        2 ^ (64 - mapping.masks.length) := by
    intro c hc
    simp only [hclass]
    exact ncard_bankClass hlen hind hc
  refine ⟨hncard, fun space hspace c hc => ?_⟩
  have hspace' : space = 2 ^ mapping.masks.length := by
    rw [classSpaceFromMapping, hready] at hspace
    split at hspace
    · cases hspace
    split at hspace
    · cases hspace
    · exact (Option.some.inj hspace).symm
  have hpos : 0 < {a | dramMappingBankClass mapping a = .ok (UInt64.ofNat c)}.ncard := by
    rw [hncard c (hspace' ▸ hc)]
    exact Nat.two_pow_pos _
  exact Set.nonempty_of_ncard_ne_zero hpos.ne'

/-- Masks of full rank are independent. -/
theorem linearIndependent_of_gf2Rank {masks : List UInt64}
    (h : gf2Rank (masks.map UInt64.toNat) = (masks.map UInt64.toNat).length) :
    LinearIndependent (ZMod 2) fun i : Fin masks.length => vec 64 (masks.get i).toNat := by
  have hlt : ∀ r ∈ masks.map UInt64.toNat, r < 2 ^ 64 := by
    intro r hr
    obtain ⟨m, -, rfl⟩ := List.mem_map.1 hr
    exact m.toNat_lt
  rw [gf2Rank_eq_rank hlt, ← linearIndependent_iff_rank] at h
  have hlen : masks.length = (masks.map UInt64.toNat).length := (List.length_map _).symm
  have hcast := h.comp (Fin.cast hlen) (Fin.cast_injective hlen)
  simpa [Function.comp_def] using hcast

/-- Independent masks pass the checks of the daemon. -/
theorem validateMasks_of_linearIndependent {masks : List UInt64}
    (h : LinearIndependent (ZMod 2) fun i : Fin masks.length => vec 64 (masks.get i).toNat) :
    validateMasks [] masks = .ok := by
  refine validateMasks_eq_ok ?_ ?_
  · rintro m hm rfl
    obtain ⟨i, hi⟩ := List.get_of_mem hm
    refine h.ne_zero i ?_
    rw [hi]
    exact vec_zero 64
  · rw [List.nil_append, List.nodup_iff_injective_get]
    intro i j hij
    exact h.injective (congrArg (fun m : UInt64 => vec 64 m.toNat) hij)

/-- The masks that `select_masks_greedy` returns, if they are words and neither none nor too
    many, pass the checks of `dram_mapping_init_from_calibration` on the masks, and the classes
    of the mapping are balanced. -/
theorem selected_masks_balanced (candidates : List ℕ) (candidateCounts : List (ℕ × ℤ))
    (tuneRecords : List PairRecord) (maxMasks : ℤ) (minImprovement : Double)
    {result : CalibrationResult}
    (hmasks : result.bankMasks.map UInt64.toNat = (selectMasksGreedy candidates candidateCounts
      tuneRecords maxMasks minImprovement).1)
    (hpos : 1 ≤ result.bankMasks.length) (hle : result.bankMasks.length ≤ 32) :
    (dramMappingInitFromCalibration result).1 ∉
        [DramMappingRc.errMaskCount, .errZeroMask, .errDuplicateMask] ∧
      ∀ mapping, dramMappingInitFromCalibration result = (.ok, mapping) →
        mapping.masks = result.bankMasks ∧ BalancedClasses mapping := by
  have hrank : gf2Rank (result.bankMasks.map UInt64.toNat) =
      (result.bankMasks.map UInt64.toNat).length := by
    rw [hmasks]
    exact selectMasksGreedy_rank candidates candidateCounts tuneRecords maxMasks minImprovement
  have hind := linearIndependent_of_gf2Rank hrank
  constructor
  · have hrc : validateCalibrationResult result = .errCalibrationRejected ∨
        validateCalibrationResult result = .errMaskSetId ∨
        validateCalibrationResult result = .ok := by
      rw [validateCalibrationResult]
      split
      · exact .inl rfl
      rw [if_neg (by rw [calibrationMaxBankMasks]; omega)]
      dsimp only
      split
      · exact .inr (.inl rfl)
      · exact .inr (.inr (validateMasks_of_linearIndependent hind))
    rw [dramMappingInitFromCalibration]
    rcases hrc with hrc | hrc | hrc <;> rw [hrc] <;> simp
  · intro mapping hinit
    obtain ⟨hmasks', hready, hpos', hlen⟩ := mapping_of_init hinit
    refine ⟨hmasks', balancedClasses_of_linearIndependent ?_ (by omega) ?_⟩
    · simp [dramMappingIsReady, hready, hpos']
    · rw [hmasks']
      exact hind

/-- Two of three candidates are chosen, since the third is the sum of them; each of the four
    classes has a quarter of the addresses. -/
theorem selected_masks_balanced_two :
    let result : CalibrationResult := ⟨true, true, [0x4080, 0x2000], "two".toList,
      ⟨0, 0, 0, 0, .ofRat 0, .ofRat 0, .ofRat 0, .ofRat 0⟩, 0, []⟩
    let mapping := (dramMappingInitFromCalibration result).2
    (dramMappingInitFromCalibration result).1 = .ok ∧
      {a | dramMappingBankClass mapping a = .ok 3}.ncard = 2 ^ 62 := by
  intro result mapping
  have hselect : result.bankMasks.map UInt64.toNat =
      (selectMasksGreedy [0x6080, 0x2000, 0x4080] [(0x6080, -1), (0x4080, 2)] [] 7 (.ofRat 0)).1 := by
    decide +kernel
  have hrc : (dramMappingInitFromCalibration result).1 = .ok := by decide +kernel
  obtain ⟨-, hmapping⟩ := selected_masks_balanced _ _ _ _ _ hselect (by decide) (by decide)
  exact ⟨hrc, (hmapping mapping (Prod.ext hrc rfl)).2.ncard 3 (by decide)⟩

end CgroupResearch
