import CgroupResearch.Calibrate.Nullspace
import CgroupResearch.Calibrate.Select
import CgroupResearch.Calibrate.Split
import CgroupResearch.Lib.Histogram

/-!
# The candidates for the masks

`discover_candidates` of `kk_calibrate.py` looks for the masks in the null space of the
differences of conflicting addresses. It drops the bits that no difference has, and numbers
the others from zero (`compress_diff`), draws a sample of the conflicts in each of some
rounds, and counts the masks of the basis of its null space, with their bits moved back
(`expand_mask`). The masks that are zero on enough of all conflicts are the candidates, the
best first.

* `parity_compressDiff`: compressing and expanding are adjoint, so that nothing is lost;
* `mem_counts_iff`: the masks counted are those of the samples;
* `discovered_masks_sound`: each of them is a nonzero mask on the active bits, and zero on the
  conflicts of its samples; and if every round takes all conflicts, the candidates are the
  basis of the null space.

`random.Random` is any generator whose samples are some of the list, of the size asked for
(`Sampler`).
-/

namespace CgroupResearch

open Gf2
open scoped List

/-! ## The program -/

/-- `compress_diff`. -/
def compressDiff (diff : ℕ) (bitPositions : List ℕ) : ℕ :=
  bitPositions.zipIdx.foldl
    (fun out x => if diff.testBit x.1 then out ||| 1 <<< x.2 else out) 0

/-- `expand_mask`. -/
def expandMask (mask : ℕ) (bitPositions : List ℕ) : ℕ :=
  bitPositions.zipIdx.foldl
    (fun out x => if mask.testBit x.2 then out ||| 1 <<< x.1 else out) 0

/-- `mask_quality`. -/
def maskQuality (mask : ℕ) (records : List PairRecord) : Double × Double :=
  let positives := records.filter (·.labelConflict)
  let negatives := records.filter fun r => !r.labelConflict
  let zeros := fun rs : List PairRecord => rs.countP fun r => parity (r.diff &&& mask) = 0
  (countRatio (zeros positives) positives.length, countRatio (zeros negatives) negatives.length)

/-- `random.Random`: what `sample` takes of a list, and the next state. -/
structure Sampler (σ : Type) where
  sample : σ → List ℕ → ℕ → List ℕ × σ
  subperm : ∀ s l k, k ≤ l.length → (sample s l k).1 <+~ l
  length_eq : ∀ s l k, k ≤ l.length → (sample s l k).1.length = k

/-- A `Counter`, in the order of the first additions. -/
abbrev PyCounter := List (ℕ × ℕ)

/-- The entry of a key with a count added. -/
def PyCounter.merge (x e : ℕ × ℕ) : ℕ × ℕ := (x.1, x.2 + e.2)

/-- `counter[key] += 1`. -/
def PyCounter.add (counter : PyCounter) (key : ℕ) : PyCounter :=
  Histogram.accumulate Prod.fst merge (key, 1) counter

/-- The variables of the loop over the rounds. -/
structure Rounds where
  counts : PyCounter
  successfulRounds : ℕ
  nullityHist : PyCounter
  deriving DecidableEq, Repr

/-- A round, with its sample. -/
def roundTurn (bitPositions : List ℕ) (s : Rounds) (sample : List ℕ) : Rounds :=
  let basis := gf2Nullspace sample bitPositions.length
  let nullityHist := s.nullityHist.add basis.length
  if basis = [] then
    { s with nullityHist := nullityHist }
  else
    { counts := basis.foldl
        (fun counts compressedMask =>
          let mask := expandMask compressedMask bitPositions
          if mask ≠ 0 then PyCounter.add counts mask else counts) s.counts
      successfulRounds := s.successfulRounds + 1
      nullityHist := nullityHist }

/-- The samples of some rounds. A sample of all the conflicts is not drawn. -/
def drawSamples {σ : Type} (rng : Sampler σ) (compressedConflicts : List ℕ)
    (actualSubsample : ℕ) : (rounds : ℕ) → σ → List (List ℕ)
  | 0, _ => []
  | rounds + 1, s =>
    if actualSubsample = compressedConflicts.length then
      compressedConflicts :: drawSamples rng compressedConflicts actualSubsample rounds s
    else
      let (sample, s) := rng.sample s compressedConflicts actualSubsample
      sample :: drawSamples rng compressedConflicts actualSubsample rounds s

/-- The score of a mask. -/
structure Score where
  negPosZero : Double
  negFreq : ℤ
  weight : ℕ
  imbalance : Double
  mask : ℕ
  deriving DecidableEq, Repr

/-- The comparison `x < y` of tuples. -/
def Score.lt (x y : Score) : Bool :=
  if !x.negPosZero.eq y.negPosZero then x.negPosZero.lt y.negPosZero
  else if x.negFreq ≠ y.negFreq then x.negFreq < y.negFreq
  else if x.weight ≠ y.weight then x.weight < y.weight
  else if !x.imbalance.eq y.imbalance then x.imbalance.lt y.imbalance
  else x.mask < y.mask

/-- The masks with their scores, of those that are zero on enough of the conflicts. -/
def scoredMasks (fitRecords : List PairRecord) (counts : PyCounter) (minPositiveZeroRate : Double) :
    List Score :=
  counts.filterMap fun (mask, freq) =>
    let (posZero, negZero) := maskQuality mask fitRecords
    if posZero.lt minPositiveZeroRate then
      none
    else
      some ⟨posZero.neg, -freq, bitCount mask, (negZero.sub (.ofRat (1 / 2))).abs, mask⟩

/-- The scored masks in the order of their scores: the candidates before truncation. -/
def rankedMasks (fitRecords : List PairRecord) (counts : PyCounter) (minPositiveZeroRate : Double) :
    List ℕ :=
  ((scoredMasks fitRecords counts minPositiveZeroRate).insertionSort fun x y =>
    y.lt x = false).map Score.mask

/-- The slice `l[:n]`. -/
def pyTake {α : Type} (l : List α) (n : ℤ) : List α :=
  if 0 ≤ n then l.take n.toNat else l.take (l.length - (-n).toNat)

/-- The union of the differences, as a number. -/
def activeUnion (fitRecords : List PairRecord) : ℕ :=
  fitRecords.foldl (fun union rec => union ||| rec.diff) 0

/-- The list `bit_positions` of `discover_candidates`. -/
def activeBits (fitRecords : List PairRecord) : List ℕ :=
  (List.range (max 1 (bitLength (activeUnion fitRecords)))).filter
    (activeUnion fitRecords).testBit

/-- The parameters of `discover_candidates`, less the seed. -/
structure DiscoverParams where
  rounds : ℤ
  subsample : ℤ
  minPositiveZeroRate : Double
  maxCandidates : ℤ
  deriving DecidableEq, Repr

/-- The diagnostics that `discover_candidates` returns. -/
structure DiscoverDiagnostics where
  activeBitPositions : List ℕ
  conflictRecords : ℕ
  subsampleSize : ℕ
  rounds : ℤ
  successfulRounds : ℕ
  successfulRoundRate : Double
  nullityHistogram : List (ℕ × ℕ)
  rawCandidateCount : ℕ
  filteredCandidateCount : ℕ
  deriving DecidableEq, Repr

/-- What `discover_candidates` returns. -/
structure Discovered where
  candidates : List ℕ
  counts : PyCounter
  diagnostics : DiscoverDiagnostics
  deriving DecidableEq, Repr

section

variable {σ : Type} (rng : Sampler σ) (fitRecords : List PairRecord) (p : DiscoverParams) (s : σ)

/-- The differences of the conflicts, compressed. -/
def compressedConflicts : List ℕ :=
  (fitRecords.filter (·.labelConflict)).map fun r => compressDiff r.diff (activeBits fitRecords)

/-- The size of a sample. -/
def actualSubsample : ℕ := (min p.subsample (compressedConflicts fitRecords).length).toNat

/-- The samples that `discover_candidates` looks at, from the state `s` of the generator. -/
def roundSamples : List (List ℕ) :=
  drawSamples rng (compressedConflicts fitRecords) (actualSubsample fitRecords p) p.rounds.toNat s

/-- The variables after the rounds. -/
def roundsOf : Rounds :=
  (roundSamples rng fitRecords p s).foldl (roundTurn (activeBits fitRecords)) ⟨[], 0, []⟩

/-- `discover_candidates`, with the text of the `CalibrationError` that it raises. -/
def discoverCandidates : Except String Discovered :=
  if fitRecords.filter (·.labelConflict) = [] then
    .error "no fit conflicts available for GF(2)"
  else if activeBits fitRecords = [] then
    .error "no varying physical-address bits found"
  else if min p.subsample (compressedConflicts fitRecords).length ≤ 0 then
    .error "invalid GF(2) subsample size"
  else
    let r := roundsOf rng fitRecords p s
    if r.counts = [] then
      .error ("GF(2) subsampling produced no candidate masks (" ++ toString r.successfulRounds ++
        "/" ++ toString p.rounds ++ " successful rounds)")
    else
      let candidates :=
        pyTake (rankedMasks fitRecords r.counts p.minPositiveZeroRate) p.maxCandidates
      if candidates = [] then
        .error "candidate masks exist, but none passed fit positive-zero-rate filter"
      else
        .ok {
          candidates := candidates
          counts := r.counts
          diagnostics := {
            activeBitPositions := activeBits fitRecords
            conflictRecords := (fitRecords.filter (·.labelConflict)).length
            subsampleSize := actualSubsample fitRecords p
            rounds := p.rounds
            successfulRounds := r.successfulRounds
            successfulRoundRate := countRatio r.successfulRounds p.rounds.toNat
            nullityHistogram := r.nullityHist.insertionSort fun x y => x.1 ≤ y.1
            rawCandidateCount := r.counts.length
            filteredCandidateCount := candidates.length } }

end

/-! ## Compressing and expanding -/

section

variable {positions : List ℕ}

theorem any_zipIdx_iff {p : ℕ × ℕ → Bool} :
    positions.zipIdx.any p = true ↔ ∃ j b, positions[j]? = some b ∧ p (b, j) = true := by
  rw [List.any_eq_true]
  constructor
  · rintro ⟨⟨b, j⟩, hmem, h⟩
    exact ⟨j, b, List.mem_zipIdx_iff_getElem?.1 hmem, h⟩
  · rintro ⟨j, b, hb, h⟩
    exact ⟨(b, j), List.mem_zipIdx_iff_getElem?.2 hb, h⟩

/-- The bit `j` of a compressed difference is the one at the `j`-th position. -/
theorem testBit_compressDiff (diff : ℕ) (positions : List ℕ) (j : ℕ) :
    (compressDiff diff positions).testBit j = true ↔
      ∃ b, positions[j]? = some b ∧ diff.testBit b = true := by
  rw [compressDiff, testBit_foldl_or (fun x : ℕ × ℕ => diff.testBit x.1) Prod.snd,
    Nat.zero_testBit, Bool.false_or, any_zipIdx_iff]
  simp only [Bool.and_eq_true, decide_eq_true_eq]
  constructor
  · rintro ⟨_, b, hb, hbit, rfl⟩
    exact ⟨b, hb, hbit⟩
  · rintro ⟨b, hb, hbit⟩
    exact ⟨j, b, hb, hbit, rfl⟩

/-- A bit of an expanded mask is the one of the position that it stands at. -/
theorem testBit_expandMask (mask : ℕ) (positions : List ℕ) (b : ℕ) :
    (expandMask mask positions).testBit b = true ↔
      ∃ j, positions[j]? = some b ∧ mask.testBit j = true := by
  rw [expandMask, testBit_foldl_or (fun x : ℕ × ℕ => mask.testBit x.2) Prod.fst,
    Nat.zero_testBit, Bool.false_or, any_zipIdx_iff]
  simp only [Bool.and_eq_true, decide_eq_true_eq]
  constructor
  · rintro ⟨j, _, hb, hbit, rfl⟩
    exact ⟨j, hb, hbit⟩
  · rintro ⟨j, hb, hbit⟩
    exact ⟨j, b, hb, hbit, rfl⟩

theorem bit_compressDiff (diff : ℕ) (j : Fin positions.length) :
    bit (compressDiff diff positions) j = bit diff (positions.get j) := by
  have h : (compressDiff diff positions).testBit j = diff.testBit (positions.get j) := by
    rw [Bool.eq_iff_iff, testBit_compressDiff]
    simp
  rw [bit, bit, h]

theorem compressDiff_lt (diff : ℕ) (positions : List ℕ) :
    compressDiff diff positions < 2 ^ positions.length := by
  refine Nat.lt_pow_two_of_testBit _ fun j hj => ?_
  rw [Bool.eq_false_iff, ne_eq, testBit_compressDiff]
  rintro ⟨b, hb, -⟩
  rw [List.getElem?_eq_none hj] at hb
  cases hb

theorem testBit_expandMask_get (hnodup : positions.Nodup) (mask : ℕ) (j : Fin positions.length) :
    (expandMask mask positions).testBit (positions.get j) = mask.testBit j := by
  rw [Bool.eq_iff_iff, testBit_expandMask]
  constructor
  · rintro ⟨i, hi, hbit⟩
    obtain ⟨hlt, heq⟩ := List.getElem?_eq_some_iff.1 hi
    have hget : positions.get ⟨i, hlt⟩ = positions.get j := heq
    have hij : i = j := congrArg Fin.val (hnodup.injective_get hget)
    rwa [hij] at hbit
  · exact fun hbit => ⟨j, List.getElem?_eq_getElem j.2, hbit⟩

/-- Expanding loses no bit. -/
theorem expandMask_injOn (hnodup : positions.Nodup) {v w : ℕ} (hv : v < 2 ^ positions.length)
    (hw : w < 2 ^ positions.length) (h : expandMask v positions = expandMask w positions) :
    v = w := by
  refine Nat.eq_of_testBit_eq fun j => ?_
  by_cases hj : j < positions.length
  · rw [← testBit_expandMask_get hnodup v ⟨j, hj⟩, h, testBit_expandMask_get hnodup w ⟨j, hj⟩]
  · have hle : 2 ^ positions.length ≤ 2 ^ j := Nat.pow_le_pow_right two_pos (not_lt.1 hj)
    rw [Nat.testBit_lt_two_pow (hv.trans_le hle), Nat.testBit_lt_two_pow (hw.trans_le hle)]

theorem expandMask_zero (positions : List ℕ) : expandMask 0 positions = 0 := by
  refine Nat.eq_of_testBit_eq fun b => ?_
  rw [Nat.zero_testBit, Bool.eq_false_iff, ne_eq, testBit_expandMask]
  rintro ⟨j, -, hbit⟩
  rw [Nat.zero_testBit] at hbit
  cases hbit

/-- A bit of an expanded mask comes from the position it stands at. -/
theorem bit_expandMask (hnodup : positions.Nodup) (mask b : ℕ) :
    bit (expandMask mask positions) b =
      ∑ j : Fin positions.length, if positions.get j = b then bit mask j else 0 := by
  by_cases hb : b ∈ positions
  · obtain ⟨j, rfl⟩ := List.mem_iff_get.1 hb
    rw [Finset.sum_eq_single j]
    · rw [if_pos rfl, bit, bit, testBit_expandMask_get hnodup]
    · intro i _ hne
      exact if_neg fun h => hne (hnodup.injective_get h)
    · exact fun h => absurd (Finset.mem_univ j) h
  · have hfalse : bit (expandMask mask positions) b = 0 := by
      rw [bit_eq_zero_iff, Bool.eq_false_iff, ne_eq, testBit_expandMask]
      rintro ⟨j, hj, -⟩
      exact hb (List.mem_of_getElem? hj)
    rw [hfalse, Finset.sum_eq_zero]
    intro j _
    refine if_neg fun h => hb ?_
    rw [← h]
    exact List.get_mem _ _

/-- Compressing a difference and expanding a mask are adjoint. -/
theorem parity_compressDiff (hnodup : positions.Nodup) (diff mask : ℕ) :
    parity (compressDiff diff positions &&& mask) =
      parity (diff &&& expandMask mask positions) := by
  have hleft : compressDiff diff positions &&& mask < 2 ^ positions.length :=
    Nat.and_le_left.trans_lt (compressDiff_lt diff positions)
  have hright : diff &&& expandMask mask positions < 2 ^ bitLength diff :=
    Nat.and_le_left.trans_lt (lt_two_pow_bitLength diff)
  -- both are the sum over the positions of the bits of the difference and of the mask
  have hinner : ∀ j : Fin positions.length,
      (∑ b ∈ Finset.range (bitLength diff),
        bit diff b * if positions.get j = b then bit mask j else 0) =
      bit diff (positions.get j) * bit mask j := by
    intro j
    simp only [mul_ite, mul_zero, Finset.sum_ite_eq, Finset.mem_range]
    split_ifs with hlt
    · rfl
    · rw [bit_eq_zero_of_lt (lt_two_pow_bitLength diff) (not_lt.1 hlt), zero_mul]
  rw [parity_eq_iff, cast_parity hleft, cast_parity hright, Finset.sum_range]
  simp only [bit_and, bit_compressDiff, bit_expandMask hnodup, Finset.mul_sum]
  rw [Finset.sum_comm]
  exact (Finset.sum_congr rfl fun j _ => hinner j).symm

end

/-! ## The masks of a sample -/

/-- The masks that a sample gives: the basis of its null space, expanded. -/
def masksOf (positions sample : List ℕ) : List ℕ :=
  (gf2Nullspace sample positions.length).map (expandMask · positions)

section

variable {positions sample : List ℕ}

/-- A mask of a sample has a bit. -/
theorem ne_zero_of_mem_masksOf (hnodup : positions.Nodup) {mask : ℕ}
    (h : mask ∈ masksOf positions sample) : mask ≠ 0 := by
  obtain ⟨v, hv, rfl⟩ := List.mem_map.1 h
  intro hzero
  have hlt := (lt_and_dot_of_mem_gf2Nullspace hv).1
  rw [← expandMask_zero positions] at hzero
  exact ne_zero_of_mem_gf2Nullspace hv (expandMask_injOn hnodup hlt (by positivity) hzero)

theorem nodup_masksOf (hnodup : positions.Nodup) (sample : List ℕ) :
    (masksOf positions sample).Nodup :=
  (nodup_gf2Nullspace sample positions.length).map_on fun _ hv _ hw h =>
    expandMask_injOn hnodup (lt_and_dot_of_mem_gf2Nullspace hv).1
      (lt_and_dot_of_mem_gf2Nullspace hw).1 h

/-- A mask of a sample has bits at the positions only. -/
theorem mem_of_testBit_masksOf {mask b : ℕ} (h : mask ∈ masksOf positions sample)
    (hb : mask.testBit b = true) : b ∈ positions := by
  obtain ⟨v, -, rfl⟩ := List.mem_map.1 h
  obtain ⟨j, hj, -⟩ := (testBit_expandMask v positions b).1 hb
  exact List.mem_of_getElem? hj

/-- A mask is zero on the differences of its sample, as they were before compressing. -/
theorem parity_of_mem_masksOf (hnodup : positions.Nodup) {mask diff : ℕ}
    (h : mask ∈ masksOf positions sample) (hdiff : compressDiff diff positions ∈ sample) :
    parity (diff &&& mask) = 0 := by
  obtain ⟨v, hv, rfl⟩ := List.mem_map.1 h
  rw [← parity_compressDiff hnodup]
  exact parity_of_mem_gf2Nullspace hv hdiff

end

/-! ## The rounds -/

section

variable {positions : List ℕ}

theorem PyCounter.fst_merge (x e : ℕ × ℕ) : (merge x e).1 = x.1 := rfl

/-- The masks added to a counter. -/
def PyCounter.addAll (counter : PyCounter) (masks : List ℕ) : PyCounter := masks.foldl add counter

theorem PyCounter.addAll_eq (counter : PyCounter) (masks : List ℕ) :
    counter.addAll masks =
      Histogram.accumulateAll Prod.fst merge (masks.map fun m => (m, 1)) counter := by
  rw [Histogram.accumulateAll, List.foldl_map]
  rfl

/-- A counter has counted the masks that were added to it. -/
theorem PyCounter.mem_keys_addAll {counter : PyCounter} {masks : List ℕ} {mask : ℕ} :
    mask ∈ (counter.addAll masks).map Prod.fst ↔ mask ∈ masks ∨ mask ∈ counter.map Prod.fst := by
  have hkeys : (masks.map fun m => (m, 1)).map Prod.fst = masks := by
    rw [List.map_map]
    exact List.map_id masks
  rw [addAll_eq, Histogram.mem_keys_accumulateAll fst_merge, hkeys]

theorem PyCounter.nodup_keys_addAll {counter : PyCounter} (h : (counter.map Prod.fst).Nodup)
    (masks : List ℕ) : ((counter.addAll masks).map Prod.fst).Nodup := by
  rw [addAll_eq]
  exact Histogram.Distinct.accumulateAll fst_merge h _

/-- A round adds the masks of its sample, which are not zero. -/
theorem counts_roundTurn (hnodup : positions.Nodup) (s : Rounds) (sample : List ℕ) :
    (roundTurn positions s sample).counts = s.counts.addAll (masksOf positions sample) := by
  have hadd : ∀ counts : PyCounter, ∀ basis : List ℕ,
      (∀ v ∈ basis, expandMask v positions ≠ 0) →
      basis.foldl (fun counts v => if expandMask v positions ≠ 0 then
        PyCounter.add counts (expandMask v positions) else counts) counts =
      counts.addAll (basis.map (expandMask · positions)) := by
    intro counts basis hne
    induction basis generalizing counts with
    | nil => rfl
    | cons v basis ih =>
      rw [List.foldl_cons, if_pos (hne v List.mem_cons_self),
        ih _ fun w hw => hne w (List.mem_cons_of_mem v hw)]
      rfl
  have hne : ∀ v ∈ gf2Nullspace sample positions.length, expandMask v positions ≠ 0 :=
    fun v hv => ne_zero_of_mem_masksOf hnodup (List.mem_map_of_mem hv)
  rw [roundTurn]
  dsimp only
  split_ifs with hnil
  · rw [masksOf, hnil]
    rfl
  · exact hadd s.counts _ hne

/-- The masks counted are those of the samples. -/
theorem mem_counts_foldl (hnodup : positions.Nodup) {samples : List (List ℕ)} {s : Rounds}
    {mask : ℕ} :
    mask ∈ (samples.foldl (roundTurn positions) s).counts.map Prod.fst ↔
      (∃ sample ∈ samples, mask ∈ masksOf positions sample) ∨ mask ∈ s.counts.map Prod.fst := by
  induction samples generalizing s with
  | nil => simp
  | cons sample samples ih =>
    rw [List.foldl_cons, ih, counts_roundTurn hnodup, PyCounter.mem_keys_addAll]
    simp only [List.mem_cons, exists_eq_or_imp]
    exact or_left_comm.trans or_assoc.symm

theorem nodup_counts_foldl (hnodup : positions.Nodup) {samples : List (List ℕ)} {s : Rounds}
    (h : (s.counts.map Prod.fst).Nodup) :
    ((samples.foldl (roundTurn positions) s).counts.map Prod.fst).Nodup := by
  induction samples generalizing s with
  | nil => exact h
  | cons sample samples ih =>
    refine ih ?_
    rw [counts_roundTurn hnodup]
    exact PyCounter.nodup_keys_addAll h _

end

section

variable {σ : Type} {rng : Sampler σ} {fitRecords : List PairRecord} {p : DiscoverParams} {s : σ}

theorem nodup_activeBits (fitRecords : List PairRecord) : (activeBits fitRecords).Nodup :=
  List.nodup_range.filter _

theorem testBit_of_mem_activeBits {b : ℕ} (h : b ∈ activeBits fitRecords) :
    (activeUnion fitRecords).testBit b = true :=
  (List.mem_filter.1 h).2

/-- A sample is drawn without replacement. -/
theorem mem_drawSamples {l sample : List ℕ} {k rounds : ℕ} (hk : k ≤ l.length)
    (h : sample ∈ drawSamples rng l k rounds s) : sample <+~ l ∧ sample.length = k := by
  induction rounds generalizing s with
  | zero => exact absurd h List.not_mem_nil
  | succ rounds ih =>
    rw [drawSamples] at h
    split_ifs at h with hfull
    · rcases List.mem_cons.1 h with rfl | h
      · exact ⟨List.Subperm.refl _, hfull.symm⟩
      · exact ih h
    · rcases List.mem_cons.1 h with rfl | h
      · exact ⟨rng.subperm _ _ _ hk, rng.length_eq _ _ _ hk⟩
      · exact ih h

/-- A sample as large as the population is the population. -/
theorem drawSamples_full (l : List ℕ) (rounds : ℕ) :
    drawSamples rng l l.length rounds s = List.replicate rounds l := by
  induction rounds with
  | zero => rfl
  | succ rounds ih => rw [drawSamples, if_pos rfl, ih, List.replicate_succ]

theorem actualSubsample_le (fitRecords : List PairRecord) (p : DiscoverParams) :
    actualSubsample fitRecords p ≤ (compressedConflicts fitRecords).length := by
  rw [actualSubsample]
  omega

/-- The masks that are counted are those of the samples. -/
theorem mem_counts_iff {mask : ℕ} : mask ∈ (roundsOf rng fitRecords p s).counts.map Prod.fst ↔
    ∃ sample ∈ roundSamples rng fitRecords p s, mask ∈ masksOf (activeBits fitRecords) sample := by
  rw [roundsOf, mem_counts_foldl (nodup_activeBits fitRecords), List.map_nil, or_iff_left
    List.not_mem_nil]

theorem nodup_counts (rng : Sampler σ) (fitRecords : List PairRecord) (p : DiscoverParams) (s : σ) :
    ((roundsOf rng fitRecords p s).counts.map Prod.fst).Nodup :=
  nodup_counts_foldl (nodup_activeBits fitRecords) List.nodup_nil

/-! ## The candidates -/

theorem map_mask_scoredMasks (fitRecords : List PairRecord) (counts : PyCounter) (rate : Double) :
    (scoredMasks fitRecords counts rate).map Score.mask =
      (counts.filter fun x => !(maskQuality x.1 fitRecords).1.lt rate).map Prod.fst := by
  induction counts with
  | nil => rfl
  | cons x counts ih =>
    rw [scoredMasks] at ih ⊢
    rw [List.filterMap_cons, List.filter_cons]
    dsimp only
    cases (maskQuality x.1 fitRecords).1.lt rate with
    | true => exact ih
    | false => exact congrArg (x.1 :: ·) ih

/-- The ranked masks are those that are counted and good enough, each once. -/
theorem rankedMasks_perm (fitRecords : List PairRecord) (counts : PyCounter) (rate : Double) :
    rankedMasks fitRecords counts rate ~
      (counts.filter fun x => !(maskQuality x.1 fitRecords).1.lt rate).map Prod.fst := by
  rw [← map_mask_scoredMasks]
  exact (List.perm_insertionSort _ _).map _

/-- A mask is ranked if it is counted and good enough. -/
theorem mem_rankedMasks {counts : PyCounter} {rate : Double} {mask : ℕ} :
    mask ∈ rankedMasks fitRecords counts rate ↔
      mask ∈ counts.map Prod.fst ∧ (maskQuality mask fitRecords).1.lt rate = false := by
  rw [(rankedMasks_perm fitRecords counts rate).mem_iff]
  simp only [List.mem_map, List.mem_filter, Bool.not_eq_true']
  constructor
  · rintro ⟨x, ⟨hx, hlt⟩, rfl⟩
    exact ⟨⟨x, hx, rfl⟩, hlt⟩
  · rintro ⟨⟨x, hx, rfl⟩, hlt⟩
    exact ⟨x, ⟨hx, hlt⟩, rfl⟩

theorem pyTake_sublist {α : Type} (l : List α) (n : ℤ) : (pyTake l n).Sublist l := by
  rw [pyTake]
  split_ifs
  · exact List.take_sublist _ _
  · exact List.take_sublist _ _

theorem countRatio_ne_nan (a b : ℕ) : countRatio a b ≠ .nan := by
  rw [countRatio]
  split_ifs
  · exact fun h => Double.noConfusion h
  · exact Double.toDouble_ne_nan _ _

/-- A mask that is zero on all of some conflicts passes the filter. -/
theorem countRatio_self_pass {n : ℕ} (hn : 0 < n) {rate : Double} (h : isFraction rate = true) :
    (countRatio n n).lt rate = false := by
  have hone : countRatio n n = .ofRat 1 := by
    rw [countRatio, if_neg hn.ne', div_self (Nat.cast_ne_zero.2 hn.ne'), Double.round_one]
  rw [hone, Bool.eq_false_iff]
  intro hlt
  rw [isFraction, Double.le_eq_false_of_lt hlt, Bool.and_false] at h
  cases h

theorem length_compressedConflicts (fitRecords : List PairRecord) :
    (compressedConflicts fitRecords).length = (fitRecords.filter (·.labelConflict)).length :=
  List.length_map _

/-- Masks of all the conflicts are zero on all of them. -/
theorem maskQuality_full {mask : ℕ}
    (h : mask ∈ masksOf (activeBits fitRecords) (compressedConflicts fitRecords)) :
    (maskQuality mask fitRecords).1 = countRatio (fitRecords.filter (·.labelConflict)).length
      (fitRecords.filter (·.labelConflict)).length := by
  have hall : ∀ r ∈ fitRecords.filter (·.labelConflict),
      decide (parity (r.diff &&& mask) = 0) = true := fun r hr =>
    decide_eq_true (parity_of_mem_masksOf (nodup_activeBits fitRecords) h (List.mem_map_of_mem hr))
  rw [maskQuality]
  dsimp only
  rw [List.countP_eq_length.2 hall]

variable (rng s) in
/-- If the rounds take all the conflicts, they count the masks of all the conflicts. -/
theorem counts_perm_full (hall : (compressedConflicts fitRecords).length ≤ p.subsample)
    (hrounds : 1 ≤ p.rounds) :
    (roundsOf rng fitRecords p s).counts.map Prod.fst ~
      masksOf (activeBits fitRecords) (compressedConflicts fitRecords) := by
  have hsamples : roundSamples rng fitRecords p s =
      List.replicate p.rounds.toNat (compressedConflicts fitRecords) := by
    have hactual : actualSubsample fitRecords p = (compressedConflicts fitRecords).length := by
      rw [actualSubsample, min_eq_right hall, Int.toNat_natCast]
    rw [roundSamples, hactual, drawSamples_full]
  refine (List.perm_ext_iff_of_nodup (nodup_counts rng fitRecords p s)
    (nodup_masksOf (nodup_activeBits fitRecords) _)).2 fun mask => ?_
  have hne : p.rounds.toNat ≠ 0 := by omega
  rw [mem_counts_iff, hsamples]
  simp only [List.mem_replicate, ne_eq, hne, not_false_eq_true, true_and, exists_eq_left]

variable (rng s) in
/-- The candidates before truncation, if the rounds take all the conflicts and the masks pass
    the filter. -/
theorem rankedMasks_perm_full (hall : (compressedConflicts fitRecords).length ≤ p.subsample)
    (hrounds : 1 ≤ p.rounds)
    (hpass : (countRatio (fitRecords.filter (·.labelConflict)).length
      (fitRecords.filter (·.labelConflict)).length).lt p.minPositiveZeroRate = false) :
    rankedMasks fitRecords (roundsOf rng fitRecords p s).counts p.minPositiveZeroRate ~
      masksOf (activeBits fitRecords) (compressedConflicts fitRecords) := by
  have hcounts := counts_perm_full rng s hall hrounds
  refine (rankedMasks_perm _ _ _).trans (List.Perm.trans (.of_eq ?_) hcounts)
  rw [List.filter_eq_self.2]
  intro x hx
  rw [maskQuality_full (hcounts.subset (List.mem_map_of_mem hx)), hpass]
  rfl

/-- What `discover_candidates` returns is read off the rounds. -/
theorem discoverCandidates_ok {d : Discovered} (h : discoverCandidates rng fitRecords p s = .ok d) :
    d.counts = (roundsOf rng fitRecords p s).counts ∧
      d.candidates = pyTake (rankedMasks fitRecords d.counts p.minPositiveZeroRate)
        p.maxCandidates ∧ d.candidates ≠ [] := by
  rw [discoverCandidates] at h
  dsimp only at h
  split_ifs at h with h₁ h₂ h₃ h₄ h₅
  cases h
  exact ⟨rfl, rfl, h₅⟩

/-- If it returns, there was a round. -/
theorem one_le_rounds_of_mem_counts {mask : ℕ}
    (h : mask ∈ (roundsOf rng fitRecords p s).counts.map Prod.fst) : 1 ≤ p.rounds := by
  obtain ⟨sample, hsample, -⟩ := mem_counts_iff.1 h
  by_contra hlt
  rw [roundSamples, Int.toNat_of_nonpos (by omega)] at hsample
  exact List.not_mem_nil hsample

/-- The masks of a sample are sound: none is zero, they have active bits only, and are zero on
    the conflicts of the sample. -/
structure SoundMask (fitRecords : List PairRecord) (sample : List ℕ) (mask : ℕ) : Prop where
  ne_zero : mask ≠ 0
  active : ∀ b, mask.testBit b = true → (activeUnion fitRecords).testBit b = true
  parity : ∀ r ∈ fitRecords, r.labelConflict = true →
    compressDiff r.diff (activeBits fitRecords) ∈ sample → parity (r.diff &&& mask) = 0

/-- A mask of a sample is sound. -/
theorem soundMask_of_mem {sample : List ℕ} {mask : ℕ}
    (h : mask ∈ masksOf (activeBits fitRecords) sample) : SoundMask fitRecords sample mask where
  ne_zero := ne_zero_of_mem_masksOf (nodup_activeBits fitRecords) h
  active _ hb := testBit_of_mem_activeBits (mem_of_testBit_masksOf h hb)
  parity _ _ _ hr := parity_of_mem_masksOf (nodup_activeBits fitRecords) h hr

/-- If the samples are all the conflicts, the ranked masks are the masks of all the conflicts. -/
theorem rankedMasks_of_ok {d : Discovered} (h : discoverCandidates rng fitRecords p s = .ok d)
    (hall : (compressedConflicts fitRecords).length ≤ p.subsample) :
    rankedMasks fitRecords d.counts p.minPositiveZeroRate ~
      masksOf (activeBits fitRecords) (compressedConflicts fitRecords) := by
  obtain ⟨hcounts, hcandidates, hne⟩ := discoverCandidates_ok h
  -- a candidate has passed the filter, and all masks have its rate
  obtain ⟨mask, hmask⟩ := List.exists_mem_of_ne_nil _ hne
  rw [hcandidates] at hmask
  obtain ⟨hmem, hpass⟩ := mem_rankedMasks.1 ((pyTake_sublist _ _).mem hmask)
  rw [hcounts] at hmem ⊢
  have hrounds := one_le_rounds_of_mem_counts hmem
  rw [maskQuality_full ((counts_perm_full rng s hall hrounds).subset hmem)] at hpass
  exact rankedMasks_perm_full rng s hall hrounds hpass

/-- Compressing loses nothing: the masks counted are those of the samples, with active bits and
    zero on the conflicts of their samples, as the differences were before compressing; the
    candidates are zero on enough of the conflicts; and if the samples are all the conflicts,
    the candidates before truncation are the basis of their null space. -/
theorem discovered_masks_sound (rng : Sampler σ) (fitRecords : List PairRecord)
    (p : DiscoverParams) (s : σ) :
    (∀ positions : List ℕ, positions.Nodup → ∀ diff mask,
      parity (compressDiff diff positions &&& mask) =
        parity (diff &&& expandMask mask positions)) ∧
    (∀ mask, mask ∈ (roundsOf rng fitRecords p s).counts.map Prod.fst ↔
      ∃ sample ∈ roundSamples rng fitRecords p s,
        mask ∈ masksOf (activeBits fitRecords) sample) ∧
    (∀ sample ∈ roundSamples rng fitRecords p s,
      sample <+~ compressedConflicts fitRecords ∧
      sample.length = actualSubsample fitRecords p ∧
      ∀ mask ∈ masksOf (activeBits fitRecords) sample, SoundMask fitRecords sample mask) ∧
    (0 < fitRecords.countP (·.labelConflict) → 1 ≤ p.rounds →
      isFraction p.minPositiveZeroRate = true →
      (fitRecords.countP (·.labelConflict) : ℤ) ≤ p.subsample →
      rankedMasks fitRecords (roundsOf rng fitRecords p s).counts p.minPositiveZeroRate ~
        masksOf (activeBits fitRecords) (compressedConflicts fitRecords)) ∧
    ∀ d, discoverCandidates rng fitRecords p s = .ok d →
      d.counts = (roundsOf rng fitRecords p s).counts ∧
      (p.minPositiveZeroRate ≠ .nan → ∀ mask ∈ d.candidates,
        p.minPositiveZeroRate.le (maskQuality mask fitRecords).1 = true) ∧
      d.candidates = pyTake (rankedMasks fitRecords d.counts p.minPositiveZeroRate)
        p.maxCandidates ∧
      ((fitRecords.countP (·.labelConflict) : ℤ) ≤ p.subsample →
        rankedMasks fitRecords d.counts p.minPositiveZeroRate ~
          masksOf (activeBits fitRecords) (compressedConflicts fitRecords)) := by
  have hlength : (compressedConflicts fitRecords).length =
      fitRecords.countP (·.labelConflict) := by
    rw [length_compressedConflicts, ← List.countP_eq_length_filter]
  refine ⟨fun _ hnodup => parity_compressDiff hnodup, fun _ => mem_counts_iff,
    fun sample hsample => ?_, fun hpos hrounds hrate hall => ?_, fun d hd => ?_⟩
  · obtain ⟨hsub, hlength⟩ := mem_drawSamples (actualSubsample_le fitRecords p) hsample
    exact ⟨hsub, hlength, fun _ hmask => soundMask_of_mem hmask⟩
  · refine rankedMasks_perm_full rng s (hlength ▸ hall) hrounds ?_
    rw [← List.countP_eq_length_filter]
    exact countRatio_self_pass hpos hrate
  · obtain ⟨hcounts, hcandidates, -⟩ := discoverCandidates_ok hd
    refine ⟨hcounts, fun hnan mask hmask => ?_, hcandidates, fun hall => ?_⟩
    · rw [hcandidates] at hmask
      obtain ⟨-, hpass⟩ := mem_rankedMasks.1 ((pyTake_sublist _ _).mem hmask)
      exact Double.le_of_lt_eq_false (countRatio_ne_nan _ _) hnan hpass
    · exact rankedMasks_of_ok hd (hlength ▸ hall)

end

/-- A generator that takes the first of a list. -/
def firstSampler : Sampler Unit where
  sample s l k := (l.take k, s)
  subperm _ l k _ := (List.take_sublist k l).subperm
  length_eq _ l k h := by rw [List.length_take, min_eq_left h]

/-- Conflicts on two bits, and another record that keeps them apart. -/
def threeRecords : List PairRecord := [⟨0x30, true⟩, ⟨0x30, true⟩, ⟨0x10, false⟩]

/-- Two rounds with samples of at most five conflicts. -/
def twoRounds : DiscoverParams := ⟨2, 5, .ofRat (9 / 10), 64⟩

/-- Three pairs whose conflicts agree in the parity of two bits: the one mask of these bits is
    found. -/
theorem discovered_masks_sound_two_bits :
    ∃ d, discoverCandidates firstSampler threeRecords twoRounds () = .ok d ∧
      d.candidates = [0x30] ∧
      rankedMasks threeRecords d.counts (.ofRat (9 / 10)) ~
        masksOf (activeBits threeRecords) (compressedConflicts threeRecords) := by
  have h : discoverCandidates firstSampler threeRecords twoRounds () =
      .ok ⟨[0x30], [(0x30, 2)], ⟨[4, 5], 2, 2, 2, 2, .ofRat 1, [(1, 2)], 1, 1⟩⟩ := by
    decide +kernel
  obtain ⟨-, -, -, -, hok⟩ := discovered_masks_sound firstSampler threeRecords twoRounds ()
  exact ⟨_, h, rfl, (hok _ h).2.2.2 (by decide)⟩

end CgroupResearch
