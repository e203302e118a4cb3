import CgroupResearch.Calibrate.Select
import CgroupResearch.Lib.Argmax
import Mathlib.Data.Prod.Lex

/-!
# The choice of the masks, in exact arithmetic

`select_masks_greedy` of `kk_calibrate.py` again, with rates that are exact rationals instead
of `double`s, of which those of `CgroupResearch.Calibrate.Select` are the roundings
(`evaluate_rounds`). Each turn takes the mask with the largest key among those that raise the
rank, and stops if it does not raise the F1 score by enough.

* `bestExactLoop_eq`: the inner loop finds the first of the largest keys, and so the largest F1
  score (`bestExactLoop_some`);
* `Selected`: what the outer loop has after each turn, which `Selected.turn` keeps;
* `countPredicted_append_le`: with one mask more, fewer pairs are predicted to be of one bank;
* `selection_locally_optimal`: the masks are independent, the scores of the history rise by
  enough at each step, and at an early stop none of the other candidates would do so.
-/

namespace CgroupResearch

open Gf2
open scoped List

/-! ## The program -/

/-- `Metrics`, with exact rates. -/
structure ExactMetrics where
  tp : ℕ
  tn : ℕ
  fp : ℕ
  fn : ℕ
  accuracy : ℚ
  precision : ℚ
  «recall» : ℚ
  f1 : ℚ
  deriving DecidableEq, Repr

/-- A quotient of counts, zero if there is nothing to count. -/
def exactRatio (a b : ℕ) : ℚ := if b = 0 then 0 else a / b

/-- The number of records with a prediction and a label. -/
def countPredicted (records : List PairRecord) (masks : List ℕ) (pred actual : Bool) : ℕ :=
  records.countP fun rec =>
    predictSameBank rec.diff masks = pred ∧ rec.labelConflict = actual

/-- `evaluate`, with exact rates. -/
def evaluateExact (records : List PairRecord) (masks : List ℕ) : ExactMetrics :=
  let tp := countPredicted records masks true true
  let fp := countPredicted records masks true false
  let fn := countPredicted records masks false true
  let tn := countPredicted records masks false false
  let precision := exactRatio tp (tp + fp)
  let «recall» := exactRatio tp (tp + fn)
  { tp := tp
    tn := tn
    fp := fp
    fn := fn
    accuracy := exactRatio (tp + tn) (tp + tn + fp + fn)
    precision := precision
    «recall» := «recall»
    f1 := if precision + «recall» = 0 then 0
      else 2 * precision * «recall» / (precision + «recall») }

/-- The keys of the candidates, compared as tuples are. -/
abbrev ExactKey := ℚ ×ₗ ℚ ×ₗ ℚ ×ₗ ℤ ×ₗ ℤ

/-- The key of a candidate. -/
def exactKey (candidateCounts : List (ℕ × ℤ)) (mask : ℕ) (metrics : ExactMetrics) : ExactKey :=
  toLex (metrics.f1, toLex (metrics.precision, toLex (metrics.recall,
    toLex (countOf candidateCounts mask, -(bitCount mask : ℤ)))))

/-- The best of the candidates seen so far. -/
structure ExactBest where
  mask : ℕ
  metrics : ExactMetrics
  key : ExactKey

/-- The inner loop of `select_masks_greedy`, over the masks that remain. -/
def bestExactLoop (candidateCounts : List (ℕ × ℤ)) (tuneRecords : List PairRecord)
    (selected : List ℕ) : List ℕ → Option ExactBest → Option ExactBest
  | [], best => best
  | mask :: remaining, best =>
    if gf2Rank (selected ++ [mask]) = gf2Rank selected then
      bestExactLoop candidateCounts tuneRecords selected remaining best
    else
      let metrics := evaluateExact tuneRecords (selected ++ [mask])
      let key := exactKey candidateCounts mask metrics
      if best.all fun b => b.key < key then
        bestExactLoop candidateCounts tuneRecords selected remaining (some ⟨mask, metrics, key⟩)
      else
        bestExactLoop candidateCounts tuneRecords selected remaining best

/-- An entry of the history. -/
structure ExactStep where
  mask : List Char
  weight : ℕ
  frequency : ℤ
  tuneMetrics : ExactMetrics
  deriving DecidableEq, Repr

/-- The outer loop of `select_masks_greedy`, with `n` turns left. -/
def selectExactLoop (candidateCounts : List (ℕ × ℤ)) (tuneRecords : List PairRecord)
    (minImprovement : ℚ) : (n : ℕ) → (selected remaining : List ℕ) → (current : ExactMetrics) →
    (history : List ExactStep) → List ℕ × List ExactStep
  | 0, selected, _, _, history => (selected, history)
  | n + 1, selected, remaining, current, history =>
    match bestExactLoop candidateCounts tuneRecords selected remaining none with
    | none => (selected, history)
    | some best =>
      if best.metrics.f1 < current.f1 + minImprovement then
        (selected, history)
      else
        selectExactLoop candidateCounts tuneRecords minImprovement n (selected ++ [best.mask])
          (remaining.erase best.mask) best.metrics
          (history ++ [⟨formatMask best.mask, bitCount best.mask,
            countOf candidateCounts best.mask, best.metrics⟩])

/-- `select_masks_greedy`, with exact rates. -/
def selectMasksExact (candidates : List ℕ) (candidateCounts : List (ℕ × ℤ))
    (tuneRecords : List PairRecord) (maxMasks : ℤ) (minImprovement : ℚ) :
    List ℕ × List ExactStep :=
  selectExactLoop candidateCounts tuneRecords minImprovement maxMasks.toNat [] candidates
    (evaluateExact tuneRecords []) []

/-! ## Rounding -/

theorem countRatio_eq_round (a b : ℕ) : countRatio a b = .round (exactRatio a b) := by
  rw [countRatio, exactRatio]
  split_ifs
  · rw [Double.round, abs_zero, CNumber.toDouble_eq_fin (n := 0) (by norm_num) (by norm_num),
      CNumber.roundMagnitude_zero]
    rfl
  · rfl

/-- The metrics in `double`s have the same counts, and the exact rates rounded. -/
theorem evaluate_rounds (records : List PairRecord) (masks : List ℕ) :
    (evaluate records masks).tp = (evaluateExact records masks).tp ∧
      (evaluate records masks).tn = (evaluateExact records masks).tn ∧
      (evaluate records masks).fp = (evaluateExact records masks).fp ∧
      (evaluate records masks).fn = (evaluateExact records masks).fn ∧
      (evaluate records masks).accuracy = .round (evaluateExact records masks).accuracy ∧
      (evaluate records masks).precision = .round (evaluateExact records masks).precision ∧
      (evaluate records masks).recall = .round (evaluateExact records masks).recall :=
  ⟨rfl, rfl, rfl, rfl, countRatio_eq_round _ _, countRatio_eq_round _ _, countRatio_eq_round _ _⟩

/-! ## The best candidate -/

section

variable {candidateCounts : List (ℕ × ℤ)} {tuneRecords : List PairRecord} {selected : List ℕ}

/-- A candidate with its metrics and its key. -/
def exactBest (candidateCounts : List (ℕ × ℤ)) (tuneRecords : List PairRecord)
    (selected : List ℕ) (mask : ℕ) : ExactBest where
  mask := mask
  metrics := evaluateExact tuneRecords (selected ++ [mask])
  key := exactKey candidateCounts mask (evaluateExact tuneRecords (selected ++ [mask]))

/-- The masks that raise the rank. -/
def raising (selected remaining : List ℕ) : List ℕ :=
  remaining.filter fun mask => gf2Rank (selected ++ [mask]) ≠ gf2Rank selected

/-- A mask remains that raises the rank. -/
theorem mem_raising {remaining : List ℕ} {mask : ℕ} : mask ∈ raising selected remaining ↔
    mask ∈ remaining ∧ gf2Rank (selected ++ [mask]) ≠ gf2Rank selected := by
  rw [raising, List.mem_filter, decide_eq_true_eq]

/-- The inner loop finds the first candidate with the largest key. -/
theorem bestExactLoop_eq (remaining : List ℕ) :
    bestExactLoop candidateCounts tuneRecords selected remaining none =
      ((raising selected remaining).argmax fun mask =>
        (exactBest candidateCounts tuneRecords selected mask).key).map
        (exactBest candidateCounts tuneRecords selected) := by
  refine Argmax.loop_eq (q := fun _ => True) (fun _ _ => trivial) (fun _ => rfl)
    (fun mask rest best _ hp => ?_) fun mask rest best _ hp => ?_
  · rw [bestExactLoop, if_pos (not_not.1 (of_decide_eq_false hp))]
  · rw [bestExactLoop, if_neg (of_decide_eq_true hp)]
    dsimp only
    rw [Option.all_map]
    rfl

/-- The largest key has the largest F1 score. -/
theorem bestExactLoop_some {remaining : List ℕ} {best : ExactBest}
    (h : bestExactLoop candidateCounts tuneRecords selected remaining none = some best) :
    best.mask ∈ raising selected remaining ∧
      best.metrics = evaluateExact tuneRecords (selected ++ [best.mask]) ∧
      ∀ mask ∈ raising selected remaining,
        (evaluateExact tuneRecords (selected ++ [mask])).f1 ≤ best.metrics.f1 := by
  rw [bestExactLoop_eq] at h
  obtain ⟨b, hb, rfl⟩ := Option.map_eq_some_iff.1 h
  exact ⟨List.argmax_mem hb, rfl, fun mask hmask =>
    Prod.Lex.monotone_fst _ _ (List.le_of_mem_argmax hmask hb)⟩

/-- There is no best mask only if none raises the rank. -/
theorem bestExactLoop_none {remaining : List ℕ}
    (h : bestExactLoop candidateCounts tuneRecords selected remaining none = none) :
    raising selected remaining = [] := by
  rw [bestExactLoop_eq, Option.map_eq_none_iff] at h
  exact List.argmax_eq_none.1 h

end

/-! ## The turns -/

/-- What the outer loop has after some turns: masks of full rank, taken from the candidates,
    and a history with the metrics of the first of them, the first two and so on, of which each
    has a better score than the one before. -/
structure Selected (candidates : List ℕ) (tuneRecords : List PairRecord) (minImprovement : ℚ)
    (selected remaining : List ℕ) (history : List ExactStep) : Prop where
  perm : selected ++ remaining ~ candidates
  rank : gf2Rank selected = selected.length
  length : history.length = selected.length
  metrics : ∀ i e, history[i]? = some e →
    e.tuneMetrics = evaluateExact tuneRecords (selected.take (i + 1))
  improves : ∀ i < selected.length,
    (evaluateExact tuneRecords (selected.take i)).f1 + minImprovement ≤
      (evaluateExact tuneRecords (selected.take (i + 1))).f1

section

variable {candidates : List ℕ} {candidateCounts : List (ℕ × ℤ)} {tuneRecords : List PairRecord}
  {minImprovement : ℚ} {selected remaining : List ℕ} {history : List ExactStep}

/-- Nothing is selected at first. -/
theorem selected_start (candidates : List ℕ) (tuneRecords : List PairRecord) (minImprovement : ℚ) :
    Selected candidates tuneRecords minImprovement [] candidates [] where
  perm := .refl _
  rank := rfl
  length := rfl
  metrics i e h := by cases h
  improves i h := absurd h (Nat.not_lt_zero i)

/-- A turn that takes a mask. -/
theorem Selected.turn
    (h : Selected candidates tuneRecords minImprovement selected remaining history)
    {mask : ℕ} {e : ExactStep} (hmask : mask ∈ raising selected remaining)
    (he : e.tuneMetrics = evaluateExact tuneRecords (selected ++ [mask]))
    (himproves : (evaluateExact tuneRecords selected).f1 + minImprovement ≤ e.tuneMetrics.f1) :
    Selected candidates tuneRecords minImprovement (selected ++ [mask]) (remaining.erase mask)
      (history ++ [e]) := by
  obtain ⟨hmem, hrank⟩ := mem_raising.1 hmask
  have htake : ∀ i ≤ selected.length, (selected ++ [mask]).take i = selected.take i :=
    fun i hi => List.take_append_of_le_length hi
  have hall : (selected ++ [mask]).take (selected.length + 1) = selected ++ [mask] :=
    List.take_of_length_le (by simp)
  constructor
  · rw [List.append_assoc]
    exact ((List.perm_cons_erase hmem).symm.append_left selected).trans h.perm
  · rw [(gf2Rank_append_singleton selected mask).resolve_left hrank, h.rank, List.length_append]
    rfl
  · rw [List.length_append, List.length_append, h.length]
    rfl
  · intro i e' he'
    rw [List.getElem?_append] at he'
    split_ifs at he' with hi
    · rw [htake _ (h.length ▸ hi)]
      exact h.metrics i e' he'
    · rw [List.getElem?_singleton] at he'
      split_ifs at he' with hlast
      cases he'
      have hi' : i = selected.length := by
        have := h.length
        omega
      rw [hi', hall, he]
  · intro i hi
    rw [List.length_append, List.length_singleton] at hi
    rcases Nat.lt_succ_iff_lt_or_eq.1 hi with hlt | rfl
    · rw [htake i hlt.le, htake (i + 1) hlt]
      exact h.improves i hlt
    · rw [htake _ le_rfl, List.take_length, hall, ← he]
      exact himproves

variable (candidateCounts) in
/-- The outer loop: if it stops before its last turn, no mask that raises the rank would raise
    the score by enough. -/
theorem selectExactLoop_spec (n : ℕ) {current : ExactMetrics}
    (h : Selected candidates tuneRecords minImprovement selected remaining history)
    (hcurrent : current = evaluateExact tuneRecords selected) :
    let result := selectExactLoop candidateCounts tuneRecords minImprovement n selected remaining
      current history
    ∃ remaining', Selected candidates tuneRecords minImprovement result.1 remaining' result.2 ∧
      result.1.length ≤ selected.length + n ∧
      (result.1.length < selected.length + n → ∀ mask ∈ raising result.1 remaining',
        (evaluateExact tuneRecords (result.1 ++ [mask])).f1 <
          (evaluateExact tuneRecords result.1).f1 + minImprovement) := by
  induction n generalizing selected remaining current history with
  | zero => exact ⟨remaining, h, le_rfl, fun hlt => absurd hlt (lt_irrefl _)⟩
  | succ n ih =>
    subst hcurrent
    dsimp only
    rw [selectExactLoop]
    cases hbest : bestExactLoop candidateCounts tuneRecords selected remaining none with
    | none =>
      refine ⟨remaining, h, Nat.le_add_right _ _, fun _ mask hmask => ?_⟩
      rw [bestExactLoop_none hbest] at hmask
      exact absurd hmask List.not_mem_nil
    | some best =>
      obtain ⟨hmem, hmetrics, hlargest⟩ := bestExactLoop_some hbest
      dsimp only
      split_ifs with hstop
      · exact ⟨remaining, h, Nat.le_add_right _ _, fun _ mask hmask =>
          (hlargest mask hmask).trans_lt hstop⟩
      · have hturn := h.turn (e := ⟨formatMask best.mask, bitCount best.mask,
          countOf candidateCounts best.mask, best.metrics⟩) hmem hmetrics (not_lt.1 hstop)
        have hlength : selected.length + (n + 1) = (selected ++ [best.mask]).length + n := by
          rw [List.length_append, List.length_singleton]
          omega
        rw [hlength]
        exact ih hturn hmetrics

end

/-! ## One mask more -/

section

variable {records : List PairRecord} {masks : List ℕ}

/-- With one mask more, fewer pairs are predicted to be of one bank. -/
theorem predictSameBank_of_append (hne : masks ≠ []) {diff mask : ℕ}
    (h : predictSameBank diff (masks ++ [mask]) = true) : predictSameBank diff masks = true := by
  rw [predictSameBank, Bool.and_eq_true, List.all_append, Bool.and_eq_true] at h
  rw [predictSameBank, decide_eq_true hne, Bool.true_and]
  exact h.2.1

/-- One more mask predicts no more conflicts. -/
theorem countPredicted_append_le (hne : masks ≠ []) (mask : ℕ) (actual : Bool) :
    countPredicted records (masks ++ [mask]) true actual ≤
      countPredicted records masks true actual := by
  refine List.countP_mono_left fun rec _ h => ?_
  rw [decide_eq_true_eq] at h ⊢
  exact ⟨predictSameBank_of_append hne h.1, h.2⟩

end

/-! ## Independent masks -/

/-- Masks that are independent as vectors over GF(2), of as many bits as they need. -/
def Independent (masks : List ℕ) : Prop :=
  ∀ n, (∀ m ∈ masks, m < 2 ^ n) →
    LinearIndependent (ZMod 2) fun i : Fin masks.length => vec n (masks.get i)

section

variable {masks : List ℕ}

theorem independent_iff_gf2Rank : Independent masks ↔ gf2Rank masks = masks.length := by
  constructor
  · intro h
    obtain ⟨n, hn⟩ := exists_two_pow_bound masks
    rw [gf2Rank_eq_rank hn]
    exact linearIndependent_iff_rank.1 (h n hn)
  · intro h n hn
    rw [linearIndependent_iff_rank, ← gf2Rank_eq_rank hn]
    exact h

theorem Independent.nodup (h : Independent masks) : masks.Nodup := by
  obtain ⟨n, hn⟩ := exists_two_pow_bound masks
  exact List.nodup_iff_injective_get.2 fun _ _ hij => (h n hn).injective (congrArg (vec n) hij)

/-- A candidate that is independent of the selection remains, and raises the rank. -/
theorem mem_raising_of_independent {candidates selected remaining : List ℕ} {mask : ℕ}
    (hperm : selected ++ remaining ~ candidates) (hrank : gf2Rank selected = selected.length)
    (hmask : mask ∈ candidates) (h : Independent (selected ++ [mask])) :
    mask ∈ raising selected remaining := by
  refine mem_raising.2 ⟨?_, ?_⟩
  · refine (List.mem_append.1 (hperm.mem_iff.2 hmask)).resolve_left fun hmem => ?_
    exact (List.nodup_append.1 h.nodup).2.2 mask hmem mask (List.mem_singleton_self mask) rfl
  · rw [independent_iff_gf2Rank.1 h, hrank, List.length_append, List.length_singleton]
    exact Nat.succ_ne_self _

end

/-! ## The result -/

/-- A selection with its history: independent masks of the candidates, not too many of them, and
    metrics that rise with each mask. -/
structure SoundSelection (candidates : List ℕ) (tuneRecords : List PairRecord) (maxMasks : ℤ)
    (minImprovement : ℚ) (selected : List ℕ) (history : List ExactStep) : Prop where
  subperm : selected <+~ candidates
  independent : Independent selected
  length_le : selected.length ≤ maxMasks.toNat
  length_history : history.length = selected.length
  metrics : ∀ i e, history[i]? = some e →
    e.tuneMetrics = evaluateExact tuneRecords (selected.take (i + 1))
  improves : ∀ i e, history[i]? = some e →
    (evaluateExact tuneRecords (selected.take i)).f1 + minImprovement ≤ e.tuneMetrics.f1
  predicts : ∀ i e e', history[i]? = some e → history[i + 1]? = some e' →
    e'.tuneMetrics.tp ≤ e.tuneMetrics.tp ∧ e'.tuneMetrics.fp ≤ e.tuneMetrics.fp

/-- What holds of every turn makes a sound selection. -/
theorem Selected.sound {candidates : List ℕ} {tuneRecords : List PairRecord} {maxMasks : ℤ}
    {minImprovement : ℚ} {selected remaining : List ℕ} {history : List ExactStep}
    (h : Selected candidates tuneRecords minImprovement selected remaining history)
    (hlength : selected.length ≤ maxMasks.toNat) :
    SoundSelection candidates tuneRecords maxMasks minImprovement selected history := by
  have hlt : ∀ {i e}, history[i]? = some e → i < selected.length := fun {i e} he =>
    h.length ▸ (List.getElem?_eq_some_iff.1 he).1
  constructor
  · exact (List.sublist_append_left selected remaining).subperm.trans h.perm.subperm
  · exact independent_iff_gf2Rank.2 h.rank
  · exact hlength
  · exact h.length
  · exact h.metrics
  · intro i e he
    rw [h.metrics i e he]
    exact h.improves i (hlt he)
  · intro i e e' he he'
    have hne : selected.take (i + 1) ≠ [] := by
      intro hnil
      rcases List.take_eq_nil_iff.1 hnil with hzero | rfl
      · exact Nat.succ_ne_zero i hzero
      · exact Nat.not_lt_zero i (hlt he)
    rw [h.metrics i e he, h.metrics (i + 1) e' he', List.take_add_one (i := i + 1),
      List.getElem?_eq_getElem (hlt he')]
    exact ⟨countPredicted_append_le hne _ true, countPredicted_append_le hne _ false⟩

/-- `select_masks_greedy` is sound and locally optimal: the masks are independent candidates,
    the history has their metrics, with a score that rises by enough at each step and with fewer
    conflicts predicted; and if it stops early, no candidate that is independent of the masks
    would raise the score by enough. -/
theorem selection_locally_optimal (candidates : List ℕ) (candidateCounts : List (ℕ × ℤ))
    (tuneRecords : List PairRecord) (maxMasks : ℤ) (minImprovement : ℚ) :
    let result :=
      selectMasksExact candidates candidateCounts tuneRecords maxMasks minImprovement
    SoundSelection candidates tuneRecords maxMasks minImprovement result.1 result.2 ∧
      (result.1.length < maxMasks.toNat → ∀ mask ∈ candidates, Independent (result.1 ++ [mask]) →
        (evaluateExact tuneRecords (result.1 ++ [mask])).f1 <
          (evaluateExact tuneRecords result.1).f1 + minImprovement) := by
  obtain ⟨remaining, hselected, hlength, hstop⟩ := selectExactLoop_spec
    candidateCounts maxMasks.toNat (selected_start candidates tuneRecords minImprovement) rfl
  rw [List.length_nil, zero_add] at hlength hstop
  refine ⟨hselected.sound hlength, fun hlt mask hmask hind => ?_⟩
  exact hstop hlt mask (mem_raising_of_independent hselected.perm hselected.rank hmask hind)

/-- Conflicts on two bits, and another record that keeps them apart. -/
def tuneThree : List PairRecord := [⟨0x30, true⟩, ⟨0x30, true⟩, ⟨0x10, false⟩]

/-- The first mask predicts all conflicts, and a second one would not improve on it. -/
theorem selection_locally_optimal_two :
    let result := selectMasksExact [0x10, 0x30] [(0x30, 2)] tuneThree 4 (1 / 1000)
    result.1 = [0x30] ∧
      SoundSelection [0x10, 0x30] tuneThree 4 (1 / 1000) result.1 result.2 ∧
      (evaluateExact tuneThree (result.1 ++ [0x10])).f1 <
        (evaluateExact tuneThree result.1).f1 + 1 / 1000 := by
  have hresult : (selectMasksExact [0x10, 0x30] [(0x30, 2)] tuneThree 4 (1 / 1000)).1 = [0x30] := by
    decide +kernel
  have h := selection_locally_optimal [0x10, 0x30] [(0x30, 2)] tuneThree 4 (1 / 1000)
  refine ⟨hresult, h.1, h.2 ?_ 0x10 (by decide) ?_⟩
  · rw [hresult]
    decide
  · rw [hresult, independent_iff_gf2Rank]
    decide +kernel

end CgroupResearch
