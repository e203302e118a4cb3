import CgroupResearch.Lib.Argmax
import CgroupResearch.Lib.Double
import Mathlib.Data.List.GetD
import Mathlib.Data.List.Sort

/-!
# The threshold of the latencies

The calibration times pairs of addresses, each several times. Two addresses in different rows
of one bank take longer, so that the medians of the pairs fall into two clusters.
`bootstrap_threshold` of `kk_calibrate.py` looks for the largest gap between medians next to
each other, and puts the threshold in the middle of it; `consistency_filter` then labels each
pair by the threshold, and drops a pair whose latencies are on both sides.

The arithmetic is exact here. A median of integers is a multiple of a half and the threshold
is rounded down to an integer; a gap of one cycle is enough for the threshold to lie in the
gap (`threshold_in_gap`), so that it separates the clusters (`SeparatesClusters`). A pair whose
latencies are on one side of the threshold has its median there too, so that the filter labels
by the median (`consistencyFilter_eq`). `threshold_separates` is both together.
-/

namespace CgroupResearch

/-! ## The program -/

/-- The timed pairs of addresses with their latencies, as `load_pair_latencies` collects
    them: a dictionary, with at least one latency for each pair. -/
structure PairLatencies where
  items : List ((ℕ × ℕ) × List ℤ)
  keys_nodup : (items.map Prod.fst).Nodup
  values_ne_nil : ∀ item ∈ items, item.2 ≠ []

/-- `ThresholdInfo`, in exact arithmetic. -/
structure ExactThreshold where
  thresholdCycles : ℤ
  lowEdgeCycles : ℚ
  highEdgeCycles : ℚ
  gapCycles : ℚ
  totalPairs : ℕ
  lowPairs : ℕ
  highPairs : ℕ
  deriving DecidableEq, Repr

/-- What `bootstrap_threshold` raises: an `IndexError`, or a `CalibrationError` with its
    text. -/
inductive BootstrapError
  | indexError
  | calibrationError (text : String)
  deriving DecidableEq, Repr

/-- `PairRecord`, with all its fields. -/
structure LabelledPair where
  runId : ℕ
  a1 : ℕ
  a2 : ℕ
  diff : ℕ
  medianCycles : ℚ
  labelConflict : Bool
  repeats : ℕ
  deriving DecidableEq, Repr

/-- `statistics.median`, of at least one number. -/
def median (data : List ℤ) : ℚ :=
  let data := data.insertionSort (· ≤ ·)
  let n := data.length
  if n % 2 = 1 then
    data.getD (n / 2) 0
  else
    ((data.getD (n / 2 - 1) 0 + data.getD (n / 2) 0 : ℤ) : ℚ) / 2

/-- What the format `.1f` writes. -/
def formatFixed1 (q : ℚ) : String :=
  let n := (Double.roundHalfEven (|q| * 10)).toNat
  (if q < 0 then "-" else "") ++ toString (n / 10) ++ "." ++ toString (n % 10)

/-- The tuple `best` of `bootstrap_threshold`. -/
structure GapCandidate where
  gap : ℚ
  i : ℕ
  lo : ℚ
  hi : ℚ
  deriving DecidableEq, Repr

/-- The loop of `bootstrap_threshold` over the indices that are left. -/
def gapLoop (medians : List ℚ) :
    List ℕ → Option GapCandidate → Except BootstrapError (Option GapCandidate)
  | [], best => .ok best
  | i :: rest, best =>
    match medians[i]?, medians[i + 1]? with
    | some lo, some hi =>
      let gap := hi - lo
      if gap ≤ 0 then
        gapLoop medians rest best
      else if best.all fun b => b.gap < gap then
        gapLoop medians rest (some ⟨gap, i, lo, hi⟩)
      else
        gapLoop medians rest best
    | _, _ => .error .indexError

/-- `required_high`. -/
def requiredHigh (n minHighPairs : ℕ) (minHighFraction : ℚ) : ℕ :=
  max minHighPairs ⌈n * minHighFraction⌉.toNat

/-- `required_low`. -/
def requiredLow (n : ℕ) (minLowFraction : ℚ) : ℕ := max 1 ⌈n * minLowFraction⌉.toNat

/-- The positions at which `bootstrap_threshold` may split the medians: the last of the low
    ones. -/
def splitPositions (n requiredLow requiredHigh : ℕ) : List ℕ :=
  List.range' (requiredLow - 1) (n - requiredHigh - (requiredLow - 1))

/-- The medians of the pairs, sorted. -/
def sortedMedians (pairs : PairLatencies) : List ℚ :=
  (pairs.items.map fun item => median item.2).insertionSort (· ≤ ·)

/-- `bootstrap_threshold`. -/
def bootstrapThreshold (pairs : PairLatencies) (minHighPairs : ℕ)
    (minHighFraction minLowFraction minGapCycles : ℚ) : Except BootstrapError ExactThreshold :=
  let medians := sortedMedians pairs
  let n := medians.length
  let requiredHigh := requiredHigh n minHighPairs minHighFraction
  let requiredLow := requiredLow n minLowFraction
  if n < requiredLow + requiredHigh then
    .error (.calibrationError ("threshold bootstrap constraints impossible: n=" ++ toString n ++
      ", required_low=" ++ toString requiredLow ++ ", required_high=" ++ toString requiredHigh))
  else
    match gapLoop medians (splitPositions n requiredLow requiredHigh) none with
    | .error e => .error e
    | .ok none => .error (.calibrationError "no threshold gap candidate found")
    | .ok (some best) =>
      if best.gap < minGapCycles then
        .error (.calibrationError ("largest admissible median gap too small: " ++
          formatFixed1 best.gap ++ " cycles (minimum " ++ formatFixed1 minGapCycles ++ ")"))
      else
        .ok { thresholdCycles := ⌊(best.lo + best.hi) / 2⌋
              lowEdgeCycles := best.lo
              highEdgeCycles := best.hi
              gapCycles := best.gap
              totalPairs := n
              lowPairs := best.i + 1
              highPairs := n - best.i - 1 }

/-- The loop of `consistency_filter`; `none` is the `IndexError` of a pair without latencies. -/
def consistencyLoop (runId : ℕ) (threshold : ℤ) :
    List ((ℕ × ℕ) × List ℤ) → (kept : List LabelledPair) → (dropped : ℕ) →
      Option (List LabelledPair × ℕ)
  | [], kept, dropped => some (kept, dropped)
  | ((a1, a2), values) :: rest, kept, dropped =>
    match values.map fun x => decide (threshold < x) with
    | [] => none
    | first :: labels =>
      if labels.any fun x => x ≠ first then
        consistencyLoop runId threshold rest kept (dropped + 1)
      else
        consistencyLoop runId threshold rest
          (kept ++ [⟨runId, a1, a2, a1 ^^^ a2, median values, first, values.length⟩]) dropped

/-- `consistency_filter`. -/
def consistencyFilter (runId : ℕ) (pairs : PairLatencies) (threshold : ℤ) :
    Option (List LabelledPair × ℕ) :=
  consistencyLoop runId threshold pairs.items [] 0

/-! ## Medians -/

section

variable {data : List ℤ} {t : ℤ}

/-- A median is the mean of two of the numbers, or one of them. -/
theorem exists_median_eq (hne : data ≠ []) :
    ∃ a ∈ data, ∃ b ∈ data, median data = ((a + b : ℤ) : ℚ) / 2 := by
  have hpos : 0 < (data.insertionSort (· ≤ ·)).length := by
    rw [List.length_insertionSort]
    exact List.length_pos_iff.2 hne
  have hmem : ∀ i < (data.insertionSort (· ≤ ·)).length,
      (data.insertionSort (· ≤ ·)).getD i 0 ∈ data := by
    intro i hi
    rw [List.getD_eq_getElem _ _ hi]
    exact (List.perm_insertionSort _ _).mem_iff.1 (List.getElem_mem hi)
  rw [median]
  split_ifs
  · refine ⟨_, hmem _ (Nat.div_lt_self hpos one_lt_two), _,
      hmem _ (Nat.div_lt_self hpos one_lt_two), ?_⟩
    push_cast
    ring
  · exact ⟨_, hmem _ (by omega), _, hmem _ (by omega), rfl⟩

/-- A median is above what all the latencies are above. -/
theorem lt_median (hne : data ≠ []) (h : ∀ x ∈ data, t < x) : (t : ℚ) < median data := by
  obtain ⟨a, ha, b, hb, hm⟩ := exists_median_eq hne
  have hlt : 2 * t < a + b := by
    have := h a ha
    have := h b hb
    omega
  rw [hm, lt_div_iff₀ two_pos, mul_comm]
  exact_mod_cast hlt

theorem median_le (hne : data ≠ []) (h : ∀ x ∈ data, x ≤ t) : median data ≤ t := by
  obtain ⟨a, ha, b, hb, hm⟩ := exists_median_eq hne
  have hle : a + b ≤ 2 * t := by
    have := h a ha
    have := h b hb
    omega
  rw [hm, div_le_iff₀ two_pos, mul_comm]
  exact_mod_cast hle

/-- Between two multiples of a half that are one or more apart, the middle rounded down is not
    below the lower one. -/
theorem threshold_in_gap {a b : ℤ} (h : 1 ≤ (b : ℚ) / 2 - a / 2) :
    (a : ℚ) / 2 ≤ ⌊((a : ℚ) / 2 + b / 2) / 2⌋ ∧ (⌊((a : ℚ) / 2 + b / 2) / 2⌋ : ℚ) < b / 2 := by
  have hle := Int.floor_le (((a : ℚ) / 2 + b / 2) / 2)
  have hlt := Int.lt_floor_add_one (((a : ℚ) / 2 + b / 2) / 2)
  generalize ⌊((a : ℚ) / 2 + b / 2) / 2⌋ = k at hle hlt
  have hgap : a + 2 ≤ b := by
    have : (a : ℚ) + 2 ≤ b := by linarith
    exact_mod_cast this
  have hfour : 4 * k ≤ a + b := by
    have : (4 : ℚ) * k ≤ a + b := by linarith
    exact_mod_cast this
  have hfour' : a + b < 4 * k + 4 := by
    have : (a : ℚ) + b < 4 * k + 4 := by linarith
    exact_mod_cast this
  constructor
  · rw [div_le_iff₀ two_pos]
    exact_mod_cast (by omega : a ≤ k * 2)
  · rw [lt_div_iff₀ two_pos]
    exact_mod_cast (by omega : k * 2 < b)

end

/-! ## The largest gap -/

/-- The gap after the `i`-th of the sorted medians. -/
def gapAt (medians : List ℚ) (i : ℕ) : ℚ := medians.getD (i + 1) 0 - medians.getD i 0

/-- The tuple of a position. -/
def gapCandidate (medians : List ℚ) (i : ℕ) : GapCandidate :=
  ⟨gapAt medians i, i, medians.getD i 0, medians.getD (i + 1) 0⟩

section

variable {medians : List ℚ} {positions : List ℕ}

/-- The loop raises an error at a position without a next median. -/
theorem lt_length_of_gapLoop {best result : Option GapCandidate}
    (h : gapLoop medians positions best = .ok result) :
    ∀ i ∈ positions, i + 1 < medians.length := by
  induction positions generalizing best with
  | nil => exact List.forall_mem_nil _
  | cons i positions ih =>
    rw [gapLoop] at h
    split at h
    case h_2 => cases h
    case h_1 lo hi hlo hhi =>
      refine List.forall_mem_cons.2 ⟨(List.getElem?_eq_some_iff.1 hhi).1, ?_⟩
      dsimp only at h
      split_ifs at h
      · exact ih h
      · exact ih h
      · exact ih h

/-- One turn of the loop: a larger gap is kept. -/
theorem gapLoop_cons {i : ℕ} (hi : i + 1 < medians.length) (rest : List ℕ)
    (best : Option GapCandidate) :
    gapLoop medians (i :: rest) best =
      if gapAt medians i ≤ 0 then gapLoop medians rest best
      else if best.all fun b => b.gap < gapAt medians i then
        gapLoop medians rest (some (gapCandidate medians i))
      else gapLoop medians rest best := by
  have hget : ∀ j < medians.length, medians[j]? = some (medians.getD j 0) := by
    intro j hj
    rw [List.getD_eq_getElem _ _ hj, List.getElem?_eq_getElem hj]
  rw [gapLoop, hget (i + 1) hi, hget i (Nat.lt_of_succ_lt hi)]
  rfl

/-- The loop finds the first of the largest gaps. -/
theorem gapLoop_eq (hlt : ∀ i ∈ positions, i + 1 < medians.length) :
    gapLoop medians positions none =
      .ok (((positions.filter fun i => 0 < gapAt medians i).argmax (gapAt medians)).map
        (gapCandidate medians)) := by
  refine Argmax.loop_eq hlt (fun _ => rfl) (fun i rest best hi hp => ?_)
    fun i rest best hi hp => ?_
  · rw [gapLoop_cons hi, if_pos (not_lt.1 (of_decide_eq_false hp))]
  · rw [gapLoop_cons hi, if_neg (not_le.2 (of_decide_eq_true hp)), Option.all_map]
    rfl

/-- The loop finds the first of the largest gaps. -/
theorem gapLoop_some {best : GapCandidate} (h : gapLoop medians positions none = .ok (some best)) :
    ∃ i ∈ positions, best = gapCandidate medians i ∧ i + 1 < medians.length ∧
      ∀ j ∈ positions, 0 < gapAt medians j → gapAt medians j ≤ gapAt medians i := by
  have hlt := lt_length_of_gapLoop h
  have heq := gapLoop_eq hlt
  rw [h] at heq
  obtain ⟨i, hi, rfl⟩ := Option.map_eq_some_iff.1 (Except.ok.inj heq).symm
  obtain ⟨hmem, -, hlargest⟩ := Argmax.spec_of_mem hi
  exact ⟨i, hmem, rfl, hlt i hmem, fun j hj hpos => hlargest j hj (decide_eq_true hpos)⟩

/-- A threshold in a gap of a sorted list separates what is before the gap from what is after
    it. -/
theorem countP_of_gap (hsorted : medians.Pairwise (· ≤ ·)) {i : ℕ} {t : ℚ}
    (hi : i + 1 < medians.length) (hle : medians.getD i 0 ≤ t) (hlt : t < medians.getD (i + 1) 0) :
    medians.countP (· ≤ t) = i + 1 ∧ medians.countP (t < ·) = medians.length - i - 1 := by
  rw [List.getD_eq_getElem _ _ (Nat.lt_of_succ_lt hi)] at hle
  rw [List.getD_eq_getElem _ _ hi] at hlt
  have hbefore : ∀ x ∈ medians.take (i + 1), x ≤ t := by
    intro x hx
    obtain ⟨j, hj, rfl⟩ := List.mem_take_iff_getElem.1 hx
    exact le_trans (hsorted.rel_get_of_le (a := ⟨j, by omega⟩) (b := ⟨i, by omega⟩)
      (Fin.mk_le_mk.2 (by omega))) hle
  have hafter : ∀ x ∈ medians.drop (i + 1), t < x := by
    intro x hx
    obtain ⟨j, hj, rfl⟩ := List.mem_drop_iff_getElem.1 hx
    exact hlt.trans_le (hsorted.rel_get_of_le (a := ⟨i + 1, hi⟩) (b := ⟨i + 1 + j, by omega⟩)
      (Fin.mk_le_mk.2 (by omega)))
  have hlength : (medians.take (i + 1)).length = i + 1 := by
    rw [List.length_take, min_eq_left hi.le]
  constructor
  · rw [← List.take_append_drop (i + 1) medians, List.countP_append,
      List.countP_eq_length.2 fun x hx => decide_eq_true (hbefore x hx),
      List.countP_eq_zero.2 fun x hx => by simpa using hafter x hx, hlength, add_zero]
  · rw [← List.take_append_drop (i + 1) medians, List.countP_append,
      List.countP_eq_zero.2 fun x hx => by simpa using hbefore x hx,
      List.countP_eq_length.2 fun x hx => decide_eq_true (hafter x hx), List.length_append,
      hlength, List.length_drop, zero_add]
    omega

end

section

variable {pairs : PairLatencies} {info : ExactThreshold}
  {minHighPairs : ℕ} {minHighFraction minLowFraction minGapCycles : ℚ}

theorem length_sortedMedians (pairs : PairLatencies) :
    (sortedMedians pairs).length = pairs.items.length := by
  rw [sortedMedians, List.length_insertionSort, List.length_map]

/-- A sorted median is a multiple of a half. -/
theorem exists_half_of_mem {x : ℚ} (hx : x ∈ sortedMedians pairs) : ∃ a : ℤ, x = a / 2 := by
  rw [sortedMedians, (List.perm_insertionSort _ _).mem_iff] at hx
  obtain ⟨item, hitem, rfl⟩ := List.mem_map.1 hx
  obtain ⟨a, -, b, -, hm⟩ := exists_median_eq (pairs.values_ne_nil item hitem)
  exact ⟨a + b, hm⟩

/-- A position leaves the required numbers of pairs on both sides. -/
theorem mem_splitPositions {n low high i : ℕ} :
    i ∈ splitPositions n low high ↔ low ≤ i + 1 ∧ i + high < n := by
  rw [splitPositions, List.mem_range'_1]
  omega

/-- What `bootstrap_threshold` returns is read off the gap it has found. -/
theorem exists_gap_of_bootstrapThreshold
    (h : bootstrapThreshold pairs minHighPairs minHighFraction minLowFraction minGapCycles =
      .ok info) :
    ∃ best : GapCandidate,
      gapLoop (sortedMedians pairs) (splitPositions pairs.items.length
        (requiredLow pairs.items.length minLowFraction)
        (requiredHigh pairs.items.length minHighPairs minHighFraction)) none = .ok (some best) ∧
      minGapCycles ≤ best.gap ∧
      info = ⟨⌊(best.lo + best.hi) / 2⌋, best.lo, best.hi, best.gap, pairs.items.length,
        best.i + 1, pairs.items.length - best.i - 1⟩ := by
  rw [bootstrapThreshold, length_sortedMedians] at h
  split_ifs at h
  split at h
  case h_3 best hbest =>
    split_ifs at h with hgap
    exact ⟨best, hbest, not_lt.1 hgap, (Except.ok.inj h).symm⟩
  all_goals cases h

end

/-! ## The filter -/

/-- The latencies of a pair are on one side of the threshold. -/
def OneSided (threshold : ℤ) (item : (ℕ × ℕ) × List ℤ) : Prop :=
  (∀ x ∈ item.2, threshold < x) ∨ ∀ x ∈ item.2, x ≤ threshold

instance (threshold : ℤ) (item : (ℕ × ℕ) × List ℤ) : Decidable (OneSided threshold item) :=
  inferInstanceAs (Decidable (_ ∨ _))

/-- The record of a pair, labelled by its median. -/
def labelled (runId : ℕ) (threshold : ℤ) (item : (ℕ × ℕ) × List ℤ) : LabelledPair where
  runId := runId
  a1 := item.1.1
  a2 := item.1.2
  diff := item.1.1 ^^^ item.1.2
  medianCycles := median item.2
  labelConflict := (threshold : ℚ) < median item.2
  repeats := item.2.length

section

variable {runId : ℕ} {threshold : ℤ}

/-- A latency with another label is one on the other side of the threshold. -/
theorem any_label_ne_iff {pair : ℕ × ℕ} {v : ℤ} {values : List ℤ} :
    ((values.map fun x => decide (threshold < x)).any fun x => x ≠ decide (threshold < v)) = true ↔
      ¬ OneSided threshold (pair, v :: values) := by
  by_cases hv : threshold < v
  · simp [OneSided, hv]
  · simp [OneSided, hv, not_lt.1 hv]

/-- The label of the first latency is the label of the median. -/
theorem first_label_eq {pair : ℕ × ℕ} {v : ℤ} {values : List ℤ}
    (h : OneSided threshold (pair, v :: values)) :
    decide (threshold < v) = decide ((threshold : ℚ) < median (v :: values)) := by
  rcases h with habove | hbelow
  · have hv := habove v List.mem_cons_self
    have hmedian := lt_median (List.cons_ne_nil v values) habove
    rw [decide_eq_true hv, decide_eq_true hmedian]
  · have hv := hbelow v List.mem_cons_self
    have hmedian := median_le (List.cons_ne_nil v values) hbelow
    rw [decide_eq_false (not_lt.2 hv), decide_eq_false (not_lt.2 hmedian)]

/-- The loop keeps the pairs on one side of the threshold, labelled by their medians. -/
theorem consistencyLoop_eq {items : List ((ℕ × ℕ) × List ℤ)} (hne : ∀ item ∈ items, item.2 ≠ [])
    (kept : List LabelledPair) (dropped : ℕ) :
    consistencyLoop runId threshold items kept dropped =
      some (kept ++ (items.filter (OneSided threshold ·)).map (labelled runId threshold),
        dropped + items.countP (¬ OneSided threshold ·)) := by
  induction items generalizing kept dropped with
  | nil => simp [consistencyLoop]
  | cons item rest ih =>
    obtain ⟨⟨a1, a2⟩, values⟩ := item
    have hrest := fun i hi => hne i (List.mem_cons_of_mem _ hi)
    obtain ⟨v, values, rfl⟩ := List.exists_cons_of_ne_nil (hne _ List.mem_cons_self)
    rw [consistencyLoop, List.map_cons]
    dsimp only
    by_cases hone : OneSided threshold ((a1, a2), v :: values)
    · rw [if_neg (not_not.2 hone ∘ any_label_ne_iff.1), ih hrest, first_label_eq hone,
        List.filter_cons_of_pos (by simpa using hone),
        List.countP_cons_of_neg (by simpa using hone), List.map_cons, List.append_assoc]
      rfl
    · rw [if_pos (any_label_ne_iff.2 hone), ih hrest,
        List.filter_cons_of_neg (by simpa using hone),
        List.countP_cons_of_pos (by simpa using hone), add_right_comm, add_assoc]

/-- The filter keeps the pairs whose latencies are all on one side. -/
theorem consistencyFilter_eq (runId : ℕ) (pairs : PairLatencies) (threshold : ℤ) :
    consistencyFilter runId pairs threshold =
      some ((pairs.items.filter (OneSided threshold ·)).map (labelled runId threshold),
        pairs.items.countP (¬ OneSided threshold ·)) := by
  rw [consistencyFilter, consistencyLoop_eq pairs.values_ne_nil, List.nil_append, zero_add]

end

/-! ## The clusters -/

/-- The threshold separates the medians of the pairs into two clusters, at the largest of the
    gaps that leave enough pairs on both sides. -/
structure SeparatesClusters (pairs : PairLatencies) (minHighPairs : ℕ)
    (minHighFraction minLowFraction : ℚ) (info : ExactThreshold) : Prop where
  low : (pairs.items.map fun item => median item.2).countP (· ≤ (info.thresholdCycles : ℚ)) =
    info.lowPairs
  high : (pairs.items.map fun item => median item.2).countP ((info.thresholdCycles : ℚ) < ·) =
    info.highPairs
  requiredLow_le : requiredLow pairs.items.length minLowFraction ≤ info.lowPairs
  requiredHigh_le : requiredHigh pairs.items.length minHighPairs minHighFraction ≤ info.highPairs
  total : info.lowPairs + info.highPairs = pairs.items.length
  gap : gapAt (sortedMedians pairs) (info.lowPairs - 1) = info.gapCycles
  largest : ∀ i, requiredLow pairs.items.length minLowFraction ≤ i + 1 →
    i + requiredHigh pairs.items.length minHighPairs minHighFraction < pairs.items.length →
    gapAt (sortedMedians pairs) i ≤ info.gapCycles

/-- The filter decides on each pair once, and labels what it keeps by the threshold. -/
structure LabelsByThreshold (pairs : PairLatencies) (info : ExactThreshold)
    (kept : List LabelledPair) (dropped : ℕ) : Prop where
  keys : (kept.map fun r => (r.a1, r.a2)).Sublist (pairs.items.map Prod.fst)
  keys_nodup : (kept.map fun r => (r.a1, r.a2)).Nodup
  total : kept.length + dropped = pairs.items.length
  label : ∀ r ∈ kept, r.labelConflict = decide ((info.thresholdCycles : ℚ) < r.medianCycles)
  median : ∀ r ∈ kept, ∃ values, ((r.a1, r.a2), values) ∈ pairs.items ∧
    r.medianCycles = median values
  conflicts : kept.countP (·.labelConflict) ≤ info.highPairs
  nonConflicts : kept.countP (!·.labelConflict) ≤ info.lowPairs

section

variable {pairs : PairLatencies} {info : ExactThreshold}
  {minHighPairs : ℕ} {minHighFraction minLowFraction minGapCycles : ℚ}

/-- A threshold that is found separates the clusters. -/
theorem separatesClusters_of_ok (hgap : 1 ≤ minGapCycles)
    (h : bootstrapThreshold pairs minHighPairs minHighFraction minLowFraction minGapCycles =
      .ok info) :
    SeparatesClusters pairs minHighPairs minHighFraction minLowFraction info := by
  obtain ⟨best, hloop, hmin, rfl⟩ := exists_gap_of_bootstrapThreshold h
  obtain ⟨i, hmem, rfl, hi, hlargest⟩ := gapLoop_some hloop
  obtain ⟨hlow, hhigh⟩ := mem_splitPositions.1 hmem
  -- the edges are multiples of a half, and one or more apart
  have hhalf : ∀ j < (sortedMedians pairs).length,
      ∃ a : ℤ, (sortedMedians pairs).getD j 0 = a / 2 := by
    intro j hj
    rw [List.getD_eq_getElem _ _ hj]
    exact exists_half_of_mem (List.getElem_mem hj)
  obtain ⟨a, ha⟩ := hhalf i (Nat.lt_of_succ_lt hi)
  obtain ⟨b, hb⟩ := hhalf (i + 1) hi
  have hone : 1 ≤ (b : ℚ) / 2 - a / 2 := by
    rw [← ha, ← hb, ← gapAt]
    exact hgap.trans hmin
  have hedges := threshold_in_gap hone
  rw [← ha, ← hb] at hedges
  have hsorted : (sortedMedians pairs).Pairwise (· ≤ ·) := List.pairwise_insertionSort _ _
  have hcount := countP_of_gap hsorted hi hedges.1 hedges.2
  rw [length_sortedMedians] at hi hcount
  rw [sortedMedians, (List.perm_insertionSort _ _).countP_eq,
    (List.perm_insertionSort _ _).countP_eq] at hcount
  refine ⟨hcount.1, hcount.2, hlow, ?_, ?_, rfl, fun j hlow hhigh => ?_⟩
  · dsimp only [gapCandidate]
    omega
  · dsimp only [gapCandidate]
    omega
  · rcases le_or_gt (gapAt (sortedMedians pairs) j) 0 with hneg | hpos
    · exact hneg.trans (zero_le_one.trans (hgap.trans hmin))
    · exact hlargest j (mem_splitPositions.2 ⟨hlow, hhigh⟩) hpos

/-- A kept pair has its median where its label says, and each pair has one median. -/
theorem labelsByThreshold_of_separates (runId : ℕ)
    (h : SeparatesClusters pairs minHighPairs minHighFraction minLowFraction info) :
    LabelsByThreshold pairs info
      ((pairs.items.filter (OneSided info.thresholdCycles ·)).map
        (labelled runId info.thresholdCycles))
      (pairs.items.countP (¬ OneSided info.thresholdCycles ·)) := by
  have hkept := List.filter_sublist (p := (OneSided info.thresholdCycles ·)) (l := pairs.items)
  have hkeys : (((pairs.items.filter (OneSided info.thresholdCycles ·)).map
      (labelled runId info.thresholdCycles)).map fun r => (r.a1, r.a2)).Sublist
      (pairs.items.map Prod.fst) := by
    rw [List.map_map]
    exact hkept.map Prod.fst
  constructor
  · exact hkeys
  · exact pairs.keys_nodup.sublist hkeys
  · rw [List.length_map, ← List.countP_eq_length_filter,
      List.length_eq_countP_add_countP (OneSided info.thresholdCycles ·)]
    simp only [decide_eq_true_eq]
  · intro r hr
    obtain ⟨item, -, rfl⟩ := List.mem_map.1 hr
    rfl
  · intro r hr
    obtain ⟨item, hitem, rfl⟩ := List.mem_map.1 hr
    exact ⟨item.2, hkept.mem hitem, rfl⟩
  · rw [← h.high, List.countP_map, List.countP_map]
    exact hkept.countP_le
  · rw [← h.low, List.countP_map, List.countP_map]
    refine le_trans (le_of_eq (List.countP_congr fun item _ => ?_)) hkept.countP_le
    simp [labelled]

/-- The threshold that `bootstrap_threshold` returns separates the medians of the pairs, with
    enough pairs on both sides and at the largest gap that leaves them; and
    `consistency_filter` keeps or drops each pair once, labels what it keeps by the threshold,
    and keeps no more pairs of a label than there are in its cluster. -/
theorem threshold_separates (runId : ℕ) (hgap : 1 ≤ minGapCycles)
    (h : bootstrapThreshold pairs minHighPairs minHighFraction minLowFraction minGapCycles =
      .ok info) :
    SeparatesClusters pairs minHighPairs minHighFraction minLowFraction info ∧
      ∃ kept dropped, consistencyFilter runId pairs info.thresholdCycles = some (kept, dropped) ∧
        LabelsByThreshold pairs info kept dropped := by
  have hsep := separatesClusters_of_ok hgap h
  exact ⟨hsep, _, _, consistencyFilter_eq runId pairs info.thresholdCycles,
    labelsByThreshold_of_separates runId hsep⟩

/-- Three pairs, of which one has an outlier and is dropped. -/
def threePairs : PairLatencies where
  items := [((0, 8), [10, 11]), ((0, 16), [30]), ((8, 24), [12, 13, 40])]
  keys_nodup := by decide
  values_ne_nil := by decide

/-- Three pairs: the threshold is in the middle of the larger gap. -/
theorem threshold_separates_three :
    bootstrapThreshold threePairs 1 (1 / 20) (1 / 20) 8 = .ok ⟨21, 13, 30, 17, 3, 2, 1⟩ ∧
      SeparatesClusters threePairs 1 (1 / 20) (1 / 20) ⟨21, 13, 30, 17, 3, 2, 1⟩ ∧
      ∃ kept dropped, consistencyFilter 0 threePairs 21 = some (kept, dropped) ∧
        LabelsByThreshold threePairs ⟨21, 13, 30, 17, 3, 2, 1⟩ kept dropped := by
  have h : bootstrapThreshold threePairs 1 (1 / 20) (1 / 20) 8 =
      .ok ⟨21, 13, 30, 17, 3, 2, 1⟩ := by
    decide +kernel
  exact ⟨h, threshold_separates 0 (by norm_num) h⟩

end

end CgroupResearch
