import CgroupResearch.Calibrate.Split
import CgroupResearch.Lib.DoubleExact

/-!
# The threshold in floating point

`bootstrap_threshold` as the calibration worker runs it: the medians, the gaps and the middle of
the largest gap are `double`s, and so are the products of which it takes the required numbers of
pairs. The medians of latencies below `2 ^ 50` are multiples of a half with few digits, on which
this arithmetic rounds nothing: the worker does what exact arithmetic does with the same required
numbers, to the texts of its errors (`float_threshold_exact`), and its threshold separates the
clusters. The required numbers themselves may differ from the exact ones, as a fraction such as
`0.001` is no `double`.
-/

namespace CgroupResearch

open CNumber Double

/-! ## The program -/

/-- `ThresholdInfo`, as the worker has it. -/
structure FloatThreshold where
  thresholdCycles : ℤ
  lowEdgeCycles : Double
  highEdgeCycles : Double
  gapCycles : Double
  totalPairs : ℕ
  lowPairs : ℕ
  highPairs : ℕ
  deriving DecidableEq, Repr

/-- What ends an analysis: a `CalibrationError` with its text, or an exception that `main` does
    not catch. -/
inductive WorkerError
  | calibrationError (text : String)
  | uncaught
  deriving DecidableEq, Repr

/-- `float(statistics.median(data))`. The mean of two integers is rounded once, as their
    quotient. -/
def floatMedian (data : List ℤ) : Double := .round (median data)

/-- The list `medians`. -/
def floatMedians (pairs : PairLatencies) : List Double :=
  (pairs.items.map fun item => floatMedian item.2).insertionSort fun x y => x.le y = true

/-- `math.ceil(n * fraction)`; `none` where it raises. -/
def ceilShare (n : ℕ) (fraction : Double) : Option ℤ :=
  match Double.mul (Double.round n) fraction with
  | .fin neg mag => some ⌈Double.value neg mag⌉
  | _ => none

/-- `required_high`; `none` where its computation raises. -/
def requiredHighFloat (n : ℕ) (minHighPairs : ℤ) (minHighFraction : Double) : Option ℤ :=
  (ceilShare n minHighFraction).map (max minHighPairs)

/-- `required_low`; `none` where its computation raises. -/
def requiredLowFloat (n : ℕ) (minLowFraction : Double) : Option ℤ :=
  (ceilShare n minLowFraction).map (max 1)

/-- `math.floor(x)`; `none` where it raises. -/
def floorDouble : Double → Option ℤ
  | .fin neg mag => some ⌊Double.value neg mag⌋
  | _ => none

/-- What the format `.1f` writes. -/
def formatFloat1 : Double → String
  | .nan => "nan"
  | .inf neg => if neg then "-inf" else "inf"
  | .fin neg mag =>
    let n := (roundHalfEven (|mag| * 10)).toNat
    (if xor neg (decide (mag < 0)) then "-" else "") ++ toString (n / 10) ++ "." ++
      toString (n % 10)

/-- The tuple `best`. -/
structure FloatGap where
  gap : Double
  i : ℕ
  lo : Double
  hi : Double
  deriving DecidableEq, Repr

/-- The loop of `bootstrap_threshold` over the indices that are left; `none` is an
    `IndexError`. -/
def floatGapLoop (medians : List Double) :
    List ℕ → Option FloatGap → Option (Option FloatGap)
  | [], best => some best
  | i :: rest, best =>
    match medians[i]?, medians[i + 1]? with
    | some lo, some hi =>
      let gap := hi.sub lo
      if gap.le (.ofRat 0) then
        floatGapLoop medians rest best
      else if best.all fun b => b.gap.lt gap then
        floatGapLoop medians rest (some ⟨gap, i, lo, hi⟩)
      else
        floatGapLoop medians rest best
    | _, _ => none

/-- `range(required_low - 1, n - required_high)`. -/
def floatPositions (n : ℕ) (requiredLow requiredHigh : ℤ) : List ℕ :=
  List.range' (requiredLow - 1).toNat (n - requiredHigh - (requiredLow - 1)).toNat

/-- `bootstrap_threshold`. -/
def bootstrapThresholdFloat (pairs : PairLatencies) (minHighPairs : ℤ)
    (minHighFraction minLowFraction minGapCycles : Double) : Except WorkerError FloatThreshold :=
  let medians := floatMedians pairs
  let n := medians.length
  match requiredHighFloat n minHighPairs minHighFraction, requiredLowFloat n minLowFraction with
  | some requiredHigh, some requiredLow =>
    if n < requiredLow + requiredHigh then
      .error (.calibrationError ("threshold bootstrap constraints impossible: n=" ++ toString n ++
        ", required_low=" ++ toString requiredLow ++ ", required_high=" ++ toString requiredHigh))
    else
      match floatGapLoop medians (floatPositions n requiredLow requiredHigh) none with
      | none => .error .uncaught
      | some none => .error (.calibrationError "no threshold gap candidate found")
      | some (some best) =>
        if best.gap.lt minGapCycles then
          .error (.calibrationError ("largest admissible median gap too small: " ++
            formatFloat1 best.gap ++ " cycles (minimum " ++ formatFloat1 minGapCycles ++ ")"))
        else
          match floorDouble ((best.lo.add best.hi).div (.ofRat 2)) with
          | none => .error .uncaught
          | some threshold => .ok {
              thresholdCycles := threshold
              lowEdgeCycles := best.lo
              highEdgeCycles := best.hi
              gapCycles := best.gap
              totalPairs := n
              lowPairs := best.i + 1
              highPairs := n - best.i - 1 }
  | _, _ => .error .uncaught

/-! ## Exact steps -/

/-- The threshold of exact arithmetic, in `double`s. -/
def ExactThreshold.toFloat (t : ExactThreshold) : FloatThreshold :=
  ⟨t.thresholdCycles, .exact t.lowEdgeCycles, .exact t.highEdgeCycles, .exact t.gapCycles,
    t.totalPairs, t.lowPairs, t.highPairs⟩

/-- A gap of exact arithmetic, in `double`s. -/
def GapCandidate.toFloat (b : GapCandidate) : FloatGap :=
  ⟨.exact b.gap, b.i, .exact b.lo, .exact b.hi⟩

/-- The errors of `bootstrap_threshold`. -/
def BootstrapError.toWorker : BootstrapError → WorkerError
  | .indexError => .uncaught
  | .calibrationError text => .calibrationError text

/-- The latencies of the pairs are below `2 ^ 50`. -/
def PairLatencies.Moderate (pairs : PairLatencies) : Prop :=
  ∀ item ∈ pairs.items, ∀ x ∈ item.2, |x| ≤ 2 ^ 50

/-- A multiple of a half below `2 ^ 50`. -/
def HalfInteger (q : ℚ) : Prop := ∃ a : ℤ, |a| ≤ 2 ^ 51 ∧ q = a / 2

/-- The median of whole numbers is a multiple of one half. -/
theorem halfInteger_median {data : List ℤ} (hne : data ≠ []) (h : ∀ x ∈ data, |x| ≤ 2 ^ 50) :
    HalfInteger (median data) := by
  obtain ⟨a, ha, b, hb, hm⟩ := exists_median_eq hne
  refine ⟨a + b, (abs_add_le a b).trans ?_, hm⟩
  have hsum := add_le_add (h a ha) (h b hb)
  omega

section

variable {p q : ℚ}

theorem HalfInteger.dyadic (h : HalfInteger q) : Dyadic 1 q := by
  obtain ⟨a, ha, rfl⟩ := h
  exact ⟨a, ha.trans_lt (by norm_num), by rw [pow_one]⟩

/-- The difference of two medians is computed exactly. -/
theorem HalfInteger.dyadic_sub (hp : HalfInteger p) (hq : HalfInteger q) : Dyadic 1 (p - q) := by
  obtain ⟨a, ha, rfl⟩ := hp
  obtain ⟨b, hb, rfl⟩ := hq
  refine ⟨a - b, ?_, ?_⟩
  · rw [abs_lt]
    rw [abs_le] at ha hb
    omega
  · push_cast
    ring

/-- So are the sum of two medians and the middle between them. -/
theorem HalfInteger.dyadic_add (hp : HalfInteger p) (hq : HalfInteger q) :
    Dyadic 1 (p + q) ∧ Dyadic 2 ((p + q) / 2) := by
  obtain ⟨a, ha, rfl⟩ := hp
  obtain ⟨b, hb, rfl⟩ := hq
  have hsum : |a + b| < 2 ^ 53 := by
    rw [abs_lt]
    rw [abs_le] at ha hb
    omega
  refine ⟨⟨a + b, hsum, ?_⟩, ⟨a + b, hsum, ?_⟩⟩
  · push_cast
    ring
  · push_cast
    ring

end

section

variable {pairs : PairLatencies}

theorem halfInteger_of_mem (h : pairs.Moderate) {x : ℚ}
    (hx : x ∈ pairs.items.map fun item => median item.2) : HalfInteger x := by
  obtain ⟨item, hitem, rfl⟩ := List.mem_map.1 hx
  exact halfInteger_median (pairs.values_ne_nil item hitem) (h item hitem)

/-- The medians of the worker are the exact ones. -/
theorem floatMedians_eq (h : pairs.Moderate) :
    floatMedians pairs = (sortedMedians pairs).map Double.exact := by
  have hrounded : (pairs.items.map fun item => floatMedian item.2) =
      (pairs.items.map fun item => median item.2).map Double.exact := by
    rw [List.map_map]
    refine List.map_congr_left fun item hitem => ?_
    exact round_of_dyadic (by norm_num)
      (halfInteger_median (pairs.values_ne_nil item hitem) (h item hitem)).dyadic
  rw [floatMedians, sortedMedians, hrounded]
  refine (List.map_insertionSort (r := (· ≤ ·)) _ _ _ fun a _ b _ => ?_).symm
  rw [le_exact, decide_eq_true_eq]

/-- The loop of the worker does what the exact one does. -/
theorem floatGapLoop_eq {medians : List ℚ} (h : ∀ x ∈ medians, HalfInteger x) (positions : List ℕ)
    (best : Option GapCandidate) :
    floatGapLoop (medians.map Double.exact) positions (best.map GapCandidate.toFloat) =
      (gapLoop medians positions best).toOption.map (Option.map GapCandidate.toFloat) := by
  induction positions generalizing best with
  | nil => rfl
  | cons i rest ih =>
    rw [floatGapLoop, gapLoop, List.getElem?_map, List.getElem?_map]
    cases hlo : medians[i]? with
    | none => rfl
    | some lo =>
      cases hhi : medians[i + 1]? with
      | none => rfl
      | some hi =>
        have hgap : (Double.exact hi).sub (.exact lo) = .exact (hi - lo) :=
          sub_exact (k := 1) (by norm_num)
            ((h hi (List.mem_of_getElem? hhi)).dyadic_sub (h lo (List.mem_of_getElem? hlo)))
        have hbest : ((best.map GapCandidate.toFloat).all fun b => b.gap.lt (.exact (hi - lo))) =
            best.all fun b => b.gap < hi - lo := by
          rw [Option.all_map]
          refine congrArg (best.all ·) (funext fun b => ?_)
          exact lt_exact b.gap (hi - lo)
        simp only [Option.map_some, hgap, ← exact_zero, le_exact, hbest, decide_eq_true_eq]
        split_ifs
        · exact ih best
        · exact ih (some ⟨hi - lo, i, lo, hi⟩)
        · exact ih best

/-- The required numbers are computed, for all fractions that `validate_args` lets pass. -/
theorem exists_ceilShare {n : ℕ} (hn : n < 2 ^ 63) {fraction : Double}
    (h : isFraction fraction = true) : ∃ share, ceilShare n fraction = some share := by
  obtain ⟨rounded, hrounded⟩ := exists_roundedShare hn h
  rw [roundedShare] at hrounded
  rw [ceilShare]
  cases hproduct : (Double.round n).mul fraction with
  | fin neg mag => exact ⟨_, rfl⟩
  | _ =>
    rw [hproduct] at hrounded
    cases hrounded

/-- A fraction of 0 asks for the number that is given. -/
theorem requiredHigh_of_count (n high : ℕ) : requiredHigh n high 0 = high := by
  rw [requiredHigh, mul_zero, Int.ceil_zero, Int.toNat_zero, Nat.max_zero]

theorem requiredLow_of_count {n low : ℕ} (hn : n ≠ 0) (hlow : 1 ≤ low) :
    requiredLow n (low / n) = low := by
  rw [requiredLow, mul_div_cancel₀ _ (by exact_mod_cast hn), Int.ceil_natCast, Int.toNat_natCast,
    Nat.max_eq_right hlow]

/-- If a pair is required below the threshold, the positions are those of the exact loop. -/
theorem floatPositions_eq (n high : ℕ) {low : ℕ} (hlow : 1 ≤ low) :
    floatPositions n low high = splitPositions n low high := by
  rw [floatPositions, splitPositions]
  congr 1 <;> omega

/-- An exact number is printed as the rational it is. -/
theorem formatFloat1_exact (q : ℚ) : formatFloat1 (.exact q) = formatFixed1 q := by
  rw [Double.exact, formatFloat1, formatFixed1, abs_abs,
    decide_eq_false (not_lt.2 (abs_nonneg q)), Bool.xor_false]
  simp only [decide_eq_true_eq]

/-- The middle of a gap, rounded down. -/
theorem floorDouble_middle {lo hi : ℚ} (hlo : HalfInteger lo) (hhi : HalfInteger hi) :
    floorDouble (((Double.exact lo).add (.exact hi)).div (.ofRat 2)) = some ⌊(lo + hi) / 2⌋ := by
  obtain ⟨hsum, hhalf⟩ := hlo.dyadic_add hhi
  rw [add_exact (by norm_num) hsum, half_exact (by norm_num) hhalf, Double.exact, floorDouble,
    value_exact]

end

theorem gapLoop_error {medians : List ℚ} {positions : List ℕ} {best : Option GapCandidate}
    {e : BootstrapError} (h : gapLoop medians positions best = .error e) : e = .indexError := by
  induction positions generalizing best with
  | nil => cases h
  | cons i rest ih =>
    rw [gapLoop] at h
    split at h
    · dsimp only at h
      split_ifs at h
      · exact ih h
      · exact ih h
      · exact ih h
    · cases h
      rfl

/-- The edges of the gap that is found are medians. -/
theorem halfInteger_edges {medians : List ℚ} (h : ∀ x ∈ medians, HalfInteger x)
    {positions : List ℕ} {best : GapCandidate}
    (hbest : gapLoop medians positions none = .ok (some best)) :
    HalfInteger best.lo ∧ HalfInteger best.hi := by
  obtain ⟨i, -, rfl, hi, -⟩ := gapLoop_some hbest
  have hget : ∀ j < medians.length, HalfInteger (medians.getD j 0) := by
    intro j hj
    rw [List.getD_eq_getElem _ _ hj]
    exact h _ (List.getElem_mem hj)
  exact ⟨hget i (Nat.lt_of_succ_lt hi), hget (i + 1) hi⟩

/-- The worker does what exact arithmetic does. -/
theorem bootstrapThresholdFloat_eq {pairs : PairLatencies} (h : pairs.Moderate)
    (hne : pairs.items ≠ []) {minHighPairs : ℤ} {minHighFraction minLowFraction : Double}
    {high low : ℕ}
    (hhigh : requiredHighFloat pairs.items.length minHighPairs minHighFraction = some ↑high)
    (hlow : requiredLowFloat pairs.items.length minLowFraction = some ↑low) (hone : 1 ≤ low)
    (minGapCycles : ℚ) :
    bootstrapThresholdFloat pairs minHighPairs minHighFraction minLowFraction
        (.exact minGapCycles) =
      ((bootstrapThreshold pairs high 0 (low / pairs.items.length) minGapCycles).mapError
        BootstrapError.toWorker).map ExactThreshold.toFloat := by
  have hn : pairs.items.length ≠ 0 := fun hzero => hne (List.eq_nil_of_length_eq_zero hzero)
  have hhalf : ∀ x ∈ sortedMedians pairs, HalfInteger x := by
    intro x hx
    rw [sortedMedians, (List.perm_insertionSort _ _).mem_iff] at hx
    exact halfInteger_of_mem h hx
  have hloop := floatGapLoop_eq hhalf (splitPositions pairs.items.length low high) none
  rw [Option.map_none] at hloop
  rw [bootstrapThresholdFloat, bootstrapThreshold, floatMedians_eq h]
  simp only [List.length_map, length_sortedMedians, hhigh, hlow, requiredHigh_of_count,
    requiredLow_of_count hn hone, floatPositions_eq _ _ hone, hloop]
  by_cases himpossible : pairs.items.length < low + high
  · rw [if_pos himpossible, if_pos (by exact_mod_cast himpossible)]
    rfl
  · rw [if_neg himpossible, if_neg (by exact_mod_cast himpossible)]
    cases hfound : gapLoop (sortedMedians pairs)
        (splitPositions pairs.items.length low high) none with
    | error e =>
      rw [gapLoop_error hfound]
      rfl
    | ok found =>
      cases found with
      | none => rfl
      | some best =>
        obtain ⟨hlo, hhi⟩ := halfInteger_edges hhalf hfound
        simp only [Except.toOption, Option.map_some, GapCandidate.toFloat, lt_exact,
          decide_eq_true_eq, formatFloat1_exact, floorDouble_middle hlo hhi]
        split_ifs
        · rfl
        · rfl

/-- On moderate latencies, `bootstrap_threshold` in floating point is `bootstrap_threshold` in
    exact arithmetic, with the required numbers of pairs that the worker computes: it returns the
    same threshold, edges and gap, or fails in the same way. Its threshold separates the medians
    of the pairs, if the gap has to be of a cycle. (Any number is the least gap here but the
    infinities, the negative zero and NaN.) -/
theorem float_threshold_exact {pairs : PairLatencies} (h : pairs.Moderate) (hne : pairs.items ≠ [])
    (hlength : pairs.items.length < 2 ^ 63) (minHighPairs : ℕ)
    {minHighFraction minLowFraction : Double} (hhighFraction : isFraction minHighFraction = true)
    (hlowFraction : isFraction minLowFraction = true) (minGapCycles : ℚ) :
    ∃ high low : ℕ,
      requiredHighFloat pairs.items.length minHighPairs minHighFraction = some ↑high ∧
      requiredLowFloat pairs.items.length minLowFraction = some ↑low ∧
      bootstrapThresholdFloat pairs minHighPairs minHighFraction minLowFraction
          (.exact minGapCycles) =
        ((bootstrapThreshold pairs high 0 (low / pairs.items.length) minGapCycles).mapError
          BootstrapError.toWorker).map ExactThreshold.toFloat ∧
      (1 ≤ minGapCycles → ∀ info, bootstrapThresholdFloat pairs minHighPairs minHighFraction
          minLowFraction (.exact minGapCycles) = .ok info →
        ∃ t : ExactThreshold, info = t.toFloat ∧
          SeparatesClusters pairs high 0 (low / pairs.items.length) t) := by
  obtain ⟨highShare, hhighShare⟩ := exists_ceilShare hlength hhighFraction
  obtain ⟨lowShare, hlowShare⟩ := exists_ceilShare hlength hlowFraction
  obtain ⟨high, hhigh⟩ := Int.eq_ofNat_of_zero_le
    (show 0 ≤ max (minHighPairs : ℤ) highShare from le_max_of_le_left (Int.natCast_nonneg _))
  obtain ⟨low, hlow⟩ := Int.eq_ofNat_of_zero_le
    (show 0 ≤ max 1 lowShare from le_max_of_le_left zero_le_one)
  have hone : 1 ≤ low := by omega
  have hhigh' : requiredHighFloat pairs.items.length minHighPairs minHighFraction = some ↑high := by
    rw [requiredHighFloat, hhighShare, Option.map_some, hhigh]
  have hlow' : requiredLowFloat pairs.items.length minLowFraction = some ↑low := by
    rw [requiredLowFloat, hlowShare, Option.map_some, hlow]
  have heq := bootstrapThresholdFloat_eq h hne hhigh' hlow' hone minGapCycles
  refine ⟨high, low, hhigh', hlow', heq, fun hgap info hinfo => ?_⟩
  rw [heq] at hinfo
  cases hexact : bootstrapThreshold pairs high 0 (low / pairs.items.length) minGapCycles with
  | error e =>
    rw [hexact] at hinfo
    cases hinfo
  | ok t =>
    rw [hexact] at hinfo
    exact ⟨t, (Except.ok.inj hinfo).symm, separatesClusters_of_ok hgap hexact⟩

/-- The worker on three pairs, with its default for the least gap. -/
theorem float_threshold_exact_three :
    ∃ info, bootstrapThresholdFloat threePairs 1 (.ofRat (1 / 4)) (.ofRat (1 / 2)) (.exact 8) =
        .ok info ∧ info.thresholdCycles = 21 ∧
      ∃ high low : ℕ, ∃ t : ExactThreshold, info = t.toFloat ∧
        SeparatesClusters threePairs high 0 (low / threePairs.items.length) t := by
  have hok : bootstrapThresholdFloat threePairs 1 (.ofRat (1 / 4)) (.ofRat (1 / 2)) (.exact 8) =
      .ok ⟨21, .ofRat 13, .ofRat 30, .ofRat 17, 3, 2, 1⟩ := by
    decide +kernel
  have hmoderate : threePairs.Moderate := by
    rw [PairLatencies.Moderate]
    decide
  obtain ⟨high, low, -, -, -, hseparates⟩ := float_threshold_exact hmoderate (by decide) (by decide)
    1 (show isFraction (.ofRat (1 / 4)) = true by decide +kernel)
    (show isFraction (.ofRat (1 / 2)) = true by decide +kernel) 8
  exact ⟨_, hok, rfl, high, low, hseparates (by norm_num) _ hok⟩

end CgroupResearch
