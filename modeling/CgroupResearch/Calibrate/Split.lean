import CgroupResearch.Calibrate.Threshold
import CgroupResearch.Lib.DoubleArith

/-!
# The records for the fit, the tuning and the test

The masks are fitted to some of the records, chosen on others, and judged on the rest, the
holdout. With two runs or more the holdout is the last run, which nothing else looks at. A
single run is split twice. `stratified_split` of `kk_calibrate.py` shuffles the conflicts and
the others apart and takes its share of each, at least one of them and not all; it leaves a
single one on the left.

`random.Random` is any generator whose shuffles only change the order (`Rng`). The share is
computed in `double`s, as `int(round(len(group) * test_fraction))`.

* `splitGroup_spec`: a share of one group, and what is left of it;
* `stratifiedSplit_splits`: both groups, with the shuffles at the end;
* `splits_partition`: the three lists are the records of all the runs, each once.
-/

namespace CgroupResearch

open CNumber
open scoped List

/-! ## The program -/

/-- `random.Random`: what `shuffle` makes of a list, and the next state. -/
structure Rng (σ α : Type) where
  shuffle : σ → List α → List α × σ
  shuffle_perm : ∀ s l, (shuffle s l).1.Perm l

/-- `int(round(n * fraction))`; `none` where a conversion raises. -/
def roundedShare (n : ℕ) (fraction : Double) : Option ℤ :=
  match Double.mul (Double.round n) fraction with
  | .fin neg mag => some (Double.roundHalfEven (Double.value neg mag))
  | _ => none

/-- The size of the share of a group. -/
def nTest (n : ℕ) (rounded : ℤ) : ℕ :=
  if 2 ≤ n then (min (max 1 rounded) (n - 1)).toNat else 0

section

variable {σ : Type} (rng : Rng σ LabelledPair)

/-- The body of the loop of `stratified_split`, on one group. -/
def splitGroup (fraction : Double) (s : σ) (group left right : List LabelledPair) :
    Option (List LabelledPair × List LabelledPair × σ) :=
  let (group, s) := rng.shuffle s group
  if group = [] then
    some (left, right, s)
  else
    (roundedShare group.length fraction).map fun rounded =>
      let n := nTest group.length rounded
      (left ++ group.drop n, right ++ group.take n, s)

/-- `stratified_split`. -/
def stratifiedSplit (records : List LabelledPair) (testFraction : Double) (s : σ) :
    Option (List LabelledPair × List LabelledPair × σ) := do
  let (left, right, s) ←
    splitGroup rng testFraction s (records.filter fun r => !r.labelConflict) [] []
  let (left, right, s) ← splitGroup rng testFraction s (records.filter (·.labelConflict)) left right
  let (left, s) := rng.shuffle s left
  let (right, s) := rng.shuffle s right
  return (left, right, s)

/-- The lists `fit`, `tune` and `holdout` of `analyze_runs`. -/
structure RunSplits where
  fit : List LabelledPair
  tune : List LabelledPair
  holdout : List LabelledPair
  deriving DecidableEq, Repr

/-- The splits of `analyze_runs`; `none` where it raises, as without a run. -/
def splitRuns (allRuns : List (List LabelledPair)) (tuneFraction holdoutFraction : Double)
    (s : σ) : Option RunSplits :=
  match allRuns with
  | [] => none
  | [run] => do
    let (trainTune, holdout, s) ← stratifiedSplit rng run holdoutFraction s
    let (fit, tune, _) ← stratifiedSplit rng trainTune tuneFraction s
    return ⟨fit, tune, holdout⟩
  | run :: run' :: rest => do
    let holdout := (run :: run' :: rest).getLast (List.cons_ne_nil _ _)
    let preHoldout := (run :: run' :: rest).dropLast.flatten
    let (fit, tune, _) ← stratifiedSplit rng preHoldout tuneFraction s
    return ⟨fit, tune, holdout⟩

end

/-! ## One group -/

/-- Of two pairs or more, some are held back and some are not. -/
theorem nTest_bounds {n : ℕ} (rounded : ℤ) (h : 2 ≤ n) :
    0 < nTest n rounded ∧ nTest n rounded < n := by
  rw [nTest, if_pos h]
  omega

theorem nTest_single {n : ℕ} {rounded : ℤ} (h : n < 2) : nTest n rounded = 0 :=
  if_neg (not_le.2 h)

/-- A group is split in two: both parts have members if the group has two or more, and the
    second has none otherwise. -/
structure SplitsGroup (group left right : List LabelledPair) : Prop where
  perm : (left ++ right).Perm group
  left_ne_nil : 2 ≤ group.length → left ≠ []
  right_ne_nil : 2 ≤ group.length → right ≠ []
  right_eq_nil : group.length < 2 → right = []

section

variable {σ : Type} {rng : Rng σ LabelledPair} {fraction : Double} {s s' : σ}

/-- The pairs of a group go to one side or to the other. -/
theorem splitGroup_spec {group left right left' right' : List LabelledPair}
    (h : splitGroup rng fraction s group left right = some (left', right', s')) :
    ∃ l r, left' = left ++ l ∧ right' = right ++ r ∧ SplitsGroup group l r := by
  have hperm := rng.shuffle_perm s group
  rw [splitGroup] at h
  generalize rng.shuffle s group = shuffled at h hperm
  obtain ⟨shuffled, s₁⟩ := shuffled
  dsimp only at h hperm
  have hlength := hperm.length_eq
  split_ifs at h with hnil
  · cases h
    rw [hnil, List.nil_perm] at hperm
    subst hperm
    exact ⟨[], [], by simp, by simp, .refl _, by simp, by simp, fun _ => rfl⟩
  · obtain ⟨rounded, -, heq⟩ := Option.map_eq_some_iff.1 h
    cases heq
    refine ⟨_, _, rfl, rfl, ?_, fun htwo => ?_, fun htwo => ?_, fun hone => ?_⟩
    · exact (List.perm_append_comm.trans (.of_eq (List.take_append_drop _ _))).trans hperm
    · have := nTest_bounds rounded (hlength ▸ htwo)
      simpa using this.2
    · have := nTest_bounds rounded (hlength ▸ htwo)
      simpa [hnil] using this.1.ne'
    · rw [nTest_single (hlength ▸ hone), List.take_zero]

/-! ## A split -/

/-- The records of a label. -/
def labelGroup (records : List LabelledPair) (label : Bool) : List LabelledPair :=
  records.filter (·.labelConflict == label)

/-- A group has the pairs of its label. -/
theorem mem_labelGroup {records : List LabelledPair} {label : Bool} {r : LabelledPair} :
    r ∈ labelGroup records label ↔ r ∈ records ∧ r.labelConflict = label := by
  rw [labelGroup, List.mem_filter, beq_iff_eq]

/-- The two groups have all the pairs. -/
theorem labelGroup_append_perm (records : List LabelledPair) :
    (labelGroup records false ++ labelGroup records true).Perm records := by
  have hfalse : labelGroup records false = records.filter fun r => !r.labelConflict := by
    simp only [labelGroup, beq_false]
  have htrue : labelGroup records true = records.filter (·.labelConflict) := by
    simp only [labelGroup, beq_true]
  rw [hfalse, htrue]
  exact List.perm_append_comm.trans (List.filter_append_perm _ _)

/-- A split of records that has each label with two records or more on both sides, and a label
    with one record on the left only. -/
structure SplitsClasses (records left right : List LabelledPair) : Prop where
  perm : (left ++ right).Perm records
  both : ∀ label, 2 ≤ (labelGroup records label).length →
    (∃ r ∈ left, r.labelConflict = label) ∧ ∃ r ∈ right, r.labelConflict = label
  single : ∀ label, (labelGroup records label).length = 1 →
    (∃ r ∈ left, r.labelConflict = label) ∧ ∀ r ∈ right, r.labelConflict ≠ label

/-- One side of a split: a part of each group, in some order. -/
structure SideOf (side : List LabelledPair) (part : Bool → List LabelledPair) : Prop where
  perm : side ~ part false ++ part true
  label : ∀ label, ∀ r ∈ part label, r.labelConflict = label

/-- A side has a label if the group of this label has a part in it. -/
theorem SideOf.exists_iff {side : List LabelledPair} {part : Bool → List LabelledPair}
    (h : SideOf side part) (label : Bool) :
    (∃ r ∈ side, r.labelConflict = label) ↔ part label ≠ [] := by
  have hmem : ∀ r, r ∈ side ↔ ∃ label, r ∈ part label := by
    intro r
    rw [h.perm.mem_iff, List.mem_append, Bool.exists_bool]
  constructor
  · rintro ⟨r, hr, rfl⟩
    obtain ⟨label, hr⟩ := (hmem r).1 hr
    rw [h.label label r hr]
    exact List.ne_nil_of_mem hr
  · intro hne
    obtain ⟨r, hr⟩ := List.exists_mem_of_ne_nil _ hne
    exact ⟨r, (hmem r).2 ⟨label, hr⟩, h.label label r hr⟩

/-- A split is made group by group, up to the order. -/
theorem stratifiedSplit_spec {records left right : List LabelledPair}
    (h : stratifiedSplit rng records fraction s = some (left, right, s')) :
    ∃ l r : Bool → List LabelledPair, SideOf left l ∧ SideOf right r ∧
      ∀ label, SplitsGroup (labelGroup records label) (l label) (r label) := by
  rw [stratifiedSplit] at h
  obtain ⟨⟨l₀, r₀, s₁⟩, h₀, h⟩ := Option.bind_eq_some_iff.1 h
  obtain ⟨⟨l₁, r₁, s₂⟩, h₁, h⟩ := Option.bind_eq_some_iff.1 h
  obtain ⟨l₀, r₀, rfl, rfl, hfalse⟩ := splitGroup_spec h₀
  obtain ⟨l₁, r₁, rfl, rfl, htrue⟩ := splitGroup_spec h₁
  cases h
  have hgroup : ∀ label, SplitsGroup (labelGroup records label) (cond label l₁ l₀)
      (cond label r₁ r₀) := by
    intro label
    cases label with
    | false => simpa only [labelGroup, beq_false, cond_false] using hfalse
    | true => simpa only [labelGroup, beq_true, cond_true] using htrue
  refine ⟨_, _, ⟨rng.shuffle_perm _ _, fun label r hr => ?_⟩,
    ⟨rng.shuffle_perm _ _, fun label r hr => ?_⟩, hgroup⟩
  · exact (mem_labelGroup.1 ((hgroup label).perm.subset (List.mem_append_left _ hr))).2
  · exact (mem_labelGroup.1 ((hgroup label).perm.subset (List.mem_append_right _ hr))).2

/-- A split has each pair on one side, and divides both groups. -/
theorem stratifiedSplit_splits {records left right : List LabelledPair}
    (h : stratifiedSplit rng records fraction s = some (left, right, s')) :
    SplitsClasses records left right := by
  obtain ⟨l, r, hleft, hright, hgroup⟩ := stratifiedSplit_spec h
  constructor
  · calc left ++ right ~ (l false ++ l true) ++ (r false ++ r true) := hleft.perm.append hright.perm
      _ ~ (l false ++ r false) ++ (l true ++ r true) := by
        rw [List.append_assoc, List.append_assoc]
        exact (List.perm_append_comm_assoc _ _ _).append_left _
      _ ~ labelGroup records false ++ labelGroup records true :=
        (hgroup false).perm.append (hgroup true).perm
      _ ~ records := labelGroup_append_perm records
  · intro label htwo
    exact ⟨(hleft.exists_iff label).2 ((hgroup label).left_ne_nil htwo),
      (hright.exists_iff label).2 ((hgroup label).right_ne_nil htwo)⟩
  · intro label hone
    have hnil := (hgroup label).right_eq_nil (by omega)
    refine ⟨(hleft.exists_iff label).2 fun hne => ?_, fun x hx hlabel => ?_⟩
    · have hlength := (hgroup label).perm.length_eq
      rw [hne, hnil, hone] at hlength
      exact absurd hlength zero_ne_one
    · exact (hright.exists_iff label).1 ⟨x, hx, hlabel⟩ hnil

/-! ## The share is a number -/

/-- The fraction that `validate_args` lets pass. -/
def isFraction (fraction : Double) : Bool :=
  Double.le (.ofRat 0) fraction && Double.le fraction (.ofRat 1)

theorem exists_roundedShare {n : ℕ} (hn : n < 2 ^ 63) (h : isFraction fraction = true) :
    ∃ rounded, roundedShare n fraction = some rounded := by
  have hlength : Double.round n = .fin false (roundMagnitude n) := by
    have hle : |(n : ℚ)| ≤ 2 ^ 63 := by
      rw [Nat.abs_cast]
      exact_mod_cast hn.le
    rw [Double.round, decide_eq_false (not_lt.2 n.cast_nonneg), toDouble_eq_fin hle (by norm_num),
      Nat.abs_cast]
  have hround : roundMagnitude n ≤ 2 ^ 64 :=
    roundMagnitude_le_two_pow (by exact_mod_cast hn.le)
  have hpos : 0 ≤ roundMagnitude n := roundMagnitude_nonneg n.cast_nonneg
  rw [isFraction, Bool.and_eq_true] at h
  obtain ⟨hlow, hhigh⟩ := h
  cases fraction with
  | nan => cases hhigh
  | inf neg => cases neg with
    | false => cases hhigh
    | true => cases hlow
  | fin neg mag =>
    have hmag : mag ≤ 1 := by
      cases neg with
      | false => exact of_decide_eq_true hhigh
      | true =>
        have hle : 0 ≤ -mag := of_decide_eq_true hlow
        linarith
    have hproduct : roundMagnitude n * mag ≤ 2 ^ 64 :=
      (mul_le_of_le_one_right hpos hmag).trans hround
    rw [roundedShare, hlength, Double.mul, toDouble_eq_fin hproduct (by norm_num)]
    exact ⟨_, rfl⟩

variable (rng) in
theorem exists_splitGroup {group : List LabelledPair} (hlength : group.length < 2 ^ 63)
    (h : isFraction fraction = true) (s : σ) (left right : List LabelledPair) :
    ∃ result, splitGroup rng fraction s group left right = some result := by
  have hperm := (rng.shuffle_perm s group).length_eq
  rw [splitGroup]
  dsimp only
  split_ifs
  · exact ⟨_, rfl⟩
  · obtain ⟨rounded, hrounded⟩ := exists_roundedShare (hperm ▸ hlength) h
    rw [hrounded]
    exact ⟨_, rfl⟩

variable (rng) in
/-- With a fraction that has passed its check there is a split. -/
theorem exists_stratifiedSplit {records : List LabelledPair} (hlength : records.length < 2 ^ 63)
    (h : isFraction fraction = true) (s : σ) :
    ∃ left right s', stratifiedSplit rng records fraction s = some (left, right, s') := by
  obtain ⟨⟨l, r, s₁⟩, hfalse⟩ := exists_splitGroup rng
    ((List.length_filter_le (fun r => !r.labelConflict) records).trans_lt hlength) h s [] []
  obtain ⟨⟨l', r', s₂⟩, htrue⟩ := exists_splitGroup rng
    ((List.length_filter_le (·.labelConflict) records).trans_lt hlength) h s₁ l r
  rw [stratifiedSplit, hfalse, Option.bind_eq_bind, Option.bind_some]
  dsimp only
  rw [htrue]
  exact ⟨_, _, _, rfl⟩

/-! ## The splits of the runs -/

variable {allRuns : List (List LabelledPair)} {tuneFraction holdoutFraction : Double}

/-- The splits have all the pairs of all the runs. -/
theorem splitRuns_perm {splits : RunSplits}
    (h : splitRuns rng allRuns tuneFraction holdoutFraction s = some splits) :
    splits.fit ++ splits.tune ++ splits.holdout ~ allRuns.flatten := by
  rcases allRuns with _ | ⟨run, _ | ⟨run', rest⟩⟩
  · cases h
  · rw [splitRuns] at h
    obtain ⟨⟨trainTune, holdout, s₁⟩, hholdout, h⟩ := Option.bind_eq_some_iff.1 h
    obtain ⟨⟨fit, tune, s₂⟩, htune, h⟩ := Option.bind_eq_some_iff.1 h
    cases h
    rw [List.flatten_singleton]
    exact ((stratifiedSplit_splits htune).perm.append_right holdout).trans
      (stratifiedSplit_splits hholdout).perm
  · rw [splitRuns] at h
    obtain ⟨⟨fit, tune, s₁⟩, htune, h⟩ := Option.bind_eq_some_iff.1 h
    cases h
    refine ((stratifiedSplit_splits htune).perm.append_right _).trans (.of_eq ?_)
    rw [← List.flatten_concat, List.dropLast_concat_getLast]

/-- With two runs or more the last one is held out. -/
theorem getLast?_splitRuns {splits : RunSplits} (htwo : 2 ≤ allRuns.length)
    (h : splitRuns rng allRuns tuneFraction holdoutFraction s = some splits) :
    allRuns.getLast? = some splits.holdout := by
  rcases allRuns with _ | ⟨run, _ | ⟨run', rest⟩⟩
  · cases h
  · exact absurd htwo (by simp)
  · rw [splitRuns] at h
    obtain ⟨result, -, h⟩ := Option.bind_eq_some_iff.1 h
    cases h
    exact List.getLast?_eq_some_getLast (List.cons_ne_nil _ _)

variable (rng) in
/-- With fractions that have passed their checks there are splits. -/
theorem exists_splitRuns (hne : allRuns ≠ []) (htune : isFraction tuneFraction = true)
    (hholdout : isFraction holdoutFraction = true) (hlength : allRuns.flatten.length < 2 ^ 63)
    (s : σ) : ∃ splits, splitRuns rng allRuns tuneFraction holdoutFraction s = some splits := by
  rcases allRuns with _ | ⟨run, _ | ⟨run', rest⟩⟩
  · exact absurd rfl hne
  · rw [List.flatten_singleton] at hlength
    obtain ⟨trainTune, holdout, s₁, hrun⟩ := exists_stratifiedSplit rng hlength hholdout s
    have htrain : trainTune.length < 2 ^ 63 := by
      have := (stratifiedSplit_splits hrun).perm.length_eq
      rw [List.length_append] at this
      omega
    obtain ⟨fit, tune, s₂, hsplit⟩ := exists_stratifiedSplit rng htrain htune s₁
    rw [splitRuns, hrun, Option.bind_eq_bind, Option.bind_some]
    dsimp only
    rw [hsplit]
    exact ⟨_, rfl⟩
  · have hpre : (run :: run' :: rest).dropLast.flatten.length < 2 ^ 63 :=
      (List.Sublist.flatten (List.dropLast_sublist _)).length_le.trans_lt hlength
    obtain ⟨fit, tune, s₁, hsplit⟩ := exists_stratifiedSplit rng hpre htune s
    rw [splitRuns, hsplit]
    exact ⟨_, rfl⟩

/-- No leakage: the lists for the fit, the tuning and the test are the records of all the
    runs, each once, and with two runs or more the holdout is the last run. They are built for
    all fractions that `validate_args` lets pass (a list of Python has fewer than `2 ^ 63`
    members). Each split has a label with two records or more on both sides, and leaves a
    single record on the left. -/
theorem splits_partition (rng : Rng σ LabelledPair) (allRuns : List (List LabelledPair))
    (tuneFraction holdoutFraction : Double) (s : σ) :
    (∀ splits, splitRuns rng allRuns tuneFraction holdoutFraction s = some splits →
      splits.fit ++ splits.tune ++ splits.holdout ~ allRuns.flatten ∧
      (2 ≤ allRuns.length → allRuns.getLast? = some splits.holdout)) ∧
    (allRuns ≠ [] → isFraction tuneFraction = true → isFraction holdoutFraction = true →
      allRuns.flatten.length < 2 ^ 63 →
      ∃ splits, splitRuns rng allRuns tuneFraction holdoutFraction s = some splits) ∧
    ∀ records fraction s left right s',
      stratifiedSplit rng records fraction s = some (left, right, s') →
      SplitsClasses records left right :=
  ⟨fun _ h => ⟨splitRuns_perm h, fun htwo => getLast?_splitRuns htwo h⟩,
    fun hne htune hholdout hlength => exists_splitRuns rng hne htune hholdout hlength s,
    fun _ _ _ _ _ _ h => stratifiedSplit_splits h⟩

end

/-- A generator that turns each list around. -/
def reverseRng : Rng Unit LabelledPair where
  shuffle s l := (l.reverse, s)
  shuffle_perm _ l := l.reverse_perm

/-- A record with a label. -/
def recordOf (a2 : ℕ) (label : Bool) : LabelledPair := ⟨0, 0, a2, a2, 10, label, 1⟩

/-- Two runs, of two records each. -/
def twoRuns : List (List LabelledPair) :=
  [[recordOf 1 true, recordOf 2 true], [recordOf 4 true, recordOf 8 false]]

/-- Two runs: the last one is the holdout, and the first is split in two. -/
theorem splits_partition_two_runs :
    ∃ splits, splitRuns reverseRng twoRuns (.ofRat (1 / 4)) (.ofRat (1 / 5)) () = some splits ∧
      splits.fit ++ splits.tune ++ splits.holdout ~ twoRuns.flatten ∧
      splits.holdout = [recordOf 4 true, recordOf 8 false] := by
  have h := splits_partition reverseRng twoRuns (.ofRat (1 / 4)) (.ofRat (1 / 5)) ()
  obtain ⟨splits, hsplits⟩ :=
    h.2.1 (List.cons_ne_nil _ _) (by decide +kernel) (by decide +kernel) (by decide)
  obtain ⟨hperm, hlast⟩ := h.1 splits hsplits
  exact ⟨splits, hsplits, hperm, (Option.some.inj (hlast le_rfl)).symm⟩

end CgroupResearch
