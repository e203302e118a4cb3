import CgroupResearch.Calibrate.Analyze
import CgroupResearch.Lib.DoubleError
import Mathlib.Data.Multiset.Basic

/-!
# The order of the rows

What the analysis makes of a timing file does not depend on the order of its rows, except that the
kept pairs come in another order (`rows_in_any_order`). The pairs of a file are a histogram, whose
values are multisets of latencies: these do not know of an order, and say what the pairs are
(`PairLatencies.Agree`). All that is done with a pair looks at the multiset of its latencies only.
-/

namespace CgroupResearch

open scoped List

/-! ## The latencies of a pair -/

/-- The latencies of an entry, in no order. -/
def latencies (item : (ℕ × ℕ) × List ℤ) : Multiset ℤ := item.2

/-- The same pairs, each with the same latencies, in whatever order. -/
def PairLatencies.Agree (pairs pairs' : PairLatencies) : Prop :=
  (pairs.items.map fun item => (item.1, latencies item)) ~
    pairs'.items.map fun item => (item.1, latencies item)

section

variable {pairs pairs' : PairLatencies}

/-- Pairs with the same latencies agree. -/
theorem agree_of_valueAt (h : ∀ pair, Histogram.valueAt Prod.fst latencies pairs.items pair =
    Histogram.valueAt Prod.fst latencies pairs'.items pair) : pairs.Agree pairs' := by
  have hne : ∀ pairs : PairLatencies, ∀ item ∈ pairs.items, latencies item ≠ 0 :=
    fun pairs item hitem hzero => pairs.values_ne_nil item hitem (Multiset.coe_eq_zero _ |>.1 hzero)
  exact Histogram.perm_of_valueAt_eq pairs.keys_nodup pairs'.keys_nodup (hne pairs) (hne pairs') h

/-- A function that does not look at the order of the latencies. -/
def OrderFree {β : Type} (f : (ℕ × ℕ) × List ℤ → β) : Prop :=
  ∀ pair values values', values ~ values' → f (pair, values) = f (pair, values')

/-- Such a function has the same values on pairs that agree. -/
theorem PairLatencies.Agree.map (h : pairs.Agree pairs') {β : Type} {f : (ℕ × ℕ) × List ℤ → β}
    (hf : OrderFree f) : pairs.items.map f ~ pairs'.items.map f := by
  have hfactor : ∀ items : List ((ℕ × ℕ) × List ℤ), items.map f =
      (items.map fun item => (item.1, latencies item)).map fun x => f (x.1, x.2.toList) := by
    intro items
    rw [List.map_map]
    refine List.map_congr_left fun item _ => hf item.1 _ _ ?_
    exact Multiset.coe_eq_coe.1 (Multiset.coe_toList (latencies item)).symm
  rw [hfactor, hfactor]
  exact List.Perm.map _ h

theorem PairLatencies.Agree.length_eq (h : pairs.Agree pairs') :
    pairs.items.length = pairs'.items.length := by
  have hlength := List.Perm.length_eq h
  rwa [List.length_map, List.length_map] at hlength

/-- A choice of pairs, and what is made of them. -/
theorem PairLatencies.Agree.filter_map (h : pairs.Agree pairs') {β : Type}
    {p : (ℕ × ℕ) × List ℤ → Bool} {f : (ℕ × ℕ) × List ℤ → β} (hp : OrderFree p)
    (hf : OrderFree f) : (pairs.items.filter p).map f ~ (pairs'.items.filter p).map f := by
  have hchoice : ∀ items : List ((ℕ × ℕ) × List ℤ), (items.filter p).map f =
      (items.map fun item => if p item then some (f item) else none).filterMap id := by
    intro items
    rw [List.filterMap_map]
    induction items with
    | nil => rfl
    | cons item items ih =>
      rw [List.filter_cons, List.filterMap_cons]
      by_cases hitem : p item = true
      · simp only [hitem, if_true, List.map_cons, ih, Function.comp, id]
      · simp only [hitem, Bool.false_eq_true, if_false, ih, Function.comp, id]
  rw [hchoice, hchoice]
  refine (h.map fun pair values values' hperm => ?_).filterMap id
  rw [hp pair values values' hperm, hf pair values values' hperm]

/-- What does not depend on the order counts the same pairs. -/
theorem PairLatencies.Agree.countP (h : pairs.Agree pairs') {p : (ℕ × ℕ) × List ℤ → Bool}
    (hp : OrderFree p) : pairs.items.countP p = pairs'.items.countP p := by
  have hlength := (h.filter_map hp (f := fun _ => ()) fun _ _ _ _ => rfl).length_eq
  rw [List.length_map, List.length_map] at hlength
  rwa [List.countP_eq_length_filter, List.countP_eq_length_filter]

/-! ## What is made of a pair -/

/-- A median does not depend on the order. -/
theorem median_perm {values values' : List ℤ} (h : values ~ values') :
    median values = median values' := by
  have hsort : values.insertionSort (· ≤ ·) = values'.insertionSort (· ≤ ·) :=
    List.Perm.eq_of_pairwise' (List.pairwise_insertionSort _ _) (List.pairwise_insertionSort _ _)
      (((List.perm_insertionSort _ _).trans h).trans (List.perm_insertionSort _ _).symm)
  rw [median, median, hsort]

theorem orderFree_oneSided (threshold : ℤ) :
    OrderFree fun item => decide (OneSided threshold item) := by
  intro pair values values' hperm
  rw [decide_eq_decide]
  simp only [OneSided, hperm.mem_iff]

theorem orderFree_not_oneSided (threshold : ℤ) :
    OrderFree fun item => decide (¬ OneSided threshold item) := by
  intro pair values values' hperm
  rw [decide_eq_decide]
  simp only [OneSided, hperm.mem_iff]

/-- The label of a pair does not depend on the order of its latencies. -/
theorem orderFree_labelled (runId : ℕ) (threshold : ℤ) : OrderFree (labelled runId threshold) := by
  intro pair values values' hperm
  simp only [labelled, median_perm hperm, hperm.length_eq]

/-- A median is zero, or it is rounded to a number other than zero. -/
theorem canonical_floatMedian {data : List ℤ} (hne : data ≠ []) :
    (floatMedian data).Canonical := by
  obtain ⟨a, -, b, -, hmedian⟩ := exists_median_eq hne
  refine Double.canonical_round ?_
  rw [hmedian]
  rcases eq_or_ne (a + b) 0 with hzero | hsum
  · exact .inl (by rw [hzero, Int.cast_zero, zero_div])
  · have hone : (1 : ℚ) ≤ |((a + b : ℤ) : ℚ)| := by exact_mod_cast Int.one_le_abs hsum
    refine .inr ?_
    rw [abs_div, abs_two]
    calc (2 : ℚ) ^ (-1022 : ℤ) ≤ 2 ^ (-1 : ℤ) := zpow_le_zpow_right₀ (by norm_num) (by norm_num)
      _ = 1 / 2 := by norm_num
      _ ≤ |((a + b : ℤ) : ℚ)| / 2 := by linarith

/-- The medians of the worker are the same. -/
theorem floatMedians_congr (h : pairs.Agree pairs') : floatMedians pairs = floatMedians pairs' := by
  have hmedians : (pairs.items.map fun item => floatMedian item.2) ~
      pairs'.items.map fun item => floatMedian item.2 :=
    h.map fun _ _ _ hperm => congrArg Double.round (median_perm hperm)
  refine Double.insertionSort_eq_of_perm hmedians fun x hx => ?_
  obtain ⟨item, hitem, rfl⟩ := List.mem_map.1 hx
  exact canonical_floatMedian (pairs.values_ne_nil item hitem)

/-- The threshold is the same. -/
theorem bootstrapThresholdFloat_congr (h : pairs.Agree pairs') (minHighPairs : ℤ)
    (minHighFraction minLowFraction minGapCycles : Double) :
    bootstrapThresholdFloat pairs minHighPairs minHighFraction minLowFraction minGapCycles =
      bootstrapThresholdFloat pairs' minHighPairs minHighFraction minLowFraction minGapCycles := by
  rw [bootstrapThresholdFloat, bootstrapThresholdFloat, floatMedians_congr h]

end

/-! ## Loading -/

/-- Rows in another order parse to the same latencies in another order. -/
theorem ParsesTo.perm {rows rows' : List TimingRow} {es : List ((ℕ × ℕ) × ℤ)}
    (h : ParsesTo rows es) (hperm : rows ~ rows') : ∃ es', es ~ es' ∧ ParsesTo rows' es' := by
  induction hperm generalizing es with
  | nil => exact ⟨es, .refl es, h⟩
  | cons row _ ih =>
    obtain ⟨e, es, rfl, he, hes⟩ := parsesTo_cons.1 h
    obtain ⟨es', hperm, hes'⟩ := ih hes
    exact ⟨e :: es', hperm.cons e, parsesTo_cons.2 ⟨e, es', rfl, he, hes'⟩⟩
  | swap row row' rows =>
    obtain ⟨e, _, rfl, he, h⟩ := parsesTo_cons.1 h
    obtain ⟨e', es, rfl, he', hes⟩ := parsesTo_cons.1 h
    exact ⟨e' :: e :: es, .swap e' e es,
      parsesTo_cons.2 ⟨e', _, rfl, he', parsesTo_cons.2 ⟨e, es, rfl, he, hes⟩⟩⟩
  | trans _ _ ih ih' =>
    obtain ⟨es', hperm, hes'⟩ := ih h
    obtain ⟨es'', hperm', hes''⟩ := ih' hes'
    exact ⟨es'', hperm.trans hperm', hes''⟩

/-- The latencies of a pair are those of its rows. -/
theorem valueAt_appendAll (es : List ((ℕ × ℕ) × ℤ)) (pair : ℕ × ℕ) :
    Histogram.valueAt Prod.fst latencies (PairLatencies.empty.appendAll es).items pair =
      (((entriesOf es).filter fun e => e.1 = pair).map latencies).sum := by
  have hmerge : ∀ x e, latencies (mergeLatencies x e) = latencies x + latencies e :=
    fun x e => (Multiset.coe_add x.2 e.2).symm
  rw [items_appendAll, Histogram.valueAt_accumulateAll_eq_sum fst_mergeLatencies hmerge]
  exact zero_add _

/-- Latencies in another order are of the same pairs. -/
theorem agree_appendAll {es es' : List ((ℕ × ℕ) × ℤ)} (h : es ~ es') :
    (PairLatencies.empty.appendAll es).Agree (PairLatencies.empty.appendAll es') := by
  refine agree_of_valueAt fun pair => ?_
  rw [valueAt_appendAll, valueAt_appendAll]
  exact (((h.map _).filter _).map _).sum_eq

/-! ## The analysis of a run -/

/-- A file whose rows are in another order has the same pairs, in another order. -/
theorem exists_agree_of_perm {csv : TimingCsv} {rows : List TimingRow} (hperm : csv.rows ~ rows)
    {pairs : PairLatencies} (h : loadPairLatencies csv = .ok pairs) :
    ∃ pairs', loadPairLatencies { csv with rows := rows } = .ok pairs' ∧ pairs.Agree pairs' := by
  obtain ⟨hnames, ⟨es, hes, rfl⟩, hne⟩ := loadPairLatencies_eq_ok_iff.1 h
  obtain ⟨es', hperm', hes'⟩ := hes.perm hperm
  have hagree := agree_appendAll hperm'
  refine ⟨_, loadPairLatencies_eq_ok_iff.2 ⟨hnames, ⟨es', hes', rfl⟩, ?_⟩, hagree⟩
  rw [ne_eq, ← List.length_eq_zero_iff, ← hagree.length_eq, List.length_eq_zero_iff]
  exact hne

/-- What a run is analyzed to does not depend on the order of the rows of its file: the threshold,
    the numbers of the pairs, and which pairs are kept with what labels. A file that is not
    analyzed can fail with another error if its rows are in another order, as the first row that
    cannot be read is reported. -/
theorem rows_in_any_order {args : WorkerArgs} {runId : ℕ} {csv : TimingCsv}
    {rows : List TimingRow} (hperm : csv.rows ~ rows) {run : AnalyzedRun}
    (h : analyzeRun args runId csv = .ok run) :
    ∃ kept, run.kept ~ kept ∧
      analyzeRun args runId { csv with rows := rows } = .ok { run with kept := kept } := by
  obtain ⟨pairs, threshold, hpairs, hthreshold, hconflicts, hrun⟩ := analyzeRun_eq_ok_iff.1 h
  obtain ⟨pairs', hpairs', hagree⟩ := exists_agree_of_perm hperm hpairs
  rw [bootstrapThresholdFloat_congr hagree] at hthreshold
  have hkept := hagree.filter_map (orderFree_oneSided threshold.thresholdCycles)
    (orderFree_labelled runId threshold.thresholdCycles)
  have hdropped := hagree.countP (orderFree_not_oneSided threshold.thresholdCycles)
  rw [hrun] at hconflicts ⊢
  refine ⟨_, hkept, analyzeRun_eq_ok_iff.2
    ⟨pairs', threshold, hpairs', hthreshold, ?_, ?_⟩⟩
  · rwa [conflictCount, ← hkept.countP_eq]
  · rw [hagree.length_eq, hdropped]

/-- The rows of a run, turned around. -/
theorem rows_in_any_order_first :
    ∃ run kept, analyzeRun smallArgs 0 firstRun = .ok run ∧ run.kept ~ kept ∧
      analyzeRun smallArgs 0 { firstRun with rows := firstRun.rows.reverse } =
        .ok { run with kept := kept } := by
  have hok : (analyzeRun smallArgs 0 firstRun).toOption.isSome = true := by decide +kernel
  obtain ⟨run, hrun⟩ := Option.isSome_iff_exists.1 hok
  obtain ⟨kept, hkept, hreverse⟩ :=
    rows_in_any_order (List.reverse_perm _).symm (Except.eq_ok_of_toOption hrun)
  exact ⟨run, kept, Except.eq_ok_of_toOption hrun, hkept, hreverse⟩

end CgroupResearch
