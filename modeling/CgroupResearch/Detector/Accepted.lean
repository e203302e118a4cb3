import CgroupResearch.Detector.Round
import CgroupResearch.Profile.Overlap
import CgroupResearch.Throttle.Calls

/-!
# What the detector gives the controller accepts

The candidates of a round are normal processes that were alive, each once, in the order of their
activity, with scores between `0` and `1` (`detector_output_accepted`): the validation of the
throttle controller has nothing to object to.

The argument follows a candidate through the round:

* `active_sublist`: the active candidates are of distinct processes;
* `profileLoop_keys`, `profileLoop_mem`: the loop over the ranked ones keeps their order;
* `aggregateLoop_spec`, `overlap_mem`: the pages that a round counts are no more than those of the
  profiles it is given, and the overlap is a fraction of them.

The page counts are 64-bit words: `ExactCounts` says that the profiles of a round are small enough
for the sums to be exact.
-/

namespace CgroupResearch

open Histogram
open scoped UInt64.CommRing

/-! ## Profiles -/

section Profiles

variable {p p' a b src : BankProfile}

theorem toNat_add_le (x y : UInt64) : (x + y).toNat ≤ x.toNat + y.toNat := by
  rw [UInt64.toNat_add]
  exact Nat.mod_le _ _

theorem total_accumulate_le (p : BankProfile) (e : BankProfileEntry) :
    (p.accumulate e).total ≤ p.total + e.pageCount.toNat := by
  have hlist : ∀ es : List BankProfileEntry,
      ((Histogram.accumulate BankProfileEntry.bankClass BankProfileEntry.plus e es).map
        fun e => e.pageCount.toNat).sum ≤
        (es.map fun e => e.pageCount.toNat).sum + e.pageCount.toNat := by
    intro es
    induction es with
    | nil => exact le_of_eq (Nat.add_comm _ _)
    | cons x es ih =>
      rw [Histogram.accumulate]
      split
      · have := toNat_add_le x.pageCount e.pageCount
        rw [List.map_cons, List.map_cons, List.sum_cons, List.sum_cons,
          BankProfileEntry.plus_pageCount]
        omega
      · rw [List.map_cons, List.map_cons, List.sum_cons, List.sum_cons]
        omega
  exact hlist p.entries

/-- A profile that grew out of another by at most `n` pages. -/
structure GrownBy (n : ℕ) (p p' : BankProfile) : Prop where
  distinct : p.DistinctClasses → p'.DistinctClasses
  total_le : p'.total ≤ p.total + n

/-- Adding a class adds its pages and no more. -/
theorem profileAddBankClassCount_ok {bankClass pageCount byteCount : UInt64}
    (h : profileAddBankClassCount p bankClass pageCount byteCount = (.ok, p')) :
    GrownBy pageCount.toNat p p' := by
  have hacc : ∀ e : BankProfileEntry, GrownBy e.pageCount.toNat p (p.accumulate e) :=
    fun e => ⟨fun hd => hd.accumulate e, total_accumulate_le p e⟩
  rw [profileAddBankClassCount] at h
  split at h
  · cases h
    exact ⟨id, Nat.le_add_right _ _⟩
  · have hentry := addToEntry_eq ⟨bankClass, pageCount, byteCount⟩ p.entries
    dsimp only at hentry
    rw [hentry] at h
    by_cases hmem : bankClass ∈ p.entries.map BankProfileEntry.bankClass
    · rw [if_pos hmem] at h
      cases h
      exact hacc ⟨bankClass, pageCount, byteCount⟩
    · rw [if_neg hmem] at h
      dsimp only at h
      split at h
      · cases h
      · cases h
        have := hacc ⟨bankClass, pageCount, byteCount⟩
        rwa [BankProfile.accumulate, accumulate_of_notMem hmem] at this

/-- Merging entries adds their pages and no more. -/
theorem mergeEntries_ok {es : List BankProfileEntry} (h : mergeEntries p es = (.ok, p')) :
    GrownBy (es.map fun e => e.pageCount.toNat).sum p p' := by
  induction es generalizing p with
  | nil =>
    cases h
    exact ⟨id, le_rfl⟩
  | cons e es ih =>
    rw [mergeEntries] at h
    rcases hadd : profileAddBankClassCount p e.bankClass e.pageCount e.byteCount with ⟨rc, q⟩
    rw [hadd] at h
    cases rc with
    | ok =>
      have hfirst := profileAddBankClassCount_ok hadd
      have hrest := ih h
      refine ⟨hrest.distinct ∘ hfirst.distinct, ?_⟩
      have h₁ := hfirst.total_le
      have h₂ := hrest.total_le
      rw [List.map_cons, List.sum_cons]
      omega
    | _ => exact absurd (congrArg Prod.fst h) nofun

/-- Merging a profile adds its pages and no more. -/
theorem bankProfileMerge_ok (h : bankProfileMerge p src = (.ok, p')) : GrownBy src.total p p' := by
  rw [bankProfileMerge] at h
  split at h
  · cases h
    exact ⟨id, Nat.le_add_right _ _⟩
  split at h
  · cases h
  split at h
  · cases h
  dsimp only at h
  -- the page size and the pid do not matter
  set q : BankProfile :=
    { (if p.pageSize = 0 then { p with pageSize := src.pageSize } else p) with pid := 0 } with hq
  have hentries : q.entries = p.entries := by
    rw [hq]
    split <;> rfl
  rcases hm : mergeEntries q src.entries with ⟨rc, q'⟩
  rw [hm] at h
  cases rc with
  | ok =>
    have hgrown := mergeEntries_ok hm
    cases h
    refine ⟨fun hd => hgrown.distinct (hd.congr hentries), ?_⟩
    have hle := hgrown.total_le
    rw [BankProfile.total, BankProfile.total, hentries] at hle
    exact hle
  | _ => cases h

/-- The pages of the second profile in classes of the first, and the rest of its pages, are no
    more than all of them. -/
theorem sum_leftover_le (ha : a.DistinctClasses) :
    (a.entries.map fun e => b.pages e.bankClass).sum +
      (b.entries.map fun e => (leftover a e).toNat).sum ≤ b.total := by
  have hfirst : (a.entries.map fun e => b.pages e.bankClass).sum = ∑ c ∈ a.classes, b.pages c := by
    rw [BankProfile.classes, List.sum_toFinset _ ha, List.map_map]
    rfl
  rw [hfirst, BankProfile.total]
  simp only [toNat_leftover, BankProfile.pages_eq b]
  induction b.entries with
  | nil => simp
  | cons e es ih =>
    -- an entry counts for its class, or is left over
    have hclass :
        ∑ c ∈ a.classes,
          valueAt BankProfileEntry.bankClass (fun e => e.pageCount.toNat) (e :: es) c ≤
        (if e.bankClass ∈ a.classes then e.pageCount.toNat else 0) +
          ∑ c ∈ a.classes,
            valueAt BankProfileEntry.bankClass (fun e => e.pageCount.toNat) es c := by
      rw [← Finset.sum_ite_eq a.classes e.bankClass fun _ => e.pageCount.toNat,
        ← Finset.sum_add_distrib]
      refine Finset.sum_le_sum fun c _ => ?_
      rw [valueAt_cons]
      split
      · exact Nat.le_add_right _ _
      · exact Nat.le_add_left _ _
    rw [List.map_cons, List.sum_cons, List.map_cons, List.sum_cons]
    by_cases hmem : e.bankClass ∈ a.classes
    · rw [if_pos hmem] at hclass ⊢
      omega
    · rw [if_neg hmem] at hclass ⊢
      omega

/-- An overlap is a fraction, if the pages of the two profiles can be counted. -/
theorem overlap_mem (ha : a.DistinctClasses) (hsum : a.total + b.total < 2 ^ 64) {score : ℚ}
    {common : UInt64} (h : bankProfileOverlapScore a b = .ok (score, common)) :
    score ∈ Set.Icc 0 1 := by
  have hle : (a.entries.map fun e => (minCount b e).toNat).sum ≤
      (a.entries.map fun e => (maxCount b e).toNat).sum := by
    refine List.sum_le_sum fun e _ => ?_
    rw [toNat_minCount, toNat_maxCount]
    exact min_le_max
  have hmax : (a.entries.map fun e => (maxCount b e).toNat).sum ≤
      a.total + (a.entries.map fun e => b.pages e.bankClass).sum := by
    rw [BankProfile.total, ← List.sum_map_add]
    refine List.sum_le_sum fun e _ => ?_
    rw [toNat_maxCount]
    exact max_le_add_of_nonneg (Nat.zero_le _) (Nat.zero_le _)
  have hrest := sum_leftover_le (b := b) ha
  -- no sum wraps around
  have hinter : (overlapCounts a b).1.toNat =
      (a.entries.map fun e => (minCount b e).toNat).sum := by
    have hlist : ((a.entries.map (minCount b)).map UInt64.toNat).sum =
        (a.entries.map fun e => (minCount b e).toNat).sum := by rw [List.map_map]; rfl
    rw [overlapCounts_eq, ← hlist]
    exact toNat_sum (by omega)
  have hunion : (overlapCounts a b).2.toNat = (a.entries.map fun e => (maxCount b e).toNat).sum +
      (b.entries.map fun e => (leftover a e).toNat).sum := by
    have hlist : ((a.entries.map (maxCount b) ++ b.entries.map (leftover a)).map UInt64.toNat).sum =
        (a.entries.map fun e => (maxCount b e).toNat).sum +
          (b.entries.map fun e => (leftover a e).toNat).sum := by
      rw [List.map_append, List.sum_append, List.map_map, List.map_map]
      rfl
    rw [overlapCounts_eq, ← hlist]
    exact toNat_sum (by omega)
  rw [bankProfileOverlapScore] at h
  split at h
  · cases h
  dsimp only at h
  split at h
  · cases h
  rename_i hne
  have hpos : 0 < (overlapCounts a b).2.toNat :=
    UInt64.lt_iff_toNat_lt.1 (UInt64.pos_iff_ne_zero.2 hne)
  cases h
  refine ⟨by positivity, ?_⟩
  rw [div_le_one (by exact_mod_cast hpos)]
  have : (overlapCounts a b).1.toNat ≤ (overlapCounts a b).2.toNat := by omega
  exact_mod_cast this

end Profiles

/-! ## The protected processes -/

/-- The profiles of the protected processes that a round builds, from the entry `i` on. -/
def protectedProfiles (env : RoundEnv) (mapping : DramMapping) (cfg : DetectorConfig) :
    (i : ℕ) → List InterferenceProcessState → List BankProfile
  | _, [] => []
  | i, p :: ps =>
    let built := env.protectedBuild i p.pid mapping cfg.profileConfig
    if p.alive = true ∧ p.role = .processProtected ∧ built.1 = .ok then
      built.2 :: protectedProfiles env mapping cfg (i + 1) ps
    else
      protectedProfiles env mapping cfg (i + 1) ps

/-- The pages of profiles. -/
def totalPages (profiles : List BankProfile) : ℕ := (profiles.map BankProfile.total).sum

/-- The pages of the protected processes and of a normal one, together, can be counted. -/
def ExactCounts (env : RoundEnv) (processes : List InterferenceProcessState)
    (mapping : DramMapping) (cfg : DetectorConfig) : Prop :=
  ∀ rank pid, totalPages (protectedProfiles env mapping cfg 0 processes) +
    (env.normalBuild rank pid mapping cfg.profileConfig).2.total < 2 ^ 64

section Round

variable {env : RoundEnv} {processes : List InterferenceProcessState} {mapping : DramMapping}
  {cfg : DetectorConfig}

/-- The aggregate has no more pages than the profiles it is made of. -/
theorem aggregateLoop_spec {ps : List InterferenceProcessState} {i : ℕ} {p p' : BankProfile}
    {stats stats' : DetectorStats}
    (h : aggregateLoop env mapping cfg i ps p stats = (.ok, p', stats')) :
    GrownBy (totalPages (protectedProfiles env mapping cfg i ps)) p p' := by
  induction ps generalizing i p stats with
  | nil =>
    cases h
    exact ⟨id, le_rfl⟩
  | cons s ps ih =>
    rw [aggregateLoop] at h
    rw [protectedProfiles]
    by_cases halive : s.alive = false
    · rw [if_pos halive] at h
      rw [if_neg (by simp [halive])]
      exact ih h
    by_cases hrole : s.role ≠ .processProtected
    · rw [if_neg halive, if_pos hrole] at h
      rw [if_neg (by simp [hrole])]
      exact ih h
    rw [if_neg halive, if_neg hrole] at h
    rw [Bool.not_eq_false] at halive
    rw [not_not] at hrole
    rcases hbuild : env.protectedBuild i s.pid mapping cfg.profileConfig with ⟨rc, profile⟩
    rw [hbuild] at h
    by_cases hrc : rc = .ok
    · -- A process whose profile was built: its pages come on top of those of the rest.
      subst hrc
      rw [if_pos ⟨halive, hrole, rfl⟩, totalPages, List.map_cons, List.sum_cons]
      dsimp only at h
      rcases hmerge : bankProfileMerge p profile with ⟨rc, q⟩
      rw [hmerge] at h
      cases rc with
      | ok =>
        have hfirst := bankProfileMerge_ok hmerge
        have hrest := ih h
        refine ⟨hrest.distinct ∘ hfirst.distinct, ?_⟩
        have h₁ := hfirst.total_le
        have h₂ := hrest.total_le
        rw [totalPages] at h₂
        dsimp only
        omega
      | _ => exact absurd (congrArg Prod.fst h) nofun
    · -- A build that fails is counted and skipped, and does not end the loop.
      rw [if_neg fun hall => hrc hall.2.2]
      cases rc with
      | ok => exact absurd rfl hrc
      | _ => exact ih h

/-- The aggregate has each class once, and no more pages than the profiles. -/
theorem buildProtectedAggregateProfile_spec {aggregate : BankProfile} {stats stats' : DetectorStats}
    (h : buildProtectedAggregateProfile env processes mapping cfg stats =
      (.ok, aggregate, stats')) :
    aggregate.DistinctClasses ∧
      aggregate.total ≤ totalPages (protectedProfiles env mapping cfg 0 processes) := by
  rw [buildProtectedAggregateProfile] at h
  rcases hloop : aggregateLoop env mapping cfg 0 processes bankProfileReset stats with
    ⟨rc, p, stats₁⟩
  rw [hloop] at h
  cases rc with
  | ok =>
    dsimp only at h
    split at h
    · exact absurd (congrArg Prod.fst h) nofun
    · cases h
      obtain ⟨hdistinct, hle⟩ := aggregateLoop_spec hloop
      exact ⟨hdistinct List.nodup_nil, hle.trans_eq (Nat.zero_add _)⟩
  | _ => exact absurd (congrArg Prod.fst h) nofun

/-! ## The normal processes -/

/-- The active candidates are of processes alive, in the order of their entries. -/
theorem active_sublist (ps : List InterferenceProcessState) (i : ℕ) (stats : DetectorStats) :
    (((collectLoop env cfg i ps stats).1.filterMap Turn.active).map ActiveCandidate.pid).Sublist
      ((ps.filter InterferenceProcessState.alive).map InterferenceProcessState.pid) := by
  induction ps generalizing i stats with
  | nil => exact .slnil
  | cons p ps ih =>
    rw [collectLoop]
    have hspec := collectTurn_spec (env.stat i) cfg p stats
    have hrest := ih (i + 1) (collectTurn (env.stat i) cfg p stats).stats
    cases hactive : (collectTurn (env.stat i) cfg p stats).active with
    | none =>
      rw [List.filterMap_cons_none hactive]
      exact hrest.trans (((List.sublist_cons_self p ps).filter _).map _)
    | some a =>
      rw [hactive] at hspec
      rw [List.filterMap_cons_some hactive]
      generalize (collectTurn (env.stat i) cfg p stats).state = q at hspec
      generalize (collectTurn (env.stat i) cfg p stats).sample = now at hspec
      cases hspec with
      | rated halive hrole hhas hnow hdelta =>
        rw [List.filter_cons_of_pos halive, List.map_cons, List.map_cons]
        exact hrest.cons_cons p.pid

/-- An active candidate is a normal process alive, with a rating. -/
theorem active_mem {ps : List InterferenceProcessState} {i : ℕ} {stats : DetectorStats}
    {a : ActiveCandidate} (h : a ∈ (collectLoop env cfg i ps stats).1.filterMap Turn.active) :
    ∃ p ∈ ps, p.alive = true ∧ p.role = .processNormal ∧ p.pid = a.pid ∧ Rated a.delta := by
  obtain ⟨k, p, t, hp, -, hspec⟩ := active_turn h
  generalize t.state = q at hspec
  generalize t.sample = now at hspec
  cases hspec with
  | rated halive hrole hhas hnow hdelta =>
    exact ⟨p, List.mem_of_getElem? hp, halive, hrole, rfl, (computeDelta_ok hdelta).2.1⟩

/-! ## The candidates -/

/-- The candidates are some of the active ones, in their order. -/
theorem profileLoop_keys (aggregate : BankProfile) (as : List ActiveCandidate) (i : ℕ)
    (stats : DetectorStats) :
    ((profileLoop env mapping cfg aggregate i as stats).1.map
        fun c => (c.activityScore, c.pid)).Sublist
      (as.map fun a => (a.delta.totalScore, a.pid)) := by
  induction as generalizing i stats with
  | nil => exact .slnil
  | cons a as ih =>
    have hskip : ∀ stats, ((profileLoop env mapping cfg aggregate (i + 1) as stats).1.map
        fun c => (c.activityScore, c.pid)).Sublist
          ((a :: as).map fun a => (a.delta.totalScore, a.pid)) :=
      fun stats => (ih (i + 1) stats).cons _
    rw [profileLoop]
    rcases env.normalBuild i a.pid mapping cfg.profileConfig with ⟨rc, profile⟩
    cases rc with
    | ok =>
      dsimp only
      cases bankProfileOverlapScore aggregate profile with
      | error e => exact hskip _
      | ok r => exact (ih (i + 1) _).cons_cons _
    | _ => exact hskip _

/-- A candidate made of one of the active ones, with the overlap of its profile. -/
def DetectedFrom (env : RoundEnv) (mapping : DramMapping) (cfg : DetectorConfig)
    (aggregate : BankProfile) (as : List ActiveCandidate) (c : DetectedCandidate) : Prop :=
  ∃ a ∈ as, ∃ rank score common,
    bankProfileOverlapScore aggregate (env.normalBuild rank a.pid mapping cfg.profileConfig).2 =
      .ok (score, common) ∧ c = detectedCandidate cfg a score common

/-- A candidate of the loop is detected from an active process. -/
theorem profileLoop_mem {aggregate : BankProfile} {as : List ActiveCandidate} {i : ℕ}
    {stats : DetectorStats} {c : DetectedCandidate}
    (h : c ∈ (profileLoop env mapping cfg aggregate i as stats).1) :
    DetectedFrom env mapping cfg aggregate as c := by
  induction as generalizing i stats with
  | nil => exact absurd h List.not_mem_nil
  | cons a as ih =>
    have hskip : ∀ {stats}, c ∈ (profileLoop env mapping cfg aggregate (i + 1) as stats).1 →
        DetectedFrom env mapping cfg aggregate (a :: as) c := by
      intro stats h
      obtain ⟨a', ha', hrest⟩ := ih h
      exact ⟨a', List.mem_cons_of_mem a ha', hrest⟩
    rw [profileLoop] at h
    rcases hbuild : env.normalBuild i a.pid mapping cfg.profileConfig with ⟨rc, profile⟩
    rw [hbuild] at h
    cases rc with
    | ok =>
      dsimp only at h
      cases hscore : bankProfileOverlapScore aggregate profile with
      | error e =>
        -- A candidate without a score is left out, and the loop goes on with the next.
        rw [hscore] at h
        exact hskip h
      | ok r =>
        rw [hscore] at h
        rcases List.mem_cons.1 h with rfl | h
        · exact ⟨a, List.mem_cons_self, i, r.1, r.2, by rw [hbuild]; exact hscore, rfl⟩
        · exact hskip h
    | _ => exact hskip h

/-! ## The whole round -/

/-- What is to hold of the candidates of a round. -/
structure AcceptedSpec (processes : List InterferenceProcessState) (cfg : DetectorConfig)
    (outCap : ℕ) (out : List DetectedCandidate) : Prop where
  /-- They are normal processes that were alive, -/
  normal : ∀ c ∈ out, ∃ p ∈ processes, p.pid = c.pid ∧ p.alive = true ∧ p.role = .processNormal
  /-- so that none is a protected process, -/
  not_protected : ∀ c ∈ out, ∀ p ∈ processes, p.alive = true → p.pid = c.pid →
    p.role ≠ .processProtected
  /-- each of them once. -/
  distinct : (out.map DetectedCandidate.pid).Nodup
  /-- Scores are between `0` and `1`, the final one below the other two. -/
  activityScore : ∀ c ∈ out, c.activityScore ∈ Set.Icc 0 1
  overlapScore : ∀ c ∈ out, c.overlapScore ∈ Set.Icc 0 1
  finalScore : ∀ c ∈ out, c.finalScore ∈ Set.Icc 0 1
  finalScore_le : ∀ c ∈ out, c.finalScore ≤ min c.activityScore c.overlapScore
  /-- There are no more of them than asked for. -/
  length_le_cap : out.length ≤ outCap
  length_le_max : cfg.maxNormalCandidates ≠ 0 → out.length ≤ cfg.maxNormalCandidates
  /-- They come by their activity, and then by their pid. -/
  ordered : out.Pairwise fun a b =>
    b.activityScore < a.activityScore ∨ (a.activityScore = b.activityScore ∧ a.pid < b.pid)
  /-- The controller does not reject them. -/
  accepted : ∀ controller, prevalidateCandidates controller
    (out.map DetectedCandidate.toInterferenceCandidate) ≠ .errInvalidArg

/-- The limit is within the buffer, and within the one that is configured. -/
theorem candidateLimit_le (cfg : DetectorConfig) (n outCap : ℕ) :
    candidateLimit cfg n outCap ≤ outCap ∧
      (cfg.maxNormalCandidates ≠ 0 → candidateLimit cfg n outCap ≤ cfg.maxNormalCandidates) := by
  rw [candidateLimit]
  split <;> split <;> omega

theorem clamp01_of_mem {q : ℚ} (h : q ∈ Set.Icc 0 1) : clamp01 q = q := by
  rw [clamp01, if_neg (not_lt.2 h.1), if_neg (not_lt.2 h.2)]

/-- A score between 0 and 1 is valid. -/
theorem validScore_ofRat {q : ℚ} (h : q ∈ Set.Icc 0 1) : validScore (.ofRat q) = true := by
  simp [validScore, Double.ofRat, Double.isfinite, Double.lt, Double.value, h.1, h.2]

/-- A higher score comes first, and of equal scores the lower pid. -/
theorem compare_le_zero_iff {a b : ActiveCandidate} :
    compareActiveCandidateDesc a b ≤ 0 ↔ b.delta.totalScore < a.delta.totalScore ∨
      (a.delta.totalScore = b.delta.totalScore ∧ a.pid ≤ b.pid) := by
  rw [compareActiveCandidateDesc]
  rcases lt_trichotomy a.delta.totalScore b.delta.totalScore with h | h | h
  · simp [h, h.not_gt, h.ne]
  · rcases lt_trichotomy a.pid b.pid with hp | hp | hp
    · simp [h, hp, hp.not_gt, hp.le]
    · simp [h, hp]
    · simp [h, hp]
  · simp [h, h.not_gt]

theorem detectedCandidate_scores {a : ActiveCandidate} (ha : Rated a.delta) {score : ℚ}
    (hscore : score ∈ Set.Icc 0 1) (common : UInt64) :
    let c := detectedCandidate cfg a score common
    c.activityScore ∈ Set.Icc 0 1 ∧ c.overlapScore ∈ Set.Icc 0 1 ∧ c.finalScore ∈ Set.Icc 0 1 ∧
      c.finalScore ≤ min c.activityScore c.overlapScore := by
  have hactivity := ha.totalScore_mem
  have hfinal : computeFinalScore a.delta.totalScore score = a.delta.totalScore * score := by
    rw [computeFinalScore, clamp01_of_mem hactivity, clamp01_of_mem hscore]
  have hle : a.delta.totalScore * score ≤ min a.delta.totalScore score :=
    le_min (mul_le_of_le_one_right hactivity.1 hscore.2)
      (mul_le_of_le_one_left hscore.1 hactivity.2)
  refine ⟨hactivity, hscore, ?_, ?_⟩
  · rw [detectedCandidate, hfinal]
    exact ⟨mul_nonneg hactivity.1 hscore.1, (hle.trans (min_le_right _ _)).trans hscore.2⟩
  · rw [detectedCandidate, hfinal]
    exact hle

/-- The validation accepts candidates of distinct processes with proper scores. -/
theorem prevalidateCandidates_of_validList {candidates : List InterferenceCandidate}
    (h : ValidList candidates) (controller : ThrottleController) :
    prevalidateCandidates controller candidates ≠ .errInvalidArg := by
  have hloop := (prevalidateLoop_eq_some_iff controller.records [] candidates 0 _).2
    ⟨h, fun _ _ => List.not_mem_nil, rfl⟩
  rw [prevalidateCandidates, hloop]
  dsimp only
  split <;> exact nofun

/-- The order of candidates, by their score and their pid: the higher score first. -/
def Precedes (k k' : ℚ × ℤ) : Prop := k'.1 < k.1 ∨ (k.1 = k'.1 ∧ k.2 < k'.2)

/-- Active candidates, ranked. -/
structure Ranked (processes : List InterferenceProcessState) (as : List ActiveCandidate) :
    Prop where
  distinct : (as.map ActiveCandidate.pid).Nodup
  ordered : (as.map fun a => (a.delta.totalScore, a.pid)).Pairwise Precedes
  active : ∀ a ∈ as, ∃ p ∈ processes,
    p.alive = true ∧ p.role = .processNormal ∧ p.pid = a.pid ∧ Rated a.delta

/-- The first of the active processes are ranked. -/
theorem ranked_collected (hdistinct : ((processes.filter InterferenceProcessState.alive).map
      InterferenceProcessState.pid).Nodup) (stats : DetectorStats) (n : ℕ) :
    Ranked processes ((collectActiveNormalCandidates env processes cfg stats).active.take n) := by
  set found := (collectLoop env cfg 0 processes stats).1.filterMap Turn.active
  have hsub : ((env.qsort.sort found).take n).Sublist (env.qsort.sort found) :=
    List.take_sublist _ _
  have hnodup : ((env.qsort.sort found).map ActiveCandidate.pid).Nodup := by
    rw [((env.qsort.perm found).map _).nodup_iff]
    exact (active_sublist processes 0 stats).nodup hdistinct
  refine ⟨(hsub.map _).nodup hnodup, ?_, fun a ha =>
    active_mem (env.qsort.mem_sort.1 (hsub.subset ha))⟩
  -- equal scores are told apart by the pids
  have hpairs := (env.qsort.sorted found).and (List.pairwise_map.1 hnodup)
  refine List.pairwise_map.2 ((hpairs.sublist hsub).imp fun {a b} hab => ?_)
  exact (compare_le_zero_iff.1 hab.1).imp id fun h => ⟨h.1, lt_of_le_of_ne h.2 hab.2⟩

/-- Candidates made of ranked ones, with proper overlaps, are accepted. -/
theorem accepted_of_ranked (hpos : ∀ p ∈ processes, p.alive = true → 0 < p.pid)
    (hdistinct : ((processes.filter InterferenceProcessState.alive).map
      InterferenceProcessState.pid).Nodup) {as : List ActiveCandidate} {n outCap : ℕ}
    (has : Ranked processes as) (hlen : as.length ≤ candidateLimit cfg n outCap)
    {out : List DetectedCandidate} (hkeys : (out.map fun c => (c.activityScore, c.pid)).Sublist
      (as.map fun a => (a.delta.totalScore, a.pid)))
    (hfrom : ∀ c ∈ out, ∃ a ∈ as, ∃ score ∈ Set.Icc (0 : ℚ) 1, ∃ common,
      c = detectedCandidate cfg a score common) : AcceptedSpec processes cfg outCap out := by
  have hnormal : ∀ c ∈ out, ∃ p ∈ processes,
      p.pid = c.pid ∧ p.alive = true ∧ p.role = .processNormal := by
    intro c hc
    obtain ⟨a, ha, score, -, common, rfl⟩ := hfrom c hc
    obtain ⟨p, hp, halive, hrole, hpid, -⟩ := has.active a ha
    exact ⟨p, hp, hpid, halive, hrole⟩
  have hscores : ∀ c ∈ out, c.activityScore ∈ Set.Icc 0 1 ∧ c.overlapScore ∈ Set.Icc 0 1 ∧
      c.finalScore ∈ Set.Icc 0 1 ∧ c.finalScore ≤ min c.activityScore c.overlapScore := by
    intro c hc
    obtain ⟨a, ha, score, hscore, common, rfl⟩ := hfrom c hc
    obtain ⟨p, -, -, -, -, hrated⟩ := has.active a ha
    exact detectedCandidate_scores hrated hscore common
  have hpids : (out.map DetectedCandidate.pid).Nodup := by
    have hsub := hkeys.map Prod.snd
    rw [List.map_map, List.map_map] at hsub
    exact hsub.nodup has.distinct
  have hcount : out.length ≤ candidateLimit cfg n outCap := by
    have := hkeys.length_le
    rw [List.length_map, List.length_map] at this
    exact this.trans hlen
  obtain ⟨hcap, hmax⟩ := candidateLimit_le cfg n outCap
  refine ⟨hnormal, ?_, hpids, fun c hc => (hscores c hc).1, fun c hc => (hscores c hc).2.1,
    fun c hc => (hscores c hc).2.2.1, fun c hc => (hscores c hc).2.2.2, hcount.trans hcap,
    fun h => hcount.trans (hmax h), List.pairwise_map.1 (has.ordered.sublist hkeys),
    prevalidateCandidates_of_validList ⟨?_, ?_⟩⟩
  · -- another entry alive of this pid would be the same one
    intro c hc p hp halive hpid
    obtain ⟨q, hq, hqpid, hqalive, hqrole⟩ := hnormal c hc
    have hsame : p = q := List.inj_on_of_nodup_map hdistinct (List.mem_filter.2 ⟨hp, halive⟩)
      (List.mem_filter.2 ⟨hq, hqalive⟩) (hpid.trans hqpid.symm)
    rw [hsame, hqrole]
    exact nofun
  · intro d hd
    obtain ⟨c, hc, rfl⟩ := List.mem_map.1 hd
    obtain ⟨p, hp, hpid, halive, -⟩ := hnormal c hc
    have hcpid : 0 < c.pid := hpid ▸ hpos p hp halive
    obtain ⟨hactivity, hoverlap, hfinal, -⟩ := hscores c hc
    simp [candidateValid, DetectedCandidate.toInterferenceCandidate, hcpid,
      validScore_ofRat hactivity, validScore_ofRat hoverlap, validScore_ofRat hfinal]
  · rw [List.map_map]
    exact hpids

/-- The candidates of every round are such that the controller accepts them, and a round that
    fails gives none. -/
theorem detector_output_accepted
    (hpos : ∀ p ∈ processes, p.alive = true → 0 < p.pid)
    (hdistinct : ((processes.filter InterferenceProcessState.alive).map
      InterferenceProcessState.pid).Nodup)
    (hexact : ExactCounts env processes mapping cfg) (outCap : ℕ) :
    let r := interferenceDetectorRunOnce env processes mapping cfg outCap
    (r.rc = .ok → r.outCount = r.out.length ∧ AcceptedSpec processes cfg outCap r.out) ∧
      (r.rc ≠ .ok → r.outCount = 0) := by
  dsimp only
  rcases runOnce_cases env processes mapping cfg outCap with
    ⟨rc, stats, hrc, hr⟩ | ⟨stats, aggregate, stats', hbuild, hr⟩
  · rw [hr]
    exact ⟨fun h => absurd h hrc, fun _ => rfl⟩
  dsimp only at hr
  rw [hr]
  refine ⟨fun _ => ⟨rfl, ?_⟩, fun h => absurd rfl h⟩
  obtain ⟨hagg, htotal⟩ := buildProtectedAggregateProfile_spec hbuild
  refine accepted_of_ranked hpos hdistinct (ranked_collected hdistinct stats' _)
    (List.length_take_le _ _) (profileLoop_keys aggregate _ 0 _) fun c hc => ?_
  obtain ⟨a, ha, rank, score, common, hscore, rfl⟩ := profileLoop_mem hc
  have hfit := hexact rank a.pid
  exact ⟨a, ha, score, overlap_mem hagg (by omega) hscore, common, rfl⟩

end Round

/-- The order of the candidates is one that can be sorted by. -/
def rankingSort : Qsort compareActiveCandidateDesc :=
  .insertion _
    (fun a b c hab hbc => by
      rw [compare_le_zero_iff] at hab hbc ⊢
      rcases hab with hab | ⟨hab, hpid⟩
      · rcases hbc with hbc | ⟨hbc, -⟩
        · exact .inl (hbc.trans hab)
        · exact .inl (hbc ▸ hab)
      · rcases hbc with hbc | ⟨hbc, hpid'⟩
        · exact .inl (hab ▸ hbc)
        · exact .inr ⟨hab.trans hbc, hpid.trans hpid'⟩)
    fun a b => by
      rw [compare_le_zero_iff, compare_le_zero_iff]
      rcases lt_trichotomy a.delta.totalScore b.delta.totalScore with h | h | h
      · exact .inr (.inl h)
      · exact (le_total a.pid b.pid).imp (fun hp => .inr ⟨h, hp⟩) fun hp => .inr ⟨h.symm, hp⟩
      · exact .inl (.inl h)

/-- A profile of one class. -/
def oneClassProfile (pid : ℤ) (pageCount : UInt64) : BankProfile :=
  { bankProfileReset with
    pid := pid
    pageSize := 4096
    entries := [⟨0, pageCount, 4096 * pageCount⟩] }

/-- A process that runs, two seconds after it started to be watched. -/
def runningStat : StatEnv where
  pageSize := 4096
  clockTicks := 100
  clock := some (2, 0)
  stat := some "11 (worker) R 1 1 1 0 0 0 500 0 0 0 60 0 0 0 20 0 1 0 7 0 1000\n".toList

/-- A system in which every profile has one class. -/
def quietEnv : RoundEnv where
  stat _ := runningStat
  protectedBuild _ pid _ _ := (.ok, oneClassProfile pid 4)
  normalBuild _ pid _ _ := (.ok, oneClassProfile pid 2)
  allocated := true
  qsort := rankingSort

/-- A protected process, and a normal one that has been sampled. -/
def watchedProcesses : List InterferenceProcessState :=
  [{ interferenceProcessStateReset with pid := 10, role := .processProtected, alive := true },
    { interferenceProcessStateReset with
      pid := 11
      alive := true
      hasActivitySample := true
      activitySample := { procActivitySampleReset with
        pid := 11, valid := true, timestampNs := 1, starttimeTicks := 7 } }]

/-- The counts of the quiet system are exact. -/
theorem quietEnv_exact :
    ExactCounts quietEnv watchedProcesses ⟨[1], [], true⟩ detectorConfigDefault :=
  fun _ _ => (by decide +kernel : totalPages (protectedProfiles quietEnv ⟨[1], [], true⟩
    detectorConfigDefault 0 watchedProcesses) + (oneClassProfile 11 2).total < 2 ^ 64)

/-- A round with a candidate. -/
theorem detector_output_accepted_two :
    let r := interferenceDetectorRunOnce quietEnv watchedProcesses ⟨[1], [], true⟩
      detectorConfigDefault 4
    r.rc = .ok ∧ r.outCount = 1 ∧ AcceptedSpec watchedProcesses detectorConfigDefault 4 r.out :=
  have hok : (interferenceDetectorRunOnce quietEnv watchedProcesses ⟨[1], [], true⟩
    detectorConfigDefault 4).rc = .ok := by decide +kernel
  ⟨hok, by decide +kernel,
    ((detector_output_accepted (by decide) (by decide) quietEnv_exact 4).1 hok).2⟩

end CgroupResearch
