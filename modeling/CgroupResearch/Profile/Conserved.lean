import CgroupResearch.Profile.Atomic
import CgroupResearch.Profile.Build

/-!
# The counters of a profile balance

Every sampled page is counted once: as translated, or under the reason it was not. Every
translated page is in the histogram, or had no class. `Balanced` says so of a profile, and
`Conserved` adds that no more pages are sampled than seen. A page keeps the balance
(`samplePage_inRegion`), and so do the loops over a region (`sampleLoop_conserved`) and over
the lines (`mapsLoop_conserved`), and a merge (`Conserved.add`).

A region is seen as a whole before its pages are sampled: within its loop, the pages still to
be sampled are set aside (`InRegion`). This also keeps the counters from wrapping around, as
long as the pages of all the selected regions are counted by a word. The bytes of a class may be
more than a word counts: within the loops they are those of its pages modulo `2 ^ 64`.
-/

namespace CgroupResearch

open Histogram CString
open scoped UInt64.CommRing

/-- The counters of a profile balance with each other and with the histogram. -/
structure Balanced (p : BankProfile) : Prop where
  considered : p.counters.pagesConsidered = p.counters.pagesSampled
  sampled : p.counters.pagesSampled.toNat = p.counters.pagesTranslated.toNat +
    p.counters.pagesSkippedNotPresent.toNat + p.counters.pagesSkippedSwapped.toNat +
    p.counters.pagesSkippedPfnUnavailable.toNat + p.counters.pagesSkippedTranslationError.toNat
  translated : (p.entries.map fun e => e.pageCount.toNat).sum +
    p.counters.pagesSkippedMappingError.toNat = p.counters.pagesTranslated.toNat
  entry : ∀ e ∈ p.entries, 1 ≤ e.pageCount.toNat ∧ e.byteCount = e.pageCount * p.pageSize
  regions : p.counters.regionsSelected ≤ p.counters.regionsSeen
  room : p.entries.length ≤ bankProfileMaxEntries
  distinct : p.DistinctClasses

/-- Moreover no more pages are sampled than seen, and the bytes of the classes are those of their
    pages. -/
structure Conserved (p : BankProfile) : Prop extends Balanced p where
  seen : p.counters.pagesSampled ≤ p.counters.pagesSeen
  bytes : ∀ e ∈ p.entries, e.byteCount.toNat = e.pageCount.toNat * p.pageSize.toNat

/-! ## Entries -/

section

variable {e : BankProfileEntry} {entries : List BankProfileEntry}

/-- The pages of the histogram, once an entry is accumulated. -/
theorem sum_pageCount_accumulate (e : BankProfileEntry) (entries : List BankProfileEntry)
    (h : (entries.map fun e => e.pageCount.toNat).sum + e.pageCount.toNat < 2 ^ 64) :
    ((accumulate BankProfileEntry.bankClass BankProfileEntry.plus e entries).map
        fun e => e.pageCount.toNat).sum =
      (entries.map fun e => e.pageCount.toNat).sum + e.pageCount.toNat := by
  induction entries with
  | nil => simp [accumulate]
  | cons x entries ih =>
    rw [List.map_cons, List.sum_cons] at h
    rw [accumulate]
    split
    · have hplus : (x.plus e).pageCount.toNat = x.pageCount.toNat + e.pageCount.toNat := by
        rw [BankProfileEntry.plus_pageCount, UInt64.toNat_add, Nat.mod_eq_of_lt (by omega)]
      simp only [List.map_cons, List.sum_cons, hplus]
      omega
    · rw [List.map_cons, List.sum_cons, ih (by omega), List.map_cons, List.sum_cons]
      omega

/-- What holds of every entry, once an entry is accumulated. -/
theorem forall_mem_accumulate {P : BankProfileEntry → Prop} (h : ∀ x ∈ entries, P x) (he : P e)
    (hplus : ∀ x ∈ entries, P x → P (x.plus e)) :
    ∀ x ∈ accumulate BankProfileEntry.bankClass BankProfileEntry.plus e entries, P x := by
  induction entries with
  | nil => exact List.forall_mem_singleton.2 he
  | cons x entries ih =>
    rw [List.forall_mem_cons] at h hplus
    rw [accumulate]
    split
    · exact List.forall_mem_cons.2 ⟨hplus.1 h.1, h.2⟩
    · exact List.forall_mem_cons.2 ⟨h.1, ih h.2 hplus.2⟩

theorem pageCount_le_sum (he : e ∈ entries) :
    e.pageCount.toNat ≤ (entries.map fun e => e.pageCount.toNat).sum :=
  List.le_sum_of_mem (List.mem_map_of_mem he)

end

/-! ## Pages -/

/-- The balance within the loop over a region, with `left` pages of it set aside. -/
structure InRegion (left : ℕ) (p : BankProfile) : Prop extends Balanced p where
  ahead : p.counters.pagesSampled.toNat + left ≤ p.counters.pagesSeen.toNat

section

variable {p p' : BankProfile} {n : ℕ}

theorem toNat_add_one {x : UInt64} (h : x.toNat + 1 < 2 ^ 64) : (x + 1).toNat = x.toNat + 1 := by
  rw [UInt64.toNat_add]
  exact Nat.mod_eq_of_lt h

theorem InRegion.lt (h : InRegion (n + 1) p) : p.counters.pagesSampled.toNat + 1 < 2 ^ 64 := by
  have hahead := h.ahead
  have hseen := p.counters.pagesSeen.toNat_lt
  omega

/-- The profile with one more page considered and sampled. -/
def considerPage (p : BankProfile) : BankProfile :=
  { p with
    counters := { p.counters with
      pagesConsidered := p.counters.pagesConsidered + 1
      pagesSampled := p.counters.pagesSampled + 1 } }

/-- A page that does not translate is counted under its reason. -/
theorem InRegion.skip (h : InRegion (n + 1) p) (rc : AddrTranslateRc) :
    InRegion n (countTranslationSkip (considerPage p) rc) ∧
      SameRegion p (countTranslationSkip (considerPage p) rc) := by
  have hlt := h.lt
  have hsum := h.sampled
  have hahead := h.ahead
  have hsampled := toNat_add_one hlt
  have hconsidered : p.counters.pagesConsidered + 1 = p.counters.pagesSampled + 1 := by
    rw [h.considered]
  have hnotPresent : (p.counters.pagesSkippedNotPresent + 1).toNat = _ := toNat_add_one (by omega)
  have hswapped : (p.counters.pagesSkippedSwapped + 1).toNat = _ := toNat_add_one (by omega)
  have hpfn : (p.counters.pagesSkippedPfnUnavailable + 1).toNat = _ := toNat_add_one (by omega)
  have herror : (p.counters.pagesSkippedTranslationError + 1).toNat = _ :=
    toNat_add_one (by omega)
  cases rc
  all_goals
    refine ⟨⟨⟨hconsidered, ?_, h.translated, h.entry, h.regions, h.room, h.distinct⟩, ?_⟩,
      rfl, rfl, rfl⟩
    · simp only [countTranslationSkip, considerPage]
      omega
    · simp only [countTranslationSkip, considerPage]
      omega

/-- The profile with one more page translated. -/
def translatePage (p : BankProfile) : BankProfile :=
  { considerPage p with
    counters := { (considerPage p).counters with
      pagesTranslated := p.counters.pagesTranslated + 1 } }

/-- A page that has no class is counted as such. -/
theorem InRegion.unmapped (h : InRegion (n + 1) p) :
    InRegion n { translatePage p with
      counters := { (translatePage p).counters with
        pagesSkippedMappingError := p.counters.pagesSkippedMappingError + 1 } } := by
  have hlt := h.lt
  have hsum := h.sampled
  have htranslated := h.translated
  have hahead := h.ahead
  have hsampled := toNat_add_one hlt
  have htranslated' : (p.counters.pagesTranslated + 1).toNat = _ := toNat_add_one (by omega)
  have hmapping : (p.counters.pagesSkippedMappingError + 1).toNat = _ := toNat_add_one (by omega)
  refine ⟨⟨?_, ?_, ?_, h.entry, h.regions, h.room, h.distinct⟩, ?_⟩
  · simp only [translatePage, considerPage, h.considered]
  · simp only [translatePage, considerPage]
    omega
  · simp only [translatePage, considerPage]
    omega
  · simp only [translatePage, considerPage]
    omega

/-- A page with a class is counted in it. -/
theorem InRegion.classed (h : InRegion (n + 1) p) {c : UInt64}
    (hroom : ((translatePage p).accumulate ⟨c, 1, p.pageSize⟩).classes.card ≤
      bankProfileMaxEntries) :
    InRegion n ((translatePage p).accumulate ⟨c, 1, p.pageSize⟩) := by
  have hlt := h.lt
  have hsum := h.sampled
  have htranslated := h.translated
  have hahead := h.ahead
  have hsampled := toNat_add_one hlt
  have htranslated' : (p.counters.pagesTranslated + 1).toNat = _ := toNat_add_one (by omega)
  have hone : (1 : UInt64).toNat = 1 := rfl
  have hdistinct : ((translatePage p).accumulate ⟨c, 1, p.pageSize⟩).DistinctClasses :=
    BankProfile.DistinctClasses.accumulate h.distinct _
  have hpages := sum_pageCount_accumulate ⟨c, 1, p.pageSize⟩ p.entries (by rw [hone]; omega)
  rw [hone] at hpages
  refine ⟨⟨?_, ?_, ?_, ?_, h.regions, hdistinct.card_classes ▸ hroom, hdistinct⟩, ?_⟩
  · simp only [BankProfile.accumulate, translatePage, considerPage, h.considered]
  · simp only [BankProfile.accumulate, translatePage, considerPage]
    omega
  · simp only [BankProfile.accumulate, translatePage, considerPage]
    omega
  · refine forall_mem_accumulate h.entry ⟨Nat.le_refl 1, (one_mul p.pageSize).symm⟩
      fun x hx hgood => ⟨?_, ?_⟩
    · -- the pages of a class are among the sampled ones
      have hx' : x.pageCount.toNat ≤ (p.entries.map fun e => e.pageCount.toNat).sum :=
        pageCount_le_sum hx
      have hcount : (x.pageCount + 1).toNat = x.pageCount.toNat + 1 := toNat_add_one (by omega)
      rw [BankProfileEntry.plus_pageCount, hcount]
      omega
    · rw [BankProfileEntry.plus_byteCount, BankProfileEntry.plus_pageCount, hgood.2]
      exact (add_one_mul x.pageCount p.pageSize).symm
  · simp only [BankProfile.accumulate, translatePage, considerPage]
    omega

/-- A page keeps the balance, or its class is one too many. -/
theorem samplePage_inRegion (h : InRegion (n + 1) p)
    (translate : UInt64 → Except AddrTranslateRc UInt64) (mapping : DramMapping) (va : UInt64) :
    (∃ p', samplePage translate mapping p.pageSize va p = (.ok, p') ∧ InRegion n p' ∧
      SameRegion p p') ∨
    ∃ p', samplePage translate mapping p.pageSize va p = (.errTooManyClasses, p') := by
  rw [samplePage]
  cases translate va with
  | error rc => exact .inl ⟨_, rfl, h.skip rc⟩
  | ok physicalAddress =>
    dsimp only
    cases dramMappingBankClass mapping physicalAddress with
    | error e => exact .inl ⟨_, rfl, h.unmapped, rfl, rfl, rfl⟩
    | ok c =>
      have hdistinct : (translatePage p).DistinctClasses := h.distinct
      have hroom : (translatePage p).classes.card ≤ bankProfileMaxEntries := by
        rw [hdistinct.card_classes]
        exact h.room
      rcases profileAddBankClassCount_cases hdistinct hroom ⟨c, 1, p.pageSize⟩
        (by decide : (1 : UInt64) ≠ 0) with ⟨hadd, hroom'⟩ | ⟨hadd, -⟩
      · exact .inl ⟨_, hadd, h.classed hroom', rfl, rfl, rfl⟩
      · exact .inr ⟨_, hadd⟩

end

/-! ## The loops -/

section

variable {translate : UInt64 → Except AddrTranslateRc UInt64} {mapping : DramMapping}
  {cfg : BankProfileConfig} {p : BankProfile} {n : ℕ}

theorem InRegion.zero (h : InRegion n p) : InRegion 0 p :=
  ⟨h.toBalanced, (Nat.le_add_right _ n).trans h.ahead⟩

/-- How a loop over pages ends: with the balance kept, or without room for a class. -/
def EndsBalanced (p : BankProfile) (s : Sampling) : Prop :=
  (s.rc = .ok ∧ InRegion 0 s.profile ∧ SameRegion p s.profile) ∨ s.rc = .errTooManyClasses

theorem EndsBalanced.of_same {p p' : BankProfile} {s : Sampling} (h : EndsBalanced p' s)
    (hsame : SameRegion p p') : EndsBalanced p s :=
  h.imp (fun h => ⟨h.1, h.2.1, hsame.trans h.2.2⟩) id

/-- The loop over a region, from the step `k` on, with `n` steps left. -/
theorem sampleLoop_conserved (region : MapsRegion) {pageSize regionPages stride : UInt64}
    (hs : 0 < stride.toNat) (hpages : regionPages.toNat ≤ 2 ^ 63) (n : ℕ) :
    ∀ {k fuel : ℕ} {p : BankProfile} {queries : List UInt64} {s : Sampling},
      k + n = strideCount regionPages.toNat stride.toNat → p.pageSize = pageSize → InRegion n p →
      sampleLoop translate mapping cfg region pageSize regionPages stride fuel
        (UInt64.ofNat (k * stride.toNat)) p queries = some s → EndsBalanced p s := by
  induction n with
  | zero =>
    intro k fuel p queries s hk hps hp hloop
    cases fuel with
    | zero => cases hloop
    | succ fuel =>
      rw [Nat.add_zero] at hk
      have hnot := not_lt_of_strideCount hs hpages hk
      rw [sampleLoop, if_pos hnot] at hloop
      cases hloop
      exact .inl ⟨rfl, hp, .refl p⟩
  | succ n ih =>
    intro k fuel p queries s hk hps hp hloop
    cases fuel with
    | zero => cases hloop
    | succ fuel =>
      have hlt : UInt64.ofNat (k * stride.toNat) < regionPages :=
        lt_of_lt_strideCount hs (by omega)
      rw [sampleLoop, if_neg (not_not.2 hlt)] at hloop
      split at hloop
      · -- the limit ends the loop with pages of the region left
        cases hloop
        exact .inl ⟨rfl, hp.zero, .refl p⟩
      · subst hps
        dsimp only at hloop
        rcases samplePage_inRegion hp translate mapping
          (region.start + UInt64.ofNat (k * stride.toNat) * p.pageSize) with
          ⟨p', hpage, hp', hsame⟩ | ⟨p', hpage⟩
        · rw [hpage, ofNat_mul_add_stride] at hloop
          exact (ih (by omega) hsame.pageSize hp' hloop).of_same hsame
        · rw [hpage] at hloop
          cases hloop
          exact .inr rfl

/-- A region keeps the balance, if its pages are counted by a word with those before. -/
theorem sampleRegion_conserved (hp : InRegion 0 p) {region : MapsRegion}
    (hr : region.start ≤ region.stop) (hps : 1 < p.pageSize.toNat)
    (hsum : p.counters.pagesSeen.toNat + region.pages p.pageSize.toNat < 2 ^ 64) {fuel : ℕ}
    {queries : List UInt64} {s : Sampling}
    (h : sampleRegion fuel translate mapping cfg region p queries = some s) :
    (s.rc = .ok ∧ InRegion 0 s.profile ∧ s.profile.pageSize = p.pageSize ∧
      s.profile.counters.regionsSeen = p.counters.regionsSeen ∧
      s.profile.counters.pagesSeen.toNat =
        p.counters.pagesSeen.toNat + region.pages p.pageSize.toNat) ∨
    s.rc = .errTooManyClasses := by
  have hne : p.pageSize ≠ 0 := by
    intro h0
    rw [h0] at hps
    exact absurd hps (by decide)
  have hpages := toNat_regionPages hr p.pageSize
  have hle : region.pages p.pageSize.toNat ≤ 2 ^ 63 := by
    have hstop := region.stop.toNat_lt
    calc region.pages p.pageSize.toNat
        ≤ (region.stop.toNat - region.start.toNat) / 2 := Nat.div_le_div_left hps (by decide)
      _ ≤ 2 ^ 63 := by omega
  have hseen : (p.counters.pagesSeen + (region.stop - region.start) / p.pageSize).toNat =
      p.counters.pagesSeen.toNat + region.pages p.pageSize.toNat := by
    rw [UInt64.toNat_add, hpages]
    exact Nat.mod_eq_of_lt hsum
  have hstride : 0 < (if cfg.sampleStridePages = 0 then 1 else cfg.sampleStridePages).toNat := by
    split
    · exact Nat.one_pos
    case isFalse h0 => exact UInt64.lt_iff_toNat_lt.1 (UInt64.pos_iff_ne_zero.2 h0)
  have hin : InRegion (strideCount ((region.stop - region.start) / p.pageSize).toNat
      (if cfg.sampleStridePages = 0 then 1 else cfg.sampleStridePages).toNat) { p with
        counters := { p.counters with
          pagesSeen := p.counters.pagesSeen + (region.stop - region.start) / p.pageSize } } := by
    have hcount : strideCount (region.pages p.pageSize.toNat) _ ≤ region.pages p.pageSize.toNat :=
      strideCount_le hstride
    have hahead := hp.ahead
    rw [hpages]
    refine ⟨⟨hp.considered, hp.sampled, hp.translated, hp.entry, hp.regions, hp.room,
      hp.distinct⟩, ?_⟩
    dsimp only
    omega
  rw [sampleRegion, if_neg hne] at h
  have hends := sampleLoop_conserved region (k := 0) hstride (hpages ▸ hle) _ (Nat.zero_add _)
    rfl hin (by rw [Nat.zero_mul]; exact h)
  rcases hends with ⟨hrc, hin, hsame⟩ | hfull
  · exact .inl ⟨hrc, hin, hsame.pageSize, hsame.regionsSeen,
      (congrArg UInt64.toNat hsame.pagesSeen).trans hseen⟩
  · exact .inr hfull

/-- The profile with one more region seen. -/
def seeRegion (p : BankProfile) : BankProfile :=
  { p with counters := { p.counters with regionsSeen := p.counters.regionsSeen + 1 } }

/-- The profile with one more region seen and selected. -/
def selectRegion (p : BankProfile) : BankProfile :=
  { p with
    counters := { p.counters with
      regionsSeen := p.counters.regionsSeen + 1
      regionsSelected := p.counters.regionsSelected + 1 } }

theorem InRegion.seeRegion (h : InRegion n p) (hlt : p.counters.regionsSeen.toNat + 1 < 2 ^ 64) :
    InRegion n (seeRegion p) := by
  refine ⟨⟨h.considered, h.sampled, h.translated, h.entry, ?_, h.room, h.distinct⟩, h.ahead⟩
  have hle := UInt64.le_iff_toNat_le.1 h.regions
  have hseen := toNat_add_one hlt
  simp only [CgroupResearch.seeRegion, UInt64.le_iff_toNat_le]
  omega

theorem InRegion.selectRegion (h : InRegion n p) (hlt : p.counters.regionsSeen.toNat + 1 < 2 ^ 64) :
    InRegion n (selectRegion p) := by
  refine ⟨⟨h.considered, h.sampled, h.translated, h.entry, ?_, h.room, h.distinct⟩, h.ahead⟩
  have hle := UInt64.le_iff_toNat_le.1 h.regions
  have hseen := toNat_add_one hlt
  have hselected : (p.counters.regionsSelected + 1).toNat = _ := toNat_add_one (by omega)
  simp only [CgroupResearch.selectRegion, UInt64.le_iff_toNat_le]
  omega

/-- The pages of the selected regions among the lines. -/
def selectedPages (cfg : BankProfileConfig) (pageSize : ℕ) (lines : List (List Char)) : ℕ :=
  ((selectedRegions cfg lines).map fun region => region.pages pageSize).sum

/-- The lines keep the balance, if their regions and pages are counted by words with those
    before. -/
theorem mapsLoop_conserved {fuel : ℕ} (lines : List (List Char)) :
    ∀ {p : BankProfile} {queries : List UInt64} {s : Sampling}, InRegion 0 p →
      1 < p.pageSize.toNat →
      p.counters.regionsSeen.toNat + (lines.filterMap parseMapsLine).length < 2 ^ 64 →
      p.counters.pagesSeen.toNat + selectedPages cfg p.pageSize.toNat lines < 2 ^ 64 →
      mapsLoop fuel translate mapping cfg lines p queries = some s →
      (s.rc = .ok ∧ InRegion 0 s.profile ∧ s.profile.pageSize = p.pageSize) ∨
        s.rc = .errTooManyClasses := by
  induction lines with
  | nil =>
    intro p queries s hp hps hregions hpages hloop
    cases hloop
    exact .inl ⟨rfl, hp, rfl⟩
  | cons line rest ih =>
    intro p queries s hp hps hregions hpages hloop
    rw [mapsLoop] at hloop
    cases hparse : parseMapsLine line with
    | none =>
      rw [hparse] at hloop
      rw [List.filterMap_cons_none hparse] at hregions
      rw [selectedPages, selectedRegions, List.filterMap_cons_none hparse] at hpages
      exact ih hp hps hregions hpages hloop
    | some region =>
      rw [hparse] at hloop
      rw [List.filterMap_cons_some hparse, List.length_cons] at hregions
      rw [selectedPages, selectedRegions_cons_some hparse] at hpages
      dsimp only at hloop
      have hlt : p.counters.regionsSeen.toNat + 1 < 2 ^ 64 := by omega
      have hseen := toNat_add_one hlt
      cases hsel : regionIsSelected region cfg with
      | false =>
        rw [hsel, if_pos rfl] at hloop
        rw [hsel, if_neg Bool.false_ne_true] at hpages
        refine @ih (seeRegion p) _ _ (hp.seeRegion hlt) hps ?_ hpages hloop
        rw [seeRegion, hseen]
        omega
      | true =>
        rw [hsel, if_neg (by decide)] at hloop
        rw [hsel, if_pos rfl, List.map_cons, List.sum_cons, ← Nat.add_assoc] at hpages
        have hr := UInt64.le_of_lt (start_lt_stop_of_parseMapsLine hparse)
        have hsum := (Nat.le_add_right _ _).trans_lt hpages
        cases hregion : sampleRegion fuel translate mapping cfg region (selectRegion p) queries with
        | none =>
          rw [selectRegion] at hregion
          rw [hregion] at hloop
          cases hloop
        | some s' =>
          obtain ⟨rc, p', queries'⟩ := s'
          have hends := sampleRegion_conserved (hp.selectRegion hlt) hr hps hsum hregion
          rw [selectRegion] at hregion
          rw [hregion] at hloop
          rcases hends with ⟨rfl, hin, hsize, hregions', hseen'⟩ | rfl
          · dsimp only at hloop hin hsize hregions' hseen'
            split at hloop
            · cases hloop
              exact .inl ⟨rfl, hin, hsize⟩
            · rw [selectRegion] at hsize hregions' hseen'
              rw [← hsize]
              refine ih hin (by rw [hsize]; exact hps) ?_ ?_ hloop
              · rw [hregions', hseen]
                omega
              · rw [hseen', hsize]
                exact hpages
          · cases hloop
            exact .inr rfl

end

/-! ## The whole profile -/

/-- The regions that `bank_profile_build` reads, and the pages of those it selects, are counted by
    words. -/
structure RegionsFit (cfg : BankProfileConfig) (pageSize : ℕ) (maps : List Char) : Prop where
  regions : ((fgetsLines 1024 maps []).filterMap parseMapsLine).length < 2 ^ 64
  pages : selectedPages cfg pageSize (fgetsLines 1024 maps []) < 2 ^ 64

/-- A profile that `bank_profile_build` returned with `OK` or `NO_SAMPLES`, where the sums that it
    has formed are those of words: the regions, the pages, and the bytes of each class, which are
    as many times the page size as it has pages. -/
def Built (p : BankProfile) : Prop :=
  ∃ (fuel : ℕ) (env : BuildEnv) (pid : ℤ) (mapping : DramMapping) (cfg : Option BankProfileConfig)
    (out : BankProfile) (rc : BankProfileRc) (queries : List UInt64),
    bankProfileBuild fuel env pid mapping cfg out = some ⟨rc, p, queries⟩ ∧
    (rc = .ok ∨ rc = .errNoSamples) ∧ 1 < env.pageSizeLong ∧ env.pageSizeLong < 2 ^ 63 ∧
    (∀ maps, env.maps = some maps → RegionsFit (buildConfig cfg) env.pageSizeLong.toNat maps) ∧
    ∀ e ∈ p.entries, e.pageCount.toNat * env.pageSizeLong.toNat < 2 ^ 64

/-- An empty profile balances. -/
theorem inRegion_reset (pid : ℤ) (pageSize : UInt64) :
    InRegion 0 { bankProfileReset with pid := pid, pageSize := pageSize } where
  considered := rfl
  sampled := rfl
  translated := rfl
  entry := List.forall_mem_nil _
  regions := UInt64.le_refl _
  room := Nat.zero_le _
  distinct := List.nodup_nil
  ahead := Nat.le_refl _

/-- The balance is that of the counters and the entries alone. -/
theorem Conserved.congr {p p' : BankProfile} (h : Conserved p)
    (hcounters : p'.counters = p.counters) (hentries : p'.entries = p.entries)
    (hsize : p'.pageSize = p.pageSize) : Conserved p' := by
  obtain ⟨hbalanced, hseen, hbytes⟩ := h
  refine ⟨⟨?_, ?_, ?_, ?_, ?_, ?_, hbalanced.distinct.congr hentries⟩, ?_, ?_⟩
  · rw [hcounters]
    exact hbalanced.considered
  · rw [hcounters]
    exact hbalanced.sampled
  · rw [hcounters, hentries]
    exact hbalanced.translated
  · rw [hentries, hsize]
    exact hbalanced.entry
  · rw [hcounters]
    exact hbalanced.regions
  · rw [hentries]
    exact hbalanced.room
  · rw [hcounters]
    exact hseen
  · rw [hentries, hsize]
    exact hbytes

/-- The balance after the loops, if the bytes of each class are counted by a word. -/
theorem InRegion.conserved {p : BankProfile} (h : InRegion 0 p)
    (hfit : ∀ e ∈ p.entries, e.pageCount.toNat * p.pageSize.toNat < 2 ^ 64) : Conserved p := by
  refine ⟨h.toBalanced, UInt64.le_iff_toNat_le.2 h.ahead, fun e he => ?_⟩
  rw [(h.entry e he).2, UInt64.toNat_mul]
  exact Nat.mod_eq_of_lt (hfit e he)

/-- What is built is conserved. -/
theorem Built.conserved {p : BankProfile} (h : Built p) : Conserved p := by
  obtain ⟨fuel, env, pid, mapping, cfg, out, rc, queries, hbuild, hrc, hps, hps', hfit,
    hclasses⟩ := h
  have hlt : env.pageSizeLong.toNat < 2 ^ 64 := by omega
  have hsize : (UInt64.ofNat env.pageSizeLong.toNat).toNat = env.pageSizeLong.toNat :=
    UInt64.toNat_ofNat_of_lt' hlt
  have hcase := bankProfileBuild_cases fuel env pid mapping cfg out
  rw [hbuild] at hcase
  generalize hs : some (Sampling.mk rc p queries) = r at hcase
  cases hcase with
  | refused hrefused hrc' =>
    cases hs
    rcases hrc' with rfl | rfl <;> rcases hrc with h | h <;> cases h
  | failed hrc' hp =>
    cases hs
    rcases hrc' with rfl | rfl | rfl <;> rcases hrc with h | h <;> cases h
  | @looped maps hmaps =>
    obtain ⟨s, hloop, hend⟩ := Option.map_eq_some_iff.1 hs.symm
    obtain ⟨hregions, hpages⟩ := hfit maps hmaps
    have hends := mapsLoop_conserved (fgetsLines 1024 maps []) (inRegion_reset pid _)
      (by rw [hsize]; omega)
      (by simpa [bankProfileReset, BankProfileCounters.zero] using hregions)
      (by simpa [bankProfileReset, BankProfileCounters.zero, hsize] using hpages) hloop
    obtain ⟨hcounters, hentries, hpageSize⟩ := buildEnd_frame env.mapsError s
    rw [hend] at hcounters hentries hpageSize
    rcases hends with ⟨-, hin, hsame⟩ | hfull
    · refine (hin.conserved fun e he => ?_).congr hcounters hentries hpageSize
      rw [hsame, hsize]
      exact hclasses e (hentries ▸ he)
    · -- a full table is an error of its own
      obtain ⟨rc', p', queries'⟩ := s
      cases hfull
      cases hend
      rcases hrc with h | h <;> cases h

/-! ## Merging -/

section

variable {dst src dst' : BankProfile}

/-- The pages of the histogram, once entries are accumulated. -/
theorem sum_pageCount_accumulateAll (es entries : List BankProfileEntry)
    (h : (entries.map fun e => e.pageCount.toNat).sum +
      (es.map fun e => e.pageCount.toNat).sum < 2 ^ 64) :
    ((accumulateAll BankProfileEntry.bankClass BankProfileEntry.plus es entries).map
        fun e => e.pageCount.toNat).sum =
      (entries.map fun e => e.pageCount.toNat).sum + (es.map fun e => e.pageCount.toNat).sum := by
  induction es generalizing entries with
  | nil => rfl
  | cons e es ih =>
    rw [List.map_cons, List.sum_cons] at h ⊢
    have hone := sum_pageCount_accumulate e entries (by omega)
    rw [accumulateAll, List.foldl_cons, ← accumulateAll, ih _ (by omega), hone, Nat.add_assoc]

/-- The bytes of a class are those of its pages. -/
theorem Conserved.bytesForClass (h : Conserved dst) (c : UInt64) :
    (dst.bytesForClass c).toNat =
      (bankProfileCountForClass dst c).toNat * dst.pageSize.toNat := by
  rw [BankProfile.bytesForClass, bankProfileCountForClass]
  cases hfind : dst.entries.find? fun e => e.bankClass = c with
  | none => exact (Nat.zero_mul _).symm
  | some e => exact h.bytes e (List.mem_of_find?_eq_some hfind)

/-- No class has more pages than were translated. -/
theorem Balanced.countForClass_le (h : Balanced dst) (c : UInt64) :
    (bankProfileCountForClass dst c).toNat ≤ dst.counters.pagesTranslated.toNat := by
  have htranslated := h.translated
  rw [bankProfileCountForClass]
  cases hfind : dst.entries.find? fun e => e.bankClass = c with
  | none => exact Nat.zero_le _
  | some e =>
    have hle := pageCount_le_sum (List.mem_of_find?_eq_some hfind)
    dsimp only
    omega

/-- A class of the histogram has a page. -/
theorem Balanced.one_le_countForClass (h : Balanced dst) {c : UInt64} (hc : c ∈ dst.classes) :
    1 ≤ (bankProfileCountForClass dst c).toNat := by
  obtain ⟨e, he, rfl⟩ := List.mem_map.1 (BankProfile.mem_classes.1 hc)
  rw [BankProfile.countForClass_eq, valueAt_of_mem h.distinct he]
  exact (h.entry e he).1

/-- What a merge of entries that succeeds leaves. -/
theorem bankProfileMerge_merged (hne : src.entries ≠ [])
    (h : bankProfileMerge dst src = (.ok, dst')) :
    (dst.pageSize = 0 ∨ dst.pageSize = src.pageSize) ∧ src.pageSize ≠ 0 ∧
      dst'.pageSize = src.pageSize ∧
      dst'.counters = bankProfileMergeCounters dst.counters src.counters ∧
      ∃ m, mergeEntries (mergeStart dst src) src.entries = (.ok, m) ∧ dst'.entries = m.entries := by
  have hchecks : src.pageSize ≠ 0 ∧ (dst.pageSize = 0 ∨ dst.pageSize = src.pageSize) := by
    have hlen : ¬src.entries.length = 0 := fun h => hne (List.length_eq_zero_iff.1 h)
    rw [bankProfileMerge, if_neg hlen] at h
    split at h
    · cases h
    split at h
    · cases h
    case isFalse hsize hsame => exact ⟨hsize, by tauto⟩
  obtain ⟨hsize, hcompat⟩ := hchecks
  refine ⟨hcompat, hsize, ?_⟩
  obtain ⟨entries, message, hframe, -⟩ := mergeEntries_frame (mergeStart dst src) src.entries
  rw [bankProfileMerge_eq hne hsize hcompat] at h
  cases hres : mergeEntries (mergeStart dst src) src.entries with
  | mk rc m =>
    rw [hres] at h hframe
    cases rc with
    | ok =>
      cases h
      subst hframe
      exact ⟨rfl, rfl, _, rfl, rfl⟩
    | _ => cases h

/-- The sums that a merge forms are those of words. -/
structure SumFits (dst src : BankProfile) : Prop where
  counters : ∀ i, (dst.counters.values i).toNat + (src.counters.values i).toNat < 2 ^ 64
  bytes : ∀ c, (dst.bytesForClass c).toNat + (src.bytesForClass c).toNat < 2 ^ 64

/-- A merge adds up the counters and the histograms. -/
theorem Conserved.merge_sums (hdst : Conserved dst) (hsrc : Conserved src) (hfit : SumFits dst src)
    (hne : src.entries ≠ []) (h : bankProfileMerge dst src = (.ok, dst')) :
    dst'.entries = accumulateAll BankProfileEntry.bankClass BankProfileEntry.plus src.entries
      dst.entries ∧ dst'.entries.length ≤ bankProfileMaxEntries ∧ dst'.DistinctClasses ∧
    (∀ i, (dst'.counters.values i).toNat =
      (dst.counters.values i).toNat + (src.counters.values i).toNat) ∧
    (∀ c, (bankProfileCountForClass dst' c).toNat =
      (bankProfileCountForClass dst c).toNat + (bankProfileCountForClass src c).toNat) ∧
    ∀ c, (dst'.bytesForClass c).toNat = (dst.bytesForClass c).toNat +
      (src.bytesForClass c).toNat := by
  obtain ⟨-, -, -, hcounters, m, hm, hentries⟩ := bankProfileMerge_merged hne h
  have hd : (mergeStart dst src).DistinctClasses := hdst.distinct
  have hpos : ∀ e ∈ src.entries, e.pageCount ≠ 0 := by
    intro e he h0
    have hone := (hsrc.entry e he).1
    rw [h0] at hone
    exact absurd hone (by decide)
  have hroom : (mergeStart dst src).classes.card ≤ bankProfileMaxEntries := by
    rw [hd.card_classes]
    exact hdst.room
  rcases mergeEntries_cases hd hroom hpos with ⟨hok, hroom'⟩ | ⟨hrc, -⟩
  case inr =>
    rw [hm] at hrc
    cases hrc
  rw [hm, Prod.mk.injEq] at hok
  obtain ⟨-, rfl⟩ := hok
  have hd' := hd.accumulateAll src.entries
  have hdistinct : dst'.DistinctClasses := hd'.congr hentries
  refine ⟨hentries, ?_, hdistinct, fun i => ?_, fun c => ?_, fun c => ?_⟩
  · rw [hentries, ← hd'.card_classes]
    exact hroom'
  · rw [hcounters, values_mergeCounters, Pi.add_apply, UInt64.toNat_add]
    exact Nat.mod_eq_of_lt (hfit.counters i)
  · have hle := hdst.countForClass_le c
    have hle' := hsrc.countForClass_le c
    have hlt : dst.counters.pagesTranslated.toNat + src.counters.pagesTranslated.toNat < 2 ^ 64 :=
      hfit.counters 5
    rw [BankProfile.countForClass_congr hentries,
      BankProfile.countForClass_accumulateAll _ hsrc.distinct, UInt64.toNat_add]
    exact Nat.mod_eq_of_lt (lt_of_le_of_lt (Nat.add_le_add hle hle') hlt)
  · rw [BankProfile.bytesForClass_eq, hentries, ← BankProfile.bytesForClass_eq,
      BankProfile.bytesForClass_accumulateAll _ hsrc.distinct, UInt64.toNat_add]
    exact Nat.mod_eq_of_lt (hfit.bytes c)

/-- Counters that are the sums of two others. -/
structure Summed (k k₁ k₂ : BankProfileCounters) : Prop where
  regionsSeen : k.regionsSeen.toNat = k₁.regionsSeen.toNat + k₂.regionsSeen.toNat
  regionsSelected : k.regionsSelected.toNat = k₁.regionsSelected.toNat + k₂.regionsSelected.toNat
  pagesSeen : k.pagesSeen.toNat = k₁.pagesSeen.toNat + k₂.pagesSeen.toNat
  pagesSampled : k.pagesSampled.toNat = k₁.pagesSampled.toNat + k₂.pagesSampled.toNat
  pagesTranslated : k.pagesTranslated.toNat = k₁.pagesTranslated.toNat + k₂.pagesTranslated.toNat
  pagesSkippedNotPresent : k.pagesSkippedNotPresent.toNat =
    k₁.pagesSkippedNotPresent.toNat + k₂.pagesSkippedNotPresent.toNat
  pagesSkippedSwapped : k.pagesSkippedSwapped.toNat =
    k₁.pagesSkippedSwapped.toNat + k₂.pagesSkippedSwapped.toNat
  pagesSkippedPfnUnavailable : k.pagesSkippedPfnUnavailable.toNat =
    k₁.pagesSkippedPfnUnavailable.toNat + k₂.pagesSkippedPfnUnavailable.toNat
  pagesSkippedTranslationError : k.pagesSkippedTranslationError.toNat =
    k₁.pagesSkippedTranslationError.toNat + k₂.pagesSkippedTranslationError.toNat
  pagesSkippedMappingError : k.pagesSkippedMappingError.toNat =
    k₁.pagesSkippedMappingError.toNat + k₂.pagesSkippedMappingError.toNat

theorem summed_of_values {k k₁ k₂ : BankProfileCounters}
    (h : ∀ i, (k.values i).toNat = (k₁.values i).toNat + (k₂.values i).toNat) : Summed k k₁ k₂ :=
  ⟨h 0, h 1, h 2, h 4, h 5, h 6, h 7, h 8, h 9, h 10⟩

/-- A merge keeps the balance. -/
theorem Conserved.merge (hdst : Conserved dst) (hsrc : Conserved src) (hfit : SumFits dst src)
    (hempty : dst.pageSize = 0 → dst.entries = []) (hne : src.entries ≠ [])
    (h : bankProfileMerge dst src = (.ok, dst')) : Conserved dst' := by
  obtain ⟨hcompat, hsize, hsize', hcounters, -⟩ := bankProfileMerge_merged hne h
  obtain ⟨hentries, hroom, hdistinct, hvalues, hcount, hbytes⟩ := hdst.merge_sums hsrc hfit hne h
  have hsums := summed_of_values hvalues
  -- an entry holds the pages and the bytes of its class in the two profiles
  have hentry : ∀ e ∈ dst'.entries, 1 ≤ e.pageCount.toNat ∧
      e.byteCount.toNat = e.pageCount.toNat * dst'.pageSize.toNat := by
    intro e he
    have hpages : e.pageCount = bankProfileCountForClass dst' e.bankClass := by
      rw [BankProfile.countForClass_eq, valueAt_of_mem hdistinct he]
    have hbytes' : e.byteCount = dst'.bytesForClass e.bankClass := by
      rw [BankProfile.bytesForClass_eq, valueAt_of_mem hdistinct he]
    have hclass : e.bankClass ∈ src.entries.map BankProfileEntry.bankClass ∨
        e.bankClass ∈ dst.entries.map BankProfileEntry.bankClass := by
      rw [hentries] at he
      exact (mem_keys_accumulateAll BankProfileEntry.plus_bankClass).1 (List.mem_map_of_mem he)
    have hsame : (dst.bytesForClass e.bankClass).toNat =
        (bankProfileCountForClass dst e.bankClass).toNat * src.pageSize.toNat := by
      rcases hcompat with h0 | heq
      · rw [BankProfile.bytesForClass, bankProfileCountForClass, hempty h0]
        exact (Nat.zero_mul _).symm
      · rw [← heq]
        exact hdst.bytesForClass e.bankClass
    rw [hpages, hbytes', hcount, hbytes, hsame, hsrc.bytesForClass, hsize', Nat.add_mul]
    refine ⟨?_, rfl⟩
    rcases hclass with hmem | hmem
    · exact (hsrc.one_le_countForClass (BankProfile.mem_classes.2 hmem)).trans
        (Nat.le_add_left _ _)
    · exact (hdst.one_le_countForClass (BankProfile.mem_classes.2 hmem)).trans
        (Nat.le_add_right _ _)
  refine ⟨⟨?_, ?_, ?_, fun e he => ⟨(hentry e he).1, ?_⟩, ?_, hroom, hdistinct⟩, ?_,
    fun e he => (hentry e he).2⟩
  · rw [hcounters, bankProfileMergeCounters, hdst.considered, hsrc.considered]
  · have hd := hdst.sampled
    have hs := hsrc.sampled
    rw [hsums.pagesSampled, hsums.pagesTranslated, hsums.pagesSkippedNotPresent,
      hsums.pagesSkippedSwapped, hsums.pagesSkippedPfnUnavailable,
      hsums.pagesSkippedTranslationError]
    omega
  · have hd := hdst.translated
    have hs := hsrc.translated
    have hlt : dst.counters.pagesTranslated.toNat + src.counters.pagesTranslated.toNat < 2 ^ 64 :=
      hfit.counters 5
    rw [hentries, sum_pageCount_accumulateAll _ _ (by omega), hsums.pagesSkippedMappingError,
      hsums.pagesTranslated]
    omega
  · rw [← UInt64.toNat_inj, UInt64.toNat_mul, ← (hentry e he).2]
    exact (Nat.mod_eq_of_lt e.byteCount.toNat_lt).symm
  · have hd := UInt64.le_iff_toNat_le.1 hdst.regions
    have hs := UInt64.le_iff_toNat_le.1 hsrc.regions
    rw [UInt64.le_iff_toNat_le, hsums.regionsSelected, hsums.regionsSeen]
    omega
  · have hd := UInt64.le_iff_toNat_le.1 hdst.seen
    have hs := UInt64.le_iff_toNat_le.1 hsrc.seen
    rw [UInt64.le_iff_toNat_le, hsums.pagesSampled, hsums.pagesSeen]
    omega

/-- The sums that merging the profiles into `dst` forms are those of words. Profiles without
    entries are not merged. -/
structure SumsFit (dst : BankProfile) (profiles : List BankProfile) : Prop where
  counters : ∀ i, (dst.counters.values i).toNat +
    ((profiles.filter fun p => p.entries ≠ []).map fun p => (p.counters.values i).toNat).sum <
      2 ^ 64
  bytes : ∀ c, (dst.bytesForClass c).toNat +
    (profiles.map fun p => (p.bytesForClass c).toNat).sum < 2 ^ 64

/-- Merging in turn keeps the balance. -/
theorem mergeAll_conserved {agg : BankProfile} {profiles : List BankProfile} :
    ∀ {dst : BankProfile}, Conserved dst → (dst.pageSize = 0 → dst.entries = []) →
      (∀ p ∈ profiles, Conserved p) → SumsFit dst profiles →
      mergeAll dst profiles = (.ok, agg) → Conserved agg := by
  induction profiles with
  | nil =>
    intro dst hdst hempty hprofiles hfit h
    cases h
    exact hdst
  | cons src srcs ih =>
    intro dst hdst hempty hprofiles hfit h
    rw [List.forall_mem_cons] at hprofiles
    rw [mergeAll] at h
    by_cases hne : src.entries = []
    · -- a profile without entries is skipped, with its counters
      have hskip : bankProfileMerge dst src = (.ok, dst) := by
        rw [bankProfileMerge, hne, if_pos List.length_nil]
      rw [hskip] at h
      refine ih hdst hempty hprofiles.2 ⟨fun i => ?_, fun c => ?_⟩ h
      · have hi := hfit.counters i
        rwa [List.filter_cons_of_neg (by simpa using hne)] at hi
      · have hc := hfit.bytes c
        rw [List.map_cons, List.sum_cons] at hc
        omega
    · have hsum : SumFits dst src := by
        refine ⟨fun i => ?_, fun c => ?_⟩
        · have hi := hfit.counters i
          rw [List.filter_cons_of_pos (by simpa using hne), List.map_cons, List.sum_cons] at hi
          omega
        · have hc := hfit.bytes c
          rw [List.map_cons, List.sum_cons] at hc
          omega
      cases hres : bankProfileMerge dst src with
      | mk rc dst' =>
        rw [hres] at h
        cases rc with
        | ok =>
          have hdst' := hdst.merge hprofiles.1 hsum hempty hne hres
          obtain ⟨-, hsize, hsize', -⟩ := bankProfileMerge_merged hne hres
          obtain ⟨-, -, -, hvalues, -, hbytes⟩ := hdst.merge_sums hprofiles.1 hsum hne hres
          refine ih hdst' (fun h0 => absurd (hsize'.symm.trans h0) hsize) hprofiles.2
            ⟨fun i => ?_, fun c => ?_⟩ h
          · have hi := hfit.counters i
            rw [List.filter_cons_of_pos (by simpa using hne), List.map_cons, List.sum_cons] at hi
            rw [hvalues]
            omega
          · have hc := hfit.bytes c
            rw [List.map_cons, List.sum_cons] at hc
            rw [hbytes]
            omega
        | _ => cases h

end

/-- Every profile that is built balances, and so does every aggregate of such profiles: every
    sampled page was considered and is translated or skipped for a reason, the histogram has
    the translated pages that have a class, in entries of distinct classes with the bytes of
    their pages, and no more pages are sampled than seen, nor regions selected. -/
theorem counters_conserved :
    (∀ p, Built p → Conserved p) ∧
    ∀ profiles agg, (∀ p ∈ profiles, Built p) → SumsFit bankProfileReset profiles →
      mergeAll bankProfileReset profiles = (.ok, agg) → Conserved agg := by
  refine ⟨fun p hp => hp.conserved, fun profiles agg hbuilt hfit h => ?_⟩
  have hreset : Conserved bankProfileReset :=
    (inRegion_reset 0 0).conserved (List.forall_mem_nil _)
  exact mergeAll_conserved hreset (fun _ => rfl) (fun p hp => (hbuilt p hp).conserved) hfit h

/-- Three pages, of which the second is not present. -/
def threePages : BuildEnv where
  pageSizeLong := 4096
  maps := some "1000-4000 rw-p 0 0 0\n".toList
  mapsError := false
  addrOpen := .ok
  translate va := if va = 0x2000 then .error .errNotPresent else .ok va

/-- Their profile. -/
def threePagesProfile : BankProfile :=
  { profileOf 1 [⟨1, 2, 8192⟩] with
    counters := ⟨1, 1, 3, 3, 3, 2, 1, 0, 0, 0, 0⟩
    dominantBankClass := 1
    dominantPageCount := 2
    dominantFraction := 1 }

/-- The profile of three pages is built. -/
theorem built_threePages : Built threePagesProfile := by
  have hrun : (bankProfileBuild 10 threePages 1 ⟨[0x1000], [], true⟩
      (some ⟨0, 1, true, true, true, false, false⟩) bankProfileReset).map
        (fun s => (s.rc, s.profile, s.queries)) =
      some (.ok, threePagesProfile, [0x1000, 0x2000, 0x3000]) := by
    decide +kernel
  obtain ⟨s, hs, heq⟩ := Option.map_eq_some_iff.1 hrun
  obtain ⟨rc, p, queries⟩ := s
  cases heq
  refine ⟨_, _, _, _, _, _, _, _, hs, .inl rfl, by decide, by decide, fun maps hmaps => ?_,
    by decide +kernel⟩
  cases hmaps
  exact ⟨by decide +kernel, by decide +kernel⟩

/-- The profile merged with itself. -/
theorem counters_conserved_twice :
    (mergeAll bankProfileReset [threePagesProfile, threePagesProfile]).1 = .ok ∧
      Conserved (mergeAll bankProfileReset [threePagesProfile, threePagesProfile]).2 := by
  have hok : (mergeAll bankProfileReset [threePagesProfile, threePagesProfile]).1 = .ok := by
    decide +kernel
  refine ⟨hok, counters_conserved.2 [threePagesProfile, threePagesProfile] _ ?_ ⟨?_, fun c => ?_⟩
    (Prod.ext hok rfl)⟩
  · exact List.forall_mem_cons.2 ⟨built_threePages, List.forall_mem_singleton.2 built_threePages⟩
  · decide +kernel
  · have hle : threePagesProfile.bytesForClass c ≤ 8192 := bytes_le_of_forall (by decide +kernel) c
    rw [UInt64.le_iff_toNat_le] at hle
    simp only [List.map_cons, List.map_nil, List.sum_cons, List.sum_nil]
    have hnat : (8192 : UInt64).toNat = 8192 := rfl
    have hzero : (bankProfileReset.bytesForClass c).toNat = 0 := rfl
    omega

end CgroupResearch
