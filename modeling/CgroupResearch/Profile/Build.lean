import CgroupResearch.Profile.Maps

/-!
# What a profile counts

`bank_profile_build` samples the addresses of a list that can be told beforehand
(`sampledAddresses`): every `stride`-th page of each selected region, in the order of
`maps`, up to the limit of the configuration. It translates them in this order, up to the
end or to the first address of a class there is no room for, and counts the classes of
those that translate (`build_counts_sampled_addresses`).

* `Sampled`: what a profile holds once some addresses are sampled. A page keeps it
  (`samplePage_cases`), and so do the loop over a region (`sampleLoop_spec`) and the loop
  over the lines (`mapsLoop_spec`);
* `Outcome`: the two ways a loop over addresses can end.

The counts are 64-bit words. They wrap around if a class has `2 ^ 64` sampled pages, as it
may when the regions of `maps` overlap (`count_wraps_around`).
-/

namespace CgroupResearch

open CString
open scoped UInt64.CommRing

/-! ## The addresses to sample -/

/-- The stride in use: none stands for every page. -/
def strideOf (cfg : BankProfileConfig) : ℕ :=
  if cfg.sampleStridePages = 0 then 1 else cfg.sampleStridePages.toNat

/-- The number of the `k` with `k * stride < pages`. -/
def strideCount (pages stride : ℕ) : ℕ := (pages + stride - 1) / stride

/-- The pages of a region. -/
def MapsRegion.pages (region : MapsRegion) (pageSize : ℕ) : ℕ :=
  (region.stop.toNat - region.start.toNat) / pageSize

/-- The addresses of a region to sample. -/
def MapsRegion.addresses (region : MapsRegion) (pageSize stride : ℕ) : List ℕ :=
  (List.range (strideCount (region.pages pageSize) stride)).map fun k =>
    region.start.toNat + k * stride * pageSize

/-- The selected regions among the lines of `maps`. -/
def selectedRegions (cfg : BankProfileConfig) (lines : List (List Char)) : List MapsRegion :=
  (lines.filterMap parseMapsLine).filter fun region => regionIsSelected region cfg

/-- What the limit of the configuration leaves of a list, after `n` samples. -/
def limited {α : Type} (cfg : BankProfileConfig) (n : ℕ) (l : List α) : List α :=
  if cfg.maxPagesToSample = 0 then l else l.take (cfg.maxPagesToSample.toNat - n)

/-- The addresses to sample. -/
def sampledAddresses (cfg : BankProfileConfig) (pageSize : ℕ) (maps : List Char) : List ℕ :=
  limited cfg 0 ((selectedRegions cfg (textLines maps [])).flatMap fun region =>
    region.addresses pageSize (strideOf cfg))

/-- The bank class that an address translates to. -/
def classAt (translate : UInt64 → Except AddrTranslateRc UInt64) (mapping : DramMapping)
    (va : UInt64) : Option UInt64 :=
  match translate va with
  | .error _ => none
  | .ok physicalAddress => (dramMappingBankClass mapping physicalAddress).toOption

/-- The classes of the addresses. -/
def classesAt (f : UInt64 → Option UInt64) (vas : List UInt64) : Finset UInt64 :=
  (vas.filterMap f).toFinset

theorem lt_strideCount_iff {pages stride k : ℕ} (hs : 0 < stride) :
    k < strideCount pages stride ↔ k * stride < pages := by
  rw [strideCount, Nat.lt_iff_add_one_le, Nat.le_div_iff_mul_le hs, Nat.add_mul]
  omega

/-- The steps of the stride do not wrap around, even the last one. -/
theorem strideCount_mul_lt {pages stride : ℕ} (hs : 0 < stride) (hs' : stride < 2 ^ 64)
    (hp : pages ≤ 2 ^ 63) : strideCount pages stride * stride < 2 ^ 64 := by
  rcases Nat.eq_zero_or_pos (strideCount pages stride) with h | h
  · rw [h]
    omega
  · -- the step before the last is still in the region
    have hlast : (strideCount pages stride - 1) * stride < pages :=
      (lt_strideCount_iff hs).1 (by omega)
    rcases Nat.lt_or_ge 1 (strideCount pages stride) with h1 | h1
    · have hstride : 1 * stride < pages := (lt_strideCount_iff hs).1 h1
      rw [Nat.sub_mul] at hlast
      omega
    · have : strideCount pages stride = 1 := by omega
      rw [this]
      omega

/-- The counter passes the last page before it can wrap around. -/
theorem not_lt_of_strideCount {regionPages stride : UInt64} {k : ℕ} (hs : 0 < stride.toNat)
    (hpages : regionPages.toNat ≤ 2 ^ 63) (hk : k = strideCount regionPages.toNat stride.toNat) :
    ¬UInt64.ofNat (k * stride.toNat) < regionPages := by
  have hlt : k * stride.toNat < 2 ^ 64 := hk ▸ strideCount_mul_lt hs stride.toNat_lt hpages
  rw [UInt64.lt_iff_toNat_lt, UInt64.toNat_ofNat_of_lt' hlt, ← lt_strideCount_iff hs, ← hk]
  exact lt_irrefl _

theorem lt_of_lt_strideCount {regionPages stride : UInt64} {k : ℕ} (hs : 0 < stride.toNat)
    (hk : k < strideCount regionPages.toNat stride.toNat) :
    UInt64.ofNat (k * stride.toNat) < regionPages := by
  have hin := (lt_strideCount_iff hs).1 hk
  rwa [UInt64.lt_iff_toNat_lt, UInt64.toNat_ofNat_of_lt' (hin.trans regionPages.toNat_lt)]

/-- The counter after one more step. -/
theorem ofNat_mul_add_stride (k : ℕ) (stride : UInt64) :
    UInt64.ofNat (k * stride.toNat) + stride = UInt64.ofNat ((k + 1) * stride.toNat) := by
  rw [Nat.succ_mul, UInt64.ofNat_add, UInt64.ofNat_toNat]

section Limits

variable {α β : Type} {cfg : BankProfileConfig}

/-- The limit counts what was taken before. -/
theorem limited_append (n : ℕ) (l l' : List α) :
    limited cfg n (l ++ l') = limited cfg n l ++ limited cfg (n + (limited cfg n l).length) l' := by
  rw [limited, limited, limited]
  split
  · rfl
  · rw [List.take_append, List.length_take]
    congr 2
    omega

theorem limited_map (g : α → β) (n : ℕ) (l : List α) :
    limited cfg n (l.map g) = (limited cfg n l).map g := by
  rw [limited, limited]
  split
  · rfl
  · rw [List.map_take]

theorem limited_nil (n : ℕ) : limited cfg n ([] : List α) = [] := by
  rw [limited]
  split
  · rfl
  · exact List.take_nil

theorem limited_length_le (n : ℕ) (l : List α) (h : cfg.maxPagesToSample ≠ 0)
    (hn : n ≤ cfg.maxPagesToSample.toNat) :
    n + (limited cfg n l).length ≤ cfg.maxPagesToSample.toNat := by
  rw [limited, if_neg h, List.length_take]
  omega

end Limits

/-! ## Sampling addresses -/

/-- What a profile holds once the addresses `done` are sampled. The counts are words. -/
structure Sampled (pageSize : UInt64) (translate : UInt64 → Except AddrTranslateRc UInt64)
    (mapping : DramMapping) (done : List UInt64) (p : BankProfile) : Prop where
  pageSize_eq : p.pageSize = pageSize
  distinct : p.DistinctClasses
  classes_eq : p.classes = classesAt (classAt translate mapping) done
  room : p.classes.card ≤ bankProfileMaxEntries
  count : ∀ c, bankProfileCountForClass p c =
    UInt64.ofNat (done.countP fun va => classAt translate mapping va = some c)
  sampled : p.counters.pagesSampled = UInt64.ofNat done.length
  translated : p.counters.pagesTranslated = UInt64.ofNat (done.countP fun va => (translate va).isOk)

/-- The two ways to sample the addresses `todo` after `done`: all of them, or up to the
    first one of a class there is no room for. -/
inductive Outcome (pageSize : UInt64) (translate : UInt64 → Except AddrTranslateRc UInt64)
    (mapping : DramMapping) (done todo : List UInt64) : Sampling → Prop
  | all {p : BankProfile} (h : Sampled pageSize translate mapping (done ++ todo) p) :
      Outcome pageSize translate mapping done todo ⟨.ok, p, done ++ todo⟩
  | full {p : BankProfile} {pre post : List UInt64} {va : UInt64} (htodo : todo = pre ++ va :: post)
      (hroom : (classesAt (classAt translate mapping) (done ++ pre)).card ≤ bankProfileMaxEntries)
      (hfull : bankProfileMaxEntries <
        (classesAt (classAt translate mapping) (done ++ pre ++ [va])).card) :
      Outcome pageSize translate mapping done todo ⟨.errTooManyClasses, p, done ++ pre ++ [va]⟩

section Pages

variable {pageSize : UInt64} {translate : UInt64 → Except AddrTranslateRc UInt64}
  {mapping : DramMapping} {done todo : List UInt64} {p p' : BankProfile} {va : UInt64}

theorem ofNat_countP_concat (q : UInt64 → Bool) (done : List UInt64) (va : UInt64) :
    UInt64.ofNat ((done ++ [va]).countP q) =
      UInt64.ofNat (done.countP q) + if q va then 1 else 0 := by
  rw [List.countP_append, List.countP_singleton, UInt64.ofNat_add]
  split <;> rfl

theorem classesAt_concat (f : UInt64 → Option UInt64) (done : List UInt64) (va : UInt64) :
    classesAt f (done ++ [va]) = classesAt f done ∪ (f va).toFinset := by
  rw [classesAt, List.filterMap_append, List.toFinset_append]
  congr 1
  rw [List.filterMap_cons, List.filterMap_nil]
  cases f va <;> rfl

/-- Sampling looks at no other counters than these two. -/
theorem Sampled.congr (h : Sampled pageSize translate mapping done p)
    (hps : p'.pageSize = p.pageSize) (hes : p'.entries = p.entries)
    (hs : p'.counters.pagesSampled = p.counters.pagesSampled)
    (ht : p'.counters.pagesTranslated = p.counters.pagesTranslated) :
    Sampled pageSize translate mapping done p' := by
  have hclasses := BankProfile.classes_congr hes
  refine ⟨hps.trans h.pageSize_eq, h.distinct.congr hes, hclasses.trans h.classes_eq, ?_,
    fun c => (BankProfile.countForClass_congr hes c).trans (h.count c), hs.trans h.sampled,
    ht.trans h.translated⟩
  rw [hclasses]
  exact h.room

/-- An address without a class is only counted as sampled. -/
theorem Sampled.skip (h : Sampled pageSize translate mapping done p)
    (hva : classAt translate mapping va = none)
    (hps : p'.pageSize = p.pageSize) (hes : p'.entries = p.entries)
    (hs : p'.counters.pagesSampled = p.counters.pagesSampled + 1)
    (ht : p'.counters.pagesTranslated =
      p.counters.pagesTranslated + if (translate va).isOk then 1 else 0) :
    Sampled pageSize translate mapping (done ++ [va]) p' := by
  have hclasses := BankProfile.classes_congr hes
  refine ⟨hps.trans h.pageSize_eq, h.distinct.congr hes, ?_, ?_, fun c => ?_, ?_, ?_⟩
  · rw [hclasses, h.classes_eq, classesAt_concat, hva]
    simp
  · rw [hclasses]
    exact h.room
  · rw [BankProfile.countForClass_congr hes, h.count c, ofNat_countP_concat, hva]
    simp
  · rw [hs, h.sampled, List.length_append, UInt64.ofNat_add]
    rfl
  · rw [ht, h.translated, ofNat_countP_concat]

/-- An address with a class is counted in it, if there is room. -/
theorem Sampled.accumulate (h : Sampled pageSize translate mapping done p) {bankClass : UInt64}
    (hva : classAt translate mapping va = some bankClass) (bytes : UInt64)
    (hps : p'.pageSize = p.pageSize) (hes : p'.entries = p.entries)
    (hs : p'.counters.pagesSampled = p.counters.pagesSampled + 1)
    (ht : p'.counters.pagesTranslated = p.counters.pagesTranslated + 1)
    (hok : (translate va).isOk)
    (hroom : (p'.accumulate ⟨bankClass, 1, bytes⟩).classes.card ≤ bankProfileMaxEntries) :
    Sampled pageSize translate mapping (done ++ [va]) (p'.accumulate ⟨bankClass, 1, bytes⟩) := by
  refine ⟨hps.trans h.pageSize_eq, (h.distinct.congr hes).accumulate _, ?_, hroom,
    fun c => ?_, ?_, ?_⟩
  · rw [BankProfile.classes_accumulate, BankProfile.classes_congr hes, h.classes_eq,
      classesAt_concat, hva, Finset.insert_eq, Finset.union_comm]
    rfl
  · rw [BankProfile.countForClass_accumulate, BankProfile.countForClass_congr hes, h.count c,
      ofNat_countP_concat, hva]
    simp
  · exact hs.trans (by rw [h.sampled, List.length_append, UInt64.ofNat_add]; rfl)
  · exact ht.trans (by rw [h.translated, ofNat_countP_concat, if_pos hok])

theorem countTranslationSkip_frame (p : BankProfile) (rc : AddrTranslateRc) :
    (countTranslationSkip p rc).pageSize = p.pageSize ∧
      (countTranslationSkip p rc).entries = p.entries ∧
      (countTranslationSkip p rc).counters.pagesSampled = p.counters.pagesSampled ∧
      (countTranslationSkip p rc).counters.pagesTranslated = p.counters.pagesTranslated := by
  cases rc <;> exact ⟨rfl, rfl, rfl, rfl⟩

/-- A page is sampled, or its class is one too many. -/
theorem samplePage_cases (h : Sampled pageSize translate mapping done p) (va : UInt64) :
    (∃ p', samplePage translate mapping pageSize va p = (.ok, p') ∧
      Sampled pageSize translate mapping (done ++ [va]) p') ∨
    (∃ p', samplePage translate mapping pageSize va p = (.errTooManyClasses, p') ∧
      bankProfileMaxEntries < (classesAt (classAt translate mapping) (done ++ [va])).card) := by
  rw [samplePage]
  cases htr : translate va with
  | error rc =>
    have hva : classAt translate mapping va = none := by rw [classAt, htr]
    obtain ⟨hps, hes, hs, ht⟩ := countTranslationSkip_frame { p with
      counters := { p.counters with
        pagesConsidered := p.counters.pagesConsidered + 1
        pagesSampled := p.counters.pagesSampled + 1 } } rc
    exact .inl ⟨_, rfl, h.skip hva hps hes hs (ht.trans (by rw [htr]; exact (add_zero _).symm))⟩
  | ok physicalAddress =>
    have hok : (translate va).isOk := by rw [htr]; rfl
    dsimp only
    cases hclass : dramMappingBankClass mapping physicalAddress with
    | error e =>
      have hva : classAt translate mapping va = none := by
        rw [classAt, htr]
        simp only [hclass]
        rfl
      exact .inl ⟨_, rfl, h.skip hva rfl rfl rfl (by rw [if_pos hok])⟩
    | ok bankClass =>
      have hva : classAt translate mapping va = some bankClass := by
        rw [classAt, htr]
        simp only [hclass]
        rfl
      -- the counters do not matter to the histogram
      set p' : BankProfile := { p with
        counters := { p.counters with
          pagesConsidered := p.counters.pagesConsidered + 1
          pagesSampled := p.counters.pagesSampled + 1
          pagesTranslated := p.counters.pagesTranslated + 1 } } with hp'
      dsimp only
      have hclasses : (p'.accumulate ⟨bankClass, 1, pageSize⟩).classes =
          classesAt (classAt translate mapping) (done ++ [va]) := by
        rw [BankProfile.classes_accumulate, classesAt_concat, hva, ← h.classes_eq,
          Finset.insert_eq, Finset.union_comm]
        rfl
      have hdistinct : p'.DistinctClasses := h.distinct
      rcases profileAddBankClassCount_cases hdistinct h.room ⟨bankClass, 1, pageSize⟩
        (by decide : (1 : UInt64) ≠ 0) with ⟨hadd, hroom⟩ | ⟨hadd, hfull⟩
      · exact .inl ⟨_, hadd, h.accumulate hva pageSize rfl rfl rfl rfl hok hroom⟩
      · exact .inr ⟨_, hadd, hclasses ▸ hfull⟩

theorem Outcome.nil (h : Sampled pageSize translate mapping done p) :
    Outcome pageSize translate mapping done [] ⟨.ok, p, done⟩ := by
  rw [← List.append_nil done] at h
  have ho := Outcome.all h
  rwa [List.append_nil] at ho

/-- There is no room for the class of the next address. -/
theorem Outcome.first (h : Sampled pageSize translate mapping done p)
    (hfull : bankProfileMaxEntries < (classesAt (classAt translate mapping) (done ++ [va])).card)
    (p' : BankProfile) (todo : List UInt64) :
    Outcome pageSize translate mapping done (va :: todo)
      ⟨.errTooManyClasses, p', done ++ [va]⟩ := by
  have hroom := h.room
  rw [h.classes_eq] at hroom
  rw [← List.append_nil done] at hroom hfull ⊢
  have ho : Outcome pageSize translate mapping (done ++ []) (va :: todo)
      ⟨.errTooManyClasses, p', done ++ [] ++ [] ++ [va]⟩ :=
    .full rfl (by rwa [List.append_nil (done ++ [])]) (by rwa [List.append_nil (done ++ [])])
  rwa [List.append_nil (done ++ [])] at ho

/-- The outcome after some addresses more. -/
theorem Outcome.prepend {xs : List UInt64} {s : Sampling}
    (h : Outcome pageSize translate mapping (done ++ xs) todo s) :
    Outcome pageSize translate mapping done (xs ++ todo) s := by
  cases h with
  | all h =>
    rw [List.append_assoc] at h ⊢
    exact .all h
  | full htodo hroom hfull =>
    rw [List.append_assoc done xs] at hroom hfull ⊢
    subst htodo
    exact .full (List.append_assoc ..).symm hroom hfull

/-- An outcome without room does not depend on what comes next. -/
theorem Outcome.extend {s : Sampling} (h : Outcome pageSize translate mapping done todo s)
    (hrc : s.rc ≠ .ok) (more : List UInt64) :
    Outcome pageSize translate mapping done (todo ++ more) s := by
  cases h with
  | all h => exact absurd rfl hrc
  | full htodo hroom hfull =>
    exact .full (by rw [htodo, List.append_assoc, List.cons_append]) hroom hfull

end Pages

/-! ## The loops -/

section Loops

variable {pageSize : UInt64} {translate : UInt64 → Except AddrTranslateRc UInt64}
  {mapping : DramMapping} {done : List UInt64} {p : BankProfile} {cfg : BankProfileConfig}

/-- The samples are within the limit. -/
def Within (cfg : BankProfileConfig) (done : List UInt64) : Prop :=
  cfg.maxPagesToSample ≠ 0 → done.length ≤ cfg.maxPagesToSample.toNat

theorem Within.append_limited (h : Within cfg done) (l : List UInt64) :
    Within cfg (done ++ limited cfg done.length l) := by
  intro hmax
  rw [List.length_append]
  exact limited_length_le done.length l hmax (h hmax)

/-- The limit is reached: there is nothing to sample. -/
theorem limited_of_budgetReached (h : Sampled pageSize translate mapping done p)
    (hw : Within cfg done) (hb : budgetReached cfg p = true) {α : Type} (l : List α) :
    limited cfg done.length l = [] := by
  rw [budgetReached, Bool.and_eq_true, decide_eq_true_iff, decide_eq_true_iff, h.sampled] at hb
  have hmax : cfg.maxPagesToSample ≠ 0 := UInt64.pos_iff_ne_zero.1 hb.1
  have hlen := hw hmax
  have hle : cfg.maxPagesToSample.toNat ≤ done.length := by
    have := UInt64.le_iff_toNat_le.1 hb.2
    rwa [UInt64.toNat_ofNat_of_lt' (hlen.trans_lt cfg.maxPagesToSample.toNat_lt)] at this
  rw [limited, if_neg hmax, Nat.sub_eq_zero_of_le hle, List.take_zero]

/-- The limit is not reached: the next address is to be sampled. -/
theorem limited_of_not_budgetReached (h : Sampled pageSize translate mapping done p)
    (hw : Within cfg done) (hb : ¬budgetReached cfg p = true) {α : Type} (x : α) (l : List α) :
    limited cfg done.length (x :: l) = x :: limited cfg (done.length + 1) l := by
  rw [limited, limited]
  split
  · rfl
  · rename_i hmax
    have hlen := hw hmax
    have hlt : done.length < cfg.maxPagesToSample.toNat := by
      rw [budgetReached, Bool.and_eq_true, decide_eq_true_iff, decide_eq_true_iff, h.sampled] at hb
      have := UInt64.not_le.1 fun hle => hb ⟨UInt64.pos_iff_ne_zero.2 hmax, hle⟩
      rw [UInt64.lt_iff_toNat_lt] at this
      rwa [UInt64.toNat_ofNat_of_lt' (hlen.trans_lt cfg.maxPagesToSample.toNat_lt)] at this
    obtain ⟨n, hn⟩ : ∃ n, cfg.maxPagesToSample.toNat - done.length = n + 1 :=
      ⟨cfg.maxPagesToSample.toNat - done.length - 1, by omega⟩
    rw [hn, List.take_succ_cons]
    congr 2
    omega

/-- The address of the `k`-th step in a region. -/
def vaAt (region : MapsRegion) (pageSize : UInt64) (stride k : ℕ) : UInt64 :=
  UInt64.ofNat (region.start.toNat + k * stride * pageSize.toNat)

/-- The address that the loop forms is the one of its page. -/
theorem vaAt_eq (region : MapsRegion) (pageSize : UInt64) (stride k : ℕ) :
    region.start + UInt64.ofNat (k * stride) * pageSize = vaAt region pageSize stride k := by
  rw [vaAt, UInt64.ofNat_add, UInt64.ofNat_mul (k * stride), UInt64.ofNat_toNat, UInt64.ofNat_toNat]

/-- The loop over a region, from the step `k` on, with `n` steps left. -/
theorem sampleLoop_spec (region : MapsRegion) {regionPages stride : UInt64}
    (hs : 0 < stride.toNat) (hpages : regionPages.toNat ≤ 2 ^ 52) (n : ℕ) :
    ∀ {k fuel : ℕ} {done : List UInt64} {p : BankProfile},
      k + n = strideCount regionPages.toNat stride.toNat → n < fuel →
      Sampled pageSize translate mapping done p → Within cfg done →
      ∃ s, sampleLoop translate mapping cfg region pageSize regionPages stride fuel
          (UInt64.ofNat (k * stride.toNat)) p done = some s ∧
        Outcome pageSize translate mapping done (limited cfg done.length
          ((List.range' k n).map (vaAt region pageSize stride.toNat))) s := by
  -- On the turns that are left: `k` turns are done, and the page of turn `k` is `k * stride`.
  induction n with
  | zero =>
    intro k fuel done p hk hfuel hp hw
    obtain ⟨fuel, rfl⟩ := Nat.exists_eq_succ_of_ne_zero hfuel.ne'
    rw [Nat.add_zero] at hk
    have hnot := not_lt_of_strideCount hs (hpages.trans (by norm_num)) hk
    rw [sampleLoop, if_pos hnot, List.range'_zero, List.map_nil, limited_nil]
    exact ⟨_, rfl, .nil hp⟩
  | succ n ih =>
    intro k fuel done p hk hfuel hp hw
    obtain ⟨fuel, rfl⟩ := Nat.exists_eq_succ_of_ne_zero (Nat.ne_zero_of_lt hfuel)
    have hlt : UInt64.ofNat (k * stride.toNat) < regionPages := lt_of_lt_strideCount hs (by omega)
    rw [sampleLoop, if_neg (not_not.2 hlt), List.range'_succ, List.map_cons]
    by_cases hb : budgetReached cfg p = true
    · rw [if_pos hb, limited_of_budgetReached hp hw hb]
      exact ⟨_, rfl, .nil hp⟩
    · rw [if_neg hb, limited_of_not_budgetReached hp hw hb, vaAt_eq]
      dsimp only
      rcases samplePage_cases hp (vaAt region pageSize stride.toNat k) with
        ⟨p', hpage, hp'⟩ | ⟨p', hpage, hfull⟩
      · rw [hpage, ofNat_mul_add_stride]
        have hw' : Within cfg (done ++ [vaAt region pageSize stride.toNat k]) := by
          have := hw.append_limited [vaAt region pageSize stride.toNat k]
          rwa [limited_of_not_budgetReached hp hw hb, limited_nil] at this
        have hk' : k + 1 + n = strideCount regionPages.toNat stride.toNat := by omega
        obtain ⟨s, hs', ho⟩ := ih hk' (Nat.lt_of_succ_lt_succ hfuel) hp' hw'
        rw [List.length_append, List.length_singleton] at ho
        exact ⟨s, hs', ho.prepend⟩
      · -- The histogram is full: the loop ends at this page.
        rw [hpage]
        exact ⟨_, rfl, .first hp hfull p' _⟩

theorem strideOf_pos (cfg : BankProfileConfig) : 0 < strideOf cfg := by
  rw [strideOf]
  split
  · exact Nat.one_pos
  · rename_i h
    exact UInt64.lt_iff_toNat_lt.1 (UInt64.pos_iff_ne_zero.2 h)

theorem strideCount_le {pages stride : ℕ} (hs : 0 < stride) : strideCount pages stride ≤ pages := by
  by_contra h
  have := (lt_strideCount_iff hs).1 (Nat.lt_of_not_le h)
  nlinarith

theorem toNat_regionPages {region : MapsRegion} (hr : region.start ≤ region.stop)
    (pageSize : UInt64) :
    ((region.stop - region.start) / pageSize).toNat = region.pages pageSize.toNat := by
  rw [UInt64.toNat_div, UInt64.toNat_sub_of_le _ _ hr, MapsRegion.pages]

theorem MapsRegion.pages_le (region : MapsRegion) (hps : 4096 ≤ pageSize.toNat) :
    region.pages pageSize.toNat ≤ 2 ^ 52 := by
  have hstop := region.stop.toNat_lt
  calc region.pages pageSize.toNat
      ≤ (region.stop.toNat - region.start.toNat) / 4096 := Nat.div_le_div_left hps (by decide)
    _ ≤ 2 ^ 52 := by omega

/-- A region is sampled at its addresses, as far as the limit allows. -/
theorem sampleRegion_spec (hps : 4096 ≤ pageSize.toNat) {region : MapsRegion}
    (hr : region.start ≤ region.stop) {fuel : ℕ} (hfuel : 2 ^ 52 < fuel)
    (hp : Sampled pageSize translate mapping done p) (hw : Within cfg done) :
    ∃ s, sampleRegion fuel translate mapping cfg region p done = some s ∧
      Outcome pageSize translate mapping done (limited cfg done.length
        ((region.addresses pageSize.toNat (strideOf cfg)).map UInt64.ofNat)) s := by
  obtain rfl := hp.pageSize_eq
  have hne : p.pageSize ≠ 0 := by
    intro h
    rw [h] at hps
    exact absurd hps (by decide)
  have hstride : (if cfg.sampleStridePages = 0 then 1 else cfg.sampleStridePages).toNat =
      strideOf cfg := by
    rw [strideOf]
    split <;> rfl
  have hpages := toNat_regionPages hr p.pageSize
  have hle := region.pages_le hps
  -- the number of pages seen does not matter
  have hp' : Sampled p.pageSize translate mapping done { p with
      counters := { p.counters with
        pagesSeen := p.counters.pagesSeen + (region.stop - region.start) / p.pageSize } } :=
    hp.congr rfl rfl rfl rfl
  obtain ⟨s, hs, ho⟩ := sampleLoop_spec region (hstride ▸ strideOf_pos cfg) (hpages ▸ hle)
    (strideCount (region.pages p.pageSize.toNat) (strideOf cfg))
    (by rw [Nat.zero_add, hpages, hstride])
    (((strideCount_le (strideOf_pos cfg)).trans hle).trans_lt hfuel) hp' hw
  rw [Nat.zero_mul] at hs
  rw [hstride] at ho
  rw [sampleRegion, if_neg hne, MapsRegion.addresses, List.map_map, List.range_eq_range']
  exact ⟨s, hs, ho⟩

/-- A line that parses is a region with at least one address. -/
theorem start_lt_stop_of_parseMapsLine {line : List Char} {region : MapsRegion}
    (h : parseMapsLine line = some region) : region.start < region.stop := by
  simp only [parseMapsLine, Option.bind_eq_bind, Option.bind_eq_some_iff] at h
  obtain ⟨x1, -, x2, -, x3, -, x4, -, x5, -, x6, -, x7, -, h⟩ := h
  split at h
  · exact absurd h nofun
  · rename_i hlt
    rw [Option.some.injEq] at h
    rw [← h]
    exact UInt64.not_le.1 hlt

theorem selectedRegions_cons_some {line : List Char} {rest : List (List Char)} {region : MapsRegion}
    (hparse : parseMapsLine line = some region) :
    selectedRegions cfg (line :: rest) =
      if regionIsSelected region cfg then region :: selectedRegions cfg rest
      else selectedRegions cfg rest := by
  rw [selectedRegions, List.filterMap_cons_some hparse, List.filter_cons]
  rfl

/-- The lines are sampled at the addresses of their selected regions, as far as the limit
    allows. -/
theorem mapsLoop_spec (hps : 4096 ≤ pageSize.toNat) {fuel : ℕ} (hfuel : 2 ^ 52 < fuel)
    (lines : List (List Char)) (hp : Sampled pageSize translate mapping done p)
    (hw : Within cfg done) :
    ∃ s, mapsLoop fuel translate mapping cfg lines p done = some s ∧
      Outcome pageSize translate mapping done (limited cfg done.length
        (((selectedRegions cfg lines).flatMap fun region =>
          region.addresses pageSize.toNat (strideOf cfg)).map UInt64.ofNat)) s := by
  induction lines generalizing done p with
  | nil =>
    rw [mapsLoop]
    refine ⟨_, rfl, ?_⟩
    simpa [selectedRegions, limited_nil] using Outcome.nil hp
  | cons line rest ih =>
    rw [mapsLoop]
    cases hparse : parseMapsLine line with
    | none =>
      rw [selectedRegions, List.filterMap_cons_none hparse]
      exact ih hp hw
    | some region =>
      rw [selectedRegions_cons_some hparse]
      by_cases hsel : regionIsSelected region cfg = true
      · rw [if_pos hsel, List.flatMap_cons, List.map_append, limited_append]
        dsimp only
        rw [if_neg (by rw [hsel]; decide)]
        -- the counters of regions do not matter
        have hp' : Sampled pageSize translate mapping done { p with
            counters := { p.counters with
              regionsSeen := p.counters.regionsSeen + 1
              regionsSelected := p.counters.regionsSelected + 1 } } :=
          hp.congr rfl rfl rfl rfl
        have hr := UInt64.le_of_lt (start_lt_stop_of_parseMapsLine hparse)
        obtain ⟨s, hs, ho⟩ := sampleRegion_spec hps hr hfuel hp' hw
        rw [hs]
        cases ho with
        | full htodo hroom hfull =>
          exact ⟨_, rfl, (Outcome.full htodo hroom hfull).extend nofun _⟩
        | @all p'' hp'' =>
          have hw' := hw.append_limited
            ((region.addresses pageSize.toNat (strideOf cfg)).map UInt64.ofNat)
          dsimp only
          rw [← List.length_append]
          by_cases hb : budgetReached cfg p'' = true
          · rw [if_pos hb, limited_of_budgetReached hp'' hw' hb, List.append_nil]
            exact ⟨_, rfl, .all hp''⟩
          · rw [if_neg hb]
            obtain ⟨s, hs, ho⟩ := ih hp'' hw'
            exact ⟨s, hs, ho.prepend⟩
      · rw [if_neg hsel]
        dsimp only
        rw [if_pos (Bool.eq_false_iff.2 hsel)]
        exact ih (hp.congr rfl rfl rfl rfl) hw

end Loops

/-! ## What sampling leaves alone -/

/-- What sampling leaves alone. -/
structure SameRegion (p p' : BankProfile) : Prop where
  pageSize : p'.pageSize = p.pageSize
  pagesSeen : p'.counters.pagesSeen = p.counters.pagesSeen
  regionsSeen : p'.counters.regionsSeen = p.counters.regionsSeen

section

variable {translate : UInt64 → Except AddrTranslateRc UInt64} {mapping : DramMapping}
  {cfg : BankProfileConfig} {p : BankProfile}

theorem SameRegion.refl (p : BankProfile) : SameRegion p p := ⟨rfl, rfl, rfl⟩

theorem SameRegion.trans {p₁ p₂ p₃ : BankProfile} (h : SameRegion p₁ p₂) (h' : SameRegion p₂ p₃) :
    SameRegion p₁ p₃ :=
  ⟨h'.pageSize.trans h.pageSize, h'.pagesSeen.trans h.pagesSeen,
    h'.regionsSeen.trans h.regionsSeen⟩

theorem samplePage_sameRegion (translate : UInt64 → Except AddrTranslateRc UInt64)
    (mapping : DramMapping) (pageSize va : UInt64) (p : BankProfile) :
    SameRegion p (samplePage translate mapping pageSize va p).2 := by
  have hadd : ∀ (p' : BankProfile) (c : UInt64), SameRegion p p' →
      SameRegion p (profileAddBankClass p' c pageSize).2 := by
    intro p' c hsame
    rw [profileAddBankClass, profileAddBankClassCount]
    split
    · exact hsame
    · split
      · exact ⟨hsame.pageSize, hsame.pagesSeen, hsame.regionsSeen⟩
      · split <;> exact ⟨hsame.pageSize, hsame.pagesSeen, hsame.regionsSeen⟩
  rw [samplePage]
  cases translate va with
  | error rc => cases rc <;> exact ⟨rfl, rfl, rfl⟩
  | ok physicalAddress =>
    dsimp only
    cases dramMappingBankClass mapping physicalAddress with
    | error e => exact ⟨rfl, rfl, rfl⟩
    | ok bankClass => exact hadd _ bankClass ⟨rfl, rfl, rfl⟩

theorem sampleLoop_sameRegion {region : MapsRegion} {pageSize regionPages stride : UInt64}
    {fuel : ℕ} {pageIdx : UInt64} {queries : List UInt64} {s : Sampling}
    (h : sampleLoop translate mapping cfg region pageSize regionPages stride fuel pageIdx p
      queries = some s) : SameRegion p s.profile := by
  induction fuel generalizing pageIdx p queries with
  | zero => cases h
  | succ fuel ih =>
    rw [sampleLoop] at h
    split at h
    · cases h
      exact .refl p
    split at h
    · cases h
      exact .refl p
    have hpage := samplePage_sameRegion translate mapping pageSize
      (region.start + pageIdx * pageSize) p
    dsimp only at h
    split at h
    · next p' heq =>
      rw [heq] at hpage
      exact hpage.trans (ih h)
    · next rc p' hrc heq =>
      rw [heq] at hpage
      cases h
      exact hpage

/-- A region leaves the page size and the count of the regions alone. -/
theorem sampleRegion_frame {region : MapsRegion} {fuel : ℕ} {queries : List UInt64} {s : Sampling}
    (h : sampleRegion fuel translate mapping cfg region p queries = some s) :
    s.profile.pageSize = p.pageSize ∧
      s.profile.counters.regionsSeen = p.counters.regionsSeen := by
  rw [sampleRegion] at h
  dsimp only at h
  split at h
  · cases h
    exact ⟨rfl, rfl⟩
  · have hloop := sampleLoop_sameRegion h
    exact ⟨hloop.pageSize, hloop.regionsSeen⟩

/-- The loop over a region ends, from the step `k` on, with `n` steps left. -/
theorem sampleLoop_isSome (region : MapsRegion) {pageSize regionPages stride : UInt64}
    (hs : 0 < stride.toNat) (hpages : regionPages.toNat ≤ 2 ^ 63) (n : ℕ) :
    ∀ {k fuel : ℕ} {p : BankProfile} {queries : List UInt64},
      k + n = strideCount regionPages.toNat stride.toNat → n < fuel →
      (sampleLoop translate mapping cfg region pageSize regionPages stride fuel
        (UInt64.ofNat (k * stride.toNat)) p queries).isSome := by
  induction n with
  | zero =>
    intro k fuel p queries hk hfuel
    obtain ⟨fuel, rfl⟩ := Nat.exists_eq_succ_of_ne_zero hfuel.ne'
    rw [Nat.add_zero] at hk
    rw [sampleLoop, if_pos (not_lt_of_strideCount hs hpages hk)]
    rfl
  | succ n ih =>
    intro k fuel p queries hk hfuel
    obtain ⟨fuel, rfl⟩ := Nat.exists_eq_succ_of_ne_zero (Nat.ne_zero_of_lt hfuel)
    rw [sampleLoop]
    split
    · rfl
    split
    · rfl
    dsimp only
    split
    · rw [ofNat_mul_add_stride]
      exact ih (by omega) (by omega)
    · rfl

/-- A region is sampled in finitely many steps, if a page is more than one byte. -/
theorem sampleRegion_isSome {fuel : ℕ} (hfuel : 2 ^ 63 < fuel) (region : MapsRegion)
    (hp : p.pageSize.toNat ≠ 1) (queries : List UInt64) :
    (sampleRegion fuel translate mapping cfg region p queries).isSome := by
  rw [sampleRegion]
  dsimp only
  split
  · rfl
  rename_i hzero
  have hne : p.pageSize.toNat ≠ 0 := fun h => hzero (UInt64.toNat_inj.1 h)
  have hpages : ((region.stop - region.start) / p.pageSize).toNat ≤ 2 ^ 63 := by
    rw [UInt64.toNat_div]
    calc (region.stop - region.start).toNat / p.pageSize.toNat
        ≤ (region.stop - region.start).toNat / 2 := Nat.div_le_div_left (by omega) (by norm_num)
      _ ≤ 2 ^ 63 := by have := (region.stop - region.start).toNat_lt; omega
  have hstrideOf : (if cfg.sampleStridePages = 0 then 1 else cfg.sampleStridePages).toNat =
      strideOf cfg := by
    rw [strideOf]
    split <;> rfl
  have hstride : 0 < (if cfg.sampleStridePages = 0 then 1 else cfg.sampleStridePages).toNat :=
    hstrideOf ▸ strideOf_pos cfg
  have hcount := (strideCount_le hstride).trans hpages
  have hloop : ∀ p' : BankProfile, (sampleLoop translate mapping cfg region p.pageSize _ _ fuel
      (UInt64.ofNat (0 * _)) p' queries).isSome := fun p' =>
    sampleLoop_isSome region hstride hpages _ (Nat.zero_add _) (hcount.trans_lt hfuel)
  simp only [Nat.zero_mul] at hloop
  exact hloop _

/-- With enough fuel the loop over the lines returns. -/
theorem mapsLoop_isSome {fuel : ℕ} (hfuel : 2 ^ 63 < fuel) (lines : List (List Char)) :
    ∀ {p : BankProfile} {queries : List UInt64}, p.pageSize.toNat ≠ 1 →
      (mapsLoop fuel translate mapping cfg lines p queries).isSome := by
  induction lines with
  | nil =>
    intro p queries hp
    rfl
  | cons line lines ih =>
    intro p queries hp
    rw [mapsLoop]
    cases parseMapsLine line with
    | none => exact ih hp
    | some region =>
      dsimp only
      split
      · exact ih hp
      · split
        · next hnone =>
          refine absurd hnone (Option.isSome_iff_ne_none.1 (sampleRegion_isSome hfuel region ?_ _))
          exact hp
        · next p' queries' hsample =>
          split
          · rfl
          · refine ih ?_
            rw [(sampleRegion_frame hsample).1]
            exact hp
        · rfl

end

/-! ## The whole profile -/

/-- What `bank_profile_build` makes of the outcome of its loop. -/
def buildEnd (mapsError : Bool) : Sampling → Sampling
  | ⟨.ok, out, queries⟩ =>
    if mapsError then
      ⟨.errIo, profileSetError out "error while reading /proc/[pid]/maps", queries⟩
    else
      let out := profileFinalize out
      if out.counters.pagesTranslated = 0 ∨ out.entries.length = 0 then
        ⟨.errNoSamples, profileSetError out "no pages were translated into bank classes", queries⟩
      else
        ⟨.ok, out, queries⟩
  | s => s

/-- The profile that the loop of `bank_profile_build` starts from. -/
def buildStart (env : BuildEnv) (pid : ℤ) : BankProfile :=
  { bankProfileReset with pid := pid, pageSize := UInt64.ofNat env.pageSizeLong.toNat }

/-- What a build can come to: it is refused with the profile left as it was, it fails before the
    first line, or it runs its loop. -/
inductive BuildCase (fuel : ℕ) (env : BuildEnv) (pid : ℤ) (mapping : DramMapping)
    (cfg : Option BankProfileConfig) (out : BankProfile) : Option Sampling → Prop
  | refused {rc : BankProfileRc} (hrefused : pid ≤ 0 ∨ dramMappingIsReady mapping = false)
      (hrc : rc = .errInvalidArg ∨ rc = .errNotReady) :
      BuildCase fuel env pid mapping cfg out (some ⟨rc, out, []⟩)
  | failed {rc : BankProfileRc} {p : BankProfile}
      (hrc : rc = .errPageSize ∨ rc = .errOpenMaps ∨ rc = .errAddrOpen) (hp : p.counters = .zero) :
      BuildCase fuel env pid mapping cfg out (some ⟨rc, p, []⟩)
  | looped {maps : List Char} (hmaps : env.maps = some maps) :
      BuildCase fuel env pid mapping cfg out
        ((mapsLoop fuel env.translate mapping (buildConfig cfg) (fgetsLines 1024 maps [])
          (buildStart env pid) []).map (buildEnd env.mapsError))

/-- A build that is not refused and does not fail before the first line. -/
theorem bankProfileBuild_looped {env : BuildEnv} {pid : ℤ} {mapping : DramMapping}
    {maps : List Char} (hpid : ¬pid ≤ 0) (hready : ¬dramMappingIsReady mapping = false)
    (hpage : ¬env.pageSizeLong ≤ 0) (hmaps : env.maps = some maps) (hopen : env.addrOpen = .ok)
    (fuel : ℕ) (cfg : Option BankProfileConfig) (out : BankProfile) :
    bankProfileBuild fuel env pid mapping cfg out =
      (mapsLoop fuel env.translate mapping (buildConfig cfg) (fgetsLines 1024 maps [])
        (buildStart env pid) []).map (buildEnd env.mapsError) := by
  rw [bankProfileBuild, if_neg hpid, if_neg hready]
  dsimp only
  rw [if_neg hpage, hmaps]
  dsimp only
  rw [if_neg (not_not.2 hopen), ← buildStart]
  rcases mapsLoop fuel env.translate mapping (buildConfig cfg) (fgetsLines 1024 maps [])
    (buildStart env pid) [] with _ | ⟨rc, p, queries⟩
  · rfl
  · cases rc with
    | ok =>
      rw [Option.map_some, buildEnd, apply_ite some]
      dsimp only
      rw [apply_ite some]
    | _ => rfl

/-- The ends of `bank_profile_build`. -/
theorem bankProfileBuild_cases (fuel : ℕ) (env : BuildEnv) (pid : ℤ) (mapping : DramMapping)
    (cfg : Option BankProfileConfig) (out : BankProfile) :
    BuildCase fuel env pid mapping cfg out (bankProfileBuild fuel env pid mapping cfg out) := by
  by_cases hpid : pid ≤ 0
  · rw [bankProfileBuild, if_pos hpid]
    exact .refused (.inl hpid) (.inl rfl)
  by_cases hready : dramMappingIsReady mapping = false
  · rw [bankProfileBuild, if_neg hpid, if_pos hready]
    exact .refused (.inr hready) (.inr rfl)
  by_cases hpage : env.pageSizeLong ≤ 0
  · rw [bankProfileBuild, if_neg hpid, if_neg hready]
    dsimp only
    rw [if_pos hpage]
    exact .failed (.inl rfl) rfl
  cases hmaps : env.maps with
  | none =>
    rw [bankProfileBuild, if_neg hpid, if_neg hready]
    dsimp only
    rw [if_neg hpage, hmaps]
    exact .failed (.inr (.inl rfl)) rfl
  | some maps =>
    by_cases hopen : env.addrOpen = .ok
    · rw [bankProfileBuild_looped hpid hready hpage hmaps hopen]
      exact .looped hmaps
    · rw [bankProfileBuild, if_neg hpid, if_neg hready]
      dsimp only
      rw [if_neg hpage, hmaps]
      dsimp only
      rw [if_pos hopen]
      exact .failed (.inr (.inr rfl)) rfl

theorem buildEnd_frame (mapsError : Bool) (s : Sampling) :
    (buildEnd mapsError s).profile.counters = s.profile.counters ∧
      (buildEnd mapsError s).profile.entries = s.profile.entries ∧
      (buildEnd mapsError s).profile.pageSize = s.profile.pageSize := by
  obtain ⟨rc, p, queries⟩ := s
  cases rc with
  | ok =>
    rw [buildEnd]
    split
    · exact ⟨rfl, rfl, rfl⟩
    · dsimp only
      split <;> exact ⟨rfl, rfl, rfl⟩
  | _ => exact ⟨rfl, rfl, rfl⟩

/-- A build returns, if a page is more than one byte. -/
theorem bankProfileBuild_isSome {fuel : ℕ} (hfuel : 2 ^ 63 < fuel) {env : BuildEnv}
    (hpage : env.pageSizeLong ≠ 1) (hlong : env.pageSizeLong < 2 ^ 63) (pid : ℤ)
    (mapping : DramMapping) (cfg : Option BankProfileConfig) (out : BankProfile) :
    (bankProfileBuild fuel env pid mapping cfg out).isSome := by
  have hcase := bankProfileBuild_cases fuel env pid mapping cfg out
  generalize bankProfileBuild fuel env pid mapping cfg out = r at hcase
  cases hcase with
  | refused => rfl
  | failed => rfl
  | looped hmaps =>
    rw [Option.isSome_map]
    refine mapsLoop_isSome hfuel _ ?_
    show (UInt64.ofNat env.pageSizeLong.toNat).toNat ≠ 1
    rw [UInt64.toNat_ofNat_of_lt' (by omega : env.pageSizeLong.toNat < 2 ^ 64)]
    omega

theorem sampledAddresses_buildConfig (cfg : Option BankProfileConfig) (pageSize : ℕ)
    (maps : List Char) :
    sampledAddresses (buildConfig cfg) pageSize maps =
      sampledAddresses (cfg.getD bankProfileConfigDefault) pageSize maps := by
  cases cfg with
  | none => rfl
  | some cfg =>
    rw [buildConfig, Option.getD_some]
    split
    · rename_i h
      have hstride : strideOf { cfg with sampleStridePages := 1 } = strideOf cfg := by
        rw [strideOf, strideOf, if_pos h]
        rfl
      rw [sampledAddresses, hstride]
      rfl
    · rfl

theorem sampled_nil (translate : UInt64 → Except AddrTranslateRc UInt64) (mapping : DramMapping)
    (pid : ℤ) (pageSize : UInt64) :
    Sampled pageSize translate mapping []
      { bankProfileReset with pid := pid, pageSize := pageSize } :=
  ⟨rfl, List.nodup_nil, rfl, Nat.zero_le _, fun _ => rfl, rfl, rfl⟩

section Build

variable {fuel : ℕ} {env : BuildEnv} {maps : List Char} {pid : ℤ} {mapping : DramMapping}

/-- `bank_profile_build` samples the addresses of `sampledAddresses`. -/
theorem bankProfileBuild_spec (hfuel : 2 ^ 52 < fuel) (hpid : 0 < pid)
    (hready : dramMappingIsReady mapping = true) (hps : 4096 ≤ env.pageSizeLong)
    (hps' : env.pageSizeLong < 2 ^ 63) (hmaps : env.maps = some maps) (hopen : env.addrOpen = .ok)
    (hlines : ∀ line ∈ textLines maps [], line.length < 1024) (cfg : Option BankProfileConfig)
    (out : BankProfile) :
    ∃ s, bankProfileBuild fuel env pid mapping cfg out = some (buildEnd env.mapsError s) ∧
      Outcome (UInt64.ofNat env.pageSizeLong.toNat) env.translate mapping []
        ((sampledAddresses (cfg.getD bankProfileConfigDefault) env.pageSizeLong.toNat maps).map
          UInt64.ofNat) s := by
  have hlt : env.pageSizeLong.toNat < 2 ^ 64 := by omega
  have hsize : (UInt64.ofNat env.pageSizeLong.toNat).toNat = env.pageSizeLong.toNat :=
    UInt64.toNat_ofNat_of_lt' hlt
  obtain ⟨s, hs, ho⟩ := mapsLoop_spec (by rw [hsize]; omega) hfuel (textLines maps [])
    (sampled_nil env.translate mapping pid (UInt64.ofNat env.pageSizeLong.toNat))
    (fun _ => Nat.zero_le _ : Within (buildConfig cfg) [])
  refine ⟨s, ?_, ?_⟩
  · rw [bankProfileBuild_looped (by omega) (by rw [hready]; decide) (by omega) hmaps hopen,
      fgetsLines_eq_textLines maps [] hlines, buildStart, hs, Option.map_some]
  · rw [hsize] at ho
    rw [← sampledAddresses_buildConfig, sampledAddresses, ← limited_map]
    exact ho

/-- No two of some regions overlap. -/
def RegionsApart (regions : List MapsRegion) : Prop :=
  regions.Pairwise fun region region' =>
    region.stop ≤ region'.start ∨ region'.stop ≤ region.start

/-- What the profile of a process is to be: the addresses translated are those to sample, or
    those up to the first of a class too many; none of them leaves its region; and the
    counts of the classes are those of the addresses, as words. They are exact if there are fewer
    addresses than words, in particular if their number is limited, or no two regions overlap. -/
structure BuildSpec (cfg : BankProfileConfig) (env : BuildEnv) (mapping : DramMapping)
    (maps : List Char) (s : Sampling) : Prop where
  queries : let addresses := sampledAddresses cfg env.pageSizeLong.toNat maps
    let classes (vas : List ℕ) :=
      classesAt (classAt env.translate mapping) (vas.map UInt64.ofNat)
    (s.rc ≠ .errTooManyClasses ∧ s.queries.map UInt64.toNat = addresses) ∨
    (s.rc = .errTooManyClasses ∧ ∃ pre va post, addresses = pre ++ va :: post ∧
      s.queries.map UInt64.toNat = pre ++ [va] ∧ (classes pre).card ≤ bankProfileMaxEntries ∧
      bankProfileMaxEntries < (classes (pre ++ [va])).card)
  inside : ∀ region ∈ selectedRegions cfg (textLines maps []),
    ∀ va ∈ region.addresses env.pageSizeLong.toNat (strideOf cfg),
      region.start.toNat ≤ va ∧ va < region.stop.toNat
  count : s.rc = .ok → ∀ c, (bankProfileCountForClass s.profile c).toNat =
    ((sampledAddresses cfg env.pageSizeLong.toNat maps).countP fun va =>
      classAt env.translate mapping (UInt64.ofNat va) = some c) % 2 ^ 64
  count_exact : s.rc = .ok →
    (sampledAddresses cfg env.pageSizeLong.toNat maps).length < 2 ^ 64 ∨
      cfg.maxPagesToSample ≠ 0 ∨ RegionsApart (selectedRegions cfg (textLines maps [])) →
    ∀ c, (bankProfileCountForClass s.profile c).toNat =
      (sampledAddresses cfg env.pageSizeLong.toNat maps).countP fun va =>
        classAt env.translate mapping (UInt64.ofNat va) = some c

/-- The addresses of a region are inside it. -/
theorem MapsRegion.mem_addresses {region : MapsRegion} {pageSize stride va : ℕ}
    (hps : 0 < pageSize) (hs : 0 < stride) (h : va ∈ region.addresses pageSize stride) :
    region.start.toNat ≤ va ∧ va < region.stop.toNat := by
  obtain ⟨k, hk, rfl⟩ := List.mem_map.1 h
  rw [List.mem_range, lt_strideCount_iff hs, MapsRegion.pages, Nat.lt_div_iff_mul_lt hps] at hk
  omega

theorem mem_sampledAddresses {cfg : BankProfileConfig} {pageSize va : ℕ}
    (h : va ∈ sampledAddresses cfg pageSize maps) :
    ∃ region ∈ selectedRegions cfg (textLines maps []),
      va ∈ region.addresses pageSize (strideOf cfg) := by
  rw [sampledAddresses, limited] at h
  split at h
  · exact List.mem_flatMap.1 h
  · exact List.mem_flatMap.1 (List.mem_of_mem_take h)

/-- Different steps have different addresses. -/
theorem MapsRegion.nodup_addresses (region : MapsRegion) {pageSize stride : ℕ} (hps : 0 < pageSize)
    (hs : 0 < stride) : (region.addresses pageSize stride).Nodup := by
  refine List.Nodup.map (fun k k' h => ?_) List.nodup_range
  exact Nat.eq_of_mul_eq_mul_right hs (Nat.eq_of_mul_eq_mul_right hps (Nat.add_left_cancel h))

/-- Regions that do not overlap have different addresses. -/
theorem RegionsApart.nodup_addresses {regions : List MapsRegion} (h : RegionsApart regions)
    {pageSize stride : ℕ} (hps : 0 < pageSize) (hs : 0 < stride) :
    (regions.flatMap fun region => region.addresses pageSize stride).Nodup := by
  rw [List.nodup_flatMap]
  refine ⟨fun region _ => region.nodup_addresses hps hs, h.imp fun {region region'} hapart => ?_⟩
  intro va hva hva'
  have hin := MapsRegion.mem_addresses hps hs hva
  have hin' := MapsRegion.mem_addresses hps hs hva'
  rw [UInt64.le_iff_toNat_le, UInt64.le_iff_toNat_le] at hapart
  omega

/-- There are fewer addresses than words if their number is limited, or no two regions overlap. -/
theorem length_sampledAddresses_lt {cfg : BankProfileConfig} {pageSize : ℕ} (hps : 0 < pageSize)
    (h : cfg.maxPagesToSample ≠ 0 ∨ RegionsApart (selectedRegions cfg (textLines maps []))) :
    (sampledAddresses cfg pageSize maps).length < 2 ^ 64 := by
  rcases h with hlimit | hapart
  · have hle := limited_length_le 0 ((selectedRegions cfg (textLines maps [])).flatMap fun region =>
      region.addresses pageSize (strideOf cfg)) hlimit (Nat.zero_le _)
    rw [Nat.zero_add] at hle
    exact hle.trans_lt cfg.maxPagesToSample.toNat_lt
  · have hnodup : (sampledAddresses cfg pageSize maps).Nodup := by
      have hall := hapart.nodup_addresses hps (strideOf_pos cfg)
      rw [sampledAddresses, limited]
      split
      · exact hall
      · exact hall.sublist (List.take_sublist _ _)
    -- an address is below the end of its region, which is a word
    have hrange : (sampledAddresses cfg pageSize maps).toFinset ⊆ Finset.range (2 ^ 64 - 1) := by
      intro va hva
      obtain ⟨region, -, hmem⟩ := mem_sampledAddresses (List.mem_toFinset.1 hva)
      have hin := MapsRegion.mem_addresses hps (strideOf_pos cfg) hmem
      have hstop := region.stop.toNat_lt
      rw [Finset.mem_range]
      omega
    have hcard := Finset.card_le_card hrange
    rw [List.toFinset_card_of_nodup hnodup, Finset.card_range] at hcard
    exact hcard.trans_lt (by norm_num)

/-- As words the addresses are the same. -/
theorem toNat_ofNat_sampledAddresses {cfg : BankProfileConfig} {pageSize : ℕ} (hps : 0 < pageSize)
    {vas : List ℕ} (h : vas ⊆ sampledAddresses cfg pageSize maps) :
    (vas.map UInt64.ofNat).map UInt64.toNat = vas := by
  rw [List.map_map]
  refine (List.map_congr_left fun va hva => ?_).trans (List.map_id vas)
  obtain ⟨region, -, hmem⟩ := mem_sampledAddresses (h hva)
  have hlt := (MapsRegion.mem_addresses hps (strideOf_pos cfg) hmem).2
  exact UInt64.toNat_ofNat_of_lt' (hlt.trans region.stop.toNat_lt)

theorem buildEnd_ok (mapsError : Bool) (p : BankProfile) (queries : List UInt64) :
    (buildEnd mapsError ⟨.ok, p, queries⟩).rc ≠ .errTooManyClasses ∧
      (buildEnd mapsError ⟨.ok, p, queries⟩).queries = queries ∧
      (buildEnd mapsError ⟨.ok, p, queries⟩).profile.entries = p.entries := by
  rw [buildEnd]
  split
  · exact ⟨nofun, rfl, rfl⟩
  · dsimp only
    split
    · exact ⟨nofun, rfl, rfl⟩
    · exact ⟨nofun, rfl, rfl⟩

/-- Every profile is the histogram of the sampled addresses, up to the first class there is
    no room for. -/
theorem build_counts_sampled_addresses (hfuel : 2 ^ 52 < fuel) (hpid : 0 < pid)
    (hready : dramMappingIsReady mapping = true) (hps : 4096 ≤ env.pageSizeLong)
    (hps' : env.pageSizeLong < 2 ^ 63) (hmaps : env.maps = some maps) (hopen : env.addrOpen = .ok)
    (hlines : ∀ line ∈ textLines maps [], line.length < 1024) (cfg : Option BankProfileConfig)
    (out : BankProfile) :
    ∃ s, bankProfileBuild fuel env pid mapping cfg out = some s ∧
      BuildSpec (cfg.getD bankProfileConfigDefault) env mapping maps s := by
  obtain ⟨s, hs, ho⟩ :=
    bankProfileBuild_spec hfuel hpid hready hps hps' hmaps hopen hlines cfg out
  refine ⟨_, hs, ?_⟩
  generalize cfg.getD bankProfileConfigDefault = cfg at ho
  have hpos : 0 < env.pageSizeLong.toNat := by omega
  have hinside : ∀ region ∈ selectedRegions cfg (textLines maps []),
      ∀ va ∈ region.addresses env.pageSizeLong.toNat (strideOf cfg),
        region.start.toNat ≤ va ∧ va < region.stop.toNat :=
    fun _ _ _ hva => MapsRegion.mem_addresses hpos (strideOf_pos cfg) hva
  cases ho with
  | @all p hp =>
    rw [List.nil_append] at hp ⊢
    obtain ⟨hrc, hqueries, hentries⟩ := buildEnd_ok env.mapsError p
      ((sampledAddresses cfg env.pageSizeLong.toNat maps).map UInt64.ofNat)
    have hcount : ∀ c, (bankProfileCountForClass (buildEnd env.mapsError ⟨.ok, p,
          (sampledAddresses cfg env.pageSizeLong.toNat maps).map UInt64.ofNat⟩).profile c).toNat =
        ((sampledAddresses cfg env.pageSizeLong.toNat maps).countP fun va =>
          classAt env.translate mapping (UInt64.ofNat va) = some c) % 2 ^ 64 := by
      intro c
      rw [BankProfile.countForClass_eq, hentries, ← BankProfile.countForClass_eq, hp.count c,
        UInt64.toNat_ofNat', List.countP_map]
      rfl
    refine ⟨.inl ⟨hrc, ?_⟩, hinside, fun _ => hcount, fun _ hlen c => ?_⟩
    · rw [hqueries, toNat_ofNat_sampledAddresses hpos (List.Subset.refl _)]
    · have hlt := hlen.elim id (length_sampledAddresses_lt hpos)
      rw [hcount c, Nat.mod_eq_of_lt (List.countP_le_length.trans_lt hlt)]
  | @full p pre post va htodo hroom hfull =>
    -- the addresses split where the words do
    obtain ⟨pre, rest, hA, rfl, hrest⟩ := List.map_eq_append_iff.1 htodo
    obtain ⟨va, post, rfl, rfl, rfl⟩ := List.map_eq_cons_iff.1 hrest
    have hsub : pre ++ [va] ⊆ sampledAddresses cfg env.pageSizeLong.toNat maps := by
      rw [hA]
      intro x hx
      rw [List.mem_append, List.mem_singleton] at hx
      rw [List.mem_append, List.mem_cons]
      exact hx.imp_right .inl
    refine ⟨.inr ⟨rfl, pre, va, post, hA, ?_, hroom, ?_⟩, hinside, nofun, nofun⟩
    · have hqueries := toNat_ofNat_sampledAddresses hpos hsub
      rw [List.map_append] at hqueries
      exact hqueries
    · dsimp only
      rw [List.map_append]
      exact hfull

end Build

/-- Two regions of three pages each, of which the limit leaves four. -/
theorem build_counts_sampled_addresses_two :
    let maps := "1000-4000 rw-p 0 0 0\n9000-c000 rw-p 0 0 0 [heap]\n".toList
    let cfg : BankProfileConfig := ⟨4, 1, true, true, true, false, false⟩
    let env : BuildEnv := ⟨4096, some maps, false, .ok, .ok⟩
    let mapping : DramMapping := ⟨[0x1000], [], true⟩
    sampledAddresses cfg 4096 maps = [0x1000, 0x2000, 0x3000, 0x9000] ∧
      ∃ s, bankProfileBuild (2 ^ 52 + 1) env 1 mapping (some cfg) bankProfileReset = some s ∧
        BuildSpec cfg env mapping maps s :=
  ⟨by decide +kernel, build_counts_sampled_addresses (by decide) (by decide) (by decide) (by decide)
    (by decide) rfl rfl (by decide +kernel) (some _) _⟩

/-! ## Overlapping regions -/

/-- A line of `maps` for all addresses but the last. -/
def wideLine : List Char := "0-ffffffffffffffff rw-p 0 0 0\n".toList

/-- A system where `maps` has this line `4097` times, and every page is the same. -/
def wideEnv : BuildEnv :=
  ⟨4096, some (List.replicate 4097 wideLine).flatten, false, .ok, fun _ => .ok 0⟩

/-- Every page is to be sampled. -/
def wideConfig : BankProfileConfig := ⟨0, 1, true, true, true, true, true⟩

def wideMapping : DramMapping := ⟨[1], [], true⟩

theorem textLines_wideMaps (n : ℕ) :
    textLines (List.replicate n wideLine).flatten [] = List.replicate n wideLine := by
  induction n with
  | zero => rfl
  | succ n ih =>
    have hline : wideLine = "0-ffffffffffffffff rw-p 0 0 0".toList ++ ['\n'] := by decide +kernel
    rw [List.replicate_succ, List.flatten_cons]
    nth_rewrite 1 [hline]
    rw [List.append_assoc, List.singleton_append, textLines_cons_line (by decide +kernel), ih,
      List.reverse_nil, List.nil_append, ← hline]

theorem length_sampledAddresses_wide :
    (sampledAddresses wideConfig 4096 (List.replicate 4097 wideLine).flatten).length =
      4097 * (2 ^ 52 - 1) := by
  have hparse : parseMapsLine wideLine = some ⟨0, 0xffffffffffffffff, "rw-p".toList, []⟩ := by
    decide +kernel
  have hregions : selectedRegions wideConfig (List.replicate 4097 wideLine) =
      List.replicate 4097 ⟨0, 0xffffffffffffffff, "rw-p".toList, []⟩ := by
    rw [selectedRegions, List.filterMap_replicate_of_some hparse, List.filter_replicate_of_pos]
    decide +kernel
  have hmax : wideConfig.maxPagesToSample = 0 := rfl
  rw [sampledAddresses, limited, if_pos hmax, textLines_wideMaps, hregions, List.length_flatMap,
    List.map_replicate, List.sum_replicate, MapsRegion.addresses, List.length_map,
    List.length_range]
  decide +kernel

theorem classAt_wide (va : UInt64) : classAt wideEnv.translate wideMapping va = some 0 :=
  (by decide +kernel : classAt wideEnv.translate wideMapping 0 = some 0)

theorem classesAt_wide (vas : List UInt64) :
    classesAt (classAt wideEnv.translate wideMapping) vas ⊆ {0} := by
  intro c hc
  rw [classesAt, List.mem_toFinset, List.mem_filterMap] at hc
  obtain ⟨va, -, hva⟩ := hc
  rw [classAt_wide, Option.some.injEq] at hva
  exact Finset.mem_singleton.2 hva.symm

/-- More than `2 ^ 64` pages are of the class `0` here, and its count has wrapped around. -/
theorem count_wraps_around :
    (∀ line ∈ textLines (List.replicate 4097 wideLine).flatten [], line.length < 1024) ∧
    ∃ s, bankProfileBuild (2 ^ 52 + 1) wideEnv 1 wideMapping (some wideConfig) bankProfileReset =
        some s ∧ s.rc = .ok ∧
      (bankProfileCountForClass s.profile 0).toNat ≠
        (sampledAddresses wideConfig 4096 (List.replicate 4097 wideLine).flatten).countP fun va =>
          classAt wideEnv.translate wideMapping (UInt64.ofNat va) = some 0 := by
  have hfit : ∀ line ∈ textLines (List.replicate 4097 wideLine).flatten [], line.length < 1024 := by
    rw [textLines_wideMaps]
    intro line hline
    rw [List.eq_of_mem_replicate hline]
    decide +kernel
  refine ⟨hfit, ?_⟩
  obtain ⟨s, hs, ho⟩ := bankProfileBuild_spec (by decide : 2 ^ 52 < 2 ^ 52 + 1)
    (by decide : (0 : ℤ) < 1) (by decide : dramMappingIsReady wideMapping = true)
    (by decide : 4096 ≤ wideEnv.pageSizeLong) (by decide) rfl rfl hfit (some wideConfig)
    bankProfileReset
  refine ⟨_, hs, ?_⟩
  have hlen := length_sampledAddresses_wide
  have hpages : wideEnv.pageSizeLong.toNat = 4096 := rfl
  rw [hpages, Option.getD_some] at ho
  generalize sampledAddresses wideConfig 4096 (List.replicate 4097 wideLine).flatten = A at hlen ho
  cases ho with
  | full htodo hroom hfull =>
    have hcard := Finset.card_le_card (classesAt_wide _) |>.trans_lt' hfull
    exact absurd hcard (by decide)
  | @all p hp =>
    rw [List.nil_append] at hp ⊢
    have hall : A.countP (fun va =>
        decide (classAt wideEnv.translate wideMapping (UInt64.ofNat va) = some 0)) =
          4097 * (2 ^ 52 - 1) := by
      rw [← hlen, List.countP_eq_length]
      exact fun va _ => decide_eq_true (classAt_wide _)
    -- The regions have more than `2 ^ 64` pages together, all in one class.
    have hcount : bankProfileCountForClass p 0 = UInt64.ofNat (4097 * (2 ^ 52 - 1)) := by
      rw [← hall, hp.count 0, List.countP_map]
      rfl
    have htranslated : p.counters.pagesTranslated = UInt64.ofNat (4097 * (2 ^ 52 - 1)) := by
      have hok : (A.map UInt64.ofNat).countP (fun va => (wideEnv.translate va).isOk) =
          (A.map UInt64.ofNat).length := List.countP_eq_length.2 fun va _ => rfl
      rw [hp.translated, hok, List.length_map, hlen]
    have hentries : p.entries.length ≠ 0 := by
      intro h
      rw [bankProfileCountForClass, List.eq_nil_of_length_eq_zero h] at hcount
      exact absurd hcount (by decide +kernel)
    have hend : buildEnd wideEnv.mapsError ⟨.ok, p, A.map UInt64.ofNat⟩ =
        ⟨.ok, profileFinalize p, A.map UInt64.ofNat⟩ := by
      have hne : ¬((profileFinalize p).counters.pagesTranslated = 0 ∨
          (profileFinalize p).entries.length = 0) :=
        not_or.2 ⟨fun h => absurd (htranslated.symm.trans h) (by decide +kernel), hentries⟩
      rw [buildEnd]
      exact if_neg hne
    rw [hend]
    refine ⟨rfl, ?_⟩
    rw [hall]
    exact fun h => absurd ((congrArg UInt64.toNat hcount).symm.trans h) (by decide +kernel)

end CgroupResearch
