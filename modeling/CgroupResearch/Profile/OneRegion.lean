import CgroupResearch.Profile.Conserved

/-!
# One line of `maps`, one region

`bank_profile_build` reads `/proc/[pid]/maps` with a buffer of 1024 bytes and takes what
each `fgets` leaves in it for a line. A line that is longer, as a line with a long name is,
comes in several pieces. The first holds all that is read of the region; each of the others
is text from the middle of the name, and is taken for a region of its own if it looks like
one. The name is that of a file, which another program may choose.

* `MapsLine`: a line as the kernel writes it, and its text;
* `parseMapsLine_header`: the first piece gives the region of the line;
* `regionsRead_mapsText`: what all the pieces give;
* `one_region_per_line_iff`: when each line gives one region.
-/

namespace CgroupResearch

open CNumber CString

/-! ## The format of the kernel -/

/-- The permissions of a region. -/
structure MapsPerms where
  r : Bool
  w : Bool
  x : Bool
  mayshare : Bool
  deriving DecidableEq, Repr

/-- The four letters of the permissions. -/
def MapsPerms.text (p : MapsPerms) : List Char :=
  [if p.r then 'r' else '-', if p.w then 'w' else '-', if p.x then 'x' else '-',
    if p.mayshare then 's' else 'p']

/-- The longest name there is, `PATH_MAX`. -/
def pathMax : ℕ := 4096

/-- A line of `/proc/[pid]/maps`. The name (none is the empty one) is aligned by `pad` spaces;
    a newline in it is escaped by the kernel, other bytes are not. -/
structure MapsLine where
  start : UInt64
  stop : UInt64
  start_lt_stop : start < stop
  perms : MapsPerms
  offset : UInt64
  major : UInt32
  minor : UInt32
  inode : UInt64
  pad : ℕ
  pathname : List Char
  newline_notMem : '\n' ∉ pathname
  pathname_length_le : pathname.length ≤ pathMax

/-- The fields of a line before its name. -/
def MapsLine.header (l : MapsLine) : List Char :=
  hexPadded 8 l.start.toNat ++ '-' :: (hexPadded 8 l.stop.toNat ++ ' ' :: (l.perms.text ++
    ' ' :: (hexPadded 8 l.offset.toNat ++ ' ' :: ((hexPadded 2 l.major.toNat ++
      ':' :: hexPadded 2 l.minor.toNat) ++ ' ' :: (Nat.toDigits 10 l.inode.toNat ++ [' '])))))

/-- A line without its newline. -/
def MapsLine.body (l : MapsLine) : List Char :=
  l.header ++ (List.replicate l.pad ' ' ++ l.pathname)

/-- The text of a line. -/
def MapsLine.text (l : MapsLine) : List Char := l.body ++ ['\n']

/-- The text of `maps`. -/
def mapsText (ls : List MapsLine) : List Char := ls.flatMap MapsLine.text

/-- The regions that the loop of `bank_profile_build` can see in the text of `maps`. -/
def regionsRead (maps : List Char) : List MapsRegion :=
  (fgetsLines 1024 maps []).filterMap parseMapsLine

/-- What `fgets` leaves of a line in its buffer, the `k`-th time. -/
def MapsLine.piece (l : MapsLine) (k : ℕ) : List Char := (l.text.drop (1023 * k)).take 1023

/-- Each line gives one region, with its start and its end: the regions the loop can see are
    these, and a build sees no more than there are lines. -/
structure OneRegionPerLine (ls : List MapsLine) : Prop where
  regions : (regionsRead (mapsText ls)).map (fun r => (r.start, r.stop)) =
    ls.map fun l => (l.start, l.stop)
  seen_le : ∀ fuel env pid mapping cfg out s, env.maps = some (mapsText ls) → 0 < pid →
    dramMappingIsReady mapping = true → bankProfileBuild fuel env pid mapping cfg out = some s →
    s.profile.counters.regionsSeen.toNat ≤ ls.length

/-- A piece of a line, other than the first, looks like a region. -/
def MapsLine.Misread (l : MapsLine) : Prop := ∃ k, 0 < k ∧ (parseMapsLine (l.piece k)).isSome

/-! ## The fields of a line -/

/-- `%llx` on a field. -/
theorem scanUll_hexPadded {width n : ℕ} (hn : n < 2 ^ 64) {c : Char} (hc : c = '-' ∨ c = ' ')
    (s : List Char) : scanUll 16 (hexPadded width n ++ c :: s) = some (UInt64.ofNat n, c :: s) := by
  rw [scanUll_hexDigits (hexPadded_ne_nil width n) isDigitOf_of_mem_hexPadded
    (by rwa [ofDigits_hexPadded]), ofDigits_hexPadded]
  · intro d hd
    obtain rfl : c = d := Option.some.inj hd
    rcases hc with rfl | rfl <;> decide
  · intro d hd
    obtain rfl : c = d := Option.some.inj hd
    rcases hc with rfl | rfl <;> decide

/-- A field after the space before it. -/
theorem scanSpace_field {w : List Char} (hne : w ≠ []) (hw : ∀ c ∈ w, isspace c = false)
    (s : List Char) : scanSpace (' ' :: (w ++ s)) = w ++ s := by
  rw [scanSpace, List.dropWhile_cons_of_pos (by decide)]
  exact scanSpace_word hne hw s

theorem MapsPerms.isspace_text (p : MapsPerms) : ∀ c ∈ p.text, isspace c = false := by
  obtain ⟨r, w, x, s⟩ := p
  cases r <;> cases w <;> cases x <;> cases s <;> decide

theorem isspace_hexPadded {width n : ℕ} : ∀ c ∈ hexPadded width n, isspace c = false :=
  fun c hc => isspace_hexDigit (isDigitOf_of_mem_hexPadded c hc)

theorem isDigitOf_hex_of_mem_toDigits {n : ℕ} : ∀ c ∈ Nat.toDigits 10 n, isDigitOf 16 c = true := by
  intro c hc
  have hten : digitValue c < 10 :=
    of_decide_eq_true (isDigitOf_of_mem_toDigits (by decide) (by decide) c hc)
  exact decide_eq_true (by omega)

namespace MapsLine

/-- The device of a line. -/
def dev (l : MapsLine) : List Char := hexPadded 2 l.major.toNat ++ ':' :: hexPadded 2 l.minor.toNat

theorem isspace_dev (l : MapsLine) : ∀ c ∈ l.dev, isspace c = false := by
  rw [dev, List.forall_mem_append, List.forall_mem_cons]
  exact ⟨isspace_hexPadded, by decide, isspace_hexPadded⟩

theorem length_dev_le (l : MapsLine) : l.dev.length ≤ 31 := by
  have hhex : ∀ n : UInt32, (hexPadded 2 n.toNat).length ≤ 8 := by
    intro n
    have hle : (Nat.toDigits 16 n.toNat).length ≤ 8 :=
      (Nat.length_toDigits_le_iff (by decide) (by decide)).2 (n.toNat_lt.trans_le (by norm_num))
    rw [hexPadded, List.length_append, List.length_replicate]
    omega
  have h₁ := hhex l.major
  have h₂ := hhex l.minor
  rw [dev, List.length_append, List.length_cons]
  omega

/-- The bytes of the fields before the name. -/
theorem header_bytes (l : MapsLine) :
    ∀ c ∈ l.header, isDigitOf 16 c = true ∨ c ∈ "- :rwxsp".toList := by
  have hhex : ∀ {width n : ℕ}, ∀ c ∈ hexPadded width n,
      isDigitOf 16 c = true ∨ c ∈ "- :rwxsp".toList := fun c hc =>
    .inl (isDigitOf_of_mem_hexPadded c hc)
  have hperms : ∀ c ∈ l.perms.text, c ∈ "- :rwxsp".toList := by
    obtain ⟨r, w, x, s⟩ := l.perms
    cases r <;> cases w <;> cases x <;> cases s <;> decide
  simp only [header, List.forall_mem_append, List.forall_mem_cons]
  exact ⟨hhex, .inr (by decide), hhex, .inr (by decide), fun c hc => .inr (hperms c hc),
    .inr (by decide), hhex, .inr (by decide), ⟨hhex, .inr (by decide), hhex⟩, .inr (by decide),
    fun c hc => .inl (isDigitOf_hex_of_mem_toDigits c hc), .inr (by decide), List.forall_mem_nil _⟩

theorem notMem_header (l : MapsLine) {c : Char} (hd : isDigitOf 16 c = false)
    (hc : c ∉ "- :rwxsp".toList) : c ∉ l.header := by
  intro hmem
  rcases l.header_bytes c hmem with h | h
  · exact hexDigit_ne h hd rfl
  · exact hc h

theorem length_header_le (l : MapsLine) : l.header.length ≤ 1023 := by
  have hhex : ∀ n : UInt64, (hexPadded 8 n.toNat).length ≤ 16 := fun n =>
    (length_hexPadded (n.toNat_lt.trans_le (by norm_num))).2
  have hdev := l.length_dev_le
  have hinode : (Nat.toDigits 10 l.inode.toNat).length ≤ 20 :=
    (Nat.length_toDigits_le_iff (by decide) (by decide)).2
      (l.inode.toNat_lt.trans_le (by norm_num))
  have h₁ := hhex l.start
  have h₂ := hhex l.stop
  have h₃ := hhex l.offset
  rw [dev] at hdev
  simp only [header, MapsPerms.text, List.length_append, List.length_cons, List.length_nil]
    at hdev ⊢
  omega

/-- What is read of a line up to its name, whatever the text of the name. -/
theorem parseMapsLine_header (l : MapsLine) (rest : List Char) :
    parseMapsLine (l.header ++ rest) = some ⟨l.start, l.stop, l.perms.text,
      trimTrailingSpace ((skipLeadingSpace (scanSpace (' ' :: cstr rest))).take 255)⟩ := by
  have hcstr : cstr (l.header ++ rest) = l.header ++ cstr rest := by
    refine List.takeWhile_append_of_pos fun c hc => ?_
    rw [decide_eq_true_eq]
    rintro rfl
    exact l.notMem_header (by decide) (by decide) hc
  have hinode : EndsDigits 10 (' ' :: cstr rest) := by
    intro c hc
    obtain rfl : ' ' = c := Option.some.inj hc
    decide
  have htext : l.perms.text ≠ [] := List.cons_ne_nil _ _
  have hfour : l.perms.text.length ≤ 7 := by simp [MapsPerms.text]
  have hdev : l.dev ≠ [] := List.append_ne_nil_of_right_ne_nil _ (List.cons_ne_nil _ _)
  have hspace : ∀ n : ℕ, ∀ c ∈ Nat.toDigits 10 n, isspace c = false := fun n c hc =>
    isspace_hexDigit (isDigitOf_hex_of_mem_toDigits c hc)
  -- the conversions one after the other
  rw [parseMapsLine, hcstr, header, ← dev]
  simp only [List.append_assoc, List.cons_append, List.nil_append, Option.bind_eq_bind,
    Option.bind_some, scanUll_hexPadded l.start.toNat_lt (.inl rfl), scanLiteral, if_true,
    scanUll_hexPadded l.stop.toNat_lt (.inr rfl), scanSpace_field htext l.perms.isspace_text,
    scanString_word htext l.perms.isspace_text hfour,
    scanSpace_field (hexPadded_ne_nil _ _) isspace_hexPadded,
    scanUll_hexPadded l.offset.toNat_lt (.inr rfl), scanSpace_field hdev l.isspace_dev,
    scanString_word hdev l.isspace_dev l.length_dev_le,
    scanSpace_field Nat.toDigits_ne_nil (hspace _), scanUll_toDigits l.inode.toNat_lt hinode,
    UInt64.ofNat_toNat, if_neg (UInt64.not_le.2 l.start_lt_stop)]

/-- The first piece of a line holds all that is read of it. -/
theorem parseMapsLine_piece_zero (l : MapsLine) :
    ∃ region, parseMapsLine (l.piece 0) = some region ∧
      region.start = l.start ∧ region.stop = l.stop := by
  have hcut : l.piece 0 = l.header ++ ((List.replicate l.pad ' ' ++ l.pathname ++ ['\n']).take
      (1023 - l.header.length)) := by
    rw [piece, Nat.mul_zero, List.drop_zero, text, body, List.append_assoc, List.take_append,
      List.take_of_length_le l.length_header_le]
  rw [hcut, parseMapsLine_header]
  exact ⟨_, rfl, rfl, rfl⟩

theorem newline_notMem_body (l : MapsLine) : '\n' ∉ l.body := by
  rw [body, List.mem_append, List.mem_append, not_or, not_or]
  refine ⟨l.notMem_header (by decide) (by decide), fun hmem => ?_, l.newline_notMem⟩
  exact absurd (List.mem_replicate.1 hmem).2 (by decide)

/-- The regions in the pieces of a line but the first. -/
def strayRegions (l : MapsLine) : List MapsRegion :=
  (pieces 1023 (l.text.drop 1023)).filterMap parseMapsLine

theorem strayRegions_eq_nil_iff (l : MapsLine) : l.strayRegions = [] ↔ ¬l.Misread := by
  have hpiece : ∀ k, ((l.text.drop 1023).drop (1023 * k)).take 1023 = l.piece (k + 1) := by
    intro k
    rw [piece, List.drop_drop, Nat.mul_succ, Nat.add_comm]
  rw [strayRegions, List.filterMap_eq_nil_iff, Misread, not_exists]
  constructor
  · rintro h k ⟨hk, hparse⟩
    obtain ⟨k, rfl⟩ := Nat.exists_eq_succ_of_ne_zero hk.ne'
    rw [Nat.succ_eq_add_one, ← hpiece] at hparse
    rcases Nat.lt_or_ge (1023 * k) (l.text.drop 1023).length with hlt | hge
    · rw [h _ ((mem_pieces (by decide)).2 ⟨k, hlt, rfl⟩)] at hparse
      exact absurd hparse (by decide)
    · -- nothing is left of the line
      rw [List.drop_of_length_le hge] at hparse
      exact absurd hparse (by decide)
  · intro h s hs
    obtain ⟨k, -, rfl⟩ := (mem_pieces (by decide)).1 hs
    rw [hpiece]
    have hnot := h (k + 1)
    rwa [not_and, Option.not_isSome_iff_eq_none, imp_iff_right k.succ_pos] at hnot

end MapsLine

/-! ## The regions of a text -/

/-- Each line gives its region, and then those of its other pieces. -/
theorem regionsRead_mapsText (ls : List MapsLine) :
    (regionsRead (mapsText ls)).map (fun r => (r.start, r.stop)) =
      ls.flatMap fun l => (l.start, l.stop) :: l.strayRegions.map fun r => (r.start, r.stop) := by
  induction ls with
  | nil => rfl
  | cons l ls ih =>
    obtain ⟨region, hregion, hstart, hstop⟩ := l.parseMapsLine_piece_zero
    rw [MapsLine.piece, Nat.mul_zero, List.drop_zero] at hregion
    have hne : l.text ≠ [] := List.append_ne_nil_of_right_ne_nil _ (List.cons_ne_nil _ _)
    have hcons : regionsRead (mapsText (l :: ls)) =
        region :: (l.strayRegions ++ regionsRead (mapsText ls)) := by
      rw [regionsRead, mapsText, List.flatMap_cons, ← mapsText, MapsLine.text, List.append_assoc,
        List.singleton_append, fgetsLines_line (by decide) l.newline_notMem_body, ← MapsLine.text,
        pieces_eq_cons (by decide) hne, List.filterMap_append, List.filterMap_cons, hregion]
      rfl
    rw [hcons, List.map_cons, List.map_append, ih, List.flatMap_cons, hstart, hstop]
    rfl

/-! ## The regions a build sees -/

section

variable {translate : UInt64 → Except AddrTranslateRc UInt64} {mapping : DramMapping}
  {cfg : BankProfileConfig} {fuel : ℕ} {p : BankProfile}
  {queries : List UInt64} {s : Sampling}

/-- The loop over the lines sees no more regions than they hold. -/
theorem mapsLoop_regionsSeen {lines : List (List Char)}
    (h : mapsLoop fuel translate mapping cfg lines p queries = some s) :
    ∃ n ≤ (lines.filterMap parseMapsLine).length,
      s.profile.counters.regionsSeen = p.counters.regionsSeen + UInt64.ofNat n := by
  induction lines generalizing p queries with
  | nil =>
    cases h
    exact ⟨0, le_rfl, (UInt64.add_zero _).symm⟩
  | cons line lines ih =>
    rw [mapsLoop] at h
    cases hline : parseMapsLine line with
    | none =>
      rw [hline] at h
      rw [List.filterMap_cons_none hline]
      exact ih h
    | some region =>
      rw [hline] at h
      rw [List.filterMap_cons_some hline, List.length_cons]
      -- this region is one more, whatever becomes of the others
      have hone : ∀ p' : BankProfile, p'.counters.regionsSeen = p.counters.regionsSeen + 1 →
          ∀ n ≤ (lines.filterMap parseMapsLine).length,
            s.profile.counters.regionsSeen = p'.counters.regionsSeen + UInt64.ofNat n →
            ∃ n ≤ (lines.filterMap parseMapsLine).length + 1,
              s.profile.counters.regionsSeen = p.counters.regionsSeen + UInt64.ofNat n := by
        intro p' hp' n hn hs
        refine ⟨n + 1, Nat.succ_le_succ hn, ?_⟩
        rw [hs, hp', UInt64.ofNat_add, UInt64.add_assoc, UInt64.add_comm 1]
        rfl
      dsimp only at h
      split at h
      · obtain ⟨n, hn, hs⟩ := ih h
        exact hone _ rfl n hn hs
      split at h
      · cases h
      · next p' queries' hsample =>
        have hsame := (sampleRegion_frame hsample).2
        split at h
        · cases h
          exact hone _ hsame 0 (Nat.zero_le _) (UInt64.add_zero _).symm
        · obtain ⟨n, hn, hs⟩ := ih h
          exact hone _ hsame n hn hs
      · next s' hrc hsample =>
        have hsame := (sampleRegion_frame hsample).2
        cases h
        exact hone _ hsame 0 (Nat.zero_le _) (UInt64.add_zero _).symm

end

/-- A build sees no more regions than can be read. -/
theorem bankProfileBuild_regionsSeen_le {fuel : ℕ} {env : BuildEnv} {maps : List Char} {pid : ℤ}
    {mapping : DramMapping} {cfg : Option BankProfileConfig} {out : BankProfile} {s : Sampling}
    (hmaps : env.maps = some maps) (hpid : 0 < pid) (hready : dramMappingIsReady mapping = true)
    (h : bankProfileBuild fuel env pid mapping cfg out = some s) :
    s.profile.counters.regionsSeen.toNat ≤ (regionsRead maps).length := by
  have hcase := bankProfileBuild_cases fuel env pid mapping cfg out
  rw [h] at hcase
  generalize hs : some s = r at hcase
  cases hcase with
  | refused hrefused hrc =>
    rcases hrefused with h | h
    · exact absurd h (by omega)
    · rw [hready] at h
      cases h
  | failed hrc hp =>
    cases hs
    rw [hp]
    exact Nat.zero_le _
  | looped hmaps' =>
    obtain rfl : maps = _ := Option.some.inj (hmaps.symm.trans hmaps')
    obtain ⟨s', hloop, rfl⟩ := Option.map_eq_some_iff.1 hs.symm
    obtain ⟨n, hn, hseen⟩ := mapsLoop_regionsSeen hloop
    rw [(buildEnd_frame env.mapsError s').1, hseen]
    refine le_trans ?_ hn
    have hzero : (buildStart env pid).counters.regionsSeen = 0 := rfl
    rw [hzero, UInt64.zero_add, UInt64.toNat_ofNat']
    exact Nat.mod_le _ _

/-! ## When it holds -/

theorem OneRegionPerLine.not_misread {ls : List MapsLine} (h : OneRegionPerLine ls) :
    ∀ l ∈ ls, ¬l.Misread := by
  have hsum : (ls.map fun l => 1 + l.strayRegions.length).sum = ls.length := by
    have hregions := congrArg List.length h.regions
    rw [regionsRead_mapsText, List.length_flatMap, List.length_map] at hregions
    simpa [Nat.add_comm] using hregions
  rw [List.sum_map_add, List.map_const', List.sum_replicate, smul_eq_mul, Nat.mul_one,
    Nat.add_eq_left, List.sum_eq_zero_iff] at hsum
  intro l hl
  rw [← l.strayRegions_eq_nil_iff, ← List.length_eq_zero_iff]
  exact hsum _ (List.mem_map_of_mem hl)

/-- Each line gives one region iff no later piece of a line looks like one. -/
theorem one_region_per_line_iff (ls : List MapsLine) :
    OneRegionPerLine ls ↔ ∀ l ∈ ls, ¬l.Misread := by
  refine ⟨OneRegionPerLine.not_misread, fun h => ?_⟩
  have hregions : (regionsRead (mapsText ls)).map (fun r => (r.start, r.stop)) =
      ls.map fun l => (l.start, l.stop) := by
    rw [regionsRead_mapsText, List.map_eq_flatMap]
    refine List.flatMap_congr fun l hl => ?_
    rw [l.strayRegions_eq_nil_iff.2 (h l hl)]
    rfl
  refine ⟨hregions, fun fuel env pid mapping cfg out s hmaps hpid hready hbuild => ?_⟩
  have hlength := congrArg List.length hregions
  rw [List.length_map, List.length_map] at hlength
  rw [← hlength]
  exact bankProfileBuild_regionsSeen_le hmaps hpid hready hbuild

/-- A file with a long name, mapped at one page. -/
def longLine : MapsLine where
  start := 0x7f0000000000
  stop := 0x7f0000001000
  start_lt_stop := by decide
  perms := ⟨true, true, false, false⟩
  offset := 0
  major := 8
  minor := 1
  inode := 1234567
  pad := 19
  pathname := (List.replicate 5 ('/' :: List.replicate 189 'a')).flatten ++
    "1000-2000 rw-p 00000000 00:00 0".toList
  newline_notMem := by decide +kernel
  pathname_length_le := by decide +kernel

/-- A line whose name holds, where the second piece starts, what looks like another line. -/
theorem longLine_two_regions :
    (regionsRead (mapsText [longLine])).map (fun r => (r.start, r.stop)) =
      [(0x7f0000000000, 0x7f0000001000), (0x1000, 0x2000)] ∧ ¬OneRegionPerLine [longLine] := by
  have hstray : longLine.strayRegions.map (fun r => (r.start, r.stop)) = [(0x1000, 0x2000)] := by
    decide +kernel
  have hmisread : longLine.Misread := by
    by_contra hnot
    rw [← longLine.strayRegions_eq_nil_iff] at hnot
    rw [hnot] at hstray
    cases hstray
  refine ⟨?_, fun h => h.not_misread longLine List.mem_cons_self hmisread⟩
  rw [regionsRead_mapsText, List.flatMap_singleton, hstray]
  rfl

end CgroupResearch
