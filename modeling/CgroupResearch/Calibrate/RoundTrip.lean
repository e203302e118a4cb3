import CgroupResearch.Calibrate.Report
import CgroupResearch.Calibrate.Scan

/-!
# Reading back the report

What the calibration worker writes, the daemon reads (`report_round_trip`): the reader finds
every key it looks for, since each stands once where it looks, and no other key or string is
taken for it.
-/

namespace CgroupResearch

open CString CNumber PyJson

/-! ## Keys -/

/-- The characters of the keys of the report. -/
def NameChar (c : Char) : Prop := c.isAlphanum ∨ c = '_'

instance : DecidablePred NameChar := fun _ => inferInstanceAs (Decidable (_ ∨ _))

theorem NameChar.plain {c : Char} (h : NameChar c) : Plain c := by
  have hascii : c.toNat < 128 := by
    have hle : ∀ d : Char, d.toNat < 128 → c.val ≤ d.val → c.toNat < 128 := fun d hd hc =>
      lt_of_le_of_lt (UInt32.le_iff_toNat_le.1 hc) hd
    rcases h with h | rfl
    · rcases Bool.or_eq_true_iff.1 h with h | h
      · rcases Bool.or_eq_true_iff.1 h with h | h
        · exact hle 'Z' (by decide) (of_decide_eq_true h).2
        · exact hle 'z' (by decide) (of_decide_eq_true (Bool.and_eq_true_iff.1 h).2)
      · exact hle '9' (by decide) (of_decide_eq_true (Bool.and_eq_true_iff.1 h).2)
    · decide
  have hall : ∀ n < 128, NameChar (Char.ofNat n) → Plain (Char.ofNat n) := by decide
  have hc := hall c.toNat hascii
  rw [Char.ofNat_toNat] at hc
  exact hc h

/-- A key of the report stands for itself. -/
theorem escape_ofString {s : String} (h : ∀ c ∈ s.toList, NameChar c) :
    (PyStr.ofString s).escape = s.toList :=
  escape_ofList fun c hc => (h c hc).plain

theorem avoids_ofString {K s : String} (h : ∀ c ∈ s.toList, NameChar c) (hne : s ≠ K) :
    Avoids K.toList (PyStr.ofString s) := by
  rw [Avoids, escape_ofString h]
  exact ⟨fun h' => hne (String.toList_inj.1 h'), fun c hc => (h c hc).plain.2.2.1⟩

/-- The value of a key in a range: where the search for the key stops. -/
def Found (range : JsonRange) (key : String) (v : PyJson) : Prop :=
  ∃ level next, Follows next ∧ findKeyValue range key = some (render level v ++ next)

/-- Keys that the reader can look for, each of which stands once. -/
structure GoodKeys (keys : List String) : Prop where
  nodup : keys.Nodup
  names : ∀ s ∈ keys, s ≠ "" ∧ s.toList.length < 126 ∧ ∀ c ∈ s.toList, NameChar c

/-- The reader finds the value of a key that stands once in a dictionary, and not inside its
    other values. -/
theorem found_of_mem {range : JsonRange} {level : ℕ} {members : List (String × PyJson)}
    {after : List Char} (htext : range.text = render level (object members) ++ after)
    (hnul : '\x00' ∉ after) {keys : List String} (hkeys : members.map Prod.fst = keys)
    (hgood : GoodKeys keys) {key : String} {v : PyJson} (hmem : (key, v) ∈ members)
    (hvals : ∀ m ∈ members, m.1 ≠ key → m.2.Keys (Avoids key.toList)) :
    Found range key v := by
  have hname : ∀ m ∈ members, m.1 ≠ "" ∧ m.1.toList.length < 126 ∧ ∀ c ∈ m.1.toList, NameChar c :=
    fun m hm => hgood.names m.1 (hkeys ▸ List.mem_map_of_mem hm)
  obtain ⟨hne, hlength, hchars⟩ := hname _ hmem
  have hK : KeyName key.toList := ⟨fun h => hne (String.toList_eq_nil_iff.1 h), hchars⟩
  have hrange : '\x00' ∉ range.text := by
    rw [htext, List.mem_append]
    exact not_or.2 ⟨nul_not_mem_render level _, hnul⟩
  have hmem' : (PyStr.ofString key, v) ∈ members.map fun m => (PyStr.ofString m.1, m.2) :=
    List.mem_map.2 ⟨_, hmem, rfl⟩
  obtain ⟨next, hnext, hscan⟩ := scanKey_dict hK hmem' (escape_ofString hchars)
    (fun m hm => by
      obtain ⟨m', hm', rfl⟩ := List.mem_map.1 hm
      by_cases hkey : m'.1 = key
      · rw [List.inj_on_of_nodup_map (hkeys ▸ hgood.nodup) hm' hmem hkey]
        exact .inl rfl
      · exact .inr ⟨avoids_ofString (hname m' hm').2.2 hkey, hvals m' hm' hkey⟩) level after
  refine ⟨level + 1, next, hnext, ?_⟩
  rw [findKeyValue_eq hrange hlength, htext]
  exact hscan

/-- The reader finds the value of a key in a range that is a dictionary. -/
theorem found_member {level : ℕ} {members : List (String × PyJson)} {rest : List Char}
    {keys : List String} (hkeys : members.map Prod.fst = keys) (hgood : GoodKeys keys)
    {key : String} {v : PyJson} (hmem : (key, v) ∈ members)
    (hvals : ∀ m ∈ members, m.1 ≠ key → m.2.Keys (Avoids key.toList)) :
    Found ⟨render level (object members), rest⟩ key v :=
  found_of_mem (List.append_nil _).symm List.not_mem_nil hkeys hgood hmem hvals

/-- The reader does not find a key that is not there. -/
theorem findKeyValue_eq_none {range : JsonRange} {level : ℕ} {members : List (String × PyJson)}
    {after : List Char} (htext : range.text = render level (object members) ++ after)
    (hnul : '\x00' ∉ after) (hquote : '"' ∉ after) {key : String} (hK : KeyName key.toList)
    (hlength : key.toList.length < 126) (h : (object members).Keys (Avoids key.toList)) :
    findKeyValue range key = none := by
  have hrange : '\x00' ∉ range.text := by
    rw [htext, List.mem_append]
    exact not_or.2 ⟨nul_not_mem_render level _, hnul⟩
  have hafter := scanKey_append_of_no_quote (K := key.toList)
    (fun c (hc : c ∈ after) (hq : c = '"') => hquote (hq ▸ hc)) []
  rw [List.append_nil] at hafter
  rw [findKeyValue_eq hrange hlength, htext, object, scanKey_dict_avoids hK h, hafter, scanKey]

/-! ## Values -/

section

variable {range : JsonRange} {key : String}

/-- An object that is found is read. -/
theorem extractObject_of_found {members : List (String × PyJson)}
    (h : Found range key (object members)) :
    ∃ level rest, extractObject range key = some ⟨render level (object members), rest⟩ := by
  obtain ⟨level, next, -, hfind⟩ := h
  refine ⟨level, next ++ range.rest, ?_⟩
  rw [extractObject, hfind, Option.bind_some]
  exact scanBalanced_dict level _ next range.rest

/-- A list that is found is read. -/
theorem extractArray_of_found {items : List PyJson} (h : Found range key (.list items)) :
    ∃ level rest, extractArray range key = some ⟨render level (.list items), rest⟩ := by
  obtain ⟨level, next, -, hfind⟩ := h
  refine ⟨level, next ++ range.rest, ?_⟩
  rw [extractArray, hfind, Option.bind_some]
  exact scanBalanced_list level items next range.rest

/-- A truth value that is found is read. -/
theorem extractBool_of_found {b : Bool} (h : Found range key (.bool b)) :
    extractBool range key = some b := by
  obtain ⟨level, next, -, hfind⟩ := h
  rw [extractBool, hfind, Option.bind_some, render]
  cases b <;> rfl

/-- The loop of `extract_string` copies plain characters up to the closing quote. -/
theorem extractStringLoop_plain {dstSize : ℕ} {s : List Char} (hs : ∀ c ∈ s, Plain c)
    {dst : List Char} (hsize : dst.length + s.length < dstSize) (next : List Char) :
    extractStringLoop dstSize dst false (s ++ '"' :: next) = (true, dst ++ s) := by
  induction s generalizing dst with
  | nil => simp [extractStringLoop]
  | cons c s ih =>
    rw [List.forall_mem_cons] at hs
    rw [List.length_cons] at hsize
    have hroom : ¬ dstSize ≤ dst.length + 1 := by omega
    have hlen : (dst ++ [c]).length + s.length < dstSize := by
      rw [List.length_append, List.length_singleton]
      omega
    obtain ⟨-, -, hq, hb⟩ := hs.1
    rw [List.cons_append, extractStringLoop]
    simp only [hq, hb, decide_false, Bool.and_false, Bool.false_eq_true, if_false, if_neg hroom,
      ih hs.2 hlen, List.append_assoc, List.singleton_append]

/-- A plain string that is found is read, if it fits the buffer. -/
theorem extractString_of_found {s : List Char} (hs : ∀ c ∈ s, Plain c)
    (h : Found range key (.str (.ofList s))) {dstSize : ℕ} (hsize : s.length < dstSize) :
    extractString range key dstSize = (true, s) := by
  obtain ⟨level, next, -, hfind⟩ := h
  have hvalue : render level (.str (.ofList s)) ++ next = '"' :: (s ++ '"' :: next) := by
    rw [render, PyStr.encode, escape_ofList hs]
    simp
  have hpos : dstSize ≠ 0 := by omega
  rw [extractString, hfind, hvalue]
  simp only [if_neg hpos]
  exact extractStringLoop_plain hs (by simpa using hsize) next

theorem Follows.endsNumber {next : List Char} (h : Follows next) (rest : List Char) :
    EndsNumber (next ++ rest) := by
  obtain ⟨t, rfl | rfl⟩ := h.head
  · exact endsNumber_cons rfl (by decide) (by decide) (by decide) _
  · exact endsNumber_cons rfl (by decide) (by decide) (by decide) _

/-- A number that is found is read, if it is a word. -/
theorem extractU64_of_found {n : ℕ} (hn : n < 2 ^ 64) (h : Found range key (.int n)) :
    extractU64 range key = some (UInt64.ofNat n) := by
  obtain ⟨level, next, hnext, hfind⟩ := h
  have hvalue : render level (.int n) = Nat.toDigits 10 n := by
    rw [render]
    rfl
  have hlength := List.length_pos_of_ne_nil (Nat.toDigits_ne_nil (n := n) (b := 10))
  rw [extractU64, hfind, Option.bind_some, hvalue, List.append_assoc,
    strtoull_toDigits hn (hnext.endsNumber _).digits, converted]
  simp [hlength.ne']

end

/-! ## Floats -/

theorem isDigitOf_of_mem_digitChars {ds : List (Fin 10)} :
    ∀ c ∈ PyFloat.digitChars ds, isDigitOf 10 c = true := by
  intro c hc
  obtain ⟨d, -, rfl⟩ := List.mem_map.1 hc
  exact isDigitOf_digitChar (by decide) d.isLt

theorem isDigitOf_of_mem_zeros {n : ℕ} : ∀ c ∈ List.replicate n '0', isDigitOf 10 c = true := by
  intro c hc
  rw [(List.mem_replicate.1 hc).2]
  rfl

/-- The digits of a printed number are read. -/
theorem ofDigits_digitChars (ds : List (Fin 10)) (acc : ℕ) :
    ofDigits 10 (PyFloat.digitChars ds) acc = ds.foldl (fun n d => 10 * n + d.val) acc := by
  induction ds generalizing acc with
  | nil => rfl
  | cons d ds ih =>
    have hstep : ofDigits 10 (PyFloat.digitChars (d :: ds)) acc =
        ofDigits 10 (PyFloat.digitChars ds) (10 * acc + digitValue (Nat.digitChar d)) := rfl
    rw [hstep, digitValue_digitChar (d.isLt.trans (by decide)), ih, List.foldl_cons]

/-- The exponent of a printed number is read. -/
theorem exponent_exponentRepr (decpt : ℤ) {s : List Char} (hs : EndsDigits 10 s) :
    exponent 'e' ('e' :: PyFloat.exponentRepr decpt ++ s) = (decpt - 1, s) := by
  set e := (decpt - 1).natAbs with he
  set ds := (if e < 10 then ['0'] else []) ++ Nat.toDigits 10 e with hds
  have hne : ds ≠ [] := List.append_ne_nil_of_right_ne_nil _ Nat.toDigits_ne_nil
  have hdigits : ∀ c ∈ ds, isDigitOf 10 c = true := by
    rw [hds, List.forall_mem_append]
    refine ⟨?_, isDigitOf_of_mem_toDigits (by decide) (by decide)⟩
    split_ifs
    · exact List.forall_mem_singleton.2 rfl
    · exact List.forall_mem_nil _
  have hvalue : ofDigits 10 ds 0 = e := by
    have hpad : ofDigits 10 (if e < 10 then ['0'] else []) 0 = 0 := by split_ifs <;> rfl
    rw [hds, ofDigits_append, hpad, ofDigits_toDigits (by decide) (by decide)]
  have hcons : 'e' :: PyFloat.exponentRepr decpt ++ s =
      'e' :: (if decide (decpt - 1 < 0) then '-' else '+') :: (ds ++ s) := by
    simp [PyFloat.exponentRepr, hds, he]
  rw [hcons, exponent_some hne hdigits hvalue hs]
  simp only [decide_eq_true_eq, he]
  split_ifs <;> simp only [Prod.mk.injEq, and_true] <;> omega

/-- `strtod` on a decimal with the digits `ds` before its point or exponent. -/
theorem strtod_append {ds fs t u v : List Char} {e : ℤ} {q : ℚ} (hne : ds ≠ [])
    (hd : ∀ c ∈ ds, isDigitOf 10 c = true) (hu : ∀ c ∈ u.head?, c ≠ 'x' ∧ c ≠ 'X')
    (hm : mantissa 10 (ds ++ u) = (ds, fs, t)) (he : exponent 'e' t = (e, v))
    (hq : (ofDigits 10 (ds ++ fs) 0 : ℚ) * 10 ^ (e - fs.length) = q) :
    strtod (ds ++ u) = ⟨toDouble false q, (ds ++ u).length - v.length, outOfRange q⟩ := by
  obtain ⟨c, ds', rfl⟩ := List.exists_cons_of_ne_nil hne
  refine strtod_decimal (hd c List.mem_cons_self) (fun d hd' => ?_) hm he hq
  cases ds' with
  | nil => exact hu d hd'
  | cons c' ds' =>
    obtain rfl : c' = d := Option.some.inj hd'
    have hdigit := hd c' (by simp)
    constructor
    all_goals
      rintro rfl
      exact absurd hdigit (by decide)

/-- `strtod` on digits, a point and digits. -/
theorem strtod_fixed {ds fs s : List Char} {q : ℚ} (hne : ds ≠ [])
    (hd : ∀ c ∈ ds, isDigitOf 10 c = true) (hf : ∀ c ∈ fs, isDigitOf 10 c = true)
    (hs : EndsNumber s) (hq : (ofDigits 10 (ds ++ fs) 0 : ℚ) * 10 ^ (-(fs.length : ℤ)) = q) :
    strtod (ds ++ '.' :: fs ++ s) =
      ⟨toDouble false q, (ds ++ '.' :: fs).length, outOfRange q⟩ := by
  have hpoint : isDigitOf 10 '.' = false := rfl
  have hu : ∀ c ∈ ('.' :: (fs ++ s)).head?, c ≠ 'x' ∧ c ≠ 'X' := by
    rintro c ⟨⟩
    decide
  have hq' : (ofDigits 10 (ds ++ fs) 0 : ℚ) * 10 ^ ((0 : ℤ) - fs.length) = q := by
    rw [zero_sub, hq]
  rw [List.append_assoc, List.cons_append, strtod_append hne hd hu
    (mantissa_point hd hf hs.digits hpoint) (exponent_none hs.no_exponent) hq']
  congr 1
  simp only [List.length_append, List.length_cons]
  omega

/-- `strtod` on a digit, digits after a point if there are any, and an exponent. -/
theorem strtod_exponential (d : Fin 10) (ds : List (Fin 10)) (decpt : ℤ) {s : List Char}
    (hs : EndsNumber s) :
    strtod (Nat.digitChar d :: (if ds = [] then [] else '.' :: PyFloat.digitChars ds) ++
        'e' :: PyFloat.exponentRepr decpt ++ s) =
      ⟨toDouble false (PyFloat.decimal d ds decpt),
        (Nat.digitChar d :: (if ds = [] then [] else '.' :: PyFloat.digitChars ds) ++
          'e' :: PyFloat.exponentRepr decpt).length,
        outOfRange (PyFloat.decimal d ds decpt)⟩ := by
  set point := if ds = [] then [] else '.' :: PyFloat.digitChars ds with hpoint
  set t := 'e' :: PyFloat.exponentRepr decpt ++ s with ht
  have happend : Nat.digitChar d :: point ++ 'e' :: PyFloat.exponentRepr decpt ++ s =
      [Nat.digitChar d] ++ (point ++ t) := by simp [ht]
  have hdigit : ∀ c ∈ [Nat.digitChar d.val], isDigitOf 10 c = true :=
    @isDigitOf_of_mem_digitChars [d]
  have hends : EndsDigits 10 t := by
    rintro c ⟨⟩
    rfl
  have hu : ∀ c ∈ (point ++ t).head?, c ≠ 'x' ∧ c ≠ 'X' := by
    rw [hpoint]
    split_ifs
    all_goals
      rintro c ⟨⟩
      decide
  -- `repr` writes the point only if digits follow it, and the mantissa reads the same number
  -- either way.
  have hm : mantissa 10 ([Nat.digitChar d] ++ (point ++ t)) =
      ([Nat.digitChar d.val], PyFloat.digitChars ds, t) := by
    rw [hpoint]
    split_ifs with hnil
    · subst hnil
      exact mantissa_no_point hdigit hends (by simp [ht])
    · exact mantissa_point hdigit isDigitOf_of_mem_digitChars hends rfl
  have hq : (ofDigits 10 ([Nat.digitChar d.val] ++ PyFloat.digitChars ds) 0 : ℚ) *
      10 ^ (decpt - 1 - (PyFloat.digitChars ds).length) = PyFloat.decimal d ds decpt := by
    have hvalue : ofDigits 10 (PyFloat.digitChars (d :: ds)) 0 = PyFloat.digitsValue (d :: ds) :=
      ofDigits_digitChars _ 0
    have hlength : (PyFloat.digitChars ds).length = ds.length := List.length_map _
    rw [hlength, PyFloat.decimal, ← hvalue, sub_sub, add_comm (1 : ℤ)]
    rfl
  rw [happend, strtod_append (List.cons_ne_nil _ _) hdigit hu hm
    (exponent_exponentRepr decpt hs.digits) hq]
  congr 1
  simp only [ht, List.length_append, List.length_cons, List.length_nil]
  omega

/-- `strtod` reads the decimal that `float.__repr__` writes. -/
theorem strtod_decRepr (d : Fin 10) (ds : List (Fin 10)) (decpt : ℤ) {s : List Char}
    (hs : EndsNumber s) :
    strtod (PyFloat.decRepr d ds decpt ++ s) =
      ⟨toDouble false (PyFloat.decimal d ds decpt), (PyFloat.decRepr d ds decpt).length,
        outOfRange (PyFloat.decimal d ds decpt)⟩ := by
  have hvalue : ofDigits 10 (PyFloat.digitChars (d :: ds)) 0 = PyFloat.digitsValue (d :: ds) :=
    ofDigits_digitChars _ 0
  have hlength : (PyFloat.digitChars (d :: ds)).length = ds.length + 1 := List.length_map _
  rw [PyFloat.decRepr]
  by_cases hexp : decpt ≤ -4 ∨ 16 < decpt
  · rw [if_pos hexp]
    exact strtod_exponential d ds decpt hs
  rw [if_neg hexp]
  split_ifs with hsmall hlarge
  · -- all digits stand after the point, behind zeros
    have hzeros : ofDigits 10 ('0' :: List.replicate (-decpt).toNat '0') 0 = 0 := by
      rw [← List.replicate_succ, ofDigits_replicate_zero, zero_mul]
    refine strtod_fixed (List.cons_ne_nil '0' []) (List.forall_mem_singleton.2 rfl)
      (List.forall_mem_append.2 ⟨isDigitOf_of_mem_zeros, isDigitOf_of_mem_digitChars⟩) hs ?_
    simp only [List.append_eq]
    rw [List.singleton_append, ← List.cons_append, ofDigits_append, hzeros, hvalue,
      PyFloat.decimal, List.length_append, List.length_replicate, hlength]
    congr 2
    push_cast
    omega
  · -- all digits stand before the point, and zeros
    refine strtod_fixed ?_
      (List.forall_mem_append.2 ⟨isDigitOf_of_mem_digitChars, isDigitOf_of_mem_zeros⟩)
      (List.forall_mem_singleton.2 (rfl : isDigitOf 10 '0' = true)) hs ?_
    · exact List.append_ne_nil_of_left_ne_nil (List.cons_ne_nil _ _) _
    · have hten : (10 : ℚ) ≠ 0 := by norm_num
      have hzero : ofDigits 10 ['0'] (PyFloat.digitsValue (d :: ds) *
          10 ^ (decpt.toNat - (ds.length + 1))) =
            10 * (PyFloat.digitsValue (d :: ds) * 10 ^ (decpt.toNat - (ds.length + 1))) := rfl
      have hexponent : decpt - (ds.length + 1) = ((decpt.toNat - (ds.length + 1) : ℕ) : ℤ) := by
        omega
      rw [ofDigits_append, ofDigits_append, hvalue, ofDigits_replicate_zero, hzero,
        PyFloat.decimal, hexponent, zpow_natCast, List.length_singleton]
      push_cast
      field_simp
  · -- the point stands between digits
    have hsplit : PyFloat.digitChars ((d :: ds).take decpt.toNat) ++
        PyFloat.digitChars ((d :: ds).drop decpt.toNat) = PyFloat.digitChars (d :: ds) := by
      rw [PyFloat.digitChars, PyFloat.digitChars, ← List.map_append, List.take_append_drop,
        PyFloat.digitChars]
    have hrest : (PyFloat.digitChars ((d :: ds).drop decpt.toNat)).length =
        ds.length + 1 - decpt.toNat := by
      rw [PyFloat.digitChars, List.length_map, List.length_drop, List.length_cons]
    refine strtod_fixed ?_ isDigitOf_of_mem_digitChars isDigitOf_of_mem_digitChars hs ?_
    · obtain ⟨k, hk⟩ : ∃ k, decpt.toNat = k + 1 := ⟨decpt.toNat - 1, by omega⟩
      rw [hk, List.take_succ_cons]
      exact List.cons_ne_nil _ _
    · rw [hsplit, hvalue, PyFloat.decimal, hrest]
      congr 2
      omega

/-- The floats of `evaluate` are zero, or far from the ends of the range. -/
theorem exists_decRepr_of_computes {x : PyFloat} {n m : ℕ} (hnm : n ≤ m) (hm : m < 2 ^ 64)
    (h : x.Computes (n / m)) :
    ∃ d ds decpt, x = .dec false d ds decpt ∧ outOfRange (PyFloat.decimal d ds decpt) = false := by
  rcases h with ⟨-, rfl⟩ | ⟨d, ds, decpt, rfl, hl, hu⟩
  · have hzero : PyFloat.decimal 0 [] 1 = 0 := by simp [PyFloat.decimal, PyFloat.digitsValue]
    exact ⟨0, [], 1, rfl, outOfRange_eq_false (.inl hzero)⟩
  · refine ⟨d, ds, decpt, rfl, outOfRange_eq_false ?_⟩
    rcases Nat.eq_zero_or_pos n with rfl | hn
    · left
      rw [Nat.cast_zero, zero_div] at hl hu
      exact le_antisymm (by simpa using hu) (by simpa using hl)
    · right
      have hm' : (0 : ℚ) < m := by exact_mod_cast hn.trans_le hnm
      constructor
      · calc (2 : ℚ) ^ (-1022 : ℤ) ≤ 2 ^ (-65 : ℤ) := zpow_le_zpow_right₀ (by norm_num) (by norm_num)
          _ = 1 / 2 ^ 64 / 2 := by norm_num
          _ ≤ n / m / 2 := by
            gcongr
            · exact_mod_cast hn
            · exact_mod_cast hm.le
          _ ≤ _ := hl
      · refine hu.trans ?_
        have hle : (n : ℚ) / m ≤ 1 := (div_le_one hm').2 (by exact_mod_cast hnm)
        linarith

/-- A rate that is found is read. -/
theorem extractDouble_of_found {range : JsonRange} {key : String} {x : PyFloat} {n m : ℕ}
    (hnm : n ≤ m) (hm : m < 2 ^ 64) (hx : x.Computes (n / m)) (h : Found range key (.float x)) :
    ∃ y, extractDouble range key = some y := by
  obtain ⟨d, ds, decpt, rfl, hrange⟩ := exists_decRepr_of_computes hnm hm hx
  obtain ⟨level, next, hnext, hfind⟩ := h
  have hvalue : render level (.float (.dec false d ds decpt)) = PyFloat.decRepr d ds decpt := by
    rw [render]
    rfl
  have hlength := List.length_pos_of_ne_nil (decRepr_ne_nil d ds decpt)
  refine ⟨toDouble false (PyFloat.decimal d ds decpt), ?_⟩
  rw [extractDouble, hfind, Option.bind_some, hvalue, List.append_assoc,
    strtod_decRepr d ds decpt (hnext.endsNumber _), converted, hrange]
  simp [hlength.ne']

/-! ## Masks -/

theorem isDigitOf_of_mem_format016x {m : ℕ} : ∀ c ∈ format016x m, isDigitOf 16 c = true :=
  isDigitOf_of_mem_hexPadded

/-- The digits of a mask are read. -/
theorem ofDigits_format016x (m : ℕ) : ofDigits 16 (format016x m) 0 = m := ofDigits_hexPadded 16 m

/-- A mask is printed with 16 digits. -/
theorem length_format016x {m : ℕ} (hm : m < 2 ^ 64) : (format016x m).length = 16 := by
  obtain ⟨hge, hle⟩ := @length_hexPadded 16 m (hm.trans_le (by norm_num))
  exact le_antisymm hle hge

/-- Hexadecimal digits are plain characters. -/
theorem plain_of_isDigitOf {c : Char} (h : isDigitOf 16 c = true) : Plain c := by
  have hascii : c.toNat < 128 := by
    have hvalue : digitValue c < 16 := of_decide_eq_true h
    rw [digitValue] at hvalue
    split_ifs at hvalue with hc hc hc
    · exact lt_of_le_of_lt (b := 57) hc.2 (by decide)
    · exact lt_of_le_of_lt (b := 122) hc.2 (by decide)
    · exact lt_of_le_of_lt (b := 90) hc.2 (by decide)
    · omega
  have hall : ∀ n < 128, isDigitOf 16 (Char.ofNat n) = true → Plain (Char.ofNat n) := by decide
  have hc := hall c.toNat hascii
  rw [Char.ofNat_toNat] at hc
  exact hc h

theorem plain_formatMask (m : ℕ) : ∀ c ∈ formatMask m, Plain c := by
  rw [formatMask, List.forall_mem_cons, List.forall_mem_cons]
  exact ⟨by decide, by decide, fun c hc => plain_of_isDigitOf (isDigitOf_of_mem_format016x c hc)⟩

/-- A mask is read as it was written. -/
theorem parseMask_formatMask {m : ℕ} (hm : 1 ≤ m) (hm' : m < 2 ^ 64) :
    parseMask (formatMask m) = some (UInt64.ofNat m) := by
  have hne : format016x m ≠ [] := List.ne_nil_of_length_eq_add_one (length_format016x hm')
  have hcstr : cstr (formatMask m) = formatMask m := by
    have h := cstr_append (p := formatMask m) (fun h => ?_) []
    · rw [List.append_nil] at h
      rw [h]
      exact List.append_nil _
    · exact absurd (plain_formatMask m _ h) (by decide)
  have hvalue : UInt64.ofNat m ≠ 0 := fun h => by
    have hz := congrArg UInt64.toNat h
    rw [UInt64.toNat_ofNat_of_lt' hm'] at hz
    simp at hz
    omega
  have hconv : strtoull (formatMask m) 0 = ⟨UInt64.ofNat m, 18, false⟩ := by
    have h := strtoull_hex hne isDigitOf_of_mem_format016x
      (by rw [ofDigits_format016x]; exact hm')
    rw [ofDigits_format016x, length_format016x hm'] at h
    exact h
  rw [parseMask, hconv, hcstr]
  simp [formatMask, length_format016x hm', hvalue]

/-- A mask in quotes is read. -/
theorem parseBankMasksLoop_mask {acc : List UInt64} {p text after : List Char} {mask : UInt64}
    (hp : skipWs p = '"' :: (text ++ '"' :: after)) (htext : ∀ c ∈ text, c ≠ '"')
    (hlength : text.length < 64) (hroom : acc.length < calibrationMaxBankMasks)
    (hmask : parseMask text = some mask) :
    parseBankMasksLoop acc p = parseBankMasksLoop (acc ++ [mask]) after := by
  rw [parseBankMasksLoop_string hp htext, if_neg (not_le.2 hlength), if_neg (not_le.2 hroom), hmask]

/-- The loop of `parse_bank_masks` over the lines of the masks. -/
theorem parseBankMasksLoop_lines (level level' : ℕ) {acc : List UInt64} {masks : List ℕ}
    (hroom : acc.length + masks.length ≤ calibrationMaxBankMasks) (hne : acc ≠ [] ∨ masks ≠ [])
    (hmasks : ∀ m ∈ masks, 1 ≤ m ∧ m < 2 ^ 64) :
    parseBankMasksLoop acc
        (lines level (masks.map fun m => '"' :: formatMask m ++ ['"']) ++ newlineIndent level') =
      (.ok, acc ++ masks.map UInt64.ofNat) := by
  induction masks generalizing acc with
  | nil =>
    have hend : skipWs (newlineIndent level') = [] := by
      have h := skipWs_newlineIndent level' []
      rwa [List.append_nil] at h
    rw [List.map_nil, List.map_nil, List.append_nil, lines, List.nil_append,
      parseBankMasksLoop_end hend, if_neg (hne.resolve_right (by simp))]
  | cons m ms ih =>
    rw [List.forall_mem_cons] at hmasks
    rw [List.length_cons] at hroom
    obtain ⟨⟨hm, hm'⟩, hms⟩ := hmasks
    have hlength : (formatMask m).length < 64 := by
      rw [formatMask, List.length_cons, List.length_cons, length_format016x hm']
      decide
    have htail := @ih (acc ++ [UInt64.ofNat m])
      (by rw [List.length_append, List.length_singleton]; omega) (.inl (by simp)) hms
    rw [List.map_cons, lines]
    simp only [List.append_assoc, List.cons_append, List.nil_append]
    rw [parseBankMasksLoop_mask (by rw [skipWs_newlineIndent]; rfl)
      (fun c hc => (plain_formatMask m c hc).2.2.1) hlength (by omega)
      (parseMask_formatMask hm hm')]
    simp only [List.map_cons, List.append_assoc, List.cons_append, List.nil_append] at htail ⊢
    cases ms with
    | nil => exact htail
    | cons m' ms => exact (parseBankMasksLoop_comma _ rfl).trans htail

/-- The masks of a report are read. -/
theorem parseBankMasks_render {level : ℕ} {masks : List ℕ} {rest : List Char}
    (hroom : masks.length ≤ calibrationMaxBankMasks) (hne : masks ≠ [])
    (hmasks : ∀ m ∈ masks, 1 ≤ m ∧ m < 2 ^ 64) :
    parseBankMasks
        ⟨render level (.list (masks.map fun m => .str (.ofList (formatMask m)))), rest⟩ [] =
      (.ok, masks.map UInt64.ofNat) := by
  have hitems : renderItems (level + 1) (masks.map fun m => .str (.ofList (formatMask m))) =
      masks.map fun m => '"' :: formatMask m ++ ['"'] := by
    rw [renderItems_eq_map, List.map_map]
    refine List.map_congr_left fun m _ => ?_
    rw [Function.comp_apply, render, PyStr.encode, escape_ofList (plain_formatMask m)]
  have hnonempty : (masks.map fun m => '"' :: formatMask m ++ ['"']).isEmpty = false := by
    simpa using hne
  rw [parseBankMasks, render, hitems, block, hnonempty, if_neg Bool.false_ne_true,
    List.cons_append, List.cons_append, List.drop_one, List.tail_cons, List.dropLast_concat]
  exact parseBankMasksLoop_lines (level + 1) level (by simpa using hroom) (.inr hne) hmasks

/-! ## The report -/

/-- The keys inside the entries of the report, but for the numbers of `nullity_histogram`. -/
def nestedKeys : List String :=
  ["tp", "tn", "fp", "fn", "accuracy", "precision", "recall", "f1",
    "threshold_cycles", "low_edge_cycles", "high_edge_cycles", "gap_cycles", "total_pairs",
    "low_pairs", "high_pairs",
    "run_id", "csv", "threshold", "raw_unique_pairs", "consistent_pairs",
    "dropped_inconsistent_pairs", "consistent_conflicts", "consistent_non_conflicts",
    "hostname", "machine", "platform", "kernel", "cpu_model", "mem_total_kib",
    "fit_pairs", "fit_conflicts", "tune_pairs", "tune_conflicts", "holdout_pairs",
    "holdout_conflicts",
    "active_bit_positions", "conflict_records", "subsample_size", "rounds", "successful_rounds",
    "successful_round_rate", "nullity_histogram", "raw_candidate_count",
    "filtered_candidate_count",
    "mask", "weight", "frequency", "tune_metrics",
    "candidate_masks", "selected_mask_count", "history", "fit", "tune", "holdout",
    "min_successful_round_rate", "min_holdout_precision", "min_holdout_recall", "passed",
    "kk_main", "memory_percent", "measurements", "timing_rounds", "run_count", "input_csv_mode"]

theorem nameChar_of_mem_nestedKeys : ∀ s ∈ nestedKeys, ∀ c ∈ s.toList, NameChar c := by
  decide +kernel

/-- The keys inside the entries of the report. -/
def NestedKey (k : PyStr) : Prop :=
  (∃ s ∈ nestedKeys, k = .ofString s) ∨ ∃ n, k = .ofList (Nat.toDigits 10 n)

theorem NestedKey.of_mem {s : String} (h : s ∈ nestedKeys) : NestedKey (.ofString s) :=
  .inl ⟨s, h, rfl⟩

/-- A name that is no nested key is searched for past all of them. -/
theorem NestedKey.avoids {K : String} (hK : K ∉ nestedKeys)
    (hdigit : ∃ c ∈ K.toList, c.isDigit = false) {k : PyStr} (h : NestedKey k) :
    Avoids K.toList k := by
  rcases h with ⟨s, hs, rfl⟩ | ⟨n, rfl⟩
  · exact avoids_ofString (nameChar_of_mem_nestedKeys s hs) fun h => hK (h ▸ hs)
  · have hdigits : ∀ c ∈ Nat.toDigits 10 n, c.isDigit = true := fun c hc =>
      Nat.isDigit_of_mem_toDigits (by decide) (by decide) hc
    have hplain : ∀ c ∈ Nat.toDigits 10 n, Plain c := fun c hc =>
      NameChar.plain (.inl (by simp [Char.isAlphanum, hdigits c hc]))
    obtain ⟨c, hc, hno⟩ := hdigit
    rw [Avoids, escape_ofList hplain]
    refine ⟨fun h => ?_, fun c hc => (hplain c hc).2.2.1⟩
    rw [hdigits c (h ▸ hc)] at hno
    cases hno

theorem keys_object_of_subset {members : List (String × PyJson)}
    (hkeys : members.map Prod.fst ⊆ nestedKeys) (hvals : ∀ m ∈ members, m.2.Keys NestedKey) :
    (object members).Keys NestedKey :=
  keys_object.2 fun m hm => ⟨.of_mem (hkeys (List.mem_map_of_mem hm)), hvals m hm⟩

/-- The keys of `Metrics`. -/
def metricKeys : List String := ["tp", "tn", "fp", "fn", "accuracy", "precision", "recall", "f1"]

/-- The keys of the metrics. -/
theorem keys_metrics_of {Q : PyStr → Prop} (h : ∀ s ∈ metricKeys, Q (.ofString s))
    (m : Metrics) : m.asdict.Keys Q := by
  refine keys_object.2 ?_
  simpa [metricKeys] using h

theorem keys_metrics (m : Metrics) : m.asdict.Keys NestedKey :=
  keys_metrics_of (fun _ hs => .of_mem (List.mem_append_left _ hs)) m

theorem keys_run (runId : ℕ) (r : RunSummary) : (r.asdict runId).Keys NestedKey := by
  have hthreshold : r.threshold.asdict.Keys NestedKey :=
    keys_object_of_subset (by simp [nestedKeys]) (by simp)
  exact keys_object_of_subset (by simp [nestedKeys]) (by simp [hthreshold])

theorem keys_hardware (h : Hardware) : h.asdict.Keys NestedKey := by
  have hmem : (h.memTotalKib.elim .null .int : PyJson).Keys NestedKey := by
    cases h.memTotalKib with
    | none => exact .null
    | some n => exact .int n
  exact keys_object_of_subset (by simp [nestedKeys]) (by simp [hmem])

theorem keys_gf2 (g : Gf2Diagnostics) : g.asdict.Keys NestedKey := by
  have hbits : (PyJson.list (g.activeBitPositions.map fun i : ℕ => .int i)).Keys NestedKey := by
    simp [keys_list]
  have hhistogram : (PyJson.dict (g.nullityHistogram.map fun m =>
      (.ofList (Nat.toDigits 10 m.1), .int m.2))).Keys NestedKey := by
    rw [keys_dict, List.forall_mem_map]
    exact fun m _ => ⟨.inr ⟨m.1, rfl⟩, .int _⟩
  exact keys_object_of_subset (by simp [nestedKeys]) (by simp [hbits, hhistogram])

theorem keys_step (s : SelectionStep) : s.asdict.Keys NestedKey :=
  keys_object_of_subset (by simp [nestedKeys]) (by simp [keys_metrics])

section

variable (sha256 : List Char → Vector UInt8 32) (a : Analysis)

/-- Inside the entries of the report there are only the nested keys. -/
theorem keys_entries : ∀ m ∈ a.entries sha256, m.2.Keys NestedKey := by
  have hruns : (PyJson.list (a.runs.mapIdx RunSummary.asdict)).Keys NestedKey := by
    rw [keys_list]
    intro v hv
    obtain ⟨i, hi, rfl⟩ := List.mem_mapIdx.1 hv
    exact keys_run i _
  have hsplits : a.splits.asdict.Keys NestedKey :=
    keys_object_of_subset (by simp [nestedKeys]) (by simp)
  have hselection : a.selection.Keys NestedKey := by
    refine keys_object_of_subset (by simp [nestedKeys]) ?_
    simp [keys_list, keys_step]
  have hmasks : (PyJson.list (a.selectedMasks.map fun m =>
      .str (.ofList (formatMask m)))).Keys NestedKey := by simp [keys_list]
  have hmetrics : a.metrics.Keys NestedKey :=
    keys_object_of_subset (by simp [nestedKeys]) (by simp [keys_metrics])
  have hacceptance : a.acceptance.Keys NestedKey :=
    keys_object_of_subset (by simp [nestedKeys]) (by simp)
  have hnotes : Analysis.notes.Keys NestedKey := by simp [Analysis.notes, keys_list, literal]
  have hcollector : a.collector.Keys NestedKey :=
    keys_object_of_subset (by simp [nestedKeys]) (by simp)
  simp [Analysis.entries, literal, keys_hardware, keys_gf2, hruns, hsplits, hselection, hmasks,
    hmetrics, hacceptance, hnotes, hcollector]

/-- The keys of the report. -/
def entryKeys : List String :=
  ["status", "schema_version", "generated_unix_ns", "hardware", "split_mode", "runs", "splits",
    "gf2", "selection", "bank_masks", "mask_set_id", "metrics", "acceptance", "notes",
    "collector"]

theorem map_fst_entries : (a.entries sha256).map Prod.fst = entryKeys := rfl

variable {sha256 a}

/-- The reader finds an entry of the report by its key. -/
theorem found_entry {tail : List Char} (hnul : '\x00' ∉ tail) {key : String} {v : PyJson}
    (hmem : (key, v) ∈ a.entries sha256) :
    Found ⟨(a.result sha256).dump ++ tail, []⟩ key v := by
  have hgood : GoodKeys entryKeys := ⟨by decide, by decide⟩
  have hnested : ∀ s ∈ entryKeys, s ∉ nestedKeys ∧ ∃ c ∈ s.toList, c.isDigit = false := by
    decide
  have hkey : key ∈ entryKeys := map_fst_entries sha256 a ▸ List.mem_map_of_mem hmem
  obtain ⟨hK, hdigit⟩ := hnested key hkey
  exact found_of_mem rfl hnul (map_fst_entries sha256 a) hgood hmem fun m hm _ =>
    (keys_entries sha256 a m hm).mono fun k hk => hk.avoids hK hdigit

/-- There is no entry `error`. -/
theorem extractString_error {tail : List Char} (hnul : '\x00' ∉ tail) (hquote : '"' ∉ tail) :
    extractString ⟨(a.result sha256).dump ++ tail, []⟩ "error" calibrationErrorMessageMax =
      (false, []) := by
  have hK : KeyName "error".toList := ⟨by decide, by decide⟩
  have hentry : ∀ s ∈ entryKeys, s ≠ "error" ∧ ∀ c ∈ s.toList, NameChar c := by decide
  have hkeys : (object (a.entries sha256)).Keys (Avoids "error".toList) := by
    refine keys_object.2 fun m hm => ⟨?_, (keys_entries sha256 a m hm).mono fun k hk =>
      hk.avoids (by decide) ⟨'e', by decide, by decide⟩⟩
    obtain ⟨hne, hname⟩ := hentry m.1 (map_fst_entries sha256 a ▸ List.mem_map_of_mem hm)
    exact avoids_ofString hname hne
  have hnone : findKeyValue ⟨(a.result sha256).dump ++ tail, []⟩ "error" = none :=
    findKeyValue_eq_none rfl hnul hquote hK (by decide) hkeys
  rw [extractString, hnone]

/-- The loader finds the gate in the acceptance. -/
theorem found_passed {level : ℕ} {rest : List Char} :
    Found ⟨render level a.acceptance, rest⟩ "passed" (.bool a.success) := by
  have hgood : GoodKeys ["min_successful_round_rate", "min_holdout_precision",
      "min_holdout_recall", "passed"] := ⟨by decide, by decide⟩
  refine found_member (by rfl) hgood (by simp) ?_
  simp

/-- The loader finds the holdout in the metrics. -/
theorem found_holdout {level : ℕ} {rest : List Char} :
    Found ⟨render level a.metrics, rest⟩ "holdout" a.holdoutMetrics.asdict := by
  have hgood : GoodKeys ["fit", "tune", "holdout"] := ⟨by decide, by decide⟩
  have hother : ∀ s ∈ metricKeys, (∀ c ∈ s.toList, NameChar c) ∧ s ≠ "holdout" := by decide
  have havoids : ∀ m : Metrics, m.asdict.Keys (Avoids "holdout".toList) := keys_metrics_of
    fun s hs => avoids_ofString (hother s hs).1 (hother s hs).2
  refine found_member (by rfl) hgood (by simp) ?_
  rw [List.forall_mem_cons, List.forall_mem_cons, List.forall_mem_singleton]
  exact ⟨fun _ => havoids _, fun _ => havoids _, fun h => absurd rfl h⟩

/-- The loader finds each count and each rate of the holdout. -/
theorem found_metric (m : Metrics) {level : ℕ} {rest : List Char} {key : String} {v : PyJson}
    (hmem : (key, v) ∈ [("tp", PyJson.int m.tp), ("tn", .int m.tn), ("fp", .int m.fp),
      ("fn", .int m.fn), ("accuracy", .float m.accuracy), ("precision", .float m.precision),
      ("recall", .float m.recall), ("f1", .float m.f1)]) :
    Found ⟨render level m.asdict, rest⟩ key v := by
  have hgood : GoodKeys metricKeys := ⟨by decide, by decide⟩
  refine found_member (by rfl) hgood hmem ?_
  simp

/-- The reader takes the counts of `metrics.holdout` as they are, and finds its rates. -/
theorem extractHoldout_render (m : Metrics) (level : ℕ) (rest : List Char)
    (out : CalibrationMetrics) :
    ∃ out', extractHoldout ⟨render level m.asdict, rest⟩ out = (true, out') ∧
      out'.tp = UInt64.ofNat m.tp ∧ out'.tn = UInt64.ofNat m.tn ∧ out'.fp = UInt64.ofNat m.fp ∧
      out'.fn = UInt64.ofNat m.fn := by
  have hlt := m.total_lt
  set holdout : JsonRange := ⟨render level m.asdict, rest⟩
  have htp : extractU64 holdout "tp" = some (UInt64.ofNat m.tp) :=
    extractU64_of_found (by omega) (found_metric m (by simp))
  have htn : extractU64 holdout "tn" = some (UInt64.ofNat m.tn) :=
    extractU64_of_found (by omega) (found_metric m (by simp))
  have hfp : extractU64 holdout "fp" = some (UInt64.ofNat m.fp) :=
    extractU64_of_found (by omega) (found_metric m (by simp))
  have hfn : extractU64 holdout "fn" = some (UInt64.ofNat m.fn) :=
    extractU64_of_found (by omega) (found_metric m (by simp))
  obtain ⟨accuracy, haccuracy⟩ : ∃ y, extractDouble holdout "accuracy" = some y :=
    extractDouble_of_found (by omega) (by omega) m.accuracy_computes (found_metric m (by simp))
  obtain ⟨precision, hprecision⟩ : ∃ y, extractDouble holdout "precision" = some y :=
    extractDouble_of_found (by omega) (by omega) m.precision_computes (found_metric m (by simp))
  obtain ⟨«recall», hrecall⟩ : ∃ y, extractDouble holdout "recall" = some y :=
    extractDouble_of_found (by omega) (by omega) m.recall_computes (found_metric m (by simp))
  obtain ⟨f1, hf1⟩ : ∃ y, extractDouble holdout "f1" = some y :=
    extractDouble_of_found (by omega) (by omega) m.f1_computes (found_metric m (by simp))
  refine ⟨⟨.ofNat m.tp, .ofNat m.tn, .ofNat m.fp, .ofNat m.fn, accuracy, precision, «recall», f1⟩,
    ?_, rfl, rfl, rfl, rfl⟩
  simp only [extractHoldout, extractFields, htp, htn, hfp, hfn, haccuracy, hprecision, hrecall,
    hf1, Bool.not_true, Bool.false_eq_true, if_false]

/-- The identifier of the masks is made of hexadecimal digits. -/
theorem plain_maskSetId (sha256 : List Char → Vector UInt8 32) (masks : List ℕ) :
    (∀ c ∈ maskSetId sha256 masks, Plain c) ∧ (maskSetId sha256 masks).length ≤ 16 := by
  have hhex : ∀ k < 16, Plain (Nat.digitChar k) := by decide
  refine ⟨fun c hc => ?_, List.length_take_le _ _⟩
  obtain ⟨b, -, hb⟩ := List.mem_flatMap.1 (List.mem_of_mem_take hc)
  simp only [List.mem_cons, List.not_mem_nil, or_false, hexDigit] at hb
  rcases hb with rfl | rfl <;> exact hhex _ (Nat.mod_lt _ (by decide))

end

/-- Behind the report nothing is but the end of the line. -/
theorem exists_tail {payload : PyJson} {file : List Char}
    (hfile : file = payload.dump ∨ file = atomicWriteJson payload) :
    ∃ tail, file = payload.dump ++ tail ∧ '\x00' ∉ tail ∧ '"' ∉ tail := by
  rcases hfile with rfl | rfl
  · exact ⟨[], (List.append_nil _).symm, List.not_mem_nil, List.not_mem_nil⟩
  · exact ⟨['\n'], rfl, by decide, by decide⟩

section

variable {sha256 : List Char → Vector UInt8 32} {a : Analysis}

/-- The masks are taken as they are, and the gate is passed. -/
theorem loadMasks_eq (hsuccess : a.success = true) (hcount : a.selectedMasks ≠ [])
    (hcount' : a.selectedMasks.length ≤ calibrationMaxBankMasks)
    (hmasks : ∀ m ∈ a.selectedMasks, 1 ≤ m ∧ m < 2 ^ 64) {tail : List Char}
    (hnul : '\x00' ∉ tail) {out : CalibrationResult} (hout : out.bankMasks = []) :
    loadMasks ⟨(a.result sha256).dump ++ tail, []⟩ out =
      loadMetrics ⟨(a.result sha256).dump ++ tail, []⟩
        { out with acceptancePassed := true, bankMasks := a.selectedMasks.map UInt64.ofNat } := by
  have hacceptance : Found ⟨(a.result sha256).dump ++ tail, []⟩ "acceptance" a.acceptance :=
    found_entry hnul (by simp [Analysis.entries])
  have harray : Found ⟨(a.result sha256).dump ++ tail, []⟩ "bank_masks"
      (.list (a.selectedMasks.map fun m => .str (.ofList (formatMask m)))) :=
    found_entry hnul (by simp [Analysis.entries])
  obtain ⟨level, rest, hobject⟩ := extractObject_of_found hacceptance
  obtain ⟨level', rest', hmasks'⟩ := extractArray_of_found harray
  have hpassed : extractBool ⟨render level a.acceptance, rest⟩ "passed" = some true :=
    hsuccess ▸ extractBool_of_found found_passed
  have hbind : (extractObject ⟨(a.result sha256).dump ++ tail, []⟩ "acceptance").bind
      (extractBool · "passed") = some true := by
    rw [hobject, Option.bind_some]
    exact hpassed
  rw [loadMasks, hbind]
  simp only [Bool.not_true, Bool.false_eq_true, if_false, hmasks', hout,
    parseBankMasks_render hcount' hcount hmasks, ne_eq, not_true_eq_false]

variable (sha256 a) in
/-- The identifier and the counts are taken as they are. -/
theorem loadMetrics_eq {tail : List Char} (hnul : '\x00' ∉ tail) (out : CalibrationResult) :
    ∃ holdout, loadMetrics ⟨(a.result sha256).dump ++ tail, []⟩ out =
        (.ok, { out with maskSetId := maskSetId sha256 a.selectedMasks, holdout := holdout }) ∧
      holdout.tp = UInt64.ofNat a.holdoutMetrics.tp ∧
      holdout.tn = UInt64.ofNat a.holdoutMetrics.tn ∧
      holdout.fp = UInt64.ofNat a.holdoutMetrics.fp ∧
      holdout.fn = UInt64.ofNat a.holdoutMetrics.fn := by
  obtain ⟨hplain, hlength⟩ := plain_maskSetId sha256 a.selectedMasks
  have hid : extractString ⟨(a.result sha256).dump ++ tail, []⟩ "mask_set_id"
      calibrationMaskSetIdMax = (true, maskSetId sha256 a.selectedMasks) :=
    extractString_of_found hplain (found_entry hnul (by simp [Analysis.entries]))
      (hlength.trans_lt (by decide))
  have hmetrics : Found ⟨(a.result sha256).dump ++ tail, []⟩ "metrics" a.metrics :=
    found_entry hnul (by simp [Analysis.entries])
  obtain ⟨level, rest, hobject⟩ := extractObject_of_found hmetrics
  have hfound : Found ⟨render level a.metrics, rest⟩ "holdout" a.holdoutMetrics.asdict :=
    found_holdout
  obtain ⟨level', rest', hholdout⟩ := extractObject_of_found hfound
  have hbind : (extractObject ⟨(a.result sha256).dump ++ tail, []⟩ "metrics").bind
      (extractObject · "holdout") = some ⟨render level' a.holdoutMetrics.asdict, rest'⟩ := by
    rw [hobject, Option.bind_some]
    exact hholdout
  obtain ⟨holdout, hextract, hcounts⟩ :=
    extractHoldout_render a.holdoutMetrics level' rest' out.holdout
  refine ⟨holdout, ?_, hcounts⟩
  rw [loadMetrics]
  simp only [hid, hbind, hextract, Bool.not_true, Bool.false_eq_true, if_false]

end

/-- The daemon reads the report of a successful calibration as it was written: for every
    contents of the report with one to 32 masks of 64 bits, as `json.dump` writes it or with the
    newline of `atomic_write_json`, if the file is not over the limit. -/
theorem report_round_trip (sha256 : List Char → Vector UInt8 32) (a : Analysis)
    (hsuccess : a.success = true) (hcount : 1 ≤ a.selectedMasks.length)
    (hcount' : a.selectedMasks.length ≤ 32)
    (hmasks : ∀ m ∈ a.selectedMasks, 1 ≤ m ∧ m < 2 ^ 64) {file : List Char}
    (hfile : file = (a.result sha256).dump ∨ file = atomicWriteJson (a.result sha256))
    (hsize : file.length ≤ calibrationJsonMaxBytes) (resultPath : List Char) :
    ∃ out, calibrationLoadResult resultPath (some file) = (.ok, out) ∧
      out.statusSuccess = true ∧ out.acceptancePassed = true ∧
      out.bankMasks.map UInt64.toNat = a.selectedMasks ∧
      out.maskSetId = maskSetId sha256 a.selectedMasks ∧
      out.holdout.tp.toNat = a.holdoutMetrics.tp ∧ out.holdout.tn.toNat = a.holdoutMetrics.tn ∧
      out.holdout.fp.toNat = a.holdoutMetrics.fp ∧
      out.holdout.fn.toNat = a.holdoutMetrics.fn := by
  obtain ⟨tail, htail, hnul, hquote⟩ := exists_tail hfile
  rw [htail] at hsize ⊢
  have hread : readFileLimited (some ((a.result sha256).dump ++ tail)) =
      .ok ((a.result sha256).dump ++ tail) := readFileLimited_of_le hsize
  have hstatus : extractString ⟨(a.result sha256).dump ++ tail, []⟩ "status" 32 =
      (true, "success".toList) :=
    extractString_of_found (by decide)
      (found_entry hnul (by simp [Analysis.entries, hsuccess, literal, PyStr.ofString]))
      (by decide)
  have hcstr : (cstr "success".toList == "success".toList) = true := by decide
  -- The checks of the loader pass one after the other, and what is left to read are the
  -- metrics.
  have hload : calibrationLoadResult resultPath (some ((a.result sha256).dump ++ tail)) =
      loadMetrics ⟨(a.result sha256).dump ++ tail, []⟩
        { calibrationResultReset with
          statusSuccess := true
          acceptancePassed := true
          bankMasks := a.selectedMasks.map UInt64.ofNat } := by
    rw [calibrationLoadResult, hread]
    simp only [extractString_error hnul hquote, hstatus, hcstr, Bool.not_true, Bool.false_eq_true,
      if_false]
    rw [loadMasks_eq hsuccess (List.length_pos_iff.1 hcount) hcount' hmasks hnul rfl]
  obtain ⟨holdout, hmetrics, htp, htn, hfp, hfn⟩ := loadMetrics_eq sha256 a hnul
    { calibrationResultReset with
      statusSuccess := true
      acceptancePassed := true
      bankMasks := a.selectedMasks.map UInt64.ofNat }
  have hlt := a.holdoutMetrics.total_lt
  have hword : ∀ {x : UInt64} {n : ℕ}, x = UInt64.ofNat n → n < 2 ^ 63 → x.toNat = n :=
    fun hx hn => hx ▸ UInt64.toNat_ofNat_of_lt' (hn.trans (by decide))
  refine ⟨_, hload.trans hmetrics, rfl, rfl, ?_, rfl, hword htp (by omega), hword htn (by omega),
    hword hfp (by omega), hword hfn (by omega)⟩
  rw [List.map_map]
  exact (List.map_congr_left fun m hm => UInt64.toNat_ofNat_of_lt' (hmasks m hm).2).trans
    (List.map_id' _)

/-! A report of one mask, from a host whose name looks like a part of a report. -/

/-- Metrics without an error. -/
def perfectMetrics : Metrics where
  tp := 1
  tn := 1
  fp := 0
  fn := 0
  accuracy := .dec false 1 [] 1
  precision := .dec false 1 [] 1
  «recall» := .dec false 1 [] 1
  f1 := .dec false 1 [] 1
  total_lt := by norm_num
  accuracy_computes := .inr ⟨1, [], 1, rfl, by norm_num [PyFloat.decimal, PyFloat.digitsValue]⟩
  precision_computes := .inr ⟨1, [], 1, rfl, by norm_num [PyFloat.decimal, PyFloat.digitsValue]⟩
  recall_computes := .inr ⟨1, [], 1, rfl, by norm_num [PyFloat.decimal, PyFloat.digitsValue]⟩
  f1_computes := .inr ⟨1, [], 1, rfl, by norm_num [PyFloat.decimal, PyFloat.digitsValue]⟩

/-- The analysis of one run, which found one mask. -/
def oneMask : Analysis where
  success := true
  generatedUnixNs := 1752000000000000000
  hardware :=
    { hostname := .ofString "\"status\": \"failed\", \"status"
      machine := .ofString "x86_64"
      platform := .ofString "Linux"
      kernel := .ofString "6.8.0"
      cpuModel := .ofString "unknown"
      memTotalKib := some 16384000 }
  runs :=
    [{ csv := .ofString "/tmp/run.csv"
       threshold := ⟨250, .dec false 2 [] 3, .dec false 3 [] 3, .dec false 1 [] 3, 2, 1, 1⟩
       rawUniquePairs := 2
       consistentPairs := 2
       droppedInconsistentPairs := 0
       consistentConflicts := 1 }]
  splits := ⟨2, 1, 2, 1, 2, 1⟩
  gf2Diag := ⟨[1, 2], 1, 1, 60, 60, .dec false 1 [] 1, [(1, 60)], 1, 1⟩
  candidates := 1
  history := [⟨6, 60, perfectMetrics⟩]
  selectedMasks := [6]
  fitMetrics := perfectMetrics
  tuneMetrics := perfectMetrics
  holdoutMetrics := perfectMetrics
  args :=
    { minSuccessfulRoundRate := .dec false 8 [] 0
      minHoldoutPrecision := .dec false 9 [] 0
      minHoldoutRecall := .dec false 8 [] 0
      kkMain := .ofString "/opt/main"
      memoryPercent := .dec false 2 [5] 2
      measurements := 500
      timingRounds := 50
      inputCsvMode := true }

/-- The hash of the mask of `oneMask`, as `hashlib` computes it. -/
def sha256OneMask : Vector UInt8 32 :=
  #v[171, 17, 203, 90, 138, 222, 70, 22, 252, 221, 28, 165, 172, 203, 193, 54, 164, 88,
    210, 214, 113, 147, 69, 139, 209, 135, 244, 144, 14, 2, 224, 129]

/-- The report of one mask and two holdout pairs is read back as it was written. -/
theorem report_round_trip_one :
    ∃ out, calibrationLoadResult []
        (some (atomicWriteJson (oneMask.result fun _ => sha256OneMask))) = (.ok, out) ∧
      out.statusSuccess = true ∧ out.acceptancePassed = true ∧
      out.bankMasks.map UInt64.toNat = [6] ∧
      out.maskSetId = maskSetId (fun _ => sha256OneMask) [6] ∧ out.holdout.tp.toNat = 1 ∧
      out.holdout.tn.toNat = 1 ∧ out.holdout.fp.toNat = 0 ∧ out.holdout.fn.toNat = 0 :=
  report_round_trip (fun _ => sha256OneMask) oneMask rfl (by decide) (by decide) (by decide)
    (.inr rfl) (by decide +kernel) []

end CgroupResearch
