import CgroupResearch.Calibrate.Reader
import CgroupResearch.Lib.PyJson

/-!
# Scanning JSON texts

What the searches of the reader find in the texts that Python writes. A key in quotes can stand
in a string too, or end one (`"x\"status"`); but what follows a string is never a colon, and
inside a string a quote stands behind a backslash, which no key ends with.

* `scanKey`: the search of `find_key_value`, position by position;
* `scanKey_render`, `scanKey_dict`: a value without the key is passed over, and in a dictionary
  with the key the search stops at its value;
* `scanBalanced_dict`, `scanBalanced_list`: the scan for the closing bracket takes the whole value;
* `parseBankMasksLoop_string`: what the reader of the masks does at a string.
-/

namespace CgroupResearch

open CString PyJson

/-! ## The search, position by position -/

/-- What follows a colon, if one comes next. -/
def afterColon (s : List Char) : Option (List Char) :=
  match skipWs s with
  | ':' :: value => some (skipWs value)
  | _ => none

/-- The search for the key `K` in quotes before a colon: what follows the colon. -/
def scanKey (K : List Char) : List Char → Option (List Char)
  | [] => none
  | c :: cs =>
    if '"' :: K ++ ['"'] <+: c :: cs then
      (afterColon ((c :: cs).drop (K.length + 2))).or (scanKey K cs)
    else scanKey K cs

/-- `strstr` finds the first place. -/
theorem strstr_some {needle hay : List Char} {off : ℕ} (h : strstr needle hay = some off) :
    needle <+: hay.drop off ∧ ∀ i < off, ¬ needle <+: hay.drop i := by
  induction hay generalizing off with
  | nil =>
    rw [strstr] at h
    split_ifs at h with hn
    obtain rfl := Option.some.inj h
    exact ⟨hn ▸ List.nil_prefix, fun i hi => absurd hi (Nat.not_lt_zero i)⟩
  | cons c cs ih =>
    rw [strstr] at h
    split_ifs at h with hp
    · obtain rfl := Option.some.inj h
      exact ⟨List.isPrefixOf_iff_prefix.1 hp, fun i hi => absurd hi (Nat.not_lt_zero i)⟩
    · obtain ⟨o, ho, rfl⟩ := Option.map_eq_some_iff.1 h
      obtain ⟨hmatch, hfirst⟩ := ih ho
      refine ⟨hmatch, fun i hi => ?_⟩
      cases i with
      | zero => exact fun hp' => hp (List.isPrefixOf_iff_prefix.2 hp')
      | succ i => exact hfirst i (Nat.lt_of_succ_lt_succ hi)

/-- `strstr` misses no place. -/
theorem strstr_none {needle hay : List Char} (h : strstr needle hay = none) (i : ℕ) :
    ¬ needle <+: hay.drop i := by
  induction hay generalizing i with
  | nil =>
    rw [strstr] at h
    split_ifs at h with hn
    rw [List.drop_nil, List.prefix_nil]
    exact hn
  | cons c cs ih =>
    rw [strstr] at h
    split_ifs at h with hp
    cases i with
    | zero => exact fun hp' => hp (List.isPrefixOf_iff_prefix.2 hp')
    | succ i => exact ih (Option.map_eq_none_iff.1 h) i

/-- Positions where the key does not stand are passed over. -/
theorem scanKey_drop {K p : List Char} (n : ℕ)
    (h : ∀ i < n, ¬ '"' :: K ++ ['"'] <+: p.drop i) : scanKey K p = scanKey K (p.drop n) := by
  induction n generalizing p with
  | zero => rfl
  | succ n ih =>
    cases p with
    | nil => rfl
    | cons c cs =>
      have h₀ : ¬ '"' :: K ++ ['"'] <+: c :: cs := h 0 (Nat.succ_pos n)
      rw [scanKey, if_neg h₀, List.drop_succ_cons]
      exact ih fun i hi => h (i + 1) (Nat.succ_lt_succ hi)

/-- The position of a match that is whole, or reaches over the end. -/
theorem scanKey_of_prefix_append {K p after : List Char} (hp : p ≠ [])
    (h : '"' :: K ++ ['"'] <+: p ++ after) :
    scanKey K p = (afterColon (p.drop (K.length + 2))).or (scanKey K (p.drop 1)) := by
  obtain ⟨c, cs, rfl⟩ := List.exists_cons_of_ne_nil hp
  rw [scanKey]
  split_ifs with hpre
  · rfl
  · have hlen : (c :: cs).length < K.length + 2 := by
      by_contra hle
      refine hpre (List.prefix_of_prefix_length_le h (List.prefix_append _ _) ?_)
      simpa using hle
    rw [List.drop_eq_nil_of_le hlen.le]
    rfl

theorem drop_cstr_append {p : List Char} (hp : '\x00' ∉ p) (rest : List Char) {i : ℕ}
    (hi : i ≤ p.length) : (cstr (p ++ rest)).drop i = p.drop i ++ cstr rest := by
  rw [cstr_append hp, List.drop_append_of_le_length hi]

/-- Positions before the first match are passed over. -/
theorem scanKey_of_no_match {K p rest : List Char} (hp : '\x00' ∉ p) {n : ℕ} (hn : n ≤ p.length)
    (h : ∀ i < n, ¬ '"' :: K ++ ['"'] <+: (cstr (p ++ rest)).drop i) :
    scanKey K p = scanKey K (p.drop n) := by
  refine scanKey_drop n fun i hi hpre => h i hi ?_
  rw [drop_cstr_append hp rest (hi.le.trans hn)]
  exact hpre.trans (List.prefix_append _ _)

/-- At the first match, the search looks for a colon, and goes on behind the match if there is
    none. -/
theorem scanKey_of_strstr {K p rest : List Char} (hp : '\x00' ∉ p) {off : ℕ}
    (hlt : off < p.length) (hoff : strstr ('"' :: K ++ ['"']) (cstr (p ++ rest)) = some off) :
    scanKey K p = (afterColon ((p.drop off).drop (K.length + 2))).or
      (scanKey K (p.drop (off + 1))) := by
  obtain ⟨hmatch, hfirst⟩ := strstr_some hoff
  have hne : p.drop off ≠ [] := fun h => hlt.not_ge (List.drop_eq_nil_iff.1 h)
  have hsucc : (p.drop off).drop 1 = p.drop (off + 1) := List.drop_drop
  rw [drop_cstr_append hp rest hlt.le] at hmatch
  rw [scanKey_of_no_match hp hlt.le hfirst, scanKey_of_prefix_append hne hmatch, hsucc]

/-- The loop of `find_key_value` searches position by position. -/
theorem findKeyLoop_eq (K rest p : List Char) (hp : '\x00' ∉ p) :
    findKeyLoop ('"' :: K ++ ['"']) rest p = scanKey K p := by
  have hlength : ('"' :: K ++ ['"']).length = K.length + 2 := by simp
  fun_induction findKeyLoop ('"' :: K ++ ['"']) rest p with
  | case1 => rfl
  | case2 p _ hnone =>
    rw [scanKey_of_no_match hp le_rfl fun i _ => strstr_none hnone i, List.drop_length, scanKey]
  | case3 p _ off hoff hle =>
    -- The match lies at the end of the buffer or beyond it, where the scan has stopped.
    rw [scanKey_of_no_match hp le_rfl fun i hi => (strstr_some hoff).2 i (hi.trans_le hle),
      List.drop_length, scanKey]
  | case4 p _ off hoff hlt value hvalue =>
    rw [hlength] at hvalue
    rw [scanKey_of_strstr hp (not_le.1 hlt) hoff, afterColon, hvalue]
    rfl
  | case5 p _ off hoff hlt hno ih =>
    -- No colon after the match, as when the key is the text of a value: the search goes on.
    rw [hlength] at hno
    have hcolon : afterColon ((p.drop off).drop (K.length + 2)) = none := by
      rw [afterColon]
      split
      · next value hvalue => exact absurd hvalue (hno value)
      · rfl
    rw [ih fun h => hp (List.mem_of_mem_drop h), scanKey_of_strstr hp (not_le.1 hlt) hoff, hcolon,
      Option.none_or]

/-- `find_key_value` on a range without a NUL. -/
theorem findKeyValue_eq {range : JsonRange} {key : String} (hr : '\x00' ∉ range.text)
    (hkey : key.toList.length < 126) : findKeyValue range key = scanKey key.toList range.text := by
  have hlength : ¬ 128 ≤ ('"' :: key.toList ++ ['"']).length := by
    simp only [List.cons_append, List.length_cons, List.length_append, List.length_nil]
    omega
  rw [findKeyValue, if_neg hlength, findKeyLoop_eq _ _ _ hr]

/-! ## Passing over values -/

/-- The names of keys. -/
structure KeyName (K : List Char) : Prop where
  ne_nil : K ≠ []
  names : ∀ c ∈ K, c.isAlphanum ∨ c = '_'

/-- What can follow a string that is no key: no colon, and no character of a name. -/
structure Ends (next : List Char) : Prop where
  head : ∀ c ∈ next.head?, ¬ (c.isAlphanum ∨ c = '_')
  no_colon : afterColon next = none

/-- What can follow a value inside a list or a dictionary: a comma, or the end of its line and
    then no colon. -/
structure Follows (next : List Char) : Prop where
  head : ∃ t, next = ',' :: t ∨ next = '\n' :: t
  no_colon : afterColon next = none

theorem ends_cons {c : Char} (hc : ¬ (c.isAlphanum ∨ c = '_')) {t : List Char}
    (h : afterColon (c :: t) = none) : Ends (c :: t) :=
  ⟨fun d hd => by rwa [← Option.some.inj hd], h⟩

theorem Follows.ends {next : List Char} (h : Follows next) : Ends next := by
  obtain ⟨t, rfl | rfl⟩ := h.head
  · exact ends_cons (by decide) h.no_colon
  · exact ends_cons (by decide) h.no_colon

theorem follows_comma (t : List Char) : Follows (',' :: t) := ⟨⟨t, .inl rfl⟩, rfl⟩

/-- The indentation is skipped. -/
theorem skipWs_newlineIndent (level : ℕ) (t : List Char) :
    skipWs (newlineIndent level ++ t) = skipWs t := by
  have hspaces : ∀ n, skipWs (List.replicate n ' ' ++ t) = skipWs t := fun n => by
    induction n with
    | zero => rfl
    | succ n ih => exact ih
  exact hspaces (2 * level)

/-- A closing bracket on a line of its own ends what is before it. -/
theorem follows_newlineIndent (level : ℕ) {opening closing : Char}
    (h : Brackets opening closing) (t : List Char) :
    Follows (newlineIndent level ++ closing :: t) := by
  refine ⟨⟨_, .inr rfl⟩, ?_⟩
  rw [afterColon, skipWs_newlineIndent]
  cases h <;> rfl

section

variable {K : List Char}

theorem scanKey_cons_of_ne {c : Char} (hc : c ≠ '"') (cs : List Char) :
    scanKey K (c :: cs) = scanKey K cs := by
  have hpre : ¬ '"' :: K ++ ['"'] <+: c :: cs := fun h => hc (List.cons_prefix_cons.1 h).1.symm
  rw [scanKey, if_neg hpre]

/-- There is no key without a quote. -/
theorem scanKey_append_of_no_quote {w : List Char} (hw : ∀ c ∈ w, c ≠ '"') (next : List Char) :
    scanKey K (w ++ next) = scanKey K next := by
  induction w with
  | nil => rfl
  | cons c w ih =>
    rw [List.forall_mem_cons] at hw
    rw [List.cons_append, scanKey_cons_of_ne hw.1, ih hw.2]

theorem scanKey_newlineIndent (level : ℕ) (next : List Char) :
    scanKey K (newlineIndent level ++ next) = scanKey K next := by
  refine scanKey_append_of_no_quote ?_ next
  rw [newlineIndent, List.forall_mem_cons]
  refine ⟨by decide, fun c hc => ?_⟩
  rw [(List.mem_replicate.1 hc).2]
  decide

/-- A name ends at a quote in a string literal only where the literal does. -/
theorem eq_of_prefix_escaped (hK : ∀ c ∈ K, c ≠ '"' ∧ c ≠ '\\') {e : List Char}
    (he : Escaped e) {t : List Char} (h : K ++ ['"'] <+: e ++ '"' :: t) : K = e := by
  induction he generalizing K with
  | nil =>
    cases K with
    | nil => rfl
    | cons k K => exact absurd (List.cons_prefix_cons.1 h).1 (hK k List.mem_cons_self).1
  | plain hq _ _ _ ih =>
    cases K with
    | nil => exact absurd (List.cons_prefix_cons.1 h).1.symm hq
    | cons k K =>
      obtain ⟨rfl, h'⟩ := List.cons_prefix_cons.1 h
      rw [ih (fun c hc => hK c (List.mem_cons_of_mem _ hc)) h']
  | escape _ _ _ =>
    cases K with
    | nil => exact absurd (List.cons_prefix_cons.1 h).1 (by decide)
    | cons k K => exact absurd (List.cons_prefix_cons.1 h).1 (hK k List.mem_cons_self).2

theorem KeyName.ne_quote (hK : KeyName K) : ∀ c ∈ K, c ≠ '"' ∧ c ≠ '\\' := by
  intro c hc
  have hname := hK.names c hc
  constructor
  all_goals
    rintro rfl
    exact absurd hname (by decide)

/-- At a quote inside a string, or at its start, the search finds the key only if the rest of
    the string is the key and a colon follows. -/
theorem scanKey_quote_escaped (hK : KeyName K) {e t : List Char} (he : Escaped e)
    (h : K = e → afterColon t = none) :
    scanKey K ('"' :: (e ++ '"' :: t)) = scanKey K (e ++ '"' :: t) := by
  rw [scanKey]
  split_ifs with hpre
  · obtain rfl := eq_of_prefix_escaped hK.ne_quote he (List.cons_prefix_cons.1 hpre).2
    have hdrop : ('"' :: (K ++ '"' :: t)).drop (K.length + 2) = t := by simp
    rw [hdrop, h rfl, Option.none_or]
  · rfl

/-- At the quote that ends a string, the search finds nothing. -/
theorem scanKey_quote (hK : KeyName K) {c : Char} (hc : ¬ (c.isAlphanum ∨ c = '_'))
    (t : List Char) : scanKey K ('"' :: c :: t) = scanKey K (c :: t) := by
  have hpre : ¬ '"' :: K ++ ['"'] <+: '"' :: c :: t := fun h => by
    obtain ⟨k, K', rfl⟩ := List.exists_cons_of_ne_nil hK.ne_nil
    have hk := (List.cons_prefix_cons.1 (List.cons_prefix_cons.1 h).2).1
    exact hc (hk ▸ hK.names k List.mem_cons_self)
  rw [scanKey, if_neg hpre]

/-- The quote that ends a string does not start a key. -/
theorem scanKey_quote_of_head (hK : KeyName K) {next : List Char}
    (hn : ∀ c ∈ next.head?, ¬ (c.isAlphanum ∨ c = '_')) :
    scanKey K ('"' :: next) = scanKey K next := by
  cases next with
  | nil =>
    have hpre : ¬ '"' :: K ++ ['"'] <+: ['"'] := fun h => by simpa using h.length_le
    exact if_neg hpre
  | cons c t => exact scanKey_quote hK (hn c rfl) t

/-- There is no key in a string that is escaped. -/
theorem scanKey_escaped (hK : KeyName K) {e next : List Char} (he : Escaped e)
    (hn : Ends next) : scanKey K (e ++ '"' :: next) = scanKey K next := by
  induction he with
  | nil => exact scanKey_quote_of_head hK hn.head
  | plain hq _ _ _ ih => rw [List.cons_append, scanKey_cons_of_ne hq, ih]
  | @escape d e _ he ih =>
    rw [List.cons_append, List.cons_append, scanKey_cons_of_ne (by decide)]
    by_cases hd : d = '"'
    · rw [hd, scanKey_quote_escaped hK he fun _ => hn.no_colon, ih]
    · rw [scanKey_cons_of_ne hd, ih]

/-- The search passes over a text, whatever follows it. -/
def Skipped (K t : List Char) : Prop :=
  ∀ next, Follows next → scanKey K (t ++ next) = scanKey K next

/-- A string is passed over. -/
theorem skipped_encode (hK : KeyName K) (s : PyStr) : Skipped K s.encode := fun next hn => by
  have happend : s.encode ++ next = '"' :: (s.escape ++ '"' :: next) := by
    simp [PyStr.encode]
  rw [happend, scanKey_quote_escaped hK (escaped_escape s) fun _ => hn.no_colon,
    scanKey_escaped hK (escaped_escape s) hn.ends]

/-- A member is passed over if its key is another one. -/
theorem skipped_member (hK : KeyName K) {k : PyStr} {t : List Char}
    (hk : k.escape ≠ K ∧ ∀ c ∈ k.escape, c ≠ '"') (ht : Skipped K t) :
    Skipped K (member k t) := fun next hn => by
  have happend : member k t ++ next = '"' :: (k.escape ++ '"' :: ':' :: ' ' :: (t ++ next)) := by
    simp [member, PyStr.encode]
  rw [happend, scanKey_quote_escaped hK (escaped_escape k) fun h => absurd h.symm hk.1,
    scanKey_append_of_no_quote hk.2, scanKey_quote hK (by decide),
    scanKey_cons_of_ne (by decide), scanKey_cons_of_ne (by decide), ht next hn]

/-- The separator after an item, and the items that follow. -/
theorem follows_lines {after : List Char} (ha : Follows after) (level : ℕ)
    (ts : List (List Char)) :
    Follows ((if ts.isEmpty then [] else [',']) ++ (lines level ts ++ after)) := by
  cases ts with
  | nil => exact ha
  | cons t ts => exact follows_comma _

theorem scanKey_separator (ts : List (List Char)) (next : List Char) :
    scanKey K ((if ts.isEmpty then [] else [',']) ++ next) = scanKey K next := by
  refine scanKey_append_of_no_quote ?_ next
  split_ifs <;> decide

/-- There is no key in lines that have none. -/
theorem scanKey_lines {after : List Char} (ha : Follows after) (level : ℕ)
    {items : List (List Char)} (h : ∀ t ∈ items, Skipped K t) :
    scanKey K (lines level items ++ after) = scanKey K after := by
  induction items with
  | nil => rfl
  | cons t ts ih =>
    rw [List.forall_mem_cons] at h
    simp only [lines, List.append_assoc]
    rw [scanKey_newlineIndent, h.1 _ (follows_lines ha level ts), scanKey_separator, ih h.2]

/-- A list or a dictionary is passed over if its items are. -/
theorem scanKey_block {opening closing : Char} (hb : Brackets opening closing) (level : ℕ)
    {items : List (List Char)} (h : ∀ t ∈ items, Skipped K t) (next : List Char) :
    scanKey K (block opening closing level items ++ next) = scanKey K next := by
  have hopening : opening ≠ '"' := by cases hb <;> decide
  have hclosing : closing ≠ '"' := by cases hb <;> decide
  rw [block]
  split_ifs
  · rw [List.cons_append, List.cons_append, List.nil_append, scanKey_cons_of_ne hopening,
      scanKey_cons_of_ne hclosing]
  · simp only [List.cons_append, List.append_assoc, List.nil_append]
    rw [scanKey_cons_of_ne hopening, scanKey_lines (follows_newlineIndent level hb next) _ h,
      scanKey_newlineIndent, scanKey_cons_of_ne hclosing]

/-- In front of the value of a member the search has found its key. -/
theorem scanKey_member {k : PyStr} (hk : k.escape = K) {t : List Char}
    (ht : ∀ next, skipWs (t ++ next) = t ++ next) (next : List Char) :
    scanKey K (member k t ++ next) = some (t ++ next) := by
  have happend : member k t ++ next = '"' :: (K ++ '"' :: ':' :: ' ' :: (t ++ next)) := by
    simp [member, PyStr.encode, hk]
  have hpre : '"' :: K ++ ['"'] <+: '"' :: (K ++ '"' :: ':' :: ' ' :: (t ++ next)) := by
    simp [List.cons_prefix_cons, List.prefix_append_right_inj]
  have hdrop : ('"' :: (K ++ '"' :: ':' :: ' ' :: (t ++ next))).drop (K.length + 2) =
      ':' :: ' ' :: (t ++ next) := by simp
  have hcolon : afterColon (':' :: ' ' :: (t ++ next)) = some (t ++ next) :=
    congrArg some (ht next)
  rw [happend, scanKey, if_pos hpre, hdrop, hcolon, Option.some_or]

/-- Among items of which all before it are passed over, the search comes to the item. -/
theorem scanKey_lines_of_mem {after : List Char} (ha : Follows after) (level : ℕ)
    {item : List Char} {items : List (List Char)} (hmem : item ∈ items)
    (h : ∀ t ∈ items, t = item ∨ Skipped K t) :
    ∃ next, Follows next ∧ scanKey K (lines level items ++ after) = scanKey K (item ++ next) := by
  induction items with
  | nil => exact absurd hmem List.not_mem_nil
  | cons t ts ih =>
    rw [List.forall_mem_cons] at h
    have hnext := follows_lines ha level ts
    simp only [lines, List.append_assoc]
    rw [scanKey_newlineIndent]
    rcases h.1 with rfl | hskip
    · exact ⟨_, hnext, rfl⟩
    · rcases List.mem_cons.1 hmem with rfl | hmem
      · exact ⟨_, hnext, rfl⟩
      · rw [hskip _ hnext, scanKey_separator]
        exact ih hmem h.2

end

/-! ## Searching values -/

theorem isspace_of_atomChar {c : Char} (h : AtomChar c) : isspace c = false := by
  have hne : ∀ d : Char, ¬ AtomChar d → (decide (c = d)) = false := fun d hd =>
    decide_eq_false (h.ne hd)
  rw [isspace, hne _ (by decide), hne _ (by decide), hne _ (by decide), hne _ (by decide),
    hne _ (by decide), hne _ (by decide)]
  rfl

theorem block_eq_cons (opening closing : Char) (level : ℕ) (items : List (List Char)) :
    ∃ t, block opening closing level items = opening :: t := by
  rw [block]
  split_ifs
  · exact ⟨_, rfl⟩
  · exact ⟨_, by rw [List.cons_append, List.cons_append]⟩

/-- A value starts with no space. -/
theorem skipWs_render (level : ℕ) (v : PyJson) (next : List Char) :
    skipWs (render level v ++ next) = render level v ++ next := by
  have hhead : ∃ c t, render level v = c :: t ∧ isspace c = false := by
    refine render_induction (P := fun t => ∃ c t', t = c :: t' ∧ isspace c = false)
      (fun w hne hw => ?_) (fun s => ⟨_, _, rfl, rfl⟩) (fun k t _ _ => ⟨_, _, rfl, rfl⟩)
      (fun o c hb level items _ => ?_) (keys_true v) level
    · obtain ⟨c, t, rfl⟩ := List.exists_cons_of_ne_nil hne
      exact ⟨c, t, rfl, isspace_of_atomChar (hw c List.mem_cons_self)⟩
    · obtain ⟨t, ht⟩ := block_eq_cons o c level items
      exact ⟨o, t, ht, by cases hb <;> rfl⟩
  obtain ⟨c, t, ht, hc⟩ := hhead
  rw [ht, List.cons_append, skipWs, List.dropWhile_cons_of_neg (by simp [hc])]

theorem nul_not_mem_encode (s : PyStr) : '\x00' ∉ s.encode := fun h => by
  rw [PyStr.encode, List.cons_append, List.mem_cons, List.mem_append, List.mem_singleton] at h
  rcases h with h | h | h
  · exact absurd h (by decide)
  · exact (escaped_escape s).ne_nul _ h rfl
  · exact absurd h (by decide)

/-- No text holds a NUL. -/
theorem nul_not_mem_render (level : ℕ) (v : PyJson) : '\x00' ∉ render level v := by
  refine render_induction (P := fun t => '\x00' ∉ t) (fun w _ hw h => ?_) nul_not_mem_encode
    (fun k t _ ht h => ?_) (fun o c hb level items hitems h => ?_) (keys_true v) level
  · exact absurd (hw _ h) (by decide)
  · rw [member, List.mem_append, List.mem_append] at h
    rcases h with (h | h) | h
    · exact nul_not_mem_encode k h
    · exact absurd h (by decide)
    · exact ht h
  · rcases mem_block h with ⟨t, ht, hc⟩ | hc | hc | hc
    · exact hitems t ht hc
    · cases hb <;> exact absurd hc (by decide)
    · cases hb <;> exact absurd hc (by decide)
    · exact absurd hc (by decide)

/-- The keys that are not taken for `K`. -/
def Avoids (K : List Char) (k : PyStr) : Prop := k.escape ≠ K ∧ ∀ c ∈ k.escape, c ≠ '"'

/-- A value without the key is passed over. -/
theorem skipped_render {K : List Char} (hK : KeyName K) {v : PyJson} (hv : v.Keys (Avoids K))
    (level : ℕ) : Skipped K (render level v) := by
  refine render_induction (fun w _ hw next _ => ?_) (skipped_encode hK)
    (fun k t hk ht => skipped_member hK hk ht)
    (fun o c hb level items h next _ => scanKey_block hb level h next) hv level
  exact scanKey_append_of_no_quote (fun c hc => (hw c hc).ne (by decide)) next

/-- A dictionary without the key is passed over, whatever follows. -/
theorem scanKey_dict_avoids {K : List Char} (hK : KeyName K) {members : List (PyStr × PyJson)}
    (h : (dict members).Keys (Avoids K)) (level : ℕ) (next : List Char) :
    scanKey K (render level (dict members) ++ next) = scanKey K next := by
  obtain ⟨items, hitems, hperm⟩ := render_dict level members
  rw [hitems]
  refine scanKey_block .dict level (fun t ht => ?_) next
  obtain ⟨m, hm, rfl⟩ := List.mem_map.1 (hperm.mem_iff.1 ht)
  obtain ⟨hkey, hval⟩ := keys_dict.1 h m hm
  exact skipped_member hK hkey (skipped_render hK hval _)

/-- In a dictionary that has the key once, the search stops at its value. -/
theorem scanKey_dict {K : List Char} (hK : KeyName K) {members : List (PyStr × PyJson)}
    {k : PyStr} {v : PyJson} (hmem : (k, v) ∈ members) (hk : k.escape = K)
    (h : ∀ m ∈ members, m = (k, v) ∨ (Avoids K m.1 ∧ m.2.Keys (Avoids K))) (level : ℕ)
    (after : List Char) :
    ∃ next, Follows next ∧
      scanKey K (render level (dict members) ++ after) = some (render (level + 1) v ++ next) := by
  obtain ⟨items, hitems, hperm⟩ := render_dict level members
  have hitem : member k (render (level + 1) v) ∈ items :=
    hperm.mem_iff.2 (List.mem_map.2 ⟨_, hmem, rfl⟩)
  have hskip : ∀ t ∈ items, t = member k (render (level + 1) v) ∨ Skipped K t := fun t ht => by
    obtain ⟨m, hm, rfl⟩ := List.mem_map.1 (hperm.mem_iff.1 ht)
    rcases h m hm with rfl | ⟨hkey, hval⟩
    · exact .inl rfl
    · exact .inr (skipped_member hK hkey (skipped_render hK hval _))
  have hne : items.isEmpty = false := by
    cases items with
    | nil => exact absurd hitem List.not_mem_nil
    | cons t ts => rfl
  obtain ⟨next, hnext, hscan⟩ :=
    scanKey_lines_of_mem (follows_newlineIndent level .dict after) (level + 1) hitem hskip
  refine ⟨next, hnext, ?_⟩
  rw [hitems, block, hne, if_neg Bool.false_ne_true]
  simp only [List.cons_append, List.append_assoc, List.nil_append]
  rw [scanKey_cons_of_ne (by decide), hscan, scanKey_member hk (skipWs_render _ v)]

/-! ## The closing bracket -/

section

variable {o c : Char}

/-- The scan for the closing bracket goes over a text without a change of depth. -/
def Passed (o c : Char) (t : List Char) : Prop :=
  ∀ depth : ℤ, 0 < depth → ∀ next, scanBalancedLoop o c depth false false (t ++ next) =
    (scanBalancedLoop o c depth false false next).map fun r => (t ++ r.1, r.2)

/-- What is passed piece by piece is passed. -/
theorem Passed.append {t t' : List Char} (h : Passed o c t) (h' : Passed o c t') :
    Passed o c (t ++ t') := fun depth hd next => by
  rw [List.append_assoc, h depth hd, h' depth hd, Option.map_map]
  exact congrFun (congrArg _ (funext fun r => by simp)) _

theorem passed_nil : Passed o c [] := fun depth _ next => by simp

/-- A piece without brackets and quotes is passed. -/
theorem passed_of_ne {t : List Char} (h : ∀ x ∈ t, x ≠ '"' ∧ x ≠ o ∧ x ≠ c) : Passed o c t := by
  induction t with
  | nil => exact passed_nil
  | cons x t ih =>
    rw [List.forall_mem_cons] at h
    obtain ⟨⟨hq, ho, hc⟩, ht⟩ := h
    intro depth hd next
    rw [List.cons_append, scanBalancedLoop]
    simp only [Bool.false_eq_true, if_false, if_neg hq, if_neg ho, if_neg hc, ih ht depth hd,
      Option.map_map, Function.comp_def, List.cons_append]

/-- The scan leaves a string at its closing quote. -/
theorem scanBalancedLoop_escaped {e : List Char} (he : Escaped e) (depth : ℤ)
    (next : List Char) :
    scanBalancedLoop o c depth true false (e ++ '"' :: next) =
      (scanBalancedLoop o c depth false false next).map fun r => (e ++ '"' :: r.1, r.2) := by
  induction he with
  | nil => simp [scanBalancedLoop]
  | plain hq hb _ _ ih =>
    rw [List.cons_append, scanBalancedLoop]
    simp only [if_true, Bool.false_eq_true, if_false, if_neg hq, if_neg hb, ih, Option.map_map,
      Function.comp_def, List.cons_append]
  | escape _ _ ih =>
    simp only [List.cons_append, scanBalancedLoop, if_true, Bool.false_eq_true, if_false, ih,
      Option.map_map, Function.comp_def]

/-- The scan goes over a string. -/
theorem passed_string {e : List Char} (he : Escaped e) : Passed o c ('"' :: (e ++ ['"'])) :=
  fun depth hd next => by
  have happend : ∀ t, '"' :: (e ++ ['"']) ++ t = '"' :: (e ++ '"' :: t) := by simp
  rw [happend, scanBalancedLoop]
  simp only [Bool.false_eq_true, if_false, if_true, scanBalancedLoop_escaped he, Option.map_map,
    Function.comp_def, happend]

/-- A string is passed, whatever brackets it holds. -/
theorem passed_encode (s : PyStr) : Passed o c s.encode := passed_string (escaped_escape s)

end

section

variable {o c : Char} (hb : Brackets o c)

include hb

theorem passed_newlineIndent (level : ℕ) : Passed o c (newlineIndent level) := by
  refine passed_of_ne fun x hx => ?_
  rcases mem_newlineIndent hx with rfl | rfl <;> cases hb <;> decide

theorem passed_lines (level : ℕ) {items : List (List Char)} (h : ∀ t ∈ items, Passed o c t) :
    Passed o c (lines level items) := by
  have hcomma : Passed o c [','] := passed_of_ne (by cases hb <;> decide)
  induction items with
  | nil => exact passed_nil
  | cons t ts ih =>
    rw [List.forall_mem_cons] at h
    rw [lines]
    refine (((passed_newlineIndent hb level).append h.1).append ?_).append (ih h.2)
    split_ifs
    · exact passed_nil
    · exact hcomma

/-- What stands between the brackets of a list or a dictionary. -/
theorem passed_inside (o' c' : Char) (level : ℕ) {items : List (List Char)}
    (h : ∀ t ∈ items, Passed o c t) :
    ∃ t, block o' c' level items = o' :: (t ++ [c']) ∧ Passed o c t := by
  rw [block]
  split_ifs
  · exact ⟨[], rfl, passed_nil⟩
  · refine ⟨_, ?_, (passed_lines hb (level + 1) h).append (passed_newlineIndent hb level)⟩
    rw [List.cons_append, List.cons_append]

/-- The scan goes over a list or a dictionary: if it counts its brackets, the depth is back
    where it was, and not at zero. -/
theorem Passed.brackets {o' c' : Char} (hb' : Brackets o' c') {t : List Char}
    (h : Passed o c t) : Passed o c (o' :: (t ++ [c'])) := fun depth hd next => by
  cases hb <;> cases hb' <;>
    simp [scanBalancedLoop, h depth hd, h (depth + 1) (by omega), hd.ne', Function.comp_def]

/-- A block of other brackets is passed. -/
theorem passed_block {o' c' : Char} (hb' : Brackets o' c') (level : ℕ)
    {items : List (List Char)} (h : ∀ t ∈ items, Passed o c t) :
    Passed o c (block o' c' level items) := by
  obtain ⟨t, ht, hpass⟩ := passed_inside hb o' c' level h
  rw [ht]
  exact hpass.brackets hb hb'

/-- The scan goes over every value. -/
theorem passed_render (level : ℕ) (v : PyJson) : Passed o c (render level v) := by
  have hcolon : Passed o c [':', ' '] := passed_of_ne (by cases hb <;> decide)
  refine render_induction (P := Passed o c) (fun w _ hw => passed_of_ne fun x hx => ?_)
    passed_encode (fun k t _ ht => ((passed_encode k).append hcolon).append ht)
    (fun o' c' hb' level items h => passed_block hb hb' level h) (keys_true v) level
  have hne : ∀ d, ¬ AtomChar d → x ≠ d := fun d => (hw x hx).ne
  cases hb <;> exact ⟨hne _ (by decide), hne _ (by decide), hne _ (by decide)⟩

/-- From its opening bracket, the scan takes a list or a dictionary as a whole. -/
theorem scanBalanced_brackets {t : List Char} (h : Passed o c t) (after rest : List Char) :
    scanBalanced (o :: (t ++ [c]) ++ after) rest o c = some ⟨o :: (t ++ [c]), after ++ rest⟩ := by
  rw [scanBalanced]
  cases hb <;> simp [scanBalancedLoop, h 1 Int.one_pos]

/-- A block is read to its closing bracket. -/
theorem scanBalanced_block (level : ℕ) {items : List (List Char)}
    (h : ∀ t ∈ items, Passed o c t) (after rest : List Char) :
    scanBalanced (block o c level items ++ after) rest o c =
      some ⟨block o c level items, after ++ rest⟩ := by
  obtain ⟨t, ht, hpass⟩ := passed_inside hb o c level h
  rw [ht]
  exact scanBalanced_brackets hb hpass after rest

end

/-- An object is read to its closing bracket. -/
theorem scanBalanced_dict (level : ℕ) (members : List (PyStr × PyJson))
    (after rest : List Char) :
    scanBalanced (render level (dict members) ++ after) rest '{' '}' =
      some ⟨render level (dict members), after ++ rest⟩ := by
  obtain ⟨items, hitems, hperm⟩ := render_dict level members
  rw [hitems]
  refine scanBalanced_block .dict level (fun t ht => ?_) after rest
  obtain ⟨m, -, rfl⟩ := List.mem_map.1 (hperm.mem_iff.1 ht)
  exact ((passed_encode m.1).append (passed_of_ne (by decide))).append (passed_render .dict _ _)

/-- A list is read to its closing bracket. -/
theorem scanBalanced_list (level : ℕ) (items : List PyJson) (after rest : List Char) :
    scanBalanced (render level (list items) ++ after) rest '[' ']' =
      some ⟨render level (list items), after ++ rest⟩ := by
  rw [render, renderItems_eq_map]
  refine scanBalanced_block .list level (fun t ht => ?_) after rest
  obtain ⟨v, -, rfl⟩ := List.mem_map.1 ht
  exact passed_render .list _ v

/-! ## Masks -/

/-- The loop ends where the text does. -/
theorem parseBankMasksLoop_end {acc : List UInt64} {p : List Char} (hp : skipWs p = []) :
    parseBankMasksLoop acc p = (if acc = [] then .errRejected else .ok, acc) := by
  rw [parseBankMasksLoop]
  split
  · rfl
  · next h => exact absurd (hp.symm.trans h) (List.cons_ne_nil _ _).symm

/-- A comma is skipped, wherever it is. -/
theorem parseBankMasksLoop_comma (acc : List UInt64) {p cs : List Char}
    (hp : skipWs p = ',' :: cs) : parseBankMasksLoop acc p = parseBankMasksLoop acc cs := by
  rw [parseBankMasksLoop]
  split
  · next h => exact absurd (hp.symm.trans h) (List.cons_ne_nil _ _)
  · next h =>
    obtain ⟨rfl, rfl⟩ := List.cons.inj (hp.symm.trans h)
    rw [if_pos rfl]

/-- What comes is no string. -/
theorem parseBankMasksLoop_other {acc : List UInt64} {p cs : List Char} {c : Char}
    (hp : skipWs p = c :: cs) (hcomma : c ≠ ',') (hquote : c ≠ '"') :
    parseBankMasksLoop acc p = (.errJson, acc) := by
  rw [parseBankMasksLoop]
  split
  · next h => exact absurd (hp.symm.trans h) (List.cons_ne_nil _ _)
  · next h =>
    obtain ⟨rfl, rfl⟩ := List.cons.inj (hp.symm.trans h)
    rw [if_neg hcomma, if_pos hquote]

/-- A string is read as a mask. -/
theorem parseBankMasksLoop_string {acc : List UInt64} {p text after : List Char}
    (hp : skipWs p = '"' :: (text ++ '"' :: after)) (htext : ∀ c ∈ text, c ≠ '"') :
    parseBankMasksLoop acc p =
      if 64 ≤ text.length then (.errJson, acc)
      else if calibrationMaxBankMasks ≤ acc.length then (.errTooManyMasks, acc)
      else match parseMask text with
        | none => (.errJson, acc)
        | some mask => parseBankMasksLoop (acc ++ [mask]) after := by
  have htake : (text ++ '"' :: after).takeWhile (· ≠ '"') = text := by
    rw [List.takeWhile_append_of_pos fun c hc => decide_eq_true (htext c hc),
      List.takeWhile_cons_of_neg (by simp), List.append_nil]
  rw [parseBankMasksLoop]
  split
  · next h => exact absurd (hp.symm.trans h) (List.cons_ne_nil _ _)
  · next h =>
    obtain ⟨rfl, rfl⟩ := List.cons.inj (hp.symm.trans h)
    rw [if_neg (by decide), if_neg (by simp)]
    simp only [htake]
    split
    · rfl
    · split
      · next h' =>
        rw [htake, List.drop_left] at h'
        exact absurd h' (List.cons_ne_nil _ _)
      · next h' =>
        rw [htake, List.drop_left] at h'
        obtain ⟨-, rfl⟩ := List.cons.inj h'
        rfl

end CgroupResearch
