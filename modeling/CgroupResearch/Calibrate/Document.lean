import CgroupResearch.Calibrate.Scan
import CgroupResearch.Lib.Json

/-!
# Searching JSON documents

What the searches of the reader find in any JSON text, with its members in any order and at any
depth. A search for a key stops at the first member, in the order of the text, whose key ends with
that name behind a quote (`scanKey_spells`): the search does not know at which depth it is. The scan
for the closing bracket, on the other hand, takes just the value it starts at (`passed_spells`).

* `keyMatches`: the keys that are taken for a name;
* `findKeyValue_isText`: what `find_key_value` finds in a document;
* `first_of_extract`, `extract_of_first`, `extractBool_isText`: what is extracted then.
-/

namespace CgroupResearch

open CString CNumber PyJson

open Json (Spells StrBody Ws IsText Part Lead ReadsNumbers first firstItems firstMembers)

/-! ## Strings -/

theorem escaped_of_strBody {e : List Char} (h : StrBody e) : Escaped e := by
  induction h with
  | nil => exact .nil
  | plain hc _ ih =>
    exact .plain hc.2.1 hc.2.2 (fun h0 => absurd (h0 ▸ hc.1) (by decide)) ih
  | escape hd _ ih => exact .escape (fun h0 => absurd (h0 ▸ hd) (by decide)) ih
  | unicode hex _ ih =>
    have hne : ∀ d, CNumber.isDigitOf 16 d = false → ∀ c ∈ _, c ≠ d := fun d hd c hc hcd =>
      absurd (hcd ▸ hex c hc) (by simp [hd])
    have hplain : ∀ c ∈ _, c ≠ '"' ∧ c ≠ '\\' ∧ c ≠ '\x00' := fun c hc =>
      ⟨hne _ rfl c hc, hne _ rfl c hc, hne _ rfl c hc⟩
    simp only [List.forall_mem_cons] at hplain
    obtain ⟨⟨hq₁, hb₁, h0₁⟩, ⟨hq₂, hb₂, h0₂⟩, ⟨hq₃, hb₃, h0₃⟩, ⟨hq₄, hb₄, h0₄⟩, -⟩ := hplain
    exact .escape (by decide)
      (.plain hq₁ hb₁ h0₁ (.plain hq₂ hb₂ h0₂ (.plain hq₃ hb₃ h0₃ (.plain hq₄ hb₄ h0₄ ih))))

theorem isspace_of_ws {w : List Char} (hw : Ws w) : ∀ c ∈ w, isspace c = true := by
  intro c hc
  rcases hw c hc with rfl | rfl | rfl | rfl <;> rfl

/-- Whitespace is skipped. -/
theorem skipWs_ws {w : List Char} (hw : Ws w) (s : List Char) : skipWs (w ++ s) = skipWs s := by
  rw [skipWs, List.dropWhile_append_of_pos (isspace_of_ws hw), skipWs]

theorem afterColon_ws {w : List Char} (hw : Ws w) (s : List Char) :
    afterColon (w ++ s) = afterColon s := by
  rw [afterColon, skipWs_ws hw, afterColon]

/-- White space is no part of a name. -/
theorem head_ws {w next : List Char} (hw : Ws w)
    (hn : ∀ c ∈ next.head?, ¬ (c.isAlphanum ∨ c = '_')) :
    ∀ c ∈ (w ++ next).head?, ¬ (c.isAlphanum ∨ c = '_') := by
  intro c hc
  cases w with
  | nil => exact hn c hc
  | cons d w =>
    obtain rfl : d = c := Option.some.inj hc
    rcases hw d List.mem_cons_self with rfl | rfl | rfl | rfl <;> decide

/-- What can follow a value in a list or an object: white space, a comma or the closing bracket,
    and then no colon. -/
structure EndsValue (next : List Char) : Prop where
  head : ∃ c t, next = c :: t ∧ c ∈ [' ', '\t', '\n', '\r', ',', ']', '}']
  no_colon : afterColon next = none

theorem EndsValue.ends {next : List Char} (h : EndsValue next) : Ends next := by
  obtain ⟨c, t, rfl, hc⟩ := h.head
  have hnames : ∀ c ∈ [' ', '\t', '\n', '\r', ',', ']', '}'], ¬ (c.isAlphanum ∨ c = '_') := by
    decide
  exact ends_cons (hnames c hc) h.no_colon

/-- A number ends where a value does. -/
theorem EndsValue.endsNumber {next : List Char} (h : EndsValue next) (rest : List Char) :
    EndsNumber (next ++ rest) := by
  obtain ⟨c, t, rfl, hc⟩ := h.head
  simp only [List.mem_cons, List.not_mem_nil, or_false] at hc
  rcases hc with rfl | rfl | rfl | rfl | rfl | rfl | rfl
  all_goals exact endsNumber_cons rfl (by decide) (by decide) (by decide) _

theorem EndsValue.ws {w next : List Char} (hw : Ws w) (hn : EndsValue next) :
    EndsValue (w ++ next) where
  head := by
    cases w with
    | nil => exact hn.head
    | cons c w =>
      refine ⟨c, w ++ next, rfl, ?_⟩
      rcases hw c List.mem_cons_self with rfl | rfl | rfl | rfl <;> decide
  no_colon := by rw [afterColon_ws hw, hn.no_colon]

theorem endsValue_closing {o c : Char} (hb : Brackets o c) (t : List Char) :
    EndsValue (c :: t) := by
  cases hb <;> exact ⟨⟨_, t, rfl, by decide⟩, rfl⟩

/-- A value of a list ends at the next comma. -/
theorem endsValue_moreItems {vs : List Json} {ts next : List Char}
    (h : Spells (.moreItems vs) ts) (hn : EndsValue next) : EndsValue (ts ++ next) := by
  cases h with
  | lastItem => exact hn
  | nextItem _ => exact ⟨⟨',', _, rfl, by decide⟩, rfl⟩

/-- A value of an object ends at the next comma. -/
theorem endsValue_moreMembers {ms : List (List Char × Json)} {ts next : List Char}
    (h : Spells (.moreMembers ms) ts) (hn : EndsValue next) : EndsValue (ts ++ next) := by
  cases h with
  | lastMember => exact hn
  | nextMember _ => exact ⟨⟨',', _, rfl, by decide⟩, rfl⟩

/-! ## Keys -/

/-- The key `k` is taken for the name `K`: it is that name, or ends with it behind a quote. -/
def keyMatches (K k : List Char) : Bool := ('"' :: K).isSuffixOf ('"' :: k)

section

variable {K : List Char}

/-- There is no key in whitespace. -/
theorem scanKey_ws {w : List Char} (hw : Ws w) (next : List Char) :
    scanKey K (w ++ next) = scanKey K next :=
  scanKey_append_of_no_quote (hw.ne (by decide)) next

/-- At a quote before the rest `e` of a key, the search stops if the rest is the name. -/
theorem scanKey_quote_key (hK : KeyName K) {e after value : List Char} (he : Escaped e)
    (hcolon : afterColon after = some value) :
    scanKey K ('"' :: (e ++ '"' :: after)) =
      if K = e then some value else scanKey K (e ++ '"' :: after) := by
  split_ifs with hKe
  · subst hKe
    have hpre : '"' :: K ++ ['"'] <+: '"' :: (K ++ '"' :: after) := by
      simp [List.cons_prefix_cons, List.prefix_append_right_inj]
    have hdrop : ('"' :: (K ++ '"' :: after)).drop (K.length + 2) = after := by simp
    rw [scanKey, if_pos hpre, hdrop, hcolon, Option.some_or]
  · exact scanKey_quote_escaped hK he fun h => absurd h hKe

/-- Inside a key, the search stops at a quote that the name follows. -/
theorem scanKey_inside_key (hK : KeyName K) {e after value : List Char} (he : Escaped e)
    (hcolon : afterColon after = some value) :
    scanKey K (e ++ '"' :: after) =
      if ('"' :: K) <:+ e then some value else scanKey K ('"' :: after) := by
  induction he with
  | nil => rw [if_neg (by simp), List.nil_append]
  | plain hq _ _ _ ih =>
    rw [List.cons_append, scanKey_cons_of_ne hq, ih]
    refine if_congr ?_ rfl rfl
    rw [List.suffix_cons_iff, or_iff_right fun h => hq (List.cons.inj h).1.symm]
  | @escape d e _ he ih =>
    have hsuffix : ('"' :: K) <:+ '\\' :: d :: e ↔ ('"' = d ∧ K = e) ∨ ('"' :: K) <:+ e := by
      rw [List.suffix_cons_iff, List.suffix_cons_iff, List.cons.injEq, List.cons.injEq,
        or_iff_right fun h => absurd h.1 (by decide)]
    rw [List.cons_append, List.cons_append, scanKey_cons_of_ne (by decide),
      if_congr hsuffix rfl rfl]
    by_cases hd : d = '"'
    · rw [hd, scanKey_quote_key hK he hcolon, ih]
      by_cases hKe : K = e <;> simp [hKe]
    · rw [scanKey_cons_of_ne hd, ih]
      simp [Ne.symm hd]

/-- The search at a member stops if its key is taken for the name. -/
theorem scanKey_key (hK : KeyName K) {k w₁ w₂ value : List Char} (hk : StrBody k) (hw₁ : Ws w₁)
    (hw₂ : Ws w₂) (hvalue : skipWs value = value) :
    scanKey K ('"' :: (k ++ '"' :: (w₁ ++ ':' :: (w₂ ++ value)))) =
      if keyMatches K k then some value else scanKey K value := by
  have hcolon : afterColon (w₁ ++ ':' :: (w₂ ++ value)) = some value := by
    rw [afterColon_ws hw₁]
    exact congrArg some ((skipWs_ws hw₂ value).trans hvalue)
  have hends : scanKey K ('"' :: (w₁ ++ ':' :: (w₂ ++ value))) = scanKey K value := by
    have hhead : ∀ c ∈ (':' :: (w₂ ++ value)).head?, ¬ (c.isAlphanum ∨ c = '_') := fun c hc => by
      obtain rfl : ':' = c := Option.some.inj hc
      decide
    rw [scanKey_quote_of_head hK (head_ws hw₁ hhead), scanKey_ws hw₁,
      scanKey_cons_of_ne (by decide), scanKey_ws hw₂]
  have hmatches : keyMatches K k = true ↔ K = k ∨ ('"' :: K) <:+ k := by
    rw [keyMatches, List.isSuffixOf_iff_suffix, List.suffix_cons_iff, List.cons.injEq,
      and_iff_right rfl]
  have hescaped := escaped_of_strBody hk
  rw [scanKey_quote_key hK hescaped hcolon, scanKey_inside_key hK hescaped hcolon, hends,
    if_congr hmatches rfl rfl]
  by_cases hKk : K = k <;> simp [hKk]

/-! ## Searching values -/

/-- The search in `t` stops at the value found, or goes on with `next`. -/
def Searched (K : List Char) : (found : Option Json) → (t next : List Char) → Prop
  | none, t, next => scanKey K t = scanKey K next
  | some v, t, _ => ∃ tv after, Spells (.value v) tv ∧ EndsValue after ∧
      scanKey K t = some (tv ++ after)

theorem Searched.of_eq {found : Option Json} {t t' next : List Char}
    (h : scanKey K t = scanKey K t') (ht' : Searched K found t' next) :
    Searched K found t next := by
  cases found with
  | none => exact h.trans ht'
  | some v =>
    obtain ⟨tv, after, hv, hafter, hscan⟩ := ht'
    exact ⟨tv, after, hv, hafter, h.trans hscan⟩

/-- One search after the other. -/
theorem Searched.or {a b : Option Json} {t t' next : List Char} (ha : Searched K a t t')
    (hb : Searched K b t' next) : Searched K (a.or b) t next := by
  cases a with
  | none => exact hb.of_eq ha
  | some v => exact ha

/-- Brackets are passed over. -/
theorem Searched.brackets {o c : Char} (hb : Brackets o c) {found : Option Json}
    {t next : List Char} (h : Searched K found (t ++ c :: next) (c :: next)) :
    Searched K found (o :: (t ++ [c]) ++ next) next := by
  have hopen : o ≠ '"' := by cases hb <;> decide
  have hclose : c ≠ '"' := by cases hb <;> decide
  rw [List.cons_append, List.append_assoc, List.singleton_append, ← Option.or_none (o := found)]
  exact .of_eq (scanKey_cons_of_ne hopen _) (h.or (b := none) (scanKey_cons_of_ne hclose _))

theorem skipWs_value {v : Json} {t : List Char} (h : Spells (.value v) t) (next : List Char) :
    skipWs (t ++ next) = t ++ next := by
  obtain ⟨c, s, rfl, hlead⟩ := h.lead
  have hspace : ¬ isspace c = true := fun hspace => by
    simp only [isspace, Bool.or_eq_true, decide_eq_true_eq] at hspace
    rcases hspace with ((((rfl | rfl) | rfl) | rfl) | rfl) | rfl <;> exact hlead.ne (by decide) rfl
  rw [List.cons_append, skipWs, List.dropWhile_cons_of_neg hspace]

/-- The search finds the first member of a text whose key is taken for the name. The induction is
    on the grammar: what follows each part is known to end a string there. -/
theorem scanKey_spells (hK : KeyName K) {part : Part} {t : List Char} (h : Spells part t) :
    ∀ {next : List Char}, EndsValue next →
      Searched K (part.first (keyMatches K)) (t ++ next) next := by
  have hatom : ∀ {w next : List Char}, (∀ c ∈ w, c ≠ '"') → Searched K none (w ++ next) next :=
    fun hw => scanKey_append_of_no_quote hw _
  induction h with
  | null => exact fun _ => hatom (by decide)
  | bool b => exact fun _ => hatom (by cases b <;> decide)
  | num hw =>
    exact fun _ => hatom fun c hc hq => absurd (hw.chars c hc) (by rw [hq]; decide)
  | @str e he =>
    -- A string is met twice: its opening quote may start a match of the key, and then its body
    -- is searched. Neither finds anything, since no colon follows a string that is a value.
    intro next hn
    rw [List.cons_append, List.append_assoc]
    exact (scanKey_quote_escaped hK (escaped_of_strBody he) fun _ => hn.no_colon).trans
      (scanKey_escaped hK (escaped_of_strBody he) hn.ends)
  | arr _ ih => exact fun _ => .brackets .list (ih (endsValue_closing .list _))
  | obj _ ih => exact fun _ => .brackets .dict (ih (endsValue_closing .dict _))
  | noItems hw => exact fun _ => scanKey_ws hw _
  | item hw _ hw' hs ih ihs =>
    intro next hn
    simp only [List.append_assoc]
    refine .of_eq (scanKey_ws hw _) (.or (ih ((endsValue_moreItems hs hn).ws hw')) ?_)
    exact .of_eq (scanKey_ws hw' _) (ihs hn)
  | lastItem => exact fun _ => rfl
  | nextItem _ ih => exact fun hn => .of_eq (scanKey_cons_of_ne (by decide) _) (ih hn)
  | noMembers hw => exact fun _ => scanKey_ws hw _
  | @member k v ms w w₁ w₂ t w' ts hw hk hw₁ hw₂ h hw' hs ih ihs =>
    intro next hn
    simp only [List.append_assoc, List.cons_append]
    refine .of_eq (scanKey_ws hw _) ?_
    have hkey := scanKey_key hK hk hw₁ hw₂ (skipWs_value h (w' ++ (ts ++ next)))
    -- The scan knows no nesting: the first key that matches wins, at whatever depth it stands,
    -- which is the order in which `first` goes through the document.
    by_cases hmatch : keyMatches K k = true
    · rw [if_pos hmatch] at hkey
      have hfirst : Part.first (keyMatches K) (.members ((k, v) :: ms)) = some v := if_pos hmatch
      rw [hfirst]
      exact ⟨t, _, h, (endsValue_moreMembers hs hn).ws hw', hkey⟩
    · rw [if_neg hmatch] at hkey
      have hfirst : Part.first (keyMatches K) (.members ((k, v) :: ms)) =
          (first (keyMatches K) v).or (firstMembers (keyMatches K) ms) := if_neg hmatch
      rw [hfirst]
      refine .of_eq hkey (.or (ih ((endsValue_moreMembers hs hn).ws hw')) ?_)
      exact .of_eq (scanKey_ws hw' _) (ihs hn)
  | lastMember => exact fun _ => rfl
  | nextMember _ ih => exact fun hn => .of_eq (scanKey_cons_of_ne (by decide) _) (ih hn)

end

/-! ## The closing bracket -/

/-- The scan for a closing bracket goes over every part of a text. -/
theorem passed_spells {o c : Char} (hb : Brackets o c) {part : Part} {t : List Char}
    (h : Spells part t) : Passed o c t := by
  have hws : ∀ {w}, Ws w → Passed o c w := fun hw => passed_of_ne fun x hx => by
    cases hb <;> exact ⟨hw.ne (by decide) x hx, hw.ne (by decide) x hx, hw.ne (by decide) x hx⟩
  have hone : ∀ {x}, x = ',' ∨ x = ':' → Passed o c [x] := fun hx => by
    rcases hx with rfl | rfl <;> cases hb <;> exact passed_of_ne (by decide)
  induction h with
  | null => cases hb <;> exact passed_of_ne (by decide)
  | bool b => cases hb <;> cases b <;> exact passed_of_ne (by decide)
  | num hw =>
    refine passed_of_ne fun x hx => ?_
    have hne : ∀ d, ¬ AtomChar d → x ≠ d := fun d => AtomChar.ne (hw.chars x hx)
    cases hb <;> exact ⟨hne _ (by decide), hne _ (by decide), hne _ (by decide)⟩
  | str he => exact passed_string (escaped_of_strBody he)
  -- Only brackets of the kind that is counted move the depth, and each pair brings it back.
  | arr _ ih => exact ih.brackets hb .list
  | obj _ ih => exact ih.brackets hb .dict
  | noItems hw => exact hws hw
  | item hw _ hw' _ ih ihs => exact (hws hw).append (ih.append ((hws hw').append ihs))
  | lastItem => exact passed_nil
  | nextItem _ ih => exact (hone (.inl rfl)).append ih
  | noMembers hw => exact hws hw
  | @member k v ms w w₁ w₂ t w' ts hw hk hw₁ hw₂ _ hw' _ ih ihs =>
    have hvalue : Passed o c (w₂ ++ (t ++ (w' ++ ts))) :=
      (hws hw₂).append (ih.append ((hws hw').append ihs))
    have hkey := (passed_string (escaped_of_strBody hk)).append
      ((hws hw₁).append ((hone (.inr rfl)).append hvalue))
    refine (hws hw).append ?_
    simpa using hkey
  | lastMember => exact passed_nil
  | nextMember _ ih => exact (hone (.inl rfl)).append ih

/-- From its first character, the scan takes the text of a list or an object as a whole. -/
theorem scanBalanced_spells {o c : Char} (hb : Brackets o c) {v : Json} {t : List Char}
    (h : Spells (.value v) t) (hlead : v.Lead o) (after rest : List Char) :
    scanBalanced (t ++ after) rest o c = some ⟨t, after ++ rest⟩ := by
  cases hb with
  | list =>
    obtain ⟨vs, rfl⟩ := hlead.eq.2.1 rfl
    cases h with
    | arr h => exact scanBalanced_brackets .list (passed_spells .list h) after rest
  | dict =>
    obtain ⟨ms, rfl⟩ := hlead.eq.2.2.1 rfl
    cases h with
    | obj h => exact scanBalanced_brackets .dict (passed_spells .dict h) after rest

/-! ## Extracting values -/

/-- A name that `find_key_value` can look for. -/
structure Findable (key : String) : Prop where
  name : KeyName key.toList
  length : key.toList.length < 126

/-- A name of letters and digits that fits the buffer can be searched for. -/
theorem findable {key : String} (h : key.toList ≠ [] ∧
    (∀ c ∈ key.toList, c.isAlphanum ∨ c = '_') ∧ key.toList.length < 126) : Findable key :=
  ⟨⟨h.1, h.2.1⟩, h.2.2⟩

/-- The first member of a document, in the order of its text, that is taken for a field. -/
def found (key : String) (doc : Json) : Option Json := first (keyMatches key.toList) doc

/-- The reader is at the value `v` after looking for a key. -/
def FoundAt (range : JsonRange) (key : String) (v : Json) : Prop :=
  ∃ t after, Spells (.value v) t ∧ EndsValue after ∧ findKeyValue range key = some (t ++ after)

section

variable {ms : List (List Char × Json)} {range : JsonRange} (hdoc : IsText (.obj ms) range.text)
  {key : String} (hkey : Findable key)

include hdoc hkey

/-- What `find_key_value` finds in a document. -/
theorem findKeyValue_isText :
    (found key (.obj ms) = none ∧ findKeyValue range key = none) ∨
      ∃ v, found key (.obj ms) = some v ∧ FoundAt range key v := by
  have hscan : Searched key.toList (found key (.obj ms)) range.text [] := by
    obtain ⟨w, t, w', hw, ht, hw', htext⟩ := hdoc
    cases ht with
    | @obj _ t h =>
      have hmembers := scanKey_spells hkey.name h (endsValue_closing .dict w')
      have hrest : Searched key.toList none w' [] := by
        have hskip := @scanKey_ws key.toList w' hw' []
        rwa [List.append_nil] at hskip
      have hvalue := (hmembers.brackets .dict).or hrest
      rw [Option.or_none] at hvalue
      rw [htext]
      exact .of_eq (scanKey_ws hw _) hvalue
  have hfind := findKeyValue_eq hdoc.nul_not_mem hkey.length
  cases hfirst : found key (.obj ms) with
  | none =>
    rw [hfirst] at hscan
    exact .inl ⟨rfl, hfind.trans hscan⟩
  | some v =>
    rw [hfirst] at hscan
    obtain ⟨t, after, ht, hafter, hvalue⟩ := hscan
    exact .inr ⟨v, rfl, t, after, ht, hafter, hfind.trans hvalue⟩

/-- A search that finds a value that starts with a certain character. -/
theorem exists_of_findKeyValue {c : Char} {s : List Char}
    (h : findKeyValue range key = some (c :: s)) :
    ∃ v t after, found key (.obj ms) = some v ∧ v.Lead c ∧
      Spells (.value v) (c :: t) ∧ s = t ++ after := by
  rcases findKeyValue_isText hdoc hkey with ⟨-, hnone⟩ | ⟨v, hfirst, t, after, ht, -, hfind⟩
  · exact absurd (h.symm.trans hnone) nofun
  · obtain ⟨d, t, rfl, hlead⟩ := ht.lead
    rw [hfind, List.cons_append] at h
    obtain ⟨rfl, rfl⟩ := List.cons.inj (Option.some.inj h)
    exact ⟨v, t, after, hfirst, hlead, ht, rfl⟩

/-- A value that the search comes to. -/
theorem foundAt_of_first {v : Json} (h : found key (.obj ms) = some v) :
    FoundAt range key v := by
  rcases findKeyValue_isText hdoc hkey with ⟨hnone, -⟩ | ⟨v', hfirst, hfound⟩
  · exact absurd (h.symm.trans hnone) nofun
  · rwa [Option.some.inj (h.symm.trans hfirst)]

/-- `extract_bool` takes the first member with the name. -/
theorem extractBool_isText :
    extractBool range key = some true ↔
      found key (.obj ms) = some (.bool true) := by
  constructor
  · intro h
    obtain ⟨p, hp, hbool⟩ := Option.bind_eq_some_iff.1 h
    have htrue : "true".toList.isPrefixOf p = true := by
      split_ifs at hbool with h₁ h₂
      · exact h₁
      · exact absurd hbool (by decide)
    obtain ⟨s, rfl⟩ := List.isPrefixOf_iff_prefix.1 htrue
    obtain ⟨v, t, after, hfirst, hlead, -, -⟩ := exists_of_findKeyValue hdoc hkey hp
    rw [hfirst, hlead.eq.2.2.2 rfl]
  · intro h
    obtain ⟨t, after, ht, -, hfind⟩ := foundAt_of_first hdoc hkey h
    cases ht
    rw [extractBool, hfind, Option.bind_some]
    rfl

/-- A number is taken if its value is in range, and nothing else is. -/
theorem converted_isText {α : Type} {conversion : List Char → Conversion α}
    (hconversion : ReadsNumbers conversion) :
    ((findKeyValue range key).bind fun p =>
        converted (conversion (p ++ range.rest)) p).isSome = true ↔
      ∃ w, found key (.obj ms) = some (.num w) ∧ (conversion w).erange = false := by
  rcases findKeyValue_isText hdoc hkey with ⟨hfirst, hnone⟩ | ⟨v, hfirst, hfound⟩
  · simp [hfirst, hnone]
  · obtain ⟨t, after, ht, hafter, hfind⟩ := hfound
    rw [hfirst, hfind, Option.bind_some, List.append_assoc]
    by_cases hv : ∀ w, v ≠ .num w
    · rw [converted, if_pos (by simp [hconversion.other ht hv])]
      exact iff_of_false (by simp) fun ⟨w, hw, _⟩ => hv w (Option.some.inj hw)
    · simp only [not_forall, not_not] at hv
      obtain ⟨w, rfl⟩ := hv
      cases ht with
      | num hw =>
        obtain ⟨c, hpos, hle, hc⟩ := hconversion.number hw
        have hall := hc [] endsNumber_nil
        rw [List.append_nil] at hall
        rw [hc _ (hafter.endsNumber range.rest)]
        simp [converted, hall, hpos.ne', hle.trans (Nat.le_add_right _ _)]

section

variable {o c : Char} (hb : Brackets o c)

include hb

/-- `extract_object` and `extract_array` take the text of a value as a whole. -/
theorem extract_of_first {v : Json} (h : found key (.obj ms) = some v)
    (hlead : v.Lead o) :
    ∃ value, ((findKeyValue range key).bind fun p => scanBalanced p range.rest o c) = some value ∧
      Spells (.value v) value.text := by
  obtain ⟨t, after, ht, -, hfind⟩ := foundAt_of_first hdoc hkey h
  rw [hfind, Option.bind_some, scanBalanced_spells hb ht hlead]
  exact ⟨_, rfl, ht⟩

/-- What `extract_object` and `extract_array` take is the first member with the name. -/
theorem first_of_extract {value : JsonRange}
    (h : ((findKeyValue range key).bind fun p => scanBalanced p range.rest o c) = some value) :
    ∃ v, found key (.obj ms) = some v ∧ v.Lead o ∧
      Spells (.value v) value.text := by
  obtain ⟨p, hp, hscan⟩ := Option.bind_eq_some_iff.1 h
  -- the scan starts at an opening bracket
  have hhead : p.head? = some o := by
    rw [scanBalanced] at hscan
    split_ifs at hscan with hhead
    exact not_ne_iff.1 hhead
  obtain ⟨s, rfl⟩ := List.head?_eq_some_iff.1 hhead
  obtain ⟨v, -, -, hfirst, hlead, -, -⟩ := exists_of_findKeyValue hdoc hkey hp
  obtain ⟨value', hvalue', ht⟩ := extract_of_first hdoc hkey hb hfirst hlead
  obtain rfl := Option.some.inj (h.symm.trans hvalue')
  exact ⟨v, hfirst, hlead, ht⟩

end

end

end CgroupResearch
