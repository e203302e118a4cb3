import CgroupResearch.Calibrate.Document

/-!
# The gate of the calibration result

`calibration_load_result` is to accept a result only if its `status` is `success` and its
`acceptance.passed` is true, and to take its `bank_masks`. It looks the fields up by a search
through the text, which does not keep to the members of the object: on a document with several
members of those names, at any depth, it takes the first of each in the order of the text.

* `Gate`: what the own members of the object have to be;
* `FirstGate`, `RestRead`: what the loader asks for, of the first members of those names;
* `load_ok_iff`: the loader accepts just the documents that have them;
* `load_fails_closed_iff`: the loader keeps to the gate on the documents it refuses, and on those
  where the members it finds agree with the own ones (`Refused`, `Agrees`).
-/

namespace CgroupResearch

open CString CNumber PyJson

open Json (Spells StrBody Ws IsText IsString strValue named readsNumbers_strtoull
  readsNumbers_strtod)

/-! ## Strings -/

/-- What `extract_string` makes of the inside of a string: it leaves out the backslashes. -/
def unescape : List Char → List Char
  | '\\' :: d :: e => d :: unescape e
  | c :: e => c :: unescape e
  | [] => []

theorem unescape_cons {c : Char} (hc : c ≠ '\\') (e : List Char) :
    unescape (c :: e) = c :: unescape e := by
  rw [unescape]
  exact fun d e' h => absurd h hc

/-- Reading a string brings in no character. -/
theorem mem_of_mem_unescape {e : List Char} {c : Char} (h : c ∈ unescape e) : c ∈ e := by
  fun_induction unescape e with
  | case1 d e ih =>
    rcases List.mem_cons.1 h with rfl | h
    · simp
    · simp [ih h]
  | case2 d e _ ih =>
    rcases List.mem_cons.1 h with rfl | h
    · exact List.mem_cons_self
    · exact List.mem_cons_of_mem _ (ih h)
  | case3 => exact h

/-- The loop of `extract_string`, if it comes to the closing quote. -/
theorem extractStringLoop_escaped {dstSize : ℕ} {e : List Char} (he : Escaped e)
    {dst after out : List Char}
    (h : extractStringLoop dstSize dst false (e ++ '"' :: after) = (true, out)) :
    out = dst ++ unescape e := by
  induction he generalizing dst with
  | nil =>
    rw [List.nil_append, extractStringLoop] at h
    rw [unescape, List.append_nil]
    exact (Prod.mk.inj h).2.symm
  | plain hq hb _ _ ih =>
    rw [List.cons_append, extractStringLoop] at h
    simp only [hq, hb, decide_false, Bool.and_false, Bool.false_eq_true, if_false] at h
    split at h
    · exact absurd (Prod.mk.inj h).1 Bool.false_ne_true
    · rw [ih h, unescape_cons hb, List.append_assoc, List.singleton_append]
  | escape _ _ ih =>
    rw [List.cons_append, List.cons_append, extractStringLoop, extractStringLoop] at h
    simp only [decide_true, Bool.and_true, Bool.not_false, if_true, Bool.not_true, Bool.false_and,
      Bool.false_eq_true, if_false] at h
    split at h
    · exact absurd (Prod.mk.inj h).1 Bool.false_ne_true
    · rw [ih h, unescape, List.append_assoc, List.singleton_append]

/-- It comes to the closing quote if there is room. -/
theorem extractStringLoop_ok_iff {dstSize : ℕ} {e : List Char} (he : Escaped e)
    {dst after : List Char} (hroom : dst.length < dstSize) :
    (extractStringLoop dstSize dst false (e ++ '"' :: after)).1 = true ↔
      dst.length + (unescape e).length < dstSize := by
  -- a character that is kept needs room, and leaves room for the terminator
  have hkeep (dst : List Char) (c : Char) (e : List Char) (hfull : dstSize ≤ dst.length + 1) :
      ¬dst.length + (c :: e).length < dstSize := by
    rw [List.length_cons]
    omega
  have hlength (dst : List Char) (c : Char) (e : List Char) :
      (dst ++ [c]).length + e.length = dst.length + (c :: e).length := by
    rw [List.length_append, List.length_singleton, List.length_cons, Nat.add_assoc, Nat.add_comm 1]
  induction he generalizing dst with
  | nil => simpa [extractStringLoop, unescape] using hroom
  | @plain c e hq hb _ _ ih =>
    rw [List.cons_append, extractStringLoop, unescape_cons hb]
    simp only [hq, hb, decide_false, Bool.and_false, Bool.false_eq_true, if_false]
    split
    · next hfull => exact iff_of_false Bool.false_ne_true (hkeep dst c _ hfull)
    · next hfree =>
      have hrest := @ih (dst ++ [c]) (by simpa using hfree)
      rwa [hlength] at hrest
  | @escape d e _ _ ih =>
    rw [List.cons_append, List.cons_append, extractStringLoop, extractStringLoop, unescape]
    simp only [decide_true, Bool.and_true, Bool.not_false, if_true, Bool.not_true,
      Bool.false_and, Bool.false_eq_true, if_false]
    split
    · next hfull => exact iff_of_false Bool.false_ne_true (hkeep dst d _ hfull)
    · next hfree =>
      have hrest := @ih (dst ++ [d]) (by simpa using hfree)
      rwa [hlength] at hrest

/-- `extract_string` takes the strings that fit the buffer. -/
theorem extractString_isText {ms : List (List Char × Json)} {range : JsonRange}
    (hdoc : IsText (.obj ms) range.text) {key : String} (hkey : Findable key) {dstSize : ℕ}
    (hsize : 0 < dstSize) : (extractString range key dstSize).1 = true ↔
      ∃ e, found key (.obj ms) = some (.str e) ∧ (unescape e).length < dstSize := by
  have hloop {e after : List Char} (he : StrBody e) :
      (extractStringLoop dstSize [] false (e ++ '"' :: after)).1 = true ↔
        (unescape e).length < dstSize := by
    rw [extractStringLoop_ok_iff (escaped_of_strBody he) hsize, List.length_nil, Nat.zero_add]
  rw [extractString]
  split
  · next p hfind =>
    obtain ⟨v, t, after, hfirst, hlead, hspells, rfl⟩ := exists_of_findKeyValue hdoc hkey hfind
    obtain ⟨e, rfl⟩ := hlead.eq.1 rfl
    cases hspells with
    | str he =>
      rw [if_neg hsize.ne', List.append_assoc, List.singleton_append, hloop he]
      exact ⟨fun h => ⟨e, hfirst, h⟩, fun ⟨e', he', h⟩ => Json.str.inj
        (Option.some.inj (hfirst.symm.trans he')) ▸ h⟩
  · next hother =>
    refine iff_of_false Bool.false_ne_true fun ⟨e, hfirst, _⟩ => ?_
    obtain ⟨t, after, ht, -, hfind⟩ := foundAt_of_first hdoc hkey hfirst
    cases ht
    exact hother _ hfind

/-- A string that `extract_string` takes for `s` is `s`, if `s` holds none of the characters of
    escapes, and no `u` before four digits. -/
theorem eq_of_unescape {e s : List Char} (he : StrBody e) (hs : unescape e = s)
    (hescape : ∀ d ∈ ['"', '\\', '/', 'b', 'f', 'n', 'r', 't'], d ∉ s)
    (hunicode : ∀ y, ('u' :: y) <:+ s → ¬ ∀ h ∈ y.take 4, isDigitOf 16 h = true) : e = s := by
  induction he generalizing s with
  | nil => exact hs
  | @plain c e hc _ ih =>
    rw [unescape_cons hc.2.2] at hs
    subst hs
    exact congrArg (c :: ·) (ih rfl (fun d hd h => hescape d hd (List.mem_cons_of_mem _ h))
      fun y hy => hunicode y (hy.trans (List.suffix_cons _ _)))
  | @escape d e hd _ _ =>
    -- The loader keeps the character after the backslash as it is, so an escape leaves one of
    -- the eight letters of an escape in `s`.
    rw [unescape] at hs
    exact absurd (hs ▸ List.mem_cons_self) (hescape d hd)
  | @unicode h₁ h₂ h₃ h₄ e hex _ _ =>
    -- Of `\uXXXX` it keeps `uXXXX`, so `s` would hold a `u` with four hex digits after it.
    rw [unescape] at hs
    have hne : ∀ h ∈ [h₁, h₂, h₃, h₄], h ≠ '\\' := fun h hh h' =>
      absurd (h' ▸ hex h hh) (by decide)
    simp only [List.forall_mem_cons] at hne
    rw [unescape_cons hne.1, unescape_cons hne.2.1, unescape_cons hne.2.2.1,
      unescape_cons hne.2.2.2.1] at hs
    subst hs
    exact absurd hex (hunicode _ List.suffix_rfl)

/-- The loader takes for `success` just the string that is spelt so. -/
theorem extractString_success {ms : List (List Char × Json)} {range : JsonRange}
    (hdoc : IsText (.obj ms) range.text) {key : String} (hkey : Findable key) :
    ((extractString range key 32).1 = true ∧
        cstr (extractString range key 32).2 = "success".toList) ↔
      found key (.obj ms) = some (.str "success".toList) := by
  constructor
  · rintro ⟨hok, hsuccess⟩
    rw [extractString] at hok hsuccess
    split at hok
    case h_2 => exact absurd hok Bool.false_ne_true
    case h_1 p hfind =>
      rw [hfind] at hsuccess
      obtain ⟨v, t, after, hfirst, hlead, hspells, rfl⟩ :=
        exists_of_findKeyValue hdoc hkey hfind
      obtain ⟨e, rfl⟩ := hlead.eq.1 rfl
      cases hspells with
      | str he =>
        simp only [if_neg (show ¬ (32 = 0) by decide), List.append_assoc,
          List.singleton_append] at hok hsuccess
        rcases hloop : extractStringLoop 32 [] false (e ++ '"' :: after) with ⟨ok, out⟩
        rw [hloop] at hok hsuccess
        subst hok
        have hnul : '\x00' ∉ unescape e := fun h => he.nul_not_mem (mem_of_mem_unescape h)
        rw [extractStringLoop_escaped (escaped_of_strBody he) hloop, List.nil_append,
          cstr_eq_self hnul] at hsuccess
        -- The string is spelled without an escape: none of the eight letters is in `success`, and
        -- its one `u` has `ccess` after it.
        rw [hfirst, eq_of_unescape he hsuccess (by decide) fun y hy => ?_]
        have htails : ∀ z ∈ "success".toList.tails, z.head? = some 'u' →
            ¬ ∀ h ∈ (z.drop 1).take 4, isDigitOf 16 h = true := by decide
        exact htails _ ((List.mem_tails _ _).2 hy) rfl
  · intro hfirst
    obtain ⟨t, after, ht, -, hfind⟩ := foundAt_of_first hdoc hkey hfirst
    cases ht
    rw [extractString, hfind]
    exact ⟨rfl, rfl⟩

/-! ## Masks -/

/-- The mask that an item of `bank_masks` is read as. -/
def maskOf : Json → Option UInt64
  | .str e => if e.length < 64 then parseMask e else none
  | _ => none

/-- The string of a mask has no escapes. -/
theorem no_backslash_of_parseMask {s : List Char} (hnul : '\x00' ∉ s) {m : UInt64}
    (h : parseMask s = some m) : '\\' ∉ s := by
  obtain ⟨read, rest, hs, hconsumed, hread⟩ := strtoull_reads s
  have hall : (strtoull s 0).consumed = s.length := by
    rw [parseMask, cstr_eq_self hnul] at h
    by_contra hne
    simp [hne] at h
  have hrest : rest = [] := by
    have hlength := congrArg List.length hs
    rw [List.length_append] at hlength
    exact List.length_eq_zero_iff.1 (by omega)
  rw [hs, hrest, List.append_nil]
  exact fun hmem => absurd (hread _ hmem) (by decide)

/-- An item that is read as a mask is a string, and the mask is what it stands for. -/
theorem isString_of_maskOf {v : Json} {t : List Char} (hv : Spells (.value v) t) {m : UInt64}
    (hm : maskOf v = some m) : ∃ s, IsString s v ∧ parseMask s = some m := by
  cases hv with
  | str he =>
    rw [maskOf, Option.ite_none_right_eq_some] at hm
    have hb := no_backslash_of_parseMask he.nul_not_mem hm.2
    exact ⟨_, Json.strValue_of_no_backslash hb, hm.2⟩
  | _ => exact absurd hm nofun

theorem forall₂_isString {vs : List Json} (hvs : ∀ v ∈ vs, ∃ t, Spells (.value v) t)
    {masks : List UInt64} (h : List.Forall₂ (fun v m => maskOf v = some m) vs masks) :
    List.Forall₂ (fun v m => ∃ s, IsString s v ∧ parseMask s = some m) vs masks := by
  induction h with
  | nil => exact .nil
  | cons hm _ ih =>
    rw [List.forall_mem_cons] at hvs
    obtain ⟨⟨t, hv⟩, hvs⟩ := hvs
    exact .cons (isString_of_maskOf hv hm) (ih hvs)

/-- Before a quote inside a string there is a backslash. -/
theorem backslash_mem_of_escaped {e : List Char} (he : Escaped e) {s t : List Char}
    (h : e = s ++ '"' :: t) : '\\' ∈ s := by
  induction he generalizing s with
  | nil => exact absurd h (by simp)
  | plain hq _ _ _ ih =>
    cases s with
    | nil => exact absurd (List.cons.inj h).1 hq
    | cons c s => exact List.mem_cons_of_mem _ (ih (List.cons.inj h).2)
  | escape _ _ _ =>
    cases s with
    | nil => exact absurd (List.cons.inj h).1 (by decide)
    | cons c s => exact (List.cons.inj h).1 ▸ List.mem_cons_self

/-- What the loop of `parse_bank_masks` asks for at a string. -/
theorem parseBankMasksLoop_string_ok {acc out : List UInt64} {p text after : List Char}
    (hp : skipWs p = '"' :: (text ++ '"' :: after)) (htext : ∀ c ∈ text, c ≠ '"') :
    parseBankMasksLoop acc p = (.ok, out) ↔
      text.length < 64 ∧ acc.length < calibrationMaxBankMasks ∧
        ∃ m, parseMask text = some m ∧ parseBankMasksLoop (acc ++ [m]) after = (.ok, out) := by
  rw [parseBankMasksLoop_string hp htext]
  split
  · next hlength => simp [hlength]
  · next hlength =>
    split
    · next hroom => simp [not_lt.2 hroom]
    · next hroom =>
      rw [and_iff_right (not_le.1 hlength), and_iff_right (not_le.1 hroom)]
      cases parseMask text <;> simp

/-- What it asks for at an item. -/
theorem parseBankMasksLoop_item {v : Json} {t : List Char} (h : Spells (.value v) t)
    {acc out : List UInt64} {p after : List Char} (hskip : skipWs p = t ++ after) :
    parseBankMasksLoop acc p = (.ok, out) ↔
      ∃ m, maskOf v = some m ∧ acc.length < calibrationMaxBankMasks ∧
        parseBankMasksLoop (acc ++ [m]) after = (.ok, out) := by
  obtain ⟨c, s, rfl, hlead⟩ := h.lead
  by_cases hc : c = '"'
  · subst hc
    obtain ⟨e, rfl⟩ := hlead.eq.1 rfl
    cases h with
    | str he =>
      rw [List.cons_append, List.append_assoc, List.singleton_append] at hskip
      have hmask : ∀ m, maskOf (.str e) = some m ↔ e.length < 64 ∧ parseMask e = some m := fun m =>
        Option.ite_none_right_eq_some
      by_cases hq : '"' ∈ e
      · -- the reader takes an escaped quote for the end of the string, but then what it has
        -- read holds a backslash, which no mask does
        obtain ⟨text, rest, rfl, htext⟩ := List.eq_append_cons_of_mem hq
        have hb := backslash_mem_of_escaped (escaped_of_strBody he) rfl
        rw [List.append_assoc, List.cons_append] at hskip
        rw [parseBankMasksLoop_string_ok hskip fun c hc hc' => htext (hc' ▸ hc)]
        simp only [hmask]
        constructor
        · rintro ⟨-, -, m, hm, -⟩
          have hnul : '\x00' ∉ text := fun h => he.nul_not_mem (List.mem_append_left _ h)
          exact absurd hb (no_backslash_of_parseMask hnul hm)
        · rintro ⟨m, ⟨-, hm⟩, -, -⟩
          exact absurd (List.mem_append_left _ hb) (no_backslash_of_parseMask he.nul_not_mem hm)
      · rw [parseBankMasksLoop_string_ok hskip fun c hc hc' => hq (hc' ▸ hc)]
        simp only [hmask]
        constructor
        · rintro ⟨hlength, hroom, m, hm, hloop⟩
          exact ⟨m, ⟨hlength, hm⟩, hroom, hloop⟩
        · rintro ⟨m, ⟨hlength, hm⟩, hroom, hloop⟩
          exact ⟨hlength, hroom, m, hm, hloop⟩
  · have hnone : maskOf v = none := by
      cases v with
      | str e => exact absurd hlead hc
      | _ => rfl
    rw [parseBankMasksLoop_other hskip (hlead.ne (by decide)) hc, hnone]
    simp

/-- What it asks for in a list. -/
theorem parseBankMasksLoop_items {vs : List Json} {t : List Char} (h : Spells (.items vs) t)
    {acc out : List UInt64} (hroom : acc.length ≤ calibrationMaxBankMasks) :
    parseBankMasksLoop acc t = (.ok, out) ↔
      ∃ masks, List.Forall₂ (fun v m => maskOf v = some m) vs masks ∧ out = acc ++ masks ∧
        out ≠ [] ∧ out.length ≤ calibrationMaxBankMasks := by
  induction vs generalizing t acc with
  | nil =>
    cases h with
    | noItems hw =>
      have hend : skipWs t = [] := by
        have hskip := skipWs_ws hw []
        rwa [List.append_nil] at hskip
      rw [parseBankMasksLoop_end hend, Prod.mk.injEq]
      constructor
      · rintro ⟨hok, rfl⟩
        have hne : acc ≠ [] := fun hnil => by
          rw [if_pos hnil] at hok
          exact absurd hok (by decide)
        exact ⟨[], .nil, (List.append_nil _).symm, hne, hroom⟩
      · rintro ⟨masks, hmasks, rfl, hne, -⟩
        cases hmasks
        rw [List.append_nil] at hne ⊢
        exact ⟨if_neg hne, rfl⟩
  | cons v vs ih =>
    cases h with
    | @item _ _ w t w' ts hw ht hw' hs =>
      have hskip : skipWs (w ++ (t ++ (w' ++ ts))) = t ++ (w' ++ ts) := by
        rw [skipWs_ws hw, skipWs_value ht]
      rw [parseBankMasksLoop_item ht hskip]
      -- the items after this one, if any
      have htail : ∀ m, acc.length < calibrationMaxBankMasks →
          (parseBankMasksLoop (acc ++ [m]) (w' ++ ts) = (.ok, out) ↔
            ∃ masks, List.Forall₂ (fun v m => maskOf v = some m) vs masks ∧
              out = acc ++ [m] ++ masks ∧ out ≠ [] ∧ out.length ≤ calibrationMaxBankMasks) := by
        intro m hlt
        have hroom' : (acc ++ [m]).length ≤ calibrationMaxBankMasks := by simpa using hlt
        cases hs with
        | lastItem =>
          rw [List.append_nil]
          exact ih (.noItems hw') hroom'
        | nextItem h' =>
          rw [parseBankMasksLoop_comma _ (skipWs_ws hw' _)]
          exact ih h' hroom'
      constructor
      · rintro ⟨m, hm, hlt, hloop⟩
        obtain ⟨masks, hmasks, hout, hne, hle⟩ := (htail m hlt).1 hloop
        exact ⟨m :: masks, .cons hm hmasks, by simpa using hout, hne, hle⟩
      · rintro ⟨masks, hmasks, rfl, hne, hle⟩
        cases hmasks with
        | @cons _ m _ masks hm hmasks =>
          have hlt : acc.length < calibrationMaxBankMasks := by
            rw [List.length_append, List.length_cons] at hle
            omega
          exact ⟨m, hm, hlt, (htail m hlt).2 ⟨masks, hmasks, by simp, hne, hle⟩⟩

/-! ## The gate -/

/-- How the repeated names of an object are read: which of their values counts, if any does. -/
structure Reading where
  pick : List Json → Option Json
  pick_mem : ∀ {vs : List Json} {v : Json}, pick vs = some v → v ∈ vs
  pick_one : ∀ v : Json, pick [v] = some v

/-- The last value counts. -/
def Reading.last : Reading where
  pick := List.getLast?
  pick_mem := List.mem_of_getLast?
  pick_one _ := rfl

/-- The own member of the object for a field. -/
def Reading.own (r : Reading) (key : String) (ms : List (List Char × Json)) : Option Json :=
  r.pick (named key.toList ms)

/-- The gate, on the own members of the object: `masks` are the masks of its `bank_masks`. -/
structure Gate (r : Reading) (ms : List (List Char × Json)) (masks : List UInt64) : Prop where
  status : ∃ v, r.own "status" ms = some v ∧ IsString "success".toList v
  acceptance : ∃ as, r.own "acceptance" ms = some (.obj as) ∧
    r.own "passed" as = some (.bool true)
  bankMasks : ∃ vs, r.own "bank_masks" ms = some (.arr vs) ∧
    List.Forall₂ (fun v m => ∃ s, IsString s v ∧ parseMask s = some m) vs masks

/-- The gate, on the first members of the text that are taken for the fields. -/
structure FirstGate (ms : List (List Char × Json)) (masks : List UInt64) : Prop where
  status : found "status" (.obj ms) = some (.str "success".toList)
  acceptance : ∃ as, found "acceptance" (.obj ms) = some (.obj as) ∧
    found "passed" (.obj as) = some (.bool true)
  bankMasks : ∃ vs, found "bank_masks" (.obj ms) = some (.arr vs) ∧
    List.Forall₂ (fun v m => maskOf v = some m) vs masks
  ne_nil : masks ≠ []
  length_le : masks.length ≤ calibrationMaxBankMasks

/-- The counts and the rates can be read: they are numbers, and in range. -/
structure HoldoutRead (holdout : List (List Char × Json)) : Prop where
  counts : ∀ key ∈ ["tp", "tn", "fp", "fn"], ∃ w, found key (.obj holdout) = some (.num w) ∧
    (strtoull w 10).erange = false
  rates : ∀ key ∈ ["accuracy", "precision", "recall", "f1"], ∃ w,
    found key (.obj holdout) = some (.num w) ∧ (strtod w).erange = false

/-- The fields behind the gate can be read: `mask_set_id` fits its buffer, and `metrics.holdout` is
    an object with numbers. -/
structure RestRead (ms : List (List Char × Json)) : Prop where
  maskSetId : ∃ e, found "mask_set_id" (.obj ms) = some (.str e) ∧
    (unescape e).length < calibrationMaskSetIdMax
  holdout : ∃ metrics holdout, found "metrics" (.obj ms) = some (.obj metrics) ∧
    found "holdout" (.obj metrics) = some (.obj holdout) ∧ HoldoutRead holdout

/-- All fields are read, or none is. -/
theorem extractFields_fst {α β : Type} (extract : String → Option α)
    (fields : List (String × (β → α → β))) (out : β) :
    (extractFields extract fields out).1 = true ↔
      ∀ key ∈ fields.map Prod.fst, (extract key).isSome = true := by
  induction fields generalizing out with
  | nil => simp [extractFields]
  | cons f fields ih =>
    obtain ⟨key, set⟩ := f
    rw [extractFields, List.map_cons, List.forall_mem_cons]
    cases h : extract key with
    | none => simp
    | some value => simp [ih]

/-- The fields that are read with a conversion are numbers, and in range. -/
theorem extractFields_isText {ms : List (List Char × Json)} {range : JsonRange}
    (hdoc : IsText (.obj ms) range.text) {α β : Type} {conversion : List Char → Conversion α}
    (hconversion : Json.ReadsNumbers conversion) {fields : List (String × (β → α → β))}
    (hkeys : ∀ key ∈ fields.map Prod.fst, Findable key) (out : β) :
    (extractFields (fun key => (findKeyValue range key).bind fun p =>
        converted (conversion (p ++ range.rest)) p) fields out).1 = true ↔
      ∀ key ∈ fields.map Prod.fst, ∃ w, found key (.obj ms) = some (.num w) ∧
        (conversion w).erange = false :=
  (extractFields_fst _ fields out).trans
    (forall₂_congr fun key hkey => converted_isText hdoc (hkeys key hkey) hconversion)

/-- The metrics of the holdout are read if and only if all of them are numbers in range. -/
theorem extractHoldout_fst {holdout : List (List Char × Json)} {range : JsonRange}
    (hdoc : IsText (.obj holdout) range.text) (out : CalibrationMetrics) :
    (extractHoldout range out).1 = true ↔ HoldoutRead holdout := by
  have hcountKeys : ∀ key ∈ ["tp", "tn", "fp", "fn"], Findable key := by
    simp only [List.forall_mem_cons]
    exact ⟨findable (by decide), findable (by decide), findable (by decide), findable (by decide),
      nofun⟩
  have hrateKeys : ∀ key ∈ ["accuracy", "precision", "recall", "f1"], Findable key := by
    simp only [List.forall_mem_cons]
    exact ⟨findable (by decide), findable (by decide), findable (by decide), findable (by decide),
      nofun⟩
  rw [extractHoldout]
  split
  · next hno =>
    rw [Bool.not_eq_true'] at hno
    refine iff_of_false (ne_true_of_eq_false hno) fun h => ne_true_of_eq_false hno ?_
    exact (extractFields_isText hdoc readsNumbers_strtoull (by exact hcountKeys) _).2 h.counts
  · next hyes =>
    rw [Bool.not_eq_true', Bool.not_eq_false] at hyes
    have hcounts :=
      (extractFields_isText hdoc readsNumbers_strtoull (by exact hcountKeys) _).1 hyes
    refine (extractFields_isText hdoc readsNumbers_strtod (by exact hrateKeys) _).trans ?_
    exact ⟨fun h => ⟨hcounts, h⟩, fun h => h.rates⟩

/-- Whether the loader goes to its end after the masks. -/
theorem loadMetrics_ok_iff {ms : List (List Char × Json)} {json : List Char}
    (hdoc : IsText (.obj ms) json) (out : CalibrationResult) :
    (loadMetrics ⟨json, []⟩ out).1 = .ok ↔ RestRead ms := by
  have hroot : IsText (.obj ms) (JsonRange.mk json []).text := hdoc
  have hid := extractString_isText hroot (findable (by decide) : Findable "mask_set_id")
    (show 0 < calibrationMaskSetIdMax by decide)
  have hmetrics : Findable "metrics" := findable (by decide)
  have hholdout : Findable "holdout" := findable (by decide)
  have hjson : CalibrationRc.errJson ≠ .ok := by decide
  rw [loadMetrics]
  split
  · next hno =>
    rw [Bool.not_eq_true'] at hno
    exact iff_of_false hjson fun h => ne_true_of_eq_false hno (hid.2 h.maskSetId)
  · next hyes =>
    rw [Bool.not_eq_true', Bool.not_eq_false] at hyes
    split
    · next hnone =>
      refine iff_of_false hjson fun h => ?_
      obtain ⟨metrics, holdout, hfirst, hfirst', -⟩ := h.holdout
      obtain ⟨range, hrange, hv⟩ := extract_of_first hroot hmetrics .dict hfirst rfl
      obtain ⟨range', hrange', -⟩ := extract_of_first hv.isText hholdout .dict hfirst' rfl
      rw [extractObject, hrange, Option.bind_some, extractObject, hrange'] at hnone
      cases hnone
    · next range hsome =>
      obtain ⟨range', hrange, hrange'⟩ := Option.bind_eq_some_iff.1 hsome
      obtain ⟨v, hfirst, hlead, hv⟩ := first_of_extract hroot hmetrics .dict hrange
      obtain ⟨metrics, rfl⟩ := hlead.eq.2.2.1 rfl
      obtain ⟨v, hfirst', hlead, hv⟩ := first_of_extract hv.isText hholdout .dict hrange'
      obtain ⟨holdout, rfl⟩ := hlead.eq.2.2.1 rfl
      have hread := extractHoldout_fst hv.isText out.holdout
      -- the object is the one that is found
      have hrest : RestRead ms ↔ HoldoutRead holdout := by
        refine ⟨fun h => ?_, fun h => ⟨hid.1 hyes, metrics, holdout, hfirst, hfirst', h⟩⟩
        obtain ⟨metrics', holdout', hm, hh, h⟩ := h.holdout
        obtain rfl := Json.obj.inj (Option.some.inj (hfirst.symm.trans hm))
        obtain rfl := Json.obj.inj (Option.some.inj (hfirst'.symm.trans hh))
        exact h
      dsimp only
      split
      · next hno =>
        rw [Bool.not_eq_true'] at hno
        exact iff_of_false hjson fun h => ne_true_of_eq_false hno (hread.2 (hrest.1 h))
      · next hyes =>
        rw [Bool.not_eq_true', Bool.not_eq_false] at hyes
        exact iff_of_true rfl (hrest.2 (hread.1 hyes))

/-- Reading the metrics leaves the masks as they are. -/
theorem loadMetrics_bankMasks (root : JsonRange) (out : CalibrationResult) :
    (loadMetrics root out).2.bankMasks = out.bankMasks := by
  rw [loadMetrics]
  split
  · rfl
  · split
    · rfl
    · dsimp only
      split <;> rfl

/-- The second half of the loader accepts a document if and only if what it reads there can be read.
    -/
theorem exists_loadMetrics_iff {ms : List (List Char × Json)} {json : List Char}
    (hdoc : IsText (.obj ms) json) {out : CalibrationResult} {masks : List UInt64} :
    (∃ out', loadMetrics ⟨json, []⟩ out = (.ok, out') ∧ out'.bankMasks = masks) ↔
      out.bankMasks = masks ∧ RestRead ms := by
  constructor
  · rintro ⟨out', hload, rfl⟩
    have hkeep := loadMetrics_bankMasks ⟨json, []⟩ out
    have hok := (loadMetrics_ok_iff hdoc out).1
    rw [hload] at hkeep hok
    exact ⟨hkeep.symm, hok rfl⟩
  · rintro ⟨rfl, hmetrics⟩
    exact ⟨_, Prod.ext ((loadMetrics_ok_iff hdoc out).2 hmetrics) rfl, loadMetrics_bankMasks _ _⟩

/-- What the loader asks for after `status`. -/
theorem exists_loadMasks_iff {ms : List (List Char × Json)} {json : List Char}
    (hdoc : IsText (.obj ms) json) {out : CalibrationResult} (hout : out.bankMasks = [])
    {masks : List UInt64} :
    (∃ out', loadMasks ⟨json, []⟩ out = (.ok, out') ∧ out'.bankMasks = masks) ↔
      (extractObject ⟨json, []⟩ "acceptance").bind (extractBool · "passed") = some true ∧
        (∃ array, extractArray ⟨json, []⟩ "bank_masks" = some array ∧
          parseBankMasks array [] = (.ok, masks)) ∧
        RestRead ms := by
  rw [loadMasks]
  rcases (extractObject ⟨json, []⟩ "acceptance").bind (extractBool · "passed") with _ | _ | _
  · simp
  · simp
  · cases extractArray ⟨json, []⟩ "bank_masks" with
    | none => simp
    | some array =>
      rcases hparsed : parseBankMasks array [] with ⟨rc, masks'⟩
      by_cases hrc : rc = .ok
      · subst hrc
        simp [hout, hparsed, exists_loadMetrics_iff hdoc]
      · simp [hout, hparsed, hrc]

/-- The field `status` is read as `success`. -/
def StatusRead (json : List Char) : Prop :=
  (extractString ⟨json, []⟩ "status" 32).1 = true ∧
    cstr (extractString ⟨json, []⟩ "status" 32).2 = "success".toList

/-- The loader goes on after `status`, or the file is refused. -/
theorem load_cases (resultPath : List Char) {json : List Char}
    (hsize : json.length ≤ calibrationJsonMaxBytes) :
    (StatusRead json ∧ ∃ out : CalibrationResult, out.bankMasks = [] ∧
        calibrationLoadResult resultPath (some json) = loadMasks ⟨json, []⟩ out) ∨
      (¬ StatusRead json ∧ (calibrationLoadResult resultPath (some json)).1 ≠ .ok) := by
  have hjson : CalibrationRc.errJson ≠ .ok := by decide
  have hrejected : CalibrationRc.errRejected ≠ .ok := by decide
  rw [StatusRead, calibrationLoadResult, readFileLimited_of_le hsize]
  dsimp only
  split
  · next hno => exact .inr ⟨fun h => by simp [h.1] at hno, hjson⟩
  · next hok =>
    rw [Bool.not_eq_true, Bool.not_eq_false'] at hok
    split
    · next hfail =>
      refine .inr ⟨fun h => ?_, ?_⟩
      · rw [h.2, beq_self_eq_true] at hfail
        exact absurd hfail (by decide)
      · rw [apply_ite Prod.fst, ite_self]
        exact hrejected
    · next hsuccess =>
      rw [Bool.not_eq_true, Bool.not_eq_false', beq_iff_eq] at hsuccess
      refine .inl ⟨⟨hok, hsuccess⟩, _, ?_, rfl⟩
      -- a message in the file is kept, and changes nothing else
      dsimp only
      split <;> rfl

/-- What the loader asks for in a file. -/
theorem exists_load_iff {ms : List (List Char × Json)} {json : List Char}
    (hdoc : IsText (.obj ms) json) (resultPath : List Char) {masks : List UInt64} :
    (∃ out, calibrationLoadResult resultPath (some json) = (.ok, out) ∧ out.bankMasks = masks) ↔
      json.length ≤ calibrationJsonMaxBytes ∧ StatusRead json ∧
        (extractObject ⟨json, []⟩ "acceptance").bind (extractBool · "passed") = some true ∧
        (∃ array, extractArray ⟨json, []⟩ "bank_masks" = some array ∧
          parseBankMasks array [] = (.ok, masks)) ∧
        RestRead ms := by
  by_cases hsize : json.length ≤ calibrationJsonMaxBytes
  · rw [and_iff_right hsize]
    rcases load_cases resultPath hsize with ⟨hstatus, out, hout, hload⟩ | ⟨hstatus, hrc⟩
    · rw [hload, exists_loadMasks_iff hdoc hout, and_iff_right hstatus]
    · refine iff_of_false (fun ⟨out, hload, _⟩ => hrc ?_) fun h => hstatus h.1
      rw [hload]
  · have hread : readFileLimited (some json) = .error .errIo := if_pos (not_le.1 hsize)
    refine iff_of_false (fun ⟨out, hload, _⟩ => ?_) fun h => hsize h.1
    rw [calibrationLoadResult, hread] at hload
    exact absurd (Prod.mk.inj hload).1 nofun

section

variable {ms : List (List Char × Json)} {json : List Char} (hdoc : IsText (.obj ms) json)

include hdoc

/-- The gate is passed if and only if the first `passed` in the first `acceptance` is `true`. -/
theorem acceptance_iff :
    (extractObject ⟨json, []⟩ "acceptance").bind (extractBool · "passed") = some true ↔
      ∃ as, found "acceptance" (.obj ms) = some (.obj as) ∧
        found "passed" (.obj as) = some (.bool true) := by
  have hroot : IsText (.obj ms) (JsonRange.mk json []).text := hdoc
  have hkey : Findable "acceptance" := findable (by decide)
  have hkey' : Findable "passed" := findable (by decide)
  constructor
  · intro h
    obtain ⟨object, hobject, hbool⟩ := Option.bind_eq_some_iff.1 h
    obtain ⟨v, hfirst, hlead, hv⟩ :=
      first_of_extract hroot hkey .dict hobject
    obtain ⟨as, rfl⟩ := hlead.eq.2.2.1 rfl
    exact ⟨as, hfirst, (extractBool_isText hv.isText hkey').1 hbool⟩
  · rintro ⟨as, hfirst, hpassed⟩
    obtain ⟨object, hobject, hv⟩ :=
      extract_of_first hroot hkey .dict hfirst rfl
    exact Option.bind_eq_some_iff.2
      ⟨object, hobject, (extractBool_isText hv.isText hkey').2 hpassed⟩

/-- The masks are read if and only if the first `bank_masks` is a list of one to 32 of them. -/
theorem bankMasks_iff {masks : List UInt64} :
    (∃ array, extractArray ⟨json, []⟩ "bank_masks" = some array ∧
        parseBankMasks array [] = (.ok, masks)) ↔
      (∃ vs, found "bank_masks" (.obj ms) = some (.arr vs) ∧
        List.Forall₂ (fun v m => maskOf v = some m) vs masks) ∧
      masks ≠ [] ∧ masks.length ≤ calibrationMaxBankMasks := by
  have hroot : IsText (.obj ms) (JsonRange.mk json []).text := hdoc
  have hkey : Findable "bank_masks" := findable (by decide)
  -- the reader goes over what stands between the brackets
  have hparse : ∀ {vs array}, Spells (.value (.arr vs)) array.text →
      (parseBankMasks array [] = (.ok, masks) ↔
        List.Forall₂ (fun v m => maskOf v = some m) vs masks ∧ masks ≠ [] ∧
          masks.length ≤ calibrationMaxBankMasks) := fun {vs array} hv => by
    obtain ⟨text, rest⟩ := array
    cases hv with
    | arr hitems =>
      rw [parseBankMasks, List.drop_one, List.tail_cons, List.dropLast_concat,
        parseBankMasksLoop_items hitems (Nat.zero_le _)]
      constructor
      · rintro ⟨_, hforall, rfl, hne, hle⟩
        exact ⟨hforall, hne, hle⟩
      · rintro ⟨hforall, hne, hle⟩
        exact ⟨masks, hforall, rfl, hne, hle⟩
  constructor
  · rintro ⟨array, harray, hmasks⟩
    obtain ⟨v, hfirst, hlead, hv⟩ :=
      first_of_extract hroot hkey .list harray
    obtain ⟨vs, rfl⟩ := hlead.eq.2.1 rfl
    obtain ⟨hforall, hne, hle⟩ := (hparse hv).1 hmasks
    exact ⟨⟨vs, hfirst, hforall⟩, hne, hle⟩
  · rintro ⟨⟨vs, hfirst, hforall⟩, hne, hle⟩
    obtain ⟨array, harray, hv⟩ :=
      extract_of_first hroot hkey .list hfirst rfl
    exact ⟨array, harray, (hparse hv).2 ⟨hforall, hne, hle⟩⟩

/-- The loader accepts just the documents whose first fields pass the gate, and takes the masks
    it finds first. -/
theorem load_ok_iff (resultPath : List Char) {masks : List UInt64} :
    (∃ out, calibrationLoadResult resultPath (some json) = (.ok, out) ∧ out.bankMasks = masks) ↔
      json.length ≤ calibrationJsonMaxBytes ∧ FirstGate ms masks ∧ RestRead ms := by
  have hroot : IsText (.obj ms) (JsonRange.mk json []).text := hdoc
  have hstatus : StatusRead json ↔
      found "status" (.obj ms) = some (.str "success".toList) :=
    extractString_success hroot (findable (by decide))
  rw [exists_load_iff hdoc, hstatus, acceptance_iff hdoc, bankMasks_iff hdoc]
  constructor
  · rintro ⟨hsize, hsuccess, hpassed, ⟨hmasks, hne, hle⟩, hmetrics⟩
    exact ⟨hsize, ⟨hsuccess, hpassed, hmasks, hne, hle⟩, hmetrics⟩
  · rintro ⟨hsize, ⟨hsuccess, hpassed, hmasks, hne, hle⟩, hmetrics⟩
    exact ⟨hsize, hsuccess, hpassed, ⟨hmasks, hne, hle⟩, hmetrics⟩

/-- The masks that the loader takes are those of the strings. -/
theorem forall₂_mask {vs : List Json} {masks : List UInt64}
    (hfirst : found "bank_masks" (.obj ms) = some (.arr vs))
    (h : List.Forall₂ (fun v m => maskOf v = some m) vs masks) :
    List.Forall₂ (fun v m => ∃ s, IsString s v ∧ parseMask s = some m) vs masks := by
  have hroot : IsText (.obj ms) (JsonRange.mk json []).text := hdoc
  have hkey : Findable "bank_masks" := findable (by decide)
  obtain ⟨t, -, ht, -⟩ := foundAt_of_first hroot hkey hfirst
  cases ht with
  | arr hitems => exact forall₂_isString hitems.exists_item h

end

/-! ## Documents -/

/-- The loader accepts the document `ms` only if it passes the gate. -/
def FailsClosed (r : Reading) (resultPath json : List Char) (ms : List (List Char × Json)) :
    Prop :=
  ∀ out, calibrationLoadResult resultPath (some json) = (.ok, out) → Gate r ms out.bankMasks

/-- The file is too long, or a field that is found is not what the loader asks for. -/
inductive Refused (json : List Char) (ms : List (List Char × Json)) : Prop
  | size (h : calibrationJsonMaxBytes < json.length)
  | status (h : found "status" (.obj ms) ≠ some (.str "success".toList))
  | acceptance (h : ∀ as, found "acceptance" (.obj ms) = some (.obj as) →
      found "passed" (.obj as) ≠ some (.bool true))
  | bankMasks (h : ∀ vs, found "bank_masks" (.obj ms) = some (.arr vs) →
      vs = [] ∨ calibrationMaxBankMasks < vs.length ∨ ∃ v ∈ vs, maskOf v = none)
  | rest (h : ¬RestRead ms)

/-- The own members of the object have the same values as those that are found. -/
structure Agrees (r : Reading) (ms : List (List Char × Json)) : Prop where
  status : ∃ e e', found "status" (.obj ms) = some (.str e) ∧
    r.own "status" ms = some (.str e') ∧ strValue e' = strValue e
  passed : ∃ as as' b, found "acceptance" (.obj ms) = some (.obj as) ∧
    found "passed" (.obj as) = some (.bool b) ∧
    r.own "acceptance" ms = some (.obj as') ∧ r.own "passed" as' = some (.bool b)
  bankMasks : ∃ vs vs', found "bank_masks" (.obj ms) = some (.arr vs) ∧
    r.own "bank_masks" ms = some (.arr vs') ∧
    List.Forall₂ (fun v' v => ∃ s, IsString s v' ∧ parseMask s = maskOf v) vs' vs

/-- The members that are found, if any, are the own ones. -/
structure OwnFirst (r : Reading) (ms : List (List Char × Json)) : Prop where
  status : ∀ v, found "status" (.obj ms) = some v → r.own "status" ms = some v
  acceptance : ∀ v, found "acceptance" (.obj ms) = some v → r.own "acceptance" ms = some v
  passed : ∀ as v, r.own "acceptance" ms = some (.obj as) → found "passed" (.obj as) = some v →
    r.own "passed" as = some v
  bankMasks : ∀ v, found "bank_masks" (.obj ms) = some v → r.own "bank_masks" ms = some v

/-- A list whose items are all masks has a list of masks. -/
theorem exists_forall₂_maskOf {vs : List Json} (h : ∀ v ∈ vs, maskOf v ≠ none) :
    ∃ masks, List.Forall₂ (fun v m => maskOf v = some m) vs masks := by
  induction vs with
  | nil => exact ⟨[], .nil⟩
  | cons v vs ih =>
    rw [List.forall_mem_cons] at h
    obtain ⟨m, hm⟩ := Option.ne_none_iff_exists'.1 h.1
    obtain ⟨masks, hmasks⟩ := ih h.2
    exact ⟨m :: masks, .cons hm hmasks⟩

theorem forall₂_trans {α β γ : Type} {R : α → β → Prop} {S : β → γ → Prop} {T : α → γ → Prop}
    {as : List α} {bs : List β} {cs : List γ} (h : List.Forall₂ R as bs) (h' : List.Forall₂ S bs cs)
    (hT : ∀ a b c, R a b → S b c → T a c) : List.Forall₂ T as cs := by
  induction h generalizing cs with
  | nil =>
    cases h'
    exact .nil
  | cons hab _ ih =>
    cases h' with
    | cons hbc h' => exact .cons (hT _ _ _ hab hbc) (ih h')

/-- What is not refused has the fields that the loader asks for, and the other way round. -/
theorem not_refused_iff {json : List Char} {ms : List (List Char × Json)} :
    ¬Refused json ms ↔ json.length ≤ calibrationJsonMaxBytes ∧ (∃ masks, FirstGate ms masks) ∧
      RestRead ms := by
  constructor
  · intro h
    have hsize := not_lt.1 fun hsize => h (.size hsize)
    have hrest := not_not.1 fun hrest => h (.rest hrest)
    have hstatus := not_not.1 fun hstatus => h (.status hstatus)
    refine ⟨hsize, ?_, hrest⟩
    by_contra hgate
    by_cases hpassed : ∃ as, found "acceptance" (.obj ms) = some (.obj as) ∧
        found "passed" (.obj as) = some (.bool true)
    · refine h (.bankMasks fun vs hvs => ?_)
      by_contra hmasks
      simp only [not_or, not_lt, not_exists, not_and] at hmasks
      obtain ⟨hne, hle, hall⟩ := hmasks
      obtain ⟨masks, hforall⟩ := exists_forall₂_maskOf hall
      have hlength := hforall.length_eq
      refine hgate ⟨masks, hstatus, hpassed, ⟨vs, hvs, hforall⟩, ?_, hlength ▸ hle⟩
      rintro rfl
      exact hne (List.length_eq_zero_iff.1 hlength)
    · exact h (.acceptance fun as has htrue => hpassed ⟨as, has, htrue⟩)
  · rintro ⟨hsize, ⟨masks, hgate⟩, hrest⟩ hrefused
    cases hrefused with
    | size h => exact absurd hsize (not_le.2 h)
    | status h => exact h hgate.status
    | acceptance h =>
      obtain ⟨as, has, htrue⟩ := hgate.acceptance
      exact h as has htrue
    | bankMasks h =>
      obtain ⟨vs, hvs, hforall⟩ := hgate.bankMasks
      have hlength := hforall.length_eq
      rcases h vs hvs with rfl | hlt | ⟨v, hv, hnone⟩
      · cases hforall
        exact hgate.ne_nil rfl
      · exact absurd (hlength ▸ hgate.length_le) (not_le.2 hlt)
      · have hall := (List.forall₂_and_left (p := fun v => maskOf v ≠ none) _ _).1
          (hforall.imp fun v m hm => ⟨by rw [hm]; exact nofun, hm⟩)
        exact hall.1 v hv hnone
    | rest h => exact h hrest

section

variable {r : Reading} {ms : List (List Char × Json)} {masks : List UInt64}

/-- Where the own members agree, they pass the gate if those that are found do. -/
theorem Agrees.gate (h : Agrees r ms) (hfirst : FirstGate ms masks) : Gate r ms masks where
  status := by
    obtain ⟨e, e', hfound, hown, heq⟩ := h.status
    obtain rfl := Json.str.inj (Option.some.inj (hfound.symm.trans hfirst.status))
    exact ⟨_, hown, heq.trans (Json.strValue_of_no_backslash (by decide))⟩
  acceptance := by
    obtain ⟨as, as', b, hfound, hpassed, hown, hown'⟩ := h.passed
    obtain ⟨as₁, hfound₁, htrue⟩ := hfirst.acceptance
    obtain rfl := Json.obj.inj (Option.some.inj (hfound.symm.trans hfound₁))
    obtain rfl := Json.bool.inj (Option.some.inj (hpassed.symm.trans htrue))
    exact ⟨as', hown, hown'⟩
  bankMasks := by
    obtain ⟨vs, vs', hfound, hown, hsame⟩ := h.bankMasks
    obtain ⟨vs₁, hfound₁, hmasks⟩ := hfirst.bankMasks
    obtain rfl := Json.arr.inj (Option.some.inj (hfound.symm.trans hfound₁))
    exact ⟨vs', hown, forall₂_trans hsame hmasks fun _ _ _ ⟨s, hs, heq⟩ hm =>
      ⟨s, hs, heq.trans hm⟩⟩

/-- Where both pass the gate, they agree. -/
theorem FirstGate.agrees (hfirst : FirstGate ms masks) (h : Gate r ms masks) : Agrees r ms where
  status := by
    obtain ⟨v, hown, hstring⟩ := h.status
    cases v with
    | str e' =>
      exact ⟨_, e', hfirst.status, hown,
        Eq.trans hstring (Json.strValue_of_no_backslash (by decide)).symm⟩
    | _ => exact hstring.elim
  passed := by
    obtain ⟨as, hfound, htrue⟩ := hfirst.acceptance
    obtain ⟨as', hown, hown'⟩ := h.acceptance
    exact ⟨as, as', true, hfound, htrue, hown, hown'⟩
  bankMasks := by
    obtain ⟨vs, hfound, hmasks⟩ := hfirst.bankMasks
    obtain ⟨vs', hown, hmasks'⟩ := h.bankMasks
    exact ⟨vs, vs', hfound, hown, forall₂_trans hmasks' hmasks.flip fun _ _ _ ⟨s, hs, hm'⟩ hm =>
      ⟨s, hs, hm'.trans hm.symm⟩⟩

/-- Where the members that are found are the own ones, they pass the gate as those do. -/
theorem OwnFirst.gate {json : List Char} (h : OwnFirst r ms) (hdoc : IsText (.obj ms) json)
    (hfirst : FirstGate ms masks) : Gate r ms masks := by
  obtain ⟨as, has, hpassed⟩ := hfirst.acceptance
  obtain ⟨vs, hvs, hmasks⟩ := hfirst.bankMasks
  have hacceptance := h.acceptance _ has
  exact {
    status := ⟨_, h.status _ hfirst.status, Json.strValue_of_no_backslash (by decide)⟩
    acceptance := ⟨as, hacceptance, h.passed as _ hacceptance hpassed⟩
    bankMasks := ⟨vs, h.bankMasks _ hvs, forall₂_mask hdoc hvs hmasks⟩ }

/-- The loader fails closed where what is found passes the gate only if the own members do. -/
theorem failsClosed_iff {json : List Char} (hdoc : IsText (.obj ms) json)
    (resultPath : List Char) : FailsClosed r resultPath json ms ↔
      (json.length ≤ calibrationJsonMaxBytes → RestRead ms →
        ∀ masks, FirstGate ms masks → Gate r ms masks) := by
  constructor
  · intro h hsize hrest masks hfirst
    obtain ⟨out, hload, rfl⟩ := (load_ok_iff hdoc resultPath).2 ⟨hsize, hfirst, hrest⟩
    exact h out hload
  · intro h out hload
    obtain ⟨hsize, hfirst, hrest⟩ := (load_ok_iff hdoc resultPath).1 ⟨out, hload, rfl⟩
    exact h hsize hrest _ hfirst

end

/-- However repeated names are read, the loader keeps to the gate on a document just if a field
    that it finds makes it refuse the document, or the own members of the object agree with those
    that it finds. In particular it does if these are the own ones. -/
theorem load_fails_closed_iff {ms : List (List Char × Json)} {json : List Char}
    (hdoc : IsText (.obj ms) json) (resultPath : List Char) (r : Reading) :
    (FailsClosed r resultPath json ms ↔ Refused json ms ∨ Agrees r ms) ∧
    (OwnFirst r ms → FailsClosed r resultPath json ms) := by
  rw [failsClosed_iff hdoc]
  refine ⟨⟨fun h => ?_, ?_⟩, fun h _ _ _ hfirst => h.gate hdoc hfirst⟩
  · by_cases hrefused : Refused json ms
    · exact .inl hrefused
    · obtain ⟨hsize, ⟨masks, hfirst⟩, hrest⟩ := not_refused_iff.1 hrefused
      exact .inr (hfirst.agrees (h hsize hrest masks hfirst))
  · rintro (hrefused | hagrees) hsize hrest masks hfirst
    · exact absurd hrefused (not_refused_iff.2 ⟨hsize, ⟨masks, hfirst⟩, hrest⟩)
    · exact hagrees.gate hfirst

/-- Counts and rates that are all 1. -/
def holdoutOfOnes : List (List Char × Json) :=
  ["tp", "tn", "fp", "fn", "accuracy", "precision", "recall", "f1"].map fun key =>
    (key.toList, .num ['1'])

/-- A result with one mask, after the members `front`. -/
def oneMaskResult (front : List (List Char × Json)) (status : String) :
    List (List Char × Json) :=
  front ++
    [("status".toList, .str status.toList),
      ("acceptance".toList, .obj [("passed".toList, .bool true)]),
      ("bank_masks".toList, .arr [.str "0x1".toList]),
      ("mask_set_id".toList, .str "a".toList),
      ("metrics".toList, .obj [("holdout".toList, .obj holdoutOfOnes)])]

theorem holdoutOfOnes_read : HoldoutRead holdoutOfOnes where
  counts := by
    have hone : (strtoull ['1'] 10).erange = false := by decide
    simp only [List.forall_mem_cons]
    exact ⟨⟨_, rfl, hone⟩, ⟨_, rfl, hone⟩, ⟨_, rfl, hone⟩, ⟨_, rfl, hone⟩, nofun⟩
  rates := by
    have hone : (strtod ['1']).erange = false := by decide +kernel
    simp only [List.forall_mem_cons]
    exact ⟨⟨_, rfl, hone⟩, ⟨_, rfl, hone⟩, ⟨_, rfl, hone⟩, ⟨_, rfl, hone⟩, nofun⟩

/-- A log that tells of an earlier success. -/
def successLog : List (List Char × Json) :=
  [("log".toList, .obj [("status".toList, .str "success".toList)])]

/-- A status that is told twice, before a log of an earlier failure. -/
def repeatedStatus : List (List Char × Json) :=
  [("status".toList, .str "success".toList),
    ("log".toList, .obj [("status".toList, .str "failed".toList)])]

/-- A result that tells its status twice is accepted, and passes the gate. -/
theorem load_fails_closed_iff_repeated :
    let ms := oneMaskResult [] "success" ++ repeatedStatus
    (∃ out, calibrationLoadResult [] (some (Json.compact (.obj ms))) = (.ok, out) ∧
        out.bankMasks = [1]) ∧
      FailsClosed .last [] (Json.compact (.obj ms)) ms := by
  intro ms
  have hdoc : IsText (.obj ms) (Json.compact (.obj ms)) :=
    (Json.spells_compact _ (by decide +kernel)).isText
  have hfirst : FirstGate ms [1] :=
    ⟨rfl, ⟨_, rfl, rfl⟩, ⟨_, rfl, .cons (by decide) .nil⟩, by decide, by decide⟩
  have hrest : RestRead ms := ⟨⟨_, rfl, by decide⟩, _, _, rfl, rfl, holdoutOfOnes_read⟩
  refine ⟨(load_ok_iff hdoc []).2 ⟨by decide +kernel, hfirst, hrest⟩,
    (load_fails_closed_iff hdoc [] .last).1.2 (.inr ?_)⟩
  exact {
    status := ⟨_, _, rfl, rfl, rfl⟩
    passed := ⟨_, _, true, rfl, rfl, rfl, rfl⟩
    bankMasks := ⟨_, _, rfl, rfl,
      .cons ⟨"0x1".toList, Json.strValue_of_no_backslash (by decide), by decide⟩ .nil⟩ }

/-- A failed result is accepted, if a log before the result tells of an earlier success. -/
theorem load_accepts_failed :
    let ms := oneMaskResult successLog "failed"
    IsText (.obj ms) (Json.compact (.obj ms)) ∧
      ∀ r, ¬FailsClosed r [] (Json.compact (.obj ms)) ms := by
  intro ms
  have hdoc : IsText (.obj ms) (Json.compact (.obj ms)) :=
    (Json.spells_compact _ (by decide +kernel)).isText
  have hfirst : FirstGate ms [1] :=
    ⟨rfl, ⟨_, rfl, rfl⟩, ⟨_, rfl, .cons (by decide) .nil⟩, by decide, by decide⟩
  have hrest : RestRead ms := ⟨⟨_, rfl, by decide⟩, _, _, rfl, rfl, holdoutOfOnes_read⟩
  refine ⟨hdoc, fun r h => ?_⟩
  obtain ⟨out, hload, -⟩ := (load_ok_iff hdoc []).2 ⟨by decide +kernel, hfirst, hrest⟩
  obtain ⟨v, hown, hsuccess⟩ := (h out hload).status
  have hfailed : r.own "status" ms = some (.str "failed".toList) := r.pick_one _
  obtain rfl := Option.some.inj (hown.symm.trans hfailed)
  have hvalue : strValue "failed".toList = "success".toList.map Char.toNat := hsuccess
  rw [Json.strValue_of_no_backslash (by decide)] at hvalue
  exact absurd hvalue (by decide)

end CgroupResearch
