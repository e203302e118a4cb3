import CgroupResearch.Lib.CNumber

/-!
# JSON texts

The grammar of JSON, as a relation between a value and the texts that spell it (`Spells`), with
white space wherever it may stand. The insides of strings and the digits of numbers are kept as
they are written, so that a value still tells how its parts are spelt; `strValue` is what the
inside of a string stands for.

* `first`: the first member of a value in the order of its text, however deep, whose key satisfies
  a predicate;
* `named`: the members of an object with a name, which may be repeated;
* `ReadsNumbers`: the conversions of C on the texts of values;
* `spells_compact`: a text without white space, for values with simple strings and numbers.
-/

/-- The values of JSON. Keys and strings are the insides of their literals. -/
inductive Json
  | null
  | bool (b : Bool)
  | num (digits : List Char)
  | str (inside : List Char)
  | arr (items : List Json)
  | obj (members : List (List Char × Json))

namespace Json

open CString CNumber

/-! ## The grammar -/

/-- White space. -/
def Ws (w : List Char) : Prop := ∀ c ∈ w, c = ' ' ∨ c = '\t' ∨ c = '\n' ∨ c = '\r'

/-- The characters that stand for themselves in a string. -/
def Plain (c : Char) : Prop := 0x20 ≤ c.toNat ∧ c ≠ '"' ∧ c ≠ '\\'

instance : DecidablePred Plain := fun _ => inferInstanceAs (Decidable (_ ∧ _))

/-- The insides of string literals. -/
inductive StrBody : List Char → Prop
  | nil : StrBody []
  | plain {c : Char} {e : List Char} (hc : Plain c) (he : StrBody e) : StrBody (c :: e)
  | escape {d : Char} {e : List Char} (hd : d ∈ ['"', '\\', '/', 'b', 'f', 'n', 'r', 't'])
      (he : StrBody e) : StrBody ('\\' :: d :: e)
  | unicode {h₁ h₂ h₃ h₄ : Char} {e : List Char}
      (hex : ∀ h ∈ [h₁, h₂, h₃, h₄], isDigitOf 16 h = true) (he : StrBody e) :
      StrBody ('\\' :: 'u' :: h₁ :: h₂ :: h₃ :: h₄ :: e)

/-- A run of digits. -/
def Digits (ds : List Char) : Prop := ds ≠ [] ∧ ∀ c ∈ ds, c.isDigit

instance : DecidablePred Digits := fun _ => inferInstanceAs (Decidable (_ ∧ _))

/-- Numbers: a sign, an integer without leading zeros, a fraction and an exponent. -/
structure IsNumber (w : List Char) : Prop where
  parts : ∃ sign int frac exp, w = sign ++ (int ++ (frac ++ exp)) ∧
    (sign = [] ∨ sign = ['-']) ∧
    Digits int ∧ (int.head? = some '0' → int = ['0']) ∧
    (frac = [] ∨ ∃ ds, Digits ds ∧ frac = '.' :: ds) ∧
    (exp = [] ∨ ∃ e s ds, (e = 'e' ∨ e = 'E') ∧ (s = [] ∨ s = ['+'] ∨ s = ['-']) ∧ Digits ds ∧
      exp = e :: (s ++ ds))

/-- What the grammar speaks of: values, what stands between the brackets of lists and objects, and
    what stands there after the first item. -/
inductive Part
  | value (v : Json)
  | items (vs : List Json)
  | moreItems (vs : List Json)
  | members (ms : List (List Char × Json))
  | moreMembers (ms : List (List Char × Json))

/-- The texts of a value, and of the other parts of the grammar. -/
inductive Spells : Part → List Char → Prop
  | null : Spells (.value .null) "null".toList
  | bool (b : Bool) : Spells (.value (.bool b)) (if b then "true".toList else "false".toList)
  | num {w : List Char} (hw : IsNumber w) : Spells (.value (.num w)) w
  | str {e : List Char} (he : StrBody e) : Spells (.value (.str e)) ('"' :: (e ++ ['"']))
  | arr {vs : List Json} {t : List Char} (h : Spells (.items vs) t) :
      Spells (.value (.arr vs)) ('[' :: (t ++ [']']))
  | obj {ms : List (List Char × Json)} {t : List Char} (h : Spells (.members ms) t) :
      Spells (.value (.obj ms)) ('{' :: (t ++ ['}']))
  | noItems {w : List Char} (hw : Ws w) : Spells (.items []) w
  | item {v : Json} {vs : List Json} {w t w' ts : List Char} (hw : Ws w)
      (h : Spells (.value v) t) (hw' : Ws w') (hs : Spells (.moreItems vs) ts) :
      Spells (.items (v :: vs)) (w ++ (t ++ (w' ++ ts)))
  | lastItem : Spells (.moreItems []) []
  | nextItem {v : Json} {vs : List Json} {ts : List Char} (h : Spells (.items (v :: vs)) ts) :
      Spells (.moreItems (v :: vs)) (',' :: ts)
  | noMembers {w : List Char} (hw : Ws w) : Spells (.members []) w
  | member {k : List Char} {v : Json} {ms : List (List Char × Json)}
      {w w₁ w₂ t w' ts : List Char} (hw : Ws w) (hk : StrBody k) (hw₁ : Ws w₁) (hw₂ : Ws w₂)
      (h : Spells (.value v) t) (hw' : Ws w') (hs : Spells (.moreMembers ms) ts) :
      Spells (.members ((k, v) :: ms))
        (w ++ ('"' :: (k ++ '"' :: (w₁ ++ ':' :: (w₂ ++ (t ++ (w' ++ ts)))))))
  | lastMember : Spells (.moreMembers []) []
  | nextMember {m : List Char × Json} {ms : List (List Char × Json)} {ts : List Char}
      (h : Spells (.members (m :: ms)) ts) : Spells (.moreMembers (m :: ms)) (',' :: ts)

/-- The texts of a value, with white space around it. -/
def IsText (v : Json) (text : List Char) : Prop :=
  ∃ w t w', Ws w ∧ Spells (.value v) t ∧ Ws w' ∧ text = w ++ (t ++ w')

theorem Spells.isText {v : Json} {t : List Char} (h : Spells (.value v) t) : IsText v t :=
  ⟨[], t, [], List.forall_mem_nil _, h, List.forall_mem_nil _, (List.append_nil t).symm⟩

/-- The items of a list have texts. -/
theorem Spells.exists_item {vs : List Json} {t : List Char} (h : Spells (.items vs) t) :
    ∀ v ∈ vs, ∃ t', Spells (.value v) t' := by
  induction vs generalizing t with
  | nil => exact List.forall_mem_nil _
  | cons v vs ih =>
    cases h with
    | item _ hv _ hs =>
      refine List.forall_mem_cons.2 ⟨⟨_, hv⟩, ?_⟩
      cases hs with
      | lastItem => exact List.forall_mem_nil _
      | nextItem h => exact ih h

/-! ## Characters of texts -/

theorem Ws.ne {w : List Char} (hw : Ws w) {d : Char}
    (hd : ¬ (d = ' ' ∨ d = '\t' ∨ d = '\n' ∨ d = '\r')) : ∀ c ∈ w, c ≠ d :=
  fun c hc hcd => hd (hcd ▸ hw c hc)

theorem Digits.isAlphanum {ds : List Char} (h : Digits ds) : ∀ c ∈ ds, c.isAlphanum := by
  intro c hc
  simp [Char.isAlphanum, h.2 c hc]

/-- The characters of numbers. -/
theorem IsNumber.chars {w : List Char} (h : IsNumber w) :
    ∀ c ∈ w, c.isAlphanum ∨ c = '+' ∨ c = '-' ∨ c = '.' := by
  obtain ⟨sign, int, frac, exp, rfl, hsign, hint, -, hfrac, hexp⟩ := h.parts
  simp only [List.forall_mem_append]
  refine ⟨?_, fun c hc => .inl (hint.isAlphanum c hc), ?_, ?_⟩
  · rcases hsign with rfl | rfl
    · exact List.forall_mem_nil _
    · decide
  · rcases hfrac with rfl | ⟨ds, hds, rfl⟩
    · exact List.forall_mem_nil _
    · exact List.forall_mem_cons.2 ⟨by decide, fun c hc => .inl (hds.isAlphanum c hc)⟩
  · rcases hexp with rfl | ⟨e, s, ds, he, hs, hds, rfl⟩
    · exact List.forall_mem_nil _
    · rw [List.forall_mem_cons, List.forall_mem_append]
      refine ⟨?_, ?_, fun c hc => .inl (hds.isAlphanum c hc)⟩
      · rcases he with rfl | rfl <;> decide
      · rcases hs with rfl | rfl | rfl
        · exact List.forall_mem_nil _
        · decide
        · decide

/-- The characters that the texts of a value start with. -/
def Lead : Json → Char → Prop
  | .null, c => c = 'n'
  | .bool b, c => c = if b then 't' else 'f'
  | .num _, c => c.isDigit ∨ c = '-'
  | .str _, c => c = '"'
  | .arr _, c => c = '['
  | .obj _, c => c = '{'

theorem IsNumber.head {w : List Char} (h : IsNumber w) :
    ∃ c s, w = c :: s ∧ (c.isDigit ∨ c = '-') := by
  obtain ⟨sign, int, frac, exp, rfl, hsign, ⟨hne, hdigits⟩, -, -, -⟩ := h.parts
  rcases hsign with rfl | rfl
  · obtain ⟨c, s, rfl⟩ := List.exists_cons_of_ne_nil hne
    exact ⟨c, _, rfl, .inl (hdigits c List.mem_cons_self)⟩
  · exact ⟨'-', _, rfl, .inr rfl⟩

/-- The first character of a value tells what it is. -/
theorem Spells.lead {v : Json} {t : List Char} (h : Spells (.value v) t) :
    ∃ c s, t = c :: s ∧ v.Lead c := by
  cases h with
  | null => exact ⟨_, _, rfl, rfl⟩
  | bool b => cases b <;> exact ⟨_, _, rfl, rfl⟩
  | num hw => exact hw.head
  | str _ => exact ⟨_, _, rfl, rfl⟩
  | arr _ => exact ⟨_, _, rfl, rfl⟩
  | obj _ => exact ⟨_, _, rfl, rfl⟩

/-- A value starts with none of the characters that stand between values. -/
theorem Lead.ne {v : Json} {c : Char} (h : v.Lead c) {d : Char}
    (hd : ¬ (d.isDigit ∨ d ∈ ['-', 'n', 't', 'f', '"', '[', '{'])) : c ≠ d := by
  rintro rfl
  refine hd ?_
  cases v with
  | null => simp [show c = 'n' from h]
  | bool b =>
    have hc : c = if b then 't' else 'f' := h
    split_ifs at hc <;> simp [hc]
  | num w =>
    rcases h with h | h
    · exact .inl h
    · simp [h]
  | str e => simp [show c = '"' from h]
  | arr vs => simp [show c = '[' from h]
  | obj ms => simp [show c = '{' from h]

/-- What the value of a text is, by its first character. -/
theorem Lead.eq {v : Json} {c : Char} (h : v.Lead c) :
    (c = '"' → ∃ e, v = .str e) ∧ (c = '[' → ∃ vs, v = .arr vs) ∧ (c = '{' → ∃ ms, v = .obj ms) ∧
      (c = 't' → v = .bool true) := by
  cases v with
  | num w =>
    refine ⟨?_, ?_, ?_, ?_⟩
    all_goals
      rintro rfl
      exact absurd h (by simp [Lead])
  | bool b => cases b <;> simp [show c = _ from h]
  | null => simp [show c = 'n' from h]
  | str e => simp [show c = '"' from h]
  | arr vs => simp [show c = '[' from h]
  | obj ms => simp [show c = '{' from h]

/-- A string has no zero in it. -/
theorem StrBody.nul_not_mem {e : List Char} (h : StrBody e) : '\x00' ∉ e := by
  induction h with
  | nil => exact List.not_mem_nil
  | @plain c e hc _ ih =>
    rw [List.mem_cons, not_or]
    exact ⟨fun h0 => absurd (h0 ▸ hc.1) (by decide), ih⟩
  | @escape d e hd _ ih =>
    rw [List.mem_cons, List.mem_cons, not_or, not_or]
    exact ⟨by decide, fun h0 => absurd (h0 ▸ hd) (by decide), ih⟩
  | @unicode h₁ h₂ h₃ h₄ e hex _ ih =>
    have hne : '\x00' ∉ [h₁, h₂, h₃, h₄] := fun h0 => absurd (hex _ h0) (by decide)
    have happend : '\\' :: 'u' :: h₁ :: h₂ :: h₃ :: h₄ :: e =
        ['\\', 'u'] ++ ([h₁, h₂, h₃, h₄] ++ e) := rfl
    rw [happend, List.mem_append, List.mem_append, not_or, not_or]
    exact ⟨by decide, hne, ih⟩

/-- No text holds a NUL. -/
theorem Spells.nul_not_mem {part : Part} {t : List Char} (h : Spells part t) : '\x00' ∉ t := by
  have hws : ∀ {w}, Ws w → '\x00' ∉ w := fun hw h0 => hw.ne (by decide) _ h0 rfl
  induction h with
  | null => decide
  | bool b => cases b <;> decide
  | num hw => exact fun h0 => absurd (hw.chars _ h0) (by decide)
  | str he => simpa using he.nul_not_mem
  | arr _ ih => simpa using ih
  | obj _ ih => simpa using ih
  | noItems hw => exact hws hw
  | item hw _ hw' _ ih ihs => simp [hws hw, hws hw', ih, ihs]
  | lastItem => exact List.not_mem_nil
  | nextItem _ ih => simpa using ih
  | noMembers hw => exact hws hw
  | member hw hk hw₁ hw₂ _ hw' _ ih ihs =>
    simp [hws hw, hk.nul_not_mem, hws hw₁, hws hw₂, hws hw', ih, ihs]
  | lastMember => exact List.not_mem_nil
  | nextMember _ ih => simpa using ih

/-- A document has no zero in it. -/
theorem IsText.nul_not_mem {v : Json} {text : List Char} (h : IsText v text) :
    '\x00' ∉ text := by
  obtain ⟨w, t, w', hw, ht, hw', rfl⟩ := h
  rw [List.mem_append, List.mem_append, not_or, not_or]
  exact ⟨fun h0 => hw.ne (by decide) _ h0 rfl, ht.nul_not_mem,
    fun h0 => hw'.ne (by decide) _ h0 rfl⟩

/-! ## Numbers -/

theorem isDigitOf_of_isDigit {c : Char} (h : c.isDigit) : isDigitOf 10 c = true := by
  have hle : '0' ≤ c ∧ c ≤ '9' := by
    simpa [Char.isDigit, Char.le_def] using h
  have hu : c.toNat ≤ 57 := hle.2
  rw [isDigitOf, digitValue, if_pos hle]
  simp
  omega

theorem Digits.isDigitOf {ds : List Char} (h : Digits ds) : ∀ c ∈ ds, isDigitOf 10 c = true :=
  fun c hc => isDigitOf_of_isDigit (h.2 c hc)

theorem isNumber_mark {mark : List Char} (h : mark = [] ∨ mark = ['-']) :
    mark = [] ∨ mark = ['+'] ∨ mark = ['-'] := h.imp_right .inr

/-- A conversion of C, on the texts of values: it reads numbers only, at least a digit of them,
    and what follows a number makes no difference. -/
structure ReadsNumbers {α : Type} (conversion : List Char → Conversion α) : Prop where
  number {w : List Char} (hw : IsNumber w) : ∃ c : Conversion α, 0 < c.consumed ∧
    c.consumed ≤ w.length ∧ ∀ s, EndsNumber s → conversion (w ++ s) = c
  other {v : Json} {t : List Char} (ht : Spells (.value v) t) (hv : ∀ w, v ≠ .num w)
    (s : List Char) : (conversion (t ++ s)).consumed = 0

/-- What follows the digits before the point is no digit. -/
theorem endsDigits_tail {frac exp s : List Char}
    (hfrac : frac = [] ∨ ∃ ds, Digits ds ∧ frac = '.' :: ds)
    (hexp : exp = [] ∨ ∃ e s ds, (e = 'e' ∨ e = 'E') ∧ (s = [] ∨ s = ['+'] ∨ s = ['-']) ∧
      Digits ds ∧ exp = e :: (s ++ ds)) (hs : EndsNumber s) :
    EndsDigits 10 (frac ++ (exp ++ s)) ∧ EndsDigits 10 (exp ++ s) := by
  have hcons (d : Char) (hd : isDigitOf 10 d = false) (t : List Char) : EndsDigits 10 (d :: t) :=
    fun _ hc => Option.some.inj hc ▸ hd
  have hexp' : EndsDigits 10 (exp ++ s) := by
    rcases hexp with rfl | ⟨e, mark, ds, he, -, -, rfl⟩
    · exact hs.digits
    · exact hcons e (by rcases he with rfl | rfl <;> rfl) _
  refine ⟨?_, hexp'⟩
  rcases hfrac with rfl | ⟨ds, -, rfl⟩
  · exact hexp'
  · exact hcons '.' rfl _

/-- `strtoull` reads the integer part. -/
theorem readsNumbers_strtoull : ReadsNumbers (strtoull · 10) where
  number {w} hw := by
    obtain ⟨mark, int, frac, exp, rfl, hmark, hint, -, hfrac, hexp⟩ := hw.parts
    obtain ⟨neg, hsign⟩ := exists_sign (isNumber_mark hmark)
    have hpos := List.length_pos_of_ne_nil hint.1
    have hbase (t : List Char) : basePrefix 10 t = (10, t) := by simp [basePrefix]
    refine ⟨if 2 ^ 64 ≤ ofDigits 10 int 0 then
        ⟨UInt64.ofNat (2 ^ 64 - 1), mark.length + int.length, true⟩
      else ⟨if neg then -UInt64.ofNat (ofDigits 10 int 0) else UInt64.ofNat (ofDigits 10 int 0),
        mark.length + int.length, false⟩, ?_, ?_, fun s hs => ?_⟩
    · split_ifs <;> dsimp only <;> omega
    · simp only [List.length_append]
      split_ifs <;> dsimp only <;> omega
    · have hread : sign ((mark ++ (int ++ (frac ++ (exp ++ s)))).dropWhile isspace) =
          (neg, int ++ (frac ++ (exp ++ s))) := by
        obtain ⟨c, ds, hcons⟩ := List.exists_cons_of_ne_nil hint.1
        obtain ⟨hneg, hspace⟩ := hsign c (ds ++ (frac ++ (exp ++ s)))
          (hint.isDigitOf c (hcons ▸ List.mem_cons_self))
        rw [hcons, List.cons_append, hspace, hneg]
      have htail := (endsDigits_tail hfrac hexp hs).1
      have hlength : (mark ++ (int ++ (frac ++ (exp ++ s)))).length -
          ((int ++ (frac ++ (exp ++ s))).length - int.length) = mark.length + int.length := by
        simp only [List.length_append]
        omega
      simp only [List.append_assoc]
      rw [strtoull, hread]
      simp only [hbase, takeWhile_digits hint.isDigitOf htail, if_neg hint.1, hlength]
  other {v t} ht hv s := by
    cases ht with
    | num => exact absurd rfl (hv _)
    | bool b => cases b <;> rfl
    | _ => rfl

/-- `strtod` reads the whole number. -/
theorem readsNumbers_strtod : ReadsNumbers strtod where
  number {w} hw := by
    obtain ⟨mark, int, frac, exp, rfl, hmark, hint, -, hfrac, hexp⟩ := hw.parts
    obtain ⟨neg, hsign⟩ := exists_sign (isNumber_mark hmark)
    obtain ⟨c, ds, rfl⟩ := List.exists_cons_of_ne_nil hint.1
    have hdigits := hint.isDigitOf
    have hexponent : ∃ n, ∀ s, EndsNumber s → exponent 'e' (exp ++ s) = (n, s) := by
      rcases hexp with rfl | ⟨e, mark, ds, he, hmark, hds, rfl⟩
      · exact ⟨0, fun s hs => exponent_none hs.no_exponent⟩
      · obtain ⟨n, hn⟩ := exists_exponent he hmark hds.1 hds.isDigitOf
        refine ⟨n, fun s hs => ?_⟩
        rw [List.cons_append, List.append_assoc]
        exact hn s hs.digits
    obtain ⟨n, hn⟩ := hexponent
    have hmantissa : ∃ fs, ∀ s, EndsNumber s →
        mantissa 10 (c :: ds ++ (frac ++ (exp ++ s))) = (c :: ds, fs, exp ++ s) := by
      rcases hfrac with rfl | ⟨fs, hfs, rfl⟩
      · refine ⟨[], fun s hs => mantissa_no_point hdigits (endsDigits_tail (.inl rfl) hexp hs).2 ?_⟩
        rcases hexp with rfl | ⟨e, mark, es, he, -, -, rfl⟩
        · exact hs.no_point
        · rcases he with rfl | rfl <;> exact nofun
      · exact ⟨fs, fun s hs => mantissa_point hdigits hfs.isDigitOf
          (endsDigits_tail (.inl rfl) hexp hs).2 rfl⟩
    obtain ⟨fs, hfs⟩ := hmantissa
    have hsecond (s : List Char) (hs : EndsNumber s) :
        ∀ d ∈ (ds ++ (frac ++ (exp ++ s))).head?, d ≠ 'x' ∧ d ≠ 'X' := by
      refine second_ne_mark (fun d hd => isDigitOf_mono (by decide) (hdigits d hd)) ?_
      rcases hfrac with rfl | ⟨fs, -, rfl⟩
      · rcases hexp with rfl | ⟨e, mark, es, he, -, -, rfl⟩
        · exact hs.no_mark
        · rintro d ⟨⟩
          rcases he with rfl | rfl <;> decide
      · rintro d ⟨⟩
        decide
    set q : ℚ := (ofDigits 10 (c :: ds ++ fs) 0 : ℚ) * 10 ^ (n - fs.length) with hq
    refine ⟨⟨toDouble neg q, (mark ++ (c :: ds ++ (frac ++ exp))).length, outOfRange q⟩,
      by simp, le_rfl, fun s hs => ?_⟩
    have hc := hdigits c List.mem_cons_self
    obtain ⟨hneg, hspace⟩ := hsign c (ds ++ (frac ++ (exp ++ s))) hc
    simp only [List.append_assoc, List.cons_append]
    rw [strtod_signed (by rw [hspace, hneg]) hc (hsecond s hs) (hfs s hs) (hn s hs) hq.symm]
    simp only [List.length_append, List.length_cons]
    congr 1
    omega
  other {v t} ht hv s := by
    cases ht with
    | num => exact absurd rfl (hv _)
    | bool b => cases b <;> rfl
    | _ => rfl

/-! ## Values -/

/-- What a character behind a backslash stands for. -/
def escapeValue (d : Char) : ℕ :=
  if d = 'b' then 8 else if d = 'f' then 12 else if d = 'n' then 10 else if d = 'r' then 13
  else if d = 't' then 9 else d.toNat

/-- What the inside of a string literal stands for, in code units. -/
def strValue : List Char → List ℕ
  | '\\' :: 'u' :: h₁ :: h₂ :: h₃ :: h₄ :: e => ofDigits 16 [h₁, h₂, h₃, h₄] 0 :: strValue e
  | '\\' :: d :: e => escapeValue d :: strValue e
  | c :: e => c.toNat :: strValue e
  | [] => []

/-- The value is the string `s`. -/
def IsString (s : List Char) : Json → Prop
  | .str e => strValue e = s.map Char.toNat
  | _ => False

/-- The values of the members with the name `K`, in the order of the text. -/
def named (K : List Char) (ms : List (List Char × Json)) : List Json :=
  (ms.filter fun m => strValue m.1 = K.map Char.toNat).map Prod.snd

mutual

/-- The value of the first member, in the order of the text, whose key satisfies `p`. -/
def first (p : List Char → Bool) : Json → Option Json
  | .null => none
  | .bool _ => none
  | .num _ => none
  | .str _ => none
  | .arr vs => firstItems p vs
  | .obj ms => firstMembers p ms

/-- The first member among those of items. -/
def firstItems (p : List Char → Bool) : List Json → Option Json
  | [] => none
  | v :: vs => (first p v).or (firstItems p vs)

/-- The first member among members and those of their values. -/
def firstMembers (p : List Char → Bool) : List (List Char × Json) → Option Json
  | [] => none
  | (k, v) :: ms => if p k then some v else (first p v).or (firstMembers p ms)

end

/-- The first member of a part of the grammar. -/
def Part.first (p : List Char → Bool) : Part → Option Json
  | .value v => Json.first p v
  | .items vs => firstItems p vs
  | .moreItems vs => firstItems p vs
  | .members ms => firstMembers p ms
  | .moreMembers ms => firstMembers p ms

/-- A string without backslashes stands for itself. -/
theorem strValue_of_no_backslash {e : List Char} (h : '\\' ∉ e) :
    strValue e = e.map Char.toNat := by
  induction e with
  | nil => rw [strValue, List.map_nil]
  | cons c e ih =>
    rw [List.mem_cons, not_or] at h
    rw [strValue, ih h.2, List.map_cons]
    all_goals
      intros
      exact absurd ‹_ = _›.symm h.1

/-! ## Texts without white space -/

mutual

/-- The text of a value without white space. -/
def compact : Json → List Char
  | .null => "null".toList
  | .bool b => if b then "true".toList else "false".toList
  | .num w => w
  | .str e => '"' :: (e ++ ['"'])
  | .arr vs => '[' :: (compactItems vs ++ [']'])
  | .obj ms => '{' :: (compactMembers ms ++ ['}'])

/-- The text of the items of a list. -/
def compactItems : List Json → List Char
  | [] => []
  | v :: vs => compact v ++ if vs.isEmpty then [] else ',' :: compactItems vs

/-- The text of the members of an object. -/
def compactMembers : List (List Char × Json) → List Char
  | [] => []
  | (k, v) :: ms =>
    '"' :: (k ++ '"' :: ':' :: (compact v ++ if ms.isEmpty then [] else ',' :: compactMembers ms))

end

mutual

/-- The value has strings without escapes only, and natural numbers. -/
def isSimple : Json → Bool
  | .null => true
  | .bool _ => true
  | .num w => decide (Digits w) && (w.head? != some '0' || w == ['0'])
  | .str e => e.all (decide <| Plain ·)
  | .arr vs => isSimpleItems vs
  | .obj ms => isSimpleMembers ms

/-- The same of items. -/
def isSimpleItems : List Json → Bool
  | [] => true
  | v :: vs => isSimple v && isSimpleItems vs

/-- The same of members. -/
def isSimpleMembers : List (List Char × Json) → Bool
  | [] => true
  | (k, v) :: ms => k.all (decide <| Plain ·) && isSimple v && isSimpleMembers ms

end

/-- Plain characters stand for themselves. -/
theorem strBody_of_plain {e : List Char} (h : e.all (decide <| Plain ·) = true) : StrBody e := by
  rw [List.all_eq_true] at h
  induction e with
  | nil => exact .nil
  | cons c e ih =>
    rw [List.forall_mem_cons] at h
    exact .plain (of_decide_eq_true h.1) (ih h.2)

/-- Digits are a number unless they start with a zero. -/
theorem isNumber_of_digits {w : List Char} (h : Digits w)
    (h0 : w.head? = some '0' → w = ['0']) : IsNumber w :=
  ⟨[], w, [], [], by simp, .inl rfl, h, h0, .inl rfl, .inl rfl⟩

theorem ws_nil : Ws [] := List.forall_mem_nil _

mutual

/-- A value is spelled by its compact text. -/
theorem spells_compact : ∀ v : Json, v.isSimple = true → Spells (.value v) v.compact
  | .null, _ => .null
  | .bool b, _ => .bool b
  | .num w, h => by
    rw [isSimple, Bool.and_eq_true] at h
    refine .num (isNumber_of_digits (of_decide_eq_true h.1) fun h0 => ?_)
    simpa [h0] using h.2
  | .str e, h => .str (strBody_of_plain h)
  | .arr vs, h => .arr (spells_compactItems vs h)
  | .obj ms, h => .obj (spells_compactMembers ms h)

theorem spells_compactItems :
    ∀ vs : List Json, isSimpleItems vs = true → Spells (.items vs) (compactItems vs)
  | [], _ => .noItems ws_nil
  | [v], h => by
    rw [isSimpleItems, Bool.and_eq_true] at h
    exact .item ws_nil (spells_compact v h.1) ws_nil .lastItem
  | v :: v' :: vs, h => by
    rw [isSimpleItems, Bool.and_eq_true] at h
    exact .item ws_nil (spells_compact v h.1) ws_nil
      (.nextItem (spells_compactItems (v' :: vs) h.2))

theorem spells_compactMembers : ∀ ms : List (List Char × Json),
    isSimpleMembers ms = true → Spells (.members ms) (compactMembers ms)
  | [], _ => .noMembers ws_nil
  | [(k, v)], h => by
    rw [isSimpleMembers, Bool.and_eq_true, Bool.and_eq_true] at h
    exact .member ws_nil (strBody_of_plain h.1.1) ws_nil ws_nil (spells_compact v h.1.2) ws_nil
      .lastMember
  | (k, v) :: m :: ms, h => by
    rw [isSimpleMembers, Bool.and_eq_true, Bool.and_eq_true] at h
    exact .member ws_nil (strBody_of_plain h.1.1) ws_nil ws_nil (spells_compact v h.1.2) ws_nil
      (.nextMember (spells_compactMembers (m :: ms) h.2))

end

end Json
