import CgroupResearch.Lib.CString
import CgroupResearch.Lib.Double
import Mathlib.Data.Int.Log

/-!
# Numbers in C strings

`strtoull`, `strtoll` and `strtod`, as the C standard has them (in the C locale). They return a
value, how far they read (`endptr`) and whether `errno` became `ERANGE`.

`strtod` rounds to the nearest `double`, to even on ties; a result too large, or one too small
that had to be rounded, is out of range.
-/

namespace CNumber

open CString

/-- What the conversion functions return: `consumed` is `endptr - nptr`. -/
structure Conversion (α : Type) where
  value : α
  consumed : ℕ
  erange : Bool
  deriving DecidableEq, Repr

/-- The value of a digit or a letter, as a digit. -/
def digitValue (c : Char) : ℕ :=
  if '0' ≤ c ∧ c ≤ '9' then c.toNat - '0'.toNat
  else if 'a' ≤ c ∧ c ≤ 'z' then c.toNat - 'a'.toNat + 10
  else if 'A' ≤ c ∧ c ≤ 'Z' then c.toNat - 'A'.toNat + 10
  else 36

/-- The characters that are digits in a base. -/
def isDigitOf (base : ℕ) (c : Char) : Bool := digitValue c < base

/-- The number that digits write, after `acc`. -/
def ofDigits (base : ℕ) (ds : List Char) (acc : ℕ) : ℕ :=
  ds.foldl (fun n c => base * n + digitValue c) acc

/-- An optional sign: whether it is a minus, and what follows it. -/
def sign : List Char → Bool × List Char
  | '-' :: s => (true, s)
  | '+' :: s => (false, s)
  | s => (false, s)

/-- Whether a string starts with `0x` and a hexadecimal number. -/
def hexPrefix (isNumber : List Char → Bool) : List Char → Bool
  | '0' :: x :: s => (x = 'x' || x = 'X') && isNumber s
  | _ => false

/-- The base of the integer that a string starts with, and what follows the mark of the base:
    `base` is the argument of `strtoull`. -/
def basePrefix (base : ℕ) (s : List Char) : ℕ × List Char :=
  if (base = 0 ∨ base = 16) ∧ hexPrefix (fun t => t.head?.any (isDigitOf 16)) s then
    (16, s.drop 2)
  else if base = 0 then
    (if s.head? = some '0' then 8 else 10, s)
  else
    (base, s)

/-- `strtoull`. A minus sign negates in the unsigned type. -/
def strtoull (s : List Char) (base : ℕ) : Conversion UInt64 :=
  let (neg, s₁) := sign (s.dropWhile isspace)
  let (b, s₂) := basePrefix base s₁
  let ds := s₂.takeWhile (isDigitOf b)
  let n := ofDigits b ds 0
  if ds = [] then ⟨0, 0, false⟩
  else
    let consumed := s.length - (s₂.length - ds.length)
    if 2 ^ 64 ≤ n then ⟨UInt64.ofNat (2 ^ 64 - 1), consumed, true⟩
    else ⟨if neg then -UInt64.ofNat n else UInt64.ofNat n, consumed, false⟩

/-- A number as a `long long`, the nearest one if it is out of range. -/
def toLongLong (n : ℤ) (consumed : ℕ) : Conversion ℤ :=
  if 2 ^ 63 ≤ n then ⟨2 ^ 63 - 1, consumed, true⟩
  else if n < -2 ^ 63 then ⟨-2 ^ 63, consumed, true⟩
  else ⟨n, consumed, false⟩

/-- `strtoll`. -/
def strtoll (s : List Char) (base : ℕ) : Conversion ℤ :=
  let (neg, s₁) := sign (s.dropWhile isspace)
  let (b, s₂) := basePrefix base s₁
  let ds := s₂.takeWhile (isDigitOf b)
  let n : ℤ := ofDigits b ds 0
  if ds = [] then ⟨0, 0, false⟩
  else toLongLong (if neg then -n else n) (s.length - (s₂.length - ds.length))

/-- A `long long` is less than `2 ^ 63`. -/
theorem toLongLong_lt (n : ℤ) (consumed : ℕ) : (toLongLong n consumed).value < 2 ^ 63 := by
  rw [toLongLong]
  split
  · exact Int.sub_one_lt_of_le le_rfl
  · rename_i hle
    split
    · exact (by decide : (-2 ^ 63 : ℤ) < 2 ^ 63)
    · exact Int.not_le.1 hle

/-- `strtoll` returns a `long long`. -/
theorem strtoll_lt (s : List Char) (base : ℕ) : (strtoll s base).value < 2 ^ 63 := by
  rw [strtoll]
  dsimp only
  generalize (basePrefix base (sign (s.dropWhile isspace)).2) = p
  by_cases h : p.2.takeWhile (isDigitOf p.1) = []
  · rw [if_pos h]
    exact (by decide : (0 : ℤ) < 2 ^ 63)
  · rw [if_neg h]
    exact toLongLong_lt _ _

/-- The conversions `%llu` and `%llx` of `scanf`, for the bases 10 and 16: the number, and what
    is left. The mark of the base 16 has to be followed by a digit. -/
def scanUll (base : ℕ) (s : List Char) : Option (UInt64 × List Char) :=
  let digits := (sign (s.dropWhile isspace)).2
  let mark := base = 16 ∧ digits.head? = some '0' ∧
    ((digits.drop 1).head? = some 'x' ∨ (digits.drop 1).head? = some 'X')
  let r := strtoull s base
  if r.consumed = 0 ∨ (mark ∧ (basePrefix base digits).2 = digits) then
    none
  else
    some (r.value, s.drop r.consumed)

/-! ## Floating point -/

/-- The exponent of the last place of the `double`s around a positive number. -/
def lastPlace (q : ℚ) : ℤ := max (Int.log 2 q - 52) (-1074)

/-- The nearest `double` to a nonnegative number, with no bound on its exponent. -/
def roundMagnitude (q : ℚ) : ℚ := Double.roundHalfEven (q / 2 ^ lastPlace q) * 2 ^ lastPlace q

/-- Whether a nonnegative number is out of the range of `double`: too large, or too small and
    not exact. -/
def outOfRange (q : ℚ) : Bool :=
  (2 : ℚ) ^ 1024 ≤ roundMagnitude q || (q < (2 : ℚ) ^ (-1022 : ℤ) && roundMagnitude q ≠ q)

/-- The `double` of a sign and a nonnegative number. -/
def toDouble (neg : Bool) (q : ℚ) : Double :=
  if (2 : ℚ) ^ 1024 ≤ roundMagnitude q then .inf neg else .fin neg (roundMagnitude q)

/-- The digits before and after an optional point, and what follows. -/
def mantissa (base : ℕ) (s : List Char) : List Char × List Char × List Char :=
  let ds := s.takeWhile (isDigitOf base)
  match s.dropWhile (isDigitOf base) with
  | '.' :: t => (ds, t.takeWhile (isDigitOf base), t.dropWhile (isDigitOf base))
  | t => (ds, [], t)

/-- Whether a string starts with a digit, or with a point and a digit. -/
def startsNumber (base : ℕ) : List Char → Bool
  | '.' :: c :: _ => isDigitOf base c
  | c :: _ => isDigitOf base c
  | [] => false

/-- An optional exponent, `mark` in lower case: its value, and what follows. A mark that no digits
    follow is not read. -/
def exponent (mark : Char) (s : List Char) : ℤ × List Char :=
  match s with
  | [] => (0, s)
  | c :: t =>
    if c.toLower ≠ mark then (0, s)
    else
      let (neg, t₁) := sign t
      let ds := t₁.takeWhile (isDigitOf 10)
      if ds = [] then (0, s)
      else
        let n : ℤ := ofDigits 10 ds 0
        (if neg then -n else n, t₁.dropWhile (isDigitOf 10))

/-- Whether a string starts with a word, in whatever case. -/
def startsWord (word : String) (s : List Char) : Bool :=
  word.toList.isPrefixOf (s.map Char.toLower)

/-- The length of `(n-char-sequence)` after `nan`, if it is there. -/
def nanSuffix : List Char → ℕ
  | '(' :: s =>
    let w := s.takeWhile fun c => c.isAlphanum || c = '_'
    if s.drop w.length |>.head? |> (· = some ')') then w.length + 2 else 0
  | _ => 0

/-- `strtod`. -/
def strtod (s : List Char) : Conversion Double :=
  let (neg, s₁) := sign (s.dropWhile isspace)
  let consumed := fun t : List Char => s.length - t.length
  if startsWord "infinity" s₁ then ⟨.inf neg, consumed (s₁.drop 8), false⟩
  else if startsWord "inf" s₁ then ⟨.inf neg, consumed (s₁.drop 3), false⟩
  else if startsWord "nan" s₁ then
    ⟨.nan, consumed (s₁.drop (3 + nanSuffix (s₁.drop 3))), false⟩
  else if hexPrefix (startsNumber 16) s₁ then
    let (ds, fs, t) := mantissa 16 (s₁.drop 2)
    let (e, u) := exponent 'p' t
    let q : ℚ := ofDigits 16 (ds ++ fs) 0 * 2 ^ (e - 4 * fs.length)
    ⟨toDouble neg q, consumed u, outOfRange q⟩
  else if startsNumber 10 s₁ then
    let (ds, fs, t) := mantissa 10 s₁
    let (e, u) := exponent 'e' t
    let q : ℚ := ofDigits 10 (ds ++ fs) 0 * 10 ^ (e - fs.length)
    ⟨toDouble neg q, consumed u, outOfRange q⟩
  else ⟨.fin false 0, 0, false⟩

/-! ## Digits -/

/-- The value of a digit that is printed. -/
theorem digitValue_digitChar {k : ℕ} (hk : k < 16) : digitValue (Nat.digitChar k) = k := by
  have h : ∀ k < 16, digitValue (Nat.digitChar k) = k := by decide
  exact h k hk

theorem isDigitOf_mono {b b' : ℕ} (hb : b ≤ b') {c : Char} (h : isDigitOf b c = true) :
    isDigitOf b' c = true :=
  decide_eq_true ((of_decide_eq_true h).trans_le hb)

theorem isDigitOf_digitChar {b k : ℕ} (hb : b ≤ 16) (hk : k < b) :
    isDigitOf b (Nat.digitChar k) = true := by
  rw [isDigitOf, digitValue_digitChar (hk.trans_le hb)]
  exact decide_eq_true hk

theorem ofDigits_append (b : ℕ) (ds es : List Char) (acc : ℕ) :
    ofDigits b (ds ++ es) acc = ofDigits b es (ofDigits b ds acc) := List.foldl_append

/-- Zeros shift the value. -/
theorem ofDigits_replicate_zero (b k acc : ℕ) :
    ofDigits b (List.replicate k '0') acc = acc * b ^ k := by
  induction k generalizing acc with
  | zero => simp [ofDigits]
  | succ k ih =>
    have hstep : ofDigits b (List.replicate (k + 1) '0') acc =
        ofDigits b (List.replicate k '0') (b * acc) := rfl
    rw [hstep, ih, pow_succ]
    ring

/-- The digits that `Nat.toDigits` writes read back as the number. -/
theorem ofDigits_toDigits {b : ℕ} (hb : 1 < b) (hb' : b ≤ 16) (n : ℕ) :
    ofDigits b (Nat.toDigits b n) 0 = n := by
  induction n using Nat.strongRecOn with
  | ind n ih =>
    rcases lt_or_ge n b with hn | hn
    · rw [Nat.toDigits_of_lt_base hn, ofDigits, List.foldl_cons, List.foldl_nil,
        digitValue_digitChar (hn.trans_le hb'), mul_zero, zero_add]
    · have hmod : n % b < 16 := (Nat.mod_lt n (by omega)).trans_le hb'
      rw [Nat.toDigits_of_base_le hb hn, ofDigits_append, ih _ (Nat.div_lt_self (by omega) hb),
        ofDigits, List.foldl_cons, List.foldl_nil, digitValue_digitChar hmod,
        Nat.div_add_mod]

/-- A number is printed in digits of its base. -/
theorem isDigitOf_of_mem_toDigits {b : ℕ} (hb : 1 < b) (hb' : b ≤ 16) {n : ℕ} :
    ∀ c ∈ Nat.toDigits b n, isDigitOf b c = true := by
  induction n using Nat.strongRecOn with
  | ind n ih =>
    rcases lt_or_ge n b with hn | hn
    · rw [Nat.toDigits_of_lt_base hn, List.forall_mem_singleton]
      exact isDigitOf_digitChar hb' hn
    · rw [Nat.toDigits_of_base_le hb hn, List.forall_mem_append, List.forall_mem_singleton]
      exact ⟨ih _ (Nat.div_lt_self (by omega) hb),
        isDigitOf_digitChar hb' (Nat.mod_lt n (by omega))⟩

/-- Where a number ends: no digit comes next. -/
def EndsDigits (b : ℕ) (s : List Char) : Prop := ∀ c ∈ s.head?, isDigitOf b c = false

/-- What can follow a number that is read as a whole. -/
structure EndsNumber (s : List Char) : Prop where
  digits : EndsDigits 10 s
  no_point : s.head? ≠ some '.'
  no_exponent : ∀ c ∈ s.head?, c.toLower ≠ 'e'
  no_mark : ∀ c ∈ s.head?, c ≠ 'x' ∧ c ≠ 'X'

theorem endsNumber_nil : EndsNumber [] := ⟨nofun, nofun, nofun, nofun⟩

theorem endsNumber_cons {d : Char} (hd : isDigitOf 10 d = false) (hp : d ≠ '.')
    (he : d.toLower ≠ 'e') (hx : d ≠ 'x' ∧ d ≠ 'X') (t : List Char) : EndsNumber (d :: t) :=
  ⟨fun _ hc => Option.some.inj hc ▸ hd, fun hc => hp (Option.some.inj hc),
    fun _ hc => Option.some.inj hc ▸ he, fun _ hc => Option.some.inj hc ▸ hx⟩

/-- The digits in front are all that is read. -/
theorem takeWhile_digits {b : ℕ} {ds s : List Char} (hd : ∀ c ∈ ds, isDigitOf b c = true)
    (hs : EndsDigits b s) : (ds ++ s).takeWhile (isDigitOf b) = ds := by
  rw [List.takeWhile_append_of_pos hd]
  cases s with
  | nil => simp
  | cons c s => rw [List.takeWhile_cons_of_neg (by simp [hs c rfl]), List.append_nil]

theorem dropWhile_digits {b : ℕ} {ds s : List Char} (hd : ∀ c ∈ ds, isDigitOf b c = true)
    (hs : EndsDigits b s) : (ds ++ s).dropWhile (isDigitOf b) = s := by
  rw [List.dropWhile_append_of_pos hd]
  cases s with
  | nil => rfl
  | cons c s => rw [List.dropWhile_cons_of_neg (by simp [hs c rfl])]

/-- The decimal digits are the ten of them. -/
theorem exists_digitChar_of_isDigitOf {c : Char} (hc : isDigitOf 10 c = true) :
    ∃ k < 10, c = Nat.digitChar k := by
  have hvalue : digitValue c < 10 := of_decide_eq_true hc
  rw [digitValue] at hvalue
  split_ifs at hvalue with h
  · have hl : 48 ≤ c.toNat := h.1
    have hu : c.toNat ≤ 57 := h.2
    have hc' : c = Char.ofNat c.toNat := (Char.ofNat_toNat c).symm
    generalize c.toNat = n at *
    subst hc'
    have hall : ∀ n ≤ 57, 48 ≤ n → Char.ofNat n = Nat.digitChar (n - 48) := by decide
    exact ⟨n - 48, by omega, hall n hu hl⟩
  all_goals omega

/-- A digit is no space and no sign. -/
theorem sign_dropWhile_isspace {c : Char} (hc : isDigitOf 10 c = true) (s : List Char) :
    sign ((c :: s).dropWhile isspace) = (false, c :: s) := by
  obtain ⟨k, hk, rfl⟩ := exists_digitChar_of_isDigitOf hc
  interval_cases k <;> rfl

/-- A mark before digits is their sign, and there is no space to skip. -/
theorem exists_sign {mark : List Char} (hmark : mark = [] ∨ mark = ['+'] ∨ mark = ['-']) :
    ∃ neg, ∀ c s, isDigitOf 10 c = true → sign (mark ++ c :: s) = (neg, c :: s) ∧
      (mark ++ c :: s).dropWhile isspace = mark ++ c :: s := by
  have hdigit (c : Char) (hc : isDigitOf 10 c = true) (s : List Char) :
      (c :: s).dropWhile isspace = c :: s := by
    obtain ⟨k, hk, rfl⟩ := exists_digitChar_of_isDigitOf hc
    interval_cases k <;> rfl
  rcases hmark with rfl | rfl | rfl
  · refine ⟨false, fun c s hc => ⟨?_, hdigit c hc s⟩⟩
    have hsign := sign_dropWhile_isspace hc s
    rwa [hdigit c hc s] at hsign
  · exact ⟨false, fun _ _ _ => ⟨rfl, rfl⟩⟩
  · exact ⟨true, fun _ _ _ => ⟨rfl, rfl⟩⟩

/-- A hexadecimal digit is no space, no sign and no mark. -/
theorem hexDigit_ne {c d : Char} (hc : isDigitOf 16 c = true) (hd : isDigitOf 16 d = false) :
    c ≠ d := by
  rintro rfl
  rw [hc] at hd
  exact Bool.noConfusion hd

theorem isspace_hexDigit {c : Char} (hc : isDigitOf 16 c = true) : isspace c = false := by
  simp only [isspace, hexDigit_ne hc (show isDigitOf 16 ' ' = false by decide),
    hexDigit_ne hc (show isDigitOf 16 '\t' = false by decide),
    hexDigit_ne hc (show isDigitOf 16 '\n' = false by decide),
    hexDigit_ne hc (show isDigitOf 16 '\x0b' = false by decide),
    hexDigit_ne hc (show isDigitOf 16 '\x0c' = false by decide),
    hexDigit_ne hc (show isDigitOf 16 '\r' = false by decide)]
  rfl

theorem sign_dropWhile_hexDigit {c : Char} (hc : isDigitOf 16 c = true) (s : List Char) :
    sign ((c :: s).dropWhile isspace) = (false, c :: s) := by
  have hspace := isspace_hexDigit hc
  rw [List.dropWhile_cons_of_neg (by rw [hspace]; exact Bool.false_ne_true)]
  unfold sign
  split
  · next h => exact absurd (List.cons.inj h).1 (hexDigit_ne hc (by decide))
  · next h => exact absurd (List.cons.inj h).1 (hexDigit_ne hc (by decide))
  · rfl

/-- A number in hexadecimal, with zeros in front up to a width. -/
def hexPadded (width n : ℕ) : List Char :=
  let ds := Nat.toDigits 16 n
  List.replicate (width - ds.length) '0' ++ ds

theorem isDigitOf_of_mem_hexPadded {width n : ℕ} :
    ∀ c ∈ hexPadded width n, isDigitOf 16 c = true := by
  rw [hexPadded, List.forall_mem_append]
  refine ⟨fun c hc => ?_, isDigitOf_of_mem_toDigits (by decide) (by decide)⟩
  rw [(List.mem_replicate.1 hc).2]
  rfl

/-- A padded number has its value. -/
theorem ofDigits_hexPadded (width n : ℕ) : ofDigits 16 (hexPadded width n) 0 = n := by
  rw [hexPadded, ofDigits_append, ofDigits_replicate_zero, zero_mul,
    ofDigits_toDigits (by decide) (by decide)]

theorem hexPadded_ne_nil (width n : ℕ) : hexPadded width n ≠ [] :=
  List.append_ne_nil_of_right_ne_nil _ Nat.toDigits_ne_nil

/-- A padded number has the width, or more if it is larger. -/
theorem length_hexPadded {width n : ℕ} (hn : n < 16 ^ 16) :
    width ≤ (hexPadded width n).length ∧ (hexPadded width n).length ≤ max width 16 := by
  have hle : (Nat.toDigits 16 n).length ≤ 16 :=
    (Nat.length_toDigits_le_iff (by decide) (by decide)).2 hn
  rw [hexPadded, List.length_append, List.length_replicate]
  omega

/-! ## Integers -/

/-- Before the number there is at most its sign. -/
theorem exists_sign_append (s : List Char) :
    ∃ mark, s = mark ++ (sign s).2 ∧ ∀ c ∈ mark, c = '+' ∨ c = '-' := by
  fun_cases sign s with
  | case1 s => exact ⟨['-'], rfl, by decide⟩
  | case2 s => exact ⟨['+'], rfl, by decide⟩
  | case3 s => exact ⟨[], rfl, List.forall_mem_nil _⟩

theorem exists_basePrefix_append (s : List Char) :
    ∃ mark, s = mark ++ (basePrefix 0 s).2 ∧ (∀ c ∈ mark, digitValue c < 36) ∧
      (basePrefix 0 s).1 ≤ 16 := by
  by_cases hhex : hexPrefix (fun t => t.head?.any (isDigitOf 16)) s = true
  · have hbase : basePrefix 0 s = (16, s.drop 2) := if_pos ⟨.inl rfl, hhex⟩
    rw [hbase]
    revert hhex
    fun_cases hexPrefix (fun t => t.head?.any (isDigitOf 16)) s with
    | case1 x s =>
      intro hhex
      rw [Bool.and_eq_true, Bool.or_eq_true, decide_eq_true_eq, decide_eq_true_eq] at hhex
      refine ⟨['0', x], rfl, ?_, le_rfl⟩
      rcases hhex.1 with rfl | rfl <;> decide
    | case2 => exact fun hhex => absurd hhex Bool.false_ne_true
  · have hbase : basePrefix 0 s = (if s.head? = some '0' then 8 else 10, s) := by
      rw [basePrefix, if_neg fun h => hhex h.2, if_pos rfl]
    rw [hbase]
    refine ⟨[], rfl, List.forall_mem_nil _, ?_⟩
    show (if s.head? = some '0' then 8 else 10) ≤ 16
    split_ifs <;> decide

theorem strtoull_consumed_le {s s₁ s₂ : List Char} {b : ℕ}
    (hs₁ : s₁ = (sign (s.dropWhile isspace)).2) (hb : b = (basePrefix 0 s₁).1)
    (hs₂ : s₂ = (basePrefix 0 s₁).2) :
    (strtoull s 0).consumed ≤ s.length - (s₂.length - (s₂.takeWhile (isDigitOf b)).length) := by
  subst hb hs₂ hs₁
  rw [strtoull]
  rcases sign (s.dropWhile isspace) with ⟨neg, s₁⟩
  rcases hmark : basePrefix 0 s₁ with ⟨b, s₂⟩
  simp only [hmark]
  split
  · exact Nat.zero_le _
  · split <;> exact le_rfl

/-- What `strtoull` reads are spaces, signs and digits of some base. -/
theorem strtoull_reads (s : List Char) :
    ∃ read rest, s = read ++ rest ∧ (strtoull s 0).consumed ≤ read.length ∧
      ∀ c ∈ read, isspace c = true ∨ (c = '+' ∨ c = '-') ∨ digitValue c < 36 := by
  obtain ⟨mark, hsign, hmark⟩ := exists_sign_append (s.dropWhile isspace)
  set s₁ := (sign (s.dropWhile isspace)).2 with hs₁
  obtain ⟨mark', hbase, hmark', hb⟩ := exists_basePrefix_append s₁
  set b := (basePrefix 0 s₁).1 with hb'
  set s₂ := (basePrefix 0 s₁).2 with hs₂
  have hs : s = s.takeWhile isspace ++ (mark ++ (mark' ++ s₂)) := by
    rw [← hbase, ← hsign, List.takeWhile_append_dropWhile]
  have hconsumed := strtoull_consumed_le hs₁ hb' hs₂
  have hdigits : s₂ = s₂.takeWhile (isDigitOf b) ++ s₂.dropWhile (isDigitOf b) :=
    List.takeWhile_append_dropWhile.symm
  refine ⟨s.takeWhile isspace ++ (mark ++ (mark' ++ s₂.takeWhile (isDigitOf b))),
    s₂.dropWhile (isDigitOf b), ?_, ?_, ?_⟩
  · simp only [List.append_assoc]
    rw [← hdigits]
    exact hs
  · have hlength := congrArg List.length hs
    simp only [List.length_append] at hlength ⊢
    omega
  · simp only [List.forall_mem_append]
    refine ⟨fun c hc => .inl ?_, fun c hc => .inr (.inl (hmark c hc)),
      fun c hc => .inr (.inr (hmark' c hc)), fun c hc => .inr (.inr ?_)⟩
    · exact List.mem_takeWhile_imp hc
    · have hdigit : isDigitOf b c = true := List.mem_takeWhile_imp hc
      exact (of_decide_eq_true hdigit).trans_le (hb.trans (by decide))

/-- `strtoull` in base ten, on a number of 64 bits. -/
theorem strtoull_toDigits {n : ℕ} (hn : n < 2 ^ 64) {s : List Char} (hs : EndsDigits 10 s) :
    strtoull (Nat.toDigits 10 n ++ s) 10 =
      ⟨UInt64.ofNat n, (Nat.toDigits 10 n).length, false⟩ := by
  have hdigits := isDigitOf_of_mem_toDigits (b := 10) (by decide) (by decide) (n := n)
  obtain ⟨c, ds, hcons⟩ := List.exists_cons_of_ne_nil (Nat.toDigits_ne_nil (n := n) (b := 10))
  have hsign : sign ((Nat.toDigits 10 n ++ s).dropWhile isspace) =
      (false, Nat.toDigits 10 n ++ s) := by
    rw [hcons] at hdigits ⊢
    exact sign_dropWhile_isspace (hdigits c List.mem_cons_self) _
  have hbase : ∀ t, basePrefix 10 t = (10, t) := fun t => by simp [basePrefix]
  rw [strtoull, hsign]
  simp only [hbase, takeWhile_digits hdigits hs,
    ofDigits_toDigits (b := 10) (by decide) (by decide), if_neg Nat.toDigits_ne_nil,
    if_neg (not_le.2 hn)]
  simp

/-- `strtoull` in base zero, on hexadecimal digits with the mark `0x`. -/
theorem strtoull_hex {ds : List Char} (hne : ds ≠ [])
    (hd : ∀ c ∈ ds, isDigitOf 16 c = true) (hn : ofDigits 16 ds 0 < 2 ^ 64) :
    strtoull ('0' :: 'x' :: ds) 0 =
      ⟨UInt64.ofNat (ofDigits 16 ds 0), ds.length + 2, false⟩ := by
  have htake : ds.takeWhile (isDigitOf 16) = ds := List.takeWhile_eq_self_iff.2 hd
  have hsign : sign (('0' :: 'x' :: ds).dropWhile isspace) = (false, '0' :: 'x' :: ds) :=
    sign_dropWhile_isspace rfl _
  have hbase : basePrefix 0 ('0' :: 'x' :: ds) = (16, ds) := by
    obtain ⟨c, ds, rfl⟩ := List.exists_cons_of_ne_nil hne
    simp [basePrefix, hexPrefix, hd c List.mem_cons_self]
  rw [strtoull, hsign]
  simp only [hbase, htake, if_neg hne, if_neg (not_le.2 hn)]
  simp

/-- What follows the first of some digits, a digit or the end, is no mark of the base. -/
theorem second_ne_mark {c : Char} {ds s : List Char} (hd : ∀ d ∈ c :: ds, isDigitOf 16 d = true)
    (hx : ∀ d ∈ s.head?, d ≠ 'x' ∧ d ≠ 'X') : ∀ d ∈ (ds ++ s).head?, d ≠ 'x' ∧ d ≠ 'X' := by
  cases ds with
  | nil => exact hx
  | cons e ds =>
    intro d hmem
    obtain rfl : e = d := Option.some.inj hmem
    have he := hd e (by simp)
    exact ⟨hexDigit_ne he (by decide), hexDigit_ne he (by decide)⟩

/-- `%llx` on hexadecimal digits without a mark of the base. -/
theorem scanUll_hexDigits {ds s : List Char} (hne : ds ≠ [])
    (hd : ∀ c ∈ ds, isDigitOf 16 c = true) (hn : ofDigits 16 ds 0 < 2 ^ 64)
    (hs : EndsDigits 16 s) (hx : ∀ c ∈ s.head?, c ≠ 'x' ∧ c ≠ 'X') :
    scanUll 16 (ds ++ s) = some (UInt64.ofNat (ofDigits 16 ds 0), s) := by
  have hsign : sign ((ds ++ s).dropWhile isspace) = (false, ds ++ s) := by
    obtain ⟨c, ds, rfl⟩ := List.exists_cons_of_ne_nil hne
    exact sign_dropWhile_hexDigit (hd c List.mem_cons_self) _
  have hsecond : ∀ d ∈ ((ds ++ s).drop 1).head?, d ≠ 'x' ∧ d ≠ 'X' := by
    obtain ⟨c, ds, rfl⟩ := List.exists_cons_of_ne_nil hne
    exact second_ne_mark hd hx
  have hmark : hexPrefix (fun t => t.head?.any (isDigitOf 16)) (ds ++ s) = false := by
    generalize ds ++ s = t at hsecond
    unfold hexPrefix
    split
    · next d t =>
      obtain ⟨hx', hX'⟩ := hsecond d rfl
      simp [hx', hX']
    · rfl
  have hbase : basePrefix 16 (ds ++ s) = (16, ds ++ s) := by
    rw [basePrefix, hmark, if_neg (by simp), if_neg (by decide)]
  have hconv : strtoull (ds ++ s) 16 =
      ⟨UInt64.ofNat (ofDigits 16 ds 0), ds.length, false⟩ := by
    rw [strtoull, hsign]
    simp only [hbase, takeWhile_digits hd hs, if_neg hne, if_neg (not_le.2 hn)]
    simp
  rw [scanUll, hconv, hsign, if_neg, List.drop_left]
  rintro (hzero | ⟨⟨-, -, h | h⟩, -⟩)
  · exact hne (List.length_eq_zero_iff.1 hzero)
  · exact (hsecond _ h).1 rfl
  · exact (hsecond _ h).2 rfl

/-- `%llu` on a number of 64 bits. -/
theorem scanUll_toDigits {n : ℕ} (hn : n < 2 ^ 64) {s : List Char} (hs : EndsDigits 10 s) :
    scanUll 10 (Nat.toDigits 10 n ++ s) = some (UInt64.ofNat n, s) := by
  have hpos := List.length_pos_of_ne_nil (Nat.toDigits_ne_nil (n := n) (b := 10))
  rw [scanUll, strtoull_toDigits hn hs]
  simp [hpos.ne']

/-- An integer in decimal, as `%lld` prints it. -/
def decimal (n : ℤ) : List Char :=
  if n < 0 then '-' :: Nat.toDigits 10 n.natAbs else Nat.toDigits 10 n.natAbs

theorem decimal_ne_nil (n : ℤ) : decimal n ≠ [] := by
  rw [decimal]
  split_ifs
  · exact List.cons_ne_nil _ _
  · exact Nat.toDigits_ne_nil

/-- A decimal is a minus sign and digits. -/
theorem eq_minus_or_isDigitOf_of_mem_decimal {n : ℤ} {c : Char} (hc : c ∈ decimal n) :
    c = '-' ∨ isDigitOf 10 c = true := by
  have hdigits := isDigitOf_of_mem_toDigits (b := 10) (by decide) (by decide) (n := n.natAbs)
  rw [decimal] at hc
  split_ifs at hc
  · rcases List.mem_cons.1 hc with rfl | hc
    · exact .inl rfl
    · exact .inr (hdigits c hc)
  · exact .inr (hdigits c hc)

/-- A decimal has no other characters. -/
theorem notMem_decimal (n : ℤ) (c : Char) (hc : c ≠ '-' ∧ isDigitOf 10 c = false) :
    c ∉ decimal n := by
  intro hmem
  rcases eq_minus_or_isDigitOf_of_mem_decimal hmem with h | h
  · exact hc.1 h
  · rw [hc.2] at h
    exact Bool.false_ne_true h

/-- The digits of a decimal follow its sign. -/
theorem sign_decimal (n : ℤ) (s : List Char) :
    sign ((decimal n ++ s).dropWhile isspace) =
      (decide (n < 0), Nat.toDigits 10 n.natAbs ++ s) := by
  rw [decimal]
  by_cases hneg : n < 0
  · rw [if_pos hneg, decide_eq_true hneg]
    rfl
  · rw [if_neg hneg, decide_eq_false hneg]
    obtain ⟨c, ds, hcons⟩ :=
      List.exists_cons_of_ne_nil (Nat.toDigits_ne_nil (n := n.natAbs) (b := 10))
    have hc := isDigitOf_of_mem_toDigits (b := 10) (by decide) (by decide) (n := n.natAbs) c
      (hcons ▸ List.mem_cons_self)
    rw [hcons]
    exact sign_dropWhile_isspace hc _

/-- `strtoll` reads a decimal. -/
theorem strtoll_decimal {n : ℤ} (hmin : -2 ^ 63 ≤ n) (hmax : n < 2 ^ 63) {s : List Char}
    (hs : EndsDigits 10 s) : strtoll (decimal n ++ s) 10 = ⟨n, (decimal n).length, false⟩ := by
  have hdigits := isDigitOf_of_mem_toDigits (b := 10) (by decide) (by decide) (n := n.natAbs)
  have hbase : ∀ t, basePrefix 10 t = (10, t) := fun t => by simp [basePrefix]
  have hvalue : (if decide (n < 0) = true then -(n.natAbs : ℤ) else n.natAbs) = n := by
    by_cases hneg : n < 0
    · rw [if_pos (decide_eq_true hneg)]
      omega
    · rw [if_neg (by simpa using hneg)]
      omega
  rw [strtoll, sign_decimal]
  simp only [hbase, takeWhile_digits hdigits hs, if_neg Nat.toDigits_ne_nil,
    ofDigits_toDigits (b := 10) (by decide) (by decide), hvalue]
  rw [toLongLong, if_neg (not_le.2 hmax), if_neg (not_lt.2 hmin)]
  simp

/-! ## Decimals -/

/-- A mantissa with a point is read in two parts. -/
theorem mantissa_point {b : ℕ} {ds fs t : List Char} (hd : ∀ c ∈ ds, isDigitOf b c = true)
    (hf : ∀ c ∈ fs, isDigitOf b c = true) (ht : EndsDigits b t) (hp : isDigitOf b '.' = false) :
    mantissa b (ds ++ '.' :: (fs ++ t)) = (ds, fs, t) := by
  have hpoint : EndsDigits b ('.' :: (fs ++ t)) := fun c hc => by
    rwa [← Option.some.inj hc]
  rw [mantissa]
  simp only [takeWhile_digits hd hpoint, dropWhile_digits hd hpoint, takeWhile_digits hf ht,
    dropWhile_digits hf ht]

/-- A mantissa without one is read as a whole. -/
theorem mantissa_no_point {b : ℕ} {ds t : List Char} (hd : ∀ c ∈ ds, isDigitOf b c = true)
    (ht : EndsDigits b t) (hp : t.head? ≠ some '.') : mantissa b (ds ++ t) = (ds, [], t) := by
  rw [mantissa]
  simp only [takeWhile_digits hd ht, dropWhile_digits hd ht]
  split
  · exact absurd rfl hp
  · rfl

theorem exponent_none {mark : Char} {t : List Char}
    (ht : ∀ c ∈ t.head?, c.toLower ≠ mark) : exponent mark t = (0, t) := by
  cases t with
  | nil => rfl
  | cons c t => simp [exponent, ht c rfl]

/-- An exponent is read with its sign. -/
theorem exponent_some {neg : Bool} {n : ℕ} {ds t : List Char} (hne : ds ≠ [])
    (hd : ∀ c ∈ ds, isDigitOf 10 c = true) (hn : ofDigits 10 ds 0 = n) (ht : EndsDigits 10 t) :
    exponent 'e' ('e' :: (if neg then '-' else '+') :: (ds ++ t)) =
      (if neg then -(n : ℤ) else n, t) := by
  cases neg <;>
    simp [exponent, sign, takeWhile_digits hd ht, dropWhile_digits hd ht, hne, hn]

/-- An exponent is read as a whole, whatever follows its digits. -/
theorem exists_exponent {e : Char} (he : e = 'e' ∨ e = 'E') {mark : List Char}
    (hmark : mark = [] ∨ mark = ['+'] ∨ mark = ['-']) {ds : List Char} (hne : ds ≠ [])
    (hd : ∀ c ∈ ds, isDigitOf 10 c = true) :
    ∃ n, ∀ t, EndsDigits 10 t → exponent 'e' (e :: (mark ++ (ds ++ t))) = (n, t) := by
  have hlower : e.toLower = 'e' := by rcases he with rfl | rfl <;> rfl
  obtain ⟨neg, hsign⟩ := exists_sign hmark
  refine ⟨if neg then -(ofDigits 10 ds 0 : ℤ) else ofDigits 10 ds 0, fun t ht => ?_⟩
  have hread : sign (mark ++ (ds ++ t)) = (neg, ds ++ t) := by
    obtain ⟨c, ds, rfl⟩ := List.exists_cons_of_ne_nil hne
    exact (hsign c (ds ++ t) (hd c List.mem_cons_self)).1
  rw [exponent, if_neg (not_not.2 hlower), hread]
  simp only [takeWhile_digits hd ht, dropWhile_digits hd ht, if_neg hne]

/-- `strtod` on a decimal with a sign, from its parts. -/
theorem strtod_signed {mark : List Char} {neg : Bool} {c : Char} {s ds fs t u : List Char}
    {e : ℤ} {q : ℚ} (hsign : sign ((mark ++ c :: s).dropWhile isspace) = (neg, c :: s))
    (hc : isDigitOf 10 c = true) (hx : ∀ d ∈ s.head?, d ≠ 'x' ∧ d ≠ 'X')
    (hm : mantissa 10 (c :: s) = (ds, fs, t)) (he : exponent 'e' t = (e, u))
    (hq : (ofDigits 10 (ds ++ fs) 0 : ℚ) * 10 ^ (e - fs.length) = q) :
    strtod (mark ++ c :: s) =
      ⟨toDouble neg q, (mark ++ c :: s).length - u.length, outOfRange q⟩ := by
  have hword : startsWord "infinity" (c :: s) = false ∧ startsWord "inf" (c :: s) = false ∧
      startsWord "nan" (c :: s) = false := by
    obtain ⟨k, hk, rfl⟩ := exists_digitChar_of_isDigitOf hc
    interval_cases k <;> exact ⟨rfl, rfl, rfl⟩
  have hhex : hexPrefix (startsNumber 16) (c :: s) = false := by
    unfold hexPrefix
    split
    · next d s' h =>
      obtain ⟨hx', hX'⟩ := hx d (by rw [(List.cons.inj h).2]; rfl)
      simp [hx', hX']
    · rfl
  have hnumber : startsNumber 10 (c :: s) = true := by
    unfold startsNumber
    split
    · next d s' h =>
      rw [(List.cons.inj h).1] at hc
      exact absurd hc (by decide)
    · next d s' _ h => rwa [← (List.cons.inj h).1]
    · next h => exact absurd h (List.cons_ne_nil _ _)
  rw [strtod, hsign]
  simp only [hword, hhex, hnumber, hm, he, hq, Bool.false_eq_true, if_false, if_true]

/-- `strtod` on a decimal, from its parts. -/
theorem strtod_decimal {c : Char} {s ds fs t u : List Char} {e : ℤ} {q : ℚ}
    (hc : isDigitOf 10 c = true) (hx : ∀ d ∈ s.head?, d ≠ 'x' ∧ d ≠ 'X')
    (hm : mantissa 10 (c :: s) = (ds, fs, t)) (he : exponent 'e' t = (e, u))
    (hq : (ofDigits 10 (ds ++ fs) 0 : ℚ) * 10 ^ (e - fs.length) = q) :
    strtod (c :: s) = ⟨toDouble false q, (c :: s).length - u.length, outOfRange q⟩ :=
  @strtod_signed [] false c s ds fs t u e q (sign_dropWhile_isspace hc s) hc hx hm he hq

/-! ## Rounding -/

theorem roundHalfEven_le (q : ℚ) : (Double.roundHalfEven q : ℚ) ≤ q + 1 := by
  have hfloor := Int.floor_le q
  rw [Double.roundHalfEven]
  split_ifs
  · linarith
  · push_cast
    linarith

theorem roundMagnitude_zero : roundMagnitude 0 = 0 := by
  have hround : Double.roundHalfEven 0 = 0 := by simp [Double.roundHalfEven]
  rw [roundMagnitude, zero_div, hround, Int.cast_zero, zero_mul]

/-- Rounding adds one unit in the last place at most. -/
theorem roundMagnitude_le (q : ℚ) : roundMagnitude q ≤ q + 2 ^ lastPlace q := by
  have hpos : (0 : ℚ) < 2 ^ lastPlace q := by positivity
  calc roundMagnitude q ≤ (q / 2 ^ lastPlace q + 1) * 2 ^ lastPlace q :=
        mul_le_mul_of_nonneg_right (roundHalfEven_le _) hpos.le
    _ = q + 2 ^ lastPlace q := by rw [add_mul, one_mul, div_mul_cancel₀ _ hpos.ne']

/-- The last place of a number is no larger than the number, or than one. -/
theorem two_pow_lastPlace_le (q : ℚ) : (2 : ℚ) ^ lastPlace q ≤ max q 1 := by
  rw [lastPlace]
  rcases max_cases (Int.log 2 q - 52) (-1074) with ⟨h, -⟩ | ⟨h, -⟩
  · rw [h]
    rcases le_or_gt q 0 with hneg | hq
    · rw [Int.log_of_right_le_zero 2 hneg]
      exact le_max_of_le_right (zpow_le_one_of_nonpos₀ (by norm_num) (by norm_num))
    · refine le_max_of_le_left ?_
      calc (2 : ℚ) ^ (Int.log 2 q - 52) ≤ 2 ^ Int.log 2 q :=
            zpow_le_zpow_right₀ (by norm_num) (by omega)
        _ ≤ q := by exact_mod_cast Int.zpow_log_le_self (b := 2) (by decide) hq
  · rw [h]
    exact le_max_of_le_right (zpow_le_one_of_nonpos₀ (by norm_num) (by norm_num))

/-- Rounding at most doubles a bound that is a power of two. -/
theorem roundMagnitude_le_two_pow {q : ℚ} {n : ℕ} (h : q ≤ 2 ^ n) :
    roundMagnitude q ≤ 2 ^ (n + 1) := by
  have hlast : (2 : ℚ) ^ lastPlace q ≤ 2 ^ n :=
    (two_pow_lastPlace_le q).trans (max_le h (one_le_pow₀ (by norm_num)))
  calc roundMagnitude q ≤ q + 2 ^ lastPlace q := roundMagnitude_le q
    _ ≤ 2 ^ n + 2 ^ n := add_le_add h hlast
    _ = 2 ^ (n + 1) := by rw [pow_succ, mul_two]

theorem roundMagnitude_nonneg {q : ℚ} (h : 0 ≤ q) : 0 ≤ roundMagnitude q := by
  have hfloor : (0 : ℤ) ≤ ⌊q / 2 ^ lastPlace q⌋ := Int.floor_nonneg.2 (by positivity)
  have hround : 0 ≤ Double.roundHalfEven (q / 2 ^ lastPlace q) := by
    rw [Double.roundHalfEven]
    split_ifs
    · exact hfloor
    · exact hfloor.trans (Int.le_add_one le_rfl)
  exact mul_nonneg (by exact_mod_cast hround) (by positivity)

/-- A number that is not too large is rounded. -/
theorem toDouble_eq_fin {neg : Bool} {q : ℚ} {n : ℕ} (h : q ≤ 2 ^ n) (hn : n + 1 < 1024) :
    toDouble neg q = .fin neg (roundMagnitude q) := by
  have hround : roundMagnitude q < 2 ^ 1024 :=
    (roundMagnitude_le_two_pow h).trans_lt (pow_lt_pow_right₀ (by norm_num) hn)
  rw [toDouble, if_neg (not_le.2 hround)]

/-- Numbers that are zero, or neither tiny nor large, are in range. -/
theorem outOfRange_eq_false {q : ℚ} (h : q = 0 ∨ ((2 : ℚ) ^ (-1022 : ℤ) ≤ q ∧ q ≤ 2)) :
    outOfRange q = false := by
  rcases h with rfl | ⟨hl, hu⟩
  · have hbig : ¬ (2 : ℚ) ^ 1024 ≤ 0 := not_le.2 (by positivity)
    rw [outOfRange, roundMagnitude_zero]
    simp [hbig]
  · have hround : roundMagnitude q < 2 ^ 1024 :=
      (roundMagnitude_le_two_pow (n := 1) (by simpa using hu)).trans_lt
        (pow_lt_pow_right₀ (by norm_num) (by norm_num))
    rw [outOfRange, decide_eq_false (not_le.2 hround), decide_eq_false (not_lt.2 hl)]
    rfl

end CNumber
