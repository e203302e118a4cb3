import CgroupResearch.Lib.CString
import Mathlib.Data.List.Sort
import Mathlib.Tactic

/-!
# JSON texts of Python

What `json.dump(value, f, indent=2, sort_keys=True)` writes. A string is the list of its
code points, lone surrogates among them; the text is ASCII, whatever the strings hold,
since everything else is escaped (`ensure_ascii`). Members of a dictionary are written in
the order of their keys, one a line.

A float is the shortest decimal that reads back as it, which is how `repr` writes it; which
decimal that is does not matter here.

* `Escaped`: the inside of a string literal, in which a quote only stands escaped;
* `PyJson.render_induction`: what holds of every text, by its pieces.
-/

/-- The strings of Python, as their code points. -/
abbrev PyStr := List (Fin 0x110000)

theorem Char.toNat_lt_codePoints (c : Char) : c.toNat < 0x110000 := by
  rcases c.valid with h | h
  · exact h.trans (by decide)
  · exact h.2

/-- The string of some characters. -/
def PyStr.ofList (s : List Char) : PyStr := s.map fun c => ⟨c.toNat, c.toNat_lt_codePoints⟩

/-- The string of a literal. -/
def PyStr.ofString (s : String) : PyStr := .ofList s.toList

instance neZeroTen : NeZero (10 : ℕ) := ⟨by decide⟩

/-- The floats of Python: `dec neg d ds decpt` is the decimal `0.d ds × 10 ^ decpt`. -/
inductive PyFloat
  | nan
  | inf (neg : Bool)
  | dec (neg : Bool) (d : Fin 10) (ds : List (Fin 10)) (decpt : ℤ)
  deriving DecidableEq, Repr

/-- The values that `json.dump` is used on here. -/
inductive PyJson
  | null
  | bool (b : Bool)
  | int (n : ℤ)
  | float (x : PyFloat)
  | str (s : PyStr)
  | list (items : List PyJson)
  | dict (members : List (PyStr × PyJson))

/-! ## Atoms -/

/-- The character of a hexadecimal digit, in lower case. -/
def hexDigit (n : ℕ) : Char := Nat.digitChar (n % 16)

/-- The conversion `%04x` of a number below `2 ^ 16`. -/
def hex4 (n : ℕ) : List Char :=
  [hexDigit (n / 4096), hexDigit (n / 256), hexDigit (n / 16), hexDigit n]

/-- What `py_encode_basestring_ascii` writes for a code point. -/
def escapeCodePoint (x : ℕ) : List Char :=
  if x = 0x5c then ['\\', '\\']
  else if x = 0x22 then ['\\', '"']
  else if x = 0x08 then ['\\', 'b']
  else if x = 0x0c then ['\\', 'f']
  else if x = 0x0a then ['\\', 'n']
  else if x = 0x0d then ['\\', 'r']
  else if x = 0x09 then ['\\', 't']
  else if 0x20 ≤ x ∧ x ≤ 0x7e then [Char.ofNat x]
  else if x < 0x10000 then '\\' :: 'u' :: hex4 x
  else
    -- a surrogate pair
    '\\' :: 'u' :: hex4 (0xd800 + (x - 0x10000) / 0x400 % 0x400) ++
      '\\' :: 'u' :: hex4 (0xdc00 + (x - 0x10000) % 0x400)

/-- The inside of the string literal of a string. -/
def PyStr.escape (s : PyStr) : List Char := s.flatMap fun x => escapeCodePoint x.val

/-- The string literal of a string. -/
def PyStr.encode (s : PyStr) : List Char := '"' :: s.escape ++ ['"']

/-- `int.__repr__`. -/
def intRepr : ℤ → List Char
  | .ofNat n => Nat.toDigits 10 n
  | .negSucc n => '-' :: Nat.toDigits 10 (n + 1)

namespace PyFloat

/-- The digits as characters. -/
def digitChars (ds : List (Fin 10)) : List Char := ds.map fun d => Nat.digitChar d.val

/-- The number that digits write. -/
def digitsValue (ds : List (Fin 10)) : ℕ := ds.foldl (fun n d => 10 * n + d.val) 0

/-- The decimal `0.d ds × 10 ^ decpt`. -/
def decimal (d : Fin 10) (ds : List (Fin 10)) (decpt : ℤ) : ℚ :=
  digitsValue (d :: ds) * 10 ^ (decpt - (ds.length + 1))

/-- A float that was computed for the number `q`, up to rounding: rounding keeps zero, and errs
    by far less than a factor of two. -/
def Computes (x : PyFloat) (q : ℚ) : Prop :=
  (q = 0 ∧ x = dec false 0 [] 1) ∨
    ∃ d ds decpt, x = dec false d ds decpt ∧
      q / 2 ≤ decimal d ds decpt ∧ decimal d ds decpt ≤ 2 * q

/-- The exponent of the decimal `0.d ds × 10 ^ decpt`, written with a sign and two digits at
    least. -/
def exponentRepr (decpt : ℤ) : List Char :=
  let e := (decpt - 1).natAbs
  (if decpt - 1 < 0 then '-' else '+') :: (if e < 10 then ['0'] else []) ++ Nat.toDigits 10 e

/-- What `float.__repr__` writes for the decimal `0.d ds × 10 ^ decpt`. -/
def decRepr (d : Fin 10) (ds : List (Fin 10)) (decpt : ℤ) : List Char :=
  if decpt ≤ -4 ∨ 16 < decpt then
    Nat.digitChar d :: (if ds = [] then [] else '.' :: digitChars ds) ++ 'e' :: exponentRepr decpt
  else if decpt ≤ 0 then
    '0' :: '.' :: List.replicate (-decpt).toNat '0' ++ digitChars (d :: ds)
  else if (ds.length + 1 : ℤ) ≤ decpt then
    digitChars (d :: ds) ++ List.replicate (decpt.toNat - (ds.length + 1)) '0' ++ ['.', '0']
  else
    digitChars ((d :: ds).take decpt.toNat) ++ '.' :: digitChars ((d :: ds).drop decpt.toNat)

/-- `floatstr` of the encoder. -/
def floatstr : PyFloat → List Char
  | nan => "NaN".toList
  | inf neg => if neg then "-Infinity".toList else "Infinity".toList
  | dec neg d ds decpt => (if neg then ['-'] else []) ++ decRepr d ds decpt

end PyFloat

/-! ## Values -/

namespace PyJson

/-- `newline_indent`: the start of a line at an indentation level. -/
def newlineIndent (level : ℕ) : List Char := '\n' :: List.replicate (2 * level) ' '

/-- Items or members, each on a line of its own. -/
def lines (level : ℕ) : List (List Char) → List Char
  | [] => []
  | t :: ts => newlineIndent level ++ t ++ (if ts.isEmpty then [] else [',']) ++ lines level ts

/-- A list or a dictionary, from its items or members. -/
def block (opening closing : Char) (level : ℕ) (items : List (List Char)) : List Char :=
  if items.isEmpty then [opening, closing]
  else opening :: lines (level + 1) items ++ newlineIndent level ++ [closing]

/-- A member of a dictionary. -/
def member (key : PyStr) (value : List Char) : List Char := key.encode ++ [':', ' '] ++ value

/-- `sorted(dct.items())`, with the values already written. -/
def sortMembers (members : List (PyStr × List Char)) : List (PyStr × List Char) :=
  members.insertionSort fun a b => a.1 ≤ b.1

mutual

/-- The text of a value, at an indentation level. -/
def render (level : ℕ) : PyJson → List Char
  | null => "null".toList
  | bool b => if b then "true".toList else "false".toList
  | int n => intRepr n
  | float x => x.floatstr
  | str s => s.encode
  | list items => block '[' ']' level (renderItems (level + 1) items)
  | dict members =>
    block '{' '}' level
      ((sortMembers (renderMembers (level + 1) members)).map fun m => member m.1 m.2)

/-- The texts of the items of a list. -/
def renderItems (level : ℕ) : List PyJson → List (List Char)
  | [] => []
  | v :: vs => render level v :: renderItems level vs

/-- The texts of the values of a dictionary, by key. -/
def renderMembers (level : ℕ) : List (PyStr × PyJson) → List (PyStr × List Char)
  | [] => []
  | (k, v) :: ms => (k, render level v) :: renderMembers level ms

end

/-- What `json.dump(value, f, indent=2, sort_keys=True)` writes. -/
def dump (value : PyJson) : List Char := value.render 0

/-- A dictionary with the keys given as literals. -/
def object (members : List (String × PyJson)) : PyJson :=
  dict (members.map fun m => (PyStr.ofString m.1, m.2))

/-! ## What texts consist of -/

/-- The characters of numbers and constants. -/
def AtomChar (c : Char) : Prop := c.isAlphanum ∨ c = '+' ∨ c = '-' ∨ c = '.'

instance : DecidablePred AtomChar := fun _ => inferInstanceAs (Decidable (_ ∨ _))

/-- The insides of string literals: a quote only stands behind a backslash. -/
inductive Escaped : List Char → Prop
  | nil : Escaped []
  | plain {c : Char} {e : List Char} (hq : c ≠ '"') (hb : c ≠ '\\') (h0 : c ≠ '\x00') :
      Escaped e → Escaped (c :: e)
  | escape {d : Char} {e : List Char} (h0 : d ≠ '\x00') : Escaped e → Escaped ('\\' :: d :: e)

/-- The pairs of brackets of lists and dictionaries. -/
inductive Brackets : Char → Char → Prop
  | list : Brackets '[' ']'
  | dict : Brackets '{' '}'

/-- The keys of the dictionaries in a value all satisfy `Q`. -/
inductive Keys (Q : PyStr → Prop) : PyJson → Prop
  | null : Keys Q null
  | bool (b : Bool) : Keys Q (bool b)
  | int (n : ℤ) : Keys Q (int n)
  | float (x : PyFloat) : Keys Q (float x)
  | str (s : PyStr) : Keys Q (str s)
  | list {items : List PyJson} : (∀ v ∈ items, Keys Q v) → Keys Q (list items)
  | dict {members : List (PyStr × PyJson)} :
      (∀ m ∈ members, Q m.1) → (∀ m ∈ members, Keys Q m.2) → Keys Q (dict members)

/-- Every value has some keys. -/
theorem keys_true : ∀ v : PyJson, v.Keys fun _ => True
  | null => .null
  | bool b => .bool b
  | int n => .int n
  | float x => .float x
  | str s => .str s
  | list items => .list fun v _ => keys_true v
  | dict members => .dict (fun _ _ => trivial) fun m _ => keys_true m.2
termination_by v => sizeOf v
decreasing_by
  · have := List.sizeOf_lt_of_mem ‹_›
    simp only [list.sizeOf_spec]
    omega
  · have := List.sizeOf_lt_of_mem ‹_›
    obtain ⟨k, v⟩ := m
    simp only [dict.sizeOf_spec, Prod.mk.sizeOf_spec] at *
    omega

section

variable {Q : PyStr → Prop}

@[simp] theorem keys_bool (b : Bool) : (bool b).Keys Q := .bool b

@[simp] theorem keys_int (n : ℤ) : (int n).Keys Q := .int n

@[simp] theorem keys_float (x : PyFloat) : (float x).Keys Q := .float x

@[simp] theorem keys_str (s : PyStr) : (str s).Keys Q := .str s

theorem keys_list {items : List PyJson} : (list items).Keys Q ↔ ∀ v ∈ items, v.Keys Q :=
  ⟨fun h => by cases h; assumption, .list⟩

theorem keys_dict {members : List (PyStr × PyJson)} :
    (dict members).Keys Q ↔ ∀ m ∈ members, Q m.1 ∧ m.2.Keys Q := by
  refine ⟨fun h m hm => ?_, fun h => .dict (fun m hm => (h m hm).1) fun m hm => (h m hm).2⟩
  cases h with
  | dict hkeys hvals => exact ⟨hkeys m hm, hvals m hm⟩

theorem keys_object {members : List (String × PyJson)} :
    (object members).Keys Q ↔ ∀ m ∈ members, Q (PyStr.ofString m.1) ∧ m.2.Keys Q := by
  rw [object, keys_dict, List.forall_mem_map]

/-- A weaker condition holds of the keys too. -/
theorem Keys.mono {Q' : PyStr → Prop} {v : PyJson} (h : v.Keys Q) (hQ : ∀ k, Q k → Q' k) :
    v.Keys Q' := by
  induction h with
  | null => exact .null
  | bool b => exact .bool b
  | int n => exact .int n
  | float x => exact .float x
  | str s => exact .str s
  | list _ ih => exact .list ih
  | dict hkeys _ ih => exact .dict (fun m hm => hQ _ (hkeys m hm)) ih

end

/-! ### Atoms -/

/-- A digit stands in numbers. -/
theorem AtomChar.of_isDigit {c : Char} (h : c.isDigit) : AtomChar c := by
  refine .inl ?_
  simp [Char.isAlphanum, h]

theorem AtomChar.ne {c d : Char} (h : AtomChar c) (hd : ¬ AtomChar d) : c ≠ d :=
  fun hcd => hd (hcd ▸ h)

theorem atomChar_digitChar (d : Fin 10) : AtomChar (Nat.digitChar d) := by
  refine .of_isDigit ?_
  revert d
  decide

theorem atomChar_of_mem_toDigits {n : ℕ} {c : Char} (h : c ∈ Nat.toDigits 10 n) : AtomChar c :=
  .of_isDigit (Nat.isDigit_of_mem_toDigits (by decide) (by decide) h)

theorem atomChar_of_mem_digitChars {ds : List (Fin 10)} {c : Char}
    (h : c ∈ PyFloat.digitChars ds) : AtomChar c := by
  obtain ⟨d, -, rfl⟩ := List.mem_map.1 h
  exact atomChar_digitChar d

theorem atomChar_of_mem_replicate {n : ℕ} {c : Char} (h : c ∈ List.replicate n '0') :
    AtomChar c := by
  rw [(List.mem_replicate.1 h).2]
  decide

theorem atomChar_of_mem_intRepr {n : ℤ} {c : Char} (h : c ∈ intRepr n) : AtomChar c := by
  cases n with
  | ofNat n => exact atomChar_of_mem_toDigits h
  | negSucc n =>
    rcases List.mem_cons.1 h with rfl | h
    · decide
    · exact atomChar_of_mem_toDigits h

theorem atomChar_of_mem_exponentRepr {decpt : ℤ} {c : Char}
    (h : c ∈ PyFloat.exponentRepr decpt) : AtomChar c := by
  rw [PyFloat.exponentRepr, List.cons_append, List.mem_cons, List.mem_append] at h
  rcases h with rfl | h | h
  · split_ifs <;> decide
  · split_ifs at h
    · rw [List.mem_singleton.1 h]
      decide
    · exact absurd h List.not_mem_nil
  · exact atomChar_of_mem_toDigits h

theorem atomChar_of_mem_decRepr {d : Fin 10} {ds : List (Fin 10)} {decpt : ℤ} :
    ∀ c ∈ PyFloat.decRepr d ds decpt, AtomChar c := by
  have hdot : AtomChar '.' := by decide
  have hzero : AtomChar '0' := by decide
  rw [PyFloat.decRepr]
  split_ifs <;>
    simp only [List.forall_mem_append, List.forall_mem_cons]
  · exact ⟨⟨atomChar_digitChar d, List.forall_mem_nil _⟩, by decide,
      fun _ => atomChar_of_mem_exponentRepr⟩
  · exact ⟨⟨atomChar_digitChar d, hdot, fun _ => atomChar_of_mem_digitChars⟩, by decide,
      fun _ => atomChar_of_mem_exponentRepr⟩
  · exact ⟨⟨hzero, hdot, fun _ => atomChar_of_mem_replicate⟩, fun _ => atomChar_of_mem_digitChars⟩
  · exact ⟨⟨fun _ => atomChar_of_mem_digitChars, fun _ => atomChar_of_mem_replicate⟩, hdot, hzero,
      List.forall_mem_nil _⟩
  · exact ⟨fun _ => atomChar_of_mem_digitChars, hdot, fun _ => atomChar_of_mem_digitChars⟩

theorem decRepr_ne_nil (d : Fin 10) (ds : List (Fin 10)) (decpt : ℤ) :
    PyFloat.decRepr d ds decpt ≠ [] := by
  rw [PyFloat.decRepr]
  split_ifs <;> simp

theorem atomChar_of_mem_floatstr {x : PyFloat} : ∀ c ∈ x.floatstr, AtomChar c := by
  cases x with
  | nan => decide
  | inf neg => cases neg <;> decide
  | dec neg d ds decpt =>
    rw [PyFloat.floatstr, List.forall_mem_append]
    refine ⟨?_, atomChar_of_mem_decRepr⟩
    split_ifs <;> decide

theorem floatstr_ne_nil (x : PyFloat) : x.floatstr ≠ [] := by
  cases x with
  | nan => decide
  | inf neg => cases neg <;> decide
  | dec neg d ds decpt => simp [PyFloat.floatstr, decRepr_ne_nil]

theorem intRepr_ne_nil (n : ℤ) : intRepr n ≠ [] := by
  cases n with
  | ofNat n => exact Nat.toDigits_ne_nil
  | negSucc n => exact List.cons_ne_nil _ _

/-! ### Strings -/

/-- Escaped text is appended to escaped text. -/
theorem Escaped.append {e e' : List Char} (h : Escaped e) (h' : Escaped e') :
    Escaped (e ++ e') := by
  induction h with
  | nil => exact h'
  | plain hq hb h0 _ ih => exact .plain hq hb h0 ih
  | escape h0 _ ih => exact .escape h0 ih

theorem Escaped.ne_nul {e : List Char} (h : Escaped e) : ∀ c ∈ e, c ≠ '\x00' := by
  induction h with
  | nil => exact List.forall_mem_nil _
  | plain _ _ h0 _ ih => exact List.forall_mem_cons.2 ⟨h0, ih⟩
  | escape h0 _ ih => exact List.forall_mem_cons.2 ⟨by decide, List.forall_mem_cons.2 ⟨h0, ih⟩⟩

theorem escaped_cons_hexDigit (n : ℕ) {e : List Char} (h : Escaped e) :
    Escaped (hexDigit n :: e) := by
  have hlt : n % 16 < 16 := Nat.mod_lt _ (by decide)
  have hex : ∀ k < 16, Nat.digitChar k ≠ '"' ∧ Nat.digitChar k ≠ '\\' ∧
      Nat.digitChar k ≠ '\x00' := by decide
  obtain ⟨hq, hb, h0⟩ := hex _ hlt
  exact .plain hq hb h0 h

theorem escaped_unicode (n : ℕ) : Escaped ('\\' :: 'u' :: hex4 n) :=
  .escape (by decide) (escaped_cons_hexDigit _ (escaped_cons_hexDigit _
    (escaped_cons_hexDigit _ (escaped_cons_hexDigit _ .nil))))

theorem escaped_escapeCodePoint (x : ℕ) : Escaped (escapeCodePoint x) := by
  rw [escapeCodePoint]
  split_ifs with hb hq _ _ _ _ _ hx
  iterate 7 exact .escape (by decide) .nil
  · have hchar : (Char.ofNat x).toNat = x := by
      have ascii : ∀ y < 0x80, (Char.ofNat y).toNat = y := by decide
      exact ascii x (by omega)
    have hne : ∀ c : Char, c.toNat ≠ x → Char.ofNat x ≠ c := fun c h h' => h (h' ▸ hchar)
    exact .plain (hne _ (Ne.symm hq)) (hne _ (Ne.symm hb)) (hne _ fun h => by simp at h; omega) .nil
  · exact escaped_unicode x
  · exact (escaped_unicode _).append (escaped_unicode _)

/-- A string is escaped. -/
theorem escaped_escape (s : PyStr) : Escaped s.escape := by
  rw [PyStr.escape]
  induction s with
  | nil => exact .nil
  | cons x s ih => exact (escaped_escapeCodePoint x).append ih

/-- The characters that stand for themselves in a string literal. -/
def Plain (c : Char) : Prop := 0x20 ≤ c.toNat ∧ c.toNat ≤ 0x7e ∧ c ≠ '"' ∧ c ≠ '\\'

instance : DecidablePred Plain := fun _ => inferInstanceAs (Decidable (_ ∧ _))

/-- A plain character stands for itself. -/
theorem escapeCodePoint_toNat {c : Char} (h : Plain c) : escapeCodePoint c.toNat = [c] := by
  obtain ⟨hl, hu, hq, hb⟩ := h
  have hq' : c.toNat ≠ 0x22 := fun h => hq (Char.toNat_inj.1 h)
  have hb' : c.toNat ≠ 0x5c := fun h => hb (Char.toNat_inj.1 h)
  rw [escapeCodePoint, if_neg hb', if_neg hq', if_neg (by omega), if_neg (by omega),
    if_neg (by omega), if_neg (by omega), if_neg (by omega), if_pos ⟨hl, hu⟩, Char.ofNat_toNat]

/-- A string of plain characters stands for itself. -/
theorem escape_ofList {s : List Char} (h : ∀ c ∈ s, Plain c) : (PyStr.ofList s).escape = s := by
  rw [PyStr.escape, PyStr.ofList, List.flatMap_map]
  induction s with
  | nil => rfl
  | cons c s ih =>
    rw [List.forall_mem_cons] at h
    rw [List.flatMap_cons, ih h.2, escapeCodePoint_toNat h.1]
    rfl

/-! ### Lists and dictionaries -/

theorem renderItems_eq_map (level : ℕ) (items : List PyJson) :
    renderItems level items = items.map (render level) := by
  induction items with
  | nil => rw [renderItems, List.map_nil]
  | cons v vs ih => rw [renderItems, ih, List.map_cons]

theorem renderMembers_eq_map (level : ℕ) (members : List (PyStr × PyJson)) :
    renderMembers level members = members.map fun m => (m.1, render level m.2) := by
  induction members with
  | nil => rw [renderMembers, List.map_nil]
  | cons m ms ih => rw [renderMembers, ih, List.map_cons]

theorem mem_newlineIndent {level : ℕ} {c : Char} (h : c ∈ newlineIndent level) :
    c = '\n' ∨ c = ' ' :=
  (List.mem_cons.1 h).imp_right fun h => (List.mem_replicate.1 h).2

/-- The characters of lines: those of the items, and layout. -/
theorem mem_lines {level : ℕ} {items : List (List Char)} {c : Char} (h : c ∈ lines level items) :
    (∃ t ∈ items, c ∈ t) ∨ c = ',' ∨ c = '\n' ∨ c = ' ' := by
  induction items with
  | nil => exact absurd h List.not_mem_nil
  | cons t ts ih =>
    simp only [lines, List.mem_append] at h
    rcases h with ((h | h) | h) | h
    · exact .inr (.inr (mem_newlineIndent h))
    · exact .inl ⟨t, List.mem_cons_self, h⟩
    · split_ifs at h
      · exact absurd h List.not_mem_nil
      · exact .inr (.inl (List.mem_singleton.1 h))
    · exact (ih h).imp_left fun ⟨t', ht', hc⟩ => ⟨t', List.mem_cons_of_mem _ ht', hc⟩

/-- The characters of a block: those of the items, brackets, and layout. -/
theorem mem_block {opening closing : Char} {level : ℕ} {items : List (List Char)} {c : Char}
    (h : c ∈ block opening closing level items) :
    (∃ t ∈ items, c ∈ t) ∨ c = opening ∨ c = closing ∨ c = ',' ∨ c = '\n' ∨ c = ' ' := by
  rw [block] at h
  split_ifs at h
  · simp only [List.mem_cons, List.not_mem_nil, or_false] at h
    grind
  · simp only [List.cons_append, List.mem_cons, List.mem_append, List.not_mem_nil,
      or_false] at h
    grind [mem_lines, mem_newlineIndent]

/-- The text of a dictionary has its members, in some order. -/
theorem render_dict (level : ℕ) (members : List (PyStr × PyJson)) :
    ∃ items, render level (dict members) = block '{' '}' level items ∧
      items.Perm (members.map fun m => member m.1 (render (level + 1) m.2)) := by
  refine ⟨_, by rw [render], ?_⟩
  have hperm := (List.perm_insertionSort (fun a b : PyStr × List Char => a.1 ≤ b.1)
    (renderMembers (level + 1) members)).map fun m => member m.1 m.2
  rw [renderMembers_eq_map, List.map_map] at hperm
  rw [sortMembers, renderMembers_eq_map]
  exact hperm

/-- What holds of atoms and string literals, and is kept by putting members and blocks
    together, holds of every text. -/
theorem render_induction {P : List Char → Prop} {Q : PyStr → Prop}
    (atom : ∀ w, w ≠ [] → (∀ c ∈ w, AtomChar c) → P w)
    (string : ∀ s : PyStr, P s.encode)
    (member : ∀ k t, Q k → P t → P (member k t))
    (block : ∀ opening closing, Brackets opening closing → ∀ level items,
      (∀ t ∈ items, P t) → P (block opening closing level items))
    {v : PyJson} (hv : v.Keys Q) : ∀ level, P (render level v) := by
  induction hv with
  | null =>
    intro level
    rw [render]
    exact atom _ (by decide) (by decide)
  | bool b =>
    intro level
    rw [render]
    cases b <;> exact atom _ (by decide) (by decide)
  | int n =>
    intro level
    rw [render]
    exact atom _ (intRepr_ne_nil n) fun _ => atomChar_of_mem_intRepr
  | float x =>
    intro level
    rw [render]
    exact atom _ (floatstr_ne_nil x) atomChar_of_mem_floatstr
  | str s =>
    intro level
    rw [render]
    exact string s
  | list _ ih =>
    intro level
    rw [render, renderItems_eq_map]
    refine block _ _ .list level _ fun t ht => ?_
    obtain ⟨v, hv, rfl⟩ := List.mem_map.1 ht
    exact ih v hv _
  | dict hkeys _ ih =>
    intro level
    obtain ⟨items, hitems, hperm⟩ := render_dict level _
    rw [hitems]
    refine block _ _ .dict level _ fun t ht => ?_
    obtain ⟨m, hm, rfl⟩ := List.mem_map.1 (hperm.mem_iff.1 ht)
    exact member _ _ (hkeys m hm) (ih m hm _)

end PyJson
