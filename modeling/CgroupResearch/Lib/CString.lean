import Mathlib.Data.List.DropRight

/-!
# C strings

A C buffer is the list of its bytes, a byte `b` being the character of code
`b`; the string it holds ends before the first NUL (`cstr`). Character classes
are those of the C locale.
-/

namespace CString

/-- What holds of all the bytes of a buffer is decided along the buffer, not over all the
    characters there are. -/
instance (priority := high) decidableForallMem {p : Char → Prop} [DecidablePred p]
    (s : List Char) : Decidable (∀ c ∈ s, p c) := List.decidableBAll p s

instance (priority := high) decidableExistsMem {p : Char → Prop} [DecidablePred p]
    (s : List Char) : Decidable (∃ c ∈ s, p c) := List.decidableBEx p s

/-- The string held by a buffer: its bytes before the first NUL. -/
def cstr (s : List Char) : List Char := s.takeWhile (· ≠ '\x00')

/-- A string ends at its first zero. -/
theorem cstr_append {p : List Char} (hp : '\x00' ∉ p) (rest : List Char) :
    cstr (p ++ rest) = p ++ cstr rest := by
  rw [cstr, List.takeWhile_append_of_pos, cstr]
  intro c hc
  simpa using fun h : c = '\x00' => hp (h ▸ hc)

theorem cstr_eq_self {s : List Char} (h : '\x00' ∉ s) : cstr s = s := by
  have happend := cstr_append h []
  rw [List.append_nil] at happend
  exact happend.trans (List.append_nil s)

/-- `bounded_strlen`, as several of the sources define it: the length of the string, as
    far as it lies in the first `cap` bytes. -/
def boundedStrlen (s : List Char) (cap : ℕ) : ℕ := (cstr (s.take cap)).length

/-- What `snprintf(dst, cap, "%s", s)` leaves in `dst`: the string `s`, cut to
    the `cap - 1` bytes that fit before the terminator. -/
def snprintfString (cap : ℕ) (s : List Char) : List Char := (cstr s).take (cap - 1)

/-- `isspace`. -/
def isspace (c : Char) : Bool :=
  c = ' ' || c = '\t' || c = '\n' || c = '\x0b' || c = '\x0c' || c = '\r'

/-- The successive buffers that `fgets` with a buffer of `cap` bytes reads from
    a file: each ends after a newline, or when the buffer is full. `line` is what
    the current one holds so far, last byte first. -/
def fgetsLines (cap : ℕ) : List Char → (line : List Char) → List (List Char)
  | [], [] => []
  | [], line => [line.reverse]
  | c :: cs, line =>
    if c = '\n' ∨ cap ≤ line.length + 2 then
      (c :: line).reverse :: fgetsLines cap cs []
    else
      fgetsLines cap cs (c :: line)

/-- The lines of a text, each with its newline. `line` is what the current one holds so
    far, last byte first. -/
def textLines : List Char → (line : List Char) → List (List Char)
  | [], [] => []
  | [], line => [line.reverse]
  | c :: cs, line =>
    if c = '\n' then (c :: line).reverse :: textLines cs [] else textLines cs (c :: line)

/-- The current line is the first of those left, and holds what it held so far. -/
theorem exists_textLines_head (cs : List Char) (c : Char) (line : List Char) :
    ∃ l ∈ textLines cs (c :: line), line.length + 1 ≤ l.length := by
  induction cs generalizing c line with
  | nil => exact ⟨_, List.mem_singleton_self _, by simp⟩
  | cons d cs ih =>
    rw [textLines]
    split
    · exact ⟨_, List.mem_cons_self, by simp⟩
    · obtain ⟨l, hl, hlen⟩ := ih d (c :: line)
      exact ⟨l, hl, (Nat.le_succ _).trans hlen⟩

/-- A line ends at the first newline. -/
theorem textLines_cons_line {l : List Char} (h : '\n' ∉ l) (cs line : List Char) :
    textLines (l ++ '\n' :: cs) line = (line.reverse ++ l ++ ['\n']) :: textLines cs [] := by
  induction l generalizing line with
  | nil => simp [textLines]
  | cons c l ih =>
    rw [List.mem_cons, not_or] at h
    rw [List.cons_append, textLines, if_neg (Ne.symm h.1), ih h.2]
    simp

/-- `fgets` reads line by line if every line fits its buffer. -/
theorem fgetsLines_eq_textLines {cap : ℕ} (cs line : List Char)
    (h : ∀ l ∈ textLines cs line, l.length < cap) : fgetsLines cap cs line = textLines cs line := by
  induction cs generalizing line with
  | nil => cases line <;> rfl
  | cons c cs ih =>
    rw [fgetsLines, textLines]
    rw [textLines] at h
    by_cases hc : c = '\n'
    · rw [if_pos hc] at h
      rw [if_pos (.inl hc), if_pos hc, ih [] fun l hl => h l (List.mem_cons_of_mem _ hl)]
    · rw [if_neg hc] at h
      rw [if_neg hc]
      by_cases hfull : cap ≤ line.length + 2
      · -- the buffer is full: the text must end here
        rw [if_pos (.inr hfull)]
        cases cs with
        | nil => rfl
        | cons d ds =>
          exfalso
          rw [textLines] at h
          split at h
          · have := h _ List.mem_cons_self
            simp at this
            omega
          · obtain ⟨l, hl, hlen⟩ := exists_textLines_head ds d (c :: line)
            have := h l hl
            simp at hlen
            omega
      · rw [if_neg (not_or.2 ⟨hc, hfull⟩), ih (c :: line) h]

/-- `fgets` reads something iff there is something to read. -/
theorem fgetsLines_eq_nil_iff {cap : ℕ} {cs line : List Char} :
    fgetsLines cap cs line = [] ↔ cs = [] ∧ line = [] := by
  induction cs generalizing line with
  | nil => cases line <;> simp [fgetsLines]
  | cons c cs ih =>
    rw [fgetsLines]
    split <;> simp [ih]

/-! ## Lines longer than the buffer -/

/-- A text cut into pieces of `n` bytes, the last one with what is left. -/
def pieces (n : ℕ) (s : List Char) : List (List Char) :=
  (List.range ((s.length + n - 1) / n)).map fun k => (s.drop (n * k)).take n

theorem pieces_nil {n : ℕ} (hn : 0 < n) : pieces n [] = [] := by
  have hzero : (List.length ([] : List Char) + n - 1) / n = 0 :=
    Nat.div_eq_of_lt (by rw [List.length_nil]; omega)
  rw [pieces, hzero]
  rfl

theorem pieces_eq_cons {n : ℕ} (hn : 0 < n) {s : List Char} (hs : s ≠ []) :
    pieces n s = s.take n :: pieces n (s.drop n) := by
  have hpos : 0 < s.length := List.length_pos_iff.2 hs
  have hcount : (s.length + n - 1) / n = ((s.drop n).length + n - 1) / n + 1 := by
    rw [List.length_drop]
    rcases Nat.lt_or_ge n s.length with hlt | hge
    · rw [← Nat.add_div_right _ hn]
      congr 1
      omega
    · rw [Nat.sub_eq_zero_of_le hge, Nat.div_eq_of_lt (by omega : 0 + n - 1 < n)]
      exact Nat.div_eq_of_lt_le (by omega) (by omega)
  rw [pieces, hcount, List.range_succ_eq_map, List.map_cons, List.map_map, pieces]
  congr 1
  refine List.map_congr_left fun k _ => ?_
  rw [Function.comp_apply, List.drop_drop, Nat.mul_succ, Nat.add_comm]

/-- The pieces make up the text. -/
theorem flatten_pieces {n : ℕ} (hn : 0 < n) (s : List Char) : (pieces n s).flatten = s := by
  induction hlen : s.length using Nat.strongRecOn generalizing s with
  | ind len ih =>
    by_cases hs : s = []
    · subst hs
      rw [pieces_nil hn]
      rfl
    · have hpos : 0 < s.length := List.length_pos_iff.2 hs
      rw [pieces_eq_cons hn hs, List.flatten_cons,
        ih (s.drop n).length (by rw [List.length_drop]; omega) _ rfl, List.take_append_drop]

/-- A piece starts at a multiple of its length. -/
theorem mem_pieces {n : ℕ} (hn : 0 < n) {s t : List Char} :
    t ∈ pieces n s ↔ ∃ k, n * k < s.length ∧ (s.drop (n * k)).take n = t := by
  rw [pieces, List.mem_map]
  refine exists_congr fun k => and_congr_left fun _ => ?_
  rw [List.mem_range, Nat.lt_iff_add_one_le, Nat.le_div_iff_mul_le hn, Nat.add_mul, Nat.mul_comm k]
  omega

/-- `fgets` on a line that fills the buffer. -/
theorem fgetsLines_full {n : ℕ} {s : List Char} (hs : s ≠ []) (h : '\n' ∉ s)
    (rest line : List Char) (hlen : line.length + s.length = n) :
    fgetsLines (n + 1) (s ++ rest) line =
      (line.reverse ++ s) :: fgetsLines (n + 1) rest [] := by
  induction s generalizing line with
  | nil => exact absurd rfl hs
  | cons c s ih =>
    rw [List.mem_cons, not_or] at h
    rw [List.length_cons] at hlen
    rw [List.cons_append, fgetsLines]
    by_cases hnil : s = []
    · subst hnil
      rw [List.length_nil] at hlen
      rw [if_pos (.inr (by omega)), List.reverse_cons]
      rfl
    · have hpos : 0 < s.length := List.length_pos_iff.2 hnil
      rw [if_neg (not_or.2 ⟨Ne.symm h.1, by omega⟩),
        ih hnil h.2 (c :: line) (by rw [List.length_cons]; omega)]
      simp

/-- `fgets` on a line that fits. -/
theorem fgetsLines_fits {n : ℕ} {s : List Char} (h : '\n' ∉ s) (rest line : List Char)
    (hlen : line.length + s.length < n) :
    fgetsLines (n + 1) (s ++ '\n' :: rest) line =
      (line.reverse ++ (s ++ ['\n'])) :: fgetsLines (n + 1) rest [] := by
  induction s generalizing line with
  | nil =>
    rw [List.nil_append, fgetsLines, if_pos (.inl rfl), List.reverse_cons]
    rfl
  | cons c s ih =>
    rw [List.mem_cons, not_or] at h
    rw [List.length_cons] at hlen
    rw [List.cons_append, fgetsLines, if_neg (not_or.2 ⟨Ne.symm h.1, by omega⟩),
      ih h.2 (c :: line) (by rw [List.length_cons]; omega)]
    simp

/-- `fgets` reads a line in pieces that fill its buffer. -/
theorem fgetsLines_line {n : ℕ} (hn : 0 < n) {s : List Char} (h : '\n' ∉ s) (rest : List Char) :
    fgetsLines (n + 1) (s ++ '\n' :: rest) [] =
      pieces n (s ++ ['\n']) ++ fgetsLines (n + 1) rest [] := by
  -- On the length of the line: what is left of it after the first piece is shorter.
  induction hlen : s.length using Nat.strongRecOn generalizing s with
  | ind len ih =>
    have hne : s ++ ['\n'] ≠ [] := by simp
    rw [pieces_eq_cons hn hne]
    rcases Nat.lt_or_ge s.length n with hlt | hge
    · rw [fgetsLines_fits h rest [] (by rwa [List.length_nil, Nat.zero_add]),
        List.take_of_length_le (by simp; omega), List.drop_of_length_le (by simp; omega),
        pieces_nil hn]
      rfl
    · have hcut : s ++ '\n' :: rest = s.take n ++ (s.drop n ++ '\n' :: rest) := by
        rw [← List.append_assoc, List.take_append_drop]
      have htake : (s.take n).length = n := by rw [List.length_take]; omega
      rw [hcut, fgetsLines_full (List.ne_nil_of_length_pos (by omega))
          (fun hmem => h (List.mem_of_mem_take hmem)) _ [] (by rw [htake, List.length_nil]; omega),
        ih (s.drop n).length (by rw [List.length_drop]; omega)
          (fun hmem => h (List.mem_of_mem_drop hmem)) rfl,
        List.take_append_of_le_length hge, List.drop_append_of_le_length hge]
      rfl

theorem textLines_last {s : List Char} (h : '\n' ∉ s) {line : List Char}
    (hne : line.reverse ++ s ≠ []) : textLines s line = [line.reverse ++ s] := by
  induction s generalizing line with
  | nil =>
    cases line with
    | nil => exact absurd rfl hne
    | cons c line =>
      rw [List.append_nil]
      rfl
  | cons c s ih =>
    rw [List.mem_cons, not_or] at h
    rw [textLines, if_neg (Ne.symm h.1), ih h.2 (by simp)]
    simp

/-- `fgets` on what is left of a text. -/
theorem fgetsLines_rest {n : ℕ} {s : List Char} (h : '\n' ∉ s) {line : List Char}
    (hne : line.reverse ++ s ≠ []) (hlen : line.length + s.length < n) :
    fgetsLines (n + 1) s line = [line.reverse ++ s] := by
  rw [fgetsLines_eq_textLines, textLines_last h hne]
  intro l hl
  rw [textLines_last h hne, List.mem_singleton] at hl
  rw [hl, List.length_append, List.length_reverse]
  omega

/-- `fgets` reads the last line, which has no newline, in the same way. -/
theorem fgetsLines_last {n : ℕ} (hn : 0 < n) {s : List Char} (h : '\n' ∉ s) :
    fgetsLines (n + 1) s [] = pieces n s := by
  induction hlen : s.length using Nat.strongRecOn generalizing s with
  | ind len ih =>
    by_cases hs : s = []
    · subst hs
      rw [pieces_nil hn, fgetsLines]
    rw [pieces_eq_cons hn hs]
    rcases Nat.lt_or_ge s.length n with hlt | hge
    · rw [fgetsLines_rest h (by simpa using hs) (by rwa [List.length_nil, Nat.zero_add]),
        List.take_of_length_le hlt.le, List.drop_of_length_le hlt.le, pieces_nil hn]
      rfl
    · have htake : (s.take n).length = n := by rw [List.length_take]; omega
      have hcut := fgetsLines_full (List.ne_nil_of_length_pos (by omega : 0 < (s.take n).length))
        (fun hmem => h (List.mem_of_mem_take hmem)) (s.drop n) []
        (by rw [htake, List.length_nil, Nat.zero_add])
      rw [List.take_append_drop] at hcut
      rw [hcut, ih (s.drop n).length (by rw [List.length_drop]; omega)
        (fun hmem => h (List.mem_of_mem_drop hmem)) rfl]
      rfl

/-- A text is a line without a newline, or one with a newline and what follows. -/
theorem exists_line (s : List Char) :
    '\n' ∉ s ∨ ∃ l rest, '\n' ∉ l ∧ s = l ++ '\n' :: rest := by
  by_cases h : '\n' ∈ s
  · obtain ⟨l, rest, hs, hl⟩ := List.eq_append_cons_of_mem h
    exact .inr ⟨l, rest, hl, hs⟩
  · exact .inl h

/-- Induction on the lines of a text, of which the last may have no newline. -/
@[elab_as_elim]
theorem lines_induction {P : List Char → Prop} (nil : P [])
    (last : ∀ s, s ≠ [] → '\n' ∉ s → P s)
    (line : ∀ l rest, '\n' ∉ l → P rest → P (l ++ '\n' :: rest)) (s : List Char) : P s := by
  induction hlen : s.length using Nat.strongRecOn generalizing s with
  | ind len ih =>
    rcases exists_line s with h | ⟨l, rest, hl, rfl⟩
    · by_cases hs : s = []
      · subst hs
        exact nil
      · exact last s hs h
    · exact line l rest hl (ih rest.length (by rw [← hlen]; simp; omega) rest rfl)

/-- `fgets` reads a text line by line, and each line in pieces that fill its buffer. -/
theorem fgetsLines_eq_flatMap_pieces {n : ℕ} (hn : 0 < n) (s : List Char) :
    fgetsLines (n + 1) s [] = (textLines s []).flatMap (pieces n) := by
  induction s using lines_induction with
  | nil => rfl
  | last s hs h =>
    rw [fgetsLines_last hn h, textLines_last h (by simpa using hs)]
    simp
  | line l rest hl ih =>
    rw [fgetsLines_line hn hl, textLines_cons_line hl, List.flatMap_cons, List.reverse_nil,
      List.nil_append, ih]

/-- The lines make up the text. -/
theorem flatten_textLines (s : List Char) : (textLines s []).flatten = s := by
  induction s using lines_induction with
  | nil => rfl
  | last s hs h =>
    rw [textLines_last h (by simpa using hs)]
    simp
  | line l rest hl ih =>
    rw [textLines_cons_line hl, List.flatten_cons, ih]
    simp

/-- A line has a newline at its end only. -/
theorem newline_notMem_dropLast {s l : List Char} (h : l ∈ textLines s []) : '\n' ∉ l.dropLast := by
  induction s using lines_induction with
  | nil => cases h
  | last s hne hs =>
    rw [textLines_last hs (by simpa using hne), List.mem_singleton, List.reverse_nil,
      List.nil_append] at h
    subst h
    exact fun hmem => hs ((List.dropLast_sublist l).subset hmem)
  | line t rest ht ih =>
    rw [textLines_cons_line ht, List.mem_cons] at h
    rcases h with rfl | h
    · simpa using ht
    · exact ih h

/-- The first lines of a text are the lines of its beginning. -/
theorem textLines_flatten {s : List Char} {before after : List (List Char)}
    (h : textLines s [] = before ++ after) : textLines before.flatten [] = before := by
  induction before generalizing s with
  | nil => rfl
  | cons line before ih =>
    rcases exists_line s with hs | ⟨l, rest, hl, rfl⟩
    · by_cases hnil : s = []
      · subst hnil
        cases h
      · rw [textLines_last hs (by simpa using hnil), List.reverse_nil, List.nil_append] at h
        obtain ⟨rfl, hrest⟩ := List.cons.inj h
        obtain ⟨rfl, -⟩ := List.append_eq_nil_iff.1 hrest.symm
        rw [List.flatten_cons, List.flatten_nil, List.append_nil,
          textLines_last hs (by simpa using hnil)]
        rfl
    · rw [textLines_cons_line hl] at h
      obtain ⟨rfl, hrest⟩ := List.cons.inj h
      rw [List.flatten_cons, List.reverse_nil, List.nil_append, List.append_assoc,
        List.singleton_append, textLines_cons_line hl, ih hrest]
      rfl

/-! ## White space around a text -/

/-- A text without the white space around it. -/
def strip (s : List Char) : List Char := (s.dropWhile isspace).rdropWhile isspace

/-- A text of white space. -/
def blank (s : List Char) : Bool := s.all isspace

theorem blank_iff {s : List Char} : blank s = true ↔ ∀ c ∈ s, isspace c = true := List.all_eq_true

/-- Dropping space at the end stops in the last part that is not blank. -/
theorem rdropWhile_append {p s : List Char} :
    (p ++ s).rdropWhile isspace =
      if blank s = true then p.rdropWhile isspace else p ++ s.rdropWhile isspace := by
  rw [List.rdropWhile, List.reverse_append, List.dropWhile_append]
  by_cases h : blank s = true
  · have hnil : (s.reverse.dropWhile isspace).isEmpty = true := by
      rw [List.isEmpty_iff, List.dropWhile_eq_nil_iff]
      exact fun c hc => blank_iff.1 h c (List.mem_reverse.1 hc)
    rw [if_pos hnil, if_pos h, List.rdropWhile]
  · have hnil : ¬(s.reverse.dropWhile isspace).isEmpty = true := by
      rw [List.isEmpty_iff, List.dropWhile_eq_nil_iff]
      exact fun hall => h (blank_iff.2 fun c hc => hall c (List.mem_reverse.2 hc))
    rw [if_neg hnil, if_neg h, List.reverse_append, List.reverse_reverse, List.rdropWhile]

/-- Dropping space in front stops in the first part that is not blank. -/
theorem dropWhile_append {p s : List Char} :
    (p ++ s).dropWhile isspace =
      if blank p = true then s.dropWhile isspace else p.dropWhile isspace ++ s := by
  rw [List.dropWhile_append]
  simp only [List.isEmpty_iff, List.dropWhile_eq_nil_iff, blank_iff]

theorem dropWhile_eq_nil_iff {s : List Char} : s.dropWhile isspace = [] ↔ blank s = true :=
  List.dropWhile_eq_nil_iff.trans blank_iff.symm

theorem blank_dropWhile {s : List Char} : blank (s.dropWhile isspace) = blank s := by
  rw [Bool.eq_iff_iff, ← dropWhile_eq_nil_iff, List.dropWhile_idempotent, dropWhile_eq_nil_iff]

/-- Nothing is left of a blank string only. -/
theorem strip_eq_nil_iff {s : List Char} : strip s = [] ↔ blank s = true := by
  rw [strip, List.rdropWhile_eq_nil_iff, ← blank_iff, blank_dropWhile]

theorem strip_subset (s : List Char) : strip s ⊆ s :=
  List.Subset.trans (List.rdropWhile_prefix _ _).subset (List.dropWhile_sublist _).subset

theorem strip_blank_append {p : List Char} (h : blank p = true) (s : List Char) :
    strip (p ++ s) = strip s := by
  rw [strip, dropWhile_append, if_pos h, strip]

theorem strip_append_blank (p : List Char) {s : List Char} (h : blank s = true) :
    strip (p ++ s) = strip p := by
  by_cases hp : blank p = true
  · rw [strip_blank_append hp, strip_eq_nil_iff.2 h, strip_eq_nil_iff.2 hp]
  · rw [strip, dropWhile_append, if_neg hp, rdropWhile_append, if_pos h, strip]

/-- White space inside a text stays. -/
theorem strip_append {p s : List Char} (hp : blank p = false) (hs : blank s = false) :
    strip (p ++ s) = p.dropWhile isspace ++ s.rdropWhile isspace := by
  rw [strip, dropWhile_append, if_neg (by simp [hp]), rdropWhile_append, if_neg (by simp [hs])]

/-! ## Conversions of `scanf` -/

/-- A white-space directive of `scanf`. -/
def scanSpace (s : List Char) : List Char := s.dropWhile isspace

/-- The conversion `%[width]s` of `scanf`: the word, and what is left. -/
def scanString (width : ℕ) (s : List Char) : Option (List Char × List Char) :=
  let s := scanSpace s
  let word := (s.takeWhile fun c => !isspace c).take width
  if word = [] then none else some (word, s.drop word.length)

/-- A character of the format that `scanf` has to match. -/
def scanLiteral (c : Char) : List Char → Option (List Char)
  | [] => none
  | d :: s => if d = c then some s else none

theorem scanSpace_word {w : List Char} (hne : w ≠ []) (hw : ∀ c ∈ w, isspace c = false)
    (s : List Char) : scanSpace (w ++ s) = w ++ s := by
  obtain ⟨c, w, rfl⟩ := List.exists_cons_of_ne_nil hne
  exact List.dropWhile_cons_of_neg (by simp [hw c List.mem_cons_self])

/-- `%[width]s` on a word with a space after it. -/
theorem scanString_word {width : ℕ} {w : List Char} (hne : w ≠ [])
    (hw : ∀ c ∈ w, isspace c = false) (hlen : w.length ≤ width) (s : List Char) :
    scanString width (w ++ ' ' :: s) = some (w, ' ' :: s) := by
  have hword : (w ++ ' ' :: s).takeWhile (fun c => !isspace c) = w := by
    rw [List.takeWhile_append_of_pos (by simpa using hw), List.takeWhile_cons_of_neg (by decide),
      List.append_nil]
  rw [scanString, scanSpace_word hne hw, hword, List.take_of_length_le hlen, if_neg hne,
    List.drop_left]

end CString
