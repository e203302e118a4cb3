import CgroupResearch.Detector.Activity

/-!
# The line of `/proc/[pid]/stat`

The kernel writes the counters of a process on one line: the pid, the name of the command in
parentheses, the state, and a sequence of integers. The name may be any text, also one with
spaces, parentheses and numbers in it. `proc_activity_sample_now` therefore takes what is
between the first opening and the last closing parenthesis for the name, and reads 21 integers
after the state, whatever else follows.

With this rule every line is read back (`stat_line_recovered`), unless the state itself is a
closing parenthesis, which no state of the kernel is.
-/

namespace CgroupResearch

open CNumber CString

/-- Integers as the line has them, each after a space. -/
def fieldsText (fs : List ℤ) : List Char := fs.flatMap fun f => ' ' :: decimal f

/-- A line of `/proc/[pid]/stat`. The fields from the fourth on are numbers of type `long long`
    (`fields`), those that count something not negative; any others may follow (`further`). -/
structure StatLine where
  pid : ℤ
  comm : List Char
  state : Char
  fields : List ℤ
  further : List ℤ
  pid_pos : 0 < pid
  comm_nul : '\x00' ∉ comm
  comm_newline : '\n' ∉ comm
  state_space : state ≠ ' '
  state_newline : state ≠ '\n'
  length_fields : 21 ≤ fields.length
  fields_range : ∀ f ∈ fields, -2 ^ 63 ≤ f ∧ f < 2 ^ 63
  counts_nonneg : ∀ i ∈ [6, 8, 10, 11, 18, 19], 0 ≤ fields.getD i 0

/-- A field of the line, by its number. The first of `fields` is the fourth. -/
def StatLine.field (l : StatLine) (k : ℕ) : ℤ := l.fields.getD (k - 4) 0

/-- What follows the state. -/
def StatLine.numbers (l : StatLine) : List Char := fieldsText l.fields ++ fieldsText l.further

/-- The text of a line, without its newline. -/
def StatLine.text (l : StatLine) : List Char :=
  decimal l.pid ++ [' '] ++ '(' :: (l.comm ++ ')' :: ' ' :: l.state :: l.numbers)

/-- A sample has what the line says. -/
structure Recovered (l : StatLine) (s : ProcActivitySample) : Prop where
  valid : s.valid = true
  pid : s.pid = l.pid
  comm : s.comm = l.comm.take 63
  state : s.state = l.state
  minflt : s.minflt.toNat = l.field 10
  majflt : s.majflt.toNat = l.field 12
  utimeTicks : s.utimeTicks.toNat = l.field 14
  stimeTicks : s.stimeTicks.toNat = l.field 15
  numThreads : s.numThreads = l.field 20
  starttimeTicks : s.starttimeTicks.toNat = l.field 22
  vsizeBytes : s.vsizeBytes.toNat = l.field 23
  rssPages : s.rssPages = l.field 24

/-! ## The name and the state -/

theorem findIdx?_of_notMem {c : Char} {pre : List Char} (h : c ∉ pre) (s : List Char) :
    (pre ++ c :: s).findIdx? (· = c) = some pre.length := by
  have hnone : pre.findIdx? (· = c) = none := by
    rw [List.findIdx?_eq_none_iff]
    intro d hd
    exact decide_eq_false fun hdc => h (hdc ▸ hd)
  rw [List.findIdx?_append, hnone, List.findIdx?_cons]
  simp

/-- The first opening and the last closing parenthesis enclose the name. -/
theorem parseStatHead_eq {pre comm numbers : List Char} {state : Char} (hpre : '(' ∉ pre)
    (hnumbers : ')' ∉ numbers) (hparen : state ≠ ')') (hspace : state ≠ ' ')
    (hnewline : state ≠ '\n') :
    parseStatHead (pre ++ '(' :: (comm ++ ')' :: ' ' :: state :: numbers)) =
      .ok (comm.take (procActivityCommMax - 1), state, numbers) := by
  have hlparen := findIdx?_of_notMem hpre (comm ++ ')' :: ' ' :: state :: numbers)
  have hrest : ')' ∉ (' ' :: state :: numbers).reverse := by
    simp [hnumbers, hparen.symm]
  have hrparen := findIdx?_of_notMem hrest (pre ++ '(' :: comm).reverse
  have hreverse : (pre ++ '(' :: (comm ++ ')' :: ' ' :: state :: numbers)).reverse =
      (' ' :: state :: numbers).reverse ++ ')' :: (pre ++ '(' :: comm).reverse := by
    simp
  have hpos : (pre ++ '(' :: (comm ++ ')' :: ' ' :: state :: numbers)).length - 1 -
      (' ' :: state :: numbers).reverse.length = pre.length + 1 + comm.length := by
    simp only [List.length_append, List.length_cons, List.length_reverse]
    omega
  have hcomm : (pre ++ '(' :: (comm ++ ')' :: ' ' :: state :: numbers)).drop (pre.length + 1) =
      comm ++ ')' :: ' ' :: state :: numbers := by
    rw [← List.drop_drop, List.drop_left]
    rfl
  have hdrop : (pre ++ '(' :: (comm ++ ')' :: ' ' :: state :: numbers)).drop
      (pre.length + 1 + comm.length + 1) = ' ' :: state :: numbers := by
    rw [Nat.add_assoc _ comm.length, ← List.drop_drop, hcomm, ← List.drop_drop, List.drop_left]
    rfl
  have hskip : skipSpaces (' ' :: state :: numbers) = state :: numbers := by
    simp [skipSpaces, hspace]
  rw [parseStatHead, hlparen, hreverse, hrparen]
  dsimp only
  rw [hpos, if_neg (by omega), hcomm, hdrop, hskip]
  dsimp only
  rw [if_neg hnewline, show pre.length + 1 + comm.length - pre.length - 1 = comm.length by omega,
    List.take_left]

/-! ## The numbers -/

theorem endsDigits_fieldsText (fs : List ℤ) {tail : List Char} (htail : EndsDigits 10 tail) :
    EndsDigits 10 (fieldsText fs ++ tail) := by
  cases fs with
  | nil => exact htail
  | cons f fs =>
    rintro c hc
    obtain rfl : ' ' = c := Option.some.inj hc
    decide

theorem skipSpaces_fieldsText (f : ℤ) (fs : List ℤ) (tail : List Char) :
    skipSpaces (fieldsText (f :: fs) ++ tail) = decimal f ++ (fieldsText fs ++ tail) := by
  obtain ⟨c, ds, hcons⟩ := List.exists_cons_of_ne_nil (decimal_ne_nil f)
  have hc : c ≠ ' ' := fun h =>
    notMem_decimal f ' ' (by decide) (by rw [hcons, h]; exact List.mem_cons_self)
  rw [fieldsText, List.flatMap_cons, ← fieldsText, List.cons_append, List.cons_append,
    List.append_assoc, skipSpaces, List.dropWhile_cons_of_pos (by decide), hcons, List.cons_append,
    List.dropWhile_cons_of_neg (by simpa using hc)]

/-- The loop reads as many numbers as it has room for. -/
theorem parseStatLoop_eq (cap : ℕ) {fs : List ℤ} (hlen : cap ≤ fs.length)
    (hrange : ∀ f ∈ fs, -2 ^ 63 ≤ f ∧ f < 2 ^ 63) {tail : List Char}
    (htail : EndsDigits 10 tail) (vals : List ℤ) :
    parseStatLoop cap (skipSpaces (fieldsText fs ++ tail)) vals = .ok (vals ++ fs.take cap) := by
  induction cap generalizing fs vals with
  | zero => rw [parseStatLoop, List.take_zero, List.append_nil]
  | succ cap ih =>
    cases fs with
    | nil => exact absurd hlen (Nat.not_succ_le_zero cap)
    | cons f fs =>
      obtain ⟨hmin, hmax⟩ := hrange f List.mem_cons_self
      have hread := strtoll_decimal hmin hmax (endsDigits_fieldsText fs htail)
      obtain ⟨c, ds, hcons⟩ := List.exists_cons_of_ne_nil (decimal_ne_nil f)
      have hhead : ¬((decimal f ++ (fieldsText fs ++ tail)).head? = none ∨
          (decimal f ++ (fieldsText fs ++ tail)).head? = some '\n') := by
        rw [hcons]
        rintro (h | h)
        · cases h
        · obtain rfl : c = '\n' := Option.some.inj h
          exact notMem_decimal f '\n' (by decide) (by rw [hcons]; exact List.mem_cons_self)
      have hlength : (decimal f).length ≠ 0 := by
        rw [hcons]
        exact Nat.succ_ne_zero _
      rw [skipSpaces_fieldsText, parseStatLoop, if_neg hhead, hread]
      dsimp only
      rw [if_neg hlength, if_neg Bool.false_ne_true, List.drop_left,
        ih (Nat.le_of_succ_le_succ hlen) fun f' hf' => hrange f' (List.mem_cons_of_mem _ hf')]
      simp

/-! ## The line -/

section

variable {l : StatLine}

/-- The characters of the numbers. -/
theorem notMem_numbers {c : Char} (hc : c ≠ ' ' ∧ c ≠ '-' ∧ isDigitOf 10 c = false) :
    c ∉ l.numbers := by
  have hfields : ∀ fs, c ∉ fieldsText fs := by
    intro fs hmem
    obtain ⟨f, -, hf⟩ := List.mem_flatMap.1 hmem
    rcases List.mem_cons.1 hf with h | h
    · exact hc.1 h
    · exact notMem_decimal f c hc.2 h
  intro hmem
  rcases List.mem_append.1 hmem with h | h
  · exact hfields _ h
  · exact hfields _ h

/-- A character that stands in no field is not in the line. -/
theorem notMem_text {c : Char} (hcomm : c ∉ l.comm) (hstate : l.state ≠ c)
    (hparens : c ≠ '(' ∧ c ≠ ')') (hc : c ≠ ' ' ∧ c ≠ '-' ∧ isDigitOf 10 c = false) :
    c ∉ l.text := by
  have hpid := notMem_decimal l.pid c hc.2
  have hnumbers := notMem_numbers (l := l) hc
  simp [StatLine.text, hpid, hc.1, hparens, hcomm, hstate.symm, hnumbers]

theorem text_append (nl : List Char) :
    l.text ++ nl =
      (decimal l.pid ++ [' ']) ++ '(' :: (l.comm ++ ')' :: ' ' :: l.state :: (l.numbers ++ nl)) := by
  simp [StatLine.text]

/-- What `fgets` reads of the text is the line, perhaps with its newline. -/
theorem fgetsLines_text (hlen : l.text.length < procActivityStatLineMax) {tail : List Char}
    (htail : tail = [] ∨ tail.head? = some '\n') :
    ∃ nl, (nl = [] ∨ nl = ['\n']) ∧
      (fgetsLines procActivityStatLineMax (l.text ++ tail) []).head? = some (l.text ++ nl) := by
  have hmax : procActivityStatLineMax = 4095 + 1 := rfl
  rw [hmax] at hlen ⊢
  have hnewline : '\n' ∉ l.text := notMem_text l.comm_newline l.state_newline (by decide) (by decide)
  have hne : l.text ≠ [] := by simp [StatLine.text]
  rcases htail with rfl | htail
  · refine ⟨[], .inl rfl, ?_⟩
    rw [List.append_nil, fgetsLines_last (by decide) hnewline, pieces_eq_cons (by decide) hne,
      List.head?_cons, List.take_of_length_le (by omega)]
  · obtain ⟨rest, rfl⟩ := List.head?_eq_some_iff.1 htail
    rw [fgetsLines_line (by decide) hnewline, pieces_eq_cons (by decide) (by simp),
      List.cons_append, List.head?_cons]
    by_cases hroom : l.text.length < 4095
    · exact ⟨['\n'], .inr rfl, by rw [List.take_of_length_le (by simp; omega)]⟩
    · -- the line fills the buffer, and its newline is left
      refine ⟨[], .inl rfl, ?_⟩
      rw [List.take_append_of_le_length (by omega), List.take_of_length_le (by omega),
        List.append_nil]

theorem checkedU64_of_nonneg {v : ℤ} (h : 0 ≤ v) : checkedU64 v = .ok (UInt64.ofNat v.toNat) :=
  if_neg (not_lt.2 h)

/-- A counter of the line, as the sample holds it. -/
theorem toNat_count {i : ℕ} (hi : i ∈ [6, 8, 10, 11, 18, 19]) :
    ((UInt64.ofNat (l.fields.getD i 0).toNat).toNat : ℤ) = l.fields.getD i 0 := by
  have hnonneg := l.counts_nonneg i hi
  have hlt : l.fields.getD i 0 < 2 ^ 63 := by
    rw [List.getD_eq_getElem?_getD]
    cases hget : l.fields[i]? with
    | none => exact (by decide : (0 : ℤ) < 2 ^ 63)
    | some f => exact (l.fields_range f (List.mem_of_getElem? hget)).2
  rw [UInt64.toNat_ofNat_of_lt' (by simp only [UInt64.size]; omega)]
  omega

/-- The line of a process is read back. -/
theorem parseStatLine_text (hparen : l.state ≠ ')') {nl : List Char} (hnl : nl = [] ∨ nl = ['\n'])
    {out : ProcActivitySample} (hout : out.pid = l.pid) :
    ∃ s, parseStatLine (l.text ++ nl) out = .ok s ∧ Recovered l s := by
  have hpre : '(' ∉ decimal l.pid ++ [' '] := by
    simp [notMem_decimal l.pid '(' (by decide)]
  have hnumbers : ')' ∉ l.numbers ++ nl := by
    rw [List.mem_append, not_or]
    refine ⟨notMem_numbers (by decide), ?_⟩
    rcases hnl with rfl | rfl <;> decide
  have hends : EndsDigits 10 nl := by
    rcases hnl with rfl | rfl
    · exact fun c hc => absurd hc (Option.not_mem_none c)
    · intro c hc
      obtain rfl : '\n' = c := Option.some.inj hc
      decide
  have hvals : parseStatValues (l.numbers ++ nl) 21 = .ok (l.fields.take 21) := by
    rw [parseStatValues, StatLine.numbers, List.append_assoc,
      parseStatLoop_eq 21 l.length_fields l.fields_range (endsDigits_fieldsText _ hends),
      List.nil_append]
  have hget : ∀ i < 21, (l.fields.take 21).getD i 0 = l.fields.getD i 0 := by
    intro i hi
    rw [List.getD_eq_getElem?_getD, List.getElem?_take_of_lt hi, List.getD_eq_getElem?_getD]
  have hcount : ∀ i ∈ [6, 8, 10, 11, 18, 19], i < 21 → checkedU64 ((l.fields.take 21).getD i 0) =
      .ok (UInt64.ofNat (l.fields.getD i 0).toNat) := by
    intro i hi hlt
    rw [hget i hlt, checkedU64_of_nonneg (l.counts_nonneg i hi)]
  rw [parseStatLine, text_append, parseStatHead_eq hpre hnumbers hparen l.state_space l.state_newline]
  dsimp only [bind, Except.bind]
  rw [hvals]
  dsimp only
  rw [if_neg (by rw [List.length_take]; have := l.length_fields; omega), statFields,
    hcount 6 (by decide) (by decide), hcount 8 (by decide) (by decide),
    hcount 10 (by decide) (by decide), hcount 11 (by decide) (by decide),
    hcount 18 (by decide) (by decide), hcount 19 (by decide) (by decide), hget 16 (by decide),
    hget 20 (by decide)]
  refine ⟨_, rfl, ?_⟩
  exact ⟨rfl, hout, rfl, rfl, toNat_count (by decide), toNat_count (by decide),
    toNat_count (by decide), toNat_count (by decide), rfl, toNat_count (by decide),
    toNat_count (by decide), rfl⟩

end

/-- **A line of `/proc/[pid]/stat` is read back**, whatever the name of the command is and
    whatever fields follow the 24th, if the state is not a closing parenthesis (nor NUL, which
    would end the line). -/
theorem stat_line_recovered (l : StatLine) (env : StatEnv) (tail : List Char)
    (hstate : l.state ≠ ')' ∧ l.state ≠ '\x00') (hlen : l.text.length < 4096)
    (hpage : 0 < env.pageSize) (hticks : 0 < env.clockTicks) (hclock : env.clock.isSome)
    (hstat : env.stat = some (l.text ++ tail)) (htail : tail = [] ∨ tail.head? = some '\n') :
    ∃ s, procActivitySampleNow env l.pid = .ok s ∧ Recovered l s := by
  obtain ⟨nl, hnl, hline⟩ := fgetsLines_text hlen htail
  have hnul : '\x00' ∉ l.text ++ nl := by
    rw [List.mem_append, not_or]
    refine ⟨notMem_text l.comm_nul hstate.2 (by decide) (by decide), ?_⟩
    rcases hnl with rfl | rfl <;> decide
  obtain ⟨⟨sec, nsec⟩, hclock⟩ := Option.isSome_iff_exists.1 hclock
  rw [procActivitySampleNow, if_neg (not_le.2 l.pid_pos),
    if_neg (not_or.2 ⟨not_le.2 hpage, not_le.2 hticks⟩), hclock, hstat]
  dsimp only [getTimeNs, Option.elim, bind, Except.bind]
  rw [hline]
  dsimp only
  rw [cstr_eq_self hnul]
  exact parseStatLine_text hstate.1 hnl rfl

/-- The line of a process in a state, with a name that looks like the rest of a line. -/
def lineInState (state : Char) (hspace : state ≠ ' ') (hnewline : state ≠ '\n') : StatLine where
  pid := 7
  comm := "a) R (1 2".toList
  state := state
  fields := List.replicate 21 5
  further := [2 ^ 64 - 1]
  pid_pos := by decide
  comm_nul := by decide
  comm_newline := by decide
  state_space := hspace
  state_newline := hnewline
  length_fields := by decide
  fields_range := by decide
  counts_nonneg := by decide

/-- A process that sleeps. -/
theorem stat_line_recovered_sleeping :
    let l := lineInState 'S' (by decide) (by decide)
    ∃ s, procActivitySampleNow ⟨4096, 100, some (1, 0), some (l.text ++ ['\n'])⟩ 7 = .ok s ∧
      Recovered l s :=
  stat_line_recovered (lineInState 'S' (by decide) (by decide)) _ ['\n'] (by decide) (by decide)
    (by decide) (by decide) rfl rfl (.inr rfl)

/-- A state that is a closing parenthesis is taken for the end of the name. -/
theorem closing_parenthesis_as_state :
    let l := lineInState ')' (by decide) (by decide)
    ¬∃ s, procActivitySampleNow ⟨4096, 100, some (1, 0), some (l.text ++ ['\n'])⟩ 7 = .ok s ∧
      Recovered l s := by
  intro l
  rintro ⟨s, hs, -⟩
  have hfails : (procActivitySampleNow ⟨4096, 100, some (1, 0), some (l.text ++ ['\n'])⟩ 7).isOk =
      false := by decide +kernel
  rw [hs] at hfails
  cases hfails

end CgroupResearch
