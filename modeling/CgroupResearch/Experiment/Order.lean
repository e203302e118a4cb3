import CgroupResearch.Experiment.Conditions
import CgroupResearch.Lib.Tokens
import CgroupResearch.Sweep.Program

/-!
# The order of the conditions

The experiments run their conditions in an order that the command line gives: the names of the
conditions, with commas between them (`parse_order`). Every program has conditions and names of its
own, and a buffer for the text (`ConditionTable`).

An order is accepted if it names every condition once, and no other text is (`parse_order_accepts`).
As `strtok_r` takes several commas for one, and passes over those at the ends, a text may have more
of them than it needs.

* `strtokComma_spec`: the tokens one by one are those of the text;
* `orderLoop_eq_some_iff`: the loop, from any point on.
-/

namespace CgroupResearch

open Tokens

/-! ## The program -/

/-- The conditions of a program with their names, in the order of the source, and the size of the
    buffer in `parse_order`. All the names with their commas fit. -/
structure ConditionTable (C : Type) where
  entries : List (C × List Char)
  bufferBytes : ℕ
  nodup : (entries.map Prod.fst).Nodup
  names_nodup : (entries.map Prod.snd).Nodup
  complete : ∀ c, c ∈ entries.map Prod.fst
  words : ∀ name ∈ entries.map Prod.snd, name ≠ [] ∧ ',' ∉ name
  bufferBytes_pos : 0 < bufferBytes
  fits : (entries.map fun entry => entry.2.length + 1).sum ≤ bufferBytes

/-- The delimiter of the names. -/
def isComma (c : Char) : Bool := c = ','

/-- `strtok_r` with commas as delimiters: the token, and what follows the comma behind it. -/
def strtokComma (s : List Char) : Option (List Char × List Char) :=
  let s := s.dropWhile isComma
  if s.isEmpty then none else some (s.takeWhile (!isComma ·), (s.dropWhile (!isComma ·)).drop 1)

/-- Behind a token there is less text. -/
theorem length_lt_of_strtokComma {s token rest : List Char}
    (h : strtokComma s = some (token, rest)) : rest.length < s.length := by
  rw [strtokComma] at h
  split at h
  case isTrue => cases h
  case isFalse hne =>
    cases h
    rw [List.isEmpty_iff] at hne
    have hpos := List.length_pos_iff.2 hne
    have hword := (List.dropWhile_suffix (!isComma ·) : _ <:+ s.dropWhile isComma).length_le
    have hskip := (List.dropWhile_suffix isComma : _ <:+ s).length_le
    rw [List.length_drop]
    omega

namespace ConditionTable

variable {C : Type} [DecidableEq C] (t : ConditionTable C)

/-- The conditions of the program. -/
def conditions : List C := t.entries.map Prod.fst

/-- `condition_name`. -/
def conditionName (condition : C) : List Char :=
  ((t.entries.find? fun entry => entry.1 = condition).map Prod.snd).getD "unknown".toList

/-- `condition_from_name`. -/
def conditionFromName (text : List Char) : Option C :=
  (t.entries.find? fun entry => entry.2 = text).map Prod.fst

/-- The loop of `parse_order`, with the conditions that were seen, and the order so far. -/
def orderLoop (text : List Char) (seen : C → Bool) (order : List C) : Option (List C) :=
  match _h : strtokComma text with
  | none => if order.length = t.entries.length then some order else none
  | some (token, rest) =>
    if t.entries.length ≤ order.length then
      none
    else
      match t.conditionFromName token with
      | none => none
      | some condition =>
        if seen condition then
          none
        else
          orderLoop rest (Function.update seen condition true) (order ++ [condition])
termination_by text.length
decreasing_by exact length_lt_of_strtokComma ‹_›

/-- `parse_order`. -/
def parseOrder (text : List Char) : Option (List C) :=
  if t.bufferBytes ≤ text.length then none else t.orderLoop text (fun _ => false) []

end ConditionTable

/-- The conditions of `oracle_bank_overlap.c`. -/
def overlapTable : ConditionTable OverlapCondition where
  entries := [(.none, "none".toList), (.high, "high".toList), (.low, "low".toList)]
  bufferBytes := 64
  nodup := by decide
  names_nodup := by decide
  complete condition := by cases condition <;> decide
  words := by decide
  bufferBytes_pos := by decide
  fits := by decide

/-- The conditions of `oracle_bank_overlap_sweep.c`. -/
def sweepTable : ConditionTable Condition where
  entries := [(.none, "none".toList), (.overlap0, "o0".toList), (.overlap25, "o25".toList),
    (.overlap50, "o50".toList), (.overlap75, "o75".toList), (.overlap100, "o100".toList)]
  bufferBytes := 128
  nodup := by decide
  names_nodup := by decide
  complete condition := by cases condition <;> decide
  words := by decide
  bufferBytes_pos := by decide
  fits := by decide

/-- The conditions of `oracle_selective_control.c`. -/
def selectiveTable : ConditionTable SelectiveCondition where
  entries := [(.none, "none".toList), (.uncontrolled, "uncontrolled".toList),
    (.selective, "selective".toList), (.all, "all".toList)]
  bufferBytes := 128
  nodup := by decide
  names_nodup := by decide
  complete condition := by cases condition <;> decide
  words := by decide
  bufferBytes_pos := by decide
  fits := by decide

/-- The conditions of `oracle_multicandidate_control.c`. -/
def multicandidateTable : ConditionTable MulticandidateCondition where
  entries := [(.none, "none".toList), (.uncontrolled, "uncontrolled".toList),
    (.lowestOne, "lowest".toList), (.highestOne, "highest".toList), (.top2, "top2".toList),
    (.all, "all".toList)]
  bufferBytes := 192
  nodup := by decide
  names_nodup := by decide
  complete condition := by cases condition <;> decide
  words := by decide
  bufferBytes_pos := by decide
  fits := by decide

/-- The conditions of `oracle_cpu_max_sweep.c`. -/
def cpuMaxTable : ConditionTable CpuMaxCondition where
  entries := [(.none, "none".toList), (.uncontrolled, "uncontrolled".toList),
    (.cpu75, "cpu75".toList), (.cpu50, "cpu50".toList), (.cpu25, "cpu25".toList),
    (.cpu10, "cpu10".toList)]
  bufferBytes := 192
  nodup := by decide
  names_nodup := by decide
  complete condition := by cases condition <;> decide
  words := by decide
  bufferBytes_pos := by decide
  fits := by decide

/-! ## Names -/

/-- What `strtok` does: it skips the commas, and ends the token at the next one. -/
theorem strtokComma_spec (s : List Char) :
    match strtokComma s with
    | none => tokens isComma s = []
    | some (token, rest) => tokens isComma s = token :: tokens isComma rest := by
  rw [strtokComma]
  by_cases hne : s.dropWhile isComma = []
  · rw [if_pos (List.isEmpty_iff.2 hne)]
    exact tokens_eq_nil_of_dropWhile hne
  · rw [if_neg (by rwa [List.isEmpty_iff])]
    dsimp only
    rw [tokens_of_ne_nil hne, tokens_drop_one fun c hc => ?_]
    simpa using @of_mem_head?_dropWhile _ (!isComma ·) _ c hc

/-- A search by a key that no two entries share. -/
theorem find?_eq_some_iff_of_nodup {α β : Type} [DecidableEq β] {f : α → β} {l : List α}
    (hnodup : (l.map f).Nodup) {b : β} {a : α} :
    l.find? (fun a => f a = b) = some a ↔ a ∈ l ∧ f a = b := by
  constructor
  · intro h
    exact ⟨List.mem_of_find?_eq_some h, by simpa using List.find?_some h⟩
  · rintro ⟨hmem, rfl⟩
    obtain ⟨a', ha'⟩ := Option.isSome_iff_exists.1
      (List.find?_isSome.2 ⟨a, hmem, by simp⟩ : (l.find? fun a' => f a' = f a).isSome)
    have hkey : f a' = f a := by simpa using List.find?_some ha'
    rwa [List.inj_on_of_nodup_map hnodup (List.mem_of_find?_eq_some ha') hmem hkey] at ha'

namespace ConditionTable

variable {C : Type} [DecidableEq C] (t : ConditionTable C)

theorem conditionName_mem (c : C) : (c, t.conditionName c) ∈ t.entries := by
  obtain ⟨⟨c', name⟩, hmem, rfl⟩ := List.mem_map.1 (t.complete c)
  have hfind : t.entries.find? (fun entry => entry.1 = c') = some (c', name) :=
    (find?_eq_some_iff_of_nodup t.nodup).2 ⟨hmem, rfl⟩
  rw [conditionName]
  dsimp only
  rw [hfind]
  exact hmem

/-- The names are read back, and no other text is a name. -/
theorem conditionFromName_eq_some_iff {text : List Char} {c : C} :
    t.conditionFromName text = some c ↔ text = t.conditionName c := by
  rw [conditionFromName, Option.map_eq_some_iff]
  constructor
  · rintro ⟨⟨c', name⟩, hfind, rfl⟩
    obtain ⟨hmem, rfl⟩ := (find?_eq_some_iff_of_nodup t.names_nodup).1 hfind
    exact congrArg Prod.snd (List.inj_on_of_nodup_map t.nodup hmem (t.conditionName_mem c') rfl)
  · rintro rfl
    exact ⟨(c, t.conditionName c),
      (find?_eq_some_iff_of_nodup t.names_nodup).2 ⟨t.conditionName_mem c, rfl⟩, rfl⟩

/-- The name of a condition is a word without a comma. -/
theorem conditionName_word (c : C) : t.conditionName c ≠ [] ∧ ',' ∉ t.conditionName c :=
  t.words _ (List.mem_map_of_mem (t.conditionName_mem c))

omit [DecidableEq C] in
/-- A list with no condition twice, of as many as there are, has all of them. -/
theorem perm_conditions_iff {order : List C} :
    order.Perm t.conditions ↔ order.Nodup ∧ order.length = t.entries.length := by
  constructor
  · intro h
    exact ⟨h.nodup_iff.2 t.nodup, h.length_eq.trans (List.length_map _)⟩
  · rintro ⟨hnodup, hlength⟩
    refine (hnodup.subperm fun c _ => t.complete c).perm_of_length_le ?_
    rw [List.length_map, hlength]

/-! ## The loop -/

/-- What is left of the text names what is left of the order. -/
theorem orderLoop_eq_some_iff (text : List Char) (seen : C → Bool) (order : List C)
    (hseen : ∀ c, seen c = true ↔ c ∈ order) (hnodup : order.Nodup) {out : List C} :
    t.orderLoop text seen order = some out ↔ ∃ rest, out = order ++ rest ∧
      tokens isComma text = rest.map t.conditionName ∧ out.Nodup ∧
      out.length = t.entries.length := by
  fun_induction orderLoop t text seen order with
  | case1 text seen order hstrtok hlength =>
    have htokens := strtokComma_spec text
    rw [hstrtok] at htokens
    constructor
    · intro h
      cases h
      exact ⟨[], (List.append_nil _).symm, htokens, hnodup, hlength⟩
    · rintro ⟨rest, rfl, hnames, -, -⟩
      rw [htokens] at hnames
      rw [List.map_eq_nil_iff.1 hnames.symm, List.append_nil]
  | case2 text seen order hstrtok hlength =>
    have htokens := strtokComma_spec text
    rw [hstrtok] at htokens
    refine iff_of_false (fun h => by cases h) ?_
    rintro ⟨rest, rfl, hnames, -, hcount⟩
    rw [htokens] at hnames
    rw [List.map_eq_nil_iff.1 hnames.symm, List.append_nil] at hcount
    exact hlength hcount
  | case3 text seen order token rest hstrtok hfull =>
    have htokens := strtokComma_spec text
    rw [hstrtok] at htokens
    refine iff_of_false (fun h => by cases h) ?_
    rintro ⟨names, rfl, hnames, -, hcount⟩
    rw [htokens] at hnames
    -- the names are more than the conditions
    have hlength := congrArg List.length hnames
    rw [List.length_cons, List.length_map] at hlength
    rw [List.length_append] at hcount
    omega
  | case4 text seen order token rest hstrtok hroom hname =>
    have htokens := strtokComma_spec text
    rw [hstrtok] at htokens
    refine iff_of_false (fun h => by cases h) ?_
    rintro ⟨names, -, hnames, -, -⟩
    rw [htokens] at hnames
    obtain ⟨c, names, rfl, rfl, -⟩ := List.map_eq_cons_iff.1 hnames.symm
    rw [t.conditionFromName_eq_some_iff.2 rfl] at hname
    cases hname
  | case5 text seen order token rest hstrtok hroom condition hname hagain =>
    have htokens := strtokComma_spec text
    rw [hstrtok, t.conditionFromName_eq_some_iff.1 hname] at htokens
    refine iff_of_false (fun h => by cases h) ?_
    rintro ⟨names, rfl, hnames, htwice, -⟩
    rw [htokens] at hnames
    obtain ⟨c, names, rfl, hc, -⟩ := List.map_eq_cons_iff.1 hnames.symm
    have hsame : c = condition := Option.some.inj
      ((t.conditionFromName_eq_some_iff.2 hc.symm).symm.trans
        (t.conditionFromName_eq_some_iff.2 rfl))
    rw [hsame] at htwice
    exact (List.nodup_append.1 htwice).2.2 condition ((hseen condition).1 hagain) condition
      List.mem_cons_self rfl
  | case6 text seen order token rest hstrtok hroom condition hname hnew ih =>
    have htokens := strtokComma_spec text
    rw [hstrtok, t.conditionFromName_eq_some_iff.1 hname] at htokens
    have hfresh : condition ∉ order := fun h => hnew ((hseen condition).2 h)
    have hseen' : ∀ c, Function.update seen condition true c = true ↔ c ∈ order ++ [condition] := by
      intro c
      rw [Function.update_apply, List.mem_append, List.mem_singleton]
      split
      case isTrue h => simp [h]
      case isFalse h => simp [h, hseen]
    rw [ih hseen' (List.concat_eq_append ▸ hnodup.concat hfresh)]
    constructor
    · rintro ⟨names, rfl, hnames, h⟩
      refine ⟨condition :: names, by simp, ?_, h⟩
      rw [htokens, hnames, List.map_cons]
    · rintro ⟨names, rfl, hnames, h⟩
      rw [htokens] at hnames
      obtain ⟨c, names, rfl, hc, hrest⟩ := List.map_eq_cons_iff.1 hnames.symm
      have hsame : c = condition := Option.some.inj
        ((t.conditionFromName_eq_some_iff.2 hc.symm).symm.trans
          (t.conditionFromName_eq_some_iff.2 rfl))
      rw [hsame] at h ⊢
      exact ⟨names, by simp, hrest.symm, h⟩

/-- The length of names with commas between them. -/
theorem length_intercalate_lt {names : List (List Char)} {n : ℕ}
    (h : (names.map fun name => name.length + 1).sum ≤ n) (hn : 0 < n) :
    ([','].intercalate names).length < n := by
  induction names generalizing n with
  | nil => simpa [List.intercalate] using hn
  | cons name names ih =>
    rw [List.map_cons, List.sum_cons] at h
    cases names with
    | nil =>
      simp at h ⊢
      omega
    | cons name' names =>
      rw [List.intercalate_cons_cons, List.length_append, List.length_append,
        List.length_singleton]
      have hlt := ih (le_refl _) (by simp)
      omega

/-- All the names with their commas fit the buffer, in every order. -/
theorem sum_names {order : List C} (h : order.Perm t.conditions) :
    ((order.map t.conditionName).map fun name => name.length + 1).sum ≤ t.bufferBytes := by
  have hnames : t.conditions.map t.conditionName = t.entries.map Prod.snd := by
    rw [conditions, List.map_map]
    refine List.map_congr_left fun entry hentry => ?_
    exact congrArg Prod.snd
      (List.inj_on_of_nodup_map t.nodup (t.conditionName_mem entry.1) hentry rfl)
  rw [((h.map t.conditionName).map _).sum_eq, hnames, List.map_map]
  exact t.fits

end ConditionTable

/-- For the conditions of every program: `parse_order` accepts a text if and only if it fits the
    buffer and the parts between its commas, but for the empty ones, are the names of all the
    conditions, each once; the order is theirs. And it reads back the names of any order of the
    conditions, with commas between them. -/
theorem parse_order_accepts {C : Type} [DecidableEq C] (t : ConditionTable C) (text : List Char)
    (order : List C) :
    (t.parseOrder text = some order ↔ text.length < t.bufferBytes ∧
      tokens isComma text = order.map t.conditionName ∧ order.Perm t.conditions) ∧
    (order.Perm t.conditions →
      t.parseOrder ([','].intercalate (order.map t.conditionName)) = some order) := by
  have hiff (text : List Char) : t.parseOrder text = some order ↔ text.length < t.bufferBytes ∧
      tokens isComma text = order.map t.conditionName ∧ order.Perm t.conditions := by
    rw [ConditionTable.parseOrder, t.perm_conditions_iff]
    split
    case isTrue hlong =>
      exact iff_of_false (fun h => by cases h) fun h => Nat.not_lt.2 hlong h.1
    case isFalse hshort =>
      rw [t.orderLoop_eq_some_iff text _ [] (by simp) List.nodup_nil]
      constructor
      · rintro ⟨rest, rfl, hnames, h⟩
        exact ⟨Nat.not_le.1 hshort, hnames, h⟩
      · rintro ⟨-, hnames, h⟩
        exact ⟨order, rfl, hnames, h⟩
  refine ⟨hiff text, fun hperm => (hiff _).2 ⟨?_, ?_, hperm⟩⟩
  · exact ConditionTable.length_intercalate_lt (t.sum_names hperm) t.bufferBytes_pos
  · refine tokens_intercalate (by decide) fun word hword => ?_
    obtain ⟨c, -, rfl⟩ := List.mem_map.1 hword
    obtain ⟨hne, hcomma⟩ := t.conditionName_word c
    refine ⟨hne, fun x hx => ?_⟩
    rw [isComma, decide_eq_false_iff_not]
    rintro rfl
    exact hcomma hx

/-- The sweep from the largest overlap down. -/
theorem parse_order_accepts_sweep :
    sweepTable.parseOrder "o100,o75,o50,o25,o0,none".toList =
      some [.overlap100, .overlap75, .overlap50, .overlap25, .overlap0, .none] := by
  have htext : "o100,o75,o50,o25,o0,none".toList = [','].intercalate
      ([.overlap100, .overlap75, .overlap50, .overlap25, .overlap0, .none].map
        sweepTable.conditionName) := by
    decide +kernel
  rw [htext]
  exact (parse_order_accepts sweepTable [] _).2 (by decide)

end CgroupResearch
