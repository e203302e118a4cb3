import CgroupResearch.Lib.Prefix
import CgroupResearch.Policy

/-!
# The lines of the configuration

`policy_load_config` reads the names of the protected commands, one on each line, with a
buffer of 256 bytes, and takes what each `fgets` leaves in it for a line. A line of 255 bytes
or more comes in several pieces. After the first that is not blank, a piece with something
other than a comment in it is one more name; and if the line is cut within its first 15
bytes, or in the white space after them, the name is cut too.

* `lineEntry`: the name on a line, as it is meant;
* `policyLoadConfig_eq`: what is loaded are the names on the pieces;
* `takes_pieces_iff`: when the pieces of a line give its name;
* `reads_line_by_line_iff`: when a text is read line by line.
-/

namespace CgroupResearch

open CString

/-- The name on a line of the configuration, if there is one: the line without the white space
    around it, unless it is empty or a comment, cut to the length of a command name. -/
def lineEntry (line : List Char) : Option (List Char) :=
  match strip line with
  | [] => none
  | c :: cs => if c = '#' then none else some ((c :: cs).take (taskCommLen - 1))

/-- The configuration is read line by line: after each line, the list has the names on the
    lines so far, at most 128 of them. A process is protected iff its name is in the list. -/
structure ReadsLineByLine (content : List Char) : Prop where
  loaded : ∀ before after, textLines content [] = before ++ after →
    policyLoadConfig before.flatten = (before.filterMap lineEntry).take maxProtected
  protected_iff : ∀ p : ProcInfo, policyIsProtected (policyLoadConfig content) p = true ↔
    p.comm ∈ ((textLines content []).filterMap lineEntry).take maxProtected

/-- What has to hold of the pieces of a line, with room for `room` names. From the first that
    is not blank on, if there is room: those after it are blank or comments (also if they would
    be one name more than fits); and if the first begins a name, it holds all 15 bytes of it,
    or there is nothing after it. -/
def PiecesIntact (room : ℕ) (ps : List (List Char)) : Prop :=
  match ps.dropWhile blank with
  | [] => True
  | p :: ps =>
    room = 0 ∨
      if (strip p).head? = some '#' then
        ∀ q ∈ ps, lineEntry q = none
      else
        (taskCommLen - 1 ≤ (strip p).length ∨ ∀ q ∈ ps, blank q = true) ∧
          (room = 1 ∨ ∀ q ∈ ps, lineEntry q = none)

/-- A line is not cut where it matters, given the lines before it. -/
def LineIntact (before : List (List Char)) (line : List Char) : Prop :=
  PiecesIntact (maxProtected - (before.filterMap lineEntry).length) (pieces 255 line)

/-! ## The name on a line in pieces -/

section

variable {p : List Char} {ps : List (List Char)}

theorem lineEntry_of_blank (h : blank p = true) : lineEntry p = none := by
  rw [lineEntry, strip_eq_nil_iff.2 h]

theorem lineEntry_congr {s t : List Char} (h : strip s = strip t) : lineEntry s = lineEntry t := by
  rw [lineEntry, h, lineEntry]

theorem lineEntry_eq_none {s : List Char} (h : (strip s).head? = some '#') :
    lineEntry s = none := by
  rw [lineEntry]
  cases hs : strip s with
  | nil => rfl
  | cons c cs =>
    rw [hs] at h
    exact if_pos (Option.some.inj h)

/-- Any other line is an entry, cut to the length of a name. -/
theorem lineEntry_eq_some {s : List Char} (hs : strip s ≠ []) (h : (strip s).head? ≠ some '#') :
    lineEntry s = some ((strip s).take (taskCommLen - 1)) := by
  rw [lineEntry]
  cases hstrip : strip s with
  | nil => exact absurd hstrip hs
  | cons c cs =>
    rw [hstrip] at h
    exact if_neg fun hc => h (congrArg some hc)

theorem blank_flatten : blank ps.flatten = true ↔ ∀ q ∈ ps, blank q = true := by
  simp only [blank_iff, List.mem_flatten]
  constructor
  · exact fun h q hq c hc => h c ⟨q, hq, hc⟩
  · rintro h c ⟨q, hq, hc⟩
    exact h q hq c hc

/-- A text that goes on after its first part. -/
theorem strip_append_eq {s : List Char} (hp : blank p = false) (hs : blank s = false) :
    ∃ v, v ≠ [] ∧ strip (p ++ s) = strip p ++ v := by
  obtain ⟨w, hw⟩ := List.rdropWhile_prefix isspace (p.dropWhile isspace)
  refine ⟨w ++ s.rdropWhile isspace, ?_, ?_⟩
  · refine List.append_ne_nil_of_right_ne_nil w fun hnil => ?_
    rw [List.rdropWhile_eq_nil_iff, ← blank_iff, hs] at hnil
    exact Bool.false_ne_true hnil
  · rw [strip_append hp hs, strip, ← List.append_assoc, hw]

theorem take_eq_take_append_iff {a v : List Char} (hv : v ≠ []) (n : ℕ) :
    a.take n = (a ++ v).take n ↔ n ≤ a.length := by
  constructor
  · intro h
    have hlen := congrArg List.length h
    have hpos := List.length_pos_iff.2 hv
    rw [List.length_take, List.length_take, List.length_append] at hlen
    omega
  · intro h
    rw [List.take_append_of_le_length h]

theorem take_cons_eq_iff {α : Type} {a b : α} {l : List α} (room : ℕ) :
    (a :: l).take room = [b].take room ↔ room = 0 ∨ a = b ∧ (room = 1 ∨ l = []) := by
  cases room with
  | zero => simp
  | succ room => simp [List.take_eq_nil_iff]

/-- The name on a line whose first piece is not blank. -/
theorem takes_piece_iff (hp : blank p = false) (room : ℕ) :
    ((p :: ps).filterMap lineEntry).take room =
        (lineEntry (p :: ps).flatten).toList.take room ↔
      PiecesIntact room (p :: ps) := by
  have hne : strip p ≠ [] := by simp [strip_eq_nil_iff, hp]
  have hblank : (∀ q ∈ ps, blank q = true) → ∀ q ∈ ps, lineEntry q = none :=
    fun h q hq => lineEntry_of_blank (h q hq)
  rw [PiecesIntact, List.dropWhile_cons_of_neg (by simp [hp]), List.flatten_cons]
  dsimp only
  cases hs : blank ps.flatten with
  | true =>
    -- nothing comes after the first piece
    have hrest := hblank (blank_flatten.1 hs)
    rw [lineEntry_congr (strip_append_blank p hs), List.filterMap_cons,
      List.filterMap_eq_nil_iff.2 hrest]
    refine iff_of_true (by cases lineEntry p <;> rfl) (.inr ?_)
    split_ifs
    · exact hrest
    · exact ⟨.inr (blank_flatten.1 hs), .inr hrest⟩
  | false =>
    obtain ⟨v, hv, hwhole⟩ := strip_append_eq hp hs
    have hhead : (strip (p ++ ps.flatten)).head? = (strip p).head? := by
      rw [hwhole, List.head?_append_of_ne_nil _ hne]
    have hnotall : ¬∀ q ∈ ps, blank q = true := by
      rw [← blank_flatten, hs]
      exact Bool.false_ne_true
    by_cases hcomment : (strip p).head? = some '#'
    · rw [if_pos hcomment, List.filterMap_cons_none (lineEntry_eq_none hcomment),
        lineEntry_eq_none (hhead.trans hcomment), ← List.filterMap_eq_nil_iff]
      simp [List.take_eq_nil_iff]
    · have hname := lineEntry_eq_some hne hcomment
      have hname' := lineEntry_eq_some (s := p ++ ps.flatten)
        (by rw [hwhole]; exact List.append_ne_nil_of_left_ne_nil hne v) (by rwa [hhead])
      rw [if_neg hcomment, List.filterMap_cons_some hname, hname', Option.toList_some,
        take_cons_eq_iff, hwhole, take_eq_take_append_iff hv, List.filterMap_eq_nil_iff]
      simp only [hnotall, or_false]

/-- The pieces of a line give its name, as far as there is room, iff they are intact. -/
theorem takes_pieces_iff (ps : List (List Char)) (room : ℕ) :
    (ps.filterMap lineEntry).take room = (lineEntry ps.flatten).toList.take room ↔
      PiecesIntact room ps := by
  induction ps with
  | nil => simp [PiecesIntact, lineEntry, strip]
  | cons p ps ih =>
    cases hp : blank p with
    | false => exact takes_piece_iff hp room
    | true =>
      rw [List.filterMap_cons_none (lineEntry_of_blank hp), List.flatten_cons,
        lineEntry_congr (strip_blank_append hp _), ih, PiecesIntact, PiecesIntact,
        List.dropWhile_cons_of_pos hp]

end

/-! ## What is loaded -/

/-- What `fgets` can leave in the buffer: no NUL or carriage return, and a newline at the end
    only. -/
structure ReadPiece (q : List Char) : Prop where
  nul : '\x00' ∉ q
  cr : '\r' ∉ q
  newline : '\n' ∉ q.dropLast

section

variable {q : List Char}

/-- `trim_line` removes the white space around a piece. -/
theorem ReadPiece.trimLine_eq (h : ReadPiece q) : trimLine q = strip q := by
  rw [trimLine, cstr_eq_self h.nul]
  rcases List.eq_nil_or_concat q with rfl | ⟨s, c, rfl⟩
  · rfl
  · rw [List.concat_eq_append] at h ⊢
    have hnewline := h.newline
    rw [List.dropLast_concat] at hnewline
    have hs : ∀ d ∈ s, (decide (d ≠ '\r' ∧ d ≠ '\n')) = true := by
      intro d hd
      refine decide_eq_true ⟨?_, ?_⟩
      · rintro rfl
        exact h.cr (List.mem_append_left _ hd)
      · rintro rfl
        exact hnewline hd
    rw [List.takeWhile_append_of_pos hs]
    by_cases hc : c = '\n'
    · -- the newline is cut off, and would be white space at the end
      subst hc
      rw [strip_append_blank s (by decide), List.takeWhile_cons_of_neg (by decide),
        List.append_nil, strip]
    · have hcr : c ≠ '\r' := fun hcr => h.cr (by simp [hcr])
      rw [List.takeWhile_cons_of_pos (by simp [hc, hcr]), List.takeWhile_nil, strip]

theorem ReadPiece.of_infix {line : List Char} (h : ReadPiece line) (hq : q <:+: line) :
    ReadPiece q where
  nul hmem := h.nul (hq.subset hmem)
  cr hmem := h.cr (hq.subset hmem)
  newline := by
    obtain ⟨a, b, rfl⟩ := hq
    intro hmem
    refine h.newline ?_
    by_cases hb : b = []
    · subst hb
      have hne : q ≠ [] := by
        rintro rfl
        cases hmem
      rw [List.append_nil, List.dropLast_append_of_ne_nil hne]
      exact List.mem_append_right _ hmem
    · rw [List.dropLast_append_of_ne_nil hb]
      exact List.mem_append_left _ (List.mem_append_right _ ((List.dropLast_sublist q).subset hmem))

/-- A piece that is read adds its entry, while there is room. -/
theorem ReadPiece.loadLine_eq (h : ReadPiece q) {protectedComm : List (List Char)}
    (hlen : protectedComm.length ≤ maxProtected) :
    policyLoadLine protectedComm q = (protectedComm ++ (lineEntry q).toList).take maxProtected := by
  have hself : protectedComm.take maxProtected = protectedComm := List.take_of_length_le hlen
  rw [policyLoadLine, h.trimLine_eq, lineEntry]
  cases hstrip : strip q with
  | nil => rw [Option.toList_none, List.append_nil, hself]
  | cons c cs =>
    dsimp only
    by_cases hcomment : c = '#'
    · rw [if_pos hcomment, if_pos hcomment, Option.toList_none, List.append_nil, hself]
    · rw [if_neg hcomment, if_neg hcomment, Option.toList_some, List.take_append, hself]
      split_ifs with hfull
      · rw [Nat.sub_eq_zero_of_le hfull, List.take_zero, List.append_nil]
      · have hnul : '\x00' ∉ c :: cs := by
          rw [← hstrip]
          exact fun hmem => h.nul (strip_subset q hmem)
        rw [snprintfString, cstr_eq_self hnul, List.take_of_length_le (l := [_]) (by simp; omega)]

theorem take_take_append {α : Type} (n : ℕ) (a b : List α) :
    (a.take n ++ b).take n = (a ++ b).take n := by
  rw [List.take_append, List.take_append, List.take_take, Nat.min_self, List.length_take]
  congr 2
  omega

/-- The pieces add their entries one after the other, while there is room. -/
theorem foldl_policyLoadLine {qs : List (List Char)} (h : ∀ q ∈ qs, ReadPiece q)
    {protectedComm : List (List Char)} (hlen : protectedComm.length ≤ maxProtected) :
    qs.foldl policyLoadLine protectedComm =
      (protectedComm ++ qs.filterMap lineEntry).take maxProtected := by
  induction qs generalizing protectedComm with
  | nil => rw [List.foldl_nil, List.filterMap_nil, List.append_nil, List.take_of_length_le hlen]
  | cons q qs ih =>
    have hq := (h q List.mem_cons_self).loadLine_eq hlen
    have hcons : (q :: qs).filterMap lineEntry =
        (lineEntry q).toList ++ qs.filterMap lineEntry := by
      rw [List.filterMap_cons]
      cases lineEntry q <;> rfl
    rw [List.foldl_cons, hq, ih (fun q' hq' => h q' (List.mem_cons_of_mem _ hq'))
      (by rw [List.length_take]; omega), hcons, ← List.append_assoc,
      take_take_append]

end

/-! ## Line by line -/

section

variable {content : List Char}

/-- The text has no NUL and no carriage return. -/
structure PlainText (content : List Char) : Prop where
  nul : '\x00' ∉ content
  cr : '\r' ∉ content

theorem PlainText.readPiece (h : PlainText content) {line : List Char}
    (hline : line ∈ textLines content []) : ReadPiece line := by
  have hsub : line ⊆ content := by
    intro c hc
    rw [← flatten_textLines content]
    exact List.mem_flatten_of_mem hline hc
  exact ⟨fun hmem => h.nul (hsub hmem), fun hmem => h.cr (hsub hmem),
    newline_notMem_dropLast hline⟩

/-- What is loaded of the first lines of a text are the names on their pieces. -/
theorem policyLoadConfig_eq (h : PlainText content) {before after : List (List Char)}
    (hlines : textLines content [] = before ++ after) :
    policyLoadConfig before.flatten =
      ((before.flatMap (pieces 255)).filterMap lineEntry).take maxProtected := by
  rw [policyLoadConfig, fgetsLines_eq_flatMap_pieces (by decide : 0 < 255),
    textLines_flatten hlines, foldl_policyLoadLine _ (Nat.zero_le _), List.nil_append]
  intro q hq
  obtain ⟨line, hline, hq⟩ := List.mem_flatMap.1 hq
  have hread := h.readPiece (hlines ▸ List.mem_append_left after hline)
  obtain ⟨k, -, rfl⟩ := (mem_pieces (by decide)).1 hq
  exact hread.of_infix ((List.take_prefix _ _).isInfix.trans (List.drop_suffix _ _).isInfix)

/-- After lines that were read right, the next one is read right iff it is not cut where it
    matters. -/
theorem loaded_concat_iff {before : List (List Char)} (line : List Char)
    (hbefore : ((before.flatMap (pieces 255)).filterMap lineEntry).take maxProtected =
      (before.filterMap lineEntry).take maxProtected) :
    (((before ++ [line]).flatMap (pieces 255)).filterMap lineEntry).take maxProtected =
        ((before ++ [line]).filterMap lineEntry).take maxProtected ↔
      LineIntact before line := by
  have hroom : maxProtected - ((before.flatMap (pieces 255)).filterMap lineEntry).length =
      maxProtected - (before.filterMap lineEntry).length := by
    have hlen := congrArg List.length hbefore
    rw [List.length_take, List.length_take] at hlen
    omega
  have hline : [line].filterMap lineEntry = (lineEntry line).toList := by
    rw [List.filterMap_cons]
    cases lineEntry line <;> rfl
  rw [List.flatMap_append, List.filterMap_append, List.filterMap_append, List.take_append,
    List.take_append, hbefore, hroom, List.append_cancel_left_eq, List.flatMap_singleton, hline,
    LineIntact, ← takes_pieces_iff, flatten_pieces (by decide)]

/-- A line that fits the buffer is not cut. -/
theorem lineIntact_of_short {before : List (List Char)} {line : List Char}
    (h : line.length ≤ 255) : LineIntact before line := by
  rw [LineIntact, ← takes_pieces_iff, flatten_pieces (by decide)]
  by_cases hline : line = []
  · subst hline
    rfl
  · rw [pieces_eq_cons (by decide) hline, List.drop_of_length_le h, pieces_nil (by decide),
      List.take_of_length_le h, List.filterMap_cons]
    cases lineEntry line <;> rfl

theorem loaded_iff (lines : List (List Char)) :
    (∀ before after, lines = before ++ after →
      ((before.flatMap (pieces 255)).filterMap lineEntry).take maxProtected =
        (before.filterMap lineEntry).take maxProtected) ↔
      EachAfter LineIntact lines := by
  induction lines using List.reverseRecOn with
  | nil =>
    refine ⟨fun _ => EachAfter.nil, fun _ before after h => ?_⟩
    obtain ⟨rfl, -⟩ := List.append_eq_nil_iff.1 h.symm
    rfl
  | append_singleton lines line ih =>
    rw [EachAfter.concat_iff, ← ih]
    constructor
    · intro h
      have hlines : ∀ before after, lines = before ++ after → _ := fun before after hl =>
        h before (after ++ [line]) (by rw [hl, List.append_assoc])
      exact ⟨hlines, (loaded_concat_iff line (hlines lines [] (List.append_nil _).symm)).1
        (h (lines ++ [line]) [] (List.append_nil _).symm)⟩
    · rintro ⟨hlines, hline⟩ before after hl
      rcases List.eq_nil_or_concat after with rfl | ⟨after, x, rfl⟩
      · rw [List.append_nil] at hl
        subst hl
        exact (loaded_concat_iff line (hlines lines [] (List.append_nil _).symm)).2 hline
      · rw [List.concat_eq_append, ← List.append_assoc] at hl
        exact hlines before after (List.append_inj' hl rfl).1

end

/-- **When the configuration is read line by line.** A text without NUL and carriage returns is
    read line by line iff no line is cut by the buffer where it matters. -/
theorem reads_line_by_line_iff (content : List Char) (h : PlainText content) :
    ReadsLineByLine content ↔ EachAfter LineIntact (textLines content []) := by
  rw [← loaded_iff]
  constructor
  · intro hreads before after hlines
    rw [← policyLoadConfig_eq h hlines, hreads.loaded before after hlines]
  · intro hloaded
    have hreads : ∀ before after, textLines content [] = before ++ after →
        policyLoadConfig before.flatten = (before.filterMap lineEntry).take maxProtected := by
      intro before after hlines
      rw [policyLoadConfig_eq h hlines, hloaded before after hlines]
    refine ⟨hreads, fun p => ?_⟩
    have hall := hreads (textLines content []) [] (List.append_nil _).symm
    rw [flatten_textLines] at hall
    rw [policyIsProtected, hall, List.any_eq_true]
    simp only [decide_eq_true_eq, exists_eq_right']

/-- A file of two lines. -/
theorem reads_line_by_line_two : ReadsLineByLine "# names\n  bash\n".toList := by
  refine (reads_line_by_line_iff _ ⟨by decide, by decide⟩).2 fun before line after hlines => ?_
  have hshort : ∀ l ∈ textLines "# names\n  bash\n".toList [], l.length ≤ 255 := by decide
  exact lineIntact_of_short (hshort line (by rw [hlines]; simp))

/-- A comment of 255 bytes and more text: the rest of the line is loaded as a name. -/
theorem long_comment_gives_name :
    ¬ReadsLineByLine ('#' :: List.replicate 254 '-' ++ "evil\n".toList) := by
  intro h
  have hloaded := h.loaded (textLines ('#' :: List.replicate 254 '-' ++ "evil\n".toList) []) []
    (List.append_nil _).symm
  rw [flatten_textLines] at hloaded
  exact absurd hloaded (by decide +kernel)

end CgroupResearch
