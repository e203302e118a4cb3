import CgroupResearch.Lib.CNumber
import CgroupResearch.Lib.CString
import CgroupResearch.Lib.DirTree
import CgroupResearch.Lib.Tokens

/-!
# The control groups of an experiment

The experiments that throttle make a control group of their own, and groups in it for the background
workers (`cgroup_context_create`). On any failure, and when they are done, they remove them again
(`cgroup_context_destroy`).

The paths and the order of the calls are those of the source. Whether the kernel grants a call, and
what the files hold that are read, is an input (`CgroupAnswers`): a `mkdir` that is granted fails
still if the directory is there, or its parent is not, and an `rmdir` if the directory is not empty.
Nobody else changes the tree of groups meanwhile. Messages are not modelled.

* `wordLoop_iff`: the controllers are looked up word by word;
* `Grown.destroy`: what is made is removed, and nothing else;
* `startContext_outcome`: up to the group of the experiment, a failure leaves nothing;
* `cgroup_context_restores`: the tree of groups after a failure, and after the experiment.
-/

namespace CgroupResearch

open CNumber CString Tokens

/-! ## The program -/

/-- `PATH_MAX`. -/
def sizeofPath : ℕ := 4096

/-- The size of the buffers for the files of controllers. -/
def sizeofControllers : ℕ := 4096

/-- The blanks of `whitespace_word_present`. -/
def isBlank (c : Char) : Bool := c = ' ' || c = '\t' || c = '\n' || c = '\r'

/-- Behind a word there is less text. -/
theorem length_lt_of_word (c : Char) (p : List Char) :
    (((c :: p).dropWhile isBlank).dropWhile (!isBlank ·)).length < (c :: p).length := by
  have hskip := (List.dropWhile_suffix isBlank : _ <:+ p).length_le
  rw [List.length_cons, List.dropWhile_cons]
  split
  case isTrue =>
    have hword := (List.dropWhile_suffix (!isBlank ·) : _ <:+ p.dropWhile isBlank).length_le
    omega
  case isFalse hc =>
    rw [List.dropWhile_cons_of_pos (by simpa using hc)]
    have hword := (List.dropWhile_suffix (!isBlank ·) : _ <:+ p).length_le
    omega

/-- The loop of `whitespace_word_present`. -/
def wordLoop (word : List Char) : List Char → Bool
  | [] => false
  | c :: p =>
    let start := (c :: p).dropWhile isBlank
    if start.takeWhile (!isBlank ·) = word then true
    else wordLoop word (start.dropWhile (!isBlank ·))
termination_by p => p.length
decreasing_by exact length_lt_of_word c p

/-- `whitespace_word_present`. -/
def whitespaceWordPresent (text word : List Char) : Bool := wordLoop word text

/-- `read_text_file`: the string that the buffer holds, of a file that can be read. -/
def readTextFile (content : Option (List Char)) (bufferSize : ℕ) : Option (List Char) :=
  content.map fun bytes => cstr (bytes.take (bufferSize - 1))

/-- The directory that a path is in. -/
def parentPath (path : List Char) : List Char := ((path.reverse.dropWhile (· ≠ '/')).drop 1).reverse

/-- Where the control groups are. -/
def cgroupRoot : List Char := "/sys/fs/cgroup".toList

/-- The tree of control groups. -/
abbrev CgroupTree := DirTree parentPath cgroupRoot

/-- `struct cgroup_context`: the paths of the groups in the group of the experiment are
    `background_path`, or `high_path` and `low_path`. -/
structure CgroupContext where
  ready : Bool
  runPath : List Char
  paths : List (List Char)
  deriving DecidableEq

/-- A context of zeros. -/
def CgroupContext.zero (count : ℕ) : CgroupContext := ⟨false, [], List.replicate count []⟩

/-- What the kernel answers: the files of controllers, and which calls it grants. -/
structure CgroupAnswers where
  subtreeControl : Option (List Char)
  makesRun : Bool
  controllers : Option (List Char)
  writesSubtree : Bool
  makes : ℕ → Bool
  removes : List Char → Bool

/-- `mkdir`. -/
def makeDirectory (granted : Bool) (path : List Char) (t : CgroupTree) : Option CgroupTree :=
  if granted then t.mkdir path else none

/-- `cgroup_context_destroy`. An empty path names nothing. -/
def cgroupContextDestroy (removes : List Char → Bool) (ctx : CgroupContext) (t : CgroupTree) :
    CgroupContext × CgroupTree :=
  if ctx.ready then
    (.zero ctx.paths.length,
      t.removeAll removes ((ctx.paths.filter (!·.isEmpty)) ++ [ctx.runPath]))
  else
    (ctx, t)

/-- What `cgroup_context_create` does between its first `mkdir` and the others: the group has the
    controller, and hands it on. -/
def enableCpu (answers : CgroupAnswers) (runPath : List Char) : Bool :=
  decide ((runPath ++ "/cgroup.controllers".toList).length < sizeofPath) &&
    (readTextFile answers.controllers sizeofControllers).any
      (whitespaceWordPresent · "cpu".toList) &&
    decide ((runPath ++ "/cgroup.subtree_control".toList).length < sizeofPath) &&
    answers.writesSubtree

/-- The loop of `cgroup_context_create` over the candidates. -/
def candidateGroups (makes : ℕ → Bool) : (i : ℕ) → (names : List (List Char)) →
    (ctx : CgroupContext) → (t : CgroupTree) → Bool × CgroupContext × CgroupTree
  | _, [], ctx, t => (true, ctx, t)
  | i, name :: names, ctx, t =>
    let path := ctx.runPath ++ '/' :: name
    let ctx := { ctx with paths := ctx.paths.set i (path.take (sizeofPath - 1)) }
    if sizeofPath ≤ path.length then
      (false, ctx, t)
    else
      match makeDirectory (makes i) path t with
      | none => (false, ctx, t)
      | some t => candidateGroups makes (i + 1) names ctx t

/-- `candidate_name`. -/
def candidateNames : List (List Char) :=
  ["o0".toList, "o25".toList, "o50".toList, "o75".toList, "o100".toList]

/-- `cgroup_context_create` of `oracle_multicandidate_control.c` and `oracle_cpu_max_sweep.c`. -/
def multicandidateContextCreate (pid : ℤ) (answers : CgroupAnswers) (t : CgroupTree) :
    ℤ × CgroupContext × CgroupTree :=
  let ctx := CgroupContext.zero candidateNames.length
  match readTextFile answers.subtreeControl sizeofControllers with
  | none => (-1, ctx, t)
  | some rootSubtree =>
    if whitespaceWordPresent rootSubtree "cpu".toList = false then
      (-1, ctx, t)
    else
      let run := "/sys/fs/cgroup/oracle_6_5e_".toList ++ decimal pid
      let ctx := { ctx with runPath := run.take (sizeofPath - 1) }
      if sizeofPath ≤ run.length then
        (-1, ctx, t)
      else
        match makeDirectory answers.makesRun ctx.runPath t with
        | none => (-1, ctx, t)
        | some t =>
          let ctx := { ctx with ready := true }
          let (made, ctx, t) :=
            if enableCpu answers ctx.runPath then
              candidateGroups answers.makes 0 candidateNames ctx t
            else
              (false, ctx, t)
          if made then (0, ctx, t) else (-1, cgroupContextDestroy answers.removes ctx t)

/-- `cgroup_context_create` of `oracle_selective_control.c`, which has all the paths before it makes
    a directory. -/
def selectiveContextCreate (pid : ℤ) (answers : CgroupAnswers) (t : CgroupTree) :
    ℤ × CgroupContext × CgroupTree :=
  let ctx := CgroupContext.zero 2
  match readTextFile answers.subtreeControl sizeofControllers with
  | none => (-1, ctx, t)
  | some rootSubtree =>
    if whitespaceWordPresent rootSubtree "cpu".toList = false then
      (-1, ctx, t)
    else
      let run := "/sys/fs/cgroup/oracle_6_5d_".toList ++ decimal pid
      let ctx := { ctx with runPath := run.take (sizeofPath - 1) }
      if sizeofPath ≤ run.length then
        (-1, ctx, t)
      else
        let high := ctx.runPath ++ "/high".toList
        let ctx := { ctx with paths := ctx.paths.set 0 (high.take (sizeofPath - 1)) }
        if sizeofPath ≤ high.length then
          (-1, ctx, t)
        else
          let low := ctx.runPath ++ "/low".toList
          let ctx := { ctx with paths := ctx.paths.set 1 (low.take (sizeofPath - 1)) }
          if sizeofPath ≤ low.length then
            (-1, ctx, t)
          else
            match makeDirectory answers.makesRun ctx.runPath t with
            | none => (-1, ctx, t)
            | some t =>
              let ctx := { ctx with ready := true }
              let fail (t : CgroupTree) := (-1, cgroupContextDestroy answers.removes ctx t)
              if enableCpu answers ctx.runPath = false then
                fail t
              else
                match makeDirectory (answers.makes 0) high t with
                | none => fail t
                | some t =>
                  match makeDirectory (answers.makes 1) low t with
                  | none => fail t
                  | some t => (0, ctx, t)

/-! ## Words and paths -/

/-- A word is found if it is one of the words of the text. -/
theorem wordLoop_iff {word : List Char} (hword : word ≠ []) (p : List Char) :
    wordLoop word p = true ↔ word ∈ tokens isBlank p := by
  fun_induction wordLoop word p with
  | case1 => simp
  | case2 c p start heq =>
    have hstart : start ≠ [] := fun h => hword (by rw [← heq, h]; rfl)
    rw [tokens_of_ne_nil hstart]
    simp [start, heq]
  | case3 c p start hne ih =>
    rw [ih]
    by_cases hstart : start = []
    · rw [tokens_eq_nil_of_dropWhile hstart, hstart]
      simp
    · rw [tokens_of_ne_nil hstart, List.mem_cons, or_iff_right fun h => hne h.symm]

/-- A name is in the directory before it. -/
theorem parentPath_append {name : List Char} (hname : '/' ∉ name) (dir : List Char) :
    parentPath (dir ++ '/' :: name) = dir := by
  have hpos : ∀ c ∈ name.reverse, (decide (c ≠ '/')) = true := by
    intro c hc
    rw [decide_eq_true_iff]
    rintro rfl
    exact hname (List.mem_reverse.1 hc)
  rw [parentPath, List.reverse_append, List.reverse_cons, List.append_assoc,
    List.dropWhile_append_of_pos hpos]
  simp

/-- A path in the group of the experiment. -/
def IsIn (run path : List Char) : Prop := ∃ name, '/' ∉ name ∧ path = run ++ '/' :: name

theorem IsIn.parent {run path : List Char} (h : IsIn run path) : parentPath path = run := by
  obtain ⟨name, hname, rfl⟩ := h
  exact parentPath_append hname run

theorem length_decimal_le {pid : ℤ} (hpid : |pid| < 2 ^ 31) : (decimal pid).length ≤ 11 := by
  have hdigits : (Nat.toDigits 10 pid.natAbs).length ≤ 10 := by
    refine Nat.toDigits_length 10 pid.natAbs 10 (by decide) ?_
    have habs := Int.natCast_natAbs pid
    omega
  rw [decimal]
  split
  · rw [List.length_cons]
    omega
  · omega

theorem IsIn.ne {run path : List Char} (h : IsIn run path) : path ≠ run ∧ path ≠ [] := by
  obtain ⟨name, -, rfl⟩ := h
  exact ⟨fun heq => by simpa using congrArg List.length heq, by simp⟩

/-! ## The groups of the experiment -/

/-- What a context has made in a tree, which are some of the directories of its paths. -/
structure Grown (t₀ : CgroupTree) (ctx : CgroupContext) (made : Finset (List Char))
    (t : CgroupTree) : Prop where
  branch : DirTree.Branch t₀ ctx.runPath made t
  run_ne : ctx.runPath ≠ parentPath cgroupRoot
  paths : ∀ path ∈ ctx.paths, path = [] ∨ IsIn ctx.runPath path
  made_mem : ∀ path ∈ made, path ∈ ctx.paths

namespace Grown

variable {t₀ t t' : CgroupTree} {ctx : CgroupContext} {made : Finset (List Char)}
  (h : Grown t₀ ctx made t)
include h

theorem notMem {path : List Char} (hpath : IsIn ctx.runPath path) : path ∉ t₀.dirs :=
  h.branch.notMem_of_parent hpath.parent fun hroot => h.run_ne (hroot ▸ hpath.parent.symm)

theorem isIn {path : List Char} (hpath : path ∈ made) : IsIn ctx.runPath path := by
  obtain ⟨hparent, hne⟩ := h.branch.parents path hpath
  refine (h.paths path (h.made_mem path hpath)).resolve_left ?_
  rintro rfl
  exact hne hparent

/-- A path in the group of the experiment is one that was made, or is not there. -/
theorem mem_made {path : List Char} (hpath : IsIn ctx.runPath path) (hmem : path ∈ t.dirs) :
    path ∈ made := by
  rcases h.branch.mem_dirs.1 hmem with heq | hmade | hold
  · exact absurd heq hpath.ne.1
  · exact hmade
  · exact absurd hold (h.notMem hpath)

/-- `cgroup_context_destroy` removes what was made, and nothing else. -/
theorem destroy (hready : ctx.ready = true) (removes : List Char → Bool) :
    t₀.dirs ⊆ (cgroupContextDestroy removes ctx t).2.dirs ∧
      ((∀ path, removes path = true) →
        (cgroupContextDestroy removes ctx t).2.dirs = t₀.dirs) := by
  have hin : ∀ path ∈ ctx.paths.filter (!·.isEmpty), IsIn ctx.runPath path := by
    intro path hpath
    obtain ⟨hmem, hne⟩ := List.mem_filter.1 hpath
    exact (h.paths path hmem).resolve_left (by simpa using hne)
  rw [cgroupContextDestroy, if_pos hready]
  refine ⟨DirTree.subset_removeAll h.branch.subset fun path hpath => ?_, fun hremoves => ?_⟩
  · rcases List.mem_append.1 hpath with hpath | hpath
    · exact h.notMem (hin path hpath)
    · rw [List.mem_singleton.1 hpath]
      exact h.branch.fresh
  · refine h.branch.removeAll_eq hremoves (fun path hpath => ?_) fun path hpath => ?_
    · refine List.mem_filter.2 ⟨h.made_mem path hpath, ?_⟩
      simpa using (h.isIn hpath).ne.2
    · by_cases hmem : path ∈ t.dirs
      · exact .inl (h.mem_made (hin path hpath) hmem)
      · exact .inr hmem

/-- A path that is not made yet. -/
theorem withPaths {paths : List (List Char)} (hsub : ∀ path ∈ made, path ∈ paths)
    (hpaths : ∀ path ∈ paths, path = [] ∨ IsIn ctx.runPath path) :
    Grown t₀ { ctx with paths } made t :=
  ⟨h.branch, h.run_ne, hpaths, hsub⟩

/-- A path of the context is made. -/
theorem mkdir {path : List Char} {granted : Bool} (hpath : IsIn ctx.runPath path)
    (hmem : path ∈ ctx.paths) (hmake : makeDirectory granted path t = some t') :
    Grown t₀ ctx (insert path made) t' := by
  rw [makeDirectory] at hmake
  split at hmake
  case isTrue =>
    refine ⟨h.branch.mkdir hmake hpath.parent, h.run_ne, h.paths, ?_⟩
    exact (Finset.forall_mem_insert _ _ _).2 ⟨hmem, h.made_mem⟩
  case isFalse => cases hmake

/-- It is made if that is granted, as nothing is in a new group. -/
theorem exists_mkdir {path : List Char} {granted : Bool} (hpath : IsIn ctx.runPath path)
    (hnew : path ∉ made) : (∃ t', makeDirectory granted path t = some t') ↔ granted = true := by
  have hnot : path ∉ t.dirs := fun hmem => hnew (h.mem_made hpath hmem)
  have hparent : parentPath path ∈ t.dirs := by
    rw [hpath.parent]
    exact h.branch.mem_dirs.2 (.inl rfl)
  rw [makeDirectory, DirTree.mkdir, dif_pos ⟨hnot, hparent⟩]
  cases granted <;> simp

end Grown

/-- The loop over the candidates, from any of them on. -/
theorem candidateGroups_spec {t₀ t : CgroupTree} {ctx : CgroupContext} {makes : ℕ → Bool}
    {names done : List (List Char)} (h : Grown t₀ ctx done.toFinset t)
    (hpaths : ctx.paths = done ++ List.replicate names.length [])
    (hnames : ∀ name ∈ names, '/' ∉ name ∧
      (ctx.runPath ++ '/' :: name).length < sizeofPath)
    (hnodup : (done ++ names.map fun name => ctx.runPath ++ '/' :: name).Nodup) :
    ∃ made, Grown t₀ (candidateGroups makes done.length names ctx t).2.1 made
        (candidateGroups makes done.length names ctx t).2.2 ∧
      (candidateGroups makes done.length names ctx t).2.1.ready = ctx.ready ∧
      ((candidateGroups makes done.length names ctx t).1 = true →
        made = (done ++ names.map fun name => ctx.runPath ++ '/' :: name).toFinset ∧
        (candidateGroups makes done.length names ctx t).2.1 =
          { ctx with paths := done ++ names.map fun name => ctx.runPath ++ '/' :: name }) ∧
      ((candidateGroups makes done.length names ctx t).1 = true ↔
        ∀ k < names.length, makes (done.length + k) = true) := by
  induction names generalizing done ctx t with
  | nil =>
    rw [List.length_nil, List.replicate_zero, List.append_nil] at hpaths
    refine ⟨done.toFinset, h, rfl, fun _ => ⟨by simp, ?_⟩, by simp [candidateGroups]⟩
    rw [candidateGroups, List.map_nil, List.append_nil, ← hpaths]
  | cons name names ih =>
    rw [List.forall_mem_cons] at hnames
    obtain ⟨⟨hslash, hfits⟩, hnames⟩ := hnames
    have hin : IsIn ctx.runPath (ctx.runPath ++ '/' :: name) := ⟨name, hslash, rfl⟩
    -- the path is the next of the context
    have hset : ctx.paths.set done.length (ctx.runPath ++ '/' :: name) =
        (done ++ [ctx.runPath ++ '/' :: name]) ++ List.replicate names.length [] := by
      rw [hpaths, List.length_cons, List.replicate_succ, List.set_append_right _ _ (le_refl _),
        Nat.sub_self, List.set_cons_zero, List.append_assoc, List.singleton_append]
    have hgrown : Grown t₀
        { ctx with paths := ctx.paths.set done.length (ctx.runPath ++ '/' :: name) }
        done.toFinset t := by
      refine h.withPaths (fun path hpath => ?_) fun path hpath => ?_
      · rw [hset]
        exact List.mem_append_left _ (List.mem_append_left _ (List.mem_toFinset.1 hpath))
      · rcases List.mem_or_eq_of_mem_set hpath with hpath | rfl
        · exact h.paths path hpath
        · exact .inr hin
    have hnew : ctx.runPath ++ '/' :: name ∉ done.toFinset := by
      rw [List.mem_toFinset]
      intro hmem
      exact (List.nodup_append.1 hnodup).2.2 _ hmem _ List.mem_cons_self rfl
    have hgranted : (∃ t', makeDirectory (makes done.length) (ctx.runPath ++ '/' :: name) t =
        some t') ↔ makes done.length = true := hgrown.exists_mkdir hin hnew
    rw [candidateGroups, if_neg (Nat.not_le.2 hfits), List.take_of_length_le (by omega)]
    cases hmake : makeDirectory (makes done.length) (ctx.runPath ++ '/' :: name) t with
    | none =>
      dsimp only
      refine ⟨done.toFinset, hgrown, rfl, fun hfalse => absurd hfalse Bool.false_ne_true, ?_⟩
      refine iff_of_false Bool.false_ne_true fun hall => ?_
      obtain ⟨t', ht'⟩ := hgranted.2 (hall 0 (by simp))
      rw [hmake] at ht'
      cases ht'
    | some t' =>
      have hmem : ctx.runPath ++ '/' :: name ∈ ctx.paths.set done.length
          (ctx.runPath ++ '/' :: name) := by
        rw [hset]
        simp
      have hnext := hgrown.mkdir hin hmem hmake
      have hmade : insert (ctx.runPath ++ '/' :: name) done.toFinset =
          (done ++ [ctx.runPath ++ '/' :: name]).toFinset := by
        ext path
        simp
      rw [hmade] at hnext
      obtain ⟨made, hrest, hready, hall, hiff⟩ := ih hnext hset hnames
        (by simpa [List.append_assoc] using hnodup)
      have hlength : (done ++ [ctx.runPath ++ '/' :: name]).length = done.length + 1 := by simp
      rw [hlength] at hrest hready hall hiff
      refine ⟨made, hrest, hready, fun htrue => ?_, ?_⟩
      · obtain ⟨rfl, hctx⟩ := hall htrue
        refine ⟨by simp [List.append_assoc], ?_⟩
        rw [hctx]
        simp [List.append_assoc]
      · rw [hiff]
        constructor
        · intro hmakes k hk
          cases k with
          | zero => exact hgranted.1 ⟨t', hmake⟩
          | succ k =>
            have hk' := hmakes k (by simpa using hk)
            rwa [Nat.add_assoc, Nat.add_comm 1 k] at hk'
        · intro hmakes k hk
          have hk' := hmakes (k + 1) (by simpa using hk)
          rwa [Nat.add_assoc, Nat.add_comm 1 k]

/-! ## Creating the context -/

/-- All that it takes to create a context: the controller is there and handed on, nobody has a group
    of that name, and the calls are granted. -/
structure GroupsGranted (t₀ : CgroupTree) (answers : CgroupAnswers) (run : List Char)
    (count : ℕ) : Prop where
  subtree : ∃ text, readTextFile answers.subtreeControl sizeofControllers = some text ∧
    "cpu".toList ∈ tokens isBlank text
  fresh : run ∉ t₀.dirs
  makesRun : answers.makesRun = true
  controllers : ∃ text, readTextFile answers.controllers sizeofControllers = some text ∧
    "cpu".toList ∈ tokens isBlank text
  writes : answers.writesSubtree = true
  makes : ∀ i < count, answers.makes i = true

/-- What `cgroup_context_create` leaves: the groups of the experiment and nothing else, or nothing
    at all. And what `cgroup_context_destroy` does with it at any time. -/
structure ContextOutcome (t₀ : CgroupTree) (answers : CgroupAnswers) (run : List Char)
    (names : List (List Char)) (out : ℤ × CgroupContext × CgroupTree) : Prop where
  returns : out.1 = 0 ∨ out.1 = -1
  zero_iff : out.1 = 0 ↔ GroupsGranted t₀ answers run names.length
  created : out.1 = 0 →
    out.2.1 = ⟨true, run, names.map fun name => run ++ '/' :: name⟩ ∧
    out.2.2.dirs = insert run ((names.map fun name => run ++ '/' :: name).toFinset ∪ t₀.dirs)
  failed : out.1 = -1 → out.2.1.ready = false ∧
    ((∀ path, answers.removes path = true) → out.2.2.dirs = t₀.dirs)
  kept : t₀.dirs ⊆ out.2.2.dirs
  destroyed : ∀ removes, t₀.dirs ⊆ (cgroupContextDestroy removes out.2.1 out.2.2).2.dirs ∧
    (out.1 = 0 → (∀ path, removes path = true) →
      (cgroupContextDestroy removes out.2.1 out.2.2).2.dirs = t₀.dirs)

section Outcome

variable {t₀ t : CgroupTree} {answers : CgroupAnswers} {ctx : CgroupContext} {run : List Char}
  {names : List (List Char)} {made : Finset (List Char)}

theorem minusOne_ne_zero : (-1 : ℤ) ≠ 0 := by decide

/-- A failure before anything is made. -/
theorem ContextOutcome.untouched (hready : ctx.ready = false)
    (hnot : ¬GroupsGranted t₀ answers run names.length) :
    ContextOutcome t₀ answers run names (-1, ctx, t₀) where
  returns := .inr rfl
  zero_iff := iff_of_false minusOne_ne_zero hnot
  created h := absurd h minusOne_ne_zero
  failed _ := ⟨hready, fun _ => rfl⟩
  kept := Finset.Subset.refl _
  destroyed removes := by
    rw [cgroupContextDestroy, if_neg (by simp [hready])]
    exact ⟨Finset.Subset.refl _, fun h => absurd h minusOne_ne_zero⟩

/-- A failure behind the first `mkdir`. -/
theorem ContextOutcome.rolled_back (h : Grown t₀ ctx made t) (hready : ctx.ready = true)
    (hnot : ¬GroupsGranted t₀ answers run names.length) :
    ContextOutcome t₀ answers run names (-1, cgroupContextDestroy answers.removes ctx t) := by
  obtain ⟨hkept, hrestored⟩ := h.destroy hready answers.removes
  have hready' : (cgroupContextDestroy answers.removes ctx t).1.ready = false := by
    rw [cgroupContextDestroy, if_pos hready]
    rfl
  refine ⟨.inr rfl, iff_of_false minusOne_ne_zero hnot, fun h => absurd h minusOne_ne_zero,
    fun _ => ⟨hready', hrestored⟩, hkept, fun removes => ?_⟩
  rw [cgroupContextDestroy, if_neg (by simp [hready'])]
  exact ⟨hkept, fun h => absurd h minusOne_ne_zero⟩

/-- All the groups are made. -/
theorem ContextOutcome.complete
    (h : Grown t₀ ctx (names.map fun name => run ++ '/' :: name).toFinset t)
    (hctx : ctx = ⟨true, run, names.map fun name => run ++ '/' :: name⟩)
    (hgranted : GroupsGranted t₀ answers run names.length) :
    ContextOutcome t₀ answers run names (0, ctx, t) := by
  have hready : ctx.ready = true := by rw [hctx]
  refine ⟨.inl rfl, iff_of_true rfl hgranted, fun _ => ⟨hctx, ?_⟩,
    fun h => absurd h.symm minusOne_ne_zero, h.branch.subset, fun removes => ?_⟩
  · have hdirs := h.branch.dirs_eq
    rwa [hctx] at hdirs
  · obtain ⟨hkept, hrestored⟩ := h.destroy hready removes
    exact ⟨hkept, fun _ => hrestored⟩

theorem whitespaceWordPresent_cpu (text : List Char) :
    whitespaceWordPresent text "cpu".toList = true ↔ "cpu".toList ∈ tokens isBlank text :=
  wordLoop_iff (by decide) text

theorem GroupsGranted.subtree_word {count : ℕ} {text : List Char}
    (h : GroupsGranted t₀ answers run count)
    (hread : readTextFile answers.subtreeControl sizeofControllers = some text) :
    whitespaceWordPresent text "cpu".toList = true := by
  obtain ⟨text', htext, hcpu⟩ := h.subtree
  rw [hread] at htext
  cases htext
  exact (whitespaceWordPresent_cpu text).2 hcpu

/-- The controller is handed on if it is there and the file can be written. -/
theorem enableCpu_iff (hrun : run.length + 30 ≤ sizeofPath) : enableCpu answers run = true ↔
    (∃ text, readTextFile answers.controllers sizeofControllers = some text ∧
      "cpu".toList ∈ tokens isBlank text) ∧ answers.writesSubtree = true := by
  have hcontrollers : (run ++ "/cgroup.controllers".toList).length < sizeofPath := by
    rw [List.length_append]
    have hlength : "/cgroup.controllers".toList.length = 19 := by decide
    omega
  have hsubtree : (run ++ "/cgroup.subtree_control".toList).length < sizeofPath := by
    rw [List.length_append]
    have hlength : "/cgroup.subtree_control".toList.length = 23 := by decide
    omega
  rw [enableCpu, decide_eq_true hcontrollers, decide_eq_true hsubtree, Bool.true_and,
    Bool.and_true, Bool.and_eq_true, Option.any_eq_true]
  simp only [whitespaceWordPresent_cpu]

/-- The group of the experiment is made if its name is free and the call is granted. -/
theorem exists_makeRun {stem : List Char} {pid : ℤ} {granted : Bool}
    (hstem : '/' ∉ stem) :
    (∃ t, makeDirectory granted (cgroupRoot ++ '/' :: (stem ++ decimal pid)) t₀ = some t) ↔
      granted = true ∧ cgroupRoot ++ '/' :: (stem ++ decimal pid) ∉ t₀.dirs := by
  have hslash : '/' ∉ stem ++ decimal pid := by
    rw [List.mem_append, not_or]
    exact ⟨hstem, notMem_decimal pid '/' (by decide)⟩
  have hparent : parentPath (cgroupRoot ++ '/' :: (stem ++ decimal pid)) ∈ t₀.dirs := by
    rw [parentPath_append hslash]
    exact t₀.root_mem
  rw [makeDirectory, DirTree.mkdir]
  cases granted <;> simp [hparent]

/-- What both programs do up to the group of the experiment, and then the `rest`. -/
def startContext (answers : CgroupAnswers) (run : List Char) (ctx ctx' : CgroupContext)
    (rest : CgroupTree → ℤ × CgroupContext × CgroupTree) (t : CgroupTree) :
    ℤ × CgroupContext × CgroupTree :=
  match readTextFile answers.subtreeControl sizeofControllers with
  | none => (-1, ctx, t)
  | some rootSubtree =>
    if whitespaceWordPresent rootSubtree "cpu".toList = false then
      (-1, ctx, t)
    else
      match makeDirectory answers.makesRun run t with
      | none => (-1, ctx', t)
      | some t => rest t

/-- The group of the experiment is there, which takes the first part of `GroupsGranted`. -/
structure RunStarted (t₀ : CgroupTree) (answers : CgroupAnswers) (run : List Char)
    (t : CgroupTree) : Prop where
  subtree : ∃ text, readTextFile answers.subtreeControl sizeofControllers = some text ∧
    "cpu".toList ∈ tokens isBlank text
  fresh : run ∉ t₀.dirs
  makesRun : answers.makesRun = true
  made : makeDirectory answers.makesRun run t₀ = some t

/-- Up to the group of the experiment, a failure leaves the tree as it is. -/
theorem startContext_outcome {stem : List Char} {pid : ℤ} {ctx' : CgroupContext}
    {rest : CgroupTree → ℤ × CgroupContext × CgroupTree} (hstem : '/' ∉ stem)
    (hrun : cgroupRoot ++ '/' :: (stem ++ decimal pid) = run) (hready : ctx.ready = false)
    (hready' : ctx'.ready = false)
    (hrest : ∀ t, RunStarted t₀ answers run t →
      ContextOutcome t₀ answers run names (rest t)) :
    ContextOutcome t₀ answers run names (startContext answers run ctx ctx' rest t₀) := by
  have hmakes : (∃ t, makeDirectory answers.makesRun run t₀ = some t) ↔
      answers.makesRun = true ∧ run ∉ t₀.dirs := by
    rw [← hrun]
    exact exists_makeRun hstem
  rw [startContext]
  cases hread : readTextFile answers.subtreeControl sizeofControllers with
  | none => exact .untouched hready fun h => by simpa [hread] using h.subtree
  | some rootSubtree =>
  dsimp only
  split
  case isTrue hword =>
    exact .untouched hready fun h => Bool.false_ne_true (hword.symm.trans (h.subtree_word hread))
  case isFalse hword =>
  have hsubtree : "cpu".toList ∈ tokens isBlank rootSubtree :=
    (whitespaceWordPresent_cpu rootSubtree).1 (Bool.eq_true_of_not_eq_false hword)
  cases hmake : makeDirectory answers.makesRun run t₀ with
  | none =>
    refine .untouched hready' fun h => ?_
    obtain ⟨t, ht⟩ := hmakes.2 ⟨h.makesRun, h.fresh⟩
    rw [hmake] at ht
    cases ht
  | some t =>
    obtain ⟨hmakesRun, hfresh⟩ := hmakes.1 ⟨t, hmake⟩
    exact hrest t ⟨⟨rootSubtree, hread, hsubtree⟩, hfresh, hmakesRun, hmake⟩

/-- Nothing else is made then. -/
theorem RunStarted.grown {stem : List Char} {pid : ℤ} {paths : List (List Char)}
    (h : RunStarted t₀ answers run t) (hrun : cgroupRoot ++ '/' :: (stem ++ decimal pid) = run)
    (hpaths : ∀ path ∈ paths, path = [] ∨ IsIn run path) :
    Grown t₀ ⟨true, run, paths⟩ ∅ t := by
  have hmake := h.made
  rw [makeDirectory, if_pos h.makesRun] at hmake
  refine ⟨DirTree.Branch.start hmake, fun heq => ?_, hpaths, by simp⟩
  have hlength := congrArg List.length heq
  rw [← hrun] at hlength
  have hroot : cgroupRoot.length = 14 := by decide
  have hparent : (parentPath cgroupRoot).length = 7 := by decide
  rw [List.length_append, hroot, hparent] at hlength
  omega

end Outcome

section Create

variable {pid : ℤ} (hpid : |pid| < 2 ^ 31) (answers : CgroupAnswers) (t₀ : CgroupTree)
include hpid

/-- The path of the group of the experiment is short. -/
theorem length_runPath {stem : List Char} (hstem : stem.length = 12) :
    (cgroupRoot ++ '/' :: (stem ++ decimal pid)).length ≤ 38 := by
  have hdecimal := length_decimal_le hpid
  have hroot : cgroupRoot.length = 14 := by decide
  rw [List.length_append, List.length_cons, List.length_append]
  omega

omit hpid in
/-- The group of the experiment is under the root. -/
theorem runPath_eq (stem : List Char) :
    ("/sys/fs/cgroup/".toList ++ stem) ++ decimal pid =
      cgroupRoot ++ '/' :: (stem ++ decimal pid) := by
  rw [List.append_assoc]
  rfl

/-- `cgroup_context_create` of `oracle_multicandidate_control.c` and `oracle_cpu_max_sweep.c`:
    behind the group of the experiment, the loop stops at the first candidate whose group is not
    made. -/
theorem multicandidate_outcome :
    ContextOutcome t₀ answers (cgroupRoot ++ '/' :: ("oracle_6_5e_".toList ++ decimal pid))
      candidateNames (multicandidateContextCreate pid answers t₀) := by
  have hlength := @length_runPath pid hpid "oracle_6_5e_".toList (by decide)
  have htext : "/sys/fs/cgroup/oracle_6_5e_".toList ++ decimal pid =
      cgroupRoot ++ '/' :: ("oracle_6_5e_".toList ++ decimal pid) :=
    runPath_eq "oracle_6_5e_".toList
  obtain ⟨run, hrun⟩ : ∃ run, cgroupRoot ++ '/' :: ("oracle_6_5e_".toList ++ decimal pid) = run :=
    ⟨_, rfl⟩
  rw [hrun] at hlength htext
  rw [hrun, multicandidateContextCreate]
  dsimp only
  rw [htext, List.take_of_length_le (show run.length ≤ sizeofPath - 1 by rw [sizeofPath]; omega),
    if_neg (show ¬sizeofPath ≤ run.length by rw [sizeofPath]; omega)]
  refine startContext_outcome (by decide) hrun rfl rfl fun t hstarted => ?_
  have hstart : Grown t₀ ⟨true, run, List.replicate candidateNames.length []⟩ ∅ t :=
    hstarted.grown hrun fun path hpath => .inl (List.eq_of_mem_replicate hpath)
  have hfits : run.length + 30 ≤ sizeofPath := by
    rw [sizeofPath]
    omega
  have henable := @enableCpu_iff answers run hfits
  split
  case isFalse hdisabled =>
    rw [if_neg Bool.false_ne_true]
    exact .rolled_back hstart rfl fun h => hdisabled (henable.2 ⟨h.controllers, h.writes⟩)
  case isTrue henabled =>
  obtain ⟨hcontrollers, hwrites⟩ := henable.1 henabled
  have hshort : ∀ name ∈ candidateNames, '/' ∉ name ∧ name.length ≤ 4 := by decide
  have hnames : ∀ name ∈ candidateNames, '/' ∉ name ∧ (run ++ '/' :: name).length < sizeofPath := by
    intro name hname
    obtain ⟨hslash, hle⟩ := hshort name hname
    refine ⟨hslash, ?_⟩
    rw [List.length_append, List.length_cons]
    omega
  have hnodup : (candidateNames.map fun name => run ++ '/' :: name).Nodup :=
    List.Nodup.map (fun name name' h => by simpa using h) (by decide)
  -- the loop stops at the first group that is not made; those before it are `made`
  obtain ⟨made, hgrown, hready, hall, hiff⟩ := @candidateGroups_spec t₀ t
    ⟨true, run, List.replicate candidateNames.length []⟩ answers.makes candidateNames [] hstart rfl
    hnames hnodup
  simp only [List.length_nil, Nat.zero_add, List.nil_append] at hgrown hready hall hiff
  split
  case isTrue hmade =>
    obtain ⟨rfl, hctx⟩ := hall hmade
    exact .complete hgrown hctx ⟨hstarted.subtree, hstarted.fresh, hstarted.makesRun, hcontrollers,
      hwrites, hiff.1 hmade⟩
  case isFalse hmade => exact .rolled_back hgrown hready fun h => hmade (hiff.2 h.makes)

/-- `cgroup_context_create` of `oracle_selective_control.c`: behind the group of the experiment,
    first the group of the high candidates is made, and then that of the low ones. -/
theorem selective_outcome :
    ContextOutcome t₀ answers (cgroupRoot ++ '/' :: ("oracle_6_5d_".toList ++ decimal pid))
      ["high".toList, "low".toList] (selectiveContextCreate pid answers t₀) := by
  have hlength := @length_runPath pid hpid "oracle_6_5d_".toList (by decide)
  have htext : "/sys/fs/cgroup/oracle_6_5d_".toList ++ decimal pid =
      cgroupRoot ++ '/' :: ("oracle_6_5d_".toList ++ decimal pid) :=
    runPath_eq "oracle_6_5d_".toList
  obtain ⟨run, hrun⟩ : ∃ run, cgroupRoot ++ '/' :: ("oracle_6_5d_".toList ++ decimal pid) = run :=
    ⟨_, rfl⟩
  rw [hrun] at hlength htext
  have hhigh : (run ++ "/high".toList).length ≤ sizeofPath - 1 := by
    rw [List.length_append, sizeofPath]
    have hname : "/high".toList.length = 5 := by decide
    omega
  have hlow : (run ++ "/low".toList).length ≤ sizeofPath - 1 := by
    rw [List.length_append, sizeofPath]
    have hname : "/low".toList.length = 4 := by decide
    omega
  have hfits : run.length + 30 ≤ sizeofPath := by
    rw [sizeofPath]
    omega
  rw [hrun, selectiveContextCreate]
  dsimp only
  rw [htext, List.take_of_length_le (show run.length ≤ sizeofPath - 1 by omega),
    if_neg (show ¬sizeofPath ≤ run.length by omega), List.take_of_length_le hhigh,
    List.take_of_length_le hlow,
    if_neg (show ¬sizeofPath ≤ (run ++ "/high".toList).length by omega),
    if_neg (show ¬sizeofPath ≤ (run ++ "/low".toList).length by omega)]
  have hpaths : ((CgroupContext.zero 2).paths.set 0 (run ++ "/high".toList)).set 1
      (run ++ "/low".toList) = [run ++ "/high".toList, run ++ "/low".toList] := rfl
  refine startContext_outcome (by decide) hrun rfl rfl fun t hstarted => ?_
  have hinHigh : IsIn run (run ++ "/high".toList) := ⟨"high".toList, by decide, rfl⟩
  have hinLow : IsIn run (run ++ "/low".toList) := ⟨"low".toList, by decide, rfl⟩
  have hstart : Grown t₀ ⟨true, run, [run ++ "/high".toList, run ++ "/low".toList]⟩ ∅ t := by
    refine hstarted.grown hrun fun path hpath => ?_
    rcases List.mem_pair.1 hpath with rfl | rfl
    · exact .inr hinHigh
    · exact .inr hinLow
  have henable := @enableCpu_iff answers run hfits
  rw [hpaths]
  split
  case isTrue hdisabled =>
    refine .rolled_back hstart rfl fun h => ?_
    rw [henable.2 ⟨h.controllers, h.writes⟩] at hdisabled
    cases hdisabled
  case isFalse henabled =>
  obtain ⟨hcontrollers, hwrites⟩ := henable.1 (Bool.eq_true_of_not_eq_false henabled)
  have hmakesHigh : (∃ t', makeDirectory (answers.makes 0) (run ++ "/high".toList) t = some t') ↔
      answers.makes 0 = true := hstart.exists_mkdir hinHigh (by simp)
  cases hmakeHigh : makeDirectory (answers.makes 0) (run ++ "/high".toList) t with
  | none =>
    refine .rolled_back hstart rfl fun h => ?_
    obtain ⟨t', ht'⟩ := hmakesHigh.2 (h.makes 0 (by simp))
    rw [hmakeHigh] at ht'
    cases ht'
  | some t₁ =>
  have hgrown := hstart.mkdir hinHigh (by simp) hmakeHigh
  have hmakesLow : (∃ t', makeDirectory (answers.makes 1) (run ++ "/low".toList) t₁ = some t') ↔
      answers.makes 1 = true := hgrown.exists_mkdir hinLow (by simp)
  dsimp only
  cases hmakeLow : makeDirectory (answers.makes 1) (run ++ "/low".toList) t₁ with
  | none =>
    refine .rolled_back hgrown rfl fun h => ?_
    obtain ⟨t', ht'⟩ := hmakesLow.2 (h.makes 1 (by simp))
    rw [hmakeLow] at ht'
    cases ht'
  | some t₂ =>
  have hboth := hgrown.mkdir hinLow (by simp) hmakeLow
  refine .complete ?_ rfl ⟨hstarted.subtree, hstarted.fresh, hstarted.makesRun, hcontrollers,
    hwrites, ?_⟩
  · have hmade : insert (run ++ "/low".toList) (insert (run ++ "/high".toList) ∅) =
        (["high".toList, "low".toList].map fun name => run ++ '/' :: name).toFinset := by
      ext path
      simp [or_comm]
    exact hmade ▸ hboth
  · intro i hi
    have hcases : i = 0 ∨ i = 1 := by
      have hi' : i < 2 := hi
      omega
    rcases hcases with rfl | rfl
    · exact hmakesHigh.1 ⟨t₁, hmakeHigh⟩
    · exact hmakesLow.1 ⟨t₂, hmakeLow⟩

end Create

/-- For every process and every tree of control groups, whatever the kernel answers: creating the
    context returns 0 if and only if the controller is there and handed on, the name is free and all
    calls are granted, and then the tree has the groups of the experiment in addition, and no
    others. Otherwise it returns -1, and if every `rmdir` is granted the tree is what it was before.
    If every `rmdir` is granted, `cgroup_context_destroy` takes all the groups away again. A group
    that was there before stays, whatever is granted. -/
theorem cgroup_context_restores {pid : ℤ} (hpid : |pid| < 2 ^ 31) (answers : CgroupAnswers)
    (t₀ : CgroupTree) :
    ContextOutcome t₀ answers (cgroupRoot ++ '/' :: ("oracle_6_5e_".toList ++ decimal pid))
      candidateNames (multicandidateContextCreate pid answers t₀) ∧
    ContextOutcome t₀ answers (cgroupRoot ++ '/' :: ("oracle_6_5d_".toList ++ decimal pid))
      ["high".toList, "low".toList] (selectiveContextCreate pid answers t₀) :=
  ⟨multicandidate_outcome hpid answers t₀, selective_outcome hpid answers t₀⟩

/-- A system with no groups yet, where the last `mkdir` for the candidates fails: nothing is
    left. -/
theorem cgroup_context_restores_fails :
    let t₀ : CgroupTree := ⟨{cgroupRoot}, by decide, by decide⟩
    let answers : CgroupAnswers := ⟨some "cpuset cpu io\n".toList, true, some "cpu\n".toList, true,
      fun i => i ≠ 4, fun _ => true⟩
    (multicandidateContextCreate 1234 answers t₀).1 = -1 ∧
      (multicandidateContextCreate 1234 answers t₀).2.2.dirs = {cgroupRoot} ∧
      (selectiveContextCreate 1234 answers t₀).1 = 0 := by
  intro t₀ answers
  have hpid : |(1234 : ℤ)| < 2 ^ 31 := by decide
  obtain ⟨hmulti, hselective⟩ := cgroup_context_restores hpid answers t₀
  have hfails : (multicandidateContextCreate 1234 answers t₀).1 = -1 :=
    hmulti.returns.resolve_left fun h =>
      absurd ((hmulti.zero_iff.1 h).makes 4 (by decide)) (by simp [answers])
  refine ⟨hfails, (hmulti.failed hfails).2 fun _ => rfl, hselective.zero_iff.2 ?_⟩
  refine ⟨⟨_, rfl, by decide +kernel⟩, by decide +kernel, rfl, ⟨_, rfl, by decide +kernel⟩, rfl,
    fun i hi => ?_⟩
  have hi' : i < 2 := hi
  simp only [answers, decide_eq_true_eq]
  omega

end CgroupResearch
