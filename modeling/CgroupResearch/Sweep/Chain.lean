import CgroupResearch.Lib.PointerMemory
import CgroupResearch.Lib.Stride
import CgroupResearch.Sweep.Collect

/-!
# Chains of pointers

The victim and the aggressor of the sweep read their lines by following pointers: each line holds
the address of the next. The victim has one chain through all of its lines, in a shuffled order
(`build_single_chain`). The aggressor has several, between which the lines of its order are dealt
out in turn (`build_multi_chain`).

The pointers are written to memory while the order is walked, so a chain is whole only if no
write hits a link that is there already. With lines that are 8 bytes apart none does, and every
chain is a cycle through just its lines (`chains_are_cycles`), also where the last turn of the
dealing is not complete.

* `buildSingleChain_eq`, `buildMultiChain_eq`: the writes, as the links of cycles;
* `map_lineAt_perm`, `flatMap_streamLines_perm`: the chains have each line once.
-/

namespace CgroupResearch

open PointerMemory Stride

/-! ## The program -/

/-- `make_permutation`. -/
def makePermutation (count : ℕ) (seed : UInt64) : Option (List ℕ) :=
  if count = 0 then none else some (shuffleSizeT (List.range count) seed)

section Program

variable {pageSize : ℕ} (set : LineSet pageSize) (permutation : List ℕ)

/-- `set->addresses[permutation[i]]`. -/
def lineAt (i : ℕ) : ℕ := set.addresses.getD (permutation.getD i 0) 0

/-- `build_single_chain`: the memory it leaves, and the root. -/
def buildSingleChain (mem : Memory) : Option (Memory × ℕ) :=
  let lineCount := set.addresses.length
  if lineCount = 0 then
    none
  else
    let mem := (List.range lineCount).foldl (fun mem i =>
      let current := lineAt set permutation i
      let next := lineAt set permutation ((i + 1) % lineCount)
      store mem 8 current next) mem
    some (mem, lineAt set permutation 0)

/-- The `while` loop of `build_multi_chain`: the last line it comes to, and the memory. The position
    does not overflow, as there is no room for `2 ^ 61` lines. -/
def streamLoop (streamCount : ℕ) (hstream : 0 < streamCount) (position previous : ℕ)
    (mem : Memory) : ℕ × Memory :=
  if position < set.addresses.length then
    let current := lineAt set permutation position
    streamLoop streamCount hstream (position + streamCount) current (store mem 8 previous current)
  else
    (previous, mem)
termination_by set.addresses.length - position

/-- A turn of the loop of `build_multi_chain` over the streams, with the roots so far. -/
def buildStream (streamCount : ℕ) (hstream : 0 < streamCount) (state : Memory × List ℕ)
    (stream : ℕ) : Memory × List ℕ :=
  let first := lineAt set permutation stream
  let (previous, mem) :=
    streamLoop set permutation streamCount hstream (stream + streamCount) first state.1
  (store mem 8 previous first, state.2 ++ [first])

/-- `build_multi_chain`: the memory it leaves, and the roots. -/
def buildMultiChain (streamCount : ℕ) (mem : Memory) : Option (Memory × List ℕ) :=
  if h : streamCount = 0 ∨ set.addresses.length < streamCount then
    none
  else
    some ((List.range streamCount).foldl
      (buildStream set permutation streamCount (Nat.pos_of_ne_zero fun h0 => h (.inl h0)))
      (mem, []))

end Program

/-! ## Links -/

section Links

variable {pageSize : ℕ} {set : LineSet pageSize} {permutation : List ℕ} {mem : Memory}

/-- The lines of a stream, in its order. -/
def streamLines (set : LineSet pageSize) (permutation : List ℕ) (streamCount stream : ℕ) :
    List ℕ :=
  (stride stream set.addresses.length streamCount).map (lineAt set permutation)

theorem streamLines_cons {streamCount stream : ℕ} (hstream : 0 < streamCount)
    (hlt : stream < set.addresses.length) :
    streamLines set permutation streamCount stream = lineAt set permutation stream ::
      streamLines set permutation streamCount (stream + streamCount) := by
  rw [streamLines, stride_cons hstream hlt, List.map_cons, streamLines]

/-- The writes of the single chain are the links of a cycle through all the lines. -/
theorem buildSingleChain_eq (hne : set.addresses.length ≠ 0) :
    buildSingleChain set permutation mem =
      some (storeAll 8 mem (cycleLinks ((List.range set.addresses.length).map
        (lineAt set permutation))), lineAt set permutation 0) := by
  have hlinks : cycleLinks ((List.range set.addresses.length).map (lineAt set permutation)) =
      (List.range set.addresses.length).map fun i =>
        (lineAt set permutation i, lineAt set permutation ((i + 1) % set.addresses.length)) := by
    refine List.ext_getElem (by simp [cycleLinks]) fun i hi hi' => ?_
    simp [cycleLinks, List.getElem_rotate]
  rw [buildSingleChain, hlinks, storeAll, List.foldl_map]
  exact if_neg hne

/-- The writes of the `while` loop and the one behind it: every line of the rest of the stream to
    the line before it, and the first line of the stream to the last. -/
theorem store_streamLoop {streamCount : ℕ} (hstream : 0 < streamCount) (first : ℕ)
    (position previous : ℕ) (mem : Memory) :
    store (streamLoop set permutation streamCount hstream position previous mem).2 8
        (streamLoop set permutation streamCount hstream position previous mem).1 first =
      storeAll 8 mem ((previous :: streamLines set permutation streamCount position).zip
        (streamLines set permutation streamCount position ++ [first])) := by
  fun_induction streamLoop set permutation streamCount hstream position previous mem with
  | case1 position previous mem hlt current ih =>
    rw [ih, streamLines_cons hstream hlt]
    rfl
  | case2 position previous mem hge =>
    rw [streamLines, stride_nil hstream (Nat.not_lt.1 hge)]
    rfl

/-- The writes of a stream are the links of a cycle through its lines. -/
theorem buildStream_eq {streamCount : ℕ} (hstream : 0 < streamCount)
    (state : Memory × List ℕ) {stream : ℕ} (hlt : stream < set.addresses.length) :
    buildStream set permutation streamCount hstream state stream =
      (storeAll 8 state.1 (cycleLinks (streamLines set permutation streamCount stream)),
        state.2 ++ [lineAt set permutation stream]) := by
  rw [buildStream]
  dsimp only
  rw [store_streamLoop, streamLines_cons hstream hlt, cycleLinks, List.rotate_cons_succ,
    List.rotate_zero]

theorem foldl_buildStream {streamCount : ℕ} (hstream : 0 < streamCount) {streams : List ℕ}
    (hlt : ∀ stream ∈ streams, stream < set.addresses.length) (state : Memory × List ℕ) :
    streams.foldl (buildStream set permutation streamCount hstream) state =
      (storeAll 8 state.1 (streams.flatMap fun stream =>
        cycleLinks (streamLines set permutation streamCount stream)),
        state.2 ++ streams.map (lineAt set permutation)) := by
  induction streams generalizing state with
  | nil => simp [storeAll]
  | cons stream streams ih =>
    rw [List.forall_mem_cons] at hlt
    rw [List.foldl_cons, buildStream_eq hstream state hlt.1, ih hlt.2, List.flatMap_cons,
      storeAll_append, List.map_cons, List.append_assoc, List.singleton_append]

/-- All the chains are stored, one after the other. -/
theorem buildMultiChain_eq {streamCount : ℕ} (hstream : 0 < streamCount)
    (hle : streamCount ≤ set.addresses.length) :
    buildMultiChain set permutation streamCount mem =
      some (storeAll 8 mem ((List.range streamCount).flatMap fun stream =>
        cycleLinks (streamLines set permutation streamCount stream)),
        (List.range streamCount).map (lineAt set permutation)) := by
  rw [buildMultiChain, dif_neg (by omega), foldl_buildStream hstream fun stream hmem =>
    (List.mem_range.1 hmem).trans_le hle, List.nil_append]

/-- An order of the lines has each of them once. -/
theorem map_lineAt_perm (hperm : permutation.Perm (List.range set.addresses.length)) :
    ((List.range set.addresses.length).map (lineAt set permutation)).Perm set.addresses := by
  have hlen : permutation.length = set.addresses.length := by
    rw [hperm.length_eq, List.length_range]
  have horder : (List.range set.addresses.length).map (lineAt set permutation) =
      permutation.map (set.addresses.getD · 0) := by
    conv_rhs => rw [← map_range_getD permutation 0, hlen, List.map_map]
    rfl
  rw [horder]
  conv_rhs => rw [← map_range_getD set.addresses 0]
  exact hperm.map _

/-- The streams have each line once. -/
theorem flatMap_streamLines_perm {streamCount : ℕ} (hstream : 0 < streamCount)
    (hperm : permutation.Perm (List.range set.addresses.length)) :
    ((List.range streamCount).flatMap (streamLines set permutation streamCount)).Perm
      set.addresses := by
  have hmap : (List.range streamCount).flatMap (streamLines set permutation streamCount) =
      ((List.range streamCount).flatMap fun stream =>
        stride stream set.addresses.length streamCount).map (lineAt set permutation) :=
    List.map_flatMap.symm
  rw [hmap]
  exact ((flatMap_stride_perm hstream).map _).trans (map_lineAt_perm hperm)

/-- After the links of chains that have each line once, every chain is a cycle. -/
theorem isCycle_links (mem : Memory) (hapart : set.addresses.Pairwise (Apart 8))
    (hptr : ∀ a ∈ set.addresses, a < 2 ^ 64) {streams : List ℕ} {lines : ℕ → List ℕ}
    (hperm : (streams.flatMap lines).Perm set.addresses) {s : ℕ} (hs : s ∈ streams) {root : ℕ}
    (hroot : (lines s).head? = some root) :
    IsCycle (load (storeAll 8 mem (streams.flatMap fun s => cycleLinks (lines s))) 8) root
      (lines s) :=
  isCycle_storeAll (by decide) ((hperm.pairwise_iff fun h => h.symm).2 hapart)
    (fun a ha => hptr a (hperm.mem_iff.1 ha)) hs hroot

end Links

/-- For all lines at least 8 bytes apart, at addresses of 64 bits, whatever the seed and what the
    memory holds: `make_permutation` makes a permutation of any number of positions. With that of
    the lines, `build_single_chain` makes one cycle, from its root, that visits every line once.
    And for any number of streams up to that of the lines, `build_multi_chain` makes one cycle a
    stream, from its root, that visits the lines at the positions of the stream once each; the
    streams have each line once. -/
theorem chains_are_cycles {pageSize : ℕ} (set : LineSet pageSize)
    (hapart : set.addresses.Pairwise (Apart 8)) (hptr : ∀ a ∈ set.addresses, a < 2 ^ 64)
    (seed : UInt64) (mem : Memory) :
    (∀ count ≠ 0, ∃ permutation, makePermutation count seed = some permutation ∧
      permutation.Perm (List.range count)) ∧
    ∀ permutation, makePermutation set.addresses.length seed = some permutation →
      (∃ mem' root, buildSingleChain set permutation mem = some (mem', root) ∧
        IsCycle (load mem' 8) root
          ((List.range set.addresses.length).map (lineAt set permutation)) ∧
        ((List.range set.addresses.length).map (lineAt set permutation)).Perm set.addresses) ∧
      ∀ streamCount, 1 ≤ streamCount → streamCount ≤ set.addresses.length →
        ∃ mem' roots, buildMultiChain set permutation streamCount mem = some (mem', roots) ∧
          roots.length = streamCount ∧
          (∀ s < streamCount, ∃ root, roots[s]? = some root ∧
            IsCycle (load mem' 8) root
              ((stride s set.addresses.length streamCount).map
                (lineAt set permutation))) ∧
          ((List.range streamCount).flatMap fun s =>
            (stride s set.addresses.length streamCount).map
              (lineAt set permutation)).Perm set.addresses := by
  refine ⟨fun count hcount => ⟨_, if_neg hcount, shuffle_perm _ _⟩, fun permutation h => ?_⟩
  rw [makePermutation] at h
  split at h
  case isTrue => cases h
  case isFalse hne =>
  have hperm : permutation.Perm (List.range set.addresses.length) :=
    Option.some.inj h ▸ shuffle_perm _ _
  refine ⟨⟨_, _, buildSingleChain_eq hne, ?_, map_lineAt_perm hperm⟩, fun streamCount hstream hle =>
    ⟨_, _, buildMultiChain_eq hstream hle, ?_, fun s hs => ?_,
      flatMap_streamLines_perm hstream hperm⟩⟩
  · have hhead : ((List.range set.addresses.length).map (lineAt set permutation)).head? =
        some (lineAt set permutation 0) := by
      rw [List.head?_map, List.head?_range, if_neg hne, Option.map_some]
    have hall : ([0].flatMap fun _ : ℕ => (List.range set.addresses.length).map
        (lineAt set permutation)).Perm set.addresses := by
      simpa using map_lineAt_perm hperm
    have hcycle := isCycle_links mem hapart hptr hall (List.mem_singleton_self 0) hhead
    rw [List.flatMap_singleton] at hcycle
    exact hcycle
  · rw [List.length_map, List.length_range]
  · refine ⟨lineAt set permutation s, by simp [hs], ?_⟩
    refine isCycle_links mem hapart hptr (flatMap_streamLines_perm hstream hperm)
      (List.mem_range.2 hs) ?_
    rw [streamLines_cons hstream (hs.trans_le hle), List.head?_cons]

/-- Five lines in two streams, one of three lines and one of two. -/
theorem chains_are_cycles_five :
    let pool : MemoryPool 512 := ⟨0x20000, 512, 1, [3], rfl, by decide, rfl⟩
    let set : LineSet 512 := ⟨pool, [0x20000, 0x20040, 0x20080, 0x200c0, 0x20100]⟩
    ∃ permutation, makePermutation 5 42 = some permutation ∧
      ∃ mem roots, buildMultiChain set permutation 2 (fun _ => 0) = some (mem, roots) ∧
        ∃ root, roots[1]? = some root ∧ load mem 8 (load mem 8 root) = root := by
  intro pool set
  have hapart : set.addresses.Pairwise (Apart 8) := by
    unfold Apart
    decide
  obtain ⟨hpermutation, hchains⟩ := chains_are_cycles set hapart (by decide) 42 fun _ => 0
  obtain ⟨permutation, hperm, -⟩ := hpermutation 5 (by decide)
  obtain ⟨-, hmulti⟩ := hchains permutation hperm
  obtain ⟨mem, roots, hbuild, -, hcycles, -⟩ := hmulti 2 (by decide) (by decide)
  obtain ⟨root, hroot, hcycle⟩ := hcycles 1 (by decide)
  have hlen : (stride 1 set.addresses.length 2).length = 2 := by decide
  have hreturns := hcycle.returns
  rw [List.length_map, hlen] at hreturns
  exact ⟨permutation, hperm, mem, roots, hbuild, root, hroot, hreturns⟩

end CgroupResearch
