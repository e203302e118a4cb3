import CgroupResearch.Lib.DoubleArith
import CgroupResearch.Lib.Walk
import CgroupResearch.Sweep.Chain
import CgroupResearch.Sweep.Overlap

/-!
# The loops that are measured

The workers of the experiments follow the pointers in their lines for a time. The victim follows
its one chain (`victim_loop`), and the aggressor its streams in turn (`aggressor_loop`). Both look
at the clock after a chunk of reads, until the time is over, and report how many reads they have
made.

What they measure is the cost of reads in given bank classes. A chain goes around its lines, so
that all classes get their share of the reads, up to one turn (`victim_loads_classes`,
`aggressor_loads_classes`).

The readings of the clock are an input, of which one that fails is `none`; their differences fit a
`long`. A loop is running as long as there is no reading that ends it, and its reads are those of
the chunks before a reading.

* `timedLoop_spec`: what a loop has read, and what it reports;
* `timedLoop_returns_iff`: when it returns.
-/

namespace CgroupResearch

open PointerMemory Stride Quota

/-! ## The program -/

/-- `VICTIM_CHUNK_READS`. -/
def victimChunkReads : ℕ := 4096

/-- `AGGRESSOR_CHUNK_ITERS`. -/
def aggressorChunkIters : ℕ := 1024

/-- `AGGRESSOR_STREAMS`. -/
def aggressorStreams : ℕ := 16

/-- `struct timespec`. -/
structure Timespec where
  tvSec : ℤ
  tvNsec : ℤ
  deriving DecidableEq, Repr

/-- `struct worker_result`. -/
structure WorkerResult where
  ok : ℤ
  elapsedSec : Double
  operations : UInt64
  deriving DecidableEq, Repr

/-- How far a loop is: it goes on, it has returned -1, or 0 with a result. -/
inductive LoopEnd
  | running
  | failed
  | returned (result : WorkerResult)
  deriving DecidableEq, Repr

/-- `elapsed_sec`. -/
def elapsedSec (start last : Timespec) : Double :=
  .add (.round (last.tvSec - start.tvSec : ℤ))
    (.div (.round (last.tvNsec - start.tvNsec : ℤ)) (.ofRat 1000000000))

/-- The inner loop of `victim_loop`: the pointer that it leaves, and the addresses that it reads. -/
def readChunk (mem : Memory) : (reads : ℕ) → (pointer : ℕ) → ℕ × List ℕ
  | 0, pointer => (pointer, [])
  | reads + 1, pointer =>
    let (last, addresses) := readChunk mem reads (load mem 8 pointer)
    (last, pointer :: addresses)

/-- The inner loops of `aggressor_loop`: the pointers that they leave, and the addresses that they
    read. -/
def readStreams (mem : Memory) : (iterations : ℕ) → (pointers : List ℕ) → List ℕ × List ℕ
  | 0, pointers => (pointers, [])
  | iterations + 1, pointers =>
    let (last, addresses) := readStreams mem iterations (pointers.map (load mem 8))
    (last, pointers ++ addresses)

section Loop

variable {σ : Type} (chunk : σ → σ × List ℕ) (chunkOperations : UInt64) (start : Timespec)
  (seconds : Double)

/-- The outer loop of both: a chunk of reads, and a look at the clock. -/
def timedLoop : (readings : List (Option Timespec)) → (pointers : σ) → (operations : UInt64) →
    LoopEnd × List ℕ
  | [], _, _ => (.running, [])
  | reading :: readings, pointers, operations =>
    let (pointers, addresses) := chunk pointers
    let operations := operations + chunkOperations
    match reading with
    | none => (.failed, addresses)
    | some now =>
      if Double.le seconds (elapsedSec start now) then
        (.returned ⟨1, elapsedSec start now, operations⟩, addresses)
      else
        let (loopEnd, rest) := timedLoop readings pointers operations
        (loopEnd, addresses ++ rest)

/-- The start of both loops, which takes the time. -/
def startLoop (pointers : σ) : (readings : List (Option Timespec)) → LoopEnd × List ℕ
  | [] => (.running, [])
  | none :: _ => (.failed, [])
  | some start :: readings => timedLoop chunk chunkOperations start seconds readings pointers 0

end Loop

/-- `victim_loop`, and the addresses that it reads. -/
def victimLoop (mem : Memory) (root : ℕ) (seconds : Double) (readings : List (Option Timespec)) :
    LoopEnd × List ℕ :=
  if root = 0 ∨ Double.le seconds (.ofRat 0) then
    (.failed, [])
  else
    startLoop (readChunk mem victimChunkReads) (UInt64.ofNat victimChunkReads) seconds root readings

/-- `aggressor_loop`, and the addresses that it reads. -/
def aggressorLoop (mem : Memory) (roots : List ℕ) (seconds : Double)
    (readings : List (Option Timespec)) : LoopEnd × List ℕ :=
  if Double.le seconds (.ofRat 0) then
    (.failed, [])
  else
    startLoop (readStreams mem aggressorChunkIters)
      (UInt64.ofNat aggressorChunkIters * UInt64.ofNat aggressorStreams) seconds roots readings

/-! ## The timed loop -/

/-- The time comes: the clock is read without a failure until `seconds` are over. -/
def TimeComes (seconds : Double) (readings : List (Option Timespec)) : Prop :=
  ∃ start before now after, readings = some start :: (before ++ some now :: after) ∧
    (∀ reading ∈ before, ∃ time, reading = some time ∧
      Double.le seconds (elapsedSec start time) = false) ∧
    Double.le seconds (elapsedSec start now) = true

section Loop

variable {σ : Type} {chunk : σ → σ × List ℕ} {chunkOperations : UInt64} {start : Timespec}
  {seconds : Double}

/-- The reads of some chunks. -/
def chunkReads (chunk : σ → σ × List ℕ) : ℕ → σ → List ℕ
  | 0, _ => []
  | turns + 1, pointers => (chunk pointers).2 ++ chunkReads chunk turns (chunk pointers).1

/-- What a loop has done so far: it has read some chunks, and reports them if it has returned. -/
structure LoopDone (chunk : σ → σ × List ℕ) (chunkOperations : UInt64) (seconds : Double)
    (pointers : σ) (operations : UInt64) (turns : ℕ) (out : LoopEnd × List ℕ) : Prop where
  reads : out.2 = chunkReads chunk turns pointers
  counts : ∀ result, out.1 = .returned result → result.ok = 1 ∧ 0 < turns ∧
    result.operations = operations + UInt64.ofNat turns * chunkOperations ∧
    Double.le seconds result.elapsedSec = true

/-- The loop takes whole turns, until the time comes. -/
theorem timedLoop_spec (readings : List (Option Timespec)) (pointers : σ) (operations : UInt64) :
    ∃ turns, LoopDone chunk chunkOperations seconds pointers operations turns
      (timedLoop chunk chunkOperations start seconds readings pointers operations) := by
  induction readings generalizing pointers operations with
  | nil => exact ⟨0, rfl, fun result h => by cases h⟩
  | cons reading readings ih =>
    have hone : (chunk pointers).2 = chunkReads chunk 1 pointers := by
      rw [chunkReads, chunkReads, List.append_nil]
    cases reading with
    | none => exact ⟨1, hone, fun result h => by cases h⟩
    | some now =>
      rw [timedLoop]
      dsimp only
      split
      case isTrue hover =>
        refine ⟨1, hone, fun result h => ?_⟩
        cases h
        exact ⟨rfl, Nat.one_pos, by simp, hover⟩
      case isFalse =>
        obtain ⟨turns, hreads, hcounts⟩ := ih (chunk pointers).1 (operations + chunkOperations)
        refine ⟨turns + 1, ?_, fun result h => ?_⟩
        · dsimp only
          rw [hreads, chunkReads]
        · obtain ⟨hok, -, hoperations, hover⟩ := hcounts result h
          refine ⟨hok, Nat.succ_pos turns, ?_, hover⟩
          rw [hoperations, Nat.add_comm turns 1, UInt64.ofNat_add, add_mul, add_assoc]
          simp

/-- A loop returns when a reading of the clock is late enough, and none before it fails or is. -/
theorem timedLoop_returns_iff (readings : List (Option Timespec)) (pointers : σ)
    (operations : UInt64) :
    (∃ result, (timedLoop chunk chunkOperations start seconds readings pointers operations).1 =
      .returned result) ↔
    ∃ before now after, readings = before ++ some now :: after ∧
      (∀ reading ∈ before, ∃ time, reading = some time ∧
        Double.le seconds (elapsedSec start time) = false) ∧
      Double.le seconds (elapsedSec start now) = true := by
  induction readings generalizing pointers operations with
  | nil =>
    constructor
    · rintro ⟨result, h⟩
      cases h
    · rintro ⟨before, now, after, h, -⟩
      simp at h
  | cons reading readings ih =>
    constructor
    · rintro ⟨result, h⟩
      cases reading with
      | none => cases h
      | some now =>
        rw [timedLoop] at h
        dsimp only at h
        split at h
        case isTrue hover => exact ⟨[], now, readings, rfl, by simp, hover⟩
        case isFalse hnot =>
          obtain ⟨before, last, after, rfl, hbefore, hover⟩ := (ih _ _).1 ⟨result, h⟩
          refine ⟨some now :: before, last, after, rfl, ?_, hover⟩
          exact List.forall_mem_cons.2 ⟨⟨now, rfl, Bool.eq_false_of_not_eq_true hnot⟩, hbefore⟩
    · rintro ⟨before, now, after, h, hbefore, hover⟩
      cases before with
      | nil =>
        obtain ⟨rfl, rfl⟩ := List.cons.inj h
        rw [timedLoop]
        dsimp only
        rw [if_pos hover]
        exact ⟨_, rfl⟩
      | cons reading' before =>
        obtain ⟨rfl, rfl⟩ := List.cons.inj h
        obtain ⟨⟨time, rfl, hnot⟩, hrest⟩ := List.forall_mem_cons.1 hbefore
        rw [timedLoop]
        dsimp only
        rw [if_neg (by simp [hnot])]
        exact (ih _ _).2 ⟨before, now, after, rfl, hrest, hover⟩

theorem startLoop_spec (readings : List (Option Timespec)) (pointers : σ) :
    ∃ turns, LoopDone chunk chunkOperations seconds pointers 0 turns
      (startLoop chunk chunkOperations seconds pointers readings) := by
  rcases readings with - | ⟨- | start, readings⟩
  · exact ⟨0, rfl, fun result h => by cases h⟩
  · exact ⟨0, rfl, fun result h => by cases h⟩
  · exact timedLoop_spec readings pointers 0

theorem startLoop_returns_iff (readings : List (Option Timespec)) (pointers : σ) :
    (∃ result, (startLoop chunk chunkOperations seconds pointers readings).1 = .returned result) ↔
      TimeComes seconds readings := by
  rcases readings with - | ⟨- | start, readings⟩
  · constructor
    · rintro ⟨result, h⟩
      cases h
    · rintro ⟨start, before, now, after, h, -⟩
      cases h
  · constructor
    · rintro ⟨result, h⟩
      cases h
    · rintro ⟨start, before, now, after, h, -⟩
      cases h
  · refine (timedLoop_returns_iff readings pointers 0).trans ⟨?_, ?_⟩
    · rintro ⟨before, now, after, rfl, h⟩
      exact ⟨start, before, now, after, rfl, h⟩
    · rintro ⟨start', before, now, after, h, hcomes⟩
      obtain ⟨hstart, rfl⟩ := List.cons.inj h
      cases hstart
      exact ⟨before, now, after, rfl, hcomes⟩

end Loop

/-! ## The reads -/

section Reads

variable {mem : Memory}

theorem readChunk_eq (n pointer : ℕ) :
    readChunk mem n pointer = ((load mem 8)^[n] pointer, List.iterate (load mem 8) pointer n) := by
  induction n generalizing pointer with
  | zero => rfl
  | succ n ih =>
    rw [readChunk, ih]
    rfl

theorem readStreams_eq (n : ℕ) (pointers : List ℕ) : readStreams mem n pointers =
    (pointers.map (load mem 8)^[n], takeTurns (load mem 8) n pointers) := by
  induction n generalizing pointers with
  | zero => simp [readStreams, takeTurns]
  | succ n ih =>
    rw [readStreams, ih, List.map_map]
    rfl

/-- The chunks of the victim are a walk. -/
theorem chunkReads_readChunk (n turns pointer : ℕ) :
    chunkReads (readChunk mem n) turns pointer =
      List.iterate (load mem 8) pointer (turns * n) := by
  induction turns generalizing pointer with
  | zero => simp [chunkReads, List.iterate]
  | succ turns ih =>
    rw [chunkReads, readChunk_eq, ih, Nat.succ_mul, Nat.add_comm, List.iterate_add]

/-- The chunks of the aggressor are walks in turn. -/
theorem chunkReads_readStreams (n turns : ℕ) (pointers : List ℕ) :
    chunkReads (readStreams mem n) turns pointers =
      takeTurns (load mem 8) (turns * n) pointers := by
  induction turns generalizing pointers with
  | zero => simp [chunkReads, takeTurns]
  | succ turns ih =>
    rw [chunkReads, readStreams_eq, ih, Nat.succ_mul, Nat.add_comm, takeTurns_add]

/-- What a loop reports: all its reads, and a time that is over. -/
structure ReportsReads (seconds : Double) (out : LoopEnd × List ℕ) (result : WorkerResult) :
    Prop where
  ok : result.ok = 1
  operations : result.operations = UInt64.ofNat out.2.length
  reads : 0 < out.2.length
  elapsed : Double.le seconds result.elapsedSec = true

/-- The victim walks along its chain. -/
theorem victimLoop_reads (root : ℕ) (seconds : Double) (readings : List (Option Timespec)) :
    ∃ turns, (victimLoop mem root seconds readings).2 =
        List.iterate (load mem 8) root (turns * victimChunkReads) ∧
      ∀ result, (victimLoop mem root seconds readings).1 = .returned result →
        ReportsReads seconds (victimLoop mem root seconds readings) result := by
  rw [victimLoop]
  split
  case isTrue => exact ⟨0, by simp [List.iterate], fun result h => by cases h⟩
  case isFalse =>
  obtain ⟨turns, hreads, hcounts⟩ := @startLoop_spec ℕ (readChunk mem victimChunkReads)
    (UInt64.ofNat victimChunkReads) seconds readings root
  rw [chunkReads_readChunk] at hreads
  refine ⟨turns, hreads, fun result h => ?_⟩
  obtain ⟨hok, hturns, hoperations, hover⟩ := hcounts result h
  refine ⟨hok, ?_, ?_, hover⟩
  · rw [hreads, List.length_iterate, hoperations, UInt64.ofNat_mul]
    simp
  · rw [hreads, List.length_iterate]
    exact Nat.mul_pos hturns (by decide)

/-- The aggressor walks along its chains in turns. -/
theorem aggressorLoop_reads {roots : List ℕ} (hroots : roots.length = aggressorStreams)
    (seconds : Double) (readings : List (Option Timespec)) :
    ∃ turns, (aggressorLoop mem roots seconds readings).2 =
        takeTurns (load mem 8) (turns * aggressorChunkIters) roots ∧
      ∀ result, (aggressorLoop mem roots seconds readings).1 = .returned result →
        ReportsReads seconds (aggressorLoop mem roots seconds readings) result := by
  rw [aggressorLoop]
  split
  case isTrue => exact ⟨0, by simp [takeTurns], fun result h => by cases h⟩
  case isFalse =>
  obtain ⟨turns, hreads, hcounts⟩ := @startLoop_spec (List ℕ)
    (readStreams mem aggressorChunkIters)
    (UInt64.ofNat aggressorChunkIters * UInt64.ofNat aggressorStreams) seconds readings roots
  rw [chunkReads_readStreams] at hreads
  refine ⟨turns, hreads, fun result h => ?_⟩
  obtain ⟨hok, hturns, hoperations, hover⟩ := hcounts result h
  refine ⟨hok, ?_, ?_, hover⟩
  · rw [hreads, length_takeTurns, hroots, hoperations, UInt64.ofNat_mul, UInt64.ofNat_mul,
      mul_assoc]
    simp
  · rw [hreads, length_takeTurns, hroots]
    exact Nat.mul_pos (Nat.mul_pos hturns (by decide)) (by decide)

end Reads

/-! ## The classes of the reads -/

section Classes

variable {mapping : DramMapping} {pageSize space quotaLines : ℕ}
  {offsetClasses classes : List UInt64} {pool : MemoryPool pageSize}

/-- The address is one of a line of the class. -/
def inClass (set : LineSet pageSize) (mapping : DramMapping) (cls : UInt64) (address : ℕ) : Bool :=
  addressBankClass set mapping address = some cls

/-- A set of lines for the chains, with a quota of each class. -/
structure ClassLines (set : LineSet pageSize) (mapping : DramMapping) (classes : List UInt64)
    (quotaLines : ℕ) : Prop where
  apart : set.addresses.Pairwise (Apart 8)
  pointers : ∀ a ∈ set.addresses, a < 2 ^ 64
  length : set.addresses.length = classes.length * quotaLines
  quota : ∀ cls ∈ classes, set.addresses.countP (inClass set mapping cls) = quotaLines

theorem addressBankClass_inv {set : LineSet pageSize} {a : ℕ} {cls : UInt64}
    (h : addressBankClass set mapping a = some cls) : set.pool.base ≤ a ∧
      a < set.pool.base + set.pool.bytes ∧ (a - set.pool.base) % pageSize % cachelineBytes = 0 := by
  rw [addressBankClass, Nat.mod_eq_of_lt set.pool.mapped] at h
  split at h
  case isTrue => cases h
  case isFalse hin =>
  dsimp only at h
  split at h
  case isTrue => cases h
  case isFalse hoffset => exact ⟨by omega, by omega, not_not.1 hoffset⟩

/-- The lines of a pool are a whole number of lines from its start. -/
theorem Prepared.line_offset (h : Prepared mapping pageSize space offsetClasses)
    {set : LineSet pageSize} {a : ℕ} {cls : UInt64}
    (hclass : addressBankClass set mapping a = some cls) :
    set.pool.base ≤ a ∧ (a - set.pool.base) % cachelineBytes = 0 ∧ a < 2 ^ 64 := by
  obtain ⟨hbase, hend, hoffset⟩ := addressBankClass_inv hclass
  have hdvd : cachelineBytes ∣ pageSize := ⟨pageSize / cachelineBytes, by
    rw [Nat.mul_comm]
    exact h.page_eq⟩
  rw [Nat.mod_mod_of_dvd _ hdvd] at hoffset
  exact ⟨hbase, hoffset, hend.trans set.pool.mapped⟩

/-- With a quota of lines of every class in the pool, `collect_line_set` makes a set for chains. -/
theorem Prepared.exists_classLines (h : Prepared mapping pageSize space offsetClasses)
    (hquota : 0 < quotaLines) (hne : classes ≠ []) (hnodup : classes.Nodup)
    (hlt : ∀ cls ∈ classes, cls.toNat < space)
    (hcount : ∀ cls ∈ classes, quotaLines ≤ lineCount pool mapping offsetClasses cls)
    (seed : UInt64) : ∃ set,
      collectLineSet pool mapping offsetClasses space classes quotaLines seed = some set ∧
      ClassLines set mapping classes quotaLines := by
  obtain ⟨set, hset, hdistinct, hclasses⟩ :=
    h.collectLineSet_exact hquota hne hnodup hlt hcount seed
  have hline : ∀ a ∈ set.addresses, set.pool.base ≤ a ∧
      (a - set.pool.base) % cachelineBytes = 0 ∧ a < 2 ^ 64 := by
    intro a ha
    have hmem : addressBankClass set mapping a ∈
        (classes.map some).flatMap (List.replicate quotaLines) :=
      hclasses ▸ List.mem_map_of_mem ha
    obtain ⟨key, hkey, hrun⟩ := List.mem_flatMap.1 hmem
    obtain ⟨cls, -, rfl⟩ := List.mem_map.1 hkey
    exact h.line_offset (List.eq_of_mem_replicate hrun)
  refine ⟨set, hset, ?_, fun a ha => (hline a ha).2.2, ?_, fun cls hcls => ?_⟩
  -- different lines of the grid are 64 bytes apart, more than a pointer needs
  · refine hdistinct.pairwise_of_forall_ne fun a ha b hb hab => ?_
    obtain ⟨hbase, hoffset, -⟩ := hline a ha
    obtain ⟨hbase', hoffset', -⟩ := hline b hb
    rw [cachelineBytes] at hoffset hoffset'
    rw [Apart]
    omega
  · have hlength := congrArg List.length hclasses
    simpa [List.length_flatMap, Function.comp_def] using hlength
  · have hruns := @count_flatMap_replicate _ _ quotaLines _
      (hnodup.map (Option.some_injective UInt64)) (some cls)
    rw [if_pos (List.mem_map_of_mem hcls), ← hclasses] at hruns
    calc set.addresses.countP (inClass set mapping cls)
        = (set.addresses.map (addressBankClass set mapping)).countP (· = some cls) := by
          rw [List.countP_map]
          rfl
      _ = quotaLines := hruns

/-- The reads are of lines of the set, and each class gets a number of reads between two multiples
    of the quota. -/
structure LoadsClasses (set : LineSet pageSize) (mapping : DramMapping) (classes : List UInt64)
    (quotaLines least most : ℕ) (reads : List ℕ) : Prop where
  own : ∀ a ∈ reads, a ∈ set.addresses
  least : ∀ cls ∈ classes, least * quotaLines ≤ reads.countP (inClass set mapping cls)
  most : ∀ cls ∈ classes, reads.countP (inClass set mapping cls) ≤ most * quotaLines

section Loads

variable {set : LineSet pageSize} {mem : Memory} (hset : ClassLines set mapping classes quotaLines)
include hset

/-- A walk along one chain with all the lines. -/
theorem ClassLines.loads_of_cycle {root : ℕ} {places : List ℕ} (hne : places ≠ [])
    (hcycle : IsCycle (load mem 8) root places) (hperm : places.Perm set.addresses) (n : ℕ) :
    LoadsClasses set mapping classes quotaLines (n / (classes.length * quotaLines))
      (n / (classes.length * quotaLines) + 1) (List.iterate (load mem 8) root n) := by
  have hlength : places.length = classes.length * quotaLines :=
    hperm.length_eq.trans hset.length
  have hquota : ∀ cls ∈ classes, places.countP (inClass set mapping cls) = quotaLines :=
    fun cls hcls => (hperm.countP_eq _).trans (hset.quota cls hcls)
  refine ⟨fun a ha => hperm.mem_iff.1 (hcycle.mem_of_mem_iterate hne ha), fun cls hcls => ?_,
    fun cls hcls => ?_⟩
  · have hle := hcycle.le_countP_iterate hne (inClass set mapping cls) n
    rwa [hlength, hquota cls hcls] at hle
  · have hle := hcycle.countP_iterate_le hne (inClass set mapping cls) n
    rwa [hlength, hquota cls hcls] at hle

/-- Walks in turn along chains that have all the lines together. -/
theorem ClassLines.loads_of_cycles {streams : List ℕ} {root : ℕ → ℕ} {lines : ℕ → List ℕ}
    (hcycle : ∀ s ∈ streams, IsCycle (load mem 8) (root s) (lines s))
    (hperm : (streams.flatMap lines).Perm set.addresses) {lo hi : ℕ} (hlo : 0 < lo)
    (hlength : ∀ s ∈ streams, lo ≤ (lines s).length ∧ (lines s).length ≤ hi) (n : ℕ) :
    LoadsClasses set mapping classes quotaLines (n / hi) (n / lo + 1)
      (takeTurns (load mem 8) n (streams.map root)) := by
  have hne : ∀ s ∈ streams, lines s ≠ [] := fun s hs =>
    List.length_pos_iff.1 (hlo.trans_le (hlength s hs).1)
  have hquota : ∀ cls ∈ classes,
      (streams.flatMap lines).countP (inClass set mapping cls) = quotaLines :=
    fun cls hcls => (hperm.countP_eq _).trans (hset.quota cls hcls)
  refine ⟨fun a ha => hperm.mem_iff.1 (mem_of_mem_takeTurns hcycle hne ha), fun cls hcls => ?_,
    fun cls hcls => ?_⟩
  · have hle := le_countP_takeTurns hcycle hne (fun s hs => (hlength s hs).2)
      (inClass set mapping cls) n
    rwa [hquota cls hcls] at hle
  · have hle := countP_takeTurns_le hcycle hne hlo (fun s hs => (hlength s hs).1)
      (inClass set mapping cls) n
    rwa [hquota cls hcls] at hle

end Loads

/-- The streams are as long as each other, up to one line. -/
theorem length_streamLines {set : LineSet pageSize} (permutation : List ℕ) {streamCount s : ℕ}
    (hs : s < streamCount) :
    set.addresses.length / streamCount ≤ (streamLines set permutation streamCount s).length ∧
      (streamLines set permutation streamCount s).length ≤
        (set.addresses.length + streamCount - 1) / streamCount := by
  rw [streamLines, List.length_map, stride, List.length_range']
  exact ⟨Nat.div_le_div_right (by omega), Nat.div_le_div_right (by omega)⟩

/-- There is an order of the lines. -/
theorem exists_permutation {count : ℕ} (hcount : count ≠ 0) (seed : UInt64) :
    ∃ permutation, makePermutation count seed = some permutation ∧
      permutation.Perm (List.range count) :=
  ⟨_, if_neg hcount, shuffle_perm _ _⟩

end Classes

/-- For every pool that has a quota of lines of each of some classes, the lines are collected and
    made a chain. Whatever the clock shows, and for how many seconds the victim follows it, it reads
    lines of the set only, and of each class as many as of any other, up to one turn of the chain.
    It returns when the time has come, and reports all its reads. -/
theorem victim_loads_classes {mapping : DramMapping} {pageSize space quotaLines : ℕ}
    {offsetClasses classes : List UInt64} {pool : MemoryPool pageSize}
    (h : Prepared mapping pageSize space offsetClasses) (hquota : 0 < quotaLines)
    (hne : classes ≠ []) (hnodup : classes.Nodup) (hlt : ∀ cls ∈ classes, cls.toNat < space)
    (hcount : ∀ cls ∈ classes, quotaLines ≤ lineCount pool mapping offsetClasses cls)
    (seed chainSeed : UInt64) (mem : Memory) :
    ∃ set permutation mem' root,
      collectLineSet pool mapping offsetClasses space classes quotaLines seed = some set ∧
      makePermutation set.addresses.length chainSeed = some permutation ∧
      buildSingleChain set permutation mem = some (mem', root) ∧
      ∀ seconds readings,
        let out := victimLoop mem' root seconds readings
        let rounds := out.2.length / (classes.length * quotaLines)
        LoadsClasses set mapping classes quotaLines rounds (rounds + 1) out.2 ∧
        (∀ result, out.1 = .returned result → ReportsReads seconds out result) ∧
        ((∃ result, out.1 = .returned result) ↔
          root ≠ 0 ∧ Double.le seconds (.ofRat 0) = false ∧ TimeComes seconds readings) := by
  obtain ⟨set, hcollect, hset⟩ :=
    h.exists_classLines hquota hne hnodup hlt hcount seed
  have hpos : set.addresses.length ≠ 0 := by
    rw [hset.length]
    exact (Nat.mul_pos (List.length_pos_iff.2 hne) hquota).ne'
  obtain ⟨permutation, hpermutation, hperm⟩ := exists_permutation hpos chainSeed
  have hlines := map_lineAt_perm hperm
  have hhead : ((List.range set.addresses.length).map (lineAt set permutation)).head? =
      some (lineAt set permutation 0) := by
    rw [List.head?_map, List.head?_range, if_neg hpos, Option.map_some]
  have hplaces : (List.range set.addresses.length).map (lineAt set permutation) ≠ [] := by
    rw [← List.length_pos_iff, List.length_map, List.length_range]
    exact Nat.pos_of_ne_zero hpos
  have hall : ([0].flatMap fun _ : ℕ => (List.range set.addresses.length).map
      (lineAt set permutation)).Perm set.addresses := by
    rwa [List.flatMap_singleton]
  have hcycle := isCycle_links mem hset.apart hset.pointers hall (List.mem_singleton_self 0) hhead
  rw [List.flatMap_singleton] at hcycle
  refine ⟨set, permutation, _, _, hcollect, hpermutation, buildSingleChain_eq hpos,
    fun seconds readings => ?_⟩
  intro out rounds
  obtain ⟨turns, hreads, hreports⟩ := victimLoop_reads _ seconds readings
  refine ⟨?_, hreports, ?_⟩
  · have hloads := hset.loads_of_cycle hplaces hcycle hlines (turns * victimChunkReads)
    rw [← hreads] at hloads
    have hlength : out.2.length = turns * victimChunkReads := by
      rw [hreads, List.length_iterate]
    rwa [← hlength] at hloads
  · dsimp only [out]
    rw [victimLoop]
    split
    case isTrue hbad =>
      constructor
      · rintro ⟨result, hreturned⟩
        cases hreturned
      · rintro ⟨hroot, hseconds, -⟩
        exact absurd hbad (by simp [hroot, hseconds])
    case isFalse hgood =>
      rw [not_or, Bool.not_eq_true] at hgood
      exact (startLoop_returns_iff readings _).trans
        ⟨fun hcomes => ⟨hgood.1, hgood.2, hcomes⟩, fun hcomes => hcomes.2.2⟩

/-- Three masks and a pool of two pages with eight lines each: four classes, with two lines each. -/
theorem victim_loads_classes_four :
    let mapping : DramMapping := ⟨[0x40, 0x80, 0x100], [], true⟩
    let pool : MemoryPool 512 := ⟨0x10000, 1024, 2, [5, 9], rfl, by decide, rfl⟩
    ∃ set mem root, collectLineSet pool mapping [0, 1, 2, 3, 4, 5, 6, 7] 8 [1, 4, 3, 5] 2 42 =
        some set ∧
      ∀ seconds readings, let reads := (victimLoop mem root seconds readings).2
        LoadsClasses set mapping [1, 4, 3, 5] 2 (reads.length / 8) (reads.length / 8 + 1)
          reads := by
  intro mapping pool
  have h : Prepared mapping 512 8 [0, 1, 2, 3, 4, 5, 6, 7] :=
    ⟨by decide, ⟨9, by decide, by decide⟩, by decide +kernel⟩
  -- decided along the list, not for every word that a class may be
  have hclasses : ∀ cls ∈ [1, 4, 3, 5],
      cls.toNat < 8 ∧ 2 ≤ lineCount pool mapping [0, 1, 2, 3, 4, 5, 6, 7] cls := by
    rw [← List.forall_iff_forall_mem]
    decide +kernel
  obtain ⟨set, permutation, mem, root, hset, -, -, hloop⟩ := victim_loads_classes h (by decide)
    (by simp) (by decide) (fun cls hcls => (hclasses cls hcls).1)
    (fun cls hcls => (hclasses cls hcls).2) 42 7 fun _ => 0
  exact ⟨set, mem, root, hset, fun seconds readings => (hloop seconds readings).1⟩

/-- For every pool that has a quota of lines of each of some classes, at least one line a stream,
    the lines are collected and made chains. Whatever the clock shows, and for how many seconds the
    aggressor follows them, it reads lines of the set only, and of each class as many as of any
    other, up to one turn of a stream, and what the streams differ in length. It returns when the
    time has come, and reports all its reads. -/
theorem aggressor_loads_classes {mapping : DramMapping} {pageSize space quotaLines : ℕ}
    {offsetClasses classes : List UInt64} {pool : MemoryPool pageSize}
    (h : Prepared mapping pageSize space offsetClasses)
    (hstreams : aggressorStreams ≤ classes.length * quotaLines) (hnodup : classes.Nodup)
    (hlt : ∀ cls ∈ classes, cls.toNat < space)
    (hcount : ∀ cls ∈ classes, quotaLines ≤ lineCount pool mapping offsetClasses cls)
    (seed chainSeed : UInt64) (mem : Memory) :
    ∃ set permutation mem' roots,
      collectLineSet pool mapping offsetClasses space classes quotaLines seed = some set ∧
      makePermutation set.addresses.length chainSeed = some permutation ∧
      buildMultiChain set permutation aggressorStreams mem = some (mem', roots) ∧
      ∀ seconds readings,
        let out := aggressorLoop mem' roots seconds readings
        let turns := out.2.length / aggressorStreams
        let lines := classes.length * quotaLines
        LoadsClasses set mapping classes quotaLines
          (turns / ((lines + aggressorStreams - 1) / aggressorStreams))
          (turns / (lines / aggressorStreams) + 1) out.2 ∧
        (∀ result, out.1 = .returned result → ReportsReads seconds out result) ∧
        ((∃ result, out.1 = .returned result) ↔
          Double.le seconds (.ofRat 0) = false ∧ TimeComes seconds readings) := by
  have hfull : 0 < classes.length * quotaLines := Nat.lt_of_lt_of_le (by decide) hstreams
  obtain ⟨set, hcollect, hset⟩ := h.exists_classLines (Nat.pos_of_mul_pos_left hfull)
    (List.length_pos_iff.1 (Nat.pos_of_mul_pos_right hfull)) hnodup hlt hcount seed
  have hle : aggressorStreams ≤ set.addresses.length := hset.length ▸ hstreams
  have hstream : 0 < aggressorStreams := by decide
  obtain ⟨permutation, hpermutation, hperm⟩ :=
    exists_permutation (hstream.trans_le hle).ne' chainSeed
  -- the streams have each line once, and each stream is a cycle in the memory that is left
  have hlines := flatMap_streamLines_perm hstream hperm
  have hcycle : ∀ s ∈ List.range aggressorStreams, IsCycle (load (storeAll 8 mem
      ((List.range aggressorStreams).flatMap fun stream =>
        cycleLinks (streamLines set permutation aggressorStreams stream))) 8)
      (lineAt set permutation s) (streamLines set permutation aggressorStreams s) := by
    intro s hs
    refine isCycle_links mem hset.apart hset.pointers hlines hs ?_
    rw [streamLines_cons hstream ((List.mem_range.1 hs).trans_le hle), List.head?_cons]
  refine ⟨set, permutation, _, _, hcollect, hpermutation, buildMultiChain_eq hstream hle,
    fun seconds readings => ?_⟩
  intro out turns lines
  have hroots : ((List.range aggressorStreams).map (lineAt set permutation)).length =
      aggressorStreams := by
    rw [List.length_map, List.length_range]
  obtain ⟨n, hreads, hreports⟩ := aggressorLoop_reads hroots seconds readings
  refine ⟨?_, hreports, ?_⟩
  · have hloads := hset.loads_of_cycles hcycle hlines (Nat.div_pos hle hstream)
      (fun s hs => length_streamLines permutation (List.mem_range.1 hs)) (n * aggressorChunkIters)
    rw [← hreads, hset.length] at hloads
    have hturns : turns = n * aggressorChunkIters := by
      dsimp only [turns, out]
      rw [hreads, length_takeTurns, List.length_map, List.length_range,
        Nat.mul_div_cancel _ hstream]
    rwa [← hturns] at hloads
  · dsimp only [out]
    rw [aggressorLoop]
    split
    case isTrue hbad =>
      constructor
      · rintro ⟨result, hreturned⟩
        cases hreturned
      · rintro ⟨hseconds, -⟩
        exact absurd hbad (by simp [hseconds])
    case isFalse hgood =>
      rw [Bool.not_eq_true] at hgood
      exact (startLoop_returns_iff readings _).trans
        ⟨fun hcomes => ⟨hgood, hcomes⟩, fun hcomes => hcomes.2⟩

/-- All eight classes of the pool, in streams of one line each, and a second that is over at the
    third look at the clock. -/
theorem aggressor_loads_classes_eight :
    ∃ mem roots result, (aggressorLoop mem roots (.ofRat 1)
      [some ⟨7, 0⟩, some ⟨7, 400000000⟩, some ⟨7, 800000000⟩, some ⟨8, 0⟩]).1 =
        .returned result := by
  let mapping : DramMapping := ⟨[0x40, 0x80, 0x100], [], true⟩
  let pool : MemoryPool 512 := ⟨0x10000, 1024, 2, [5, 9], rfl, by decide, rfl⟩
  have h : Prepared mapping 512 8 [0, 1, 2, 3, 4, 5, 6, 7] :=
    ⟨by decide, ⟨9, by decide, by decide⟩, by decide +kernel⟩
  have hclasses : ∀ cls ∈ [1, 4, 3, 5, 6, 2, 7, 0],
      cls.toNat < 8 ∧ 2 ≤ lineCount pool mapping [0, 1, 2, 3, 4, 5, 6, 7] cls := by
    rw [← List.forall_iff_forall_mem]
    decide +kernel
  obtain ⟨set, permutation, mem, roots, -, -, -, hloop⟩ := aggressor_loads_classes h (by decide)
    (by decide) (fun cls hcls => (hclasses cls hcls).1) (fun cls hcls => (hclasses cls hcls).2)
    42 7 fun _ => 0
  obtain ⟨-, -, hreturns⟩ := hloop (.ofRat 1)
    [some ⟨7, 0⟩, some ⟨7, 400000000⟩, some ⟨7, 800000000⟩, some ⟨8, 0⟩]
  have hcomes : TimeComes (.ofRat 1)
      [some ⟨7, 0⟩, some ⟨7, 400000000⟩, some ⟨7, 800000000⟩, some ⟨8, 0⟩] := by
    refine ⟨⟨7, 0⟩, [some ⟨7, 400000000⟩, some ⟨7, 800000000⟩], ⟨8, 0⟩, [], rfl, ?_, ?_⟩
    · intro reading hreading
      rcases List.mem_pair.1 hreading with rfl | rfl
      · exact ⟨_, rfl, by decide +kernel⟩
      · exact ⟨_, rfl, by decide +kernel⟩
    · decide +kernel
  exact ⟨mem, roots, hreturns.2 ⟨by decide +kernel, hcomes⟩⟩

end CgroupResearch
