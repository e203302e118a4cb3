import CgroupResearch.Process.Refinement

/-!
# Snapshots of the process table

`process_snapshot` copies the occupied records of the table into a buffer of the
caller. A first pass counts them and checks the table, without writing; only if
they all fit does a second pass copy them.

* `Inv.snapshotCheck_eq`: on a table that keeps its invariant, the first pass
  finds nothing wrong and counts the occupied slots;
* `snapshotCopy_eq`: the second pass writes the records of the occupied slots one
  after the other, and nothing else;
* `SnapshotSpec`: the snapshot is all or nothing, and exact.
-/

namespace CgroupResearch

open OpenAddressing Machine

/-- The return codes of `process.h`. -/
inductive ProcessRc
  | ok
  | errInvalidArg
  | errNoSpace
  | errInconsistent
  deriving DecidableEq, Repr

/-- The slots of the table, in the order of the loops over them. -/
@[irreducible] def allSlots : List (Fin procMax) := List.finRange procMax

theorem mem_allSlots (i : Fin procMax) : i ∈ allSlots := by
  unfold allSlots
  exact List.mem_finRange i

theorem nodup_allSlots : allSlots.Nodup := by
  unfold allSlots
  exact List.nodup_finRange procMax

/-- The first pass of `process_snapshot`, over the slots left: the number of the
    occupied ones, `none` on a slot whose state and record contradict. -/
def snapshotCheck (t : ProcessTable) : List (Fin procMax) → ℕ → Option ℕ
  | [], actualCount => some actualCount
  | i :: is, actualCount =>
    if t.slotStates i = .occupied then
      if (t.procTable i).used = false ∨ (t.procTable i).pid ≤ 0 then
        none
      else
        snapshotCheck t is (actualCount + 1)
    else if (t.procTable i).used then
      none
    else
      snapshotCheck t is actualCount

/-- The second pass of `process_snapshot`, over the slots left, with the buffer
    and the number of records copied. -/
def snapshotCopy (t : ProcessTable) :
    List (Fin procMax) → (ℕ → ProcInfo) → ℕ → (ℕ → ProcInfo) × ℕ
  | [], out, copiedCount => (out, copiedCount)
  | i :: is, out, copiedCount =>
    if t.slotStates i ≠ .occupied then
      snapshotCopy t is out copiedCount
    else
      snapshotCopy t is (Function.update out copiedCount (t.procTable i)) (copiedCount + 1)

/-- What `process_snapshot` leaves: its return code, the buffer `out` and
    `*out_count`. -/
structure Snapshot where
  rc : ProcessRc
  out : ℕ → ProcInfo
  outCount : ℕ

/-- `process_snapshot`, into a buffer `out` of `capacity` records. -/
def processSnapshot (t : ProcessTable) (out : ℕ → ProcInfo) (capacity : ℕ) : Snapshot :=
  match snapshotCheck t allSlots 0 with
  | none => ⟨.errInconsistent, out, 0⟩
  | some actualCount =>
    if actualCount ≠ t.occupiedCount then
      ⟨.errInconsistent, out, 0⟩
    else if capacity < actualCount then
      ⟨.errNoSpace, out, 0⟩
    else
      let (out, copiedCount) := snapshotCopy t allSlots out 0
      ⟨.ok, out, copiedCount⟩

namespace ProcessTable

variable {t : ProcessTable}

/-! ## The passes -/

/-- The occupied slots among `is`, in their order. -/
def occupiedIn (t : ProcessTable) (is : List (Fin procMax)) : List (Fin procMax) :=
  is.filter fun i => t.slotStates i = .occupied

theorem occupiedIn_cons_of_occupied {i : Fin procMax} (hi : t.slotStates i = .occupied)
    (is : List (Fin procMax)) : t.occupiedIn (i :: is) = i :: t.occupiedIn is := by
  simp [occupiedIn, hi]

theorem occupiedIn_cons_of_vacant {i : Fin procMax} (hi : t.slotStates i ≠ .occupied)
    (is : List (Fin procMax)) : t.occupiedIn (i :: is) = t.occupiedIn is := by
  simp [occupiedIn, hi]

/-- The first pass finds nothing wrong, and counts the occupied slots. -/
theorem Inv.snapshotCheck_eq (h : t.Inv) (is : List (Fin procMax)) (n : ℕ) :
    snapshotCheck t is n = some (n + (t.occupiedIn is).length) := by
  induction is generalizing n with
  | nil => rfl
  | cons i is ih =>
    rw [snapshotCheck]
    by_cases hi : t.slotStates i = .occupied
    · have hok : ¬((t.procTable i).used = false ∨ (t.procTable i).pid ≤ 0) := by
        rw [h.used i hi]
        simpa using h.pos i hi
      rw [if_pos hi, if_neg hok, ih, occupiedIn_cons_of_occupied hi, List.length_cons]
      congr 1
      omega
    · -- A vacant slot holds a zero record, which is not used.
      rw [if_neg hi, h.vacant i hi, if_neg (by decide), ih, occupiedIn_cons_of_vacant hi]

/-- The second pass writes the occupied records from the index `n` on. -/
theorem snapshotCopy_eq (is : List (Fin procMax)) (out : ℕ → ProcInfo) (n : ℕ) :
    (snapshotCopy t is out n).2 = n + (t.occupiedIn is).length ∧
    (∀ k (hk : k < (t.occupiedIn is).length),
      (snapshotCopy t is out n).1 (n + k) = t.procTable (t.occupiedIn is)[k]) ∧
    ∀ k, k < n ∨ n + (t.occupiedIn is).length ≤ k → (snapshotCopy t is out n).1 k = out k := by
  induction is generalizing out n with
  | nil => exact ⟨rfl, nofun, fun _ _ => rfl⟩
  | cons i is ih =>
    rw [snapshotCopy]
    by_cases hi : t.slotStates i = .occupied
    · rw [if_neg (not_not.2 hi)]
      obtain ⟨hcount, hcopied, hframe⟩ := ih (Function.update out n (t.procTable i)) (n + 1)
      simp only [occupiedIn_cons_of_occupied hi, List.length_cons]
      refine ⟨by rw [hcount]; omega, fun k hk => ?_, fun k hk => ?_⟩
      · cases k with
        | zero =>
          -- The record written now is below what the rest of the pass writes.
          exact (hframe n (by omega)).trans (Function.update_self _ _ _)
        | succ k =>
          rw [show n + (k + 1) = n + 1 + k by omega, hcopied k (by omega)]
          rfl
      · rw [hframe k (by omega), Function.update_of_ne (by omega)]
    · rw [if_pos hi]
      simp only [occupiedIn_cons_of_vacant hi]
      exact ih out n

/-- The slots of the snapshot, in its order. -/
def slots (t : ProcessTable) : List (Fin procMax) := t.occupiedIn allSlots

theorem mem_slots {i : Fin procMax} : i ∈ t.slots ↔ t.slotStates i = .occupied := by
  simp [slots, occupiedIn, mem_allSlots]

theorem nodup_slots : t.slots.Nodup := nodup_allSlots.filter _

theorem Inv.length_slots (h : t.Inv) : t.slots.length = processTableCount t := by
  have hslots : t.slots.toFinset = t.occupiedSlots := by
    ext i
    rw [List.mem_toFinset, mem_slots, mem_occupiedSlots]
  exact (List.toFinset_card_of_nodup nodup_slots).symm.trans (hslots ▸ h.count.symm)

/-- Looking a pid up gives the slots of the snapshot. -/
theorem Inv.mem_slots_iff (h : t.Inv) {i : Fin procMax} :
    i ∈ t.slots ↔ ∃ q, processGet t q = some i := by
  rw [mem_slots]
  constructor
  · exact fun hi => ⟨_, h.processGet_eq_some_iff.2 (view_eq_live_iff.2 ⟨hi, rfl⟩)⟩
  · exact fun ⟨q, hq⟩ => (view_eq_live_iff.1 (h.processGet_eq_some_iff.1 hq)).1

/-- Two slots of the snapshot with one record are the same slot: the record holds
    its pid, and a pid has one slot only. -/
theorem Inv.slot_inj (h : t.Inv) {i j : Fin procMax} (hi : i ∈ t.slots) (hj : j ∈ t.slots)
    (hij : t.procTable i = t.procTable j) : i = j :=
  h.wf.unique i j _ (view_eq_live_iff.2 ⟨mem_slots.1 hi, rfl⟩)
    (view_eq_live_iff.2 ⟨mem_slots.1 hj, by rw [hij]⟩)

end ProcessTable

/-! ## The snapshot -/

/-- The snapshot `s` of the table `t` into the buffer `out` of `capacity` records
    is an exact copy, or nothing. -/
structure SnapshotSpec (t : ProcessTable) (out : ℕ → ProcInfo) (capacity : ℕ) (s : Snapshot) :
    Prop where
  /-- The table is never found inconsistent. -/
  consistent : s.rc ≠ .errInconsistent
  /-- There is room: the buffer starts with one copy of the record of every pid
      that has one, and nothing else. -/
  copied : processTableCount t ≤ capacity →
    s.rc = .ok ∧ s.outCount = processTableCount t ∧
    (∀ q i, processGet t q = some i → ∃! k, k < s.outCount ∧ s.out k = t.procTable i) ∧
    (∀ k < s.outCount, ∃ q i, processGet t q = some i ∧ s.out k = t.procTable i) ∧
    ∀ k, s.outCount ≤ k → s.out k = out k
  /-- There is none: nothing is written. -/
  refused : capacity < processTableCount t → s.rc = .errNoSpace ∧ s.outCount = 0 ∧ s.out = out

/-- A table with the invariant is copied whole or not at all. -/
theorem ProcessTable.Inv.snapshotSpec {t : ProcessTable} (h : t.Inv) (out : ℕ → ProcInfo)
    (capacity : ℕ) : SnapshotSpec t out capacity (processSnapshot t out capacity) := by
  have hlen := h.length_slots
  have hcheck : snapshotCheck t allSlots 0 = some t.occupiedCount := by
    rw [h.snapshotCheck_eq, Nat.zero_add]
    exact congrArg some hlen
  obtain ⟨hcount, hcopied, hframe⟩ := snapshotCopy_eq (t := t) allSlots out 0
  rw [show t.occupiedIn allSlots = t.slots from rfl, Nat.zero_add] at hcount hframe
  have hcopied' : ∀ k (hk : k < t.slots.length),
      (snapshotCopy t allSlots out 0).1 k = t.procTable t.slots[k] := by
    intro k hk
    have := hcopied k hk
    rwa [Nat.zero_add] at this
  rw [processSnapshot, hcheck]
  dsimp only
  rw [if_neg (not_not.2 rfl)]
  by_cases hroom : capacity < t.occupiedCount
  · rw [if_pos hroom]
    exact ⟨nofun, fun hle => absurd hroom (not_lt.2 hle), fun _ => ⟨rfl, rfl, rfl⟩⟩
  · rw [if_neg hroom]
    refine ⟨nofun, fun _ => ?_, fun hlt => absurd hlt hroom⟩
    dsimp only
    rw [hcount]
    refine ⟨rfl, hlen, fun q i hq => ?_, fun k hk => ?_, fun k hk => ?_⟩
    · have hi : i ∈ t.slots := h.mem_slots_iff.2 ⟨q, hq⟩
      obtain ⟨k, hk, rfl⟩ := List.getElem_of_mem hi
      refine ⟨k, ⟨hk, hcopied' k hk⟩, fun k' ⟨hk', heq⟩ => ?_⟩
      rw [hcopied' k' hk'] at heq
      exact (ProcessTable.nodup_slots.getElem_inj_iff).1
        (h.slot_inj (List.getElem_mem hk') hi heq)
    · obtain ⟨q, hq⟩ := h.mem_slots_iff.1 (List.getElem_mem hk)
      exact ⟨q, _, hq, hcopied' k hk⟩
    · exact hframe k (.inr hk)

/-- After any run from a reset table, a snapshot is an exact copy or nothing. -/
theorem process_snapshot_exact (ops : List TableOp) (out : ℕ → ProcInfo) (capacity : ℕ) :
    SnapshotSpec (after ProcessTable.step processTableReset ops) out capacity
      (processSnapshot (after ProcessTable.step processTableReset ops) out capacity) :=
  (simulation Represents represents_reset represents_step ops).2.inv.snapshotSpec out capacity

end CgroupResearch
