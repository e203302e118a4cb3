import CgroupResearch.Process.Table

/-!
# The invariant of the process table

The table is read as an open-addressing table of pids (`ProcessTable.view`), so
that the probe loops of the source are `OpenAddressing.lookup` and
`OpenAddressing.claim` on it. The invariant (`ProcessTable.Inv`) adds to the
well-formedness of this table that occupied slots hold used records of positive
pids, that the other records are zero, and that the count is right.

The content of the table is the record it holds for each pid
(`ProcessTable.record`). What the operations do to it:

* `Inv.prepareUpsert_spec`: a pointer is given through which the record of the pid
  can be written, keeping all the others, or there is no room;
* `Inv.processRemove_spec`: removing a pid erases its record and keeps all the
  others.
-/

namespace CgroupResearch

open OpenAddressing

namespace ProcessTable

/-- The slots, as those of an open-addressing table of pids. -/
def view (t : ProcessTable) (i : Fin procMax) : Cell ℤ :=
  match t.slotStates i with
  | .empty => .empty
  | .tombstone => .tombstone
  | .occupied => .live (t.procTable i).pid

theorem view_eq_live_iff {t : ProcessTable} {i : Fin procMax} {q : ℤ} :
    t.view i = .live q ↔ t.slotStates i = .occupied ∧ (t.procTable i).pid = q := by
  unfold view
  cases t.slotStates i <;> simp

/-- The occupied slots. -/
def occupiedSlots (t : ProcessTable) : Finset (Fin procMax) :=
  Finset.univ.filter fun i => t.slotStates i = .occupied

theorem mem_occupiedSlots {t : ProcessTable} {i : Fin procMax} :
    i ∈ t.occupiedSlots ↔ t.slotStates i = .occupied := by
  simp [occupiedSlots]

/-- The invariant of the table. -/
structure Inv (t : ProcessTable) : Prop where
  wf : WellFormed processHash t.view
  used : ∀ i, t.slotStates i = .occupied → (t.procTable i).used = true
  pos : ∀ i, t.slotStates i = .occupied → 0 < (t.procTable i).pid
  vacant : ∀ i, t.slotStates i ≠ .occupied → t.procTable i = .zero
  count : t.occupiedCount = t.occupiedSlots.card

/-- The invariant holds of a table that was reset. -/
theorem inv_reset : processTableReset.Inv where
  wf := wellFormed_empty
  used _ h := nomatch h
  pos _ h := nomatch h
  vacant _ _ := rfl
  count := by simp [occupiedSlots, processTableReset]

variable {t : ProcessTable} {i : Fin procMax} {pid q : ℤ} {p : ProcInfo}

theorem Inv.pos_of_live (h : t.Inv) (hi : t.view i = .live q) : 0 < q := by
  obtain ⟨hs, rfl⟩ := view_eq_live_iff.1 hi
  exact h.pos i hs

/-! ## The probe loops -/

theorem Inv.findExistingStep_eq (h : t.Inv) : findExistingStep t pid = lookupStep t.view pid := by
  funext idx u
  simp only [findExistingStep, lookupStep, view]
  cases hs : t.slotStates idx with
  | empty => simp
  | tombstone => simp
  | occupied => simp [h.used idx hs]

theorem Inv.findUpsertStep_eq (h : t.Inv) : findUpsertStep t pid = claimStep t.view pid := by
  funext idx tomb
  simp only [findUpsertStep, claimStep, view]
  cases hs : t.slotStates idx with
  | empty => cases tomb <;> simp
  | tombstone => cases tomb <;> simp
  | occupied => simp [h.used idx hs]

/-- Looking for a process is the search in the abstract table. -/
theorem Inv.findExistingSlot_eq (h : t.Inv) (hp : 0 < pid) :
    findExistingSlot t pid = lookup t.view (processHash pid) pid := by
  rw [findExistingSlot, if_neg (not_le.2 hp), h.findExistingStep_eq, lookup]
  cases scan (lookupStep t.view pid) (processHash pid) procMax 0 () <;> rfl

/-- Looking for a place is the search in the abstract table. -/
theorem Inv.findUpsertSlot_eq (h : t.Inv) (hp : 0 < pid) :
    findUpsertSlot t pid = claim t.view (processHash pid) pid := by
  rw [findUpsertSlot, if_neg (not_le.2 hp), h.findUpsertStep_eq, claim]
  cases scan (claimStep t.view pid) (processHash pid) procMax 0 none with
  | inl r => rfl
  | inr tomb => cases tomb <;> rfl

/-- A pointer is found for a pid iff its slot holds it. -/
theorem Inv.processGet_eq_some_iff (h : t.Inv) :
    processGet t q = some i ↔ t.view i = .live q := by
  by_cases hq : 0 < q
  · rw [processGet, h.findExistingSlot_eq hq, lookup_eq_some_iff h.wf]
  · rw [processGet, findExistingSlot, if_pos (not_lt.1 hq)]
    exact ⟨nofun, fun hi => absurd (h.pos_of_live hi) hq⟩

theorem Inv.processGet_eq_none_iff (h : t.Inv) :
    processGet t q = none ↔ ∀ i, t.view i ≠ .live q := by
  rw [Option.eq_none_iff_forall_ne_some]
  exact forall_congr' fun i => not_congr h.processGet_eq_some_iff

/-! ## Records -/

/-- The record of a pid. -/
def record (t : ProcessTable) (q : ℤ) : Option ProcInfo := (processGet t q).map t.procTable

theorem Inv.record_eq_some_iff (h : t.Inv) :
    t.record q = some p ↔ ∃ i, t.view i = .live q ∧ t.procTable i = p := by
  rw [record, Option.map_eq_some_iff]
  exact exists_congr fun i => and_congr_left fun _ => h.processGet_eq_some_iff

theorem Inv.record_eq_none_iff (h : t.Inv) : t.record q = none ↔ ∀ i, t.view i ≠ .live q := by
  rw [record, Option.map_eq_none_iff, h.processGet_eq_none_iff]

theorem Inv.record_of_live (h : t.Inv) (hi : t.view i = .live q) :
    t.record q = some (t.procTable i) :=
  h.record_eq_some_iff.2 ⟨i, hi, rfl⟩

theorem Inv.pos_of_record (h : t.Inv) (hq : t.record q = some p) : 0 < q := by
  obtain ⟨i, hi, _⟩ := h.record_eq_some_iff.1 hq
  exact h.pos_of_live hi

/-- The records of a table whose slots differ from those of `t` in the slot `i`
    only, which holds `q` now and held no other pid. -/
theorem Inv.record_update {t' : ProcessTable} (h : t.Inv) (h' : t'.Inv)
    (hi : t'.view i = .live q) (hold : ∀ q', t.view i = .live q' → q' = q)
    (hv : ∀ i' ≠ i, t'.view i' = t.view i') (hp : ∀ i' ≠ i, t'.procTable i' = t.procTable i')
    (q' : ℤ) : t'.record q' = if q' = q then some (t'.procTable i) else t.record q' := by
  split_ifs with hq
  · exact hq ▸ h'.record_of_live hi
  · refine Option.ext fun p => ?_
    rw [h'.record_eq_some_iff, h.record_eq_some_iff]
    refine exists_congr fun i' => ?_
    by_cases hii : i' = i
    · subst hii
      exact ⟨fun hl => absurd (Cell.live.inj (hl.1.symm.trans hi)) hq,
        fun hl => absurd (hold q' hl.1) hq⟩
    · rw [hv i' hii, hp i' hii]

/-! ## Upserts -/

/-- The table with a free slot taken, as `prepareUpsert` leaves it. -/
def take (t : ProcessTable) (i : Fin procMax) : ProcessTable :=
  { (t.setProc i .zero).setState i .occupied with occupiedCount := t.occupiedCount + 1 }

theorem Inv.occupiedCount_lt (h : t.Inv) (hi : t.slotStates i ≠ .occupied) :
    t.occupiedCount < procMax := by
  rw [h.count]
  refine (Finset.card_lt_univ_of_notMem (x := i) ?_).trans_eq (Fintype.card_fin procMax)
  rwa [mem_occupiedSlots]

/-- What `prepareUpsert` does: it finds the slot of the pid, or takes a free slot,
    or fails, when all the slots are occupied by other pids. -/
theorem Inv.prepareUpsert_cases (h : t.Inv) (hp : 0 < pid) :
    (∃ i, prepareUpsert t pid = some (i, true, t) ∧ t.view i = .live pid) ∨
    (∃ i, prepareUpsert t pid = some (i, false, t.take i) ∧ (∀ i', t.view i' ≠ .live pid) ∧
      Storable processHash t.view pid i) ∨
    (prepareUpsert t pid = none ∧ (∀ i, t.view i ≠ .live pid) ∧ ∀ i, ∃ q, t.view i = .live q) := by
  rcases claim_cases h.wf pid with ⟨i, hc, hi⟩ | ⟨i, hc, habs, hst⟩ | ⟨hc, habs, hfull⟩
  · exact .inl ⟨i, by rw [prepareUpsert, h.findUpsertSlot_eq hp, hc], hi⟩
  · have hs : t.slotStates i ≠ .occupied := fun hs => hst.free _ (view_eq_live_iff.2 ⟨hs, rfl⟩)
    refine .inr (.inl ⟨i, ?_, habs, hst⟩)
    rw [prepareUpsert, h.findUpsertSlot_eq hp, hc]
    exact if_neg (not_le.2 (h.occupiedCount_lt hs))
  · exact .inr (.inr ⟨by rw [prepareUpsert, h.findUpsertSlot_eq hp, hc], habs, hfull⟩)

/-- A write to one slot keeps the invariant, if the slot is as it has to be then. -/
theorem Inv.update_slot (h : t.Inv) {t' : ProcessTable} (hwf : WellFormed processHash t'.view)
    (hproc : ∀ i' ≠ i, t'.procTable i' = t.procTable i')
    (hstate : ∀ i' ≠ i, t'.slotStates i' = t.slotStates i')
    (hlive : t'.slotStates i = .occupied →
      (t'.procTable i).used = true ∧ 0 < (t'.procTable i).pid)
    (hvacant : t'.slotStates i ≠ .occupied → t'.procTable i = .zero)
    (hcount : t'.occupiedCount = t'.occupiedSlots.card) : t'.Inv := by
  have hslot : ∀ i', (t'.slotStates i' = .occupied →
        (t'.procTable i').used = true ∧ 0 < (t'.procTable i').pid) ∧
      (t'.slotStates i' ≠ .occupied → t'.procTable i' = .zero) := by
    intro i'
    by_cases hii : i' = i
    · subst hii
      exact ⟨hlive, hvacant⟩
    · rw [hproc i' hii, hstate i' hii]
      exact ⟨fun hs => ⟨h.used i' hs, h.pos i' hs⟩, h.vacant i'⟩
  exact ⟨hwf, fun i' hs => ((hslot i').1 hs).1, fun i' hs => ((hslot i').1 hs).2,
    fun i' => (hslot i').2, hcount⟩

/-- Writing a record over that of its pid. -/
theorem Inv.put_found (h : t.Inv) (hi : t.view i = .live p.pid) (hu : p.used = true) :
    (t.setProc i p).Inv ∧
      ∀ q, (t.setProc i p).record q = if q = p.pid then some p else t.record q := by
  have hs := (view_eq_live_iff.1 hi).1
  have hview : (t.setProc i p).view = t.view := by
    funext i'
    by_cases hii : i' = i
    · subst hii
      rw [hi]
      exact view_eq_live_iff.2 ⟨hs, by simp [setProc]⟩
    · simp [view, setProc, Function.update_of_ne hii]
  have hproc : ∀ i' ≠ i, (t.setProc i p).procTable i' = t.procTable i' :=
    fun i' hii => Function.update_of_ne hii _ _
  have hself : (t.setProc i p).procTable i = p := Function.update_self _ _ _
  have hinv : (t.setProc i p).Inv := by
    refine h.update_slot (hview ▸ h.wf) hproc (fun _ _ => rfl) (fun _ => ?_)
      (fun hs' => absurd hs hs') h.count
    rw [hself]
    exact ⟨hu, h.pos_of_live hi⟩
  refine ⟨hinv, fun q => ?_⟩
  rw [h.record_update hinv (hview ▸ hi) (fun q' hq' => Cell.live.inj (hq'.symm.trans hi))
    (fun i' _ => congrFun hview i') hproc q, hself]

/-- Writing the record of a new pid in a slot it may be stored in. -/
theorem Inv.put_new (h : t.Inv) (hst : Storable processHash t.view p.pid i)
    (habs : ∀ i', t.view i' ≠ .live p.pid) (hu : p.used = true) (hpos : 0 < p.pid) :
    ((t.take i).setProc i p).Inv ∧
      ∀ q, ((t.take i).setProc i p).record q = if q = p.pid then some p else t.record q := by
  have hproc : ∀ i' ≠ i, ((t.take i).setProc i p).procTable i' = t.procTable i' := fun i' hii => by
    simp [take, setProc, setState, Function.update_of_ne hii]
  have hself : ((t.take i).setProc i p).procTable i = p := Function.update_self _ _ _
  have hstate : ((t.take i).setProc i p).slotStates = Function.update t.slotStates i .occupied := rfl
  have hview : ((t.take i).setProc i p).view = Function.update t.view i (.live p.pid) := by
    funext i'
    by_cases hii : i' = i
    · subst hii
      rw [Function.update_self]
      exact view_eq_live_iff.2 ⟨by rw [hstate, Function.update_self], by rw [hself]⟩
    · rw [Function.update_of_ne hii, view, view, hproc i' hii, hstate, Function.update_of_ne hii]
  -- The slot was free, so one more slot is occupied, as the count says.
  have hs : t.slotStates i ≠ .occupied := fun hs => hst.free _ (view_eq_live_iff.2 ⟨hs, rfl⟩)
  have hinv : ((t.take i).setProc i p).Inv := by
    obtain ⟨j, hj, hji, hr⟩ := hst.reach
    refine h.update_slot (hview ▸ h.wf.store hj hji hr habs) hproc (fun i' hii => ?_)
      (fun _ => ?_) (fun hs' => ?_) ?_
    · rw [hstate, Function.update_of_ne hii]
    · rw [hself]
      exact ⟨hu, hpos⟩
    · rw [hstate, Function.update_self] at hs'
      exact absurd rfl hs'
    · have hslots : ((t.take i).setProc i p).occupiedSlots = insert i t.occupiedSlots := by
        ext i'
        rw [Finset.mem_insert, mem_occupiedSlots, mem_occupiedSlots, hstate]
        by_cases hii : i' = i
        · simp [hii]
        · simp [hii]
      rw [hslots, Finset.card_insert_of_notMem (by rwa [mem_occupiedSlots]), ← h.count]
      rfl
  refine ⟨hinv, fun q => ?_⟩
  rw [h.record_update hinv (by rw [hview, Function.update_self])
    (fun q' hq' => absurd hq' (hst.free q'))
    (fun i' hii => by rw [hview, Function.update_of_ne hii]) hproc q, hself]

/-- What an upsert of the record `p`, in the slot `i`, did to the table `t`. -/
structure Upserted (t : ProcessTable) (p : ProcInfo) (i : Fin procMax) (t' : ProcessTable) :
    Prop where
  inv : t'.Inv
  proc : t'.procTable i = p
  view : t'.view i = .live p.pid
  record : ∀ q, t'.record q = if q = p.pid then some p else t.record q

/-- Writing again, through the same pointer, the record of the pid just upserted. -/
theorem Upserted.setProc {p' : ProcInfo} {t' : ProcessTable} (h : Upserted t p i t')
    (hpid : p'.pid = p.pid) (hused : p'.used = true) : Upserted t p' i (t'.setProc i p') := by
  obtain ⟨hinv, hput⟩ := h.inv.put_found (hpid ▸ h.view) hused
  have hself : (t'.setProc i p').procTable i = p' := Function.update_self _ _ _
  refine ⟨hinv, hself, view_eq_live_iff.2 ⟨(view_eq_live_iff.1 h.view).1, by rw [hself]⟩,
    fun q => ?_⟩
  rw [hput, h.record, hpid]
  split_ifs <;> rfl

/-- The pids of the table leave no room for `q`. -/
structure NoRoom (t : ProcessTable) (q : ℤ) : Prop where
  absent : t.record q = none
  full : ∀ i, ∃ q', t.view i = .live q'

/-- What `prepareUpsert` gives for `pid`: a pointer `i` to its record, zero if it
    had none, through which any record of `pid` can be written. -/
structure Prepared (t : ProcessTable) (pid : ℤ) (i : Fin procMax) (found : Bool)
    (t' : ProcessTable) : Prop where
  found_eq : found = (t.record pid).isSome
  proc : t'.procTable i = (t.record pid).getD .zero
  frame : ∀ i' ≠ i, t'.procTable i' = t.procTable i'
  held : ∀ q, t.view i = .live q → q = pid
  slot : ∀ i', t.view i' = .live pid → i' = i
  put : ∀ p : ProcInfo, p.pid = pid → p.used = true → Upserted t p i (t'.setProc i p)

/-- `prepareUpsert` of a positive pid gives a pointer, or fails for want of room. -/
theorem Inv.prepareUpsert_spec (h : t.Inv) (hp : 0 < pid) :
    (∃ i found t', prepareUpsert t pid = some (i, found, t') ∧ Prepared t pid i found t') ∨
    (prepareUpsert t pid = none ∧ NoRoom t pid) := by
  rcases h.prepareUpsert_cases hp with ⟨i, hu, hi⟩ | ⟨i, hu, habs, hst⟩ | ⟨hu, habs, hfull⟩
  · have hrec := h.record_of_live hi
    refine .inl ⟨i, true, t, hu, by rw [hrec]; rfl, by rw [hrec]; rfl, fun _ _ => rfl,
      fun q hq => Cell.live.inj (hq.symm.trans hi), fun i' hi' => h.wf.unique i' i pid hi' hi,
      fun p hpid hused => ?_⟩
    obtain ⟨hinv, hput⟩ := h.put_found (p := p) (hpid ▸ hi) hused
    have hself : (t.setProc i p).procTable i = p := Function.update_self _ _ _
    exact ⟨hinv, hself, view_eq_live_iff.2 ⟨(view_eq_live_iff.1 hi).1, by rw [hself]⟩, hput⟩
  · have hrec := h.record_eq_none_iff.2 habs
    have hzero : (t.take i).procTable i = .zero := Function.update_self _ _ _
    refine .inl ⟨i, false, t.take i, hu, by rw [hrec]; rfl, by rw [hrec, hzero]; rfl,
      fun i' hii => Function.update_of_ne hii _ _, fun q hq => absurd hq (hst.free q),
      fun i' hi' => absurd hi' (habs i'), fun p hpid hused => ?_⟩
    subst hpid
    obtain ⟨hinv, hput⟩ := h.put_new hst habs hused hp
    have hself : ((t.take i).setProc i p).procTable i = p := Function.update_self _ _ _
    exact ⟨hinv, hself, view_eq_live_iff.2 ⟨Function.update_self _ _ _, by rw [hself]⟩, hput⟩
  · exact .inr ⟨hu, h.record_eq_none_iff.2 habs, hfull⟩

/-! ## Removals -/

/-- `processRemove` erases the record of the pid, and keeps the others. -/
theorem Inv.processRemove_spec (h : t.Inv) (pid : ℤ) :
    (processRemove t pid).Inv ∧
      ∀ q, (processRemove t pid).record q = if q = pid then none else t.record q := by
  cases hf : findExistingSlot t pid with
  | none =>
    have habs : t.record pid = none := by rw [record, processGet, hf, Option.map_none]
    rw [processRemove, hf]
    refine ⟨h, fun q => ?_⟩
    split_ifs with hq
    · rw [hq, habs]
    · rfl
  | some i =>
    have hi : t.view i = .live pid := h.processGet_eq_some_iff.1 hf
    have hs := (view_eq_live_iff.1 hi).1
    have hmem : i ∈ t.occupiedSlots := mem_occupiedSlots.2 hs
    have hcount : 0 < t.occupiedCount := h.count ▸ Finset.card_pos.2 ⟨i, hmem⟩
    have hrw : processRemove t pid =
        { (t.setProc i .zero).setState i .tombstone with
          occupiedCount := t.occupiedCount - 1 } := by
      rw [processRemove, hf]
      exact if_pos hcount
    rw [hrw]
    set t' : ProcessTable := { (t.setProc i .zero).setState i .tombstone with
      occupiedCount := t.occupiedCount - 1 } with ht'
    have hproc : ∀ i' ≠ i, t'.procTable i' = t.procTable i' :=
      fun i' hii => Function.update_of_ne hii _ _
    have hself : t'.procTable i = .zero := Function.update_self _ _ _
    have hstate : t'.slotStates = Function.update t.slotStates i .tombstone := rfl
    have hview : t'.view = Function.update t.view i .tombstone := by
      funext i'
      by_cases hii : i' = i
      · rw [hii, Function.update_self, view, hstate, Function.update_self]
      · rw [Function.update_of_ne hii, view, view, hproc i' hii, hstate, Function.update_of_ne hii]
    have hinv : t'.Inv := by
      refine h.update_slot (hview ▸ h.wf.bury i) hproc (fun i' hii => ?_) (fun hs' => ?_)
        (fun _ => hself) ?_
      · rw [hstate, Function.update_of_ne hii]
      · rw [hstate, Function.update_self] at hs'
        exact absurd hs' (by decide)
      · have hslots : t'.occupiedSlots = t.occupiedSlots.erase i := by
          ext i'
          rw [Finset.mem_erase, mem_occupiedSlots, mem_occupiedSlots, hstate]
          by_cases hii : i' = i
          · simp [hii]
          · simp [hii]
        rw [hslots, Finset.card_erase_of_mem hmem, ← h.count]
    refine ⟨hinv, fun q => Option.ext fun p => ?_⟩
    rw [hinv.record_eq_some_iff, hview]
    split_ifs with hq
    · refine iff_of_false (fun ⟨i', hl, _⟩ => ?_) nofun
      by_cases hii : i' = i
      · rw [hii, Function.update_self] at hl
        exact nomatch hl
      · rw [Function.update_of_ne hii, hq] at hl
        exact absurd (h.wf.unique i' i pid hl hi) hii
    · rw [h.record_eq_some_iff]
      refine exists_congr fun i' => ?_
      by_cases hii : i' = i
      · subst hii
        rw [Function.update_self]
        exact ⟨fun hl => (nomatch hl.1),
          fun hl => absurd (Cell.live.inj (hl.1.symm.trans hi)) hq⟩
      · rw [Function.update_of_ne hii, hproc i' hii]

end ProcessTable

end CgroupResearch
