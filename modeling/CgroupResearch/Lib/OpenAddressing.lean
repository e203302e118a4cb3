import Mathlib.Data.Fintype.Card
import Mathlib.Data.Finset.Card
import Mathlib.Tactic

/-!
# Open addressing with linear probing

A table of `n` slots, each *empty*, *live* (holding a key) or a *tombstone*
left by a removal. The slots of a key are tried from its hash on, wrapping
around (`slot`); a probe loop visits them in this order and may return early
(`scan`, with the invariant rule `scan_cases`).

* `WellFormed`: every live key is reachable from its hash without crossing an
  empty slot, and sits in one slot only. It survives storing a new key in a
  free slot that its probe reaches (`WellFormed.store`) and turning a live slot
  into a tombstone (`WellFormed.bury`).
* `lookup`: the probe loop that stops at the first empty slot. In a well-formed
  table it finds a key iff some slot holds it (`lookup_eq_some_iff`).
* `claim`: the probe loop that remembers the first tombstone but goes on until
  it finds the key or an empty slot. It finds the slot of the key, or a free
  slot the key may be stored in, or fails, when all the slots are live
  (`claim_cases`).
-/

namespace OpenAddressing

/-- The content of a slot. -/
inductive Cell (K : Type*)
  | empty
  | tombstone
  | live (k : K)
  deriving DecidableEq

/-! ## Probing -/

section Probing

variable {n : ℕ} [NeZero n] {ρ σ : Type*}

/-- The slot visited at step `j` of the probe starting from `start`. -/
def slot (start j : ℕ) : Fin n := Fin.ofNat n (start + j)

/-- A probe visits every slot. -/
theorem exists_slot_eq (start : ℕ) (i : Fin n) : ∃ j < n, slot start j = i := by
  have hn : 0 < n := Nat.pos_of_neZero n
  have hs : start % n < n := Nat.mod_lt _ hn
  refine ⟨(i.val + (n - start % n)) % n, Nat.mod_lt _ hn, Fin.ext ?_⟩
  have hsplit := Nat.mod_add_div start n
  have hsum : start + (i.val + (n - start % n)) = i.val + n * (start / n + 1) := by
    rw [Nat.mul_add, Nat.mul_one]
    omega
  calc (start + (i.val + (n - start % n)) % n) % n
      = (start + (i.val + (n - start % n))) % n := by rw [Nat.add_mod_mod]
    _ = (i.val + n * (start / n + 1)) % n := by rw [hsum]
    _ = i.val := by rw [Nat.add_mul_mod_self_left, Nat.mod_eq_of_lt i.isLt]

/-- A probe loop: it visits the slots of the probe from step `j` on, `fuel` of
    them, threading `acc`, until the body returns (`Sum.inl`). -/
def scan (body : Fin n → σ → ρ ⊕ σ) (start : ℕ) : (fuel j : ℕ) → σ → ρ ⊕ σ
  | 0, _, acc => .inr acc
  | fuel + 1, j, acc =>
    match body (slot start j) acc with
    | .inl r => .inl r
    | .inr acc' => scan body start fuel (j + 1) acc'

/-- The invariant rule of a probe loop: if going on at step `j` takes `P j` to
    `P (j + 1)`, the loop returns at a step where `P` holds, or goes through all
    its steps and `P` holds at the end. -/
theorem scan_cases (body : Fin n → σ → ρ ⊕ σ) (start : ℕ) (P : ℕ → σ → Prop)
    (hstep : ∀ j acc acc', P j acc → body (slot start j) acc = .inr acc' → P (j + 1) acc') :
    ∀ (fuel j : ℕ) (acc : σ), P j acc →
      (∃ r j' acc', scan body start fuel j acc = .inl r ∧ j' < j + fuel ∧ P j' acc' ∧
        body (slot start j') acc' = .inl r) ∨
      ∃ acc', scan body start fuel j acc = .inr acc' ∧ P (j + fuel) acc'
  | 0, _, acc, h => .inr ⟨acc, rfl, h⟩
  | fuel + 1, j, acc, h => by
    cases hb : body (slot start j) acc with
    | inl r => exact .inl ⟨r, j, acc, by rw [scan, hb], by omega, h, hb⟩
    | inr acc' =>
      have hrw : scan body start (fuel + 1) j acc = scan body start fuel (j + 1) acc' := by
        rw [scan, hb]
      rw [hrw, show j + (fuel + 1) = j + 1 + fuel by omega]
      exact scan_cases body start P hstep fuel (j + 1) acc' (hstep j acc acc' h hb)

end Probing

/-! ## Well-formed tables -/

section Tables

variable {n : ℕ} [NeZero n] {K : Type*} {hash : K → ℕ} {c : Fin n → Cell K}

/-- The probe from `start` crosses no empty slot before step `j`. -/
def Unbroken (c : Fin n → Cell K) (start j : ℕ) : Prop :=
  ∀ m < j, c (slot start m) ≠ .empty

/-- Every live key is reached by its probe, and has one slot only. -/
structure WellFormed (hash : K → ℕ) (c : Fin n → Cell K) : Prop where
  reach : ∀ i k, c i = .live k → ∃ j < n, slot (hash k) j = i ∧ Unbroken c (hash k) j
  unique : ∀ i i' k, c i = .live k → c i' = .live k → i = i'

/-- The empty table is well formed. -/
theorem wellFormed_empty : WellFormed hash (fun _ : Fin n => Cell.empty) :=
  ⟨nofun, nofun⟩

/-- Filling a slot does not break a probe. -/
theorem Unbroken.update {start j : ℕ} (h : Unbroken c start j) {i : Fin n} {x : Cell K}
    (hx : x ≠ .empty) : Unbroken (Function.update c i x) start j := by
  intro m hm
  by_cases hi : slot start m = i
  · rw [hi, Function.update_self]
    exact hx
  · rw [Function.update_of_ne hi]
    exact h m hm

/-- A new key may be stored in a slot that holds no key and that its probe
    reaches. -/
theorem WellFormed.store (h : WellFormed hash c) {i : Fin n} {k : K} {j : ℕ} (hj : j < n)
    (hi : slot (hash k) j = i) (hr : Unbroken c (hash k) j) (hk : ∀ i', c i' ≠ .live k) :
    WellFormed hash (Function.update c i (.live k)) := by
  have hne : (Cell.live k : Cell K) ≠ .empty := nofun
  constructor
  · -- A stored key fills a cell, so it cannot break the run of another key.
    intro i' k' hc
    by_cases hii : i' = i
    · rw [hii, Function.update_self, Cell.live.injEq] at hc
      exact ⟨j, hj, hc ▸ hi.trans hii.symm, hc ▸ hr.update hne⟩
    · rw [Function.update_of_ne hii] at hc
      obtain ⟨j', hj', hs, hu⟩ := h.reach i' k' hc
      exact ⟨j', hj', hs, hu.update hne⟩
  · intro i₁ i₂ k' h₁ h₂
    -- Two cells with one key: one of them is `i` only if both are, for `k` stood nowhere.
    by_cases e₁ : i₁ = i <;> by_cases e₂ : i₂ = i
    · rw [e₁, e₂]
    · rw [e₁, Function.update_self, Cell.live.injEq] at h₁
      rw [Function.update_of_ne e₂] at h₂
      exact absurd (h₁ ▸ h₂) (hk i₂)
    · rw [e₂, Function.update_self, Cell.live.injEq] at h₂
      rw [Function.update_of_ne e₁] at h₁
      exact absurd (h₂ ▸ h₁) (hk i₁)
    · rw [Function.update_of_ne e₁] at h₁
      rw [Function.update_of_ne e₂] at h₂
      exact h.unique i₁ i₂ k' h₁ h₂

/-- A slot may be turned into a tombstone: no probe through it is broken. -/
theorem WellFormed.bury (h : WellFormed hash c) (i : Fin n) :
    WellFormed hash (Function.update c i .tombstone) := by
  have hne : (Cell.tombstone : Cell K) ≠ .empty := nofun
  have hof : ∀ {i' k}, Function.update c i .tombstone i' = .live k → c i' = .live k := by
    intro i' k hc
    by_cases hii : i' = i
    · rw [hii, Function.update_self] at hc
      exact nomatch hc
    · rwa [Function.update_of_ne hii] at hc
  constructor
  · intro i' k hc
    obtain ⟨j, hj, hs, hu⟩ := h.reach i' k (hof hc)
    exact ⟨j, hj, hs, hu.update hne⟩
  · exact fun i₁ i₂ k h₁ h₂ => h.unique i₁ i₂ k (hof h₁) (hof h₂)

/-- The keys of a table are as many as its live slots. -/
theorem WellFormed.card_keys (h : WellFormed hash c) {ks : Finset K}
    (hks : ∀ k, k ∈ ks ↔ ∃ i, c i = .live k) (live : Finset (Fin n))
    (hlive : ∀ i, i ∈ live ↔ ∃ k, c i = .live k) : ks.card = live.card := by
  classical
  choose! f hf using fun k (hk : k ∈ ks) => (hks k).1 hk
  refine Finset.card_bij (fun k _ => f k) ?_ ?_ ?_
  · exact fun k hk => (hlive _).2 ⟨k, hf k hk⟩
  · intro k₁ h₁ k₂ h₂ e
    have := (hf k₁ h₁).symm.trans (e ▸ hf k₂ h₂)
    exact Cell.live.inj this
  · intro i hi
    obtain ⟨k, hk⟩ := (hlive i).1 hi
    have hmem := (hks k).2 ⟨i, hk⟩
    exact ⟨k, hmem, h.unique _ _ k (hf k hmem) hk⟩

/-- A table holds at most `n` keys. -/
theorem WellFormed.card_keys_le (h : WellFormed hash c) {ks : Finset K}
    (hks : ∀ k, k ∈ ks ↔ ∃ i, c i = .live k) : ks.card ≤ n := by
  classical
  rw [h.card_keys hks {i | ∃ k, c i = .live k} (by simp)]
  simpa using Finset.card_le_univ (α := Fin n) {i | ∃ k, c i = .live k}

/-- A table holds `n` keys iff all its slots are live. -/
theorem WellFormed.card_keys_eq_iff (h : WellFormed hash c) {ks : Finset K}
    (hks : ∀ k, k ∈ ks ↔ ∃ i, c i = .live k) : ks.card = n ↔ ∀ i, ∃ k, c i = .live k := by
  classical
  rw [h.card_keys hks {i | ∃ k, c i = .live k} (by simp)]
  have hcard := Finset.card_eq_iff_eq_univ (α := Fin n) {i | ∃ k, c i = .live k}
  rw [Fintype.card_fin] at hcard
  rw [hcard, Finset.eq_univ_iff_forall]
  simp

end Tables

/-! ## The probe loops -/

section Loops

variable {n : ℕ} [NeZero n] {K : Type*} [DecidableEq K] {hash : K → ℕ} {c : Fin n → Cell K}
  {k : K}

/-- One step of a lookup: an empty slot ends it, the key is found, or it goes on. -/
def lookupStep (c : Fin n → Cell K) (k : K) (i : Fin n) (_ : Unit) : Option (Fin n) ⊕ Unit :=
  match c i with
  | .empty => .inl none
  | .tombstone => .inr ()
  | .live k' => if k' = k then .inl (some i) else .inr ()

/-- The slot of the key `k`, probing from `start`. -/
def lookup (c : Fin n → Cell K) (start : ℕ) (k : K) : Option (Fin n) :=
  match scan (lookupStep c k) start n 0 () with
  | .inl r => r
  | .inr _ => none

omit [NeZero n] in
/-- The search goes on past a cell that is neither empty nor the key's. -/
theorem lookupStep_eq_inr {i : Fin n} {u u' : Unit} (h : lookupStep c k i u = .inr u') :
    c i ≠ .empty ∧ c i ≠ .live k := by
  unfold lookupStep at h
  split at h
  · simp at h
  · next hc => simp [hc]
  · next k' hc =>
    split at h
    · simp at h
    · next hk => simp [hc, hk]

/-- A lookup returns the slot of the key, or stops at an empty slot, not having
    seen the key, or sees all the slots. -/
theorem lookup_cases (c : Fin n → Cell K) (start : ℕ) (k : K) :
    (∃ i, lookup c start k = some i ∧ c i = .live k) ∨
    (lookup c start k = none ∧ ∃ j < n, c (slot start j) = .empty ∧
      ∀ m < j, c (slot start m) ≠ .live k) ∨
    (lookup c start k = none ∧ ∀ i, c i ≠ .live k) := by
  have hscan := scan_cases (lookupStep c k) start (fun j _ => ∀ m < j, c (slot start m) ≠ .live k)
    (fun j u u' hP hb m hm => by
      rcases Nat.lt_succ_iff_lt_or_eq.1 hm with hm | rfl
      · exact hP m hm
      · exact (lookupStep_eq_inr hb).2) n 0 () (fun m hm => absurd hm (Nat.not_lt_zero m))
  rcases hscan with ⟨r, j, u, hs, hj, hP, hb⟩ | ⟨u, hs, hP⟩
  · rw [Nat.zero_add] at hj
    unfold lookupStep at hb
    split at hb
    · next hc =>
      rw [Sum.inl.injEq] at hb
      exact .inr (.inl ⟨by rw [lookup, hs, hb], j, hj, hc, hP⟩)
    · simp at hb
    · next k' hc =>
      split at hb
      · next hk =>
        rw [Sum.inl.injEq] at hb
        exact .inl ⟨slot start j, by rw [lookup, hs, hb], hk ▸ hc⟩
      · simp at hb
  · refine .inr (.inr ⟨by rw [lookup, hs], fun i => ?_⟩)
    obtain ⟨j, hj, rfl⟩ := exists_slot_eq start i
    exact hP j (by omega)

/-- In a well-formed table, a lookup finds a key iff some slot holds it. -/
theorem lookup_eq_some_iff (h : WellFormed hash c) {i : Fin n} :
    lookup c (hash k) k = some i ↔ c i = .live k := by
  rcases lookup_cases c (hash k) k with ⟨i', hl, hc⟩ | ⟨hl, j, hj, hc, hP⟩ | ⟨hl, hc⟩
  · rw [hl, Option.some.injEq]
    exact ⟨fun e => e ▸ hc, fun hi => h.unique i' i k hc hi⟩
  · -- The probe was broken at step `j`, before any slot holding the key.
    rw [hl]
    refine ⟨nofun, fun hi => ?_⟩
    obtain ⟨j', _, hs, hu⟩ := h.reach i k hi
    rcases Nat.lt_or_ge j j' with hlt | hge
    · exact absurd hc (hu j hlt)
    · rcases Nat.lt_or_eq_of_le hge with hlt | rfl
      · exact absurd (hs ▸ hi) (hP j' hlt)
      · rw [hs, hi] at hc
        exact nomatch hc
  · rw [hl]
    exact ⟨nofun, fun hi => absurd hi (hc i)⟩

/-- One step of a claim, remembering the first tombstone: the key is found, or
    an empty slot ends the probe, or it goes on. -/
def claimStep (c : Fin n → Cell K) (k : K) (i : Fin n) (tomb : Option (Fin n)) :
    (Fin n × Bool) ⊕ Option (Fin n) :=
  match c i with
  | .empty => .inl (tomb.getD i, false)
  | .tombstone => .inr (some (tomb.getD i))
  | .live k' => if k' = k then .inl (i, true) else .inr tomb

/-- The slot of the key `k` (with `true`), or a slot it may be stored in. -/
def claim (c : Fin n → Cell K) (start : ℕ) (k : K) : Option (Fin n × Bool) :=
  match scan (claimStep c k) start n 0 none with
  | .inl r => some r
  | .inr tomb => tomb.map fun i => (i, false)

/-- What a claim knows at step `j`: it has seen neither the key nor an empty
    slot, and `tomb` is a tombstone seen, if there was any. -/
structure ClaimInv (c : Fin n → Cell K) (start : ℕ) (k : K) (j : ℕ) (tomb : Option (Fin n)) :
    Prop where
  unbroken : Unbroken c start j
  unseen : ∀ m < j, c (slot start m) ≠ .live k
  tomb_some : ∀ i, tomb = some i → ∃ m < j, slot start m = i ∧ c i = .tombstone
  tomb_none : tomb = none → ∀ m < j, ∃ k', c (slot start m) = .live k'

omit [DecidableEq K] in
theorem ClaimInv.zero (c : Fin n → Cell K) (start : ℕ) (k : K) : ClaimInv c start k 0 none :=
  ⟨fun m hm => absurd hm (Nat.not_lt_zero m), fun m hm => absurd hm (Nat.not_lt_zero m),
    nofun, fun _ m hm => absurd hm (Nat.not_lt_zero m)⟩

/-- A step keeps the invariant of the search for a place. -/
theorem ClaimInv.step {start j : ℕ} {tomb tomb' : Option (Fin n)}
    (h : ClaimInv c start k j tomb) (hb : claimStep c k (slot start j) tomb = .inr tomb') :
    ClaimInv c start k (j + 1) tomb' := by
  unfold claimStep at hb
  split at hb
  · simp at hb
  · next hc =>
    rw [Sum.inr.injEq] at hb
    subst hb
    refine ⟨fun m hm => ?_, fun m hm => ?_, fun i hi => ?_, nofun⟩
    · rcases Nat.lt_succ_iff_lt_or_eq.1 hm with hm | rfl
      · exact h.unbroken m hm
      · simp [hc]
    · rcases Nat.lt_succ_iff_lt_or_eq.1 hm with hm | rfl
      · exact h.unseen m hm
      · simp [hc]
    · rw [Option.some.injEq] at hi
      -- The first tombstone stays remembered, and a later one does not replace it.
      cases ht : tomb with
      | none =>
        rw [ht, Option.getD_none] at hi
        exact ⟨j, Nat.lt_succ_self j, hi, hi ▸ hc⟩
      | some i' =>
        rw [ht, Option.getD_some] at hi
        obtain ⟨m, hm, hs, ht'⟩ := h.tomb_some i' ht
        exact ⟨m, Nat.lt_succ_of_lt hm, hs.trans hi, hi ▸ ht'⟩
  · next k' hc =>
    split at hb
    · simp at hb
    · next hk =>
      rw [Sum.inr.injEq] at hb
      subst hb
      refine ⟨fun m hm => ?_, fun m hm => ?_, fun i hi => ?_, fun ht m hm => ?_⟩
      · rcases Nat.lt_succ_iff_lt_or_eq.1 hm with hm | rfl
        · exact h.unbroken m hm
        · simp [hc]
      · rcases Nat.lt_succ_iff_lt_or_eq.1 hm with hm | rfl
        · exact h.unseen m hm
        · simp [hc, hk]
      · obtain ⟨m, hm, hs, ht'⟩ := h.tomb_some i hi
        exact ⟨m, Nat.lt_succ_of_lt hm, hs, ht'⟩
      · rcases Nat.lt_succ_iff_lt_or_eq.1 hm with hm | rfl
        · exact h.tomb_none ht m hm
        · exact ⟨k', hc⟩

/-- A slot the key `k`, which has none, may be stored in. -/
structure Storable (hash : K → ℕ) (c : Fin n → Cell K) (k : K) (i : Fin n) : Prop where
  free : ∀ k', c i ≠ .live k'
  reach : ∃ j < n, slot (hash k) j = i ∧ Unbroken c (hash k) j

/-- In a well-formed table, a claim finds the slot of the key, or, if it has
    none, a slot it may be stored in, or fails, when all the slots are live. -/
theorem claim_cases (h : WellFormed hash c) (k : K) :
    (∃ i, claim c (hash k) k = some (i, true) ∧ c i = .live k) ∨
    (∃ i, claim c (hash k) k = some (i, false) ∧ (∀ i', c i' ≠ .live k) ∧
      Storable hash c k i) ∨
    (claim c (hash k) k = none ∧ (∀ i, c i ≠ .live k) ∧ ∀ i, ∃ k', c i = .live k') := by
  rcases scan_cases (claimStep c k) (hash k) (ClaimInv c (hash k) k)
      (fun j t t' hP hb => hP.step hb) n 0 none (ClaimInv.zero c (hash k) k) with
    ⟨r, j, tomb, hs, hj, hP, hb⟩ | ⟨tomb, hs, hP⟩
  · rw [Nat.zero_add] at hj
    unfold claimStep at hb
    split at hb
    · next hc =>
      -- An empty slot: the key, not seen so far, has no slot at all.
      rw [Sum.inl.injEq] at hb
      have habsent : ∀ i', c i' ≠ .live k := by
        intro i' hi'
        obtain ⟨j', _, hs', hu⟩ := h.reach i' k hi'
        rcases Nat.lt_trichotomy j' j with hlt | rfl | hgt
        · exact hP.unseen j' hlt (hs' ▸ hi')
        · rw [hs', hi'] at hc
          exact nomatch hc
        · exact hu j hgt hc
      refine .inr (.inl ⟨tomb.getD (slot (hash k) j), by rw [claim, hs, ← hb], habsent, ?_⟩)
      cases ht : tomb with
      | none => exact ⟨fun k' hk' => by simp [hc] at hk', j, hj, rfl, hP.unbroken⟩
      | some i' =>
        obtain ⟨m, hm, hsm, hi'⟩ := hP.tomb_some i' ht
        rw [Option.getD_some]
        exact ⟨fun k' hk' => by simp [hi'] at hk', m, hm.trans hj, hsm,
          fun m' hm' => hP.unbroken m' (hm'.trans hm)⟩
    · simp at hb
    · next k' hc =>
      split at hb
      · next hk =>
        rw [Sum.inl.injEq] at hb
        exact .inl ⟨slot (hash k) j, by rw [claim, hs, ← hb], hk ▸ hc⟩
      · simp at hb
  · -- No empty slot: all the slots were seen.
    rw [Nat.zero_add] at hP
    have habsent : ∀ i, c i ≠ .live k := by
      intro i
      obtain ⟨j, hj, rfl⟩ := exists_slot_eq (hash k) i
      exact hP.unseen j hj
    cases ht : tomb with
    | none =>
      refine .inr (.inr ⟨by rw [claim, hs, ht]; rfl, habsent, fun i => ?_⟩)
      obtain ⟨j, hj, rfl⟩ := exists_slot_eq (hash k) i
      exact hP.tomb_none ht j hj
    | some i =>
      obtain ⟨m, hm, hsm, hi⟩ := hP.tomb_some i ht
      exact .inr (.inl ⟨i, by rw [claim, hs, ht]; rfl, habsent,
        fun k' hk' => by simp [hi] at hk', m, hm, hsm, fun m' hm' => hP.unbroken m' (hm'.trans hm)⟩)

end Loops

end OpenAddressing
