import CgroupResearch.Calibrate.Result
import CgroupResearch.Lib.CString
import CgroupResearch.Lib.Gf2

/-!
# The DRAM mapping

The daemon maps a physical address to a *bank class* (`dram_mapping.c`): bit `i` of the
class is the parity of the address under the mask `i`. The masks come from a result of
the calibration, which was validated with another program, `predict_same_bank` of
`kk_calibrate.py`.

All agree on which addresses share a class (`mapping_agrees`), since parity under a mask
is additive. So do the two ways in which the parity is computed, of which a build has one
(`portable_parity_agrees`).
-/

namespace CgroupResearch

open Gf2

/-- `enum dram_mapping_rc`. -/
inductive DramMappingRc
  | ok
  | errInvalidArg
  | errNotReady
  | errCalibrationRejected
  | errMaskCount
  | errZeroMask
  | errDuplicateMask
  | errMaskSetId
  deriving DecidableEq, Repr

/-- `struct dram_mapping`: `masks` are the first `mask_count` masks. -/
structure DramMapping where
  masks : List UInt64
  maskSetId : List Char
  ready : Bool
  deriving DecidableEq, Repr

/-! ## The program -/

/-- `parity64`, by the builtin of the compiler. -/
def parity64 (value : UInt64) : UInt64 := UInt64.ofNat (parity value.toNat)

/-- `parity64`, where the compiler has no builtin: the value is folded to four bits, which are
    looked up in a constant. -/
def parity64Portable (value : UInt64) : UInt32 :=
  let value := value ^^^ value >>> 32
  let value := value ^^^ value >>> 16
  let value := value ^^^ value >>> 8
  let value := value ^^^ value >>> 4
  0x6996 >>> (value &&& 0xF).toUInt32 &&& 1

/-- `dram_mapping_reset`. -/
def dramMappingReset : DramMapping := ⟨[], [], false⟩

/-- `dram_mapping_is_ready`. -/
def dramMappingIsReady (mapping : DramMapping) : Bool :=
  mapping.ready && decide (0 < mapping.masks.length)

/-- The loop of `validate_calibration_result` over the masks, after the masks `earlier`. -/
def validateMasks : (earlier masks : List UInt64) → DramMappingRc
  | _, [] => .ok
  | earlier, m :: ms =>
    if m = 0 then
      .errZeroMask
    else if earlier.any fun m' => m = m' then
      .errDuplicateMask
    else
      validateMasks (earlier ++ [m]) ms

/-- `validate_calibration_result`. -/
def validateCalibrationResult (result : CalibrationResult) : DramMappingRc :=
  if !result.statusSuccess || !result.acceptancePassed then
    .errCalibrationRejected
  else if result.bankMasks.length = 0 ∨ calibrationMaxBankMasks < result.bankMasks.length then
    .errMaskCount
  else
    let idLen := CString.boundedStrlen result.maskSetId calibrationMaskSetIdMax
    if idLen = 0 ∨ calibrationMaskSetIdMax ≤ idLen then
      .errMaskSetId
    else
      validateMasks [] result.bankMasks

/-- `dram_mapping_init_from_calibration`. -/
def dramMappingInitFromCalibration (result : CalibrationResult) : DramMappingRc × DramMapping :=
  let rc := validateCalibrationResult result
  if rc ≠ .ok then
    (rc, dramMappingReset)
  else
    let idLen := CString.boundedStrlen result.maskSetId calibrationMaskSetIdMax
    (.ok, ⟨result.bankMasks, result.maskSetId.take idLen, true⟩)

/-- The loop of `dram_mapping_bank_class_fast`, from the mask `i` on. -/
def bankClassLoop (physicalAddress : UInt64) : (masks : List UInt64) → (i : ℕ) →
    (bankClass : UInt64) → UInt64
  | [], _, bankClass => bankClass
  | m :: ms, i, bankClass =>
    let bit := parity64 (physicalAddress &&& m)
    bankClassLoop physicalAddress ms (i + 1) (bankClass ||| bit <<< UInt64.ofNat i)

/-- `dram_mapping_bank_class_fast`. -/
def dramMappingBankClassFast (mapping : DramMapping) (physicalAddress : UInt64) : UInt64 :=
  bankClassLoop physicalAddress mapping.masks 0 0

/-- `dram_mapping_bank_class`. -/
def dramMappingBankClass (mapping : DramMapping) (physicalAddress : UInt64) :
    Except DramMappingRc UInt64 :=
  if !dramMappingIsReady mapping then
    .error .errNotReady
  else
    .ok (dramMappingBankClassFast mapping physicalAddress)

/-- The loop of `dram_mapping_same_bank_class`. -/
def sameBankLoop (diff : UInt64) : List UInt64 → Bool
  | [] => true
  | m :: ms => if parity64 (diff &&& m) ≠ 0 then false else sameBankLoop diff ms

/-- `dram_mapping_same_bank_class`. -/
def dramMappingSameBankClass (mapping : DramMapping) (pa1 pa2 : UInt64) :
    Except DramMappingRc Bool :=
  if !dramMappingIsReady mapping then
    .error .errNotReady
  else
    .ok (sameBankLoop (pa1 ^^^ pa2) mapping.masks)

/-- `class_space_from_mapping` of the oracle programs: the number of the values of a class. -/
def classSpaceFromMapping (mapping : DramMapping) : Option ℕ :=
  if !dramMappingIsReady mapping then
    none
  else if 20 < mapping.masks.length then
    none
  else
    some (2 ^ mapping.masks.length)

/-- `predict_same_bank` of `kk_calibrate.py`. -/
def predictSameBank (diff : ℕ) (masks : List ℕ) : Bool :=
  decide (masks ≠ []) && masks.all fun mask => parity (diff &&& mask) = 0

/-! ## Parity -/

theorem parity64_toNat (v : UInt64) : (parity64 v).toNat = parity v.toNat :=
  UInt64.toNat_ofNat_of_lt' ((parity_lt_two _).trans (by decide))

/-- The constant holds the parities of the numbers of four bits. -/
theorem lookup_eq_parity : ∀ n < 16, 0x6996 >>> n &&& 1 = parity n := by decide

theorem toNat_low_four (x : UInt64) : (x &&& 0xF).toUInt32.toNat = x.toNat % 2 ^ 4 := by
  have hand : (x &&& 0xF).toNat = x.toNat % 2 ^ 4 :=
    (UInt64.toNat_and x 0xF).trans (Nat.and_two_pow_sub_one_eq_mod x.toNat 4)
  rw [UInt64.toNat_toUInt32, hand]
  exact Nat.mod_eq_of_lt ((Nat.mod_lt _ (by decide)).trans (by decide))

/-- `0x6996` is the table of the parities of four bits. -/
theorem toNat_lookup (x : UInt64) :
    (0x6996 >>> (x &&& 0xF).toUInt32 &&& 1 : UInt32).toNat = parity (x.toNat % 2 ^ 4) := by
  have hlt : x.toNat % 2 ^ 4 < 16 := Nat.mod_lt _ (by decide)
  rw [UInt32.toNat_and, UInt32.toNat_shiftRight, toNat_low_four,
    Nat.mod_eq_of_lt (hlt.trans (by decide))]
  exact lookup_eq_parity _ hlt

/-- Folding a word in two halves keeps the parity. -/
theorem parity_fold64 (x : UInt64) {s : UInt64} (hs : s.toNat < 64) :
    parity ((x ^^^ x >>> s).toNat % 2 ^ s.toNat) = parity (x.toNat % 2 ^ (s.toNat + s.toNat)) := by
  rw [UInt64.toNat_xor, UInt64.toNat_shiftRight, Nat.mod_eq_of_lt hs, parity_fold]

theorem parity64Portable_toNat (v : UInt64) : (parity64Portable v).toNat = parity v.toNat :=
  -- each fold halves the number of the bits that count
  calc (parity64Portable v).toNat = parity (_ % 2 ^ 4) := toNat_lookup _
    _ = parity (_ % 2 ^ 8) := parity_fold64 _ (s := 4) (by decide)
    _ = parity (_ % 2 ^ 16) := parity_fold64 _ (s := 8) (by decide)
    _ = parity (_ % 2 ^ 32) := parity_fold64 _ (s := 16) (by decide)
    _ = parity (v.toNat % 2 ^ 64) := parity_fold64 v (s := 32) (by decide)
    _ = parity v.toNat := by rw [Nat.mod_eq_of_lt v.toNat_lt]

/-- For all values, the portable parity is the number of ones modulo two, which is that of the
    builtin, and both are additive, under a mask as well. -/
theorem portable_parity_agrees (x y m : UInt64) :
    (parity64Portable x).toNat = bitCount x.toNat % 2 ∧
      (parity64Portable x).toUInt64 = parity64 x ∧
      parity64Portable (x ^^^ y) = parity64Portable x ^^^ parity64Portable y ∧
      parity64Portable ((x ^^^ y) &&& m) =
        parity64Portable (x &&& m) ^^^ parity64Portable (y &&& m) ∧
      parity64 (x ^^^ y) = parity64 x ^^^ parity64 y ∧
      parity64 ((x ^^^ y) &&& m) = parity64 (x &&& m) ^^^ parity64 (y &&& m) := by
  have hportable : ∀ x y,
      parity64Portable (x ^^^ y) = parity64Portable x ^^^ parity64Portable y := by
    intro x y
    rw [← UInt32.toNat_inj, UInt32.toNat_xor]
    simp only [parity64Portable_toNat, UInt64.toNat_xor, parity_xor]
  have hbuiltin : ∀ x y, parity64 (x ^^^ y) = parity64 x ^^^ parity64 y := by
    intro x y
    rw [← UInt64.toNat_inj, UInt64.toNat_xor]
    simp only [parity64_toNat, UInt64.toNat_xor, parity_xor]
  have hand : (x ^^^ y) &&& m = (x &&& m) ^^^ (y &&& m) := by
    rw [← UInt64.toNat_inj]
    simp only [UInt64.toNat_and, UInt64.toNat_xor, Nat.and_xor_distrib_right]
  refine ⟨?_, ?_, hportable x y, ?_, hbuiltin x y, ?_⟩
  · rw [parity64Portable_toNat, parity_eq_mod]
  · rw [← UInt64.toNat_inj, UInt32.toNat_toUInt64, parity64Portable_toNat, parity64_toNat]
  · rw [hand, hportable]
  · rw [hand, hbuiltin]

/-! ## Classes -/

section

variable {masks : List UInt64} {a b : UInt64}

/-- The parity of a value, at the bit `i`. -/
theorem testBit_shiftLeft_parity64 (v : UInt64) {i : ℕ} (hi : i < 64) (c : ℕ) :
    (parity64 v <<< UInt64.ofNat i).toNat.testBit c =
      (decide (i = c) && decide (parity v.toNat = 1)) := by
  have hofNat : (UInt64.ofNat i).toNat = i := UInt64.toNat_ofNat_of_lt' (hi.trans (by decide))
  rw [UInt64.toNat_shiftLeft, parity64_toNat, hofNat, Nat.mod_eq_of_lt hi]
  have hlt : parity v.toNat <<< i < 2 ^ 64 := by
    rw [Nat.shiftLeft_eq]
    calc parity v.toNat * 2 ^ i < 2 * 2 ^ i :=
          Nat.mul_lt_mul_of_pos_right (parity_lt_two _) (Nat.two_pow_pos i)
      _ = 2 ^ (i + 1) := by rw [Nat.pow_succ, Nat.mul_comm]
      _ ≤ 2 ^ 64 := Nat.pow_le_pow_right two_pos (by omega)
  rw [Nat.mod_eq_of_lt hlt]
  have hparity := parity_lt_two v.toNat
  interval_cases hp : parity v.toNat
  · simp
  · simp [Nat.one_shiftLeft, Nat.testBit_two_pow]

/-- A mask's bit of the class. -/
theorem testBit_bankClassLoop (a : UInt64) (masks : List UInt64) (i : ℕ) (cls : UInt64)
    (hi : i + masks.length ≤ 64) (c : ℕ) :
    (bankClassLoop a masks i cls).toNat.testBit c = (cls.toNat.testBit c ||
      (decide (i ≤ c) && (masks[c - i]?).any fun m => parity (a.toNat &&& m.toNat) = 1)) := by
  induction masks generalizing i cls with
  | nil => simp [bankClassLoop]
  | cons m ms ih =>
    rw [List.length_cons] at hi
    rw [bankClassLoop, ih (i + 1) _ (by omega), UInt64.toNat_or, Nat.testBit_or,
      testBit_shiftLeft_parity64 _ (by omega), UInt64.toNat_and, Bool.or_assoc]
    congr 1
    -- bit `i` is that of this mask, the bits after it those of the rest
    rcases Nat.lt_trichotomy c i with hc | rfl | hc
    · simp [show ¬i ≤ c by omega, show ¬i + 1 ≤ c by omega, show i ≠ c by omega]
    · simp
    · obtain ⟨k, rfl⟩ := Nat.exists_eq_add_of_lt hc
      simp [show i + k + 1 - i = k + 1 by omega, show i + k + 1 - (i + 1) = k by omega,
        show i ≠ i + k + 1 by omega, show i ≤ i + k + 1 by omega]

/-- A bit of the class is the parity under its mask. -/
theorem testBit_bankClass {mapping : DramMapping} (hlen : mapping.masks.length ≤ 64) (a : UInt64)
    (c : ℕ) :
    (dramMappingBankClassFast mapping a).toNat.testBit c =
      (mapping.masks[c]?).any fun m => parity (a.toNat &&& m.toNat) = 1 := by
  rw [dramMappingBankClassFast, testBit_bankClassLoop _ _ _ _ (by omega)]
  simp

/-- There are no more classes than the masks have values. -/
theorem bankClass_lt {mapping : DramMapping} (hlen : mapping.masks.length ≤ 64) (a : UInt64) :
    (dramMappingBankClassFast mapping a).toNat < 2 ^ mapping.masks.length := by
  refine Nat.lt_pow_two_of_testBit _ fun c hc => ?_
  rw [testBit_bankClass hlen, List.getElem?_eq_none hc, Option.any_none]

/-- The class is additive in the address. -/
theorem bankClass_xor {mapping : DramMapping} (hlen : mapping.masks.length ≤ 64) (a b : UInt64) :
    dramMappingBankClassFast mapping (a ^^^ b) =
      dramMappingBankClassFast mapping a ^^^ dramMappingBankClassFast mapping b := by
  refine UInt64.toNat_inj.1 (Nat.eq_of_testBit_eq fun c => ?_)
  rw [UInt64.toNat_xor, Nat.testBit_xor]
  simp only [testBit_bankClass hlen]
  rcases mapping.masks[c]? with _ | m
  · rfl
  · simp only [Option.any_some, UInt64.toNat_xor, parity_xor_and]
    have ha := parity_lt_two (a.toNat &&& m.toNat)
    have hb := parity_lt_two (b.toNat &&& m.toNat)
    interval_cases parity (a.toNat &&& m.toNat) <;> interval_cases parity (b.toNat &&& m.toNat) <;>
      rfl

/-- The loop looks for a mask with an odd parity. -/
theorem sameBankLoop_eq_true_iff (diff : UInt64) (masks : List UInt64) :
    sameBankLoop diff masks = true ↔ ∀ m ∈ masks, parity (diff.toNat &&& m.toNat) = 0 := by
  induction masks with
  | nil => simp [sameBankLoop]
  | cons m ms ih =>
    have hzero : parity64 (diff &&& m) = 0 ↔ parity (diff.toNat &&& m.toNat) = 0 := by
      rw [← UInt64.toNat_inj, parity64_toNat, UInt64.toNat_and]
      rfl
    rw [sameBankLoop, List.forall_mem_cons, ← ih, ← hzero]
    split
    case isTrue h => simp [h]
    case isFalse h => simp [not_not.1 h]

/-- The class zero is that of the addresses with even parity under every mask. -/
theorem bankClass_eq_zero_iff {mapping : DramMapping} (hlen : mapping.masks.length ≤ 64)
    (a : UInt64) : dramMappingBankClassFast mapping a = 0 ↔
      ∀ m ∈ mapping.masks, parity (a.toNat &&& m.toNat) = 0 := by
  have hzero : dramMappingBankClassFast mapping a = 0 ↔
      ∀ c, (dramMappingBankClassFast mapping a).toNat.testBit c = false := by
    rw [← UInt64.toNat_inj]
    constructor
    · intro h c
      rw [h]
      exact Nat.zero_testBit c
    · intro h
      exact Nat.eq_of_testBit_eq fun c => (h c).trans (Nat.zero_testBit c).symm
  -- Bit `c` of the class is the parity under mask `c`, and there is no bit beyond the masks.
  rw [hzero]
  simp only [testBit_bankClass hlen]
  constructor
  · intro h m hm
    obtain ⟨c, hc⟩ := List.mem_iff_getElem?.1 hm
    have hodd := h c
    rw [hc, Option.any_some, decide_eq_false_iff_not] at hodd
    have := parity_lt_two (a.toNat &&& m.toNat)
    omega
  · intro h c
    cases hc : mapping.masks[c]? with
    | none => rfl
    | some m =>
      rw [Option.any_some, decide_eq_false_iff_not, h m (List.mem_of_getElem? hc)]
      exact Nat.zero_ne_one

/-- The direct comparison of two addresses is that of their classes. -/
theorem sameBankLoop_eq {mapping : DramMapping} (hlen : mapping.masks.length ≤ 64)
    (a b : UInt64) : sameBankLoop (a ^^^ b) mapping.masks =
      decide (dramMappingBankClassFast mapping a = dramMappingBankClassFast mapping b) := by
  rw [Bool.eq_iff_iff, sameBankLoop_eq_true_iff, ← bankClass_eq_zero_iff hlen, bankClass_xor hlen,
    UInt64.xor_eq_zero_iff, decide_eq_true_iff]

/-- The prediction of the calibration is the direct comparison. -/
theorem predictSameBank_eq {masks : List UInt64} (hne : masks ≠ []) (a b : UInt64) :
    predictSameBank (a.toNat ^^^ b.toNat) (masks.map (·.toNat)) = sameBankLoop (a ^^^ b) masks := by
  rw [Bool.eq_iff_iff, sameBankLoop_eq_true_iff, predictSameBank]
  simp [hne]

end

/-- Masks that are not zero and all different are valid. -/
theorem validateMasks_eq_ok {earlier masks : List UInt64} (hzero : ∀ m ∈ masks, m ≠ 0)
    (hnodup : (earlier ++ masks).Nodup) : validateMasks earlier masks = .ok := by
  induction masks generalizing earlier with
  | nil => rfl
  | cons m ms ih =>
    rw [List.forall_mem_cons] at hzero
    have hnew : m ∉ earlier := fun hm =>
      (List.nodup_append.1 hnodup).2.2 m hm m List.mem_cons_self rfl
    have hany : (earlier.any fun m' => m = m') = false := by
      rw [List.any_eq_false]
      intro m' hm'
      rw [decide_eq_true_eq]
      rintro rfl
      exact hnew hm'
    rw [validateMasks, if_neg hzero.1, hany, if_neg Bool.false_ne_true]
    exact ih hzero.2 (by rwa [List.append_assoc, List.singleton_append])

/-! ## Agreement -/

/-- What an accepted result makes of the mapping. -/
theorem mapping_of_init {result : CalibrationResult} {mapping : DramMapping}
    (h : dramMappingInitFromCalibration result = (.ok, mapping)) :
    mapping.masks = result.bankMasks ∧ mapping.ready = true ∧ 0 < mapping.masks.length ∧
      mapping.masks.length ≤ 32 := by
  rw [dramMappingInitFromCalibration] at h
  split at h
  case isTrue hrc => exact absurd (congrArg Prod.fst h) hrc
  case isFalse hrc =>
    cases h
    rw [not_not, validateCalibrationResult] at hrc
    split at hrc
    · cases hrc
    split at hrc
    · cases hrc
    case isFalse hcount =>
      rw [calibrationMaxBankMasks] at hcount
      exact ⟨rfl, rfl, by dsimp only; omega, by dsimp only; omega⟩

/-- For the masks of an accepted result and all addresses, the classes, checked or not,
    the direct comparison and the prediction of the calibration agree; the class is
    additive, and a value of as many bits as there are masks. -/
theorem mapping_agrees {result : CalibrationResult} {mapping : DramMapping}
    (h : dramMappingInitFromCalibration result = (.ok, mapping)) (a₁ a₂ : UInt64) :
    ∃ c₁ c₂, dramMappingBankClass mapping a₁ = .ok c₁ ∧ dramMappingBankClass mapping a₂ = .ok c₂ ∧
      dramMappingBankClassFast mapping a₁ = c₁ ∧ dramMappingBankClassFast mapping a₂ = c₂ ∧
      dramMappingSameBankClass mapping a₁ a₂ = .ok (decide (c₁ = c₂)) ∧
      predictSameBank (a₁.toNat ^^^ a₂.toNat) (result.bankMasks.map (·.toNat)) =
        decide (c₁ = c₂) ∧
      dramMappingBankClass mapping (a₁ ^^^ a₂) = .ok (c₁ ^^^ c₂) ∧
      c₁.toNat < 2 ^ result.bankMasks.length := by
  obtain ⟨hmasks, hready, hpos, hlen⟩ := mapping_of_init h
  have hlen' : mapping.masks.length ≤ 64 := by omega
  have hisReady : dramMappingIsReady mapping = true := by simp [dramMappingIsReady, hready, hpos]
  have hne : mapping.masks ≠ [] := List.ne_nil_of_length_pos hpos
  have hclass : ∀ a, dramMappingBankClass mapping a = .ok (dramMappingBankClassFast mapping a) := by
    intro a
    rw [dramMappingBankClass, hisReady]
    rfl
  refine ⟨_, _, hclass a₁, hclass a₂, rfl, rfl, ?_, ?_, ?_, ?_⟩
  · rw [dramMappingSameBankClass, hisReady, sameBankLoop_eq hlen']
    rfl
  · rw [← hmasks, predictSameBank_eq hne, sameBankLoop_eq hlen']
  · rw [hclass, bankClass_xor hlen']
  · rw [← hmasks]
    exact bankClass_lt hlen' a₁

/-- Two masks, and two addresses of different classes. -/
theorem mapping_agrees_two :
    let result : CalibrationResult := ⟨true, true, [0x2000, 0x4080], "two".toList,
      ⟨0, 0, 0, 0, .ofRat 0, .ofRat 0, .ofRat 0, .ofRat 0⟩, 0, []⟩
    let mapping := (dramMappingInitFromCalibration result).2
    dramMappingBankClass mapping 0x2000 = .ok 1 ∧
      dramMappingSameBankClass mapping 0x2000 0x6000 =
        .ok (predictSameBank (0x2000 ^^^ 0x6000) [0x2000, 0x4080]) := by
  intro result mapping
  have h : dramMappingInitFromCalibration result = (.ok, mapping) :=
    Prod.ext (by decide +kernel) rfl
  obtain ⟨c₁, c₂, hc₁, -, hfast, -, hsame, hpredict, -⟩ := mapping_agrees h 0x2000 0x6000
  have hone : dramMappingBankClassFast mapping 0x2000 = 1 := by decide +kernel
  rw [hc₁, ← hfast, hone, hsame, ← hpredict]
  exact ⟨rfl, rfl⟩

end CgroupResearch
