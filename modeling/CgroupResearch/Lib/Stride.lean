import Mathlib.Data.List.Range
import Mathlib.Tactic

/-!
# Every so many numbers

The values of a loop variable that starts somewhere, grows by a step and stays below a bound
(`stride`). Starts below the step give residues, which divide all the numbers between them
(`flatMap_stride_perm`).
-/

/-- The numbers from `start` on, by `step`, below `stop`. -/
def stride (start stop step : ℕ) : List ℕ :=
  List.range' start ((stop - start + step - 1) / step) step

namespace Stride

variable {start stop step : ℕ}

theorem stride_nil (hstep : 0 < step) (h : stop ≤ start) : stride start stop step = [] := by
  have hlen : (stop - start + step - 1) / step = 0 := Nat.div_eq_of_lt (by omega)
  rw [stride, hlen]
  rfl

theorem stride_cons (hstep : 0 < step) (h : start < stop) :
    stride start stop step = start :: stride (start + step) stop step := by
  have hlen : (stop - start + step - 1) / step =
      (stop - (start + step) + step - 1) / step + 1 := by
    rw [← Nat.add_div_right _ hstep]
    rcases Nat.lt_or_ge (stop - start) step with hlt | hge
    · -- the last number
      have hzero : stop - (start + step) = 0 := by omega
      rw [hzero, Nat.zero_add, Nat.div_eq_of_lt_le (k := 1) (by omega) (by omega),
        Nat.div_eq_of_lt_le (k := 1) (by omega) (by omega)]
    · congr 1
      omega
  rw [stride, hlen, List.range'_succ, stride]

theorem nodup_stride (hstep : 0 < step) : (stride start stop step).Nodup :=
  List.nodup_range' step hstep

/-- A stride has the positions of one remainder. -/
theorem mem_stride (hstart : start < step) {i : ℕ} :
    i ∈ stride start stop step ↔ i < stop ∧ i % step = start := by
  have hstep : 0 < step := by omega
  rw [stride, List.mem_range']
  constructor
  · rintro ⟨k, hk, rfl⟩
    rw [Nat.lt_iff_add_one_le, Nat.le_div_iff_mul_le hstep, Nat.add_mul, Nat.mul_comm k] at hk
    refine ⟨by omega, ?_⟩
    rw [Nat.add_mul_mod_self_left, Nat.mod_eq_of_lt hstart]
  · rintro ⟨hlt, rfl⟩
    have hdiv := Nat.mod_add_div i step
    refine ⟨i / step, ?_, hdiv.symm⟩
    rw [Nat.lt_iff_add_one_le, Nat.le_div_iff_mul_le hstep, Nat.add_mul,
      Nat.mul_comm (i / step)]
    omega

/-- The numbers of all residues, each once. -/
theorem flatMap_stride_perm (hstep : 0 < step) :
    ((List.range step).flatMap fun start => stride start stop step).Perm (List.range stop) := by
  have hnodup : ((List.range step).flatMap fun start => stride start stop step).Nodup := by
    rw [List.nodup_flatMap]
    refine ⟨fun start _ => nodup_stride hstep, ?_⟩
    refine List.nodup_range.pairwise_of_forall_ne fun s hs t ht hne i his hit => hne ?_
    rw [mem_stride (List.mem_range.1 hs)] at his
    rw [mem_stride (List.mem_range.1 ht)] at hit
    exact his.2.symm.trans hit.2
  rw [List.perm_ext_iff_of_nodup hnodup List.nodup_range]
  intro i
  rw [List.mem_flatMap, List.mem_range]
  constructor
  · rintro ⟨start, hstart, hi⟩
    exact ((mem_stride (List.mem_range.1 hstart)).1 hi).1
  · intro hi
    have hmod := Nat.mod_lt i hstep
    exact ⟨i % step, List.mem_range.2 hmod, (mem_stride hmod).2 ⟨hi, rfl⟩⟩

end Stride
