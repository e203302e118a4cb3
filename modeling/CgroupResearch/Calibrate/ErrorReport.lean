import CgroupResearch.Calibrate.Outcome
import CgroupResearch.Calibrate.RoundTrip

/-!
# Errors of the calibration worker

When an analysis fails, `main` of `kk_calibrate.py` writes a report with an entry `error` and
exits with 2. The daemon rejects it, and repeats the error (`error_is_reported`): character by
character where these stand for themselves in JSON, and else without the backslashes of their
escapes. An error that is too long for its buffer is lost. All this is for reports that the daemon
reads as a whole, of 4 MiB at most.
-/

namespace CgroupResearch

open CString PyJson

/-- The entries of `error_payload`. -/
def errorEntries (generatedUnixNs : ℤ) (hardware : Hardware) (error : PyStr) :
    List (String × PyJson) :=
  [("status", literal "failed"), ("schema_version", .int 1),
    ("generated_unix_ns", .int generatedUnixNs), ("hardware", hardware.asdict),
    ("error", .str error)]

/-- `error_payload`. -/
def errorPayload (generatedUnixNs : ℤ) (hardware : Hardware) (error : PyStr) : PyJson :=
  object (errorEntries generatedUnixNs hardware error)

/-- What `extract_string` makes of the inside of a string literal: the backslash of an escape is
    dropped, and what follows it is taken as it is. -/
def dropBackslashes : List Char → List Char
  | [] => []
  | ['\\'] => []
  | '\\' :: c :: s => c :: dropBackslashes s
  | c :: s => c :: dropBackslashes s

/-- An escape is read as its second character. -/
theorem dropBackslashes_escape (c : Char) (s : List Char) :
    dropBackslashes ('\\' :: c :: s) = c :: dropBackslashes s := by
  rw [dropBackslashes]

/-- Another character stands for itself. -/
theorem dropBackslashes_plain {c : Char} (h : c ≠ '\\') (s : List Char) :
    dropBackslashes (c :: s) = c :: dropBackslashes s := by
  rw [dropBackslashes]
  · rintro rfl
    exact absurd rfl h
  · rintro c' s' rfl
    exact absurd rfl h

/-- Characters that stand for themselves are read back as they are. -/
theorem dropBackslashes_of_plain {s : List Char} (h : ∀ c ∈ s, Plain c) :
    dropBackslashes s = s := by
  induction s with
  | nil => rfl
  | cons c s ih =>
    rw [List.forall_mem_cons] at h
    rw [dropBackslashes_plain h.1.2.2.2, ih h.2]

/-- The loop of `extract_string` on the inside of a string literal: it succeeds if there is room,
    and else leaves the first characters. -/
theorem extractStringLoop_unescaped {dstSize : ℕ} {e : List Char} (he : Escaped e)
    (dst next : List Char) (hdst : dst.length < dstSize) :
    extractStringLoop dstSize dst false (e ++ '"' :: next) =
      if (dst ++ dropBackslashes e).length < dstSize then (true, dst ++ dropBackslashes e)
      else (false, (dst ++ dropBackslashes e).take (dstSize - 1)) := by
  -- one more character, if there is room for it
  have hturn (c : Char) (e : List Char)
      (ih : ∀ dst : List Char, dst.length < dstSize →
        extractStringLoop dstSize dst false (e ++ '"' :: next) =
          if (dst ++ dropBackslashes e).length < dstSize then (true, dst ++ dropBackslashes e)
          else (false, (dst ++ dropBackslashes e).take (dstSize - 1)))
      (dst : List Char) (hdst : dst.length < dstSize) :
      (if dstSize ≤ dst.length + 1 then (false, dst)
        else extractStringLoop dstSize (dst ++ [c]) false (e ++ '"' :: next)) =
      if (dst ++ c :: dropBackslashes e).length < dstSize then
        (true, dst ++ c :: dropBackslashes e)
      else (false, (dst ++ c :: dropBackslashes e).take (dstSize - 1)) := by
    split
    · next hfull =>
      have hlength : dst.length = dstSize - 1 := by omega
      rw [if_neg (by simp; omega), ← hlength, List.take_left]
    · next hroom =>
      rw [ih (dst ++ [c]) (by simp; omega)]
      simp
  induction he generalizing dst with
  | nil => simp [extractStringLoop, dropBackslashes, hdst]
  | @plain c e hq hb _ _ ih =>
    rw [dropBackslashes_plain hb, List.cons_append, extractStringLoop]
    simp only [hq, hb, decide_false, Bool.and_false, Bool.false_eq_true, if_false]
    exact hturn c e ih dst hdst
  | @escape d e _ _ ih =>
    rw [dropBackslashes_escape, List.cons_append, extractStringLoop]
    simp only [Bool.not_false, decide_true, Bool.and_self, if_true]
    rw [List.cons_append, extractStringLoop]
    simp only [Bool.not_true, Bool.false_and, Bool.false_eq_true, if_false]
    exact hturn d e ih dst hdst

/-- Reading any string that the worker has written. -/
theorem extractString_of_found_escaped {range : JsonRange} {key : String} {error : PyStr}
    (h : Found range key (.str error)) {dstSize : ℕ} (hpos : 0 < dstSize) :
    extractString range key dstSize =
      if (dropBackslashes error.escape).length < dstSize then
        (true, dropBackslashes error.escape)
      else (false, (dropBackslashes error.escape).take (dstSize - 1)) := by
  obtain ⟨level, next, -, hfind⟩ := h
  have hvalue : render level (.str error) ++ next =
      '"' :: (error.escape ++ '"' :: next) := by
    rw [render, PyStr.encode]
    simp
  rw [extractString, hfind, hvalue]
  simp only [if_neg hpos.ne']
  exact extractStringLoop_unescaped (escaped_escape error) [] next hpos

section

variable (generatedUnixNs : ℤ) (hardware : Hardware) (error : PyStr)

/-- The keys of the payload. -/
def errorKeys : List String :=
  ["status", "schema_version", "generated_unix_ns", "hardware", "error"]

/-- The reader finds the entries of the payload. -/
theorem found_in_errorPayload {key : String} {v : PyJson}
    (hmem : (key, v) ∈ errorEntries generatedUnixNs hardware error) :
    Found ⟨atomicWriteJson (errorPayload generatedUnixNs hardware error), []⟩ key v := by
  have hgood : GoodKeys errorKeys := ⟨by decide, by decide⟩
  have hkeys : (errorEntries generatedUnixNs hardware error).map Prod.fst = errorKeys := rfl
  have hkey : key ∈ errorKeys := hkeys ▸ List.mem_map_of_mem hmem
  have hnested : ∀ s ∈ errorKeys, s ∉ nestedKeys ∧ ∃ c ∈ s.toList, c.isDigit = false := by
    decide
  obtain ⟨hK, hdigit⟩ := hnested key hkey
  have hnul : '\x00' ∉ ['\n'] := by decide
  refine found_of_mem rfl hnul hkeys hgood hmem fun m hm _ => ?_
  have hmono (v : PyJson) (hv : v.Keys NestedKey) : v.Keys (Avoids key.toList) :=
    hv.mono fun k hk => hk.avoids hK hdigit
  refine hmono _ ?_
  simp only [errorEntries, List.mem_cons, List.not_mem_nil, or_false] at hm
  rcases hm with rfl | rfl | rfl | rfl | rfl
  · exact .str _
  · exact .int _
  · exact .int _
  · exact keys_hardware hardware
  · exact .str _

theorem mem_of_mem_dropBackslashes {c : Char} {s : List Char} (h : c ∈ dropBackslashes s) :
    c ∈ s := by
  fun_induction dropBackslashes s with
  | case1 => exact h
  | case2 => cases h
  | case3 d s ih =>
    rcases List.mem_cons.1 h with rfl | h
    · exact List.mem_cons_of_mem _ List.mem_cons_self
    · exact List.mem_cons_of_mem _ (List.mem_cons_of_mem _ (ih h))
  | case4 d s _ _ ih =>
    rcases List.mem_cons.1 h with rfl | h
    · exact List.mem_cons_self
    · exact List.mem_cons_of_mem _ (ih h)

/-- The message for a result that the loader rejects without an error in it. -/
def rejectedMessage : List Char := "calibration worker status is 'failed'".toList

/-- The loader rejects the payload, with its error as the message if it is read. -/
theorem load_errorPayload
    (hsize : (atomicWriteJson (errorPayload generatedUnixNs hardware error)).length ≤
      calibrationJsonMaxBytes) (resultPath : List Char) :
    ∃ out, calibrationLoadResult resultPath
        (some (atomicWriteJson (errorPayload generatedUnixNs hardware error))) =
          (.errRejected, out) ∧
      out.errorMessage = (
        if dropBackslashes error.escape = [] ∨
            calibrationErrorMessageMax ≤ (dropBackslashes error.escape).length then rejectedMessage
        else dropBackslashes error.escape) ∧ out.bankMasks = [] := by
  have hcstr : cstr (dropBackslashes error.escape) = dropBackslashes error.escape :=
    cstr_eq_self fun hnul =>
      (escaped_escape error).ne_nul _ (mem_of_mem_dropBackslashes hnul) rfl
  have herror := extractString_of_found_escaped
    (found_in_errorPayload generatedUnixNs hardware error
      (show ("error", PyJson.str error) ∈ _ by simp [errorEntries]))
    (show 0 < calibrationErrorMessageMax by decide)
  have hstatus : extractString
      ⟨atomicWriteJson (errorPayload generatedUnixNs hardware error), []⟩ "status" 32 =
        (true, "failed".toList) :=
    extractString_of_found (by decide)
      (found_in_errorPayload generatedUnixNs hardware error
        (by simp [errorEntries, literal, PyStr.ofString])) (by decide)
  have hsuccess : (cstr "failed".toList == "success".toList) = false := by decide
  have hrejected (out : CalibrationResult) :
      (setError out ("calibration worker status is '".toList ++
        cstr "failed".toList ++ ['\''])).errorMessage = rejectedMessage := rfl
  rw [calibrationLoadResult, readFileLimited_of_le hsize]
  simp only [herror, hstatus, hsuccess, Bool.not_true, Bool.not_false, Bool.false_eq_true,
    if_false, if_true]
  by_cases hroom : (dropBackslashes error.escape).length < calibrationErrorMessageMax
  · have hmessage : (setError calibrationResultReset (dropBackslashes error.escape)).errorMessage =
        dropBackslashes error.escape := by
      rw [calibrationErrorMessageMax] at hroom
      rw [setError, snprintfString, hcstr, List.take_of_length_le]
      rw [calibrationErrorMessageMax]
      omega
    simp only [if_pos hroom, if_true, hmessage]
    by_cases hnil : dropBackslashes error.escape = []
    · rw [if_pos hnil, if_pos (.inl hnil)]
      exact ⟨_, rfl, hrejected _, rfl⟩
    · rw [if_neg hnil, if_neg (not_or.2 ⟨hnil, not_le.2 hroom⟩)]
      exact ⟨_, rfl, rfl, rfl⟩
  · simp only [if_neg hroom, Bool.false_eq_true, if_false]
    rw [if_pos (show calibrationResultReset.errorMessage = [] from rfl),
      if_pos (.inr (not_lt.1 hroom))]
    exact ⟨_, rfl, hrejected _, rfl⟩

/-- What `calibration_run` says about a worker that has failed with a `CalibrationError`, and has
    exited with a code: if the report is not too large to be read, the result is rejected, and the
    message is the error as the daemon reads it, if there is one and the buffer has room for it. An
    error of characters that stand for themselves is read as it is. -/
theorem error_is_reported (cfg : CalibrationConfig) {workerExitCode : ℤ}
    (hcode : workerExitCode ≠ 0)
    (hsize : (atomicWriteJson (errorPayload generatedUnixNs hardware error)).length ≤
      calibrationJsonMaxBytes) :
    (∃ out, calibrationVerdict cfg workerExitCode
        (some (atomicWriteJson (errorPayload generatedUnixNs hardware error))) =
          (.errRejected, out) ∧
      out.errorMessage = (
        if dropBackslashes error.escape = [] ∨
            calibrationErrorMessageMax ≤ (dropBackslashes error.escape).length then rejectedMessage
        else dropBackslashes error.escape) ∧
      out.workerExitCode = workerExitCode ∧ out.bankMasks = []) ∧
    ∀ s, (∀ c ∈ s, Plain c) → error = .ofList s → dropBackslashes error.escape = s := by
  constructor
  · obtain ⟨out, hload, hmessage, hmasks⟩ := load_errorPayload generatedUnixNs hardware error hsize
      (cfg.resultPath.getD [])
    refine ⟨{ out with workerExitCode := workerExitCode }, ?_, hmessage, rfl, hmasks⟩
    simp only [calibrationVerdict, hload, ne_eq, hcode, not_false_eq_true, if_true]
  · rintro s hs rfl
    rw [escape_ofList hs, dropBackslashes_of_plain hs]

/-- An error of the worker about its threshold. -/
theorem error_is_reported_gap :
    ∃ out, calibrationVerdict calibrationExample 2 (some (atomicWriteJson (errorPayload 0
        oneMask.hardware (.ofList "no threshold gap candidate found".toList)))) =
          (.errRejected, out) ∧ out.workerExitCode = 2 := by
  obtain ⟨⟨out, hverdict, _, hcode, _⟩, _⟩ := error_is_reported 0 oneMask.hardware
    (.ofList "no threshold gap candidate found".toList) calibrationExample
    (show (2 : ℤ) ≠ 0 by decide) (by decide +kernel)
  exact ⟨out, hverdict, hcode⟩

end

end CgroupResearch
