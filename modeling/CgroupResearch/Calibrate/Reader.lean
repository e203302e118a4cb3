import CgroupResearch.Calibrate.Result
import CgroupResearch.Lib.CNumber
import CgroupResearch.Lib.CString

/-!
# Loading a calibration result

The daemon reads what the calibration worker left in `dram-map.json`
(`calibration_load_result` in `calibration.c`). It does not parse the file: it searches for a
key in quotes that a colon follows (`findKeyValue`), and for the bracket that closes a value
(`scanBalanced`).

A pointer into a range is modelled by the bytes from it to the end of the range.
-/

namespace CgroupResearch

open CString CNumber

/-- `CALIBRATION_JSON_MAX_BYTES`. -/
def calibrationJsonMaxBytes : ℕ := 4 * 1024 * 1024

/-- `struct json_range`: `text` are its bytes, and `rest` those of the buffer behind it, which
    the string functions see too. -/
structure JsonRange where
  text : List Char
  rest : List Char
  deriving DecidableEq, Repr

/-- `set_error`, with the message as printed. -/
def setError (out : CalibrationResult) (message : List Char) : CalibrationResult :=
  { out with errorMessage := snprintfString calibrationErrorMessageMax message }

/-- `calibration_result_reset`. -/
def calibrationResultReset : CalibrationResult :=
  { statusSuccess := false
    acceptancePassed := false
    bankMasks := []
    maskSetId := []
    holdout := ⟨0, 0, 0, 0, .fin false 0, .fin false 0, .fin false 0, .fin false 0⟩
    workerExitCode := -1
    errorMessage := [] }

/-- `read_file_limited`: `file` is what the file holds, if it can be read. -/
def readFileLimited (file : Option (List Char)) : Except CalibrationRc (List Char) :=
  match file with
  | none => .error .errIo
  | some bytes => if calibrationJsonMaxBytes < bytes.length then .error .errIo else .ok bytes

theorem readFileLimited_of_le {bytes : List Char} (h : bytes.length ≤ calibrationJsonMaxBytes) :
    readFileLimited (some bytes) = .ok bytes := if_neg (not_lt.2 h)

/-! ## Searching -/

/-- `skip_ws`. -/
def skipWs (p : List Char) : List Char := p.dropWhile isspace

/-- A character that is read leaves less text. -/
theorem length_lt_of_skipWs {p cs : List Char} {c : Char} (h : skipWs p = c :: cs) :
    cs.length < p.length := by
  have hle := List.length_dropWhile_le isspace p
  rw [← skipWs, h, List.length_cons] at hle
  exact hle

/-- `strstr`, as the offset of the first occurrence. -/
def strstr (needle : List Char) : List Char → Option ℕ
  | [] => if needle = [] then some 0 else none
  | c :: cs =>
    if needle.isPrefixOf (c :: cs) then some 0 else (strstr needle cs).map (· + 1)

/-- The loop of `find_key_value`, from `p` in a range that ends before `rest`. -/
def findKeyLoop (pattern rest : List Char) (p : List Char) : Option (List Char) :=
  if p = [] then none
  else
    match strstr pattern (cstr (p ++ rest)) with
    | none => none
    | some off =>
      if p.length ≤ off then none
      else
        match skipWs ((p.drop off).drop pattern.length) with
        | ':' :: value => some (skipWs value)
        | _ => findKeyLoop pattern rest (p.drop (off + 1))
termination_by p.length
decreasing_by simp only [List.length_drop]; omega

/-- `find_key_value`: the pattern must fit in its buffer of 128 bytes. -/
def findKeyValue (range : JsonRange) (key : String) : Option (List Char) :=
  let pattern := '"' :: key.toList ++ ['"']
  if 128 ≤ pattern.length then none else findKeyLoop pattern range.rest range.text

/-- The loop of `scan_balanced`: the bytes up to the closing bracket, and those after it. -/
def scanBalancedLoop (openCh closeCh : Char) :
    (depth : ℤ) → (inString escaped : Bool) → List Char → Option (List Char × List Char)
  | _, _, _, [] => none
  | depth, inString, escaped, ch :: cs =>
    let next := fun depth inString escaped =>
      (scanBalancedLoop openCh closeCh depth inString escaped cs).map fun r => (ch :: r.1, r.2)
    if inString then
      if escaped then next depth true false
      else if ch = '\\' then next depth true true
      else if ch = '"' then next depth false false
      else next depth true false
    else if ch = '"' then next depth true escaped
    else if ch = openCh then next (depth + 1) false escaped
    else if ch = closeCh then
      if depth - 1 = 0 then some ([ch], cs) else next (depth - 1) false escaped
    else next depth false escaped

/-- `scan_balanced`, in a range that ends before `rest`. -/
def scanBalanced («open» rest : List Char) (openCh closeCh : Char) : Option JsonRange :=
  if «open».head? ≠ some openCh then none
  else
    (scanBalancedLoop openCh closeCh 0 false false «open»).map fun r => ⟨r.1, r.2 ++ rest⟩

/-- `extract_object`. -/
def extractObject (range : JsonRange) (key : String) : Option JsonRange :=
  (findKeyValue range key).bind fun value => scanBalanced value range.rest '{' '}'

/-- `extract_array`. -/
def extractArray (range : JsonRange) (key : String) : Option JsonRange :=
  (findKeyValue range key).bind fun value => scanBalanced value range.rest '[' ']'

/-- The loop of `extract_string`: whether the closing quote came, and what is in `dst`, whose
    first bytes are `dst`. -/
def extractStringLoop (dstSize : ℕ) :
    (dst : List Char) → (escaped : Bool) → List Char → Bool × List Char
  | dst, _, [] => (false, dst)
  | dst, escaped, ch :: p =>
    if !escaped && ch = '\\' then extractStringLoop dstSize dst true p
    else if !escaped && ch = '"' then (true, dst)
    else if dstSize ≤ dst.length + 1 then (false, dst)
    else extractStringLoop dstSize (dst ++ [ch]) false p

/-- `extract_string`, to a buffer of zeros: whether it succeeds, and what it leaves there. -/
def extractString (range : JsonRange) (key : String) (dstSize : ℕ) : Bool × List Char :=
  match findKeyValue range key with
  | some ('"' :: p) => if dstSize = 0 then (false, []) else extractStringLoop dstSize [] false p
  | _ => (false, [])

/-- `extract_bool`. -/
def extractBool (range : JsonRange) (key : String) : Option Bool :=
  (findKeyValue range key).bind fun p =>
    if "true".toList.isPrefixOf p then some true
    else if "false".toList.isPrefixOf p then some false
    else none

/-- The checks that `extract_double` and `extract_u64` make on a conversion from `p`. -/
def converted {α : Type} (conversion : Conversion α) (p : List Char) : Option α :=
  if conversion.erange || conversion.consumed = 0 || p.length < conversion.consumed then none
  else some conversion.value

/-- `extract_double`. -/
def extractDouble (range : JsonRange) (key : String) : Option Double :=
  (findKeyValue range key).bind fun p => converted (strtod (p ++ range.rest)) p

/-- `extract_u64`. -/
def extractU64 (range : JsonRange) (key : String) : Option UInt64 :=
  (findKeyValue range key).bind fun p => converted (strtoull (p ++ range.rest) 10) p

/-! ## The result -/

/-- The mask that the string `text` of `parse_bank_masks` stands for. -/
def parseMask (text : List Char) : Option UInt64 :=
  let c := strtoull text 0
  -- `*endptr != '\0'`: the whole string has to be read
  if c.erange || c.consumed = 0 || c.consumed ≠ (cstr text).length || c.value = 0 then none
  else some c.value

/-- The loop of `parse_bank_masks` over the inside of the array, with the masks read so far. -/
def parseBankMasksLoop (masks : List UInt64) (p : List Char) : CalibrationRc × List UInt64 :=
  match _h : skipWs p with
  | [] => (if masks = [] then .errRejected else .ok, masks)
  | c :: cs =>
    if c = ',' then parseBankMasksLoop masks cs
    else if c ≠ '"' then (.errJson, masks)
    else
      let text := cs.takeWhile (· ≠ '"')
      -- `text[64]` holds the string and its terminator
      if 64 ≤ text.length then (.errJson, masks)
      else
        match _h' : cs.drop text.length with
        | [] => (.errJson, masks)
        | _ :: after =>
          if calibrationMaxBankMasks ≤ masks.length then (.errTooManyMasks, masks)
          else
            match parseMask text with
            | none => (.errJson, masks)
            | some mask => parseBankMasksLoop (masks ++ [mask]) after
termination_by p.length
decreasing_by
  · exact length_lt_of_skipWs _h
  · have := length_lt_of_skipWs _h
    have := congrArg List.length _h'
    rw [List.length_drop, List.length_cons] at this
    omega

/-- `parse_bank_masks`: the inside of the array is all of it but its brackets. -/
def parseBankMasks (array : JsonRange) (masks : List UInt64) : CalibrationRc × List UInt64 :=
  parseBankMasksLoop masks (array.text.drop 1).dropLast

/-- Reading fields one after the other, up to the first that is not there. -/
def extractFields {α β : Type} (extract : String → Option α) :
    List (String × (β → α → β)) → β → Bool × β
  | [], out => (true, out)
  | (key, set) :: fields, out =>
    match extract key with
    | none => (false, out)
    | some value => extractFields extract fields (set out value)

/-- The reading of the counts and the rates of `metrics.holdout`. -/
def extractHoldout (holdout : JsonRange) (out : CalibrationMetrics) : Bool × CalibrationMetrics :=
  let counts := extractFields (extractU64 holdout)
    [("tp", fun m v => { m with tp := v }), ("tn", fun m v => { m with tn := v }),
      ("fp", fun m v => { m with fp := v }), ("fn", fun m v => { m with fn := v })] out
  if !counts.1 then counts
  else
    extractFields (extractDouble holdout)
      [("accuracy", fun m v => { m with accuracy := v }),
        ("precision", fun m v => { m with precision := v }),
        ("recall", fun m v => { m with «recall» := v }), ("f1", fun m v => { m with f1 := v })]
      counts.2

/-- The part of `calibration_load_result` after `bank_masks`. -/
def loadMetrics (root : JsonRange) (out : CalibrationResult) : CalibrationRc × CalibrationResult :=
  let id := extractString root "mask_set_id" calibrationMaskSetIdMax
  let out := { out with maskSetId := id.2 }
  if !id.1 then (.errJson, setError out "result JSON missing mask_set_id".toList)
  else
    match (extractObject root "metrics").bind (extractObject · "holdout") with
    | none => (.errJson, setError out "result JSON missing metrics.holdout".toList)
    | some holdout =>
      let metrics := extractHoldout holdout out.holdout
      let out := { out with holdout := metrics.2 }
      if !metrics.1 then (.errJson, setError out "invalid metrics.holdout object".toList)
      else (.ok, out)

/-- The part of `calibration_load_result` after `status`. -/
def loadMasks (root : JsonRange) (out : CalibrationResult) : CalibrationRc × CalibrationResult :=
  match (extractObject root "acceptance").bind (extractBool · "passed") with
  | none => (.errJson, setError out "result JSON missing acceptance.passed".toList)
  | some passed =>
    let out := { out with acceptancePassed := passed }
    if !passed then (.errRejected, setError out "calibration acceptance gate failed".toList)
    else
      match extractArray root "bank_masks" with
      | none => (.errJson, setError out "result JSON missing bank_masks".toList)
      | some masks =>
        let parsed := parseBankMasks masks out.bankMasks
        let out := { out with bankMasks := parsed.2 }
        if parsed.1 ≠ .ok then
          (parsed.1, setError out "invalid or empty bank_masks array".toList)
        else loadMetrics root out

/-- `calibration_load_result`, on the file at `resultPath`. -/
def calibrationLoadResult (resultPath : List Char) (file : Option (List Char)) :
    CalibrationRc × CalibrationResult :=
  let out := calibrationResultReset
  match readFileLimited file with
  | .error rc => (rc, setError out ("cannot read result JSON: ".toList ++ cstr resultPath))
  | .ok json =>
    let root : JsonRange := ⟨json, []⟩
    let error := extractString root "error" calibrationErrorMessageMax
    let out := if error.1 then setError out error.2 else out
    let status := extractString root "status" 32
    if !status.1 then
      (.errJson, setError out "result JSON missing string field: status".toList)
    else
      let out := { out with statusSuccess := cstr status.2 == "success".toList }
      if !out.statusSuccess then
        if out.errorMessage = [] then
          (.errRejected,
            setError out ("calibration worker status is '".toList ++ cstr status.2 ++ ['\'']))
        else (.errRejected, out)
      else loadMasks root out

end CgroupResearch
