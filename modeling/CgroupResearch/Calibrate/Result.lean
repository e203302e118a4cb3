import CgroupResearch.Lib.Double

/-!
# Calibration results

What the calibration hands to the daemon (`calibration.h`).
-/

namespace CgroupResearch

/-- `CALIBRATION_MAX_BANK_MASKS`, and `DRAM_MAPPING_MAX_MASKS`. -/
def calibrationMaxBankMasks : ℕ := 32

/-- `CALIBRATION_MASK_SET_ID_MAX`, and `DRAM_MAPPING_MASK_SET_ID_MAX`. -/
def calibrationMaskSetIdMax : ℕ := 65

/-- `CALIBRATION_ERROR_MESSAGE_MAX`. -/
def calibrationErrorMessageMax : ℕ := 256

/-- `enum calibration_rc`. -/
inductive CalibrationRc
  | ok
  | errInvalidArg
  | errFork
  | errWait
  | errTimeout
  | errWorkerExit
  | errIo
  | errJson
  | errRejected
  | errTooManyMasks
  deriving DecidableEq, Repr

/-- `struct calibration_metrics`. -/
structure CalibrationMetrics where
  tp : UInt64
  tn : UInt64
  fp : UInt64
  fn : UInt64
  accuracy : Double
  precision : Double
  «recall» : Double
  f1 : Double
  deriving DecidableEq, Repr

/-- `struct calibration_result`: `bankMasks` are the first `bank_mask_count` masks. -/
structure CalibrationResult where
  statusSuccess : Bool
  acceptancePassed : Bool
  bankMasks : List UInt64
  maskSetId : List Char
  holdout : CalibrationMetrics
  workerExitCode : ℤ
  errorMessage : List Char
  deriving DecidableEq, Repr

end CgroupResearch
