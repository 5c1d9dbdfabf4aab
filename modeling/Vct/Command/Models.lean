import Vct.Controller.Errors
import Vct.Lib.Except

namespace Vct.Command.Models

open Vct.Controller.Errors
open Vct.Lib.Except

structure GetEntriesRequest where
  «alias» : List Char
  start : Int64
  «end» : Int64
  deriving DecidableEq, Repr

structure LeafEntry where
  leafInput : List UInt8
  extraData : List UInt8
  deriving DecidableEq, Repr

structure GetEntriesResponse where
  entries : List LeafEntry
  deriving DecidableEq, Repr

def v1 : UInt8 := 0

def timestampedEntryLeafType : UInt64 := 100

def vcLogEntryType : UInt64 := 100

def vcTimestampSignatureType : UInt64 := 100

/-- `TimestampedEntry`; a `nil` byte slice is `none`, which `encoding/json` tells apart from
an empty one. -/
structure TimestampedEntry where
  timestamp : UInt64
  entryType : UInt64
  vcEntry : Option (List UInt8)
  extensions : Option (List UInt8)
  deriving DecidableEq, Repr

/-- `MerkleTreeLeaf`, whose `TimestampedEntry` is a pointer. -/
structure MerkleTreeLeaf where
  version : UInt8
  leafType : UInt64
  timestampedEntry : Option TimestampedEntry
  deriving DecidableEq, Repr

/-- The dereference of `TimestampedEntry`, which panics on a nil pointer. -/
def MerkleTreeLeaf.entry (leaf : MerkleTreeLeaf) : Except GoError TimestampedEntry :=
  match leaf.timestampedEntry with
  | some entry => .ok entry
  | none => .error (.panic "invalid memory address or nil pointer dereference")

structure VCTimestampSignature where
  svctVersion : UInt8
  signatureType : UInt64
  timestamp : UInt64
  entryType : UInt64
  vcEntry : Option (List UInt8)
  extensions : Option (List UInt8)
  deriving DecidableEq, Repr

/-- `DigitallySigned`, over the `SignatureAndHashAlgorithm` of the key manager. -/
structure DigitallySigned (A : Type) where
  algorithm : A
  signature : List UInt8

structure AddVCRequest where
  «alias» : List Char
  vcEntry : List UInt8
  deriving DecidableEq, Repr

structure AddVCResponse where
  svctVersion : UInt8
  id : List UInt8
  timestamp : UInt64
  extensions : List Char
  signature : List UInt8
  deriving DecidableEq, Repr

def GetEntriesRequest.validate : Option GetEntriesRequest → Except GoError Unit
  | none => .error (.wrapf "%w: validate on nil value" [] errValidation)
  | some r =>
      if r.start < 0 ∨ r.end < 0 then
        .error (.wrapf "%w: start %d and end %d values must be >= 0"
          [.int r.start.toInt, .int r.end.toInt] errValidation)
      else if r.start > r.end then
        .error (.wrapf "%w: start %d and end %d values is not a valid range"
          [.int r.start.toInt, .int r.end.toInt] errValidation)
      else .ok ()

theorem validate_eq_ok_iff (r : GetEntriesRequest) :
    GetEntriesRequest.validate (some r) = .ok () ↔ 0 ≤ r.start ∧ r.start ≤ r.end := by
  simp only [GetEntriesRequest.validate, Int64.lt_iff_toInt_lt, Int64.le_iff_toInt_le,
    Int64.toInt_zero]
  split_ifs with hneg hrange
  · simp only [false_iff, not_and, Int.not_le]
    omega
  · simp only [false_iff, not_and, Int.not_le]
    omega
  · simp only [true_iff]
    omega

structure GetEntryAndProofRequest where
  «alias» : List Char
  leafIndex : Int64
  treeSize : Int64
  deriving DecidableEq, Repr

structure GetEntryAndProofResponse where
  leafInput : List UInt8
  extraData : List UInt8
  auditPath : List (List UInt8)
  deriving DecidableEq, Repr

/-- `GetProofByHashRequest`, with `Hash` as the bytes of its string. -/
structure GetProofByHashRequest where
  «alias» : List Char
  hash : List UInt8
  treeSize : Int64
  deriving DecidableEq, Repr

structure GetProofByHashResponse where
  leafIndex : Int64
  auditPath : List (List UInt8)
  deriving DecidableEq, Repr

structure GetSTHConsistencyRequest where
  «alias» : List Char
  firstTreeSize : Int64
  secondTreeSize : Int64
  deriving DecidableEq, Repr

structure GetSTHConsistencyResponse where
  consistency : List (List UInt8)
  deriving DecidableEq, Repr

structure GetSTHResponse where
  treeSize : UInt64
  timestamp : UInt64
  sha256RootHash : List UInt8
  treeHeadSignature : List UInt8
  deriving DecidableEq, Repr

section Validate

/-!
The `Validate` methods of the other requests. Each first rejects a nil request
(`validatePointer`). `GetSTHConsistencyRequest` checks its two tree sizes as
`GetEntriesRequest` checks its range (`validateRange`), with its own field names in the
messages; `GetEntryAndProofRequest` checks its tree size as `GetProofByHashRequest` does
(`validateTreeSize`) and then its leaf index.
-/

variable {R : Type}

def validatePointer (check : R → Except GoError Unit) : Option R → Except GoError Unit
  | none => .error (.wrapf "%w: validate on nil value" [] errValidation)
  | some r => check r

def validateRange (negativeFormat rangeFormat : String) (first second : Int64) :
    Except GoError Unit :=
  if first < 0 ∨ second < 0 then
    .error (.wrapf negativeFormat [.int first.toInt, .int second.toInt] errValidation)
  else if first > second then
    .error (.wrapf rangeFormat [.int first.toInt, .int second.toInt] errValidation)
  else .ok ()

def validateTreeSize (treeSize : Int64) : Except GoError Unit :=
  if treeSize < 1 then
    .error (.wrapf "%w: tree_size value must be greater than zero" [] errValidation)
  else .ok ()

def GetSTHConsistencyRequest.validate : Option GetSTHConsistencyRequest → Except GoError Unit :=
  validatePointer fun r => validateRange
    "%w: first_tree_size %d and second_tree_size %d values must be >= 0"
    "%w: first_tree_size %d and second_tree_size %d values is not a valid range"
    r.firstTreeSize r.secondTreeSize

def GetProofByHashRequest.validate : Option GetProofByHashRequest → Except GoError Unit :=
  validatePointer fun r => validateTreeSize r.treeSize

def GetEntryAndProofRequest.validate : Option GetEntryAndProofRequest → Except GoError Unit :=
  validatePointer fun r => do
    validateTreeSize r.treeSize
    if r.leafIndex < 0 then
      throw (.wrapf "%w: leaf_index must be greater than or equal to zero" [] errValidation)
    if r.leafIndex ≥ r.treeSize then
      throw (.wrapf "%w: leaf_index must be less than tree_size" [] errValidation)

/-- `GetEntriesRequest.Validate` is the range check on `Start` and `End`. -/
theorem getEntriesRequest_validate_eq :
    GetEntriesRequest.validate = validatePointer fun r => validateRange
      "%w: start %d and end %d values must be >= 0"
      "%w: start %d and end %d values is not a valid range" r.start r.end := by
  funext decoded
  cases decoded <;> rfl

theorem validatePointer_eq_ok_iff {check : R → Except GoError Unit} {decoded : Option R} :
    validatePointer check decoded = .ok () ↔ ∃ r, decoded = some r ∧ check r = .ok () := by
  cases decoded <;> simp [validatePointer]

theorem validateRange_eq_ok_iff {negativeFormat rangeFormat : String} {first second : Int64} :
    validateRange negativeFormat rangeFormat first second = .ok () ↔ 0 ≤ first ∧ first ≤ second := by
  simp only [validateRange, Int64.lt_iff_toInt_lt, Int64.le_iff_toInt_le, Int64.toInt_zero]
  split_ifs with hnegative hrange
  · simp only [false_iff, not_and, Int.not_le]
    omega
  · simp only [false_iff, not_and, Int.not_le]
    omega
  · simp only [true_iff]
    omega

theorem validateTreeSize_eq_ok_iff {treeSize : Int64} :
    validateTreeSize treeSize = .ok () ↔ 1 ≤ treeSize := by
  unfold validateTreeSize
  split_ifs with hsmall
  · simp only [false_iff, Int64.not_le]
    exact hsmall
  · simp only [true_iff]
    exact Int64.not_lt.mp hsmall

theorem GetSTHConsistencyRequest.validate_eq_ok_iff (r : GetSTHConsistencyRequest) :
    validate (some r) = .ok () ↔ 0 ≤ r.firstTreeSize ∧ r.firstTreeSize ≤ r.secondTreeSize :=
  validateRange_eq_ok_iff

theorem GetProofByHashRequest.validate_eq_ok_iff (r : GetProofByHashRequest) :
    validate (some r) = .ok () ↔ 1 ≤ r.treeSize :=
  validateTreeSize_eq_ok_iff

theorem GetEntryAndProofRequest.validate_eq_ok_iff (r : GetEntryAndProofRequest) :
    validate (some r) = .ok () ↔ 0 ≤ r.leafIndex ∧ r.leafIndex < r.treeSize := by
  simp only [validate, validatePointer, bind_eq_ok_iff]
  constructor
  · rintro ⟨-, -, h⟩
    by_cases hnegative : r.leafIndex < 0
    · simp [hnegative] at h
    by_cases hlarge : r.leafIndex ≥ r.treeSize
    · simp [hnegative, hlarge] at h
    exact ⟨Int64.not_lt.mp hnegative, Int64.not_le.mp hlarge⟩
  · rintro ⟨hnonneg, hlt⟩
    have htree : 1 ≤ r.treeSize := by
      simp only [Int64.le_iff_toInt_le, Int64.lt_iff_toInt_lt, Int64.toInt_zero] at hnonneg hlt ⊢
      have hone : (1 : Int64).toInt = 1 := rfl
      omega
    refine ⟨(), validateTreeSize_eq_ok_iff.mpr htree, ?_⟩
    rw [if_neg (Int64.not_lt.mpr hnonneg), if_neg (Int64.not_le.mpr hlt)]
    rfl

theorem statusCode_of_validatePointer {check : R → Except GoError Unit}
    (hcheck : ∀ r e, check r = .error e → statusCodeFromError e = 400) {decoded : Option R}
    {e : GoError} (h : validatePointer check decoded = .error e) : statusCodeFromError e = 400 := by
  cases decoded with
  | none =>
    cases h
    rfl
  | some r => exact hcheck r e h

theorem statusCode_of_validateRange {negativeFormat rangeFormat : String} {first second : Int64}
    {e : GoError} (h : validateRange negativeFormat rangeFormat first second = .error e) :
    statusCodeFromError e = 400 := by
  unfold validateRange at h
  split_ifs at h <;> cases h <;> rfl

theorem statusCode_of_validateTreeSize {treeSize : Int64} {e : GoError}
    (h : validateTreeSize treeSize = .error e) : statusCodeFromError e = 400 := by
  unfold validateTreeSize at h
  split_ifs at h
  cases h
  rfl

/-- Every request the four `Validate` methods reject is answered with 400 Bad Request. -/
theorem validate_error_statusCode {e : GoError} :
    (∀ d, GetEntriesRequest.validate d = .error e → statusCodeFromError e = 400) ∧
    (∀ d, GetSTHConsistencyRequest.validate d = .error e → statusCodeFromError e = 400) ∧
    (∀ d, GetProofByHashRequest.validate d = .error e → statusCodeFromError e = 400) ∧
    (∀ d, GetEntryAndProofRequest.validate d = .error e → statusCodeFromError e = 400) := by
  refine ⟨fun d h => ?_, fun d h => ?_, fun d h => ?_, fun d h => ?_⟩
  · rw [getEntriesRequest_validate_eq] at h
    exact statusCode_of_validatePointer (fun _ _ => statusCode_of_validateRange) h
  · exact statusCode_of_validatePointer (fun _ _ => statusCode_of_validateRange) h
  · exact statusCode_of_validatePointer (fun _ _ => statusCode_of_validateTreeSize) h
  · refine statusCode_of_validatePointer (fun r e hr => ?_) h
    simp only [bind, Except.bind] at hr
    split at hr
    · rename_i herr
      cases hr
      exact statusCode_of_validateTreeSize herr
    · split_ifs at hr <;> cases hr <;> rfl

end Validate

end Vct.Command.Models
