import Mathlib
import Vct.Canonicalizer.Marshal
import Vct.Command.Controller
import Vct.Command.Proofs
import Vct.Lib.Except

namespace Vct.Command.GetSTH

open Vct.Lib
open Vct.Lib.Except
open Vct.Lib.Json
open Vct.Controller.Errors
open Vct.Command.Models
open Vct.Command.Controller
open Vct.Canonicalizer.Transform
open Vct.Canonicalizer.Canonical
open Vct.Canonicalizer.Marshal
open Vct.Command.Proofs
open Vct.Trillian
open Vct.Trillian.Types (LogRootV1)

variable {C A : Type} (numberToJSON : List UInt8 → Except String (List UInt8))

/-- The error `Transform` returns, an `errors.New` of its text. -/
def transformGoError (err : TransformError) : GoError := .errorf "%s" [.bytes err.message]

/-- `signV1TreeHead`: the key manager's signature over the canonical form of the payload
of the root. -/
def signV1TreeHead (sign : List UInt8 → Except GoError (List UInt8)) (alg : A)
    (root : LogRootV1) : Except GoError (DigitallySigned A) := do
  let sthBytes ← (marshalCanonical numberToJSON (treeHeadSignatureValue (treeHeadSignatureOf root))).mapError
    fun err => .wrapf "marshal TreeHeadSignature: %w" [] (transformGoError err)
  let signature ← (sign sthBytes).mapError (.wrapf "sign TreeHeadSignature: %w" [])
  return ⟨alg, signature⟩

/-- `(*Cmd).GetSTH`, from the decoded alias to the response it encodes. -/
def getSTH (unmarshalLogRoot : List UInt8 → Except GoError LogRootV1)
    (getLatestSignedLogRoot : C → Types.GetLatestSignedLogRootRequest →
      Except GoError Types.GetLatestSignedLogRootResponse)
    (sign : List UInt8 → Except GoError (List UInt8)) (alg : A)
    (marshalDigitallySigned : DigitallySigned A → Except GoError (List UInt8))
    (c : Cmd C) (aliasName : List Char) : Except GoError GetSTHResponse := do
  (c.hasPermissions aliasName .read).mapError (.wrapf "has permissions: %w" [])
  -- `hasPermissions` has found the alias
  let some log := c.logs.lookup aliasName | throw (.panic "nil pointer dereference")
  let resp ← (getLatestSignedLogRoot log.client ⟨log.id⟩).mapError
    (.wrapf "get latest signed log root: %w" [])
  let some signedLogRoot := resp.signedLogRoot
    | throw (.wrapf "%w: no signed log root returned" [] errInternal)
  let root ← (unmarshalLogRoot signedLogRoot.logRoot).mapError (.wrapf "unmarshal binary: %w" [])
  let ths ← (signV1TreeHead numberToJSON sign alg root).mapError (.wrapf "sign tree head (v1): %w" [])
  let treeHeadSignature ← (marshalDigitallySigned ths).mapError
    (.wrapf "marshal DigitallySigned payload: %w" [])
  return ⟨root.treeSize, root.timestampNanos / 1000000, root.rootHash, treeHeadSignature⟩

variable {numberToJSON}

theorem signV1TreeHead_eq_ok {sign : List UInt8 → Except GoError (List UInt8)} {alg : A}
    {root : LogRootV1} {ths : DigitallySigned A}
    (h : signV1TreeHead numberToJSON sign alg root = .ok ths) :
    ∃ data signature,
      marshalCanonical numberToJSON (treeHeadSignatureValue (treeHeadSignatureOf root)) = .ok data ∧
      sign data = .ok signature ∧ ths = ⟨alg, signature⟩ := by
  simp only [signV1TreeHead, bind_eq_ok_iff, mapError_eq_ok_iff, pure_eq_ok_iff] at h
  obtain ⟨data, hdata, signature, hsign, rfl⟩ := h
  exact ⟨data, signature, hdata, hsign, rfl⟩

theorem getSTH_eq_ok {unmarshalLogRoot : List UInt8 → Except GoError LogRootV1}
    {getLatestSignedLogRoot : C → Types.GetLatestSignedLogRootRequest →
      Except GoError Types.GetLatestSignedLogRootResponse}
    {sign : List UInt8 → Except GoError (List UInt8)} {alg : A}
    {marshalDigitallySigned : DigitallySigned A → Except GoError (List UInt8)}
    {c : Cmd C} {aliasName : List Char} {resp : GetSTHResponse}
    (h : getSTH numberToJSON unmarshalLogRoot getLatestSignedLogRoot sign alg marshalDigitallySigned
      c aliasName = .ok resp) :
    ∃ root ths, signV1TreeHead numberToJSON sign alg root = .ok ths ∧
      marshalDigitallySigned ths = .ok resp.treeHeadSignature ∧
      resp = ⟨root.treeSize, root.timestampNanos / 1000000, root.rootHash, resp.treeHeadSignature⟩ := by
  simp only [getSTH, bind_eq_ok_iff, mapError_eq_ok_iff] at h
  obtain ⟨_, -, h⟩ := h
  cases hlog : c.logs.lookup aliasName with
  | none => simp [hlog] at h
  | some log =>
    simp only [hlog, bind_eq_ok_iff, mapError_eq_ok_iff] at h
    obtain ⟨latest, -, h⟩ := h
    cases hroot : latest.signedLogRoot with
    | none => simp [hroot] at h
    | some signedLogRoot =>
      simp only [hroot, bind_eq_ok_iff, mapError_eq_ok_iff, pure_eq_ok_iff] at h
      obtain ⟨root, -, ths, hths, signature, hmarshal, rfl⟩ := h
      exact ⟨root, ths, hths, hmarshal, rfl⟩

/-- The tree head signature in an answer of `GetSTH` is the signer's signature over the
canonical payload of the answer's own tree size, root hash and timestamp, as
`json.Marshal` writes it for the algorithm of the key. -/
theorem getSTH_signature_over_response
    {unmarshalLogRoot : List UInt8 → Except GoError LogRootV1}
    {getLatestSignedLogRoot : C → Types.GetLatestSignedLogRootRequest →
      Except GoError Types.GetLatestSignedLogRootResponse}
    {sign : List UInt8 → Except GoError (List UInt8)} {alg : A}
    {marshalDigitallySigned : DigitallySigned A → Except GoError (List UInt8)}
    {c : Cmd C} {aliasName : List Char} {resp : GetSTHResponse}
    (h : getSTH numberToJSON unmarshalLogRoot getLatestSignedLogRoot sign alg marshalDigitallySigned
      c aliasName = .ok resp) :
    ∃ data signature,
      marshalCanonical numberToJSON (treeHeadSignatureValue
        ⟨v1, treeHeadSignatureType, resp.timestamp, resp.treeSize, some resp.sha256RootHash⟩) =
          .ok data ∧
      sign data = .ok signature ∧ marshalDigitallySigned ⟨alg, signature⟩ = .ok resp.treeHeadSignature := by
  obtain ⟨root, ths, hths, hmarshal, hresp⟩ := getSTH_eq_ok h
  obtain ⟨data, signature, hdata, hsign, rfl⟩ := signV1TreeHead_eq_ok hths
  rw [hresp]
  exact ⟨data, signature, hdata, hsign, hmarshal⟩

end Vct.Command.GetSTH
