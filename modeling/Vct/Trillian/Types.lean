import Mathlib.Data.List.Basic

namespace Vct.Trillian.Types

/-- `trillian.LogLeaf`. Timestamps are nanoseconds since the epoch; an absent
`IntegrateTimestamp` is `none`. -/
structure LogLeaf where
  merkleLeafHash : List UInt8
  leafValue : List UInt8
  extraData : List UInt8
  leafIndex : Int64
  leafIdentityHash : List UInt8
  queueTimestamp : Option Int64
  integrateTimestamp : Option Int64
  deriving DecidableEq, Repr

/-- `types.LogRootV1`, the decoded form of a signed log root. -/
structure LogRootV1 where
  treeSize : UInt64
  rootHash : List UInt8
  timestampNanos : UInt64
  revision : UInt64
  metadata : List UInt8
  deriving DecidableEq, Repr

/-- `trillian.SignedLogRoot`: the TLS encoding of a `LogRootV1`. -/
structure SignedLogRoot where
  logRoot : List UInt8
  deriving DecidableEq, Repr

structure GetLeavesByRangeRequest where
  logId : Int64
  startIndex : Int64
  count : Int64
  deriving DecidableEq, Repr

structure GetLeavesByRangeResponse where
  leaves : List LogLeaf
  signedLogRoot : Option SignedLogRoot
  deriving DecidableEq, Repr

/-- `GetSignedLogRoot().GetLogRoot()`: the nil-safe getters of the generated
protobuf code give `nil` bytes for a missing root. -/
def GetLeavesByRangeResponse.logRootBytes (resp : GetLeavesByRangeResponse) : List UInt8 :=
  match resp.signedLogRoot with
  | some root => root.logRoot
  | none => []

/-- `trillian.Proof`: the leaf index a path is for and the hashes along it. -/
structure Proof where
  leafIndex : Int64
  hashes : List (List UInt8)
  deriving DecidableEq, Repr

/-- `GetSignedLogRoot().GetLogRoot()` of a response with an optional root. -/
def logRootOf : Option SignedLogRoot → List UInt8
  | some root => root.logRoot
  | none => []

structure GetEntryAndProofRequest where
  logId : Int64
  leafIndex : Int64
  treeSize : Int64
  deriving DecidableEq, Repr

structure GetEntryAndProofResponse where
  proof : Option Proof
  leaf : Option LogLeaf
  signedLogRoot : Option SignedLogRoot
  deriving DecidableEq, Repr

structure GetInclusionProofByHashRequest where
  logId : Int64
  leafHash : List UInt8
  treeSize : Int64
  orderBySequence : Bool
  deriving DecidableEq, Repr

/-- `GetInclusionProofByHashResponse`, whose `Proof` is a slice of pointers. -/
structure GetInclusionProofByHashResponse where
  proof : List (Option Proof)
  signedLogRoot : Option SignedLogRoot
  deriving DecidableEq, Repr

structure GetConsistencyProofRequest where
  logId : Int64
  firstTreeSize : Int64
  secondTreeSize : Int64
  deriving DecidableEq, Repr

structure GetConsistencyProofResponse where
  proof : Option Proof
  signedLogRoot : Option SignedLogRoot
  deriving DecidableEq, Repr

structure GetLatestSignedLogRootRequest where
  logId : Int64
  deriving DecidableEq, Repr

structure GetLatestSignedLogRootResponse where
  signedLogRoot : Option SignedLogRoot
  deriving DecidableEq, Repr

inductive TreeState
  | unknownTreeState
  | active
  | frozen
  | deprecatedSoftDeleted
  | deprecatedHardDeleted
  | draining
  deriving DecidableEq, Repr

inductive TreeType
  | unknownTreeType
  | log
  | map
  | preorderedLog
  deriving DecidableEq, Repr

/-- `trillian.Tree`, with its times in milliseconds since the epoch. -/
structure Tree where
  treeId : Int64
  treeState : TreeState
  treeType : TreeType
  displayName : List Char
  description : List Char
  maxRootDurationMillis : Int64
  createTimeMillis : Int64
  updateTimeMillis : Int64
  deleted : Bool
  deleteTimeMillis : Option Int64
  deriving DecidableEq, Repr

end Vct.Trillian.Types
