import Vct.Command.Models
import Vct.Command.Controller
import Vct.Trillian.Types
import Vct.Lib.Except
import Vct.Lib.Base64

namespace Vct.Command.Proofs

open Vct.Lib
open Vct.Lib.Except
open Vct.Controller.Errors
open Vct.Command.Models
open Vct.Command.Controller
open Vct.Trillian
open Vct.Trillian.Types (LogRootV1 LogLeaf SignedLogRoot Proof logRootOf)

variable {C R : Type}

section Shared

/-- The steps a read handler takes before its Trillian call: `Validate` of the decoded
request, the read permission of its alias, and the ledger `c.logs[alias]` it reads next,
which `hasPermissions` has found. -/
def readLog (validate : Option R → Except GoError Unit) (validateFormat : String)
    (aliasOf : R → List Char) (c : Cmd C) (decoded : Option R) : Except GoError (R × Log C) := do
  (validate decoded).mapError (.wrapf validateFormat [])
  -- `Validate` has rejected a nil request
  let some request := decoded | throw (.panic "nil pointer dereference")
  (c.hasPermissions (aliasOf request) .read).mapError (.wrapf "has permissions: %w" [])
  let some log := c.logs.lookup (aliasOf request) | throw (.panic "nil pointer dereference")
  return (request, log)

/-- `UnmarshalBinary` of the root in Trillian's answer, with the error all three handlers
give. -/
def currentRootOf (unmarshalLogRoot : List UInt8 → Except GoError LogRootV1)
    (signedLogRoot : Option SignedLogRoot) : Except GoError LogRootV1 :=
  (unmarshalLogRoot (logRootOf signedLogRoot)).mapError fun _ =>
    .wrapf "%w: unmarshal binary: %v" [.bytes (logRootOf signedLogRoot)] errInternal

/-- The check of each handler that Trillian's root holds the tree size it asked for, with
the handler's own error. -/
def requireTreeSize (err : GoError) (currentRoot : LogRootV1) (treeSize : Int64) :
    Except GoError Unit :=
  if currentRoot.treeSize < treeSize.toUInt64 then throw err else pure ()

theorem readLog_eq_ok {validate : Option R → Except GoError Unit} {validateFormat : String}
    {aliasOf : R → List Char} {c : Cmd C} {decoded : Option R} {request : R} {log : Log C}
    (h : readLog validate validateFormat aliasOf c decoded = .ok (request, log)) :
    decoded = some request ∧ validate (some request) = .ok () ∧
      Permission.read.rune ∈ log.permission ∧ c.logs.lookup (aliasOf request) = some log := by
  cases decoded with
  | none =>
    simp only [readLog, bind_eq_ok_iff, mapError_eq_ok_iff] at h
    obtain ⟨_, -, h⟩ := h
    exact absurd h throw_ne_ok
  | some r =>
    simp only [readLog, bind_eq_ok_iff, mapError_eq_ok_iff] at h
    obtain ⟨_, hvalid, _, hperm, h⟩ := h
    cases hlog : c.logs.lookup (aliasOf r) with
    | none =>
      rw [hlog] at h
      exact absurd h throw_ne_ok
    | some log' =>
      rw [hlog, pure_eq_ok_iff, Prod.mk.injEq] at h
      obtain ⟨rfl, rfl⟩ := h
      obtain ⟨log'', hlog'', hmem⟩ := (hasPermissions_eq_ok_iff c _ .read).mp hperm
      rw [hlog] at hlog''
      cases hlog''
      exact ⟨rfl, hvalid, hmem, hlog⟩

theorem hasPermissions_error_statusCode {c : Cmd C} {aliasName : List Char} {perm : Permission}
    {e : GoError} (h : c.hasPermissions aliasName perm = .error e) :
    statusCodeFromError e = 404 ∨ statusCodeFromError e = 401 := by
  unfold Cmd.hasPermissions at h
  split at h
  · cases h
    exact .inl rfl
  · split_ifs at h
    cases h
    exact .inr rfl

/-- A request `readLog` rejects is answered with 400, 404 or 401, for a `Validate` that
answers 400 and accepts no nil request. -/
theorem readLog_error_statusCode {validate : Option R → Except GoError Unit}
    (hnil : validate none ≠ .ok ())
    (hstatus : ∀ d e, validate d = .error e → statusCodeFromError e = 400)
    {validateFormat : String} {aliasOf : R → List Char} {c : Cmd C} {decoded : Option R}
    {e : GoError} (h : readLog validate validateFormat aliasOf c decoded = .error e) :
    statusCodeFromError e = 400 ∨ statusCodeFromError e = 404 ∨ statusCodeFromError e = 401 := by
  simp only [readLog, bind_eq_error_iff, mapError_eq_error_iff, mapError_eq_ok_iff] at h
  rcases h with ⟨err, hvalid, rfl⟩ | ⟨_, hvalid, h⟩
  · exact .inl (hstatus decoded err hvalid)
  cases decoded with
  | none => exact absurd hvalid hnil
  | some request =>
    simp only [bind_eq_error_iff, mapError_eq_error_iff, mapError_eq_ok_iff] at h
    rcases h with ⟨err, hperm, rfl⟩ | ⟨_, hperm, h⟩
    · have hstatus' := hasPermissions_error_statusCode hperm
      exact .inr hstatus'
    obtain ⟨log, hlog, -⟩ := (hasPermissions_eq_ok_iff c _ .read).mp hperm
    rw [hlog] at h
    cases h

/-- A request that `Validate` rejects, or whose alias the ledgers do not let be read. -/
def Rejected (validate : Option R → Except GoError Unit) (aliasOf : R → List Char) (c : Cmd C)
    (decoded : Option R) : Prop :=
  validate decoded ≠ .ok () ∨ ∃ request, decoded = some request ∧
    c.hasPermissions (aliasOf request) .read ≠ .ok ()

theorem readLog_of_rejected {validate : Option R → Except GoError Unit} {aliasOf : R → List Char}
    {c : Cmd C} {decoded : Option R} (validateFormat : String)
    (hrejected : Rejected validate aliasOf c decoded) (hnil : validate none ≠ .ok ())
    (hstatus : ∀ d e, validate d = .error e → statusCodeFromError e = 400) :
    ∃ e, readLog validate validateFormat aliasOf c decoded = .error e ∧
      (statusCodeFromError e = 400 ∨ statusCodeFromError e = 404 ∨ statusCodeFromError e = 401) := by
  cases hread : readLog validate validateFormat aliasOf c decoded with
  | error e => exact ⟨e, rfl, readLog_error_statusCode hnil hstatus hread⟩
  | ok result =>
    obtain ⟨request, log⟩ := result
    obtain ⟨rfl, hvalid, hperm, hlog⟩ := readLog_eq_ok hread
    have hallowed : c.hasPermissions (aliasOf request) .read = .ok () :=
      (hasPermissions_eq_ok_iff c _ .read).mpr ⟨log, hlog, hperm⟩
    rcases hrejected with hinvalid | ⟨_, hsome, hforbidden⟩
    · exact absurd hvalid hinvalid
    · cases hsome
      exact absurd hallowed hforbidden

theorem currentRootOf_eq_ok {unmarshalLogRoot : List UInt8 → Except GoError LogRootV1}
    {signedLogRoot : Option SignedLogRoot} {root : LogRootV1} :
    currentRootOf unmarshalLogRoot signedLogRoot = .ok root ↔
      unmarshalLogRoot (logRootOf signedLogRoot) = .ok root :=
  mapError_eq_ok_iff

theorem requireTreeSize_eq_ok_iff {err : GoError} {currentRoot : LogRootV1} {treeSize : Int64}
    (hnonneg : 0 ≤ treeSize) :
    requireTreeSize err currentRoot treeSize = .ok () ↔ treeSize.toInt ≤ currentRoot.treeSize.toNat := by
  have htoNat : treeSize.toUInt64.toNat = treeSize.toInt.toNat := Int64.toNat_toUInt64_of_le hnonneg
  have hpos : 0 ≤ treeSize.toInt := by simpa [Int64.le_iff_toInt_le] using hnonneg
  unfold requireTreeSize
  split_ifs with hsmall
  · rw [UInt64.lt_iff_toNat_lt, htoNat] at hsmall
    simp only [false_iff, Int.not_le]
    omega
  · rw [UInt64.lt_iff_toNat_lt, htoNat] at hsmall
    simp only [pure_eq_ok_iff, true_iff]
    omega

end Shared

section EntryAndProof

/-- `(*Cmd).GetEntryAndProof`, from the decoded request pointer to the response it encodes. -/
def getEntryAndProof (unmarshalLogRoot : List UInt8 → Except GoError LogRootV1)
    (getEntryAndProofRPC : C → Types.GetEntryAndProofRequest →
      Except GoError Types.GetEntryAndProofResponse)
    (showResponse : Types.GetEntryAndProofResponse → FmtArg)
    (c : Cmd C) (decoded : Option GetEntryAndProofRequest) :
    Except GoError GetEntryAndProofResponse := do
  let (request, log) ← readLog GetEntryAndProofRequest.validate
    "validate GetEntryAndProof request: %w" (·.alias) c decoded
  let req : Types.GetEntryAndProofRequest := ⟨log.id, request.leafIndex, request.treeSize⟩
  let resp ← (getEntryAndProofRPC log.client req).mapError (.wrapf "get entry and proof: %w" [])
  let currentRoot ← currentRootOf unmarshalLogRoot resp.signedLogRoot
  requireTreeSize (.wrapf "%w: need tree size: %d for proof, got: %d"
    [.int req.treeSize.toInt, .int currentRoot.treeSize.toNat] errBadRequest)
    currentRoot request.treeSize
  let corrupted := GoError.wrapf "%w: corrupted data received: %v" [showResponse resp] errInternal
  let some leaf := resp.leaf | throw corrupted
  if leaf.leafValue.length = 0 then throw corrupted
  let some proof := resp.proof | throw corrupted
  if request.treeSize > 1 ∧ proof.hashes.length = 0 then
    throw (.wrapf "%w: no proof: %v" [showResponse resp] errInternal)
  return ⟨leaf.leafValue, leaf.extraData, proof.hashes⟩

/-- What an answer of `GetEntryAndProof` guarantees: the request named a leaf below the tree
size it asked for, of a readable ledger; Trillian's root holds that tree size; and the answer
is Trillian's leaf, whose value is not empty, with Trillian's audit path, which is not empty
unless the tree has one leaf. -/
def EntryAndProofServed (unmarshalLogRoot : List UInt8 → Except GoError LogRootV1)
    (getEntryAndProofRPC : C → Types.GetEntryAndProofRequest →
      Except GoError Types.GetEntryAndProofResponse)
    (c : Cmd C) (decoded : Option GetEntryAndProofRequest) (out : GetEntryAndProofResponse) :
    Prop :=
  ∃ request log resp currentRoot leaf proof, decoded = some request ∧
    0 ≤ request.leafIndex ∧ request.leafIndex < request.treeSize ∧
    Permission.read.rune ∈ log.permission ∧ c.logs.lookup request.alias = some log ∧
    getEntryAndProofRPC log.client ⟨log.id, request.leafIndex, request.treeSize⟩ = .ok resp ∧
    unmarshalLogRoot (logRootOf resp.signedLogRoot) = .ok currentRoot ∧
    request.treeSize.toInt ≤ currentRoot.treeSize.toNat ∧
    resp.leaf = some leaf ∧ leaf.leafValue ≠ [] ∧ resp.proof = some proof ∧
    (1 < request.treeSize → proof.hashes ≠ []) ∧
    out = ⟨leaf.leafValue, leaf.extraData, proof.hashes⟩

theorem getEntryAndProof_spec {unmarshalLogRoot : List UInt8 → Except GoError LogRootV1}
    {getEntryAndProofRPC : C → Types.GetEntryAndProofRequest →
      Except GoError Types.GetEntryAndProofResponse}
    {showResponse : Types.GetEntryAndProofResponse → FmtArg} {c : Cmd C}
    {decoded : Option GetEntryAndProofRequest} {out : GetEntryAndProofResponse}
    (h : getEntryAndProof unmarshalLogRoot getEntryAndProofRPC showResponse c decoded = .ok out) :
    EntryAndProofServed unmarshalLogRoot getEntryAndProofRPC c decoded out := by
  simp only [getEntryAndProof, bind_eq_ok_iff] at h
  obtain ⟨⟨request, log⟩, hread, h⟩ := h
  obtain ⟨rfl, hvalid, hperm, hlog⟩ := readLog_eq_ok hread
  obtain ⟨hnonneg, hlt⟩ := (GetEntryAndProofRequest.validate_eq_ok_iff request).mp hvalid
  have htree : 0 ≤ request.treeSize := by
    simp only [Int64.le_iff_toInt_le, Int64.lt_iff_toInt_lt, Int64.toInt_zero] at hnonneg hlt ⊢
    omega
  simp only [mapError_eq_ok_iff, currentRootOf_eq_ok] at h
  obtain ⟨resp, hresp, currentRoot, hroot, _, hsize, h⟩ := h
  rw [requireTreeSize_eq_ok_iff htree] at hsize
  -- the checks on Trillian's answer: a leaf with a value, a proof, and a path unless one leaf
  cases hleaf : resp.leaf with
  | none => simp [hleaf] at h
  | some leaf =>
    cases hproof : resp.proof with
    | none => simp [hleaf, hproof] at h
    | some proof =>
      by_cases hempty : leaf.leafValue.length = 0
      · simp [hleaf, hempty] at h
      by_cases hnopath : request.treeSize > 1 ∧ proof.hashes.length = 0
      · simp [hleaf, hempty, hproof, hnopath, map_throw] at h
      simp only [hleaf, hempty, hproof, hnopath, if_false, pure_eq_ok_iff] at h
      refine ⟨request, log, resp, currentRoot, leaf, proof, rfl, hnonneg, hlt, hperm, hlog, hresp,
        hroot, hsize, hleaf, ?_, hproof, fun hone hnil => hnopath ⟨hone, by simp [hnil]⟩, h.symm⟩
      intro hnil
      exact hempty (by simp [hnil])

end EntryAndProof

section ProofByHash

/-- `(*Cmd).GetProofByHash`: the hash of the request is base64 text, and Trillian is asked
for the proofs of the leaf with that hash, by order of sequence. -/
def getProofByHash (unmarshalLogRoot : List UInt8 → Except GoError LogRootV1)
    (corruptInput : List UInt8 → GoError)
    (getInclusionProofByHash : C → Types.GetInclusionProofByHashRequest →
      Except GoError Types.GetInclusionProofByHashResponse)
    (c : Cmd C) (decoded : Option GetProofByHashRequest) : Except GoError GetProofByHashResponse := do
  let (request, log) ← readLog GetProofByHashRequest.validate
    "validate GetProofByHash request: %w" (·.alias) c decoded
  let some leafHash := Base64.decode request.hash
    | throw (newBadRequestError (.wrapf "invalid base64 hash: %w" [] (corruptInput request.hash)))
  let req : Types.GetInclusionProofByHashRequest := ⟨log.id, leafHash, request.treeSize, true⟩
  let resp ← (getInclusionProofByHash log.client req).mapError (.wrapf "get leaves by range: %w" [])
  let currentRoot ← currentRootOf unmarshalLogRoot resp.signedLogRoot
  requireTreeSize (.wrapf "%w: got tree size: %d but we expected: %d"
    [.int currentRoot.treeSize.toNat, .int request.treeSize.toInt] errNotFound)
    currentRoot request.treeSize
  let first :: _ := resp.proof | throw (.wrapf "%w: no proof" [] errNotFound)
  -- `resp.Proof[0]` is a pointer
  let some proof := first | throw (.panic "invalid memory address or nil pointer dereference")
  return ⟨proof.leafIndex, proof.hashes⟩

/-- What an answer of `GetProofByHash` guarantees: the request's hash was base64 text, and
Trillian was asked, for a readable ledger, for the proofs of the leaf with the decoded hash at
a tree size of at least one, by order of sequence; its root holds that tree size; and the
answer is its first proof. -/
def ProofByHashServed (unmarshalLogRoot : List UInt8 → Except GoError LogRootV1)
    (getInclusionProofByHash : C → Types.GetInclusionProofByHashRequest →
      Except GoError Types.GetInclusionProofByHashResponse)
    (c : Cmd C) (decoded : Option GetProofByHashRequest) (out : GetProofByHashResponse) : Prop :=
  ∃ request log leafHash resp currentRoot proof proofs, decoded = some request ∧
    1 ≤ request.treeSize ∧ Permission.read.rune ∈ log.permission ∧
    c.logs.lookup request.alias = some log ∧ Base64.decode request.hash = some leafHash ∧
    getInclusionProofByHash log.client ⟨log.id, leafHash, request.treeSize, true⟩ = .ok resp ∧
    unmarshalLogRoot (logRootOf resp.signedLogRoot) = .ok currentRoot ∧
    request.treeSize.toInt ≤ currentRoot.treeSize.toNat ∧
    resp.proof = some proof :: proofs ∧ out = ⟨proof.leafIndex, proof.hashes⟩

theorem getProofByHash_spec {unmarshalLogRoot : List UInt8 → Except GoError LogRootV1}
    {corruptInput : List UInt8 → GoError}
    {getInclusionProofByHash : C → Types.GetInclusionProofByHashRequest →
      Except GoError Types.GetInclusionProofByHashResponse}
    {c : Cmd C} {decoded : Option GetProofByHashRequest} {out : GetProofByHashResponse}
    (h : getProofByHash unmarshalLogRoot corruptInput getInclusionProofByHash c decoded = .ok out) :
    ProofByHashServed unmarshalLogRoot getInclusionProofByHash c decoded out := by
  simp only [getProofByHash, bind_eq_ok_iff] at h
  obtain ⟨⟨request, log⟩, hread, h⟩ := h
  obtain ⟨rfl, hvalid, hperm, hlog⟩ := readLog_eq_ok hread
  have htree := (GetProofByHashRequest.validate_eq_ok_iff request).mp hvalid
  have hnonneg : 0 ≤ request.treeSize := Int64.le_trans (by decide) htree
  cases hdecode : Base64.decode request.hash with
  | none => simp [hdecode] at h
  | some leafHash =>
    simp only [hdecode, bind_eq_ok_iff, mapError_eq_ok_iff, currentRootOf_eq_ok] at h
    obtain ⟨resp, hresp, currentRoot, hroot, _, hsize, h⟩ := h
    rw [requireTreeSize_eq_ok_iff hnonneg] at hsize
    rcases hproofs : resp.proof with _ | ⟨_ | proof, proofs⟩
    · simp [hproofs] at h
    · simp [hproofs] at h
    · simp only [hproofs, pure_eq_ok_iff] at h
      exact ⟨request, log, leafHash, resp, currentRoot, proof, proofs, rfl, htree, hperm, hlog,
        hdecode, hresp, hroot, hsize, hproofs, h.symm⟩

end ProofByHash

section Consistency

/-- `(*Cmd).GetSTHConsistency`. Trillian refuses a first tree size of zero; the command
answers it with an empty proof instead. -/
def getSTHConsistency (unmarshalLogRoot : List UInt8 → Except GoError LogRootV1)
    (getConsistencyProof : C → Types.GetConsistencyProofRequest →
      Except GoError Types.GetConsistencyProofResponse)
    (c : Cmd C) (decoded : Option GetSTHConsistencyRequest) :
    Except GoError GetSTHConsistencyResponse := do
  let (request, log) ← readLog GetSTHConsistencyRequest.validate
    "validate GetSTHConsistency request: %w" (·.alias) c decoded
  if request.firstTreeSize = 0 then return ⟨[]⟩
  let req : Types.GetConsistencyProofRequest :=
    ⟨log.id, request.firstTreeSize, request.secondTreeSize⟩
  let resp ← (getConsistencyProof log.client req).mapError (.wrapf "get consistency proof: %w" [])
  let root ← currentRootOf unmarshalLogRoot resp.signedLogRoot
  requireTreeSize (.wrapf "%w: need tree size: %d for proof but only got: %d"
    [.int request.secondTreeSize.toInt, .int root.treeSize.toNat] errValidation)
    root request.secondTreeSize
  -- `resp.Proof.GetHashes()` is nil-safe
  return ⟨(resp.proof.map (·.hashes)).getD []⟩

/-- What an answer of `GetSTHConsistency` guarantees: the request's tree sizes were
ordered, for a readable ledger; a first size of zero is answered with an empty proof, and any
other with Trillian's consistency proof between the two sizes, over a root that holds the
second. -/
def ConsistencyServed (unmarshalLogRoot : List UInt8 → Except GoError LogRootV1)
    (getConsistencyProof : C → Types.GetConsistencyProofRequest →
      Except GoError Types.GetConsistencyProofResponse)
    (c : Cmd C) (decoded : Option GetSTHConsistencyRequest) (out : GetSTHConsistencyResponse) :
    Prop :=
  ∃ request log, decoded = some request ∧
    0 ≤ request.firstTreeSize ∧ request.firstTreeSize ≤ request.secondTreeSize ∧
    Permission.read.rune ∈ log.permission ∧ c.logs.lookup request.alias = some log ∧
    ((request.firstTreeSize = 0 ∧ out = ⟨[]⟩) ∨
      (request.firstTreeSize ≠ 0 ∧ ∃ resp root,
        getConsistencyProof log.client
          ⟨log.id, request.firstTreeSize, request.secondTreeSize⟩ = .ok resp ∧
        unmarshalLogRoot (logRootOf resp.signedLogRoot) = .ok root ∧
        request.secondTreeSize.toInt ≤ root.treeSize.toNat ∧
        out = ⟨(resp.proof.map (·.hashes)).getD []⟩))

theorem getSTHConsistency_spec {unmarshalLogRoot : List UInt8 → Except GoError LogRootV1}
    {getConsistencyProof : C → Types.GetConsistencyProofRequest →
      Except GoError Types.GetConsistencyProofResponse}
    {c : Cmd C} {decoded : Option GetSTHConsistencyRequest} {out : GetSTHConsistencyResponse}
    (h : getSTHConsistency unmarshalLogRoot getConsistencyProof c decoded = .ok out) :
    ConsistencyServed unmarshalLogRoot getConsistencyProof c decoded out := by
  simp only [getSTHConsistency, bind_eq_ok_iff] at h
  obtain ⟨⟨request, log⟩, hread, h⟩ := h
  obtain ⟨rfl, hvalid, hperm, hlog⟩ := readLog_eq_ok hread
  obtain ⟨hnonneg, horder⟩ := (GetSTHConsistencyRequest.validate_eq_ok_iff request).mp hvalid
  refine ⟨request, log, rfl, hnonneg, horder, hperm, hlog, ?_⟩
  by_cases hzero : request.firstTreeSize = 0
  · simp only [hzero, if_true, pure_eq_ok_iff] at h
    exact .inl ⟨hzero, h.symm⟩
  · simp only [hzero, if_false, bind_eq_ok_iff, mapError_eq_ok_iff, currentRootOf_eq_ok] at h
    obtain ⟨resp, hresp, root, hroot, _, hsize, h⟩ := h
    rw [requireTreeSize_eq_ok_iff (Int64.le_trans hnonneg horder)] at hsize
    exact .inr ⟨hzero, resp, root, hresp, hroot, hsize, (pure_eq_ok_iff.mp h).symm⟩

end Consistency

section Rejection

theorem validatePointer_none_ne_ok {check : R → Except GoError Unit} :
    validatePointer check none ≠ .ok () := by
  simp [validatePointer]

/-- An answer given before Trillian is asked: one error, whatever Trillian answers, with
status 400, 404 or 401. -/
def AnsweredBeforeTrillian {T α : Type} (answer : T → Except GoError α) : Prop :=
  ∃ e, (∀ trillian, answer trillian = .error e) ∧
    (statusCodeFromError e = 400 ∨ statusCodeFromError e = 404 ∨ statusCodeFromError e = 401)

/-- A request the three handlers reject in their first steps, for failing `Validate` or for
naming a ledger that is not served or not readable, is answered before Trillian is asked. -/
theorem proofHandlers_reject_before_trillian {c : Cmd C}
    {d₁ : Option GetEntryAndProofRequest} {d₂ : Option GetProofByHashRequest}
    {d₃ : Option GetSTHConsistencyRequest}
    (h₁ : Rejected GetEntryAndProofRequest.validate (·.alias) c d₁)
    (h₂ : Rejected GetProofByHashRequest.validate (·.alias) c d₂)
    (h₃ : Rejected GetSTHConsistencyRequest.validate (·.alias) c d₃)
    (unmarshalLogRoot : List UInt8 → Except GoError LogRootV1)
    (showResponse : Types.GetEntryAndProofResponse → FmtArg)
    (corruptInput : List UInt8 → GoError) :
    AnsweredBeforeTrillian (getEntryAndProof unmarshalLogRoot · showResponse c d₁) ∧
    AnsweredBeforeTrillian (getProofByHash unmarshalLogRoot corruptInput · c d₂) ∧
    AnsweredBeforeTrillian (getSTHConsistency unmarshalLogRoot · c d₃) := by
  obtain ⟨e₁, hread₁, hcode₁⟩ := readLog_of_rejected "validate GetEntryAndProof request: %w"
    h₁ validatePointer_none_ne_ok fun d e => (validate_error_statusCode (e := e)).2.2.2 d
  obtain ⟨e₂, hread₂, hcode₂⟩ := readLog_of_rejected "validate GetProofByHash request: %w"
    h₂ validatePointer_none_ne_ok fun d e => (validate_error_statusCode (e := e)).2.2.1 d
  obtain ⟨e₃, hread₃, hcode₃⟩ := readLog_of_rejected "validate GetSTHConsistency request: %w"
    h₃ validatePointer_none_ne_ok fun d e => (validate_error_statusCode (e := e)).2.1 d
  refine ⟨⟨e₁, fun _ => ?_, hcode₁⟩, ⟨e₂, fun _ => ?_, hcode₂⟩, ⟨e₃, fun _ => ?_, hcode₃⟩⟩
  · simp only [getEntryAndProof, hread₁]
    rfl
  · simp only [getProofByHash, hread₂]
    rfl
  · simp only [getSTHConsistency, hread₃]
    rfl

end Rejection

end Vct.Command.Proofs
