import Vct.Command.Models
import Vct.Command.Controller
import Vct.Lib.Base64
import Vct.Storage.AdminStorage
import Vct.Storage.LeafEntries

/-!
`(*Cmd).AddVC` (`pkg/controller/command/command.go`), with `CreateLeaf`,
`CreateVCTimestampSignature` and `signV1VCTS`, over Trillian's `QueueLeaf` on the
PostgreSQL storage.

The credential parser, the JSON-LD processor, `encoding/json`, the JCS canonicalizer,
SHA-256 and the key manager are libraries; they come in as the functions of an `Env`,
with the fields of `Cmd` that `Config` and the key manager set. Trillian's `QueueLeaf` is
taken to read the log's tree, hash the leaf value, hand a batch of the one leaf to
`QueueLeaves` of the storage and answer its `QueuedLogLeaf` unchanged.

A second `AddVC` of a credential with the same canonical form is answered from the
stored leaf: its identity hash is the SHA-256 of that form, and `QueueLeaves` reads back
the first leaf, with the first timestamp (`addVC_duplicate`).
-/

namespace Vct.Command.AddVC

open Vct.Lib
open Vct.Lib.Sql
open Vct.Lib.Except
open Vct.Controller.Errors
open Vct.Trillian.Types
open Vct.Command.Models
open Vct.Command.Controller
open Vct.Storage.Schema
open Vct.Storage.LogStorage
open Vct.Storage.AdminStorage
open Vct.Storage.LeafQueue
open Vct.Storage.LeafEntries

/-- The part of `verifiable.Credential` that `AddVC` reads. -/
structure Credential (P : Type) where
  issuerID : List Char
  proofs : List P

/-- What `AddVC` reads beside the ledgers, over the types of a document loader, a JSON
document, a proof and a signature algorithm. -/
structure Env (L Doc P A : Type) where
  loaders : List Char → Option L
  -- `verifiable.ParseCredential` with the VDR's key fetcher and the alias's loader
  parseCredential : Bytes → L → Except GoError (Credential P)
  -- `json.Unmarshal` into a `map[string]interface{}`, and `vcDoc[ldProofField] = nil`
  unmarshalDocument : Bytes → Except GoError Doc
  clearProof : Doc → Doc
  getCanonicalDocument : Doc → L → Except GoError Bytes
  -- `canonicalizer.MarshalCanonical` of the three values it is called on
  marshalLeaf : MerkleTreeLeaf → Except GoError Bytes
  marshalProofs : List P → Except GoError Bytes
  marshalVCTimestampSignature : VCTimestampSignature → Except GoError Bytes
  sha256 : Bytes → Vector UInt8 32
  unmarshalLeaf : Bytes → Except GoError MerkleTreeLeaf
  -- `c.crypto.Sign` with `c.kh`, given the bytes the ECDSA signer reads from `crypto/rand`
  sign : Bytes → Bytes → Except GoError Bytes
  alg : A
  marshalDigitallySigned : DigitallySigned A → Except GoError Bytes
  vcLogID : Vector UInt8 32

variable {C L Doc P A : Type}

section Leaf

variable (env : Env L Doc P A)

/-- The canonical bytes `CreateLeaf` puts into the leaf: the credential without its
proof, through the JSON-LD processor. -/
def canonicalDocument (vcBytes : Bytes) (loader : L) : Except GoError Bytes := do
  let vcDoc ← (env.unmarshalDocument vcBytes).mapError (.wrapf "unmarshal VC to document: %w" [])
  (env.getCanonicalDocument (env.clearProof vcDoc) loader).mapError (.wrapf "marshal canonical: %w" [])

def createLeaf (timestamp : UInt64) (vcBytes : Bytes) (loader : L) :
    Except GoError MerkleTreeLeaf := do
  let canonicalBytes ← canonicalDocument env vcBytes loader
  return ⟨v1, timestampedEntryLeafType, some ⟨timestamp, vcLogEntryType, some canonicalBytes, none⟩⟩

def createVCTimestampSignature (leaf : MerkleTreeLeaf) : Except GoError VCTimestampSignature := do
  let entry ← leaf.entry
  return ⟨v1, vcTimestampSignatureType, entry.timestamp, entry.entryType, entry.vcEntry,
    entry.extensions⟩

def signV1VCTS (leaf : MerkleTreeLeaf) (entropy : Bytes) : Except GoError (DigitallySigned A) := do
  let vcts ← createVCTimestampSignature leaf
  let data ← (env.marshalVCTimestampSignature vcts).mapError
    (.wrapf "marshal VCTimestampSignature: %w" [])
  let signature ← (env.sign data entropy).mapError (.wrapf "sign TreeHeadSignature: %w" [])
  return ⟨env.alg, signature⟩

/-- `uint64(time.Now().UnixNano() / int64(time.Millisecond))`. -/
def timestampMillis (nowNanos : Int64) : UInt64 := (nowNanos / 1000000).toUInt64

/-- `c.logs[alias].ID`; an alias that is not served reads as the zero `Log`. -/
def logIdOf (c : Cmd C) (aliasName : List Char) : Int64 := ((c.logs.lookup aliasName).map (·.id)).getD 0

/-- `AddVC` up to its `QueueLeaf` call: the checks, and the leaf it asks Trillian to queue. -/
def addVCLeaf (c : Cmd C) (req : AddVCRequest) (nowNanos : Int64) : Except GoError LogLeaf := do
  (c.hasPermissions req.alias .write).mapError (.wrapf "has permissions: %w" [])
  let some loader := env.loaders req.alias
    | throw (.errorf "no document loader found for alias %s" [.str req.alias])
  let vc ← (env.parseCredential req.vcEntry loader).mapError
    fun err => newBadRequestError (.wrapf "parse credential: %w" [] err)
  if !c.issuerAllowed req.alias vc.issuerID then
    throw (.wrapf "%w: issuer %s is not in a list" [.str vc.issuerID] errBadRequest)
  let leaf ← (createLeaf env (timestampMillis nowNanos) req.vcEntry loader).mapError
    (.wrapf "create leaf: %w" [])
  let leafData ← (env.marshalLeaf leaf).mapError
    fun err => newStatusInternalServerError (.wrapf "marshal MerkleTreeLeaf: %w" [] err)
  let extraData ← if vc.proofs.length > 0 then
      (env.marshalProofs vc.proofs).mapError
        fun err => newStatusInternalServerError (.wrapf "marshal credential proofs: %w" [] err)
    else pure []
  let entry ← leaf.entry
  let leafIDHash := env.sha256 (entry.vcEntry.getD [])
  return ⟨[], leafData, extraData, 0, leafIDHash.toList, none, none⟩

def loggedValue (queued : Option QueuedLogLeaf) : Except GoError Bytes := do
  let some queued := queued | throw (.wrapf "%w: no leaf" [] errInternal)
  let some leaf := queued.leaf
    | throw (.panic "invalid memory address or nil pointer dereference")
  return leaf.leafValue

/-- `AddVC` after `QueueLeaf`: the logged leaf read back from its value, signed. -/
def respondValue (value entropy : Bytes) : Except GoError AddVCResponse := do
  let loggedLeaf ← (env.unmarshalLeaf value).mapError
    fun err => newStatusInternalServerError (.wrapf "failed to reconstruct MerkleTreeLeaf: %w" [] err)
  let sct ← (signV1VCTS env loggedLeaf entropy).mapError (.wrapf "sign V1 VCTS: %w" [])
  let signature ← (env.marshalDigitallySigned sct).mapError
    (.wrapf "marshal DigitallySigned payload: %w" [])
  let entry ← loggedLeaf.entry
  return ⟨v1, env.vcLogID.toList, entry.timestamp, Base64.encode (entry.extensions.getD []), signature⟩

/-- The payload `signV1VCTS` hands the signer for the leaf logged as `value`. -/
def loggedPayload (value : Bytes) : Except GoError Bytes := do
  let loggedLeaf ← env.unmarshalLeaf value
  let vcts ← createVCTimestampSignature loggedLeaf
  env.marshalVCTimestampSignature vcts

/-- `signature` is what `AddVC` answers for the signer's signature over `data` with the draw
`entropy`. -/
def SignatureOver (data entropy signature : Bytes) : Prop :=
  ∃ sig, env.sign data entropy = .ok sig ∧ env.marshalDigitallySigned ⟨env.alg, sig⟩ = .ok signature

end Leaf

/-- Trillian's `QueueLeaf`: the log's tree, a batch of the one leaf with the Merkle hash
of its value, and the `QueuedLogLeaf` of that leaf. `sort.Sort` sorts a batch that small
by insertion, so stably. -/
def queueLeafRPC (hashLeaf : Bytes → Bytes) (queueTimestamp : Int64) (db : Db) (logId : Int64)
    (leaf : LogLeaf) : Except GoError (Db × Option QueuedLogLeaf) := do
  let tree ← getTree db logId
  let (db, queued) ← queueLeaves (N := Unit) stableLeafSort db tree
    [{ leaf with merkleLeafHash := hashLeaf leaf.leafValue }] queueTimestamp
  return (db, queued.head?)

section AddVC

variable (env : Env L Doc P A) (c : Cmd C) (hashLeaf : Bytes → Bytes)

/-- `AddVC` up to the value of the leaf Trillian answered, and the database its
`QueueLeaf` committed. -/
def queueVC (req : AddVCRequest) (nowNanos queueTimestamp : Int64) (db : Db) :
    Db × Except GoError Bytes :=
  match addVCLeaf env c req nowNanos with
  | .error err => (db, .error err)
  | .ok leaf =>
      match queueLeafRPC hashLeaf queueTimestamp db (logIdOf c req.alias) leaf with
      | .error err => (db, .error (.wrapf "queue leaf: %w" [] err))
      | .ok (db', queued) => (db', loggedValue queued)

def addVC (req : AddVCRequest) (nowNanos queueTimestamp : Int64) (entropy : Bytes) (db : Db) :
    Db × Except GoError AddVCResponse :=
  let (db', value) := queueVC env c hashLeaf req nowNanos queueTimestamp db
  (db', value >>= fun value => respondValue env value entropy)

section Spec

variable {env : Env L Doc P A} {c : Cmd C} {hashLeaf : Bytes → Bytes}

theorem addVC_eq_ok {req : AddVCRequest} {nowNanos queueTimestamp : Int64} {entropy : Bytes}
    {db db' : Db} {resp : AddVCResponse}
    (h : addVC env c hashLeaf req nowNanos queueTimestamp entropy db = (db', .ok resp)) :
    ∃ value, queueVC env c hashLeaf req nowNanos queueTimestamp db = (db', .ok value) ∧
      respondValue env value entropy = .ok resp := by
  unfold addVC at h
  rcases hq : queueVC env c hashLeaf req nowNanos queueTimestamp db with ⟨db₁, value⟩
  rw [hq, Prod.mk.injEq, bind_eq_ok_iff] at h
  obtain ⟨rfl, value', rfl, hresp⟩ := h
  exact ⟨value', rfl, hresp⟩

theorem queueVC_eq_ok {req : AddVCRequest} {nowNanos queueTimestamp : Int64} {db db' : Db}
    {value : Bytes} (h : queueVC env c hashLeaf req nowNanos queueTimestamp db = (db', .ok value)) :
    ∃ leaf tree queued, addVCLeaf env c req nowNanos = .ok leaf ∧
      getTree db (logIdOf c req.alias) = .ok tree ∧
      queueLeaves (N := Unit) stableLeafSort db tree
        [{ leaf with merkleLeafHash := hashLeaf leaf.leafValue }] queueTimestamp = .ok (db', queued) ∧
      loggedValue queued.head? = .ok value := by
  unfold queueVC at h
  split at h
  · cases h
  · rename_i leaf hleaf
    split at h
    · cases h
    · rename_i db₁ queued hrpc
      unfold queueLeafRPC at hrpc
      rw [bind_eq_ok_iff] at hrpc
      obtain ⟨tree, htree, hrpc⟩ := hrpc
      rw [bind_eq_ok_iff] at hrpc
      obtain ⟨⟨db₂, queued₂⟩, hq, hrpc⟩ := hrpc
      rw [pure_eq_ok_iff, Prod.mk.injEq] at hrpc
      obtain ⟨rfl, rfl⟩ := hrpc
      obtain ⟨rfl, hvalue⟩ := Prod.mk.inj h
      exact ⟨leaf, tree, queued₂, hleaf, htree, hq, hvalue⟩

theorem addVCLeaf_eq_ok {req : AddVCRequest} {nowNanos : Int64} {leaf : LogLeaf}
    (h : addVCLeaf env c req nowNanos = .ok leaf) :
    c.hasPermissions req.alias .write = .ok () ∧ ∃ loader e, env.loaders req.alias = some loader ∧
      canonicalDocument env req.vcEntry loader = .ok e ∧ leaf.leafIdentityHash = (env.sha256 e).toList := by
  unfold addVCLeaf at h
  rw [bind_eq_ok_iff] at h
  obtain ⟨⟨⟩, hperm, h⟩ := h
  refine ⟨mapError_eq_ok_iff.mp hperm, ?_⟩
  cases hloader : env.loaders req.alias with
  | none => simp [hloader] at h
  | some loader =>
      simp only [hloader, bind_eq_ok_iff, mapError_eq_ok_iff] at h
      obtain ⟨vc, -, h⟩ := h
      split at h
      · simp at h
      simp only [bind_eq_ok_iff, mapError_eq_ok_iff] at h
      obtain ⟨merkleLeaf, hcreate, leafData, -, h⟩ := h
      unfold createLeaf at hcreate
      rw [bind_eq_ok_iff] at hcreate
      obtain ⟨e, hcanonical, hcreate⟩ := hcreate
      rw [pure_eq_ok_iff] at hcreate
      subst hcreate
      refine ⟨loader, e, rfl, hcanonical, ?_⟩
      split at h <;> simp [MerkleTreeLeaf.entry] at h
      · obtain ⟨_, -, rfl⟩ := h
        rfl
      · rw [← h]

theorem addVCLeaf_of_checks {req : AddVCRequest} {loader : L} {vc : Credential P} {e : Bytes}
    (nowNanos : Int64) (hperm : c.hasPermissions req.alias .write = .ok ())
    (hloader : env.loaders req.alias = some loader)
    (hparse : env.parseCredential req.vcEntry loader = .ok vc)
    (hissuer : c.issuerAllowed req.alias vc.issuerID = true)
    (hcanonical : canonicalDocument env req.vcEntry loader = .ok e)
    (hmarshalLeaf : ∀ leaf, ∃ b, env.marshalLeaf leaf = .ok b)
    (hmarshalProofs : ∀ ps, ∃ b, env.marshalProofs ps = .ok b) :
    ∃ leaf, addVCLeaf env c req nowNanos = .ok leaf ∧ leaf.leafIdentityHash = (env.sha256 e).toList := by
  obtain ⟨leafData, hleafData⟩ := hmarshalLeaf
    ⟨v1, timestampedEntryLeafType, some ⟨timestampMillis nowNanos, vcLogEntryType, some e, none⟩⟩
  obtain ⟨extraData, hextraData⟩ := hmarshalProofs vc.proofs
  refine ⟨⟨[], leafData, if vc.proofs.length > 0 then extraData else [], 0, (env.sha256 e).toList,
    none, none⟩, ?_, rfl⟩
  unfold addVCLeaf
  split_ifs with hproofs <;>
    simp [hperm, hloader, hparse, hissuer, createLeaf, hcanonical, hleafData, hextraData, hproofs,
      MerkleTreeLeaf.entry]

theorem respondValue_eq_ok {value entropy : Bytes} {resp : AddVCResponse}
    (h : respondValue env value entropy = .ok resp) :
    ∃ leaf entry vcts data sig, env.unmarshalLeaf value = .ok leaf ∧ leaf.entry = .ok entry ∧
      createVCTimestampSignature leaf = .ok vcts ∧ env.marshalVCTimestampSignature vcts = .ok data ∧
      env.sign data entropy = .ok sig ∧ env.marshalDigitallySigned ⟨env.alg, sig⟩ = .ok resp.signature ∧
      resp = ⟨v1, env.vcLogID.toList, entry.timestamp, Base64.encode (entry.extensions.getD []),
        resp.signature⟩ := by
  unfold respondValue signV1VCTS at h
  simp only [bind_eq_ok_iff, mapError_eq_ok_iff, pure_eq_ok_iff] at h
  obtain ⟨leaf, hleaf, sct, ⟨vcts, hvcts, data, hdata, sig, hsig, rfl⟩, signature, hsigned, entry,
    hentry, rfl⟩ := h
  exact ⟨leaf, entry, vcts, data, sig, hleaf, hentry, hvcts, hdata, hsig, hsigned, rfl⟩

/-- Answering one logged value with another draw of the signer changes only the signature,
which is over the same payload. -/
theorem respondValue_redraw {value entropy entropy' : Bytes} {resp : AddVCResponse}
    (h : respondValue env value entropy = .ok resp)
    (hsign : ∀ data, ∃ sig, env.sign data entropy' = .ok sig)
    (hmarshal : ∀ ds, ∃ b, env.marshalDigitallySigned ds = .ok b) :
    ∃ resp' data, respondValue env value entropy' = .ok resp' ∧ resp'.timestamp = resp.timestamp ∧
      loggedPayload env value = .ok data ∧ SignatureOver env data entropy resp.signature ∧
      SignatureOver env data entropy' resp'.signature := by
  obtain ⟨leaf, entry, vcts, data, sig, hleaf, hentry, hvcts, hdata, hsig, hsigned, hresp⟩ :=
    respondValue_eq_ok h
  obtain ⟨sig', hsig'⟩ := hsign data
  obtain ⟨signature', hsigned'⟩ := hmarshal ⟨env.alg, sig'⟩
  refine ⟨⟨v1, env.vcLogID.toList, entry.timestamp, Base64.encode (entry.extensions.getD []),
    signature'⟩, data, ?_, by rw [hresp], ?_, ⟨sig, hsig, hsigned⟩, ⟨sig', hsig', hsigned'⟩⟩
  · simp [respondValue, signV1VCTS, hleaf, hvcts, hdata, hsig', hentry]
    exact ⟨_, rfl, hsigned'⟩
  · simp [loggedPayload, hleaf, hvcts, hdata]

/-- A request whose leaf's identity hash has a `leaf_data` row already, with at most one
sequenced entry, is answered the stored value and leaves the database as it was. -/
theorem queueVC_of_stored {req : AddVCRequest} {now qt : Int64} {db : Db} {leaf : LogLeaf}
    {tree : Tree} {row : LeafDataRow} (hleaf : addVCLeaf env c req now = .ok leaf)
    (htree : getTree db (logIdOf c req.alias) = .ok tree)
    (hbegin : (beginInternal (N := Unit) db tree).2 = none)
    (hsize : leaf.leafIdentityHash.length = hashSize)
    (hrow : db.leafData.get (tree.treeId, leaf.leafIdentityHash) = some row)
    (hseq : (db.sequencedLeafData.rows.filter fun s =>
      decide ((s.treeId, s.leafIdentityHash) = (tree.treeId, leaf.leafIdentityHash))).length ≤ 1) :
    queueVC env c hashLeaf req now qt db = (db, .ok row.leafValue) := by
  obtain ⟨q, l, hqueue, hl, hvalue⟩ := queueLeaves_single_stored stableLeafSort
    { leaf with merkleLeafHash := hashLeaf leaf.leafValue } qt hbegin hsize hrow hseq
  unfold queueVC queueLeafRPC
  rw [hleaf, htree]
  simp only [ok_bind, hqueue]
  show (db, loggedValue (some q)) = (db, .ok row.leafValue)
  simp [loggedValue, hl, hvalue]

end Spec

section Duplicate

variable (env : Env L Doc P A) (c : Cmd C) (hashLeaf : Bytes → Bytes)

theorem addVC_duplicate {req₁ req₂ : AddVCRequest} {now₁ now₂ qt₁ qt₂ : Int64}
    {entropy₁ entropy₂ : Bytes} {db db₁ : Db} {resp₁ : AddVCResponse} {loader : L}
    {vc₂ : Credential P} (hinv : EntryInv db)
    (h₁ : addVC env c hashLeaf req₁ now₁ qt₁ entropy₁ db = (db₁, .ok resp₁))
    (halias : req₂.alias = req₁.alias) (hloader : env.loaders req₁.alias = some loader)
    (hparse : env.parseCredential req₂.vcEntry loader = .ok vc₂)
    (hissuer : c.issuerAllowed req₁.alias vc₂.issuerID = true)
    (hcanonical : canonicalDocument env req₂.vcEntry loader = canonicalDocument env req₁.vcEntry loader)
    (hmarshalLeaf : ∀ leaf, ∃ b, env.marshalLeaf leaf = .ok b)
    (hmarshalProofs : ∀ ps, ∃ b, env.marshalProofs ps = .ok b)
    (hsign : ∀ data, ∃ sig, env.sign data entropy₂ = .ok sig)
    (hmarshalSigned : ∀ ds, ∃ b, env.marshalDigitallySigned ds = .ok b) :
    (∃ value, queueVC env c hashLeaf req₁ now₁ qt₁ db = (db₁, .ok value) ∧
      queueVC env c hashLeaf req₂ now₂ qt₂ db₁ = (db₁, .ok value) ∧
      ∃ resp₂ data, addVC env c hashLeaf req₂ now₂ qt₂ entropy₂ db₁ = (db₁, .ok resp₂) ∧
        resp₂.timestamp = resp₁.timestamp ∧ loggedPayload env value = .ok data ∧
        SignatureOver env data entropy₁ resp₁.signature ∧
        SignatureOver env data entropy₂ resp₂.signature) ∧
    ∃ e, canonicalDocument env req₁.vcEntry loader = .ok e ∧
      db₁.leafData.countWhere
        (fun r => decide (r.key = (logIdOf c req₁.alias, (env.sha256 e).toList))) = 1 ∧
      (unsequencedKeys db₁ ++ sequencedKeys db₁).count
        (logIdOf c req₁.alias, (env.sha256 e).toList) ≤ 1 := by
  obtain ⟨value, hq₁, hresp⟩ := addVC_eq_ok h₁
  obtain ⟨leaf₁, tree, queued, hleaf₁, htree, hqueue, hvalue⟩ := queueVC_eq_ok hq₁
  obtain ⟨hperm, loader', e, hloader', hcan₁, hhash₁⟩ := addVCLeaf_eq_ok hleaf₁
  rw [hloader, Option.some.injEq] at hloader'
  subst hloader'
  have hgrowth := queueLeaves_growth hqueue
  obtain ⟨hbegin, q, l, rfl, hl, row, hrow, hkey, hrowValue⟩ := queueLeaves_single_eq_ok hqueue
  have hvalue' : value = l.leafValue := by
    simp only [loggedValue, List.head?_cons, hl, pure_eq_ok_iff] at hvalue
    exact hvalue.symm
  have hinv₁ := hinv.of_queueGrowth hgrowth
  have htrees : db₁.trees = db.trees := by
    obtain ⟨tl, tu, -, -, hdb, -⟩ := hgrowth
    rw [hdb]
  obtain ⟨-, -, -, htreeId⟩ := getTree_eq_ok htree
  obtain ⟨leaf₂, hleaf₂, hhash₂⟩ := addVCLeaf_of_checks now₂
    (by rw [halias]; exact hperm) (by rw [halias]; exact hloader) hparse (by rw [halias]; exact hissuer)
    (hcanonical.trans hcan₁) hmarshalLeaf hmarshalProofs
  have hrow₂ : db₁.leafData.get (tree.treeId, leaf₂.leafIdentityHash) = some row := by
    rw [Table.get_eq_some_iff, hhash₂, ← hhash₁]
    exact ⟨hrow, hkey⟩
  have hseq₂ := length_filter_le_one_of_nodup_map (List.nodup_append.mp hinv₁.nodup).2.1
    (tree.treeId, leaf₂.leafIdentityHash)
  have hbegin₂ : (beginInternal (N := Unit) db₁ tree).2 = none := by
    rw [beginInternal_congr htrees]
    exact hbegin
  -- so the second `QueueLeaves` answers the stored leaf and changes nothing
  have hq₂ : queueVC env c hashLeaf req₂ now₂ qt₂ db₁ = (db₁, .ok value) := by
    rw [queueVC_of_stored hleaf₂ (by rw [halias, getTree_congr htrees]; exact htree) hbegin₂
      (by rw [hhash₂, Vector.length_toList]; rfl) hrow₂ hseq₂, hrowValue, hvalue']
  have hkey₁ : row.key = (logIdOf c req₁.alias, (env.sha256 e).toList) := by
    rw [hkey, htreeId, ← hhash₁]
  obtain ⟨resp₂, data, hresp₂, hts, hpayload, hsig₁, hsig₂⟩ :=
    respondValue_redraw hresp hsign hmarshalSigned
  have h₂ : addVC env c hashLeaf req₂ now₂ qt₂ entropy₂ db₁ = (db₁, .ok resp₂) := by
    rw [addVC, hq₂]
    exact Prod.ext rfl hresp₂
  refine ⟨⟨value, hq₁, hq₂, resp₂, data, h₂, hts, hpayload, hsig₁, hsig₂⟩, e, hcan₁, ?_, ?_⟩
  · rw [← hkey₁]
    exact Table.countWhere_key_eq hrow
  · exact List.nodup_iff_count_le_one.mp hinv₁.nodup _

def vctCmd : Cmd Unit := new [⟨5, "vct".toList, "rw".toList, [], [], ()⟩]

/-- Libraries that accept every credential and give every one the same canonical form; the
leaf is written as its timestamp byte and its entry, and the signer appends its draw. -/
def sameCanonicalEnv : Env Unit Bytes Unit Unit where
  loaders _ := some ()
  parseCredential _ _ := .ok ⟨[], []⟩
  unmarshalDocument := .ok
  clearProof := id
  getCanonicalDocument _ _ := .ok [1, 2, 3]
  marshalLeaf leaf := .ok (match leaf.timestampedEntry with
    | some entry => entry.timestamp.toUInt8 :: entry.vcEntry.getD []
    | none => [])
  marshalProofs _ := .ok []
  marshalVCTimestampSignature vcts := .ok (vcts.vcEntry.getD [])
  sha256 _ := Vector.replicate 32 7
  unmarshalLeaf value := .ok ⟨v1, timestampedEntryLeafType,
    some ⟨(value.headD 0).toUInt64, vcLogEntryType, some value.tail, none⟩⟩
  sign data entropy := .ok (data ++ entropy)
  alg := ()
  marshalDigitallySigned sct := .ok sct.signature
  vcLogID := Vector.replicate 32 0

def vctDb : Db :=
  { Db.empty with
    trees := ⟨[⟨5, .active, .log, [], [], 0, 0, 0, false, none, some ⟨0, [], 0, 0, []⟩⟩],
      List.nodup_singleton _⟩ }

/-- The database after a first credential is logged at 5 ms. -/
def vctDb₁ : Db := (addVC sameCanonicalEnv vctCmd id ⟨"vct".toList, [1]⟩ 5000000 0 [1] vctDb).1

/-- A second credential, sent at 9 ms, is answered with the first timestamp, 5 ms. -/
theorem addVC_duplicate_sameCanonical :
    EntryInv vctDb ∧
      addVC sameCanonicalEnv vctCmd id ⟨"vct".toList, [1]⟩ 5000000 0 [1] vctDb =
        (vctDb₁, .ok ⟨v1, (Vector.replicate 32 0).toList, 5, [], [1, 2, 3, 1]⟩) ∧
      ∃ resp₂, addVC sameCanonicalEnv vctCmd id ⟨"vct".toList, [2]⟩ 9000000 1 [2] vctDb₁ =
        (vctDb₁, .ok resp₂) ∧ resp₂.timestamp = 5 := by
  have hinv : EntryInv vctDb := by decide
  have h₁ : addVC sameCanonicalEnv vctCmd id ⟨"vct".toList, [1]⟩ 5000000 0 [1] vctDb =
      (vctDb₁, .ok ⟨v1, (Vector.replicate 32 0).toList, 5, [], [1, 2, 3, 1]⟩) :=
    Prod.ext rfl (by decide +kernel)
  obtain ⟨⟨-, -, -, resp₂, -, h₂, hts, -⟩, -⟩ := addVC_duplicate sameCanonicalEnv vctCmd id hinv h₁
    rfl rfl rfl (by decide) rfl (fun _ => ⟨_, rfl⟩) (fun _ => ⟨_, rfl⟩) (fun _ => ⟨_, rfl⟩)
    (fun _ => ⟨_, rfl⟩)
  exact ⟨hinv, h₁, resp₂, h₂, hts⟩

end Duplicate

end AddVC

end Vct.Command.AddVC
