import Mathlib
import Vct.Storage.TreeStorage

/-!
The log transactions of the PostgreSQL storage (`pkg/storage/postgres/log_storage.go`
and `queue.go`): `beginInternal` and the write revision, `QueueLeaves` with its
duplicate check through `leaf_data`, `DequeueLeaves` and `removeSequencedLeaves`,
`UpdateSequencedLeaves`, `AddSequencedLeaves`, `GetLeavesByRange`,
`StoreSignedLogRoot` and `GetActiveLogIDs`.

A transaction is a function from the database to its result and the database it
commits; an error rolls it back, so the database it ran on stays as it was. The JSON
of `current_tree_data` and the TLS encoding of a log root are read back as they were
written, so a root is kept decoded.
-/

namespace Vct.Storage.LogStorage

open Vct.Lib.Sql
open Vct.Lib.Except
open Vct.Controller.Errors
open Vct.Trillian.Types
open Vct.Storage.Schema
open Vct.Storage.TreeStorage

def errTreeNeedsInit : GoError := .new "tree needs initialising"

/-- `rfc6962.DefaultHasher.Size()`: SHA-256. -/
def hashSize : Nat := 32

/-- `dummymerkleLeafHash`: the text of 32 zeros the identity-hash query selects. -/
def dummymerkleLeafHash : Bytes := List.replicate 32 48

/-- Go's zero `types.LogRootV1`, the root of a transaction on a tree that needs
initialising. -/
def zeroLogRoot : LogRootV1 := ⟨0, [], 0, 0, []⟩

/-- `make([]T, 0, n)` for elements of `size` bytes: the runtime refuses a capacity that
is negative or needs more than `maxAlloc`, 2^48 bytes on 64-bit Linux. -/
def makeSliceOk (size : Nat) (n : Int) : Bool := decide (0 ≤ n ∧ n * size ≤ 2 ^ 48)

structure LogTreeTx (N : Type) extends TreeTx N where
  root : LogRootV1

/-- `trillian.QueuedLogLeaf`; a `nil` status is `none`. -/
structure QueuedLogLeaf where
  leaf : Option LogLeaf
  status : Option GoError

def okStatus : GoError := .grpc .ok "OK" []

variable {N : Type}

section Begin

/-- `fetchLatestRoot`: `current_tree_data`, or `ErrTreeNeedsInit` while it is `NULL` or
the tree is missing (the scan's error is ignored). -/
def fetchLatestRoot (db : Db) (treeId : Int64) : Except GoError LogRootV1 :=
  match (db.trees.get treeId).bind (·.currentTreeData) with
  | some root => .ok root
  | none => .error errTreeNeedsInit

/-- `beginInternal`: the transaction, and the error that `ReadWriteTransaction` and
`SnapshotForTree` let through when it is `ErrTreeNeedsInit`. -/
def beginInternal (db : Db) (tree : Tree) : LogTreeTx N × Option GoError :=
  let ttx : TreeTx N := beginTreeTx tree hashSize
  match fetchLatestRoot db tree.treeId with
  | .ok root => ({ ttx with writeRevision := root.revision.toInt64 + 1, root := root }, none)
  | .error err => ({ ttx with root := zeroLogRoot }, some err)

/-- `ReadRevision`, the revision `GetMerkleNodes` reads subtrees at. -/
def LogTreeTx.readRevision (tx : LogTreeTx N) : Int64 := tx.root.revision.toInt64

theorem beginInternal_congr {db db' : Db} (htrees : db'.trees = db.trees) (tree : Tree) :
    beginInternal (N := N) db' tree = beginInternal (N := N) db tree := by
  unfold beginInternal fetchLatestRoot
  rw [htrees]

theorem fetchLatestRoot_eq_ok_iff {db : Db} {treeId : Int64} {root : LogRootV1} :
    fetchLatestRoot db treeId = .ok root ↔
      ∃ row, db.trees.get treeId = some row ∧ row.currentTreeData = some root := by
  unfold fetchLatestRoot
  split
  · rename_i root' h
    rw [Option.bind_eq_some_iff] at h
    constructor
    · rintro ⟨⟩
      exact h
    · rintro ⟨row, hrow, hroot⟩
      obtain ⟨row', hrow', hroot'⟩ := h
      rw [hrow] at hrow'
      cases hrow'
      rw [hroot] at hroot'
      cases hroot'
      rfl
  · rename_i h
    simp only [reduceCtorEq, false_iff, not_exists, not_and]
    intro row hrow hroot
    rw [Option.bind_eq_none_iff] at h
    exact absurd hroot (by simp [h row hrow])

theorem beginInternal_treeId (db : Db) (tree : Tree) :
    (beginInternal (N := N) db tree).1.treeId = tree.treeId := by
  unfold beginInternal
  split <;> rfl

theorem beginInternal_treeType (db : Db) (tree : Tree) :
    (beginInternal (N := N) db tree).1.treeType = tree.treeType := by
  unfold beginInternal
  split <;> rfl

theorem beginInternal_hashSizeBytes (db : Db) (tree : Tree) :
    (beginInternal (N := N) db tree).1.hashSizeBytes = hashSize := by
  unfold beginInternal
  split <;> rfl

theorem beginInternal_dirty (db : Db) (tree : Tree) :
    (beginInternal (N := N) db tree).1.dirty = [] := by
  unfold beginInternal
  split <;> rfl

theorem beginInternal_writeRevision (db : Db) (tree : Tree) :
    (beginInternal (N := N) db tree).1.writeRevision =
      match fetchLatestRoot db tree.treeId with
      | .ok root => root.revision.toInt64 + 1
      | .error _ => -1 := by
  unfold beginInternal
  split <;> rfl

end Begin

section Dequeue

structure DequeuedLeaf where
  queueTimestampNanos : Int64
  leafIdentityHash : Bytes

/-- `(queue_timestamp_nanos, leaf_identity_hash)`, the order of `selectQueuedLeavesSQL`. -/
def queueRank (r : UnsequencedRow) : Lex (Int × List Nat) :=
  toLex (r.queueTimestampNanos.toInt, bytesRank r.leafIdentityHash)

/-- The rows `selectQueuedLeavesSQL` may return: of the tree, in bucket 0, queued no
later than the cutoff. -/
def Eligible (treeId cutoff : Int64) (r : UnsequencedRow) : Prop :=
  r.treeId = treeId ∧ r.bucket = 0 ∧ r.queueTimestampNanos ≤ cutoff

instance (treeId cutoff : Int64) (r : UnsequencedRow) : Decidable (Eligible treeId cutoff r) :=
  inferInstanceAs (Decidable (_ ∧ _))

def selectQueuedLeaves (db : Db) (treeId cutoff : Int64) (limit : Nat) : List UnsequencedRow :=
  orderByLimit queueRank limit (db.unsequenced.rows.filter (Eligible treeId cutoff ·))

/-- `dequeueLeaf`: only the hashes and the queue timestamp, which `int64` nanoseconds
always make valid. -/
def dequeueLeaf (r : UnsequencedRow) : LogLeaf × DequeuedLeaf :=
  ({ merkleLeafHash := r.merkleLeafHash
     leafValue := []
     extraData := []
     leafIndex := 0
     leafIdentityHash := r.leafIdentityHash
     queueTimestamp := some r.queueTimestampNanos
     integrateTimestamp := none },
   ⟨r.queueTimestampNanos, r.leafIdentityHash⟩)

def checkResultOkAndRowCountIs (affected count : Nat) : Except GoError Unit :=
  if affected = count then .ok ()
  else .error (.errorf "expected %d row(s) to be affected but saw: %d" [.int count, .int affected])

/-- The `WHERE` of `deleteUnsequencedSQL`. -/
def IsDequeued (treeId : Int64) (dql : DequeuedLeaf) (r : UnsequencedRow) : Prop :=
  r.treeId = treeId ∧ r.bucket = 0 ∧ r.queueTimestampNanos = dql.queueTimestampNanos ∧
    r.leafIdentityHash = dql.leafIdentityHash

instance (treeId : Int64) (dql : DequeuedLeaf) (r : UnsequencedRow) :
    Decidable (IsDequeued treeId dql r) :=
  inferInstanceAs (Decidable (_ ∧ _))

/-- One `deleteUnsequencedSQL`, which must affect exactly one row. -/
def deleteUnsequenced (treeId : Int64) (db : Db) (dql : DequeuedLeaf) : Except GoError Db := do
  checkResultOkAndRowCountIs (db.unsequenced.countWhere (IsDequeued treeId dql ·)) 1
  return { db with unsequenced := db.unsequenced.delete (IsDequeued treeId dql ·) }

def removeSequencedLeaves (tx : LogTreeTx N) (db : Db) (leaves : List DequeuedLeaf) :
    Except GoError Db :=
  leaves.foldlM (deleteUnsequenced tx.treeId) db

theorem mem_selectQueuedLeaves {db : Db} {treeId cutoff : Int64} {limit : Nat}
    {r : UnsequencedRow} (hr : r ∈ selectQueuedLeaves db treeId cutoff limit) :
    r ∈ db.unsequenced.rows ∧ Eligible treeId cutoff r := by
  have hmem := List.mem_filter.mp (mem_of_mem_orderByLimit hr)
  exact ⟨hmem.1, of_decide_eq_true hmem.2⟩

theorem selectQueuedLeaves_nodup (db : Db) (treeId cutoff : Int64) (limit : Nat) :
    (selectQueuedLeaves db treeId cutoff limit).Nodup :=
  orderByLimit_nodup limit ((List.Nodup.of_map _ db.unsequenced.keys_nodup).filter _)

theorem isDequeued_iff {treeId : Int64} {r u : UnsequencedRow}
    (hr : r.treeId = treeId ∧ r.bucket = 0) :
    IsDequeued treeId (dequeueLeaf r).2 u ↔ u.key = r.key := by
  obtain ⟨htree, hbucket⟩ := hr
  simp only [IsDequeued, dequeueLeaf, UnsequencedRow.key, Prod.mk.injEq, htree, hbucket]

theorem deleteUnsequenced_of_mem {treeId : Int64} {db : Db} {r : UnsequencedRow}
    (hmem : r ∈ db.unsequenced.rows) (hr : r.treeId = treeId ∧ r.bucket = 0) :
    deleteUnsequenced treeId db (dequeueLeaf r).2 =
      .ok { db with unsequenced := db.unsequenced.delete (fun u => decide (u = r)) } := by
  have hpred : (fun u => decide (IsDequeued treeId (dequeueLeaf r).2 u)) =
      fun u => decide (u.key = r.key) := by
    funext u
    exact decide_eq_decide.mpr (isDequeued_iff hr)
  have hcount : db.unsequenced.countWhere (IsDequeued treeId (dequeueLeaf r).2 ·) = 1 := by
    rw [hpred]
    exact Table.countWhere_key_eq hmem
  have hdelete : db.unsequenced.delete (IsDequeued treeId (dequeueLeaf r).2 ·) =
      db.unsequenced.delete (fun u => decide (u = r)) := by
    apply Table.delete_congr
    intro u hu
    rw [congrFun hpred u]
    exact decide_eq_decide.mpr ⟨fun hkey => Table.eq_of_key_eq hu hmem hkey, fun h => h ▸ rfl⟩
  rw [deleteUnsequenced, hcount, hdelete]
  rfl

theorem removeSequencedLeaves_eq_ok {tx : LogTreeTx N} {rows : List UnsequencedRow}
    (hnodup : rows.Nodup) (htree : ∀ r ∈ rows, r.treeId = tx.treeId ∧ r.bucket = 0) :
    ∀ {db : Db}, (∀ r ∈ rows, r ∈ db.unsequenced.rows) →
      removeSequencedLeaves tx db (rows.map fun r => (dequeueLeaf r).2) =
        .ok { db with unsequenced := db.unsequenced.delete (fun u => decide (u ∈ rows)) } := by
  induction rows with
  | nil =>
      intro db _
      rw [Table.delete_of_forall (by simp)]
      rfl
  | cons r rows ih =>
      intro db hmem
      obtain ⟨hr, hnodup⟩ := List.nodup_cons.mp hnodup
      have hmem' : ∀ r' ∈ rows,
          r' ∈ (db.unsequenced.delete (fun u => decide (u = r))).rows := by
        intro r' hr'
        refine List.mem_filter.mpr ⟨hmem r' (List.mem_cons_of_mem r hr'), ?_⟩
        simpa using fun h : r' = r => hr (h ▸ hr')
      have hrest := @ih hnodup (fun r' hr' => htree r' (List.mem_cons_of_mem r hr'))
        { db with unsequenced := db.unsequenced.delete (fun u => decide (u = r)) } hmem'
      rw [removeSequencedLeaves, List.map_cons, List.foldlM_cons,
        deleteUnsequenced_of_mem (hmem r List.mem_cons_self) (htree r List.mem_cons_self)]
      have hpred : (fun u => decide (u = r) || decide (u ∈ rows)) =
          fun u => decide (u ∈ r :: rows) := by
        funext u
        simp
      refine hrest.trans ?_
      rw [Table.delete_delete, hpred]

end Dequeue

section Range

/-- `selectLeavesByRangeSQL`: the sequenced leaves of the tree from `start` up to
`stop`, joined to their `leaf_data`, by sequence number. -/
def selectLeavesByRange (db : Db) (treeId start stop : Int64) : List LogLeaf :=
  ((db.sequencedLeafData.rows.filter fun s =>
      s.treeId = treeId ∧ start ≤ s.sequenceNumber ∧ s.sequenceNumber < stop).mergeSort
    fun a b => decide (a.sequenceNumber ≤ b.sequenceNumber)).filterMap fun s =>
      (db.leafData.get (treeId, s.leafIdentityHash)).map fun l =>
        { merkleLeafHash := s.merkleLeafHash
          leafValue := l.leafValue
          extraData := l.extraData
          leafIndex := s.sequenceNumber
          leafIdentityHash := l.leafIdentityHash
          queueTimestamp := some l.queueTimestampNanos
          integrateTimestamp := some s.integrateTimestampNanos }

/-- The loop of `GetLeavesByRange`: leaves while the indices run on from `wantIndex`; a
gap is an error below the tree size and the end of the range above it. -/
def collectLeaves (treeSize : Int64) : Int64 → List LogLeaf → Except GoError (List LogLeaf)
  | _, [] => .ok []
  | wantIndex, leaf :: rows =>
      if leaf.leafIndex ≠ wantIndex then
        if wantIndex < treeSize then
          .error (.errorf "got unexpected index %d, want %d" [.int leaf.leafIndex.toInt, .int wantIndex.toInt])
        else .ok []
      else (leaf :: ·) <$> collectLeaves treeSize (wantIndex + 1) rows

def getLeavesByRange (tx : LogTreeTx N) (db : Db) (start count : Int64) :
    Except GoError (List LogLeaf) := do
  if count ≤ 0 then
    throw (.grpc .invalidArgument "invalid count %d, want > 0" [.int count.toInt])
  if start < 0 then
    throw (.grpc .invalidArgument "invalid start %d, want >= 0" [.int start.toInt])
  let treeSize := tx.root.treeSize.toInt64
  let count ← if tx.treeType = .log then
      if treeSize ≤ 0 then throw (.grpc .outOfRange "empty tree" [])
      else if start ≥ treeSize then
        throw (.grpc .outOfRange "invalid start %d, want < TreeSize(%d)"
          [.int start.toInt, .int treeSize.toInt])
      else pure (if count > treeSize - start then treeSize - start else count)
    else pure count
  if !makeSliceOk 8 count.toInt then throw (.panic "makeslice: cap out of range")
  collectLeaves treeSize start (selectLeavesByRange db tx.treeId start (start + count))

/-- On a preordered log nothing bounds `count`: the largest one makes `make` panic, and a
range that ends past `MaxInt64` wraps `start + count` round to the least `int64`, so the
query finds nothing. -/
theorem getLeavesByRange_preordered_diverges (tx : LogTreeTx N)
    (htype : tx.treeType = .preorderedLog) (db : Db) :
    getLeavesByRange tx db 0 Int64.maxValue = .error (.panic "makeslice: cap out of range") ∧
      getLeavesByRange tx db Int64.maxValue 1 = .ok [] := by
  have hwrap : ∀ n : Int64, ¬n < Int64.maxValue + 1 := by
    intro n hn
    rw [Int64.lt_iff_toInt_lt] at hn
    have hmin : (Int64.maxValue + 1).toInt = -2 ^ 63 := by decide
    have hn' := n.le_toInt
    omega
  have hsel : selectLeavesByRange db tx.treeId Int64.maxValue (Int64.maxValue + 1) = [] := by
    simp [selectLeavesByRange, hwrap]
  constructor
  · -- a capacity of `MaxInt64` pointers is past `maxAlloc`
    have hcount : ¬Int64.maxValue ≤ 0 := by decide
    have hcap : makeSliceOk 8 Int64.maxValue.toInt = false := by decide
    simp [getLeavesByRange, htype, hcount, hcap]
    rfl
  · have hstart : ¬Int64.maxValue < 0 := by decide
    have hcap : makeSliceOk 8 1 = true := by decide
    simp [getLeavesByRange, htype, hstart, hcap, hsel, collectLeaves]

def preorderedTree₂ : Tree := ⟨2, .active, .preorderedLog, [], [], 0, 0, 0, false, none⟩

/-- Tree 2, preordered and initialised, holds one leaf, at index `MaxInt64`. -/
def lastIndexDb : Db :=
  { Db.empty with
    trees := ⟨[⟨2, .active, .preorderedLog, [], [], 0, 0, 0, false, none, some ⟨1, [], 0, 0, []⟩⟩],
      List.nodup_singleton _⟩
    leafData := ⟨[⟨2, List.replicate 32 1, [], [], 0⟩], List.nodup_singleton _⟩
    sequencedLeafData :=
      ⟨[⟨2, Int64.maxValue, List.replicate 32 1, List.replicate 32 1, 0⟩], List.nodup_singleton _⟩ }

theorem getLeavesByRange_preordered_diverges_lastIndex :
    lastIndexDb.sequencedLeafData.rows.map (·.sequenceNumber) = [Int64.maxValue] ∧
      getLeavesByRange (beginInternal (N := Unit) lastIndexDb preorderedTree₂).1 lastIndexDb 0
          Int64.maxValue = .error (.panic "makeslice: cap out of range") ∧
      getLeavesByRange (beginInternal (N := Unit) lastIndexDb preorderedTree₂).1 lastIndexDb
          Int64.maxValue 1 = .ok [] :=
  ⟨rfl, getLeavesByRange_preordered_diverges _ (beginInternal_treeType _ _) lastIndexDb⟩

/-- `DequeueLeaves`: a preordered log hands out its leaves past the tree size; any other
log takes the first `limit` eligible queue entries and deletes them. -/
def dequeueLeaves (tx : LogTreeTx N) (db : Db) (limit : Int64) (cutoffTime : Int64) :
    Except GoError (Db × List LogLeaf) :=
  if tx.treeType = .preorderedLog then
    (getLeavesByRange tx db tx.root.treeSize.toInt64 limit).map (db, ·)
  -- `make([]*trillian.LogLeaf, 0, limit)`, then `make([]dequeuedLeaf, 0, limit)`
  else if !makeSliceOk 32 limit.toInt then .error (.panic "makeslice: cap out of range")
  else do
    let rows := selectQueuedLeaves db tx.treeId cutoffTime limit.toInt.toNat
    let leaves ← rows.mapM fun r =>
      if (dequeueLeaf r).1.leafIdentityHash.length ≠ tx.hashSizeBytes then
        throw (.new "dequeued a leaf with incorrect hash size")
      else pure (dequeueLeaf r).1
    -- the entries go once this transaction commits
    let db ← if leaves.isEmpty then pure db
      else removeSequencedLeaves tx db (rows.map fun r => (dequeueLeaf r).2)
    return (db, leaves)

theorem dequeueLeaves_eq_ok {tx : LogTreeTx N} {db db' : Db} {limit cutoff : Int64}
    {leaves : List LogLeaf} (htype : tx.treeType ≠ .preorderedLog)
    (h : dequeueLeaves tx db limit cutoff = .ok (db', leaves)) :
    leaves = (selectQueuedLeaves db tx.treeId cutoff limit.toInt.toNat).map (fun r => (dequeueLeaf r).1) ∧
      db' = { db with
        unsequenced := db.unsequenced.delete
          (fun u => decide (u ∈ selectQueuedLeaves db tx.treeId cutoff limit.toInt.toNat)) } := by
  set rows := selectQueuedLeaves db tx.treeId cutoff limit.toInt.toNat with hrows
  unfold dequeueLeaves at h
  rw [if_neg htype] at h
  split at h
  · cases h
  rw [← hrows, bind_eq_ok_iff] at h
  obtain ⟨leaves₀, hleaves₀, h⟩ := h
  have hmap : leaves₀ = rows.map (fun r => (dequeueLeaf r).1) := by
    refine eq_map_of_mapM_eq_ok (fun r leaf hr => ?_) hleaves₀
    split at hr
    · cases hr
    · exact ((pure_eq_ok_iff).mp hr).symm
  have hsel : ∀ r ∈ rows, r.treeId = tx.treeId ∧ r.bucket = 0 := fun r hr =>
    ⟨(mem_selectQueuedLeaves hr).2.1, (mem_selectQueuedLeaves hr).2.2.1⟩
  have hremove : removeSequencedLeaves tx db (rows.map fun r => (dequeueLeaf r).2) =
      .ok { db with unsequenced := db.unsequenced.delete (fun u => decide (u ∈ rows)) } :=
    removeSequencedLeaves_eq_ok (selectQueuedLeaves_nodup _ _ _ _) hsel
      (fun r hr => (mem_selectQueuedLeaves hr).1)
  by_cases hempty : leaves₀.isEmpty = true
  · -- nothing was selected, and nothing is deleted
    simp only [hempty, if_true, pure_bind, pure_eq_ok_iff, Prod.mk.injEq] at h
    obtain ⟨rfl, rfl⟩ := h
    have hnil : rows = [] := by simpa [hmap] using hempty
    refine ⟨hmap, ?_⟩
    rw [hnil, Table.delete_of_forall (by simp)]
  · simp only [hempty, Bool.false_eq_true, if_false, hremove, bind_eq_ok_iff,
      pure_eq_ok_iff, Prod.mk.injEq] at h
    obtain ⟨w, hw, rfl, rfl⟩ := h
    cases hw
    exact ⟨hmap, rfl⟩

theorem dequeueLeaves_frame {tx : LogTreeTx N} {db db' : Db} {limit cutoff : Int64}
    {leaves : List LogLeaf} (h : dequeueLeaves tx db limit cutoff = .ok (db', leaves)) :
    ∃ u, db' = { db with unsequenced := u } := by
  by_cases htype : tx.treeType = .preorderedLog
  · unfold dequeueLeaves at h
    rw [if_pos htype] at h
    cases hrange : getLeavesByRange tx db tx.root.treeSize.toInt64 limit <;>
      rw [hrange] at h <;> cases h
    exact ⟨db.unsequenced, rfl⟩
  · exact ⟨_, (dequeueLeaves_eq_ok htype h).2⟩

end Range

section Sequence

/-- One leaf of `UpdateSequencedLeaves`. The `bool` that
`insert_sequenced_leaf_data_ignore_duplicates` returns is dropped. -/
def updateSequencedLeaf (tx : LogTreeTx N) (db : Db) (leaf : LogLeaf) : Except GoError Db := do
  if leaf.leafIdentityHash.length ≠ tx.hashSizeBytes then
    throw (.new "sequenced leaf has incorrect hash size")
  let some iTimestamp := leaf.integrateTimestamp
    | throw (.wrapf "got invalid integrate timestamp: %w" [] (.new "invalid nil Timestamp"))
  let (db, _) ← insertSequencedLeaf db
    ⟨tx.treeId, leaf.leafIndex, leaf.leafIdentityHash, leaf.merkleLeafHash, iTimestamp⟩
  return db

def updateSequencedLeaves (tx : LogTreeTx N) (db : Db) (leaves : List LogLeaf) :
    Except GoError Db :=
  leaves.foldlM (updateSequencedLeaf tx) db

def sequencedRow (tx : LogTreeTx N) (leaf : LogLeaf) (iTimestamp : Int64) : SequencedLeafDataRow :=
  ⟨tx.treeId, leaf.leafIndex, leaf.leafIdentityHash, leaf.merkleLeafHash, iTimestamp⟩

theorem updateSequencedLeaf_eq_ok {tx : LogTreeTx N} {db db' : Db} {leaf : LogLeaf}
    (h : updateSequencedLeaf tx db leaf = .ok db') :
    ∃ iTimestamp b, leaf.integrateTimestamp = some iTimestamp ∧
      insertSequencedLeaf db (sequencedRow tx leaf iTimestamp) = .ok (db', b) := by
  unfold updateSequencedLeaf at h
  by_cases hsize : leaf.leafIdentityHash.length = tx.hashSizeBytes
  · simp only [hsize, ne_eq, not_true_eq_false, if_false] at h
    cases hits : leaf.integrateTimestamp with
    | none => simp [hits] at h
    | some iTimestamp =>
        simp only [hits] at h
        rw [bind_eq_ok_iff] at h
        obtain ⟨⟨db₁, b⟩, hins, h⟩ := h
        rw [pure_eq_ok_iff] at h
        subst h
        exact ⟨iTimestamp, b, rfl, hins⟩
  · simp [hsize] at h

theorem updateSequencedLeaves_eq_ok {tx : LogTreeTx N} {db db' : Db} {leaves : List LogLeaf}
    (h : updateSequencedLeaves tx db leaves = .ok db') :
    ∃ t, db' = { db with sequencedLeafData := t } := by
  refine foldlM_invariant (P := fun acc => ∃ t, acc = { db with sequencedLeafData := t })
    (fun acc leaf acc' _ hacc hstep => ?_) h ⟨db.sequencedLeafData, rfl⟩
  obtain ⟨t, rfl⟩ := hacc
  obtain ⟨_, _, -, hins⟩ := updateSequencedLeaf_eq_ok hstep
  rw [(insertSequencedLeaf_eq_ok hins).1]
  exact ⟨_, rfl⟩

theorem keepsForeignKeys_updateSequencedLeaves {tx : LogTreeTx N} {db db' : Db}
    {leaves : List LogLeaf} (h : updateSequencedLeaves tx db leaves = .ok db') :
    KeepsForeignKeys db db' := by
  refine foldlM_invariant (P := fun acc => KeepsForeignKeys db acc)
    (fun acc leaf acc' _ hacc hstep => ?_) h (keepsForeignKeys_refl db)
  obtain ⟨_, _, -, hins⟩ := updateSequencedLeaf_eq_ok hstep
  exact hacc.trans (keepsForeignKeys_insertSequencedLeaf hins)

theorem updateSequencedLeaves_append {tx : LogTreeTx N} :
    ∀ {leaves : List LogLeaf} {db db' : Db}, updateSequencedLeaves tx db leaves = .ok db' →
      ∃ fresh, db'.sequencedLeafData.rows = db.sequencedLeafData.rows ++ fresh ∧
        (fresh.map fun r => (r.treeId, r.leafIdentityHash)).Sublist
          (leaves.map fun leaf => (tx.treeId, leaf.leafIdentityHash))
  | [], db, db', h => by
      rw [updateSequencedLeaves, List.foldlM_nil, pure_eq_ok_iff] at h
      subst h
      exact ⟨[], by simp, List.nil_sublist _⟩
  | leaf :: leaves, db, db', h => by
      rw [updateSequencedLeaves, List.foldlM_cons, bind_eq_ok_iff] at h
      obtain ⟨db₁, h₁, h⟩ := h
      obtain ⟨fresh, hrows, hsub⟩ := updateSequencedLeaves_append h
      obtain ⟨iTimestamp, b, -, h₁⟩ := updateSequencedLeaf_eq_ok h₁
      obtain ⟨rfl, -⟩ := insertSequencedLeaf_eq_ok h₁
      rw [List.map_cons]
      cases hins : db.sequencedLeafData.insert (sequencedRow tx leaf iTimestamp) with
      | none =>
          rw [hins, Option.getD_none] at hrows
          exact ⟨fresh, hrows, hsub.cons _⟩
      | some t =>
          rw [hins, Option.getD_some, Table.rows_insert hins] at hrows
          refine ⟨sequencedRow tx leaf iTimestamp :: fresh, by rw [hrows, List.append_assoc]; rfl, ?_⟩
          exact hsub.cons_cons _

def SequencedAt (db : Db) (treeId : Int64) (leaf : LogLeaf) : Prop :=
  ∃ row ∈ db.sequencedLeafData.rows, row.treeId = treeId ∧ row.sequenceNumber = leaf.leafIndex ∧
    row.leafIdentityHash = leaf.leafIdentityHash

theorem updateSequencedLeaves_sequencedAt {tx : LogTreeTx N} {leaves : List LogLeaf}
    (hdistinct : (leaves.map (·.leafIndex)).Nodup) :
    ∀ {db db' : Db}, (∀ leaf ∈ leaves,
        (tx.treeId, leaf.leafIndex) ∉ db.sequencedLeafData.rows.map SequencedLeafDataRow.key) →
      updateSequencedLeaves tx db leaves = .ok db' →
      db.sequencedLeafData.rows ⊆ db'.sequencedLeafData.rows ∧
        ∀ leaf ∈ leaves, SequencedAt db' tx.treeId leaf := by
  induction leaves with
  | nil =>
      intro db db' _ h
      rw [updateSequencedLeaves, List.foldlM_nil, pure_eq_ok_iff] at h
      subst h
      exact ⟨List.Subset.refl _, by simp⟩
  | cons leaf leaves ih =>
      intro db db' hfree h
      rw [List.map_cons, List.nodup_cons] at hdistinct
      rw [updateSequencedLeaves, List.foldlM_cons, bind_eq_ok_iff] at h
      obtain ⟨db₁, h₁, h⟩ := h
      obtain ⟨iTimestamp, b, -, h₁⟩ := updateSequencedLeaf_eq_ok h₁
      obtain ⟨rfl, -⟩ := insertSequencedLeaf_eq_ok h₁
      obtain ⟨t, hins⟩ : ∃ t, db.sequencedLeafData.insert (sequencedRow tx leaf iTimestamp) = some t :=
        Option.ne_none_iff_exists'.mp
          (mt Table.insert_eq_none_iff.mp (hfree leaf List.mem_cons_self))
      have hrows := Table.rows_insert hins
      have hfree' : ∀ l ∈ leaves,
          (tx.treeId, l.leafIndex) ∉ t.rows.map SequencedLeafDataRow.key := by
        intro l hl hk
        rw [hrows, List.map_append, List.mem_append] at hk
        rcases hk with hk | hk
        · exact hfree l (List.mem_cons_of_mem leaf hl) hk
        · have hidx : l.leafIndex = leaf.leafIndex := by
            simpa [sequencedRow, SequencedLeafDataRow.key] using hk
          exact hdistinct.1 (hidx ▸ List.mem_map_of_mem hl)
      rw [hins, Option.getD_some] at h
      obtain ⟨hsub, hat⟩ := ih hdistinct.2 hfree' h
      refine ⟨fun r hr => hsub (hrows ▸ List.mem_append_left _ hr), fun l hl => ?_⟩
      rcases List.mem_cons.mp hl with rfl | hl
      · exact ⟨sequencedRow tx l iTimestamp,
          hsub (hrows ▸ List.mem_append_right _ List.mem_cons_self), rfl, rfl, rfl⟩
      · exact hat l hl

/-- `sort.Sort` of the leaves with their positions by `byLeafIdentityHashWithPosition`: a
permutation in the order of the identity hashes. Go's `sort.Sort` is pdqsort, which sorts up
to twelve elements by insertion, a stable sort, and is not stable past that, so there the order
of equal hashes is left open. -/
structure LeafSort where
  sort : List (LogLeaf × Nat) → List (LogLeaf × Nat)
  perm : ∀ l, (sort l).Perm l
  sorted : ∀ l, (sort l).Pairwise fun a b =>
    bytesRank a.1.leafIdentityHash ≤ bytesRank b.1.leafIdentityHash
  insertion : ∀ l, l.length ≤ 12 → sort l = l.mergeSort fun a b =>
    decide (bytesRank a.1.leafIdentityHash ≤ bytesRank b.1.leafIdentityHash)

/-- The stable sort, which is what `sort.Sort` does to a batch of at most twelve leaves. -/
def stableLeafSort : LeafSort where
  sort l := l.mergeSort fun a b =>
    decide (bytesRank a.1.leafIdentityHash ≤ bytesRank b.1.leafIdentityHash)
  perm _ := List.mergeSort_perm _ _
  sorted l := pairwise_mergeSort_rank (fun a : LogLeaf × Nat => bytesRank a.1.leafIdentityHash) l
  insertion _ _ := rfl

/-- `sortLeavesForInsert`: the leaves with their positions, by identity hash. -/
def sortLeavesForInsert (leafSort : LeafSort) (leaves : List LogLeaf) : List (LogLeaf × Nat) :=
  leafSort.sort leaves.zipIdx

section LeafOrder

variable (leafSort : LeafSort)

/-- A batch of at most twelve leaves already in identity-hash order keeps its order. -/
theorem sortLeavesForInsert_of_sorted {leaves : List LogLeaf}
    (h : leaves.Pairwise fun a b => bytesRank a.leafIdentityHash ≤ bytesRank b.leafIdentityHash)
    (hsmall : leaves.length ≤ 12) :
    sortLeavesForInsert leafSort leaves = leaves.zipIdx := by
  rw [sortLeavesForInsert, leafSort.insertion _ (by simpa using hsmall)]
  apply List.mergeSort_of_pairwise
  rw [← List.pairwise_map (f := Prod.fst) (R := fun a b : LogLeaf =>
    decide (bytesRank a.leafIdentityHash ≤ bytesRank b.leafIdentityHash) = true), List.zipIdx_map_fst]
  simpa using h

theorem sortLeavesForInsert_perm (leaves : List LogLeaf) :
    (sortLeavesForInsert leafSort leaves).Perm leaves.zipIdx :=
  leafSort.perm _

theorem sortLeavesForInsert_sorted (leaves : List LogLeaf) :
    (sortLeavesForInsert leafSort leaves).Pairwise fun a b =>
      bytesRank a.1.leafIdentityHash ≤ bytesRank b.1.leafIdentityHash :=
  leafSort.sorted _

theorem sortLeavesForInsert_singleton (leaf : LogLeaf) :
    sortLeavesForInsert leafSort [leaf] = [(leaf, 0)] :=
  List.perm_singleton.mp (sortLeavesForInsert_perm leafSort [leaf])

theorem mem_sortLeavesForInsert {leaves : List LogLeaf} {ol : LogLeaf × Nat}
    (h : ol ∈ sortLeavesForInsert leafSort leaves) : ol.1 ∈ leaves ∧ ol.2 < leaves.length := by
  have hmem := (sortLeavesForInsert_perm leafSort leaves).subset h
  refine ⟨List.fst_mem_of_mem_zipIdx hmem, ?_⟩
  simpa using List.snd_lt_add_of_mem_zipIdx hmem

/-- Every position of the batch comes once. -/
theorem sortLeavesForInsert_positions_nodup (leaves : List LogLeaf) :
    ((sortLeavesForInsert leafSort leaves).map Prod.snd).Nodup := by
  rw [((sortLeavesForInsert_perm leafSort leaves).map Prod.snd).nodup_iff, List.zipIdx_map_snd]
  exact List.nodup_range'

end LeafOrder

/-- One leaf of `logTreeTX.AddSequencedLeaves`, between its savepoints: a conflicting
index rolls back both inserts of the leaf and marks it. -/
def addSequencedLeaf (tx : LogTreeTx N) (timestamp : Int64)
    (acc : Db × List QueuedLogLeaf) (ol : LogLeaf × Nat) :
    Except GoError (Db × List QueuedLogLeaf) := do
  let (leaf, i) := ol
  if leaf.leafIdentityHash.length ≠ tx.hashSizeBytes then
    throw (.grpc .failedPrecondition "leaves[%d] has incorrect hash size %d, want %d"
      [.int i, .int leaf.leafIdentityHash.length, .int tx.hashSizeBytes])
  let res := acc.2.set i ⟨none, some okStatus⟩
  -- the result of the `leaf_data` insert is ignored
  let (db₁, _) ← insertLeafData acc.1
    ⟨tx.treeId, leaf.leafIdentityHash, leaf.leafValue, leaf.extraData, timestamp⟩
  let (db₂, resultData) ← insertSequencedLeaf db₁
    ⟨tx.treeId, leaf.leafIndex, leaf.leafIdentityHash, leaf.merkleLeafHash, 0⟩
  if resultData then return (db₂, res)
  else return (acc.1, res.set i ⟨none, some (.grpc .failedPrecondition "conflicting LeafIndex" [])⟩)

/-- `logTreeTX.AddSequencedLeaves`. Every position is set before the loop could fail,
so the `nil` entries of the result never show. -/
def addSequencedLeavesTx (leafSort : LeafSort) (tx : LogTreeTx N) (db : Db) (leaves : List LogLeaf)
    (timestamp : Int64) : Except GoError (Db × List QueuedLogLeaf) :=
  (sortLeavesForInsert leafSort leaves).foldlM (addSequencedLeaf tx timestamp)
    (db, List.replicate leaves.length ⟨none, none⟩)

/-- `postgresLogStorage.AddSequencedLeaves`: a tree that needs initialising fails it.
`Commit` flushes nothing: the transaction wrote nothing to the subtree cache. -/
def addSequencedLeaves (leafSort : LeafSort) (db : Db) (tree : Tree) (leaves : List LogLeaf)
    (timestamp : Int64) : Except GoError (Db × List QueuedLogLeaf) := do
  let (tx, err?) := beginInternal (N := N) db tree
  if let some err := err? then throw err
  addSequencedLeavesTx leafSort tx db leaves timestamp

/-- What `AddSequencedLeaves` does to the database: it appends rows of trees that exist to
`leaf_data` and to `sequenced_leaf_data`. -/
def AddGrowth (db db' : Db) : Prop :=
  ∃ tl ts freshData freshSeq, db' = { db with leafData := tl, sequencedLeafData := ts } ∧
    tl.rows = db.leafData.rows ++ freshData ∧ ts.rows = db.sequencedLeafData.rows ++ freshSeq ∧
    (∀ r ∈ freshData, db.treeExists r.treeId = true) ∧
    ∀ r ∈ freshSeq, db.treeExists r.treeId = true

theorem addGrowth_refl (db : Db) : AddGrowth db db :=
  ⟨db.leafData, db.sequencedLeafData, [], [], rfl, by simp, by simp, by simp, by simp⟩

theorem AddGrowth.trans {db₁ db₂ db₃ : Db} (h₁ : AddGrowth db₁ db₂) (h₂ : AddGrowth db₂ db₃) :
    AddGrowth db₁ db₃ := by
  obtain ⟨tl, ts, freshData, freshSeq, rfl, hl, hs, hdata, hseq⟩ := h₁
  obtain ⟨tl', ts', freshData', freshSeq', rfl, hl', hs', hdata', hseq'⟩ := h₂
  refine ⟨tl', ts', freshData ++ freshData', freshSeq ++ freshSeq', rfl, ?_, ?_, ?_, ?_⟩
  · rw [hl', hl, List.append_assoc]
  · rw [hs', hs, List.append_assoc]
  · intro r hr
    rcases List.mem_append.mp hr with hr | hr
    · exact hdata r hr
    · exact hdata' r hr
  · intro r hr
    rcases List.mem_append.mp hr with hr | hr
    · exact hseq r hr
    · exact hseq' r hr

theorem AddGrowth.keepsForeignKeys {db db' : Db} (h : AddGrowth db db') :
    KeepsForeignKeys db db' := by
  obtain ⟨tl, ts, freshData, freshSeq, rfl, hl, hs, hdata, hseq⟩ := h
  refine ⟨rfl, keepsOrRefers_refl _, keepsOrRefers_refl _, keepsOrRefers_refl _, ?_, ?_⟩
  · show KeepsOrRefers db _ _ tl.rows
    rw [hl]
    exact keepsOrRefers_append hdata
  · show KeepsOrRefers db _ _ ts.rows
    rw [hs]
    exact keepsOrRefers_append hseq

theorem addGrowth_insertLeafData {db db' : Db} {row : LeafDataRow} {b : Bool}
    (h : insertLeafData db row = .ok (db', b)) : AddGrowth db db' := by
  obtain ⟨t, rfl, ht⟩ := insertLeafData_eq_ok h
  rcases ht with ⟨-, rfl, -⟩ | ⟨hsome, -, hexists⟩
  · exact addGrowth_refl db
  · exact ⟨t, db.sequencedLeafData, [row], [], rfl, Table.rows_insert hsome, by simp,
      by simpa using hexists, by simp⟩

theorem addGrowth_insertSequencedLeaf {db db' : Db} {row : SequencedLeafDataRow} {b : Bool}
    (h : insertSequencedLeaf db row = .ok (db', b)) : AddGrowth db db' := by
  obtain ⟨rfl, -, hexists⟩ := insertSequencedLeaf_eq_ok h
  cases hins : db.sequencedLeafData.insert row with
  | none => exact ⟨db.leafData, db.sequencedLeafData, [], [], rfl, by simp, by simp, by simp, by simp⟩
  | some t =>
      have hrow := hexists (by rw [hins]; rfl)
      exact ⟨db.leafData, t, [], [row], rfl, by simp, Table.rows_insert hins, by simp,
        by simpa using hrow⟩

theorem addSequencedLeaf_growth {tx : LogTreeTx N} {timestamp : Int64}
    {acc acc' : Db × List QueuedLogLeaf} {ol : LogLeaf × Nat}
    (h : addSequencedLeaf tx timestamp acc ol = .ok acc') : AddGrowth acc.1 acc'.1 := by
  obtain ⟨leaf, i⟩ := ol
  unfold addSequencedLeaf at h
  by_cases hsize : leaf.leafIdentityHash.length = tx.hashSizeBytes
  · simp only [hsize, ne_eq, not_true_eq_false, if_false] at h
    rw [bind_eq_ok_iff] at h
    obtain ⟨⟨db₁, _⟩, hdata, h⟩ := h
    rw [bind_eq_ok_iff] at h
    obtain ⟨⟨db₂, resultData⟩, hseq, h⟩ := h
    split at h
    · cases h
      exact (addGrowth_insertLeafData hdata).trans (addGrowth_insertSequencedLeaf hseq)
    · cases h
      exact addGrowth_refl _
  · simp [hsize] at h

theorem addSequencedLeavesTx_growth {leafSort : LeafSort} {tx : LogTreeTx N} {db db' : Db}
    {leaves : List LogLeaf} {timestamp : Int64} {res : List QueuedLogLeaf}
    (h : addSequencedLeavesTx leafSort tx db leaves timestamp = .ok (db', res)) : AddGrowth db db' :=
  foldlM_invariant (P := fun acc => AddGrowth db acc.1)
    (fun _ _ _ _ hacc hstep => hacc.trans (addSequencedLeaf_growth hstep)) h (addGrowth_refl db)

theorem addSequencedLeaves_growth {leafSort : LeafSort} {db db' : Db} {tree : Tree}
    {leaves : List LogLeaf} {timestamp : Int64} {res : List QueuedLogLeaf}
    (h : addSequencedLeaves (N := N) leafSort db tree leaves timestamp = .ok (db', res)) :
    AddGrowth db db' := by
  unfold addSequencedLeaves at h
  rcases hbegin : beginInternal (N := N) db tree with ⟨tx, _ | err⟩ <;> simp only [hbegin] at h
  · exact addSequencedLeavesTx_growth h
  · simp at h

end Sequence

section Queue

/-- `selectLeavesByLeafIdentityHashSQL`: each `leaf_data` row of the tree with one of
the hashes, `LEFT JOIN`ed to the `sequenced_leaf_data` rows of its hash. -/
def selectLeavesByLeafIdentityHash (db : Db) (treeId : Int64) (leafHashes : List Bytes) :
    List LogLeaf :=
  (db.leafData.rows.filter fun l => leafHashes.contains l.leafIdentityHash ∧ l.treeId = treeId).flatMap
    fun l =>
      let leaf := fun (its : Option Int64) =>
        ({ merkleLeafHash := dummymerkleLeafHash
           leafValue := l.leafValue
           extraData := l.extraData
           leafIndex := -1
           leafIdentityHash := l.leafIdentityHash
           queueTimestamp := some l.queueTimestampNanos
           integrateTimestamp := its } : LogLeaf)
      match db.sequencedLeafData.rows.filter fun s =>
          s.leafIdentityHash = l.leafIdentityHash ∧ s.treeId = l.treeId with
      | [] => [leaf none]
      | ss => ss.map fun s => leaf (some s.integrateTimestampNanos)

/-- `getLeafDataByIdentityHash` through `getLeavesByHashInternal`, which checks every
Merkle hash it scans. -/
def getLeafDataByIdentityHash (tx : LogTreeTx N) (db : Db) (leafHashes : List Bytes) :
    Except GoError (List LogLeaf) :=
  if leafHashes.isEmpty then
    -- `expandPlaceholderSQL`; the argument is the statement's text
    .error (.errorf "trying to expand SQL placeholder with <= 0 parameters: %s"
      [.str "selectLeavesByLeafIdentityHashSQL".toList])
  else (selectLeavesByLeafIdentityHash db tx.treeId leafHashes).mapM fun leaf =>
    if leaf.merkleLeafHash.length ≠ tx.hashSizeBytes then
      .error (.errorf "logID: %d Scanned leaf %s does not have hash length %d, got %d"
        [.int tx.treeId.toInt, .str "leaf-identity".toList, .int tx.hashSizeBytes,
          .int leaf.merkleLeafHash.length])
    else .ok leaf

theorem mem_selectLeavesByLeafIdentityHash {db : Db} {treeId : Int64} {leafHashes : List Bytes}
    {leaf : LogLeaf} (h : leaf ∈ selectLeavesByLeafIdentityHash db treeId leafHashes) :
    ∃ row ∈ db.leafData.rows, row.leafIdentityHash ∈ leafHashes ∧ row.treeId = treeId ∧
      leaf.leafIdentityHash = row.leafIdentityHash ∧ leaf.leafValue = row.leafValue := by
  obtain ⟨row, hrow, hleaf⟩ := List.mem_flatMap.mp h
  obtain ⟨hmem, hkeep⟩ := List.mem_filter.mp hrow
  refine ⟨row, hmem, List.contains_iff_mem.mp (of_decide_eq_true hkeep).1,
    (of_decide_eq_true hkeep).2, ?_⟩
  split at hleaf
  · rw [List.mem_singleton.mp hleaf]
    exact ⟨rfl, rfl⟩
  · obtain ⟨s, -, rfl⟩ := List.mem_map.mp hleaf
    exact ⟨rfl, rfl⟩

theorem getLeafDataByIdentityHash_eq_ok {tx : LogTreeTx N} {db : Db} {leafHashes : List Bytes}
    {leaves : List LogLeaf} (h : getLeafDataByIdentityHash tx db leafHashes = .ok leaves) :
    leaves = selectLeavesByLeafIdentityHash db tx.treeId leafHashes := by
  unfold getLeafDataByIdentityHash at h
  split at h
  · cases h
  · rw [← List.map_id (selectLeavesByLeafIdentityHash db tx.treeId leafHashes)]
    refine eq_map_of_mapM_eq_ok (fun leaf leaf' hleaf => ?_) h
    split at hleaf
    · cases hleaf
    · exact (Except.ok.inj hleaf).symm

/-- One leaf of `logTreeTX.QueueLeaves`: a `leaf_data` row that was there already marks
the leaf as a duplicate; a new one also queues it in `unsequenced`. -/
def queueLeaf (tx : LogTreeTx N) (queueTimestamp : Int64)
    (acc : Db × List (Option LogLeaf)) (ol : LogLeaf × Nat) :
    Except GoError (Db × List (Option LogLeaf)) := do
  let (leaf, i) := ol
  let (db, resultData) ← (insertLeafData acc.1
    ⟨tx.treeId, leaf.leafIdentityHash, leaf.leafValue, leaf.extraData, queueTimestamp⟩).mapError
      (.wrapf "dupecheck failed: %w" [])
  if !resultData then
    -- the requested leaf stands in for the stored one until the lookup below
    return (db, acc.2.set i (some leaf))
  let args := [FmtArg.int tx.treeId.toInt, .bytes leaf.leafIdentityHash,
    .bytes leaf.merkleLeafHash, .int queueTimestamp.toInt]
  -- the result of the `unsequenced` insert is ignored
  let (db, _) ← (insertUnsequencedEntry db tx.treeId leaf.leafIdentityHash
    leaf.merkleLeafHash queueTimestamp).mapError (.wrapf "unsequenced: %w -- %v" args)
  return (db, acc.2)

/-- What `QueueLeaves` does to the database: it appends `leaf_data` rows, and for some of
them an `unsequenced` row of the same leaf. -/
def QueueGrowth (db db' : Db) : Prop :=
  ∃ tl tu fresh queued, db' = { db with leafData := tl, unsequenced := tu } ∧
    tl.rows = db.leafData.rows ++ fresh ∧ tu.rows = db.unsequenced.rows ++ queued ∧
    (queued.map UnsequencedRow.leafKey).Sublist (fresh.map LeafDataRow.key) ∧
    ∀ r ∈ fresh, db.treeExists r.treeId = true

theorem queueGrowth_refl (db : Db) : QueueGrowth db db :=
  ⟨db.leafData, db.unsequenced, [], [], rfl, by simp, by simp, by simp, by simp⟩

theorem QueueGrowth.trans {db₁ db₂ db₃ : Db} (h₁ : QueueGrowth db₁ db₂)
    (h₂ : QueueGrowth db₂ db₃) : QueueGrowth db₁ db₃ := by
  obtain ⟨tl, tu, fresh, queued, rfl, hl, hu, hsub, hexists⟩ := h₁
  obtain ⟨tl', tu', fresh', queued', rfl, hl', hu', hsub', hexists'⟩ := h₂
  refine ⟨tl', tu', fresh ++ fresh', queued ++ queued', rfl, ?_, ?_, ?_, ?_⟩
  · rw [hl', hl, List.append_assoc]
  · rw [hu', hu, List.append_assoc]
  · rw [List.map_append, List.map_append]
    exact hsub.append hsub'
  · intro r hr
    rcases List.mem_append.mp hr with hr | hr
    · exact hexists r hr
    · exact hexists' r hr

theorem QueueGrowth.keepsForeignKeys {db db' : Db} (h : QueueGrowth db db') :
    KeepsForeignKeys db db' := by
  obtain ⟨tl, tu, fresh, -, rfl, hl, -, -, hexists⟩ := h
  refine ⟨rfl, keepsOrRefers_refl _, keepsOrRefers_refl _, keepsOrRefers_refl _, ?_,
    keepsOrRefers_refl _⟩
  show KeepsOrRefers db _ _ tl.rows
  rw [hl]
  exact keepsOrRefers_append hexists

theorem queueLeaf_growth {tx : LogTreeTx N} {queueTimestamp : Int64}
    {acc acc' : Db × List (Option LogLeaf)} {ol : LogLeaf × Nat}
    (h : queueLeaf tx queueTimestamp acc ol = .ok acc') : QueueGrowth acc.1 acc'.1 := by
  obtain ⟨leaf, i⟩ := ol
  unfold queueLeaf at h
  rw [bind_eq_ok_iff] at h
  obtain ⟨⟨db₁, resultData⟩, hins, h⟩ := h
  obtain ⟨tl, rfl, hl⟩ := insertLeafData_eq_ok (mapError_eq_ok_iff.mp hins)
  rcases hl with ⟨-, rfl, rfl⟩ | ⟨hsome, rfl, hexists⟩
  · cases h
    exact queueGrowth_refl _
  · simp only [Bool.not_true, Bool.false_eq_true, if_false] at h
    rw [bind_eq_ok_iff] at h
    obtain ⟨⟨db₂, b⟩, hunseq, h⟩ := h
    cases h
    have hfresh : ∀ r ∈ [(⟨tx.treeId, leaf.leafIdentityHash, leaf.leafValue, leaf.extraData,
        queueTimestamp⟩ : LeafDataRow)], acc.1.treeExists r.treeId = true := by
      simpa using hexists
    obtain ⟨tu, rfl, hu⟩ := insertUnsequencedEntry_eq_ok (mapError_eq_ok_iff.mp hunseq)
    rcases hu with rfl | hu
    · exact ⟨tl, _, _, [], rfl, Table.rows_insert hsome, by simp, by simp, hfresh⟩
    · exact ⟨tl, tu, _, _, rfl, Table.rows_insert hsome, Table.rows_insert hu,
        List.Sublist.refl _, hfresh⟩

def findExisting (results : List LogLeaf) : Option LogLeaf → Except GoError (Option LogLeaf)
  | none => .ok none
  | some requested =>
      match results.find? (·.leafIdentityHash = requested.leafIdentityHash) with
      | some result => .ok (some result)
      | none => .error (.errorf "failed to find existing leaf for hash %x"
          [.bytes requested.leafIdentityHash])

/-- `logTreeTX.QueueLeaves`: the stored leaf for each position that was a duplicate. -/
def queueLeavesTx (leafSort : LeafSort) (tx : LogTreeTx N) (db : Db) (leaves : List LogLeaf)
    (queueTimestamp : Int64) : Except GoError (Db × List (Option LogLeaf)) := do
  if leaves.any (·.leafIdentityHash.length ≠ tx.hashSizeBytes) then
    throw (.errorf "queued leaf must have a leaf ID hash of length %d" [.int tx.hashSizeBytes])
  let leaves := leaves.map fun leaf => { leaf with queueTimestamp := some queueTimestamp }
  let (db, existingLeaves) ← (sortLeavesForInsert leafSort leaves).foldlM (queueLeaf tx queueTimestamp)
    (db, List.replicate leaves.length none)
  -- `existingCount == 0`
  if existingLeaves.all Option.isNone then return (db, existingLeaves)
  let toRetrieve := existingLeaves.filterMap (·.map (·.leafIdentityHash))
  let results ← (getLeafDataByIdentityHash tx db toRetrieve).mapError
    (.wrapf "failed to retrieve existing leaves: %w %v" [.byteSlices toRetrieve])
  if results.length ≠ toRetrieve.length then
    throw (.errorf "failed to retrieve all existing leaves: got %d, want %d"
      [.int results.length, .int toRetrieve.length])
  let existingLeaves ← existingLeaves.mapM (findExisting results)
  return (db, existingLeaves)

/-- A `QueueLeaves` transaction that succeeds has run its loop to the end, and then either
found no duplicate, or looked up one stored leaf for each duplicate and matched them up. -/
theorem queueLeavesTx_eq_ok {leafSort : LeafSort} {tx : LogTreeTx N} {db db' : Db}
    {leaves : List LogLeaf} {queueTimestamp : Int64} {existing : List (Option LogLeaf)}
    (h : queueLeavesTx leafSort tx db leaves queueTimestamp = .ok (db', existing)) :
    ∃ existing₁, (sortLeavesForInsert leafSort (leaves.map fun leaf =>
        { leaf with queueTimestamp := some queueTimestamp })).foldlM (queueLeaf tx queueTimestamp)
        (db, List.replicate leaves.length none) = .ok (db', existing₁) ∧
      ((existing₁.all Option.isNone ∧ existing = existing₁) ∨
        (existing₁.all Option.isNone = false ∧ ∃ results,
          getLeafDataByIdentityHash tx db' (existing₁.filterMap (·.map (·.leafIdentityHash))) =
            .ok results ∧
          results.length = (existing₁.filterMap (·.map (·.leafIdentityHash))).length ∧
          existing₁.mapM (findExisting results) = .ok existing)) := by
  unfold queueLeavesTx at h
  split at h
  · cases h
  rw [bind_eq_ok_iff] at h
  obtain ⟨⟨db₁, existing₁⟩, hfold, h⟩ := h
  rw [List.length_map] at hfold
  cases hall : existing₁.all Option.isNone with
  | true =>
    simp only [hall, if_true, pure_eq_ok_iff, Prod.mk.injEq] at h
    obtain ⟨rfl, rfl⟩ := h
    exact ⟨existing₁, hfold, .inl ⟨hall, rfl⟩⟩
  | false =>
    simp only [hall, Bool.false_eq_true, if_false] at h
    rw [bind_eq_ok_iff] at h
    obtain ⟨results, hresults, h⟩ := h
    split at h
    · exact absurd h throw_ne_ok
    · rename_i hlen
      rw [bind_eq_ok_iff] at h
      obtain ⟨existing₂, hfind, h⟩ := h
      rw [pure_eq_ok_iff, Prod.mk.injEq] at h
      obtain ⟨rfl, rfl⟩ := h
      exact ⟨existing₁, hfold, .inr ⟨hall, results, mapError_eq_ok_iff.mp hresults,
        Decidable.of_not_not hlen, hfind⟩⟩

theorem queueLeavesTx_growth {leafSort : LeafSort} {tx : LogTreeTx N} {db db' : Db}
    {leaves : List LogLeaf} {queueTimestamp : Int64} {existing : List (Option LogLeaf)}
    (h : queueLeavesTx leafSort tx db leaves queueTimestamp = .ok (db', existing)) :
    QueueGrowth db db' := by
  obtain ⟨existing₁, hfold, -⟩ := queueLeavesTx_eq_ok h
  -- every way out returns the database of the loop, which only grows
  exact foldlM_invariant (P := fun acc => QueueGrowth db acc.1)
    (fun _ _ _ _ hacc hstep => hacc.trans (queueLeaf_growth hstep)) hfold (queueGrowth_refl db)

def queuedLogLeaf (existing : Option LogLeaf) (leaf : LogLeaf) : QueuedLogLeaf :=
  match existing with
  | some e => ⟨some e, some (.grpc .alreadyExists "leaf already exists: %v" [.bytes e.leafIdentityHash])⟩
  | none => ⟨some leaf, none⟩

/-- `postgresLogStorage.QueueLeaves`. `Commit` flushes nothing: the transaction wrote
nothing to the subtree cache. The caller's leaves carry the queue timestamp the
transaction set on them. -/
def queueLeaves (leafSort : LeafSort) (db : Db) (tree : Tree) (leaves : List LogLeaf)
    (queueTimestamp : Int64) : Except GoError (Db × List QueuedLogLeaf) := do
  let (tx, err?) := beginInternal (N := N) db tree
  if let some err := err? then throw err
  let (db, existing) ← queueLeavesTx leafSort tx db leaves queueTimestamp
  let leaves := leaves.map fun leaf => { leaf with queueTimestamp := some queueTimestamp }
  return (db, List.zipWith queuedLogLeaf existing leaves)

theorem queueLeaves_growth {leafSort : LeafSort} {db db' : Db} {tree : Tree}
    {leaves : List LogLeaf} {queueTimestamp : Int64} {queued : List QueuedLogLeaf}
    (h : queueLeaves (N := N) leafSort db tree leaves queueTimestamp = .ok (db', queued)) :
    QueueGrowth db db' := by
  unfold queueLeaves at h
  rcases hbegin : beginInternal (N := N) db tree with ⟨tx, _ | err⟩ <;> simp only [hbegin] at h
  · rw [bind_eq_ok_iff] at h
    obtain ⟨⟨db₁, existing⟩, htx, h⟩ := h
    cases h
    exact queueLeavesTx_growth htx
  · simp at h

end Queue

section Root

/-- `StoreSignedLogRoot`, for the decoded root: the `UPDATE` of `current_tree_data`,
whose result is ignored, then the `tree_head` row. -/
def storeSignedLogRoot (tx : LogTreeTx N) (db : Db) (logRoot : LogRootV1) : Except GoError Db :=
  if logRoot.metadata ≠ [] then
    .error (.new "unimplemented: postgres storage does not support log root metadata")
  else
    let db := { db with
      trees := db.trees.update (·.treeId = tx.treeId)
        (fun r => { r with currentTreeData := some logRoot }) (fun _ => rfl) }
    insertTreeHead db
      ⟨tx.treeId, logRoot.timestampNanos, logRoot.treeSize, logRoot.rootHash, [], logRoot.revision⟩

theorem storeSignedLogRoot_eq_ok {tx : LogTreeTx N} {db db' : Db} {logRoot : LogRootV1}
    (h : storeSignedLogRoot tx db logRoot = .ok db') :
    ∃ th, db' = { db with
      trees := db.trees.update (·.treeId = tx.treeId)
        (fun r => { r with currentTreeData := some logRoot }) (fun _ => rfl)
      treeHead := th } := by
  unfold storeSignedLogRoot at h
  split at h
  · cases h
  · rw [insertTreeHead, bind_eq_ok_iff] at h
    obtain ⟨th, -, h⟩ := h
    cases h
    exact ⟨th, rfl⟩

theorem keepsForeignKeys_storeSignedLogRoot {tx : LogTreeTx N} {db db' : Db}
    {logRoot : LogRootV1} (h : storeSignedLogRoot tx db logRoot = .ok db') :
    KeepsForeignKeys db db' := by
  unfold storeSignedLogRoot at h
  split at h
  · cases h
  · exact (keepsForeignKeys_updateTrees db _ _ _).trans (keepsForeignKeys_insertTreeHead h)

/-- `selectNonDeletedTreeIDByTypeAndStateSQL`. `deleted IS NULL` never holds: the column
is `NOT NULL`. -/
def getActiveLogIDs (db : Db) : List Int64 :=
  (db.trees.rows.filter fun r =>
    (r.treeType = .log ∨ r.treeType = .preorderedLog) ∧
      (r.treeState = .active ∨ r.treeState = .draining) ∧ r.deleted = false).map (·.treeId)

end Root

end Vct.Storage.LogStorage
