import Vct.Lib.Interleaving
import Vct.Storage.LogStorage

/-!
Runs of committed log transactions over one database. Two kinds of transaction use the
log storage's queue and subtrees: `QueueLeaves` of the log server, and the log signer's
transaction in `ReadWriteTransaction`, which dequeues leaves, sequences them, writes
subtrees through the cache and stores a new root. The signer is Trillian's; what it
decides (the batch limit and cutoff, the indices, the subtrees and the root) is part of
the event.

Transactions run one after another, each against the database the last one committed;
one that fails rolls back and leaves it unchanged. The state also carries what the
committed transactions did, for the invariants to speak about: the leaves they put into
`unsequenced`, the leaves `DequeueLeaves` returned, and the subtrees `Commit` stored.
-/

namespace Vct.Storage.LogSystem

open Vct.Lib.Sql
open Vct.Lib.Except
open Vct.Lib.Interleaving
open Vct.Controller.Errors
open Vct.Trillian.Types
open Vct.Storage.Schema
open Vct.Storage.TreeStorage
open Vct.Storage.LogStorage

variable {N : Type}

inductive LogTx (N : Type)
  | queueLeaves (tree : Tree) (leaves : List LogLeaf) (queueTimestamp : Int64)
  | integrate (tree : Tree) (limit cutoff firstIndex integrateTimestamp : Int64)
      (subtrees : List (SubtreeProto N)) (newRoot : Option (UInt64 × Bytes × UInt64))
  | addSequencedLeaves (tree : Tree) (leaves : List LogLeaf) (timestamp : Int64)
  | storeRoot (tree : Tree) (logRoot : LogRootV1)

def LogTx.tree : LogTx N → Tree
  | .queueLeaves tree .. => tree
  | .integrate tree .. => tree
  | .addSequencedLeaves tree .. => tree
  | .storeRoot tree .. => tree

/-- The signer's transaction takes its leaves from the queue: it is not on a preordered
log. -/
def LogTx.FromQueue : LogTx N → Prop
  | .queueLeaves .. => True
  | .integrate tree .. => tree.treeType ≠ .preorderedLog
  | .addSequencedLeaves .. => True
  | .storeRoot .. => True

instance (e : LogTx N) : Decidable e.FromQueue :=
  match e with
  | .queueLeaves .. => inferInstanceAs (Decidable True)
  | .integrate tree .. => inferInstanceAs (Decidable (tree.treeType ≠ .preorderedLog))
  | .addSequencedLeaves .. => inferInstanceAs (Decidable True)
  | .storeRoot .. => inferInstanceAs (Decidable True)

/-- Every leaf the transaction sequences comes out of the queue: its signer is not on a
preordered log, and it is no `AddSequencedLeaves`, which Trillian's log server refuses on
a log that is not preordered. -/
def LogTx.SequencesQueued : LogTx N → Prop
  | .queueLeaves .. => True
  | .integrate tree .. => tree.treeType ≠ .preorderedLog
  | .addSequencedLeaves .. => False
  | .storeRoot .. => True

instance (e : LogTx N) : Decidable e.SequencesQueued :=
  match e with
  | .queueLeaves .. => inferInstanceAs (Decidable True)
  | .integrate tree .. => inferInstanceAs (Decidable (tree.treeType ≠ .preorderedLog))
  | .addSequencedLeaves .. => inferInstanceAs (Decidable False)
  | .storeRoot .. => inferInstanceAs (Decidable True)

theorem LogTx.SequencesQueued.fromQueue {e : LogTx N} (he : e.SequencesQueued) : e.FromQueue := by
  cases e with
  | queueLeaves => trivial
  | integrate => exact he
  | addSequencedLeaves => exact he.elim
  | storeRoot => trivial

/-- The leaves at the indices the signer gives them, consecutive from `firstIndex`,
with its integrate timestamp. -/
def assignIndices (firstIndex integrateTimestamp : Int64) (leaves : List LogLeaf) : List LogLeaf :=
  leaves.zipIdx.map fun (leaf, i) =>
    { leaf with leafIndex := firstIndex + Int64.ofNat i, integrateTimestamp := some integrateTimestamp }

@[simp] theorem map_leafIdentityHash_assignIndices (firstIndex integrateTimestamp : Int64)
    (leaves : List LogLeaf) :
    (assignIndices firstIndex integrateTimestamp leaves).map (·.leafIdentityHash) =
      leaves.map (·.leafIdentityHash) := by
  unfold assignIndices
  conv_rhs => rw [← List.zipIdx_map_fst 0 leaves]
  rw [List.map_map, List.map_map]
  apply List.map_congr_left
  rintro ⟨leaf, i⟩ -
  rfl

theorem map_leafIndex_assignIndices (firstIndex integrateTimestamp : Int64) (leaves : List LogLeaf) :
    (assignIndices firstIndex integrateTimestamp leaves).map (·.leafIndex) =
      (List.range leaves.length).map (firstIndex + Int64.ofNat ·) := by
  unfold assignIndices
  rw [List.range_eq_range', ← List.zipIdx_map_snd 0 leaves, List.map_map, List.map_map]
  apply List.map_congr_left
  rintro ⟨leaf, i⟩ -
  rfl

/-- A subtree a `Commit` stored, with its tree, the root its writer began from and the
revision it was written at. -/
structure StoredSubtree (N : Type) where
  treeId : Int64
  root : LogRootV1
  revision : Int64
  subtree : SubtreeProto N

/-- The database, and what the committed transactions did to it. -/
structure LogState (N : Type) where
  db : Db
  -- the `leaf_data` key of every row a committed `QueueLeaves` put into `unsequenced`
  entered : List (Int64 × Bytes)
  -- the tree and identity hash of every leaf a committed `DequeueLeaves` returned
  dequeued : List (Int64 × Bytes)
  stored : List (StoredSubtree N)

section Step

variable (marshal : SubtreeProto N → Except GoError Bytes) (leafSort : LeafSort)

/-- The log signer's transaction: `DequeueLeaves`, `UpdateSequencedLeaves` with the
leaves at their indices, the subtrees into the cache (`SetMerkleNodes`), the new root
at the write revision (`StoreSignedLogRoot`), and `Commit`. The signer needs a root, so
a tree that needs initialising fails it. -/
def integrate (db : Db) (tree : Tree) (limit cutoff firstIndex integrateTimestamp : Int64)
    (subtrees : List (SubtreeProto N)) (newRoot : Option (UInt64 × Bytes × UInt64)) :
    Except GoError (Db × List LogLeaf) := do
  let (tx, err?) := beginInternal (N := N) db tree
  if let some err := err? then throw err
  let (db, leaves) ← dequeueLeaves tx db limit cutoff
  let sequenced := assignIndices firstIndex integrateTimestamp leaves
  let db ← updateSequencedLeaves tx db sequenced
  let tx := { tx with dirty := subtrees }
  let db ← match newRoot with
    | none => pure db
    | some (treeSize, rootHash, timestampNanos) =>
        storeSignedLogRoot tx db ⟨treeSize, rootHash, timestampNanos, tx.writeRevision.toUInt64, []⟩
  let db ← commit marshal tx.toTreeTx db
  return (db, sequenced)

/-- `ReadWriteTransaction` with a function that stores a root, as `InitLog` of Trillian's
log server does for a new tree: a tree that needs initialising is let through. `Commit`
flushes nothing: the transaction wrote nothing to the subtree cache. -/
def storeRoot (db : Db) (tree : Tree) (logRoot : LogRootV1) : Except GoError Db :=
  storeSignedLogRoot (beginInternal (N := N) db tree).1 db logRoot

def writeRevisionAt (db : Db) (tree : Tree) : Int64 := (beginInternal (N := N) db tree).1.writeRevision

def writerRootAt (db : Db) (tree : Tree) : LogRootV1 := (beginInternal (N := N) db tree).1.root

def flushedAt (db : Db) (tree : Tree) (subtrees : List (SubtreeProto N)) : List (SubtreeProto N) :=
  flushed { (beginInternal (N := N) db tree).1.toTreeTx with dirty := subtrees }

/-- A writer flushes only once it has read a root, at that root's revision + 1, and never at
a negative revision. -/
theorem writeRevisionAt_of_mem_flushedAt {db : Db} {tree : Tree} {subtrees : List (SubtreeProto N)}
    {st : SubtreeProto N} (h : st ∈ flushedAt db tree subtrees) :
    writeRevisionAt (N := N) db tree = (writerRootAt (N := N) db tree).revision.toInt64 + 1 ∧
      0 ≤ (writeRevisionAt (N := N) db tree).toInt := by
  have hflushed : st ∈ flushed { (beginInternal (N := N) db tree).1.toTreeTx with dirty := subtrees } := h
  have hnonneg := writeRevision_nonneg_of_mem_flushed hflushed
  refine ⟨?_, hnonneg⟩
  unfold writeRevisionAt writerRootAt beginInternal at *
  rcases hroot : fetchLatestRoot db tree.treeId with err | root
  · simp [hroot, beginTreeTx] at hnonneg
  · rfl

/-- The signer's transaction, taken apart: its `DequeueLeaves`, the leaves it sequences
and their `UpdateSequencedLeaves`, and the subtree rows its `Commit` added. -/
theorem integrate_eq_ok {db db' : Db} {tree : Tree} {limit cutoff firstIndex integrateTimestamp : Int64}
    {subtrees : List (SubtreeProto N)} {newRoot : Option (UInt64 × Bytes × UInt64)}
    {sequenced : List LogLeaf}
    (h : integrate marshal db tree limit cutoff firstIndex integrateTimestamp subtrees newRoot =
      .ok (db', sequenced)) :
    ∃ leaves u q rows,
      dequeueLeaves (beginInternal (N := N) db tree).1 db limit cutoff =
        .ok ({ db with unsequenced := u }, leaves) ∧
      sequenced = assignIndices firstIndex integrateTimestamp leaves ∧
      updateSequencedLeaves (beginInternal (N := N) db tree).1 { db with unsequenced := u } sequenced =
        .ok { db with unsequenced := u, sequencedLeafData := q } ∧
      db'.leafData = db.leafData ∧ db'.unsequenced = u ∧ db'.sequencedLeafData = q ∧
      db'.subtree.rows = db.subtree.rows ++ rows ∧
      Writes marshal tree.treeId (writeRevisionAt (N := N) db tree) (flushedAt db tree subtrees)
        rows ∧
      KeepsForeignKeys db db' := by
  unfold integrate at h
  rcases hbegin : beginInternal (N := N) db tree with ⟨tx, _ | err⟩ <;>
    simp only [hbegin] at h
  · rw [bind_eq_ok_iff] at h
    obtain ⟨⟨db₁, leaves⟩, hdeq, h⟩ := h
    obtain ⟨u, rfl⟩ := dequeueLeaves_frame hdeq
    rw [bind_eq_ok_iff] at h
    obtain ⟨db₂, hupd, h⟩ := h
    have hkeeps₂ := (keepsForeignKeys_unsequenced db u).trans
      (keepsForeignKeys_updateSequencedLeaves hupd)
    obtain ⟨q, rfl⟩ := updateSequencedLeaves_eq_ok hupd
    obtain ⟨db₃, hframe, hkeeps₃, h⟩ : ∃ db₃ : Db,
        (db₃.leafData = db.leafData ∧ db₃.unsequenced = u ∧ db₃.sequencedLeafData = q ∧
          db₃.subtree = db.subtree) ∧
        KeepsForeignKeys { db with unsequenced := u, sequencedLeafData := q } db₃ ∧
        (commit marshal { tx with dirty := subtrees }.toTreeTx db₃ >>= fun db =>
          pure (db, assignIndices firstIndex integrateTimestamp leaves)) = .ok (db', sequenced) := by
      split at h
      · rw [pure_bind] at h
        refine ⟨_, ?_, ?_, h⟩
        · exact ⟨rfl, rfl, rfl, rfl⟩
        · exact keepsForeignKeys_refl _
      · rw [bind_eq_ok_iff] at h
        obtain ⟨db₃, hroot, h⟩ := h
        have hkeeps := keepsForeignKeys_storeSignedLogRoot hroot
        obtain ⟨th, rfl⟩ := storeSignedLogRoot_eq_ok hroot
        refine ⟨_, ?_, hkeeps, h⟩
        exact ⟨rfl, rfl, rfl, rfl⟩
    rw [bind_eq_ok_iff] at h
    obtain ⟨db₄, hcommit, h⟩ := h
    rw [pure_eq_ok_iff, Prod.mk.injEq] at h
    obtain ⟨rfl, rfl⟩ := h
    have hkeeps₄ := keepsForeignKeys_commit marshal hcommit
    obtain ⟨t, rows, rfl, ht, hwrites, -⟩ := commit_eq_ok marshal hcommit
    have htree : tx.treeId = tree.treeId := by
      rw [← beginInternal_treeId (N := N) db tree, hbegin]
    obtain ⟨hleafData, hunseq, hseq, hsubtree⟩ := hframe
    refine ⟨leaves, u, q, rows, hdeq, rfl, hupd, hleafData, hunseq, hseq, ?_, ?_,
      hkeeps₂.trans (hkeeps₃.trans hkeeps₄)⟩
    · rw [ht, hsubtree]
    · unfold writeRevisionAt flushedAt
      rw [hbegin]
      exact htree ▸ hwrites
  · simp at h

/-- One transaction: a commit changes the database and records what it did; a failure
rolls back. -/
def logStep (e : LogTx N) (s : LogState N) : LogState N :=
  match e with
  | .queueLeaves tree leaves queueTimestamp =>
      match queueLeaves (N := N) leafSort s.db tree leaves queueTimestamp with
      | .ok (db, _) =>
          { s with
            db := db
            entered := s.entered ++
              (db.unsequenced.rows.drop s.db.unsequenced.rows.length).map UnsequencedRow.leafKey }
      | .error _ => s
  | .integrate tree limit cutoff firstIndex integrateTimestamp subtrees newRoot =>
      match integrate marshal s.db tree limit cutoff firstIndex integrateTimestamp subtrees newRoot with
      | .ok (db, sequenced) =>
          { s with
            db := db
            dequeued := s.dequeued ++ sequenced.map fun leaf => (tree.treeId, leaf.leafIdentityHash)
            stored := s.stored ++ (flushedAt s.db tree subtrees).map
              fun st => ⟨tree.treeId, writerRootAt (N := N) s.db tree, writeRevisionAt (N := N) s.db tree, st⟩ }
      | .error _ => s
  | .addSequencedLeaves tree leaves timestamp =>
      match addSequencedLeaves (N := N) leafSort s.db tree leaves timestamp with
      | .ok (db, _) => { s with db := db }
      | .error _ => s
  | .storeRoot tree logRoot =>
      match storeRoot (N := N) s.db tree logRoot with
      | .ok db => { s with db := db }
      | .error _ => s

theorem keepsForeignKeys_logStep (e : LogTx N) (s : LogState N) :
    KeepsForeignKeys s.db (logStep marshal leafSort e s).db := by
  cases e with
  | queueLeaves tree leaves queueTimestamp =>
      dsimp only [logStep]
      split
      · rename_i db queued hq
        exact (queueLeaves_growth hq).keepsForeignKeys
      · exact keepsForeignKeys_refl _
  | integrate tree limit cutoff firstIndex integrateTimestamp subtrees newRoot =>
      dsimp only [logStep]
      split
      · rename_i db sequenced hi
        obtain ⟨-, -, -, -, -, -, -, -, -, -, -, -, hkeeps⟩ := integrate_eq_ok marshal hi
        exact hkeeps
      · exact keepsForeignKeys_refl _
  | addSequencedLeaves tree leaves timestamp =>
      dsimp only [logStep]
      split
      · rename_i db res ha
        exact (addSequencedLeaves_growth ha).keepsForeignKeys
      · exact keepsForeignKeys_refl _
  | storeRoot tree logRoot =>
      dsimp only [logStep]
      split
      · rename_i db hr
        exact keepsForeignKeys_storeSignedLogRoot hr
      · exact keepsForeignKeys_refl _

end Step

end Vct.Storage.LogSystem
