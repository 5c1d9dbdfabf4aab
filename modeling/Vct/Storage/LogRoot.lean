import Vct.Storage.LeafQueue

namespace Vct.Storage.LogRoot

open Vct.Lib.Sql
open Vct.Lib.Except
open Vct.Controller.Errors
open Vct.Trillian.Types
open Vct.Storage.Schema
open Vct.Storage.TreeStorage
open Vct.Storage.LogStorage
open Vct.Storage.LogSystem

variable {N : Type}

/-- A stored root is the one the tree's next transaction reads: the `INSERT` into
`tree_head` found the tree, so the `UPDATE` before it wrote the tree's row. -/
theorem fetchLatestRoot_storeSignedLogRoot {tx : LogTreeTx N} {db db' : Db}
    {logRoot : LogRootV1} (h : storeSignedLogRoot tx db logRoot = .ok db') :
    fetchLatestRoot db' tx.treeId = .ok logRoot := by
  unfold storeSignedLogRoot at h
  split at h
  · cases h
  rw [insertTreeHead, bind_eq_ok_iff] at h
  obtain ⟨th, hins, h⟩ := h
  cases h
  obtain ⟨-, hrefs⟩ := insertRow_eq_ok hins
  obtain ⟨row, hrow⟩ := Option.isSome_iff_exists.mp hrefs
  rw [fetchLatestRoot_eq_ok_iff]
  refine ⟨row, hrow, ?_⟩
  obtain ⟨hmem, hkey⟩ := Table.get_eq_some_iff.mp hrow
  obtain ⟨row₀, -, rfl⟩ := List.mem_map.mp hmem
  by_cases hp : row₀.treeId = tx.treeId
  · simp [hp]
  · simp [hp, TreeRow.key] at hkey

/-- The transaction begun after `logRoot` was stored holds it, and reads and writes at the
revisions derived from it. -/
theorem beginInternal_storeRoot {db db' : Db} {tree : Tree} {logRoot : LogRootV1}
    (h : storeRoot (N := N) db tree logRoot = .ok db') :
    beginInternal (N := N) db' tree =
      ({ beginTreeTx tree hashSize with
          writeRevision := logRoot.revision.toInt64 + 1, root := logRoot }, none) := by
  have hfetch := fetchLatestRoot_storeSignedLogRoot h
  rw [beginInternal_treeId] at hfetch
  unfold beginInternal
  rw [hfetch]

/-- Below the last `int64`, the revisions read back are the stored one and the next. -/
theorem storeRoot_revisions {db db' : Db} {tree : Tree} {logRoot : LogRootV1}
    (h : storeRoot (N := N) db tree logRoot = .ok db') (hrev : logRoot.revision.toNat < 2 ^ 63 - 1) :
    (beginInternal (N := N) db' tree).1.root = logRoot ∧
      (beginInternal (N := N) db' tree).1.readRevision.toInt = logRoot.revision.toNat ∧
      (writeRevisionAt (N := N) db' tree).toInt = logRoot.revision.toNat + 1 := by
  have hread : logRoot.revision.toInt64.toInt = logRoot.revision.toNat := by
    exact Vct.Lib.Int64.toInt_toInt64_of_lt (by omega)
  unfold writeRevisionAt
  rw [beginInternal_storeRoot h]
  refine ⟨rfl, hread, ?_⟩
  show (logRoot.revision.toInt64 + 1).toInt = _
  rw [Vct.Lib.Int64.toInt_add_of_range] <;> simp [hread] <;> omega

/-- A root at revision `2^63 - 1` is stored and read back, but `int64(Revision) + 1` wraps:
the next transaction's write revision is the least `int64`, so its `Commit`, which flushes
only at a write revision above `-1`, drops every subtree the transaction wrote. -/
theorem storeRoot_last_revision_wraps {db db' : Db} {tree : Tree} {logRoot : LogRootV1}
    (h : storeRoot (N := N) db tree logRoot = .ok db') (hrev : logRoot.revision = 2 ^ 63 - 1) :
    (beginInternal (N := N) db' tree).1.root = logRoot ∧
      (beginInternal (N := N) db' tree).1.readRevision.toInt = 2 ^ 63 - 1 ∧
      (writeRevisionAt (N := N) db' tree).toInt = -2 ^ 63 ∧
      ∀ subtrees : List (SubtreeProto N), flushedAt db' tree subtrees = [] := by
  have hwrite : (writeRevisionAt (N := N) db' tree).toInt = -2 ^ 63 := by
    unfold writeRevisionAt
    rw [beginInternal_storeRoot h, hrev]
    show ((2 ^ 63 - 1 : UInt64).toInt64 + 1).toInt = -2 ^ 63
    decide +kernel
  refine ⟨by rw [beginInternal_storeRoot h], ?_, hwrite, fun subtrees => ?_⟩
  · rw [beginInternal_storeRoot h]
    show logRoot.revision.toInt64.toInt = _
    rw [hrev]
    decide +kernel
  · unfold flushedAt flushed
    rw [if_neg]
    rw [gt_iff_lt, Vct.Lib.Int64.neg_one_lt_iff]
    unfold writeRevisionAt at hwrite
    simp only at hwrite ⊢
    omega

open Vct.Storage.LeafQueue

/-- Tree 1, initialised at revision 0, gets a root at revision `2^63 - 1`. -/
theorem storeRoot_last_revision_wraps_initDb :
    ∃ db', storeRoot (N := Unit) initDb logTree₁ ⟨0, [], 0, 2 ^ 63 - 1, []⟩ = .ok db' ∧
      (beginInternal (N := Unit) db' logTree₁).1.root = ⟨0, [], 0, 2 ^ 63 - 1, []⟩ ∧
      (beginInternal (N := Unit) db' logTree₁).1.readRevision.toInt = 2 ^ 63 - 1 ∧
      (writeRevisionAt (N := Unit) db' logTree₁).toInt = -2 ^ 63 ∧
      ∀ subtrees : List (SubtreeProto Unit), flushedAt db' logTree₁ subtrees = [] := by
  obtain ⟨db', hstore⟩ : ∃ db', storeRoot (N := Unit) initDb logTree₁ ⟨0, [], 0, 2 ^ 63 - 1, []⟩ =
      .ok db' := ⟨_, rfl⟩
  exact ⟨db', hstore, storeRoot_last_revision_wraps hstore rfl⟩

end Vct.Storage.LogRoot
