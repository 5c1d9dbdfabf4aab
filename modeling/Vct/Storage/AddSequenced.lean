import Vct.Storage.Transactions

namespace Vct.Storage.AddSequenced

open Vct.Lib.Sql
open Vct.Lib.Except
open Vct.Controller.Errors
open Vct.Trillian.Types
open Vct.Storage.Schema
open Vct.Storage.LogStorage

def okLeaf : QueuedLogLeaf := ⟨none, some okStatus⟩

def conflictingLeafIndex : QueuedLogLeaf :=
  ⟨none, some (.grpc .failedPrecondition "conflicting LeafIndex" [])⟩

def dataRow (treeId timestamp : Int64) (leaf : LogLeaf) : LeafDataRow :=
  ⟨treeId, leaf.leafIdentityHash, leaf.leafValue, leaf.extraData, timestamp⟩

def seqRow (treeId : Int64) (leaf : LogLeaf) : SequencedLeafDataRow :=
  ⟨treeId, leaf.leafIndex, leaf.leafIdentityHash, leaf.merkleLeafHash, 0⟩

/-- The index a leaf asks for is taken in `sequenced_leaf_data`. -/
def IndexTaken (db : Db) (treeId : Int64) (leaf : LogLeaf) : Prop :=
  (treeId, leaf.leafIndex) ∈ db.sequencedLeafData.rows.map SequencedLeafDataRow.key

instance (db : Db) (treeId : Int64) (leaf : LogLeaf) : Decidable (IndexTaken db treeId leaf) :=
  inferInstanceAs (Decidable (_ ∈ _))

/-- Leaf `ol.1`, at position `ol.2` of the batch: a taken index leaves both tables as they
are and marks the leaf; a free one stores the leaf's data, unless its identity hash is
stored already, and takes the index. -/
def sequenceLeaf (treeId timestamp : Int64) (acc : Db × List QueuedLogLeaf)
    (ol : LogLeaf × Nat) : Db × List QueuedLogLeaf :=
  match acc.1.sequencedLeafData.insert (seqRow treeId ol.1) with
  | none => (acc.1, acc.2.set ol.2 conflictingLeafIndex)
  | some t =>
    ({ acc.1 with
        leafData := (acc.1.leafData.insert (dataRow treeId timestamp ol.1)).getD acc.1.leafData
        sequencedLeafData := t }, acc.2.set ol.2 okLeaf)

section Step

variable {treeId timestamp : Int64} {acc : Db × List QueuedLogLeaf} {ol : LogLeaf × Nat}

theorem sequenceLeaf_of_taken (h : IndexTaken acc.1 treeId ol.1) :
    sequenceLeaf treeId timestamp acc ol = (acc.1, acc.2.set ol.2 conflictingLeafIndex) := by
  rw [sequenceLeaf, Table.insert_eq_none_iff.mpr h]

theorem sequenceLeaf_of_free (timestamp : Int64) (h : ¬IndexTaken acc.1 treeId ol.1) :
    ∃ t, acc.1.sequencedLeafData.insert (seqRow treeId ol.1) = some t ∧
      sequenceLeaf treeId timestamp acc ol =
        ({ acc.1 with
            leafData := (acc.1.leafData.insert (dataRow treeId timestamp ol.1)).getD acc.1.leafData
            sequencedLeafData := t }, acc.2.set ol.2 okLeaf) := by
  cases hins : acc.1.sequencedLeafData.insert (seqRow treeId ol.1) with
  | none => exact absurd (Table.insert_eq_none_iff.mp hins) h
  | some t => exact ⟨t, rfl, by rw [sequenceLeaf, hins]⟩

@[simp] theorem sequenceLeaf_trees : (sequenceLeaf treeId timestamp acc ol).1.trees = acc.1.trees := by
  unfold sequenceLeaf
  split <;> rfl

@[simp] theorem sequenceLeaf_length :
    (sequenceLeaf treeId timestamp acc ol).2.length = acc.2.length := by
  unfold sequenceLeaf
  split <;> simp

/-- The status the leaf gets, read off the table as it stands before it. -/
theorem sequenceLeaf_status (hpos : ol.2 < acc.2.length) :
    (sequenceLeaf treeId timestamp acc ol).2[ol.2]? =
      some (if IndexTaken acc.1 treeId ol.1 then conflictingLeafIndex else okLeaf) := by
  by_cases htaken : IndexTaken acc.1 treeId ol.1
  · rw [sequenceLeaf_of_taken htaken, if_pos htaken, List.getElem?_set_self hpos]
  · obtain ⟨t, -, heq⟩ := sequenceLeaf_of_free timestamp htaken
    rw [heq, if_neg htaken, List.getElem?_set_self hpos]

theorem sequenceLeaf_status_ne {i : Nat} (hi : i ≠ ol.2) :
    (sequenceLeaf treeId timestamp acc ol).2[i]? = acc.2[i]? := by
  unfold sequenceLeaf
  split <;> exact List.getElem?_set_ne (Ne.symm hi)

end Step

variable {N : Type}

/-- A leaf of the right size on a tree that exists: the savepoints make `addSequencedLeaf`
the step `sequenceLeaf`. -/
theorem addSequencedLeaf_eq {tx : LogTreeTx N} {timestamp : Int64}
    {acc : Db × List QueuedLogLeaf} {ol : LogLeaf × Nat}
    (hexists : acc.1.treeExists tx.treeId = true)
    (hsize : ol.1.leafIdentityHash.length = tx.hashSizeBytes) :
    addSequencedLeaf tx timestamp acc ol = .ok (sequenceLeaf tx.treeId timestamp acc ol) := by
  obtain ⟨db, res⟩ := acc
  obtain ⟨leaf, i⟩ := ol
  unfold addSequencedLeaf
  simp only [if_neg (not_not.mpr hsize)]
  rw [insertLeafData_of_treeExists hexists]
  simp only [ok_bind]
  rw [insertSequencedLeaf_of_refs]
  · simp only [ok_bind]
    by_cases htaken : IndexTaken db tx.treeId leaf
    · have hnone : db.sequencedLeafData.insert (seqRow tx.treeId leaf) = none :=
        Table.insert_eq_none_iff.mpr htaken
      rw [seqRow] at hnone
      rw [sequenceLeaf_of_taken htaken]
      simp [hnone, List.set_set]
      rfl
    · have htaken' : ¬IndexTaken (db, res).1 tx.treeId (leaf, i).1 := htaken
      obtain ⟨t, hsome, heq⟩ := sequenceLeaf_of_free timestamp htaken'
      rw [seqRow] at hsome
      rw [heq]
      simp only [hsome, Option.isSome_some, if_true, pure, Except.pure, Except.ok.injEq,
        Prod.mk.injEq]
      exact ⟨rfl, rfl⟩
  · exact hexists
  · -- after its `leaf_data` insert, the leaf's identity hash is stored either way
    rw [Table.isSome_get_iff]
    show (dataRow tx.treeId timestamp leaf).key ∈
      ((db.leafData.insert (dataRow tx.treeId timestamp leaf)).getD db.leafData).rows.map
        LeafDataRow.key
    cases hins : db.leafData.insert (dataRow tx.treeId timestamp leaf) with
    | none => exact Table.insert_eq_none_iff.mp hins
    | some t =>
      rw [Option.getD_some, Table.rows_insert hins, List.map_append]
      exact List.mem_append_right _ (List.mem_singleton_self _)

section Fold

variable (treeId timestamp : Int64)

theorem foldl_sequenceLeaf_trees (l : List (LogLeaf × Nat)) (acc : Db × List QueuedLogLeaf) :
    (l.foldl (sequenceLeaf treeId timestamp) acc).1.trees = acc.1.trees := by
  induction l generalizing acc with
  | nil => rfl
  | cons ol l ih => rw [List.foldl_cons, ih, sequenceLeaf_trees]

theorem foldl_sequenceLeaf_length (l : List (LogLeaf × Nat)) (acc : Db × List QueuedLogLeaf) :
    (l.foldl (sequenceLeaf treeId timestamp) acc).2.length = acc.2.length := by
  induction l generalizing acc with
  | nil => rfl
  | cons ol l ih => rw [List.foldl_cons, ih, sequenceLeaf_length]

/-- A position no later leaf has keeps its status. -/
theorem foldl_sequenceLeaf_status_of_not_mem {i : Nat} (l : List (LogLeaf × Nat))
    (hi : i ∉ l.map Prod.snd) (acc : Db × List QueuedLogLeaf) :
    (l.foldl (sequenceLeaf treeId timestamp) acc).2[i]? = acc.2[i]? := by
  induction l generalizing acc with
  | nil => rfl
  | cons ol l ih =>
    rw [List.map_cons, List.mem_cons, not_or] at hi
    rw [List.foldl_cons, ih hi.2, sequenceLeaf_status_ne hi.1]

/-- The `k`th leaf of a batch whose positions are distinct gets its status from the
tables as the leaves before it left them. -/
theorem foldl_sequenceLeaf_status {S : List (LogLeaf × Nat)} {acc : Db × List QueuedLogLeaf}
    (hnodup : (S.map Prod.snd).Nodup) (hlt : ∀ ol ∈ S, ol.2 < acc.2.length) {k : Nat}
    (hk : k < S.length) :
    (S.foldl (sequenceLeaf treeId timestamp) acc).2[S[k].2]? =
      some (if IndexTaken ((S.take k).foldl (sequenceLeaf treeId timestamp) acc).1 treeId S[k].1
        then conflictingLeafIndex else okLeaf) := by
  have hsplit : S.foldl (sequenceLeaf treeId timestamp) acc =
      (S.drop (k + 1)).foldl (sequenceLeaf treeId timestamp)
        (sequenceLeaf treeId timestamp ((S.take k).foldl (sequenceLeaf treeId timestamp) acc) S[k]) := by
    rw [← List.foldl_cons, List.getElem_cons_drop, ← List.foldl_append, List.take_append_drop]
  have hlater : S[k].2 ∉ (S.drop (k + 1)).map Prod.snd := by
    have hnd : ((S.take (k + 1)).map Prod.snd ++ (S.drop (k + 1)).map Prod.snd).Nodup := by
      rwa [← List.map_append, List.take_append_drop]
    have hin : S[k].2 ∈ (S.take (k + 1)).map Prod.snd :=
      List.mem_map_of_mem (List.mem_iff_getElem.mpr ⟨k, by simp; omega, by simp⟩)
    intro hdrop
    exact (List.nodup_append.mp hnd).2.2 _ hin _ hdrop rfl
  have hpos : S[k].2 < ((S.take k).foldl (sequenceLeaf treeId timestamp) acc).2.length := by
    rw [foldl_sequenceLeaf_length]
    exact hlt _ (List.getElem_mem hk)
  rw [hsplit, foldl_sequenceLeaf_status_of_not_mem treeId timestamp _ hlater, sequenceLeaf_status hpos]

/-- A leaf whose index is taken leaves both tables as they were before it. -/
theorem foldl_sequenceLeaf_take_succ {S : List (LogLeaf × Nat)} {acc : Db × List QueuedLogLeaf}
    {k : Nat} (hk : k < S.length)
    (htaken : IndexTaken ((S.take k).foldl (sequenceLeaf treeId timestamp) acc).1 treeId S[k].1) :
    ((S.take (k + 1)).foldl (sequenceLeaf treeId timestamp) acc).1 =
      ((S.take k).foldl (sequenceLeaf treeId timestamp) acc).1 := by
  rw [List.take_add_one, List.getElem?_eq_getElem hk, Option.toList_some, List.foldl_append,
    List.foldl_cons, List.foldl_nil, sequenceLeaf_of_taken htaken]

/-- What the call adds: rows appended to `leaf_data` and to `sequenced_leaf_data`, each
new `leaf_data` row referenced by a new `sequenced_leaf_data` row. -/
def AddedReferenced (db db' : Db) : Prop :=
  ∃ tl ts newData newSeq, db' = { db with leafData := tl, sequencedLeafData := ts } ∧
    tl.rows = db.leafData.rows ++ newData ∧ ts.rows = db.sequencedLeafData.rows ++ newSeq ∧
    ∀ r ∈ newData, ∃ s ∈ newSeq, s.treeId = r.treeId ∧ s.leafIdentityHash = r.leafIdentityHash

theorem addedReferenced_refl (db : Db) : AddedReferenced db db :=
  ⟨db.leafData, db.sequencedLeafData, [], [], rfl, by simp, by simp, by simp⟩

theorem addedReferenced_sequenceLeaf {db : Db} {acc : Db × List QueuedLogLeaf}
    (h : AddedReferenced db acc.1) (ol : LogLeaf × Nat) :
    AddedReferenced db (sequenceLeaf treeId timestamp acc ol).1 := by
  by_cases htaken : IndexTaken acc.1 treeId ol.1
  · rw [sequenceLeaf_of_taken htaken]
    exact h
  obtain ⟨t, hsome, heq⟩ := sequenceLeaf_of_free timestamp htaken
  obtain ⟨tl, ts, newData, newSeq, hdb, htl, hts, href⟩ := h
  rw [heq]
  have hdata : acc.1.leafData.rows = db.leafData.rows ++ newData := by rw [hdb]; exact htl
  have hseq : t.rows = db.sequencedLeafData.rows ++ (newSeq ++ [seqRow treeId ol.1]) := by
    rw [Table.rows_insert hsome, hdb, hts, List.append_assoc]
  have hdb' : ∀ tl' : Table (Int64 × Bytes) LeafDataRow LeafDataRow.key,
      { acc.1 with leafData := tl', sequencedLeafData := t } =
        { db with leafData := tl', sequencedLeafData := t } := by
    intro tl'
    rw [hdb]
  rcases Table.rows_insert_getD acc.1.leafData (dataRow treeId timestamp ol.1) with hsame | hnew
  · refine ⟨(acc.1.leafData.insert (dataRow treeId timestamp ol.1)).getD acc.1.leafData, t, newData,
      newSeq ++ [seqRow treeId ol.1], hdb' _, by rw [hsame, hdata], hseq, fun r hr => ?_⟩
    obtain ⟨s, hs, hst⟩ := href r hr
    exact ⟨s, List.mem_append_left _ hs, hst⟩
  · refine ⟨(acc.1.leafData.insert (dataRow treeId timestamp ol.1)).getD acc.1.leafData, t,
      newData ++ [dataRow treeId timestamp ol.1], newSeq ++ [seqRow treeId ol.1], hdb' _,
      by rw [hnew, hdata, List.append_assoc], hseq, fun r hr => ?_⟩
    rcases List.mem_append.mp hr with hr | hr
    · obtain ⟨s, hs, hst⟩ := href r hr
      exact ⟨s, List.mem_append_left _ hs, hst⟩
    · rw [List.mem_singleton.mp hr]
      exact ⟨seqRow treeId ol.1, List.mem_append_right _ (List.mem_singleton_self _), rfl, rfl⟩

theorem addedReferenced_foldl {db : Db} (l : List (LogLeaf × Nat)) {acc : Db × List QueuedLogLeaf}
    (h : AddedReferenced db acc.1) :
    AddedReferenced db (l.foldl (sequenceLeaf treeId timestamp) acc).1 := by
  induction l generalizing acc with
  | nil => exact h
  | cons ol l ih => exact ih (addedReferenced_sequenceLeaf treeId timestamp h ol)

end Fold

section Batch

variable (leafSort : LeafSort)

/-- The tables and statuses before the `k`th leaf of the batch in the order
`sortLeavesForInsert` gives. -/
def batchState (treeId timestamp : Int64) (db : Db) (leaves : List LogLeaf) (k : Nat) :
    Db × List QueuedLogLeaf :=
  ((sortLeavesForInsert leafSort leaves).take k).foldl (sequenceLeaf treeId timestamp)
    (db, List.replicate leaves.length ⟨none, none⟩)

theorem length_sortLeavesForInsert (leaves : List LogLeaf) :
    (sortLeavesForInsert leafSort leaves).length = leaves.length :=
  (sortLeavesForInsert_perm leafSort leaves).length_eq.trans List.length_zipIdx

theorem addSequencedLeavesTx_eq {tx : LogTreeTx N} {db : Db} {leaves : List LogLeaf}
    {timestamp : Int64} (hexists : db.treeExists tx.treeId = true)
    (hsize : ∀ leaf ∈ leaves, leaf.leafIdentityHash.length = tx.hashSizeBytes) :
    addSequencedLeavesTx leafSort tx db leaves timestamp =
      .ok (batchState leafSort tx.treeId timestamp db leaves leaves.length) := by
  rw [batchState, ← length_sortLeavesForInsert leafSort, List.take_length, addSequencedLeavesTx,
    length_sortLeavesForInsert]
  apply foldlM_eq_ok_foldl_of_invariant (P := fun acc => acc.1.treeExists tx.treeId = true) _ hexists
  intro acc ol hol hP
  refine ⟨addSequencedLeaf_eq hP (hsize _ (mem_sortLeavesForInsert leafSort hol).1), ?_⟩
  simpa [Db.treeExists] using hP

/-- What `postgresLogStorage.AddSequencedLeaves` does with a batch: the leaves go through
in the identity-hash order `sort.Sort` gives them; a leaf is `OK` exactly when its index is
free in the tables the leaves before it left, and otherwise is marked and leaves the tables
as they were; every `leaf_data` row the call adds is referenced by a `sequenced_leaf_data`
row it adds, and an index of the tree names one identity hash. -/
structure SequencedSpec (N : Type) (db : Db) (tree : Tree) (leaves : List LogLeaf)
    (timestamp : Int64) : Prop where
  sorted : (sortLeavesForInsert leafSort leaves).Pairwise
    (fun a b => bytesRank a.1.leafIdentityHash ≤ bytesRank b.1.leafIdentityHash)
  perm : (sortLeavesForInsert leafSort leaves).Perm leaves.zipIdx
  result : addSequencedLeaves (N := N) leafSort db tree leaves timestamp =
    .ok (batchState leafSort tree.treeId timestamp db leaves leaves.length)
  status : ∀ k (hk : k < (sortLeavesForInsert leafSort leaves).length),
    (batchState leafSort tree.treeId timestamp db leaves leaves.length).2[
        (sortLeavesForInsert leafSort leaves)[k].2]? =
      some (if IndexTaken (batchState leafSort tree.treeId timestamp db leaves k).1 tree.treeId
          (sortLeavesForInsert leafSort leaves)[k].1
        then conflictingLeafIndex else okLeaf)
  rolledBack : ∀ k (hk : k < (sortLeavesForInsert leafSort leaves).length),
    IndexTaken (batchState leafSort tree.treeId timestamp db leaves k).1 tree.treeId
        (sortLeavesForInsert leafSort leaves)[k].1 →
      (batchState leafSort tree.treeId timestamp db leaves (k + 1)).1 =
        (batchState leafSort tree.treeId timestamp db leaves k).1
  referenced : AddedReferenced db (batchState leafSort tree.treeId timestamp db leaves leaves.length).1
  indexUnique :
    ∀ s ∈ (batchState leafSort tree.treeId timestamp db leaves leaves.length).1.sequencedLeafData.rows,
      ∀ s' ∈ (batchState leafSort tree.treeId timestamp db leaves leaves.length).1.sequencedLeafData.rows,
        s.treeId = s'.treeId → s.sequenceNumber = s'.sequenceNumber →
          s.leafIdentityHash = s'.leafIdentityHash

/-- On a tree with a root, every batch of leaves whose identity hashes have the hasher's size
is sequenced as `SequencedSpec` says, in whichever identity-hash order the sort chose. -/
theorem addSequencedLeaves_spec {db : Db} {tree : Tree} {leaves : List LogLeaf}
    {timestamp : Int64} {root : LogRootV1} (hroot : fetchLatestRoot db tree.treeId = .ok root)
    (hsize : ∀ leaf ∈ leaves, leaf.leafIdentityHash.length = hashSize) :
    SequencedSpec leafSort N db tree leaves timestamp := by
  have hfull : batchState leafSort tree.treeId timestamp db leaves leaves.length =
      (sortLeavesForInsert leafSort leaves).foldl (sequenceLeaf tree.treeId timestamp)
        (db, List.replicate leaves.length ⟨none, none⟩) := by
    rw [batchState, ← length_sortLeavesForInsert leafSort, List.take_length]
  have hexists : db.treeExists tree.treeId = true := by
    obtain ⟨row, hrow, -⟩ := fetchLatestRoot_eq_ok_iff.mp hroot
    simp [Db.treeExists, hrow]
  refine ⟨sortLeavesForInsert_sorted leafSort leaves, sortLeavesForInsert_perm leafSort leaves, ?_,
    fun k hk => ?_, fun k hk => foldl_sequenceLeaf_take_succ tree.treeId timestamp hk, ?_, ?_⟩
  · unfold addSequencedLeaves beginInternal
    rw [hroot]
    exact addSequencedLeavesTx_eq leafSort hexists hsize
  · rw [hfull]
    refine foldl_sequenceLeaf_status tree.treeId timestamp
      (sortLeavesForInsert_positions_nodup leafSort leaves) (fun ol hol => ?_) hk
    simpa using (mem_sortLeavesForInsert leafSort hol).2
  · exact addedReferenced_foldl tree.treeId timestamp _ (addedReferenced_refl db)
  · -- the primary key `(tree_id, sequence_number)` makes the rows one
    intro s hs s' hs' htree hseq
    have hkey : s.key = s'.key := by simp [SequencedLeafDataRow.key, htree, hseq]
    rw [Table.eq_of_key_eq hs hs' hkey]

end Batch

open Vct.Storage.LeafQueue

/-- Leaves 1 and 2 on the preordered tree 2, which has a root. -/
theorem addSequencedLeaves_spec_lastIndexDb :
    fetchLatestRoot lastIndexDb preorderedTree₂.treeId = .ok ⟨1, [], 0, 0, []⟩ ∧
      (∀ leaf ∈ [leafOf 1, leafOf 2], leaf.leafIdentityHash.length = hashSize) ∧
      SequencedSpec stableLeafSort Unit lastIndexDb preorderedTree₂ [leafOf 1, leafOf 2] 5 :=
  have hroot : fetchLatestRoot lastIndexDb preorderedTree₂.treeId = .ok ⟨1, [], 0, 0, []⟩ := rfl
  have hsize : ∀ leaf ∈ [leafOf 1, leafOf 2], leaf.leafIdentityHash.length = hashSize := by
    decide
  ⟨hroot, hsize, addSequencedLeaves_spec stableLeafSort hroot hsize⟩

theorem addSequencedLeaves_of_fetchLatestRoot_error (leafSort : LeafSort) {db : Db} {tree : Tree}
    {leaves : List LogLeaf} {timestamp : Int64} {err : GoError}
    (h : fetchLatestRoot db tree.treeId = .error err) :
    addSequencedLeaves (N := N) leafSort db tree leaves timestamp = .error err := by
  unfold addSequencedLeaves beginInternal
  rw [h]
  rfl

/-- The preordered tree 2 before its first root is stored. -/
def noRootDb : Db :=
  { Db.empty with
    trees := ⟨[⟨2, .active, .preorderedLog, [], [], 0, 0, 0, false, none, none⟩],
      List.nodup_singleton _⟩ }

/-- A preordered tree without a root sequences nothing: the call fails with
`ErrTreeNeedsInit` before its first leaf. On one leaf every sort agrees with the stable one. -/
theorem addSequencedLeaves_without_root :
    addSequencedLeaves (N := Unit) stableLeafSort noRootDb preorderedTree₂ [leafOf 1] 5 =
      .error errTreeNeedsInit :=
  addSequencedLeaves_of_fetchLatestRoot_error stableLeafSort rfl

end Vct.Storage.AddSequenced
