import Mathlib.Data.List.Perm.Subperm
import Vct.Storage.LeafQueue

namespace Vct.Storage.LeafEntries

open Vct.Lib.Sql
open Vct.Lib.Except
open Vct.Lib.Interleaving
open Vct.Controller.Errors
open Vct.Trillian.Types
open Vct.Storage.Schema
open Vct.Storage.TreeStorage
open Vct.Storage.LogStorage
open Vct.Storage.LogSystem
open Vct.Storage.LeafQueue

variable {N : Type}

def sequencedKeys (db : Db) : List (Int64 × Bytes) :=
  db.sequencedLeafData.rows.map fun r => (r.treeId, r.leafIdentityHash)

/-- No leaf is queued twice, sequenced twice, or both; each has its `leaf_data` row. -/
structure EntryInv (db : Db) : Prop where
  nodup : (unsequencedKeys db ++ sequencedKeys db).Nodup
  leafData : ∀ k ∈ unsequencedKeys db ++ sequencedKeys db, k ∈ db.leafData.rows.map LeafDataRow.key

instance (db : Db) : Decidable (EntryInv db) :=
  decidable_of_iff
    ((unsequencedKeys db ++ sequencedKeys db).Nodup ∧
      ∀ k ∈ unsequencedKeys db ++ sequencedKeys db, k ∈ db.leafData.rows.map LeafDataRow.key)
    ⟨fun ⟨h₁, h₂⟩ => ⟨h₁, h₂⟩, fun h => ⟨h.1, h.2⟩⟩

/-- Every sequenced leaf was returned by a committed `DequeueLeaves`, and each return
sequenced it once at most. -/
structure SeqInv (s : LogState N) : Prop where
  subperm : (sequencedKeys s.db).Subperm s.dequeued

section Invariant

theorem seqInv_of_empty {s : LogState N} (hseq : s.db.sequencedLeafData.rows = []) : SeqInv s :=
  ⟨by simp [sequencedKeys, hseq]⟩

theorem entryInv_of_inv {s : LogState N} (hq : QueueInv s) (hs : SeqInv s) : EntryInv s.db := by
  obtain ⟨l, hperm, hsub⟩ := (List.Subperm.refl (unsequencedKeys s.db)).append hs.subperm
  refine ⟨hperm.nodup_iff.mp (hq.nodup.sublist hsub), fun k hk => hq.entered_leafData k ?_⟩
  rcases List.mem_append.mp hk with hk | hk
  · exact hq.entered_perm.symm.subset (List.mem_append_left _ hk)
  · exact hq.mem_entered_of_dequeued (hs.subperm.subset hk)

theorem EntryInv.of_queueGrowth {db db' : Db} (h : EntryInv db) (hg : QueueGrowth db db') :
    EntryInv db' := by
  obtain ⟨tl, tu, fresh, queued, rfl, hl, hu, hsub, -⟩ := hg
  have hkeys := tl.keys_nodup
  rw [hl, List.map_append, List.nodup_append] at hkeys
  obtain ⟨-, hfresh, hdisj⟩ := hkeys
  have hunseq : unsequencedKeys { db with leafData := tl, unsequenced := tu } =
      unsequencedKeys db ++ queued.map UnsequencedRow.leafKey := by
    simp only [unsequencedKeys, hu, List.map_append]
  have hseq : sequencedKeys { db with leafData := tl, unsequenced := tu } = sequencedKeys db := rfl
  have hnew : ∀ k ∈ queued.map UnsequencedRow.leafKey,
      k ∉ unsequencedKeys db ++ sequencedKeys db :=
    fun k hk hold => hdisj k (h.leafData k hold) k (hsub.subset hk) rfl
  refine ⟨?_, fun k hk => ?_⟩
  · rw [hunseq, hseq, List.append_assoc]
    refine (List.perm_append_comm.append_left _).nodup_iff.mp ?_
    rw [← List.append_assoc]
    exact List.nodup_append.mpr ⟨h.nodup, hfresh.sublist hsub,
      fun a ha b hb hab => hnew b hb (hab ▸ ha)⟩
  · rw [hunseq, hseq] at hk
    show k ∈ tl.rows.map LeafDataRow.key
    rw [hl, List.map_append]
    rcases List.mem_append.mp hk with hk | hk
    · rcases List.mem_append.mp hk with hk | hk
      · exact List.mem_append_left _ (h.leafData k (List.mem_append_left _ hk))
      · exact List.mem_append_right _ (hsub.subset hk)
    · exact List.mem_append_left _ (h.leafData k (List.mem_append_right _ hk))

variable (marshal : SubtreeProto N → Except GoError Bytes) (leafSort : LeafSort)

theorem seqInv_step (e : LogTx N) (he : e.SequencesQueued) {s : LogState N} (hs : SeqInv s) :
    SeqInv (logStep marshal leafSort e s) := by
  cases e with
  | queueLeaves tree leaves queueTimestamp =>
      dsimp only [logStep]
      split
      · rename_i db queued hq
        obtain ⟨tl, tu, -, -, rfl, -⟩ := queueLeaves_growth hq
        exact ⟨hs.subperm⟩
      · exact hs
  | integrate tree limit cutoff firstIndex integrateTimestamp subtrees newRoot =>
      dsimp only [logStep]
      split
      · rename_i db sequenced hi
        obtain ⟨leaves, u, q, -, -, rfl, hupd, -, -, hseq, -⟩ := integrate_eq_ok marshal hi
        obtain ⟨fresh, hrows, hsub⟩ := updateSequencedLeaves_append hupd
        rw [beginInternal_treeId] at hsub
        dsimp only at hrows
        refine ⟨?_⟩
        dsimp only
        rw [sequencedKeys, hseq, hrows, List.map_append]
        exact hs.subperm.append hsub.subperm
      · exact hs
  | addSequencedLeaves tree leaves timestamp => exact he.elim
  | storeRoot tree logRoot =>
      dsimp only [logStep]
      split
      · rename_i db hr
        obtain ⟨th, rfl⟩ := storeSignedLogRoot_eq_ok hr
        exact ⟨hs.subperm⟩
      · exact hs

/-- Over every run whose leaves are all sequenced out of the queue, no leaf is queued or
sequenced twice, or both. -/
theorem entryInv_run (events : List (LogTx N)) (hevents : ∀ e ∈ events, e.SequencesQueued)
    {s : LogState N} (hq : QueueInv s) (hs : SeqInv s) :
    EntryInv (run (logStep marshal leafSort) events s).db := by
  have hinv := run_invariant_of_forall (P := fun s => QueueInv s ∧ SeqInv s)
    (fun e _ he hs => ⟨queueInv_step marshal leafSort e he.fromQueue hs.1,
      seqInv_step marshal leafSort e he hs.2⟩)
    events hevents s ⟨hq, hs⟩
  exact entryInv_of_inv hinv.1 hinv.2

end Invariant

section QueueOne

theorem selectLeavesByLeafIdentityHash_stored {db : Db} {treeId : Int64} {hash : Bytes}
    {row : LeafDataRow} (hrow : db.leafData.get (treeId, hash) = some row)
    (hseq : (db.sequencedLeafData.rows.filter fun s =>
      decide ((s.treeId, s.leafIdentityHash) = (treeId, hash))).length ≤ 1) :
    ∃ l, selectLeavesByLeafIdentityHash db treeId [hash] = [l] ∧ l.leafValue = row.leafValue ∧
      l.leafIdentityHash = hash ∧ l.merkleLeafHash = dummymerkleLeafHash := by
  obtain ⟨-, hkey⟩ := Table.get_eq_some_iff.mp hrow
  obtain ⟨htree, hhash⟩ : row.treeId = treeId ∧ row.leafIdentityHash = hash := by
    simpa [LeafDataRow.key] using hkey
  have hfilter : (db.leafData.rows.filter fun l =>
      decide ([hash].contains l.leafIdentityHash ∧ l.treeId = treeId)) = [row] := by
    rw [List.filter_congr (q := fun l => decide (LeafDataRow.key l = (treeId, hash)))
      (fun l _ => by simp [LeafDataRow.key, and_comm]), Table.filter_key_eq, hrow]
    rfl
  have hjoin : (db.sequencedLeafData.rows.filter fun s =>
      decide (s.leafIdentityHash = row.leafIdentityHash ∧ s.treeId = row.treeId)).length ≤ 1 := by
    rw [List.filter_congr (q := fun s => decide ((s.treeId, s.leafIdentityHash) = (treeId, hash)))
      (fun s _ => by simp [htree, hhash, and_comm])]
    exact hseq
  unfold selectLeavesByLeafIdentityHash
  rw [hfilter, List.flatMap_singleton]
  dsimp only
  generalize (db.sequencedLeafData.rows.filter fun s =>
    decide (s.leafIdentityHash = row.leafIdentityHash ∧ s.treeId = row.treeId)) = ss at hjoin
  match ss, hjoin with
  | [], _ => exact ⟨_, rfl, rfl, hhash, rfl⟩
  | [_], _ => exact ⟨_, rfl, rfl, hhash, rfl⟩

theorem getLeafDataByIdentityHash_stored {tx : LogTreeTx N} {db : Db} {hash : Bytes}
    {row : LeafDataRow} (hsize : tx.hashSizeBytes = hashSize)
    (hrow : db.leafData.get (tx.treeId, hash) = some row)
    (hseq : (db.sequencedLeafData.rows.filter fun s =>
      decide ((s.treeId, s.leafIdentityHash) = (tx.treeId, hash))).length ≤ 1) :
    ∃ l, getLeafDataByIdentityHash tx db [hash] = .ok [l] ∧ l.leafValue = row.leafValue ∧
      l.leafIdentityHash = hash := by
  obtain ⟨l, hsel, hvalue, hhash, hmerkle⟩ := selectLeavesByLeafIdentityHash_stored hrow hseq
  refine ⟨l, ?_, hvalue, hhash⟩
  unfold getLeafDataByIdentityHash
  rw [if_neg (by simp), hsel, List.mapM_cons, List.mapM_nil]
  have hlen : l.merkleLeafHash.length = tx.hashSizeBytes := by
    rw [hmerkle, hsize]
    rfl
  simp [hlen]

theorem queueLeavesTx_single_eq_ok {leafSort : LeafSort} {tx : LogTreeTx N} {db db' : Db}
    {leaf : LogLeaf} {ts : Int64} {existing : List (Option LogLeaf)}
    (h : queueLeavesTx leafSort tx db [leaf] ts = .ok (db', existing)) :
    ∃ row ∈ db'.leafData.rows, row.key = (tx.treeId, leaf.leafIdentityHash) ∧
      ((existing = [none] ∧ row.leafValue = leaf.leafValue) ∨
        ∃ l, existing = [some l] ∧ row.leafValue = l.leafValue) := by
  obtain ⟨existing₁, hfold, hend⟩ := queueLeavesTx_eq_ok h
  simp only [List.map_cons, List.map_nil, sortLeavesForInsert_singleton, List.foldlM_cons, List.foldlM_nil, bind_pure,
    List.length_singleton, List.replicate_one] at hfold
  unfold queueLeaf at hfold
  rw [bind_eq_ok_iff] at hfold
  obtain ⟨⟨dbA, resultData⟩, hins, hfold⟩ := hfold
  obtain ⟨t, rfl, ht⟩ := insertLeafData_eq_ok (mapError_eq_ok_iff.mp hins)
  rcases ht with ⟨hnone, rfl, rfl⟩ | ⟨hsome, rfl, -⟩
  · -- a duplicate: the stored leaf is looked up by its hash
    simp only [Bool.not_false, if_true, pure_eq_ok_iff, Prod.mk.injEq] at hfold
    obtain ⟨rfl, rfl⟩ := hfold
    simp only [List.set_cons_zero, List.all_cons, Option.isNone_some, Bool.false_and,
      List.filterMap_cons, Option.map_some, List.filterMap_nil] at hend
    rcases hend with ⟨hall, -⟩ | ⟨-, results, hresults, -, hfind⟩
    · cases hall
    have hsel := getLeafDataByIdentityHash_eq_ok hresults
    rw [List.mapM_cons, List.mapM_nil, bind_eq_ok_iff] at hfind
    obtain ⟨e, he, hfind⟩ := hfind
    simp only [bind_eq_ok_iff, pure_eq_ok_iff] at hfind
    simp only [findExisting] at he
    split at he
    · rename_i l hl
      cases he
      have hmem := List.mem_of_find?_eq_some hl
      rw [hsel] at hmem
      obtain ⟨row, hrow, hhash, htree, -, hvalue⟩ := mem_selectLeavesByLeafIdentityHash hmem
      refine ⟨row, hrow, ?_, Or.inr ⟨l, ?_, hvalue.symm⟩⟩
      · simp only [LeafDataRow.key, htree, List.mem_singleton.mp hhash]
      · obtain ⟨_, rfl, rfl⟩ := hfind
        rfl
    · cases he
  · -- a new leaf: its row goes in, and its answer is empty
    simp only [Bool.not_true, Bool.false_eq_true, if_false, bind_eq_ok_iff] at hfold
    obtain ⟨⟨dbB, _⟩, hunseq, hfold⟩ := hfold
    rw [pure_eq_ok_iff, Prod.mk.injEq] at hfold
    obtain ⟨rfl, rfl⟩ := hfold
    obtain ⟨tu, rfl, -⟩ := insertUnsequencedEntry_eq_ok (mapError_eq_ok_iff.mp hunseq)
    rcases hend with ⟨-, rfl⟩ | ⟨hall, -⟩
    · refine ⟨⟨tx.treeId, leaf.leafIdentityHash, leaf.leafValue, leaf.extraData, ts⟩, ?_, rfl,
        Or.inl ⟨rfl, rfl⟩⟩
      rw [Table.rows_insert hsome]
      exact List.mem_append_right _ (List.mem_singleton_self _)
    · cases hall

theorem queueLeavesTx_single_stored (leafSort : LeafSort) {tx : LogTreeTx N} {db : Db}
    {row : LeafDataRow} (leaf : LogLeaf) (ts : Int64) (hsize : leaf.leafIdentityHash.length = hashSize)
    (htx : tx.hashSizeBytes = hashSize)
    (hrow : db.leafData.get (tx.treeId, leaf.leafIdentityHash) = some row)
    (hseq : (db.sequencedLeafData.rows.filter fun s =>
      decide ((s.treeId, s.leafIdentityHash) = (tx.treeId, leaf.leafIdentityHash))).length ≤ 1) :
    ∃ l, queueLeavesTx leafSort tx db [leaf] ts = .ok (db, [some l]) ∧ l.leafValue = row.leafValue := by
  obtain ⟨l, hget, hvalue, hhash⟩ := getLeafDataByIdentityHash_stored htx hrow hseq
  obtain ⟨hmem, hkey⟩ := Table.get_eq_some_iff.mp hrow
  have hins : insertLeafData db
      ⟨tx.treeId, leaf.leafIdentityHash, leaf.leafValue, leaf.extraData, ts⟩ = .ok (db, false) :=
    insertLeafData_of_mem (by
      show (tx.treeId, leaf.leafIdentityHash) ∈ _
      rw [← hkey]
      exact List.mem_map_of_mem hmem)
  refine ⟨l, ?_, hvalue⟩
  unfold queueLeavesTx
  simp [hsize, htx, sortLeavesForInsert_singleton, queueLeaf, hins, hget, findExisting, hhash]

theorem queueLeaves_single_eq_ok {leafSort : LeafSort} {db db' : Db} {tree : Tree} {leaf : LogLeaf}
    {ts : Int64} {queued : List QueuedLogLeaf}
    (h : queueLeaves (N := N) leafSort db tree [leaf] ts = .ok (db', queued)) :
    (beginInternal (N := N) db tree).2 = none ∧ ∃ q l, queued = [q] ∧ q.leaf = some l ∧
      ∃ row ∈ db'.leafData.rows, row.key = (tree.treeId, leaf.leafIdentityHash) ∧
        row.leafValue = l.leafValue := by
  unfold queueLeaves at h
  rcases hbegin : beginInternal (N := N) db tree with ⟨tx, _ | err⟩ <;> simp only [hbegin] at h
  · rw [bind_eq_ok_iff] at h
    obtain ⟨⟨db₁, existing⟩, htx, h⟩ := h
    rw [pure_eq_ok_iff, Prod.mk.injEq] at h
    obtain ⟨rfl, rfl⟩ := h
    have htree : tx.treeId = tree.treeId := by
      rw [← beginInternal_treeId (N := N) db tree, hbegin]
    obtain ⟨row, hrow, hkey, hcase⟩ := queueLeavesTx_single_eq_ok htx
    rw [htree] at hkey
    refine ⟨rfl, ?_⟩
    rcases hcase with ⟨rfl, hvalue⟩ | ⟨l, rfl, hvalue⟩
    · exact ⟨_, _, rfl, rfl, row, hrow, hkey, hvalue⟩
    · exact ⟨_, _, rfl, rfl, row, hrow, hkey, hvalue⟩
  · simp at h

theorem queueLeaves_single_stored (leafSort : LeafSort) {db : Db} {tree : Tree} {row : LeafDataRow}
    (leaf : LogLeaf)
    (ts : Int64) (hbegin : (beginInternal (N := N) db tree).2 = none)
    (hsize : leaf.leafIdentityHash.length = hashSize)
    (hrow : db.leafData.get (tree.treeId, leaf.leafIdentityHash) = some row)
    (hseq : (db.sequencedLeafData.rows.filter fun s =>
      decide ((s.treeId, s.leafIdentityHash) = (tree.treeId, leaf.leafIdentityHash))).length ≤ 1) :
    ∃ q l, queueLeaves (N := N) leafSort db tree [leaf] ts = .ok (db, [q]) ∧ q.leaf = some l ∧
      l.leafValue = row.leafValue := by
  rcases hb : beginInternal (N := N) db tree with ⟨tx, err?⟩
  rw [hb] at hbegin
  subst hbegin
  have htree : tx.treeId = tree.treeId := by
    rw [← beginInternal_treeId (N := N) db tree, hb]
  have htx : tx.hashSizeBytes = hashSize := by
    rw [← beginInternal_hashSizeBytes (N := N) db tree, hb]
  rw [← htree] at hrow hseq
  obtain ⟨l, hq, hvalue⟩ := queueLeavesTx_single_stored leafSort leaf ts hsize htx hrow hseq
  refine ⟨⟨some l, some (.grpc .alreadyExists "leaf already exists: %v" [.bytes l.leafIdentityHash])⟩,
    l, ?_, rfl, hvalue⟩
  unfold queueLeaves
  simp only [hb, hq, bind_pure_comp]
  rfl

end QueueOne

end Vct.Storage.LeafEntries
