import Vct.Storage.LogSystem

namespace Vct.Storage.LeafQueue

open Vct.Lib.Sql
open Vct.Lib.Except
open Vct.Lib.Int64
open Vct.Lib.Interleaving
open Vct.Controller.Errors
open Vct.Trillian.Types
open Vct.Storage.Schema
open Vct.Storage.TreeStorage
open Vct.Storage.LogStorage
open Vct.Storage.LogSystem

variable {N : Type}

section Dequeue

theorem eq_of_queueRank_eq {db : Db} {treeId cutoff : Int64} {r r' : UnsequencedRow}
    (hr : r ∈ db.unsequenced.rows) (hr' : r' ∈ db.unsequenced.rows)
    (he : Eligible treeId cutoff r) (he' : Eligible treeId cutoff r')
    (hrank : queueRank r = queueRank r') : r = r' := by
  obtain ⟨hts, hhash⟩ := Prod.mk.inj (toLex_inj.mp hrank)
  refine Table.eq_of_key_eq hr hr' ?_
  simp only [UnsequencedRow.key, he.1, he'.1, he.2.1, he'.2.1, Int64.toInt_inj.mp hts,
    bytesRank_injective hhash]

theorem limit_nonneg_of_dequeueLeaves {tx : LogTreeTx N} {db db' : Db} {limit cutoff : Int64}
    {leaves : List LogLeaf} (htype : tx.treeType ≠ .preorderedLog)
    (h : dequeueLeaves tx db limit cutoff = .ok (db', leaves)) : 0 ≤ limit.toInt := by
  unfold dequeueLeaves at h
  rw [if_neg htype] at h
  split at h
  · cases h
  · rename_i hslice
    have hok : makeSliceOk 32 limit.toInt = true := by simpa using hslice
    exact (of_decide_eq_true hok).1

/-- A `DequeueLeaves` of a log that is not preordered returns the first `limit` eligible
entries in `(queue_timestamp_nanos, leaf_identity_hash)` order, or all of them if there
are fewer, and deletes exactly those. -/
theorem dequeueLeaves_spec {tx : LogTreeTx N} {db db' : Db} {limit cutoff : Int64}
    {leaves : List LogLeaf} (htype : tx.treeType ≠ .preorderedLog)
    (h : dequeueLeaves tx db limit cutoff = .ok (db', leaves)) :
    ∃ rows : List UnsequencedRow, leaves = rows.map (fun r => (dequeueLeaf r).1) ∧ 0 ≤ limit.toInt ∧
      rows.length = min limit.toInt.toNat
        (db.unsequenced.rows.filter (Eligible tx.treeId cutoff ·)).length ∧
      (∀ r ∈ rows, r ∈ db.unsequenced.rows ∧ Eligible tx.treeId cutoff r) ∧
      rows.Pairwise (fun a b => queueRank a < queueRank b) ∧
      (∀ r ∈ db.unsequenced.rows, Eligible tx.treeId cutoff r → r ∉ rows →
        ∀ a ∈ rows, queueRank a < queueRank r) ∧
      db' = { db with unsequenced := db.unsequenced.delete (fun u => decide (u ∈ rows)) } := by
  obtain ⟨hleaves, hdb⟩ := dequeueLeaves_eq_ok htype h
  have hmem : ∀ r ∈ selectQueuedLeaves db tx.treeId cutoff limit.toInt.toNat,
      r ∈ db.unsequenced.rows ∧ Eligible tx.treeId cutoff r := fun r hr => mem_selectQueuedLeaves hr
  refine ⟨_, hleaves, limit_nonneg_of_dequeueLeaves htype h, length_orderByLimit _ _ _, hmem, ?_,
    ?_, hdb⟩
  · -- sorted by rank, and no two eligible entries share one
    refine ((orderByLimit_pairwise queueRank _ _).and
      (selectQueuedLeaves_nodup db tx.treeId cutoff _)).imp_of_mem ?_
    rintro a b ha hb ⟨hle, hne⟩
    exact lt_of_le_of_ne hle fun heq =>
      hne (eq_of_queueRank_eq (hmem a ha).1 (hmem b hb).1 (hmem a ha).2 (hmem b hb).2 heq)
  · intro r hr he hnot a ha
    have hle : queueRank a ≤ queueRank r :=
      rank_le_of_not_mem_orderByLimit ha (List.mem_filter.mpr ⟨hr, decide_eq_true he⟩) hnot
    refine lt_of_le_of_ne hle fun heq => hnot ?_
    rw [← eq_of_queueRank_eq (hmem a ha).1 hr (hmem a ha).2 he heq]
    exact ha

end Dequeue

section Invariant

def unsequencedKeys (db : Db) : List (Int64 × Bytes) :=
  db.unsequenced.rows.map UnsequencedRow.leafKey

/-- What the committed transactions did to the queue: no leaf was queued twice, each queued
leaf is still queued or was returned by a `DequeueLeaves`, not both and not twice, and
each has its `leaf_data` row. -/
structure QueueInv (s : LogState N) : Prop where
  entered_nodup : s.entered.Nodup
  entered_perm : s.entered.Perm (unsequencedKeys s.db ++ s.dequeued)
  entered_leafData : ∀ k ∈ s.entered, k ∈ s.db.leafData.rows.map LeafDataRow.key

theorem QueueInv.nodup {s : LogState N} (hs : QueueInv s) :
    (unsequencedKeys s.db ++ s.dequeued).Nodup :=
  hs.entered_perm.nodup_iff.mp hs.entered_nodup

theorem QueueInv.dequeued_nodup {s : LogState N} (hs : QueueInv s) : s.dequeued.Nodup :=
  (List.nodup_append.mp hs.nodup).2.1

theorem QueueInv.mem_entered_of_dequeued {s : LogState N} (hs : QueueInv s) {k : Int64 × Bytes}
    (hk : k ∈ s.dequeued) : k ∈ s.entered :=
  hs.entered_perm.symm.subset (List.mem_append_right _ hk)

theorem QueueInv.not_queued_of_dequeued {s : LogState N} (hs : QueueInv s) {k : Int64 × Bytes}
    (hk : k ∈ s.dequeued) : k ∉ unsequencedKeys s.db :=
  fun hq => (List.nodup_append.mp hs.nodup).2.2 k hq k hk rfl

theorem QueueInv.queued_or_dequeued {s : LogState N} (hs : QueueInv s) {k : Int64 × Bytes}
    (hk : k ∈ s.entered) : k ∈ unsequencedKeys s.db ∨ k ∈ s.dequeued :=
  List.mem_append.mp (hs.entered_perm.subset hk)

theorem queueInv_of_empty {s : LogState N} (hu : s.db.unsequenced.rows = [])
    (hentered : s.entered = []) (hdequeued : s.dequeued = []) : QueueInv s :=
  ⟨by simp [hentered], by simp [unsequencedKeys, hu, hentered, hdequeued], by simp [hentered]⟩

theorem queueInv_queue {s s' : LogState N} (hg : QueueGrowth s.db s'.db)
    (hentered : s'.entered = s.entered ++
      (s'.db.unsequenced.rows.drop s.db.unsequenced.rows.length).map UnsequencedRow.leafKey)
    (hdequeued : s'.dequeued = s.dequeued) (hs : QueueInv s) : QueueInv s' := by
  obtain ⟨tl, tu, fresh, queued, hdb, hl, hu, hsub, -⟩ := hg
  have hl' : s'.db.leafData.rows = s.db.leafData.rows ++ fresh := by rw [hdb]; exact hl
  have hu' : s'.db.unsequenced.rows = s.db.unsequenced.rows ++ queued := by rw [hdb]; exact hu
  have hentered' : s'.entered = s.entered ++ queued.map UnsequencedRow.leafKey := by
    rw [hentered, hu', List.drop_left]
  have hkeys := s'.db.leafData.keys_nodup
  rw [hl', List.map_append, List.nodup_append] at hkeys
  obtain ⟨-, hfresh, hdisj⟩ := hkeys
  have hnew : ∀ k ∈ queued.map UnsequencedRow.leafKey, k ∉ s.db.leafData.rows.map LeafDataRow.key :=
    fun k hk hold => hdisj k hold k (hsub.subset hk) rfl
  refine ⟨?_, ?_, ?_⟩
  · rw [hentered']
    exact List.nodup_append.mpr ⟨hs.entered_nodup, hfresh.sublist hsub,
      fun a ha b hb hab => hnew b hb (hab ▸ hs.entered_leafData a ha)⟩
  · have hunseq : unsequencedKeys s'.db =
        unsequencedKeys s.db ++ queued.map UnsequencedRow.leafKey := by
      simp only [unsequencedKeys, hu', List.map_append]
    rw [hentered', hdequeued, hunseq]
    refine (hs.entered_perm.append_right _).trans ?_
    rw [List.append_assoc, List.append_assoc]
    exact List.perm_append_comm.append_left _
  · intro k hk
    rw [hl', List.map_append]
    rw [hentered', List.mem_append] at hk
    rcases hk with hk | hk
    · exact List.mem_append_left _ (hs.entered_leafData k hk)
    · exact List.mem_append_right _ (hsub.subset hk)

theorem queueInv_of_frame {s s' : LogState N} (hentered : s'.entered = s.entered)
    (hdequeued : s'.dequeued = s.dequeued) (hunseq : s'.db.unsequenced = s.db.unsequenced)
    (hleafData : ∀ k ∈ s.db.leafData.rows.map LeafDataRow.key,
      k ∈ s'.db.leafData.rows.map LeafDataRow.key)
    (hs : QueueInv s) : QueueInv s' := by
  refine ⟨hentered ▸ hs.entered_nodup, ?_, fun k hk => hleafData k (hs.entered_leafData k ?_)⟩
  · rw [hentered, hdequeued, unsequencedKeys, hunseq]
    exact hs.entered_perm
  · rwa [hentered] at hk

theorem queueInv_dequeue {s s' : LogState N} {sel : List UnsequencedRow}
    (hsel : ∀ r ∈ sel, r ∈ s.db.unsequenced.rows) (hnodup : sel.Nodup)
    (hleafData : s'.db.leafData = s.db.leafData)
    (hunseq : s'.db.unsequenced = s.db.unsequenced.delete (fun u => decide (u ∈ sel)))
    (hentered : s'.entered = s.entered)
    (hdequeued : s'.dequeued = s.dequeued ++ sel.map UnsequencedRow.leafKey)
    (hs : QueueInv s) : QueueInv s' := by
  have hsplit : (unsequencedKeys s.db).Perm
      (unsequencedKeys s'.db ++ sel.map UnsequencedRow.leafKey) := by
    have hrowsNodup : s.db.unsequenced.rows.Nodup := s.db.unsequenced.keys_nodup.of_map _
    have htaken : (s.db.unsequenced.rows.filter fun u => decide (u ∈ sel)).Perm sel :=
      (List.perm_ext_iff_of_nodup (hrowsNodup.filter _) hnodup).mpr fun u =>
        ⟨fun hu => of_decide_eq_true (List.mem_filter.mp hu).2,
          fun hu => List.mem_filter.mpr ⟨hsel u hu, decide_eq_true hu⟩⟩
    have hrows : s'.db.unsequenced.rows =
        s.db.unsequenced.rows.filter fun u => !decide (u ∈ sel) := by
      rw [hunseq]
      rfl
    rw [unsequencedKeys, unsequencedKeys, hrows, ← List.map_append]
    exact (((List.filter_append_perm _ _).symm.trans List.perm_append_comm).trans
      (htaken.append_left _)).map _
  refine ⟨hentered ▸ hs.entered_nodup, ?_, ?_⟩
  · rw [hentered, hdequeued]
    refine hs.entered_perm.trans ((hsplit.append_right _).trans ?_)
    rw [List.append_assoc]
    exact List.perm_append_comm.append_left _
  · rw [hentered, hleafData]
    exact hs.entered_leafData

theorem dequeuedKeys_eq {treeId firstIndex integrateTimestamp : Int64}
    {rows : List UnsequencedRow} (htree : ∀ r ∈ rows, r.treeId = treeId) :
    (assignIndices firstIndex integrateTimestamp (rows.map fun r => (dequeueLeaf r).1)).map
      (fun leaf => (treeId, leaf.leafIdentityHash)) = rows.map UnsequencedRow.leafKey := by
  have hcomp : (fun leaf : LogLeaf => (treeId, leaf.leafIdentityHash)) =
      Prod.mk treeId ∘ (·.leafIdentityHash) := rfl
  rw [hcomp, ← List.map_map, map_leafIdentityHash_assignIndices, List.map_map, List.map_map]
  exact List.map_congr_left fun r hr => by
    simp [dequeueLeaf, UnsequencedRow.leafKey, htree r hr]

variable (marshal : SubtreeProto N → Except GoError Bytes) (leafSort : LeafSort)

theorem queueInv_step (e : LogTx N) (he : e.FromQueue) {s : LogState N}
    (hs : QueueInv s) : QueueInv (logStep marshal leafSort e s) := by
  cases e with
  | queueLeaves tree leaves queueTimestamp =>
      dsimp only [logStep]
      split
      · rename_i db queued hq
        exact queueInv_queue (queueLeaves_growth hq) rfl rfl hs
      · exact hs
  | integrate tree limit cutoff firstIndex integrateTimestamp subtrees newRoot =>
      dsimp only [logStep]
      split
      · rename_i db sequenced hi
        obtain ⟨leaves, u, -, -, hdeq, rfl, -, hleafData, hunseq, -⟩ := integrate_eq_ok marshal hi
        have htype : (beginInternal (N := N) s.db tree).1.treeType ≠ .preorderedLog := by
          rwa [beginInternal_treeType]
        obtain ⟨hleaves, hdb⟩ := dequeueLeaves_eq_ok htype hdeq
        rw [beginInternal_treeId] at hleaves hdb
        have hsel : ∀ r ∈ selectQueuedLeaves s.db tree.treeId cutoff limit.toInt.toNat,
            r ∈ s.db.unsequenced.rows ∧ r.treeId = tree.treeId := fun r hr =>
          ⟨(mem_selectQueuedLeaves hr).1, (mem_selectQueuedLeaves hr).2.1⟩
        refine queueInv_dequeue (fun r hr => (hsel r hr).1) (selectQueuedLeaves_nodup _ _ _ _)
          hleafData (hunseq.trans (congrArg Db.unsequenced hdb)) rfl ?_ hs
        rw [hleaves, dequeuedKeys_eq fun r hr => (hsel r hr).2]
      · exact hs
  | addSequencedLeaves tree leaves timestamp =>
      dsimp only [logStep]
      split
      · rename_i db res ha
        obtain ⟨tl, ts, fresh, -, rfl, hl, -⟩ := addSequencedLeaves_growth ha
        refine queueInv_of_frame (s := s) rfl rfl rfl (fun k hk => ?_) hs
        show k ∈ tl.rows.map LeafDataRow.key
        rw [hl, List.map_append]
        exact List.mem_append_left _ hk
      · exact hs
  | storeRoot tree logRoot =>
      dsimp only [logStep]
      split
      · rename_i db hr
        obtain ⟨th, rfl⟩ := storeSignedLogRoot_eq_ok hr
        exact queueInv_of_frame (s := s) rfl rfl rfl (fun _ hk => hk) hs
      · exact hs

/-- Over every run whose signer's transactions are on logs that are not preordered: no leaf enters
`unsequenced` twice, every leaf a committed `DequeueLeaves` returned was queued and is
returned once, and every queued leaf is still queued or was returned. -/
theorem queueInv_run (events : List (LogTx N)) (hevents : ∀ e ∈ events, e.FromQueue) {s : LogState N}
    (hs : QueueInv s) : QueueInv (run (logStep marshal leafSort) events s) :=
  run_invariant_of_forall (fun e _ he hs => queueInv_step marshal leafSort e he hs) events hevents s hs

end Invariant

section Sequence

/-- The indices the signer gives start past every index of the tree, and counting on for
`limit` leaves stays within `int64`. Trillian's sequencer starts at the tree size. -/
def IndicesFresh (db : Db) (treeId firstIndex limit : Int64) : Prop :=
  (∀ row ∈ db.sequencedLeafData.rows, row.treeId = treeId →
    row.sequenceNumber.toInt < firstIndex.toInt) ∧
  firstIndex.toInt + limit.toInt < 2 ^ 63

instance (db : Db) (treeId firstIndex limit : Int64) :
    Decidable (IndicesFresh db treeId firstIndex limit) :=
  inferInstanceAs (Decidable (_ ∧ _))

def StepFresh (s : LogState N) : LogTx N → Prop
  | .queueLeaves .. => True
  | .integrate tree limit _ firstIndex .. => IndicesFresh s.db tree.treeId firstIndex limit
  | .addSequencedLeaves .. => True
  | .storeRoot .. => True

instance (s : LogState N) (e : LogTx N) : Decidable (StepFresh s e) :=
  match e with
  | .queueLeaves .. => inferInstanceAs (Decidable True)
  | .integrate tree limit _ firstIndex .. =>
      inferInstanceAs (Decidable (IndicesFresh s.db tree.treeId firstIndex limit))
  | .addSequencedLeaves .. => inferInstanceAs (Decidable True)
  | .storeRoot .. => inferInstanceAs (Decidable True)

/-- Every leaf a committed `DequeueLeaves` returned has a `sequenced_leaf_data` row of its
tree. -/
def Sequenced (s : LogState N) : Prop :=
  ∀ k ∈ s.dequeued, ∃ row ∈ s.db.sequencedLeafData.rows, (row.treeId, row.leafIdentityHash) = k

theorem toInt_firstIndex_add {firstIndex limit : Int64} {i : Nat} (hi : (i : Int) < limit.toInt)
    (hfit : firstIndex.toInt + limit.toInt < 2 ^ 63) :
    (firstIndex + Int64.ofNat i).toInt = firstIndex.toInt + i := by
  have hlimit := limit.toInt_lt
  have hlo := firstIndex.le_toInt
  have hi' : (Int64.ofNat i).toInt = i := Int64.toInt_ofNat_of_lt (by omega)
  rw [toInt_add_of_range] <;> rw [hi'] <;> omega

theorem assignIndices_fresh {db : Db} {treeId firstIndex limit : Int64}
    (integrateTimestamp : Int64) {leaves : List LogLeaf}
    (hfresh : IndicesFresh db treeId firstIndex limit) (hlen : (leaves.length : Int) ≤ limit.toInt) :
    (∀ leaf ∈ assignIndices firstIndex integrateTimestamp leaves,
      (treeId, leaf.leafIndex) ∉ db.sequencedLeafData.rows.map SequencedLeafDataRow.key) ∧
    ((assignIndices firstIndex integrateTimestamp leaves).map (·.leafIndex)).Nodup := by
  have hindex : ∀ i ∈ List.range leaves.length,
      (firstIndex + Int64.ofNat i).toInt = firstIndex.toInt + i := fun i hi =>
    toInt_firstIndex_add (by have := List.mem_range.mp hi; omega) hfresh.2
  constructor
  · intro leaf hleaf hkey
    have hmem := List.mem_map_of_mem (f := (·.leafIndex)) hleaf
    rw [map_leafIndex_assignIndices] at hmem
    obtain ⟨i, hi, hidx⟩ := List.mem_map.mp hmem
    obtain ⟨row, hrow, hrowKey⟩ := List.mem_map.mp hkey
    simp only [SequencedLeafDataRow.key, Prod.mk.injEq] at hrowKey
    have hbefore := hfresh.1 row hrow hrowKey.1
    rw [hrowKey.2, ← hidx, hindex i hi] at hbefore
    omega
  · rw [map_leafIndex_assignIndices]
    refine List.Nodup.map_on (fun i hi j hj hij => ?_) List.nodup_range
    have hto := congrArg Int64.toInt hij
    rw [hindex i hi, hindex j hj] at hto
    omega

variable (marshal : SubtreeProto N → Except GoError Bytes) (leafSort : LeafSort)

theorem sequenced_step (e : LogTx N) {s : LogState N} (he : e.FromQueue)
    (hfresh : StepFresh s e) (hs : Sequenced s) : Sequenced (logStep marshal leafSort e s) := by
  cases e with
  | queueLeaves tree leaves queueTimestamp =>
      dsimp only [logStep]
      split
      · rename_i db queued hq
        obtain ⟨tl, tu, -, -, rfl, -⟩ := queueLeaves_growth hq
        exact hs
      · exact hs
  | integrate tree limit cutoff firstIndex integrateTimestamp subtrees newRoot =>
      dsimp only [logStep]
      split
      · rename_i db sequenced hi
        obtain ⟨leaves, u, q, -, hdeq, rfl, hupd, -, -, hseq, -⟩ := integrate_eq_ok marshal hi
        have htype : (beginInternal (N := N) s.db tree).1.treeType ≠ .preorderedLog := by
          rwa [beginInternal_treeType]
        obtain ⟨rows, rfl, hlimit, hlen, -⟩ := dequeueLeaves_spec htype hdeq
        have hcount : ((rows.map fun r => (dequeueLeaf r).1).length : Int) ≤ limit.toInt := by
          rw [List.length_map, hlen]
          omega
        obtain ⟨hfree, hdistinct⟩ := assignIndices_fresh integrateTimestamp hfresh hcount
        obtain ⟨hsub, hat⟩ :=
          updateSequencedLeaves_sequencedAt hdistinct (by rwa [beginInternal_treeId]) hupd
        intro k hk
        rcases List.mem_append.mp hk with hk | hk
        · obtain ⟨row, hrow, hkey⟩ := hs k hk
          exact ⟨row, hseq ▸ hsub hrow, hkey⟩
        · obtain ⟨leaf, hleaf, rfl⟩ := List.mem_map.mp hk
          obtain ⟨row, hrow, htree, -, hhash⟩ := hat leaf hleaf
          refine ⟨row, hseq ▸ hrow, ?_⟩
          rw [htree, hhash, beginInternal_treeId]
      · exact hs
  | addSequencedLeaves tree leaves timestamp =>
      dsimp only [logStep]
      split
      · rename_i db res ha
        obtain ⟨tl, ts, -, fresh, rfl, -, hs', -⟩ := addSequencedLeaves_growth ha
        intro k hk
        obtain ⟨row, hrow, hkey⟩ := hs k hk
        refine ⟨row, ?_, hkey⟩
        show row ∈ ts.rows
        rw [hs']
        exact List.mem_append_left _ hrow
      · exact hs
  | storeRoot tree logRoot =>
      dsimp only [logStep]
      split
      · rename_i db hr
        obtain ⟨th, rfl⟩ := storeSignedLogRoot_eq_ok hr
        exact hs
      · exact hs

/-- With fresh indices no queued leaf is lost: over every run, each leaf a committed
`QueueLeaves` queued is still queued or has its `sequenced_leaf_data` row. -/
theorem queued_leaf_kept (events : List (LogTx N)) {s : LogState N}
    (hguard : Guarded (logStep marshal leafSort)
      (fun s e => e.FromQueue ∧ StepFresh s e) s events)
    (hq : QueueInv s) (hseq : Sequenced s) :
    ∀ k ∈ (run (logStep marshal leafSort) events s).entered,
      k ∈ unsequencedKeys (run (logStep marshal leafSort) events s).db ∨
        ∃ row ∈ (run (logStep marshal leafSort) events s).db.sequencedLeafData.rows,
          (row.treeId, row.leafIdentityHash) = k := by
  have hinv := run_invariant_of_guarded (P := fun s => QueueInv s ∧ Sequenced s)
    (fun e s hg hs => ⟨queueInv_step marshal leafSort e hg.1 hs.1, sequenced_step marshal leafSort e hg.1 hg.2 hs.2⟩)
    events s hguard ⟨hq, hseq⟩
  intro k hk
  rcases hinv.1.queued_or_dequeued hk with hk | hk
  · exact Or.inl hk
  · exact Or.inr (hinv.2 k hk)

end Sequence

section Drop

def logTree₁ : Tree := ⟨1, .active, .log, [], [], 0, 0, 0, false, none⟩

def initDb : Db :=
  { Db.empty with
    trees := ⟨[⟨1, .active, .log, [], [], 0, 0, 0, false, none, some ⟨0, [], 0, 0, []⟩⟩],
      List.nodup_singleton _⟩ }

def leafOf (b : UInt8) : LogLeaf := ⟨List.replicate 32 b, [], [], 0, List.replicate 32 b, none, none⟩

def unitMarshal (_ : SubtreeProto Unit) : Except GoError Bytes := .ok []

/-- Two leaves queued at 1 and 2; the signer takes the first at index 0, stores no root,
and takes the second at index 0 again. -/
def dropRun : List (LogTx Unit) :=
  [.queueLeaves logTree₁ [leafOf 1] 1, .queueLeaves logTree₁ [leafOf 2] 2,
    .integrate logTree₁ 1 1 0 5 [] none, .integrate logTree₁ 1 2 0 6 [] none]

theorem integrate_drops_leaf :
    (1, (leafOf 2).leafIdentityHash) ∈
        (run (logStep unitMarshal stableLeafSort) dropRun ⟨initDb, [], [], []⟩).entered ∧
      (1, (leafOf 2).leafIdentityHash) ∈
        (run (logStep unitMarshal stableLeafSort) dropRun ⟨initDb, [], [], []⟩).dequeued ∧
      (1, (leafOf 2).leafIdentityHash) ∉
        unsequencedKeys (run (logStep unitMarshal stableLeafSort) dropRun ⟨initDb, [], [], []⟩).db ∧
      ∀ row ∈ (run (logStep unitMarshal stableLeafSort) dropRun ⟨initDb, [], [], []⟩).db.sequencedLeafData.rows,
        row.leafIdentityHash ≠ (leafOf 2).leafIdentityHash := by
  decide +kernel

end Drop

section Duplicates

/-- The database once leaf 1 is queued on tree 1. -/
def storedOnceDb : Db :=
  (run (logStep unitMarshal stableLeafSort) [.queueLeaves logTree₁ [leafOf 1] 1] ⟨initDb, [], [], []⟩).db

/-- A second batch holds leaf 1 twice. Both positions are duplicates, so `toRetrieve`
names its hash twice, but the lookup finds its one `leaf_data` row, and the length check
fails the batch. -/
theorem queueLeaves_stored_twice_fails (leafSort : LeafSort) :
    (1, (leafOf 1).leafIdentityHash) ∈ storedOnceDb.leafData.rows.map LeafDataRow.key ∧
      queueLeaves (N := Unit) leafSort storedOnceDb logTree₁ [leafOf 1, leafOf 1] 2 =
        .error (.errorf "failed to retrieve all existing leaves: got %d, want %d" [.int 1, .int 2]) := by
  refine ⟨by decide +kernel, eq_error_of_map_eq_error (f := fun _ => ()) ?_⟩
  -- a batch of two leaves in order is kept as it is by every sort
  simp only [queueLeaves, queueLeavesTx]
  rw [sortLeavesForInsert_of_sorted leafSort (by decide) (by decide)]
  decide +kernel

end Duplicates

end Vct.Storage.LeafQueue
