import Mathlib.Data.List.Dedup
import Vct.Lib.Except
import Vct.Lib.Int64
import Vct.Storage.Schema

namespace Vct.Storage.TreeStorage

open Vct.Lib.Sql
open Vct.Lib.Except
open Vct.Controller.Errors
open Vct.Trillian.Types
open Vct.Storage.Schema

/-- `storagepb.SubtreeProto`: its `Prefix` (`nil` is `none`), and the rest of the
message, which only the subtree cache reads. -/
structure SubtreeProto (N : Type) where
  prefixBytes : Option Bytes
  body : N
  deriving DecidableEq, Repr

variable {N : Type}

/-- What `getSubtrees` does to a subtree it read: a `nil` prefix becomes empty. -/
def SubtreeProto.normalizePrefix (st : SubtreeProto N) : SubtreeProto N :=
  if st.prefixBytes.isNone then { st with prefixBytes := some [] } else st

theorem SubtreeProto.normalizePrefix_of_isSome {st : SubtreeProto N} (h : st.prefixBytes.isSome) :
    st.normalizePrefix = st := by
  simp [normalizePrefix, Option.isNone_iff_eq_none, Option.isSome_iff_ne_none.mp h]

/-- The fields of `treeTX` the subtree reads and writes use; `dirty` is what the
subtree cache's `Flush` hands to `storeSubtrees`. -/
structure TreeTx (N : Type) where
  treeId : Int64
  treeType : TreeType
  hashSizeBytes : Nat
  writeRevision : Int64
  dirty : List (SubtreeProto N)

/-- `beginTreeTx`: the write revision stays `-1` until the log transaction reads a
root. -/
def beginTreeTx (tree : Tree) (hashSizeBytes : Nat) : TreeTx N :=
  { treeId := tree.treeId
    treeType := tree.treeType
    hashSizeBytes := hashSizeBytes
    writeRevision := -1
    dirty := [] }

section Select

/-- The rows the inner query of `selectSubtreeSQL` groups: of the tree, with one of
the ids, at a revision no later than `treeRevision`. -/
def candidateRows (db : Db) (treeId treeRevision : Int64) (ids : List Bytes) :
    List SubtreeRow :=
  db.subtree.rows.filter fun n =>
    n.subtreeId ∈ ids ∧ n.treeId = treeId ∧ n.subtreeRevision ≤ treeRevision

/-- `max(n.subtree_revision)` of the group of `id`. -/
def maxRevision (x : List SubtreeRow) (id : Bytes) : Option Int :=
  ((x.filter (·.subtreeId = id)).map (·.subtreeRevision.toInt)).max?

/-- `selectSubtreeSQL`: one group per subtree id, joined back to the row of the tree at
the group's greatest revision. The query has no `ORDER BY`; here the groups come in
the order their ids have among the rows. -/
def selectSubtree (db : Db) (treeId treeRevision : Int64) (ids : List Bytes) :
    List (Bytes × Int64 × Bytes) :=
  let x := candidateRows db treeId treeRevision ids
  (x.map (·.subtreeId)).dedup.flatMap fun id =>
    (db.subtree.rows.filter fun s =>
        s.subtreeId = id ∧ some s.subtreeRevision.toInt = maxRevision x id ∧ s.treeId = treeId).map
      fun s => (id, s.subtreeRevision, s.nodes)

/-- The row a reader at revision `r` should see for `id`: of the tree, at the greatest
revision no later than `r`. -/
def IsLatest (db : Db) (treeId r : Int64) (id : Bytes) (s : SubtreeRow) : Prop :=
  s ∈ db.subtree.rows ∧ s.treeId = treeId ∧ s.subtreeId = id ∧ s.subtreeRevision ≤ r ∧
    ∀ s' ∈ db.subtree.rows, s'.treeId = treeId → s'.subtreeId = id → s'.subtreeRevision ≤ r →
      s'.subtreeRevision ≤ s.subtreeRevision

theorem isLatest_unique {db : Db} {treeId r : Int64} {id : Bytes} {s s' : SubtreeRow}
    (hs : IsLatest db treeId r id s) (hs' : IsLatest db treeId r id s') : s = s' := by
  obtain ⟨hmem, htree, hid, hr, hmax⟩ := hs
  obtain ⟨hmem', htree', hid', hr', hmax'⟩ := hs'
  have hrev : s.subtreeRevision = s'.subtreeRevision := by
    have h₁ := Int64.le_iff_toInt_le.mp (hmax s' hmem' htree' hid' hr')
    have h₂ := Int64.le_iff_toInt_le.mp (hmax' s hmem htree hid hr)
    exact Int64.toInt_inj.mp (Int.le_antisymm h₂ h₁)
  apply Table.eq_of_key_eq hmem hmem'
  simp only [SubtreeRow.key, htree, htree', hid, hid', hrev]

theorem mem_candidateRows {db : Db} {treeId r : Int64} {ids : List Bytes} {s : SubtreeRow} :
    s ∈ candidateRows db treeId r ids ↔
      s ∈ db.subtree.rows ∧ s.subtreeId ∈ ids ∧ s.treeId = treeId ∧ s.subtreeRevision ≤ r := by
  simp [candidateRows]

theorem exists_isLatest_of_mem {db : Db} {treeId r : Int64} {ids : List Bytes} {id : Bytes}
    (hid : id ∈ (candidateRows db treeId r ids).map (·.subtreeId)) :
    ∃ s, IsLatest db treeId r id s ∧
      maxRevision (candidateRows db treeId r ids) id = some s.subtreeRevision.toInt := by
  set x := candidateRows db treeId r ids
  obtain ⟨s₀, hs₀, rfl⟩ := List.mem_map.mp hid
  have hne : (x.filter (·.subtreeId = s₀.subtreeId)).map (·.subtreeRevision.toInt) ≠ [] := by
    simpa [List.filter_eq_nil_iff] using ⟨s₀, hs₀, rfl⟩
  obtain ⟨m, hm⟩ := Option.ne_none_iff_exists'.mp (mt List.max?_eq_none_iff.mp hne)
  obtain ⟨hmmem, hmle⟩ := List.max?_eq_some_iff.mp hm
  obtain ⟨s, hsx, rfl⟩ := List.mem_map.mp hmmem
  have hsid : s.subtreeId = s₀.subtreeId := by simpa using (List.mem_filter.mp hsx).2
  obtain ⟨hsrow, -, hstree, hsr⟩ := mem_candidateRows.mp (List.mem_filter.mp hsx).1
  have hs₀ids := (mem_candidateRows.mp hs₀).2.1
  refine ⟨s, ⟨hsrow, hstree, hsid, hsr, ?_⟩, hm⟩
  intro s' hs'row hs'tree hs'id hs'r
  have hs'x : s' ∈ x := mem_candidateRows.mpr ⟨hs'row, hs'id ▸ hs₀ids, hs'tree, hs'r⟩
  exact Int64.le_iff_toInt_le.mpr
    (hmle _ (List.mem_map_of_mem (List.mem_filter.mpr ⟨hs'x, by simpa using hs'id⟩)))

theorem join_eq_latest {db : Db} {treeId r : Int64} {ids : List Bytes} {id : Bytes}
    {s : SubtreeRow} (hs : IsLatest db treeId r id s)
    (hmax : maxRevision (candidateRows db treeId r ids) id = some s.subtreeRevision.toInt) :
    db.subtree.rows.filter (fun s' => s'.subtreeId = id ∧
        some s'.subtreeRevision.toInt = maxRevision (candidateRows db treeId r ids) id ∧
        s'.treeId = treeId) = [s] := by
  obtain ⟨hmem, htree, hid, -, -⟩ := hs
  have hpred : ∀ s' : SubtreeRow, decide (s'.subtreeId = id ∧
      some s'.subtreeRevision.toInt = maxRevision (candidateRows db treeId r ids) id ∧
      s'.treeId = treeId) = decide (SubtreeRow.key s' = SubtreeRow.key s) := by
    intro s'
    rw [hmax]
    simp only [SubtreeRow.key, Option.some.injEq, Int64.toInt_inj, Prod.mk.injEq, htree, hid]
    grind
  rw [List.filter_congr (fun s' _ => hpred s'), Table.filter_key_eq,
    Table.get_eq_some_iff.mpr ⟨hmem, rfl⟩]
  rfl

theorem mem_selectSubtree_iff {db : Db} {treeId r : Int64} {ids : List Bytes}
    {e : Bytes × Int64 × Bytes} :
    e ∈ selectSubtree db treeId r ids ↔
      e.1 ∈ ids ∧ ∃ s, IsLatest db treeId r e.1 s ∧ e.2 = (s.subtreeRevision, s.nodes) := by
  unfold selectSubtree
  rw [List.mem_flatMap]
  constructor
  · rintro ⟨id, hid, he⟩
    rw [List.mem_dedup] at hid
    obtain ⟨s, hs, hmax⟩ := exists_isLatest_of_mem hid
    rw [join_eq_latest hs hmax, List.map_singleton, List.mem_singleton] at he
    subst he
    obtain ⟨s₀, hs₀, rfl⟩ := List.mem_map.mp hid
    exact ⟨(mem_candidateRows.mp hs₀).2.1, s, hs, rfl⟩
  · rintro ⟨hids, s, hs, he⟩
    have hid : e.1 ∈ (candidateRows db treeId r ids).map (·.subtreeId) := by
      obtain ⟨hmem, htree, hsid, hr, -⟩ := hs
      exact List.mem_map.mpr ⟨s, mem_candidateRows.mpr ⟨hmem, hsid ▸ hids, htree, hr⟩, hsid⟩
    refine ⟨e.1, List.mem_dedup.mpr hid, ?_⟩
    obtain ⟨s', hs', hmax⟩ := exists_isLatest_of_mem hid
    rw [join_eq_latest hs' hmax, isLatest_unique hs' hs, List.map_singleton,
      List.mem_singleton, ← he]

theorem selectSubtree_ids_nodup (db : Db) (treeId r : Int64) (ids : List Bytes) :
    ((selectSubtree db treeId r ids).map (·.1)).Nodup := by
  have hfst : (selectSubtree db treeId r ids).map (·.1) =
      ((candidateRows db treeId r ids).map (·.subtreeId)).dedup := by
    unfold selectSubtree
    rw [List.map_flatMap]
    conv_rhs => rw [← List.flatMap_singleton' ((candidateRows db treeId r ids).map _).dedup]
    apply List.flatMap_congr
    intro id hid
    obtain ⟨s, hs, hmax⟩ := exists_isLatest_of_mem (List.mem_dedup.mp hid)
    rw [join_eq_latest hs hmax]
    rfl
  rw [hfst]
  exact List.nodup_dedup _

end Select

section Codec

variable (marshal : SubtreeProto N → Except GoError Bytes)
variable (unmarshal : Bytes → Except GoError (SubtreeProto N))

/-- One row of `selectSubtreeSQL` read back: `proto.Unmarshal`, then a `nil` prefix
made empty. -/
def readSubtree (nodesRaw : Bytes) : Except GoError (SubtreeProto N) := do
  let subtree ← unmarshal nodesRaw
  return subtree.normalizePrefix

theorem readSubtree_eq_map (nodesRaw : Bytes) :
    readSubtree unmarshal nodesRaw = (unmarshal nodesRaw).map SubtreeProto.normalizePrefix := by
  unfold readSubtree
  cases unmarshal nodesRaw <;> rfl

def getSubtrees (tx : TreeTx N) (db : Db) (treeRevision : Int64) (ids : List Bytes) :
    Except GoError (List (SubtreeProto N)) :=
  if ids.isEmpty then .ok []
  else (selectSubtree db tx.treeId treeRevision ids).mapM fun row => readSubtree unmarshal row.2.2

def getSubtree (tx : TreeTx N) (db : Db) (treeRevision : Int64) (id : Bytes) :
    Except GoError (Option (SubtreeProto N)) := do
  let s ← getSubtrees unmarshal tx db treeRevision [id]
  match s with
  | [] => return none
  | [st] => return some st
  | _ => throw (.errorf "got %d subtrees, but expected 1" [.int s.length])

/-- The values `storeSubtrees` binds for one subtree; a `nil` prefix panics. -/
def subtreeRow (tx : TreeTx N) (st : SubtreeProto N) : Except GoError SubtreeRow :=
  match st.prefixBytes with
  | none => .error (.panic "nil prefix on %v")
  | some pre => do
      let subtreeBytes ← marshal st
      return ⟨tx.treeId, pre, subtreeBytes, tx.writeRevision⟩

def storeSubtrees (tx : TreeTx N) (db : Db) (subtrees : List (SubtreeProto N)) :
    Except GoError Db :=
  if subtrees.isEmpty then .ok db
  else do
    let rows ← subtrees.mapM (subtreeRow marshal tx)
    insertSubtrees db rows

/-- `treeTX.Commit`: a transaction that never read a root (write revision `-1`) flushes
nothing. -/
def commit (tx : TreeTx N) (db : Db) : Except GoError Db :=
  if tx.writeRevision > -1 then storeSubtrees marshal tx db tx.dirty else .ok db

theorem getSubtrees_eq_ok {tx : TreeTx N} {db : Db} {r : Int64} {ids : List Bytes}
    (hids : ids ≠ []) (decode : Bytes → SubtreeProto N)
    (hdecode : ∀ s ∈ db.subtree.rows, unmarshal s.nodes = .ok (decode s.nodes)) :
    getSubtrees unmarshal tx db r ids =
      .ok ((selectSubtree db tx.treeId r ids).map fun e => (decode e.2.2).normalizePrefix) := by
  rw [getSubtrees, if_neg (by simpa using hids)]
  apply mapM_eq_ok_map
  intro e he
  obtain ⟨-, s, hs, he₂⟩ := mem_selectSubtree_iff.mp he
  have hnodes : e.2.2 = s.nodes := congrArg Prod.snd he₂
  rw [readSubtree, hnodes, hdecode s hs.1]
  rfl

/-- `row` is what storing `st` for the tree `treeId` at `revision` writes: keyed by the
subtree's prefix and holding its encoding. -/
def StoredAs (treeId revision : Int64) (st : SubtreeProto N) (row : SubtreeRow) : Prop :=
  row.treeId = treeId ∧ row.subtreeRevision = revision ∧ st.prefixBytes = some row.subtreeId ∧
    marshal st = .ok row.nodes

/-- The rows a write added stand for exactly the subtrees it stored. -/
def Writes (treeId revision : Int64) (subtrees : List (SubtreeProto N)) (rows : List SubtreeRow) :
    Prop :=
  (∀ row ∈ rows, ∃ st ∈ subtrees, StoredAs marshal treeId revision st row) ∧
    ∀ st ∈ subtrees, ∃ row ∈ rows, StoredAs marshal treeId revision st row

theorem storedAs_of_subtreeRow {tx : TreeTx N} {st : SubtreeProto N} {row : SubtreeRow}
    (h : subtreeRow marshal tx st = .ok row) :
    StoredAs marshal tx.treeId tx.writeRevision st row := by
  unfold subtreeRow at h
  split at h
  · cases h
  · rename_i pre hpre
    rw [bind_eq_ok_iff] at h
    obtain ⟨b, hb, h⟩ := h
    rw [pure_eq_ok_iff] at h
    subst h
    exact ⟨rfl, rfl, hpre, hb⟩

theorem storeSubtrees_eq_ok {tx : TreeTx N} {db db' : Db} {subtrees : List (SubtreeProto N)}
    (h : storeSubtrees marshal tx db subtrees = .ok db') :
    ∃ t rows, db' = { db with subtree := t } ∧ t.rows = db.subtree.rows ++ rows ∧
      Writes marshal tx.treeId tx.writeRevision subtrees rows ∧
      ∀ row ∈ rows, db.treeExists row.treeId = true := by
  unfold storeSubtrees at h
  split at h
  · rename_i hempty
    cases h
    rw [List.isEmpty_iff.mp hempty]
    exact ⟨db.subtree, [], rfl, by simp, by simp [Writes], by simp⟩
  · rw [bind_eq_ok_iff] at h
    obtain ⟨rows, hrows, h⟩ := h
    obtain ⟨t, rfl, ht, hexists⟩ := insertSubtrees_eq_ok h
    refine ⟨t, rows, rfl, ht, ⟨fun row hrow => ?_, fun st hst => ?_⟩, hexists⟩
    · obtain ⟨st, hst, hrow'⟩ := exists_of_mem_mapM_eq_ok hrows hrow
      exact ⟨st, hst, storedAs_of_subtreeRow marshal hrow'⟩
    · obtain ⟨row, hrow, hst'⟩ := exists_mem_of_mapM_eq_ok hrows hst
      exact ⟨row, hrow, storedAs_of_subtreeRow marshal hst'⟩

def flushed (tx : TreeTx N) : List (SubtreeProto N) :=
  if tx.writeRevision > -1 then tx.dirty else []

theorem writeRevision_nonneg_of_mem_flushed {tx : TreeTx N} {st : SubtreeProto N}
    (h : st ∈ flushed tx) : 0 ≤ tx.writeRevision.toInt := by
  unfold flushed at h
  split at h
  · rename_i hrev
    exact Vct.Lib.Int64.neg_one_lt_iff.mp hrev
  · cases h

theorem commit_of_writeRevision_neg {tx : TreeTx N} (h : tx.writeRevision.toInt < 0) (db : Db) :
    commit marshal tx db = .ok db := by
  rw [commit, if_neg]
  rw [gt_iff_lt, Vct.Lib.Int64.neg_one_lt_iff]
  omega

/-- A transaction that put no subtree into the cache flushes nothing. -/
theorem commit_of_dirty_nil {tx : TreeTx N} (h : tx.dirty = []) (db : Db) :
    commit marshal tx db = .ok db := by
  unfold commit storeSubtrees
  split <;> simp [h]

theorem commit_eq_ok {tx : TreeTx N} {db db' : Db} (h : commit marshal tx db = .ok db') :
    ∃ t rows, db' = { db with subtree := t } ∧ t.rows = db.subtree.rows ++ rows ∧
      Writes marshal tx.treeId tx.writeRevision (flushed tx) rows ∧
      ∀ row ∈ rows, db.treeExists row.treeId = true := by
  unfold commit at h
  unfold flushed
  split at h
  · rename_i hrev
    rw [if_pos hrev]
    exact storeSubtrees_eq_ok marshal h
  · rename_i hrev
    rw [if_neg hrev]
    cases h
    exact ⟨db.subtree, [], rfl, by simp, by simp [Writes], by simp⟩

theorem keepsForeignKeys_commit {tx : TreeTx N} {db db' : Db} (h : commit marshal tx db = .ok db') :
    KeepsForeignKeys db db' := by
  obtain ⟨t, rows, rfl, ht, -, hexists⟩ := commit_eq_ok marshal h
  refine ⟨rfl, keepsOrRefers_refl _, ?_, keepsOrRefers_refl _, keepsOrRefers_refl _,
    keepsOrRefers_refl _⟩
  show KeepsOrRefers db _ _ t.rows
  rw [ht]
  exact keepsOrRefers_append hexists

end Codec

end Vct.Storage.TreeStorage
