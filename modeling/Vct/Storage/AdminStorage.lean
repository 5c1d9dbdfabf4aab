import Vct.Storage.Schema

namespace Vct.Storage.AdminStorage

open Vct.Lib.Sql
open Vct.Lib.Except
open Vct.Controller.Errors
open Vct.Trillian.Types
open Vct.Storage.Schema

def defaultSequenceIntervalSeconds : Int64 := 60

def readTree (row : TreeRow) : Tree :=
  ⟨row.treeId, row.treeState, row.treeType, row.displayName, row.description,
    row.maxRootDurationMillis, row.createTimeMillis, row.updateTimeMillis, row.deleted,
    row.deleteTimeMillis⟩

def getTree (db : Db) (treeId : Int64) : Except GoError Tree :=
  match db.trees.get treeId with
  | some row => .ok (readTree row)
  | none => .error (.grpc .notFound "tree %v not found" [.int treeId.toInt])

/-- `ListTrees`: `selectTrees`, or `selectNonDeletedTrees` unless deleted trees are asked
for. Neither query has an `ORDER BY`; here the trees come in the order of their rows. -/
def listTrees (db : Db) (includeDeleted : Bool) : List Tree :=
  (if includeDeleted then db.trees.rows else db.trees.rows.filter (·.deleted = false)).map readTree

/-- The casts of the values an `INSERT` or `UPDATE` of `trees` binds: a state or type whose
`String()` is no label of its enum type, or a text longer than its `VARCHAR`, fails the
statement. -/
def checkTreeColumns (tree : Tree) : Except GoError Unit :=
  if !TreeState.isLabel tree.treeState || !TreeType.isLabel tree.treeType then
    .error (.db .invalidTextRepresentation)
  else if tree.displayName.length > 20 || tree.description.length > 200 then
    .error (.db .stringDataRightTruncation)
  else .ok ()

/-- `validateStorageSettings`; the `anypb.Any` of `StorageSettings` is kept as its bytes. -/
def validateStorageSettings (storageSettings : Option Bytes) : Except GoError Unit :=
  match storageSettings with
  | some settings => .error (.errorf "storage_settings not supported, but got %v" [.bytes settings])
  | none => .ok ()

/-- The row `insertSQL` writes: `deleted` takes its default, and `delete_time_millis` and
`current_tree_data` stay `NULL`. -/
def treeRowOf (tree : Tree) : TreeRow :=
  ⟨tree.treeId, tree.treeState, tree.treeType, tree.displayName, tree.description,
    tree.createTimeMillis, tree.updateTimeMillis, tree.maxRootDurationMillis, false, none, none⟩

/-- `CreateTree`: the tree with a new id and the current time, its row in `trees`, and the
row of `tree_control` that references it. -/
def createTree (db : Db) (tree : Tree) (storageSettings : Option Bytes)
    (validation : Except GoError Unit) (newTreeID : Except GoError Int64) (nowMillis : Int64) :
    Except GoError (Db × Tree) := do
  validation
  validateStorageSettings storageSettings
  let id ← newTreeID
  let newTree := { tree with treeId := id, createTimeMillis := nowMillis, updateTimeMillis := nowMillis }
  checkTreeColumns newTree
  let trees ← insertRow db.trees (treeRowOf newTree) true
  let db := { db with trees := trees }
  let treeControl ← insertRow db.treeControl ⟨id, true, true, defaultSequenceIntervalSeconds⟩
    (db.treeExists id)
  return ({ db with treeControl := treeControl }, newTree)

/-- `UpdateTree`: `updateTreeSQL` sets the state, type, names, update time and root
duration of the row with the updated tree's id, and leaves `deleted` alone. -/
def updateTree (db : Db) (treeId : Int64) (updateFunc : Tree → Tree)
    (storageSettings : Option Bytes) (validation : Except GoError Unit) (nowMillis : Int64) :
    Except GoError (Db × Tree) := do
  let tree ← getTree db treeId
  let tree := updateFunc tree
  validation
  validateStorageSettings storageSettings
  let tree := { tree with updateTimeMillis := nowMillis }
  checkTreeColumns tree
  let trees := db.trees.update (·.treeId = tree.treeId)
    (fun r => { r with
      treeState := tree.treeState
      treeType := tree.treeType
      displayName := tree.displayName
      description := tree.description
      updateTimeMillis := nowMillis
      maxRootDurationMillis := tree.maxRootDurationMillis }) (fun _ => rfl)
  return ({ db with trees := trees }, tree)

/-- `validateDeleted`; `deleted` is `NOT NULL`, so the scanned pointer is never `nil`. -/
def validateDeleted (db : Db) (treeId : Int64) (wantDeleted : Bool) : Except GoError Unit :=
  match db.trees.get treeId with
  | none => .error (.grpc .notFound "tree %v not found" [.int treeId.toInt])
  | some row =>
      if wantDeleted && !row.deleted then
        .error (.grpc .failedPrecondition "tree %v is not soft deleted" [.int treeId.toInt])
      else if !wantDeleted && row.deleted then
        .error (.grpc .failedPrecondition "tree %v already soft deleted" [.int treeId.toInt])
      else .ok ()

def setDeleted (db : Db) (treeId : Int64) (deleted : Bool) (deleteTimeMillis : Option Int64) :
    Db :=
  { db with
    trees := db.trees.update (·.treeId = treeId)
      (fun r => { r with deleted := deleted, deleteTimeMillis := deleteTimeMillis }) (fun _ => rfl) }

def updateDeleted (db : Db) (treeId : Int64) (deleted : Bool) (deleteTimeMillis : Option Int64) :
    Except GoError (Db × Tree) := do
  validateDeleted db treeId !deleted
  let db := setDeleted db treeId deleted deleteTimeMillis
  let tree ← getTree db treeId
  return (db, tree)

def softDeleteTree (db : Db) (treeId nowMillis : Int64) : Except GoError (Db × Tree) :=
  updateDeleted db treeId true (some nowMillis)

def undeleteTree (db : Db) (treeId : Int64) : Except GoError (Db × Tree) :=
  updateDeleted db treeId false none

/-- `HardDeleteTree`: `tree_control` explicitly, then `trees` with its cascades. -/
def hardDeleteTree (db : Db) (treeId : Int64) : Except GoError Db := do
  validateDeleted db treeId true
  let db := { db with treeControl := db.treeControl.delete (·.treeId = treeId) }
  return deleteTree db treeId

section Lemmas

theorem get_trees_eq_some_iff {db : Db} {treeId : Int64} {row : TreeRow} :
    db.trees.get treeId = some row ↔ row ∈ db.trees.rows ∧ row.treeId = treeId :=
  Table.get_eq_some_iff

theorem getTree_eq_ok {db : Db} {treeId : Int64} {tree : Tree} (h : getTree db treeId = .ok tree) :
    ∃ row, db.trees.get treeId = some row ∧ tree = readTree row ∧ tree.treeId = treeId := by
  unfold getTree at h
  split at h
  · rename_i row hrow
    cases h
    exact ⟨row, hrow, rfl, (get_trees_eq_some_iff.mp hrow).2⟩
  · cases h

theorem getTree_congr {db db' : Db} (htrees : db'.trees = db.trees) (treeId : Int64) :
    getTree db' treeId = getTree db treeId := by
  rw [getTree, getTree, htrees]

theorem validateDeleted_eq_ok_iff {db : Db} {treeId : Int64} {wantDeleted : Bool} :
    validateDeleted db treeId wantDeleted = .ok () ↔
      ∃ row, db.trees.get treeId = some row ∧ row.deleted = wantDeleted := by
  unfold validateDeleted
  cases hget : db.trees.get treeId with
  | none => simp
  | some row =>
      cases wantDeleted <;> cases hd : row.deleted <;> simp

theorem getTree_setDeleted {db : Db} {treeId : Int64} {row : TreeRow}
    (hrow : db.trees.get treeId = some row) (deleted : Bool) (deleteTimeMillis : Option Int64) :
    getTree (setDeleted db treeId deleted deleteTimeMillis) treeId =
      .ok (readTree { row with deleted := deleted, deleteTimeMillis := deleteTimeMillis }) := by
  have hid := (get_trees_eq_some_iff.mp hrow).2
  have hget : (setDeleted db treeId deleted deleteTimeMillis).trees.get treeId =
      some { row with deleted := deleted, deleteTimeMillis := deleteTimeMillis } := by
    rw [Table.get_eq_some_iff]
    exact ⟨List.mem_map.mpr ⟨row, (get_trees_eq_some_iff.mp hrow).1, by simp [hid]⟩, hid⟩
  rw [getTree, hget]

theorem updateDeleted_eq_ok_iff {db : Db} {treeId : Int64} {deleted : Bool}
    {deleteTimeMillis : Option Int64} {r : Db × Tree} :
    updateDeleted db treeId deleted deleteTimeMillis = .ok r ↔
      ∃ row, db.trees.get treeId = some row ∧ row.deleted = !deleted ∧
        r = (setDeleted db treeId deleted deleteTimeMillis,
          readTree { row with deleted := deleted, deleteTimeMillis := deleteTimeMillis }) := by
  rw [updateDeleted, bind_eq_ok_iff]
  constructor
  · rintro ⟨⟨⟩, hvalid, h⟩
    obtain ⟨row, hrow, hd⟩ := validateDeleted_eq_ok_iff.mp hvalid
    dsimp only at h
    rw [getTree_setDeleted hrow, bind_eq_ok_iff] at h
    obtain ⟨tree, htree, h⟩ := h
    cases htree
    exact ⟨row, hrow, hd, ((pure_eq_ok_iff).mp h).symm⟩
  · rintro ⟨row, hrow, hd, rfl⟩
    refine ⟨(), validateDeleted_eq_ok_iff.mpr ⟨row, hrow, hd⟩, ?_⟩
    dsimp only
    rw [getTree_setDeleted hrow]
    rfl

theorem softDeleteTree_ok_iff {db : Db} {treeId nowMillis : Int64} :
    (∃ r, softDeleteTree db treeId nowMillis = .ok r) ↔
      ∃ row, db.trees.get treeId = some row ∧ row.deleted = false := by
  simp only [softDeleteTree, updateDeleted_eq_ok_iff, Bool.not_true]
  constructor
  · rintro ⟨-, row, hrow, hd, -⟩
    exact ⟨row, hrow, hd⟩
  · rintro ⟨row, hrow, hd⟩
    exact ⟨_, row, hrow, hd, rfl⟩

theorem undeleteTree_ok_iff {db : Db} {treeId : Int64} :
    (∃ r, undeleteTree db treeId = .ok r) ↔
      ∃ row, db.trees.get treeId = some row ∧ row.deleted = true := by
  simp only [undeleteTree, updateDeleted_eq_ok_iff, Bool.not_false]
  constructor
  · rintro ⟨-, row, hrow, hd, -⟩
    exact ⟨row, hrow, hd⟩
  · rintro ⟨row, hrow, hd⟩
    exact ⟨_, row, hrow, hd, rfl⟩

theorem hardDeleteTree_eq_ok_iff {db db' : Db} {treeId : Int64} :
    hardDeleteTree db treeId = .ok db' ↔
      (∃ row, db.trees.get treeId = some row ∧ row.deleted = true) ∧
        db' = deleteTree { db with treeControl := db.treeControl.delete (·.treeId = treeId) } treeId := by
  rw [hardDeleteTree, bind_eq_ok_iff, ← validateDeleted_eq_ok_iff]
  constructor
  · rintro ⟨⟨⟩, hvalid, h⟩
    exact ⟨hvalid, ((pure_eq_ok_iff).mp h).symm⟩
  · rintro ⟨hvalid, rfl⟩
    exact ⟨(), hvalid, rfl⟩

theorem createTree_eq_ok {db db' : Db} {tree newTree : Tree} {storageSettings : Option Bytes}
    {validation : Except GoError Unit} {newTreeID : Except GoError Int64} {nowMillis : Int64}
    (h : createTree db tree storageSettings validation newTreeID nowMillis = .ok (db', newTree)) :
    ∃ id, newTreeID = .ok id ∧ ∃ trees treeControl,
      db' = { db with trees := trees, treeControl := treeControl } ∧
      trees.rows = db.trees.rows ++ [treeRowOf newTree] ∧ newTree.treeId = id ∧
      treeControl.rows = db.treeControl.rows ++ [⟨id, true, true, defaultSequenceIntervalSeconds⟩] := by
  unfold createTree at h
  simp only [bind_eq_ok_iff] at h
  obtain ⟨⟨⟩, -, ⟨⟩, -, id, hid, ⟨⟩, -, trees, htrees, treeControl, hctrl, h⟩ := h
  rw [pure_eq_ok_iff, Prod.mk.injEq] at h
  obtain ⟨rfl, rfl⟩ := h
  exact ⟨id, hid, trees, treeControl, rfl, Table.rows_insert (insertRow_eq_ok htrees).1, rfl,
    Table.rows_insert (insertRow_eq_ok hctrl).1⟩

theorem updateTree_eq_ok {db db' : Db} {treeId : Int64} {updateFunc : Tree → Tree}
    {storageSettings : Option Bytes} {validation : Except GoError Unit} {nowMillis : Int64}
    {tree : Tree}
    (h : updateTree db treeId updateFunc storageSettings validation nowMillis = .ok (db', tree)) :
    ∃ (p : TreeRow → Bool) (f : TreeRow → TreeRow) (hf : ∀ r, (f r).key = r.key),
      db' = { db with trees := db.trees.update p f hf } := by
  unfold updateTree at h
  simp only [bind_eq_ok_iff] at h
  obtain ⟨_, -, ⟨⟩, -, ⟨⟩, -, ⟨⟩, -, h⟩ := h
  rw [pure_eq_ok_iff, Prod.mk.injEq] at h
  exact ⟨_, _, _, h.1.symm⟩

theorem mem_listTrees_false {db : Db} {tree : Tree} (h : tree ∈ listTrees db false) :
    tree.deleted = false := by
  obtain ⟨row, hrow, rfl⟩ := List.mem_map.mp h
  simpa [readTree] using (List.mem_filter.mp hrow).2

end Lemmas

end Vct.Storage.AdminStorage
