import Vct.Storage.LogSystem
import Vct.Storage.AdminStorage

namespace Vct.Storage.TreeLifecycle

open Vct.Lib.Sql
open Vct.Lib.Interleaving
open Vct.Controller.Errors
open Vct.Trillian.Types
open Vct.Storage.Schema
open Vct.Storage.TreeStorage
open Vct.Storage.LogStorage
open Vct.Storage.LogSystem
open Vct.Storage.AdminStorage

variable {N : Type}

/-- The admin transactions, with what Trillian's validation, `NewTreeID` and the clock
answered them. -/
inductive AdminOp
  | createTree (tree : Tree) (storageSettings : Option Bytes) (validation : Except GoError Unit)
      (newTreeID : Except GoError Int64) (nowMillis : Int64)
  | updateTree (treeId : Int64) (updateFunc : Tree → Tree) (storageSettings : Option Bytes)
      (validation : Except GoError Unit) (nowMillis : Int64)
  | softDeleteTree (treeId nowMillis : Int64)
  | undeleteTree (treeId : Int64)
  | hardDeleteTree (treeId : Int64)

/-- One admin transaction through `ReadWriteTransaction`: a commit, or a rollback. -/
def adminStep (op : AdminOp) (db : Db) : Db :=
  match op with
  | .createTree tree storageSettings validation newTreeID nowMillis =>
      match createTree db tree storageSettings validation newTreeID nowMillis with
      | .ok (db', _) => db'
      | .error _ => db
  | .updateTree treeId updateFunc storageSettings validation nowMillis =>
      match updateTree db treeId updateFunc storageSettings validation nowMillis with
      | .ok (db', _) => db'
      | .error _ => db
  | .softDeleteTree treeId nowMillis =>
      match softDeleteTree db treeId nowMillis with
      | .ok (db', _) => db'
      | .error _ => db
  | .undeleteTree treeId =>
      match undeleteTree db treeId with
      | .ok (db', _) => db'
      | .error _ => db
  | .hardDeleteTree treeId =>
      match hardDeleteTree db treeId with
      | .ok db' => db'
      | .error _ => db

def AdminOp.Creates (treeId : Int64) : AdminOp → Prop
  | .createTree _ _ _ newTreeID _ => newTreeID = .ok treeId
  | .updateTree .. => False
  | .softDeleteTree .. => False
  | .undeleteTree .. => False
  | .hardDeleteTree .. => False

inductive Event (N : Type)
  | admin (op : AdminOp)
  | log (e : LogTx N)

def Event.Creates (treeId : Int64) : Event N → Prop
  | .admin op => op.Creates treeId
  | .log _ => False

section Step

variable (marshal : SubtreeProto N → Except GoError Bytes) (leafSort : LeafSort)

def systemStep (e : Event N) (s : LogState N) : LogState N :=
  match e with
  | .admin op => { s with db := adminStep op s.db }
  | .log e => logStep marshal leafSort e s

end Step

/-- No row of `trees` or of a table that references it has the tree id. -/
structure NoRowsOf (db : Db) (treeId : Int64) : Prop where
  trees : ∀ r ∈ db.trees.rows, r.treeId ≠ treeId
  treeControl : ∀ r ∈ db.treeControl.rows, r.treeId ≠ treeId
  subtree : ∀ r ∈ db.subtree.rows, r.treeId ≠ treeId
  treeHead : ∀ r ∈ db.treeHead.rows, r.treeId ≠ treeId
  leafData : ∀ r ∈ db.leafData.rows, r.treeId ≠ treeId
  sequencedLeafData : ∀ r ∈ db.sequencedLeafData.rows, r.treeId ≠ treeId

instance (db : Db) (treeId : Int64) : Decidable (NoRowsOf db treeId) :=
  decidable_of_iff
    ((∀ r ∈ db.trees.rows, r.treeId ≠ treeId) ∧ (∀ r ∈ db.treeControl.rows, r.treeId ≠ treeId) ∧
      (∀ r ∈ db.subtree.rows, r.treeId ≠ treeId) ∧ (∀ r ∈ db.treeHead.rows, r.treeId ≠ treeId) ∧
      (∀ r ∈ db.leafData.rows, r.treeId ≠ treeId) ∧
      ∀ r ∈ db.sequencedLeafData.rows, r.treeId ≠ treeId)
    ⟨fun ⟨h₁, h₂, h₃, h₄, h₅, h₆⟩ => ⟨h₁, h₂, h₃, h₄, h₅, h₆⟩,
      fun h => ⟨h.1, h.2, h.3, h.4, h.5, h.6⟩⟩

section NoRows

variable {db db' : Db} {treeId : Int64}

theorem NoRowsOf.treeExists_eq_false (h : NoRowsOf db treeId) : db.treeExists treeId = false := by
  rw [Bool.eq_false_iff, ne_eq, Db.treeExists, Table.isSome_get_iff]
  intro hk
  obtain ⟨r, hr, hkey⟩ := List.mem_map.mp hk
  exact h.trees r hr hkey

theorem ne_of_keepsOrRefers {R : Type} {key : R → Int64} {rows rows' : List R}
    (hrows : ∀ r ∈ rows, key r ≠ treeId) (hgone : db.treeExists treeId = false)
    (h : KeepsOrRefers db key rows rows') : ∀ r ∈ rows', key r ≠ treeId := by
  intro r hr hkey
  rcases h r hr with hr | hexists
  · exact hrows r hr hkey
  · rw [hkey, hgone] at hexists
    cases hexists

theorem NoRowsOf.of_keepsForeignKeys (h : NoRowsOf db treeId) (hk : KeepsForeignKeys db db') :
    NoRowsOf db' treeId := by
  have hgone := h.treeExists_eq_false
  refine ⟨fun r hr hkey => ?_, ne_of_keepsOrRefers h.treeControl hgone hk.treeControl,
    ne_of_keepsOrRefers h.subtree hgone hk.subtree, ne_of_keepsOrRefers h.treeHead hgone hk.treeHead,
    ne_of_keepsOrRefers h.leafData hgone hk.leafData,
    ne_of_keepsOrRefers h.sequencedLeafData hgone hk.sequencedLeafData⟩
  have hmem : r.key ∈ db.trees.rows.map TreeRow.key := hk.trees_keys ▸ List.mem_map_of_mem hr
  obtain ⟨r', hr', hkey'⟩ := List.mem_map.mp hmem
  exact h.trees r' hr' (hkey'.trans hkey)

theorem NoRowsOf.of_hardDeleteTree {treeId' : Int64} (h : NoRowsOf db treeId)
    (hd : hardDeleteTree db treeId' = .ok db') : NoRowsOf db' treeId := by
  obtain ⟨-, rfl⟩ := hardDeleteTree_eq_ok_iff.mp hd
  exact ⟨fun r hr => h.trees r (List.mem_of_mem_filter hr),
    fun r hr => h.treeControl r (List.mem_of_mem_filter (List.mem_of_mem_filter hr)),
    fun r hr => h.subtree r (List.mem_of_mem_filter hr),
    fun r hr => h.treeHead r (List.mem_of_mem_filter hr),
    fun r hr => h.leafData r (List.mem_of_mem_filter hr),
    fun r hr => h.sequencedLeafData r (List.mem_of_mem_filter hr)⟩

theorem noRowsOf_hardDeleteTree (hd : hardDeleteTree db treeId = .ok db') : NoRowsOf db' treeId := by
  obtain ⟨-, rfl⟩ := hardDeleteTree_eq_ok_iff.mp hd
  have hkept : ∀ {R : Type} (key : R → Int64) (rows : List R),
      ∀ r ∈ rows.filter (fun r => !decide (key r = treeId)), key r ≠ treeId := by
    intro R key rows r hr
    simpa using (List.mem_filter.mp hr).2
  exact ⟨hkept _ _, fun r hr => hkept _ _ r (List.mem_of_mem_filter hr), hkept _ _, hkept _ _,
    hkept _ _, hkept _ _⟩

theorem NoRowsOf.of_createTree {tree newTree : Tree} {storageSettings : Option Bytes}
    {validation : Except GoError Unit} {newTreeID : Except GoError Int64} {nowMillis : Int64}
    (h : NoRowsOf db treeId)
    (hc : createTree db tree storageSettings validation newTreeID nowMillis = .ok (db', newTree))
    (hne : newTreeID ≠ .ok treeId) : NoRowsOf db' treeId := by
  obtain ⟨id, rfl, trees, treeControl, rfl, htrees, hid, hctrl⟩ := createTree_eq_ok hc
  have hne' : id ≠ treeId := fun heq => hne (heq ▸ rfl)
  refine ⟨fun r hr => ?_, fun r hr => ?_, h.subtree, h.treeHead, h.leafData, h.sequencedLeafData⟩
  · rw [htrees] at hr
    rcases List.mem_append.mp hr with hr | hr
    · exact h.trees r hr
    · rw [List.mem_singleton.mp hr]
      show newTree.treeId ≠ treeId
      rw [hid]
      exact hne'
  · rw [hctrl] at hr
    rcases List.mem_append.mp hr with hr | hr
    · exact h.treeControl r hr
    · rw [List.mem_singleton.mp hr]
      exact hne'

theorem NoRowsOf.of_updateDeleted {treeId' : Int64} {deleted : Bool} {deleteTimeMillis : Option Int64}
    {r : Db × Tree} (h : NoRowsOf db treeId)
    (hu : updateDeleted db treeId' deleted deleteTimeMillis = .ok r) : NoRowsOf r.1 treeId := by
  obtain ⟨_, -, -, rfl⟩ := updateDeleted_eq_ok_iff.mp hu
  exact h.of_keepsForeignKeys (keepsForeignKeys_updateTrees db _ _ _)

theorem noRowsOf_adminStep (op : AdminOp) (hop : ¬ op.Creates treeId) (h : NoRowsOf db treeId) :
    NoRowsOf (adminStep op db) treeId := by
  cases op with
  | createTree tree storageSettings validation newTreeID nowMillis =>
      dsimp only [adminStep]
      split
      · rename_i db' newTree hc
        exact h.of_createTree hc hop
      · exact h
  | updateTree treeId' updateFunc storageSettings validation nowMillis =>
      dsimp only [adminStep]
      split
      · rename_i db' tree hu
        obtain ⟨p, f, hf, rfl⟩ := updateTree_eq_ok hu
        exact h.of_keepsForeignKeys (keepsForeignKeys_updateTrees db p f hf)
      · exact h
  | softDeleteTree treeId' nowMillis =>
      dsimp only [adminStep]
      split
      · rename_i db' tree hs
        exact h.of_updateDeleted hs
      · exact h
  | undeleteTree treeId' =>
      dsimp only [adminStep]
      split
      · rename_i db' tree hs
        exact h.of_updateDeleted hs
      · exact h
  | hardDeleteTree treeId' =>
      dsimp only [adminStep]
      split
      · rename_i db' hd
        exact h.of_hardDeleteTree hd
      · exact h

variable (marshal : SubtreeProto N → Except GoError Bytes) (leafSort : LeafSort)

theorem noRowsOf_systemStep (e : Event N) (he : ¬ e.Creates treeId) {s : LogState N}
    (h : NoRowsOf s.db treeId) : NoRowsOf (systemStep marshal leafSort e s).db treeId := by
  cases e with
  | admin op => exact noRowsOf_adminStep op he h
  | log e => exact h.of_keepsForeignKeys (keepsForeignKeys_logStep marshal leafSort e s)

/-- Once a tree is gone, no run that creates no tree with its id brings a row of it back. -/
theorem noRowsOf_run (events : List (Event N)) (hevents : ∀ e ∈ events, ¬ e.Creates treeId)
    {s : LogState N} (h : NoRowsOf s.db treeId) :
    NoRowsOf (run (systemStep marshal leafSort) events s).db treeId :=
  run_invariant_of_forall (P := fun s => NoRowsOf s.db treeId)
    (fun e _ he hs => noRowsOf_systemStep marshal leafSort e he hs) events hevents s h

end NoRows

theorem mem_getActiveLogIDs {db : Db} {treeId : Int64} (h : treeId ∈ getActiveLogIDs db) :
    ∃ row, db.trees.get treeId = some row ∧ row.deleted = false := by
  obtain ⟨row, hrow, rfl⟩ := List.mem_map.mp h
  obtain ⟨hmem, hkeep⟩ := List.mem_filter.mp hrow
  exact ⟨row, get_trees_eq_some_iff.mpr ⟨hmem, rfl⟩, (of_decide_eq_true hkeep).2.2⟩

section Lifecycle

variable (marshal : SubtreeProto N → Except GoError Bytes) (leafSort : LeafSort)

theorem tree_lifecycle (events : List (Event N)) (s : LogState N) (treeId nowMillis : Int64) :
    ((∃ r, softDeleteTree (run (systemStep marshal leafSort) events s).db treeId nowMillis = .ok r) ↔
      ∃ row, (run (systemStep marshal leafSort) events s).db.trees.get treeId = some row ∧
        row.deleted = false) ∧
    ((∃ r, undeleteTree (run (systemStep marshal leafSort) events s).db treeId = .ok r) ↔
      ∃ row, (run (systemStep marshal leafSort) events s).db.trees.get treeId = some row ∧
        row.deleted = true) ∧
    ((∃ db', hardDeleteTree (run (systemStep marshal leafSort) events s).db treeId = .ok db') ↔
      ∃ row, (run (systemStep marshal leafSort) events s).db.trees.get treeId = some row ∧
        row.deleted = true) ∧
    (∀ tree ∈ listTrees (run (systemStep marshal leafSort) events s).db false, tree.deleted = false) ∧
    (∀ id ∈ getActiveLogIDs (run (systemStep marshal leafSort) events s).db,
      ∃ row, (run (systemStep marshal leafSort) events s).db.trees.get id = some row ∧
        row.deleted = false) ∧
    ∀ pre post, events = pre ++ .admin (.hardDeleteTree treeId) :: post →
      (∃ db', hardDeleteTree (run (systemStep marshal leafSort) pre s).db treeId = .ok db') →
      (∀ e ∈ post, ¬ e.Creates treeId) →
      NoRowsOf (run (systemStep marshal leafSort) events s).db treeId := by
  refine ⟨softDeleteTree_ok_iff, undeleteTree_ok_iff, ?_, fun tree => mem_listTrees_false,
    fun id => mem_getActiveLogIDs, ?_⟩
  · constructor
    · rintro ⟨db', hd⟩
      exact (hardDeleteTree_eq_ok_iff.mp hd).1
    · intro hrow
      exact ⟨_, hardDeleteTree_eq_ok_iff.mpr ⟨hrow, rfl⟩⟩
  · rintro pre post rfl ⟨db', hd⟩ hpost
    -- the hard delete commits, and the rest of the run creates no tree with the id
    have hafter : NoRowsOf
        (systemStep marshal leafSort (.admin (.hardDeleteTree treeId)) (run (systemStep marshal leafSort) pre s)).db
        treeId := by
      show NoRowsOf (adminStep (.hardDeleteTree treeId) (run (systemStep marshal leafSort) pre s).db) treeId
      rw [adminStep, hd]
      exact noRowsOf_hardDeleteTree hd
    rw [run_append, run_cons]
    exact noRowsOf_run marshal leafSort post hpost hafter

end Lifecycle

section Orphans

def logTree₇ : Tree := ⟨7, .active, .log, [], [], 0, 0, 0, false, none⟩

def leafOne : LogLeaf := ⟨List.replicate 32 1, [], [], 0, List.replicate 32 1, none, none⟩

def noSubtreeMarshal (_ : SubtreeProto Unit) : Except GoError Bytes := .ok []

/-- Tree `7` is created and initialised, one leaf is queued, and the tree is soft-deleted
and then hard-deleted. -/
def orphanRun : List (Event Unit) :=
  [.admin (.createTree logTree₇ none (.ok ()) (.ok 7) 0), .log (.storeRoot logTree₇ ⟨0, [], 0, 0, []⟩),
    .log (.queueLeaves logTree₇ [leafOne] 1), .admin (.softDeleteTree 7 2),
    .admin (.hardDeleteTree 7)]

theorem hardDeleteTree_leaves_unsequenced :
    NoRowsOf (run (systemStep noSubtreeMarshal stableLeafSort) orphanRun ⟨Db.empty, [], [], []⟩).db 7 ∧
      ∃ r ∈ (run (systemStep noSubtreeMarshal stableLeafSort) orphanRun ⟨Db.empty, [], [], []⟩).db.unsequenced.rows,
        r.treeId = 7 := by
  decide +kernel

end Orphans

end Vct.Storage.TreeLifecycle
