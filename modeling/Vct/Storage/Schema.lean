import Mathlib.Data.List.Lex
import Vct.Lib.Except
import Vct.Lib.Sql
import Vct.Controller.Errors
import Vct.Trillian.Types

namespace Vct.Storage.Schema

open Vct.Lib.Sql
open Vct.Lib.Except
open Vct.Controller.Errors
open Vct.Trillian.Types

abbrev Bytes := List UInt8

/-- `bytea` compares byte by byte, a proper prefix first. -/
def bytesRank (b : Bytes) : List Nat := b.map UInt8.toNat

theorem bytesRank_injective : Function.Injective bytesRank :=
  List.map_injective_iff.mpr fun _ _ h => UInt8.toNat_inj.mp h

structure TreeRow where
  treeId : Int64
  treeState : TreeState
  treeType : TreeType
  displayName : List Char
  description : List Char
  createTimeMillis : Int64
  updateTimeMillis : Int64
  maxRootDurationMillis : Int64
  deleted : Bool
  deleteTimeMillis : Option Int64
  -- `current_tree_data`: the latest log root as JSON, `NULL` until the first one is stored
  currentTreeData : Option LogRootV1
  deriving DecidableEq, Repr

structure TreeControlRow where
  treeId : Int64
  signingEnabled : Bool
  sequencingEnabled : Bool
  sequenceIntervalSeconds : Int64
  deriving DecidableEq, Repr

structure SubtreeRow where
  treeId : Int64
  subtreeId : Bytes
  nodes : Bytes
  subtreeRevision : Int64
  deriving DecidableEq, Repr

structure TreeHeadRow where
  treeId : Int64
  treeHeadTimestamp : UInt64
  treeSize : UInt64
  rootHash : Bytes
  rootSignature : Bytes
  treeRevision : UInt64
  deriving DecidableEq, Repr

structure LeafDataRow where
  treeId : Int64
  leafIdentityHash : Bytes
  leafValue : Bytes
  extraData : Bytes
  queueTimestampNanos : Int64
  deriving DecidableEq, Repr

structure SequencedLeafDataRow where
  treeId : Int64
  sequenceNumber : Int64
  leafIdentityHash : Bytes
  merkleLeafHash : Bytes
  integrateTimestampNanos : Int64
  deriving DecidableEq, Repr

structure UnsequencedRow where
  treeId : Int64
  bucket : Int64
  leafIdentityHash : Bytes
  merkleLeafHash : Bytes
  queueTimestampNanos : Int64
  deriving DecidableEq, Repr

def TreeRow.key (r : TreeRow) : Int64 := r.treeId

def TreeControlRow.key (r : TreeControlRow) : Int64 := r.treeId

def SubtreeRow.key (r : SubtreeRow) : Int64 × Bytes × Int64 :=
  (r.treeId, r.subtreeId, r.subtreeRevision)

def TreeHeadRow.key (r : TreeHeadRow) : Int64 × UInt64 := (r.treeId, r.treeRevision)

def LeafDataRow.key (r : LeafDataRow) : Int64 × Bytes := (r.treeId, r.leafIdentityHash)

def SequencedLeafDataRow.key (r : SequencedLeafDataRow) : Int64 × Int64 :=
  (r.treeId, r.sequenceNumber)

def UnsequencedRow.key (r : UnsequencedRow) : Int64 × Int64 × Int64 × Bytes :=
  (r.treeId, r.bucket, r.queueTimestampNanos, r.leafIdentityHash)

def UnsequencedRow.leafKey (r : UnsequencedRow) : Int64 × Bytes := (r.treeId, r.leafIdentityHash)

structure Db where
  trees : Table Int64 TreeRow TreeRow.key
  treeControl : Table Int64 TreeControlRow TreeControlRow.key
  subtree : Table (Int64 × Bytes × Int64) SubtreeRow SubtreeRow.key
  treeHead : Table (Int64 × UInt64) TreeHeadRow TreeHeadRow.key
  leafData : Table (Int64 × Bytes) LeafDataRow LeafDataRow.key
  sequencedLeafData : Table (Int64 × Int64) SequencedLeafDataRow SequencedLeafDataRow.key
  unsequenced : Table (Int64 × Int64 × Int64 × Bytes) UnsequencedRow UnsequencedRow.key

def Db.empty : Db := ⟨.empty, .empty, .empty, .empty, .empty, .empty, .empty⟩

def Db.treeExists (db : Db) (treeId : Int64) : Bool := (db.trees.get treeId).isSome

/-- The labels of the enum type `E_TREE_STATE`. -/
def TreeState.isLabel : TreeState → Bool
  | .active | .frozen | .draining => true
  | _ => false

/-- The labels of the enum type `E_TREE_TYPE`. -/
def TreeType.isLabel : TreeType → Bool
  | .log | .map | .preorderedLog => true
  | _ => false

/-- An `INTEGER` column holds a 32-bit value. -/
def fitsInteger (n : Int64) : Bool := decide (-2147483648 ≤ n.toInt ∧ n.toInt ≤ 2147483647)

section Insert

variable {K R : Type} [DecidableEq K] {key : R → K}

/-- A plain `INSERT`: a taken key is a unique violation, found before the foreign keys
are checked. -/
def insertRow (t : Table K R key) (r : R) (referencesExist : Bool) :
    Except GoError (Table K R key) :=
  match t.insert r with
  | none => .error (.db .uniqueViolation)
  | some t' => if referencesExist then .ok t' else .error (.db .foreignKeyViolation)

/-- The body of the `*_ignore_duplicates` functions: `true` after the insert, `false`
on a unique violation; any other error is caught by `when others`, which only raises
a notice, so the function ends without `RETURN`. -/
def insertIgnoringDuplicates (t : Table K R key) (r : R) (referencesExist : Bool) :
    Except GoError (Table K R key × Bool) :=
  match t.insert r with
  | none => .ok (t, false)
  | some t' => if referencesExist then .ok (t', true) else .error (.db .functionEndedWithoutReturn)

theorem insertIgnoringDuplicates_of_refs {t : Table K R key} {r : R} {refs : Bool}
    (h : refs = true) :
    insertIgnoringDuplicates t r refs = .ok ((t.insert r).getD t, (t.insert r).isSome) := by
  unfold insertIgnoringDuplicates
  split <;> simp_all

theorem insertRow_eq_ok {t t' : Table K R key} {r : R} {refs : Bool}
    (h : insertRow t r refs = .ok t') : t.insert r = some t' ∧ refs = true := by
  unfold insertRow at h
  split at h
  · cases h
  · rename_i t'' hsome
    split at h
    · rename_i hrefs
      cases h
      exact ⟨hsome, hrefs⟩
    · cases h

theorem insertIgnoringDuplicates_eq_ok {t t' : Table K R key} {r : R} {refs b : Bool}
    (h : insertIgnoringDuplicates t r refs = .ok (t', b)) :
    (t.insert r = none ∧ t' = t ∧ b = false) ∨ (t.insert r = some t' ∧ b = true ∧ refs = true) := by
  unfold insertIgnoringDuplicates at h
  split at h
  · rename_i hnone
    cases h
    exact Or.inl ⟨hnone, rfl, rfl⟩
  · rename_i t'' hsome
    split at h
    · rename_i hrefs
      cases h
      exact Or.inr ⟨hsome, rfl, hrefs⟩
    · cases h

end Insert

/-- `insert_leaf_data_ignore_duplicates` with five arguments, into `leaf_data`. -/
def insertLeafData (db : Db) (row : LeafDataRow) : Except GoError (Db × Bool) := do
  let (t, inserted) ← insertIgnoringDuplicates db.leafData row (db.treeExists row.treeId)
  return ({ db with leafData := t }, inserted)

theorem insertLeafData_eq_ok {db db' : Db} {row : LeafDataRow} {b : Bool}
    (h : insertLeafData db row = .ok (db', b)) :
    ∃ t, db' = { db with leafData := t } ∧
      ((db.leafData.insert row = none ∧ t = db.leafData ∧ b = false) ∨
        (db.leafData.insert row = some t ∧ b = true ∧ db.treeExists row.treeId = true)) := by
  rw [insertLeafData, bind_eq_ok_iff] at h
  obtain ⟨⟨t, b'⟩, ht, h⟩ := h
  cases h
  exact ⟨t, rfl, insertIgnoringDuplicates_eq_ok ht⟩

theorem insertLeafData_of_treeExists {db : Db} {row : LeafDataRow}
    (h : db.treeExists row.treeId = true) :
    insertLeafData db row =
      .ok ({ db with leafData := (db.leafData.insert row).getD db.leafData },
        (db.leafData.insert row).isSome) := by
  rw [insertLeafData, insertIgnoringDuplicates_of_refs h]
  rfl

theorem insertLeafData_of_mem {db : Db} {row : LeafDataRow}
    (hk : row.key ∈ db.leafData.rows.map LeafDataRow.key) : insertLeafData db row = .ok (db, false) := by
  rw [insertLeafData, insertIgnoringDuplicates, Table.insert_eq_none_iff.mpr hk]
  rfl

/-- `insert_leaf_data_ignore_duplicates` with four arguments, into `unsequenced` in
bucket 0; `unsequenced` has no foreign key. -/
def insertUnsequencedEntry (db : Db) (treeId : Int64) (leafIdentityHash merkleLeafHash : Bytes)
    (queueTimestampNanos : Int64) : Except GoError (Db × Bool) := do
  let (t, inserted) ← insertIgnoringDuplicates db.unsequenced
    ⟨treeId, 0, leafIdentityHash, merkleLeafHash, queueTimestampNanos⟩ true
  return ({ db with unsequenced := t }, inserted)

theorem insertUnsequencedEntry_eq_ok {db db' : Db} {treeId : Int64}
    {leafIdentityHash merkleLeafHash : Bytes} {queueTimestampNanos : Int64} {b : Bool}
    (h : insertUnsequencedEntry db treeId leafIdentityHash merkleLeafHash queueTimestampNanos =
      .ok (db', b)) :
    ∃ t, db' = { db with unsequenced := t } ∧
      (t = db.unsequenced ∨ db.unsequenced.insert
        ⟨treeId, 0, leafIdentityHash, merkleLeafHash, queueTimestampNanos⟩ = some t) := by
  rw [insertUnsequencedEntry, bind_eq_ok_iff] at h
  obtain ⟨⟨t, b'⟩, ht, h⟩ := h
  cases h
  rcases insertIgnoringDuplicates_eq_ok ht with ⟨-, rfl, -⟩ | ⟨hsome, -, -⟩
  · exact ⟨_, rfl, Or.inl rfl⟩
  · exact ⟨t, rfl, Or.inr hsome⟩

/-- `insert_sequenced_leaf_data_ignore_duplicates`; the row references its tree and
its `leaf_data` row. -/
def insertSequencedLeaf (db : Db) (row : SequencedLeafDataRow) : Except GoError (Db × Bool) := do
  let (t, inserted) ← insertIgnoringDuplicates db.sequencedLeafData row
    (db.treeExists row.treeId && (db.leafData.get (row.treeId, row.leafIdentityHash)).isSome)
  return ({ db with sequencedLeafData := t }, inserted)

theorem insertSequencedLeaf_eq_ok {db db' : Db} {row : SequencedLeafDataRow} {b : Bool}
    (h : insertSequencedLeaf db row = .ok (db', b)) :
    db' = { db with
      sequencedLeafData := (db.sequencedLeafData.insert row).getD db.sequencedLeafData } ∧
      (b = true ↔ (db.sequencedLeafData.insert row).isSome) ∧
      ((db.sequencedLeafData.insert row).isSome → db.treeExists row.treeId = true) := by
  rw [insertSequencedLeaf, bind_eq_ok_iff] at h
  obtain ⟨⟨t, b'⟩, ht, h⟩ := h
  cases h
  rcases insertIgnoringDuplicates_eq_ok ht with ⟨hnone, rfl, rfl⟩ | ⟨hsome, rfl, hrefs⟩
  · simp [hnone]
  · simp only [hsome, Option.getD_some, Option.isSome_some, iff_self, forall_const, true_and]
    exact (Bool.and_eq_true _ _ ▸ hrefs).1

theorem insertSequencedLeaf_of_refs {db : Db} {row : SequencedLeafDataRow}
    (hexists : db.treeExists row.treeId = true)
    (hdata : (db.leafData.get (row.treeId, row.leafIdentityHash)).isSome = true) :
    insertSequencedLeaf db row =
      .ok ({ db with
        sequencedLeafData := (db.sequencedLeafData.insert row).getD db.sequencedLeafData },
        (db.sequencedLeafData.insert row).isSome) := by
  rw [insertSequencedLeaf, insertIgnoringDuplicates_of_refs (by simp [hexists, hdata])]
  rfl

def insertSubtrees (db : Db) (rows : List SubtreeRow) : Except GoError Db :=
  if rows.all (fun r => fitsInteger r.subtreeRevision) then
    match db.subtree.insertAll rows with
    | none => .error (.db .uniqueViolation)
    | some t =>
        if rows.all (fun r => db.treeExists r.treeId) then .ok { db with subtree := t }
        else .error (.db .foreignKeyViolation)
  else .error (.db .numericValueOutOfRange)

theorem insertSubtrees_eq_ok {db db' : Db} {rows : List SubtreeRow}
    (h : insertSubtrees db rows = .ok db') :
    ∃ t, db' = { db with subtree := t } ∧ t.rows = db.subtree.rows ++ rows ∧
      ∀ r ∈ rows, db.treeExists r.treeId = true := by
  unfold insertSubtrees at h
  split at h
  · split at h
    · cases h
    · rename_i t ht
      split at h
      · rename_i hrefs
        cases h
        exact ⟨t, rfl, Table.rows_insertAll ht, List.all_eq_true.mp hrefs⟩
      · cases h
  · cases h

def insertTreeHead (db : Db) (row : TreeHeadRow) : Except GoError Db := do
  let t ← insertRow db.treeHead row (db.treeExists row.treeId)
  return { db with treeHead := t }

/-- `DELETE FROM trees WHERE tree_id = $1` with the `ON DELETE CASCADE` of every table
that references `trees`, and of `sequenced_leaf_data`, which also references
`leaf_data`. `unsequenced` references nothing and keeps its rows. -/
def deleteTree (db : Db) (treeId : Int64) : Db :=
  { db with
    trees := db.trees.delete (fun r => r.treeId = treeId)
    treeControl := db.treeControl.delete (fun r => r.treeId = treeId)
    subtree := db.subtree.delete (fun r => r.treeId = treeId)
    treeHead := db.treeHead.delete (fun r => r.treeId = treeId)
    leafData := db.leafData.delete (fun r => r.treeId = treeId)
    sequencedLeafData := db.sequencedLeafData.delete (fun r => r.treeId = treeId) }

section ForeignKeys

/-- Every row of `rows'` is a row of `rows` or a row of a tree that exists in `db`. -/
def KeepsOrRefers {R : Type} (db : Db) (treeId : R → Int64) (rows rows' : List R) : Prop :=
  ∀ r ∈ rows', r ∈ rows ∨ db.treeExists (treeId r) = true

/-- What a transaction that creates and deletes no tree does to `trees` and the tables that
reference it: `trees` keeps its keys, and a referencing table gains rows of trees that
exist only. `unsequenced` references nothing. -/
structure KeepsForeignKeys (db db' : Db) : Prop where
  trees_keys : db'.trees.rows.map TreeRow.key = db.trees.rows.map TreeRow.key
  treeControl : KeepsOrRefers db (·.treeId) db.treeControl.rows db'.treeControl.rows
  subtree : KeepsOrRefers db (·.treeId) db.subtree.rows db'.subtree.rows
  treeHead : KeepsOrRefers db (·.treeId) db.treeHead.rows db'.treeHead.rows
  leafData : KeepsOrRefers db (·.treeId) db.leafData.rows db'.leafData.rows
  sequencedLeafData :
    KeepsOrRefers db (·.treeId) db.sequencedLeafData.rows db'.sequencedLeafData.rows

theorem Db.treeExists_eq_of_keys {db db' : Db}
    (h : db'.trees.rows.map TreeRow.key = db.trees.rows.map TreeRow.key) (treeId : Int64) :
    db'.treeExists treeId = db.treeExists treeId := by
  unfold Db.treeExists
  rw [Bool.eq_iff_iff, Table.isSome_get_iff, Table.isSome_get_iff, h]

section KeepsOrRefers

variable {R : Type} {db : Db} {treeId : R → Int64}

theorem keepsOrRefers_refl (rows : List R) : KeepsOrRefers db treeId rows rows :=
  fun _ hr => Or.inl hr

theorem KeepsOrRefers.trans {db' : Db} {rows₁ rows₂ rows₃ : List R}
    (hkeys : db'.trees.rows.map TreeRow.key = db.trees.rows.map TreeRow.key)
    (h₁ : KeepsOrRefers db treeId rows₁ rows₂) (h₂ : KeepsOrRefers db' treeId rows₂ rows₃) :
    KeepsOrRefers db treeId rows₁ rows₃ := by
  intro r hr
  rcases h₂ r hr with hr | hexists
  · exact h₁ r hr
  · exact Or.inr (Db.treeExists_eq_of_keys hkeys _ ▸ hexists)

theorem keepsOrRefers_append {rows new : List R}
    (hnew : ∀ r ∈ new, db.treeExists (treeId r) = true) :
    KeepsOrRefers db treeId rows (rows ++ new) := by
  intro r hr
  rcases List.mem_append.mp hr with hr | hr
  · exact Or.inl hr
  · exact Or.inr (hnew r hr)

end KeepsOrRefers

theorem keepsForeignKeys_refl (db : Db) : KeepsForeignKeys db db :=
  ⟨rfl, keepsOrRefers_refl _, keepsOrRefers_refl _, keepsOrRefers_refl _, keepsOrRefers_refl _,
    keepsOrRefers_refl _⟩

theorem KeepsForeignKeys.trans {db₁ db₂ db₃ : Db} (h₁ : KeepsForeignKeys db₁ db₂)
    (h₂ : KeepsForeignKeys db₂ db₃) : KeepsForeignKeys db₁ db₃ :=
  ⟨h₂.trees_keys.trans h₁.trees_keys, h₁.treeControl.trans h₁.trees_keys h₂.treeControl,
    h₁.subtree.trans h₁.trees_keys h₂.subtree, h₁.treeHead.trans h₁.trees_keys h₂.treeHead,
    h₁.leafData.trans h₁.trees_keys h₂.leafData,
    h₁.sequencedLeafData.trans h₁.trees_keys h₂.sequencedLeafData⟩

theorem keepsForeignKeys_unsequenced (db : Db) (u : Table (Int64 × Int64 × Int64 × Bytes)
    UnsequencedRow UnsequencedRow.key) : KeepsForeignKeys db { db with unsequenced := u } :=
  ⟨rfl, keepsOrRefers_refl _, keepsOrRefers_refl _, keepsOrRefers_refl _, keepsOrRefers_refl _,
    keepsOrRefers_refl _⟩

theorem keepsForeignKeys_updateTrees (db : Db) (p : TreeRow → Bool) (f : TreeRow → TreeRow)
    (hf : ∀ r, (f r).key = r.key) :
    KeepsForeignKeys db { db with trees := db.trees.update p f hf } :=
  ⟨Table.map_key_update db.trees p f hf, keepsOrRefers_refl _, keepsOrRefers_refl _,
    keepsOrRefers_refl _, keepsOrRefers_refl _, keepsOrRefers_refl _⟩

theorem keepsForeignKeys_insertLeafData {db db' : Db} {row : LeafDataRow} {b : Bool}
    (h : insertLeafData db row = .ok (db', b)) : KeepsForeignKeys db db' := by
  obtain ⟨t, rfl, ht⟩ := insertLeafData_eq_ok h
  rcases ht with ⟨-, rfl, -⟩ | ⟨hsome, -, hexists⟩
  · exact keepsForeignKeys_refl db
  · refine ⟨rfl, keepsOrRefers_refl _, keepsOrRefers_refl _, keepsOrRefers_refl _, ?_,
      keepsOrRefers_refl _⟩
    rw [KeepsOrRefers, Table.rows_insert hsome]
    exact keepsOrRefers_append (by simpa using hexists)

theorem keepsForeignKeys_insertSequencedLeaf {db db' : Db} {row : SequencedLeafDataRow} {b : Bool}
    (h : insertSequencedLeaf db row = .ok (db', b)) : KeepsForeignKeys db db' := by
  obtain ⟨rfl, -, hexists⟩ := insertSequencedLeaf_eq_ok h
  refine ⟨rfl, keepsOrRefers_refl _, keepsOrRefers_refl _, keepsOrRefers_refl _,
    keepsOrRefers_refl _, ?_⟩
  cases hins : db.sequencedLeafData.insert row with
  | none => exact keepsOrRefers_refl _
  | some t =>
      have hrow := hexists (by rw [hins]; rfl)
      show KeepsOrRefers db _ _ t.rows
      rw [Table.rows_insert hins]
      exact keepsOrRefers_append (by simpa using hrow)

theorem keepsForeignKeys_insertSubtrees {db db' : Db} {rows : List SubtreeRow}
    (h : insertSubtrees db rows = .ok db') : KeepsForeignKeys db db' := by
  obtain ⟨t, rfl, ht, hexists⟩ := insertSubtrees_eq_ok h
  refine ⟨rfl, keepsOrRefers_refl _, ?_, keepsOrRefers_refl _, keepsOrRefers_refl _,
    keepsOrRefers_refl _⟩
  show KeepsOrRefers db _ _ t.rows
  rw [ht]
  exact keepsOrRefers_append hexists

theorem keepsForeignKeys_insertTreeHead {db db' : Db} {row : TreeHeadRow}
    (h : insertTreeHead db row = .ok db') : KeepsForeignKeys db db' := by
  rw [insertTreeHead, bind_eq_ok_iff] at h
  obtain ⟨t, ht, h⟩ := h
  cases h
  obtain ⟨hsome, hexists⟩ := insertRow_eq_ok ht
  refine ⟨rfl, keepsOrRefers_refl _, keepsOrRefers_refl _, ?_, keepsOrRefers_refl _,
    keepsOrRefers_refl _⟩
  show KeepsOrRefers db _ _ t.rows
  rw [Table.rows_insert hsome]
  exact keepsOrRefers_append (by simpa using hexists)

end ForeignKeys

end Vct.Storage.Schema
