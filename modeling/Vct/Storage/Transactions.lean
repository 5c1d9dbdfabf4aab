import Vct.Storage.LeafQueue

namespace Vct.Storage.Transactions

open Vct.Lib.Except
open Vct.Controller.Errors
open Vct.Trillian.Types
open Vct.Storage.Schema
open Vct.Storage.TreeStorage
open Vct.Storage.LogStorage

inductive TxStatus
  | active
  | committed
  | rolledBack
  deriving DecidableEq, Repr

/-- A `treeTX` or an `adminTX`: its `closed` flag and the status of its `sql.Tx`. -/
structure TxHandle where
  closed : Bool
  status : TxStatus
  deriving DecidableEq, Repr

namespace TxHandle

def begun : TxHandle := ⟨false, .active⟩

/-- `Rollback`: `closed` is set, and `sql.Tx.Rollback` ends an active transaction (on one
that is over it answers `ErrTxDone`). -/
def rollback (t : TxHandle) : TxHandle :=
  ⟨true, if t.status = .active then .rolledBack else t.status⟩

/-- The end of `Commit`: `closed` is set, then `sql.Tx.Commit` sends `COMMIT`, which the
server may refuse. -/
def commit (commitErr : Option GoError) (t : TxHandle) : TxHandle :=
  ⟨true, if t.status = .active then (if commitErr.isSome then .rolledBack else .committed)
    else t.status⟩

def close (t : TxHandle) : TxHandle := if t.closed then t else t.rollback

@[simp] theorem begun_close : begun.close = ⟨true, .rolledBack⟩ := rfl

@[simp] theorem close_of_closed (status : TxStatus) : (⟨true, status⟩ : TxHandle).close = ⟨true, status⟩ :=
  rfl

@[simp] theorem begun_commit_some (err : GoError) : begun.commit (some err) = ⟨true, .rolledBack⟩ :=
  rfl

@[simp] theorem begun_commit_none : begun.commit none = ⟨true, .committed⟩ := rfl

end TxHandle

open TxHandle

/-- What a method leaves when it returns: its result, what the database holds for every
other connection, and the transaction it began (`none` where `BEGIN` failed). -/
structure Outcome (α : Type) where
  result : Except GoError α
  db : Db
  tx : Option TxHandle

/-- The method left no transaction open, and a method that failed committed none of its
writes. -/
structure Outcome.Clean {α : Type} (o : Outcome α) (db : Db) : Prop where
  ended : ∀ h, o.tx = some h → h.status ≠ .active
  noWrites : ∀ err, o.result = .error err → o.db = db ∧ ∀ h, o.tx = some h → h.status ≠ .committed

variable {N : Type} (marshal : SubtreeProto N → Except GoError Bytes) (leafSort : LeafSort)

/-- `treeTX.Commit` of a transaction that started on `db` and wrote `db'`: a flush of the
subtree cache that fails returns before `closed` is set, then `sql.Tx.Commit`. The
database is the one other connections see afterwards. -/
def treeTxCommit (tx : TreeTx N) (db db' : Db) (commitErr : Option GoError) (t : TxHandle) :
    Except GoError Unit × Db × TxHandle :=
  match commit marshal tx db' with
  | .error err => (.error err, db, t)
  | .ok db'' =>
    match commitErr with
    | some err => (.error err, db, t.commit commitErr)
    | none => (.ok (), db'', t.commit none)

theorem treeTxCommit_cases (tx : TreeTx N) (db db' : Db) (commitErr : Option GoError)
    (t : TxHandle) :
    (∃ err, treeTxCommit marshal tx db db' commitErr t = (.error err, db, t)) ∨
      (∃ err, commitErr = some err ∧
        treeTxCommit marshal tx db db' commitErr t = (.error err, db, t.commit commitErr)) ∨
      ∃ db'', commit marshal tx db' = .ok db'' ∧ commitErr = none ∧
        treeTxCommit marshal tx db db' commitErr t = (.ok (), db'', t.commit none) := by
  unfold treeTxCommit
  cases hcommit : commit marshal tx db' with
  | error err => exact .inl ⟨err, rfl⟩
  | ok db'' =>
    cases commitErr with
    | none => exact .inr (.inr ⟨db'', rfl, rfl, rfl⟩)
    | some err => exact .inr (.inl ⟨err, rfl, rfl⟩)

/-- A `treeTxCommit` of a transaction just begun that returns an error has committed
nothing. -/
theorem treeTxCommit_noWrites {tx : TreeTx N} {db db' db'' : Db} {commitErr : Option GoError}
    {r : Except GoError Unit} {t : TxHandle}
    (hc : treeTxCommit marshal tx db db' commitErr begun = (r, db'', t)) {α : Type}
    {g : Unit → α} {err : GoError} (h : r.map g = .error err) :
    db'' = db ∧ t.status ≠ .committed := by
  rcases treeTxCommit_cases marshal tx db db' commitErr begun with
    ⟨err, h'⟩ | ⟨err, rfl, h'⟩ | ⟨db'', -, rfl, h'⟩
  · rw [h'] at hc
    cases hc
    exact ⟨rfl, by simp [begun]⟩
  · rw [h'] at hc
    cases hc
    exact ⟨rfl, by simp⟩
  · rw [h'] at hc
    cases hc
    cases h

/-- `postgresLogStorage.ReadWriteTransaction`: `ErrTreeNeedsInit` is let through, so `f`
runs on a tree that needs initialising; `tx.Close()` is deferred. -/
def readWriteTransaction (db : Db) (tree : Tree) (beginErr : Option GoError)
    (f : LogTreeTx N → Db → Except GoError (LogTreeTx N × Db)) (commitErr : Option GoError) :
    Outcome Unit :=
  match beginErr with
  | some err => ⟨.error err, db, none⟩
  | none =>
    let (tx, _) := beginInternal (N := N) db tree
    match f tx db with
    | .error err => ⟨.error err, db, some begun.close⟩
    | .ok (tx', db') =>
      let (r, db'', t) := treeTxCommit marshal tx'.toTreeTx db db' commitErr begun
      ⟨r, db'', some t.close⟩

/-- `pgAdminStorage.ReadWriteTransaction`, with `tx.Close()` deferred. -/
def adminReadWriteTransaction (db : Db) (beginErr : Option GoError) (f : Db → Except GoError Db)
    (commitErr : Option GoError) : Outcome Unit :=
  match beginErr with
  | some err => ⟨.error err, db, none⟩
  | none =>
    match f db with
    | .error err => ⟨.error err, db, some begun.close⟩
    | .ok db' =>
      match commitErr with
      | some err => ⟨.error err, db, some (begun.commit commitErr).close⟩
      | none => ⟨.ok (), db', some (begun.commit none).close⟩

/-- `postgresLogStorage.QueueLeaves`: every error before `Commit` returns with the
transaction as it is. -/
def queueLeavesOutcome (db : Db) (tree : Tree) (leaves : List LogLeaf) (queueTimestamp : Int64)
    (beginErr commitErr : Option GoError) : Outcome (List QueuedLogLeaf) :=
  match beginErr with
  | some err => ⟨.error err, db, none⟩
  | none =>
    let (tx, err?) := beginInternal (N := N) db tree
    match err? with
    | some err => ⟨.error err, db, some begun⟩
    | none =>
      match queueLeavesTx leafSort tx db leaves queueTimestamp with
      | .error err => ⟨.error err, db, some begun⟩
      | .ok (db', existing) =>
        let (r, db'', t) := treeTxCommit marshal tx.toTreeTx db db' commitErr begun
        let leaves := leaves.map fun leaf => { leaf with queueTimestamp := some queueTimestamp }
        ⟨r.map fun _ => List.zipWith queuedLogLeaf existing leaves, db'', some t⟩

/-- `postgresLogStorage.AddSequencedLeaves`, in the shape of `QueueLeaves`. -/
def addSequencedLeavesOutcome (db : Db) (tree : Tree) (leaves : List LogLeaf) (timestamp : Int64)
    (beginErr commitErr : Option GoError) : Outcome (List QueuedLogLeaf) :=
  match beginErr with
  | some err => ⟨.error err, db, none⟩
  | none =>
    let (tx, err?) := beginInternal (N := N) db tree
    match err? with
    | some err => ⟨.error err, db, some begun⟩
    | none =>
      match addSequencedLeavesTx leafSort tx db leaves timestamp with
      | .error err => ⟨.error err, db, some begun⟩
      | .ok (db', res) =>
        let (r, db'', t) := treeTxCommit marshal tx.toTreeTx db db' commitErr begun
        ⟨r.map fun _ => res, db'', some t⟩

section Clean

/-- Whatever `BEGIN`, `f` and `COMMIT` answer, the log's `ReadWriteTransaction` ends its
transaction, and commits it only on success: the deferred `Close` rolls back after an
error of `f` and after a flush that failed. -/
theorem readWriteTransaction_clean (db : Db) (tree : Tree) (beginErr : Option GoError)
    (f : LogTreeTx N → Db → Except GoError (LogTreeTx N × Db)) (commitErr : Option GoError) :
    (readWriteTransaction marshal db tree beginErr f commitErr).Clean db := by
  unfold readWriteTransaction
  cases beginErr with
  | some err => exact ⟨by simp, fun _ _ => ⟨rfl, by simp⟩⟩
  | none =>
    generalize beginInternal (N := N) db tree = b
    obtain ⟨tx, _⟩ := b
    dsimp only
    cases f tx db with
    | error err => exact ⟨by simp, fun _ _ => ⟨rfl, by simp⟩⟩
    | ok p =>
      obtain ⟨tx', db'⟩ := p
      dsimp only
      rcases treeTxCommit_cases marshal tx'.toTreeTx db db' commitErr begun with
        ⟨err, h⟩ | ⟨err, rfl, h⟩ | ⟨db'', -, rfl, h⟩
      · rw [h]
        exact ⟨by simp, fun _ _ => ⟨rfl, by simp⟩⟩
      · rw [h]
        exact ⟨by simp, fun _ _ => ⟨rfl, by simp⟩⟩
      · rw [h]
        exact ⟨by simp, fun _ h => by cases h⟩

/-- The admin `ReadWriteTransaction` ends its transaction on every path, and commits it
only on success. -/
theorem adminReadWriteTransaction_clean (db : Db) (beginErr : Option GoError)
    (f : Db → Except GoError Db) (commitErr : Option GoError) :
    (adminReadWriteTransaction db beginErr f commitErr).Clean db := by
  unfold adminReadWriteTransaction
  cases beginErr with
  | some err => exact ⟨by simp, fun _ _ => ⟨rfl, by simp⟩⟩
  | none =>
    dsimp only
    cases f db with
    | error err => exact ⟨by simp, fun _ _ => ⟨rfl, by simp⟩⟩
    | ok db' =>
      cases commitErr with
      | some err => exact ⟨by simp, fun _ _ => ⟨rfl, by simp⟩⟩
      | none => exact ⟨by simp, fun _ h => by cases h⟩

/-- When `QueueLeaves` fails, none of its writes is committed. -/
theorem queueLeavesOutcome_noWrites (db : Db) (tree : Tree) (leaves : List LogLeaf)
    (queueTimestamp : Int64) (beginErr commitErr : Option GoError) {err : GoError}
    (h : (queueLeavesOutcome marshal leafSort db tree leaves queueTimestamp beginErr commitErr).result =
      .error err) :
    (queueLeavesOutcome marshal leafSort db tree leaves queueTimestamp beginErr commitErr).db = db ∧
      ∀ t, (queueLeavesOutcome marshal leafSort db tree leaves queueTimestamp beginErr commitErr).tx =
        some t → t.status ≠ .committed := by
  revert h
  unfold queueLeavesOutcome
  cases beginErr with
  | some err => exact fun _ => ⟨rfl, by simp⟩
  | none =>
    generalize beginInternal (N := N) db tree = b
    obtain ⟨tx, err?⟩ := b
    dsimp only
    cases err? with
    | some err => exact fun _ => ⟨rfl, by simp [begun]⟩
    | none =>
      dsimp only
      cases queueLeavesTx leafSort tx db leaves queueTimestamp with
      | error err => exact fun _ => ⟨rfl, by simp [begun]⟩
      | ok p =>
        obtain ⟨db', existing⟩ := p
        obtain ⟨⟨r, db'', t⟩, hc⟩ : ∃ c, treeTxCommit marshal tx.toTreeTx db db' commitErr begun = c :=
          ⟨_, rfl⟩
        dsimp only
        rw [hc]
        intro h
        obtain ⟨hdb, hstatus⟩ := treeTxCommit_noWrites marshal hc h
        exact ⟨hdb, fun t' ht' => by cases ht'; exact hstatus⟩

/-- When `AddSequencedLeaves` fails, none of its writes is committed. -/
theorem addSequencedLeavesOutcome_noWrites (db : Db) (tree : Tree) (leaves : List LogLeaf)
    (timestamp : Int64) (beginErr commitErr : Option GoError) {err : GoError}
    (h : (addSequencedLeavesOutcome marshal leafSort db tree leaves timestamp beginErr commitErr).result =
      .error err) :
    (addSequencedLeavesOutcome marshal leafSort db tree leaves timestamp beginErr commitErr).db = db ∧
      ∀ t, (addSequencedLeavesOutcome marshal leafSort db tree leaves timestamp beginErr commitErr).tx =
        some t → t.status ≠ .committed := by
  revert h
  unfold addSequencedLeavesOutcome
  cases beginErr with
  | some err => exact fun _ => ⟨rfl, by simp⟩
  | none =>
    generalize beginInternal (N := N) db tree = b
    obtain ⟨tx, err?⟩ := b
    dsimp only
    cases err? with
    | some err => exact fun _ => ⟨rfl, by simp [begun]⟩
    | none =>
      dsimp only
      cases addSequencedLeavesTx leafSort tx db leaves timestamp with
      | error err => exact fun _ => ⟨rfl, by simp [begun]⟩
      | ok p =>
        obtain ⟨db', res⟩ := p
        obtain ⟨⟨r, db'', t⟩, hc⟩ : ∃ c, treeTxCommit marshal tx.toTreeTx db db' commitErr begun = c :=
          ⟨_, rfl⟩
        dsimp only
        rw [hc]
        intro h
        obtain ⟨hdb, hstatus⟩ := treeTxCommit_noWrites marshal hc h
        exact ⟨hdb, fun t' ht' => by cases ht'; exact hstatus⟩

end Clean

section Refines

/-- A `QueueLeaves` that succeeds in the model of `log_storage.go` is one whose
transaction commits what the model says. -/
theorem queueLeavesOutcome_of_queueLeaves {db db' : Db} {tree : Tree} {leaves : List LogLeaf}
    {queueTimestamp : Int64} {queued : List QueuedLogLeaf}
    (h : queueLeaves (N := N) leafSort db tree leaves queueTimestamp = .ok (db', queued)) :
    queueLeavesOutcome marshal leafSort db tree leaves queueTimestamp none none =
      ⟨.ok queued, db', some ⟨true, .committed⟩⟩ := by
  have hdirty := beginInternal_dirty (N := N) db tree
  unfold queueLeaves at h
  unfold queueLeavesOutcome
  rcases hbegin : beginInternal (N := N) db tree with ⟨tx, _ | err⟩ <;> simp only [hbegin] at h hdirty
  · rw [bind_eq_ok_iff] at h
    obtain ⟨⟨db₁, existing⟩, htx, h⟩ := h
    cases h
    dsimp only
    rw [htx]
    dsimp only
    rw [treeTxCommit, commit_of_dirty_nil marshal hdirty]
    rfl
  · simp at h

theorem addSequencedLeavesOutcome_of_addSequencedLeaves {db db' : Db} {tree : Tree}
    {leaves : List LogLeaf} {timestamp : Int64} {res : List QueuedLogLeaf}
    (h : addSequencedLeaves (N := N) leafSort db tree leaves timestamp = .ok (db', res)) :
    addSequencedLeavesOutcome marshal leafSort db tree leaves timestamp none none =
      ⟨.ok res, db', some ⟨true, .committed⟩⟩ := by
  have hdirty := beginInternal_dirty (N := N) db tree
  unfold addSequencedLeaves at h
  unfold addSequencedLeavesOutcome
  rcases hbegin : beginInternal (N := N) db tree with ⟨tx, _ | err⟩ <;> simp only [hbegin] at h hdirty
  · dsimp only
    rw [h]
    dsimp only
    rw [treeTxCommit, commit_of_dirty_nil marshal hdirty]
    rfl
  · simp at h

end Refines

section Open

open Vct.Storage.LeafQueue

/-- Tree 1 exists but has no root yet, as after `CreateTree`. -/
def uninitDb : Db :=
  { Db.empty with
    trees := ⟨[⟨1, .active, .log, [], [], 0, 0, 0, false, none, none⟩], List.nodup_singleton _⟩ }

/-- A leaf whose identity hash is one byte short. -/
def shortLeaf : LogLeaf := ⟨List.replicate 32 1, [], [], 0, List.replicate 31 1, none, none⟩

/-- `QueueLeaves` on a tree that needs initialising, and `AddSequencedLeaves` of a leaf with a
short identity hash, return their errors with the transaction still open. -/
theorem storage_methods_leave_tx_open :
    (queueLeavesOutcome (N := Unit) unitMarshal stableLeafSort uninitDb logTree₁ [leafOf 1] 1 none none).result =
        .error errTreeNeedsInit ∧
      (queueLeavesOutcome (N := Unit) unitMarshal stableLeafSort uninitDb logTree₁ [leafOf 1] 1 none none).tx =
        some ⟨false, .active⟩ ∧
      (addSequencedLeavesOutcome (N := Unit) unitMarshal stableLeafSort initDb logTree₁ [shortLeaf] 1 none
          none).result =
        .error (.grpc .failedPrecondition "leaves[%d] has incorrect hash size %d, want %d"
          [.int 0, .int 31, .int 32]) ∧
      (addSequencedLeavesOutcome (N := Unit) unitMarshal stableLeafSort initDb logTree₁ [shortLeaf] 1 none
        none).tx = some ⟨false, .active⟩ := by
  refine ⟨eq_error_of_map_eq_error (f := fun _ => ()) ?_, by decide +kernel,
    eq_error_of_map_eq_error (f := fun _ => ()) ?_, by decide +kernel⟩ <;> decide +kernel

end Open

end Vct.Storage.Transactions
