import Vct.Storage.LogSystem

/-!
Snapshot reads of the Merkle subtrees. The `subtree` table keeps every version a commit
wrote, keyed by tree, subtree id and revision; a reader at revision `r` asks
`getSubtrees` for the version of each id at the greatest revision no later than `r`.

The abstract view is the record of what the commits stored (`LogState.stored`), read
through `LatestStored`. `SubtreeInv` says the table and the record agree; every
transaction keeps it, and under it `getSubtrees` returns exactly the `LatestStored`
subtrees, provided `proto.Unmarshal` reads back what `proto.Marshal` wrote (up to the
`nil` prefix that proto3 cannot tell from an empty one).
-/

namespace Vct.Storage.Snapshot

open Vct.Lib.Sql
open Vct.Lib.Except
open Vct.Lib.Interleaving
open Vct.Controller.Errors
open Vct.Trillian.Types
open Vct.Storage.Schema
open Vct.Storage.TreeStorage
open Vct.Storage.LogStorage
open Vct.Storage.LogSystem

variable {N : Type} (marshal : SubtreeProto N → Except GoError Bytes) (leafSort : LeafSort)

/-- What a reader at revision `r` should get for `id` in the tree: the subtree stored for
it at the greatest revision no later than `r`. -/
def LatestStored (stored : List (StoredSubtree N)) (treeId r : Int64) (id : Bytes)
    (st : SubtreeProto N) : Prop :=
  ∃ e ∈ stored, e.treeId = treeId ∧ e.subtree = st ∧ st.prefixBytes = some id ∧ e.revision ≤ r ∧
    ∀ e' ∈ stored, e'.treeId = treeId → e'.subtree.prefixBytes = some id → e'.revision ≤ r →
      e'.revision ≤ e.revision

def Holds (e : StoredSubtree N) (row : SubtreeRow) : Prop :=
  StoredAs marshal e.treeId e.revision e.subtree row

/-- The table and the record of stored subtrees say the same, and every subtree was stored
at its writer's root revision + 1, which is not negative. -/
structure SubtreeInv (s : LogState N) : Prop where
  rows_stored : ∀ row ∈ s.db.subtree.rows, ∃ e ∈ s.stored, Holds marshal e row
  stored_rows : ∀ e ∈ s.stored, ∃ row ∈ s.db.subtree.rows, Holds marshal e row
  written_after_root : ∀ e ∈ s.stored,
    e.revision = e.root.revision.toInt64 + 1 ∧ 0 ≤ e.revision.toInt

section Invariant

theorem subtreeInv_of_eq {s s' : LogState N} (hsubtree : s'.db.subtree = s.db.subtree)
    (hstored : s'.stored = s.stored) (hs : SubtreeInv marshal s) : SubtreeInv marshal s' := by
  obtain ⟨hrows, hstoredRows, hafter⟩ := hs
  rw [← hsubtree, ← hstored] at *
  exact ⟨hrows, hstoredRows, hafter⟩

theorem subtreeInv_append {s s' : LogState N} {treeId revision : Int64} {root : LogRootV1}
    {subtrees : List (SubtreeProto N)} {rows : List SubtreeRow}
    (hrows : s'.db.subtree.rows = s.db.subtree.rows ++ rows)
    (hstored : s'.stored = s.stored ++ subtrees.map fun st => ⟨treeId, root, revision, st⟩)
    (hwrites : Writes marshal treeId revision subtrees rows)
    (hafter : subtrees ≠ [] → revision = root.revision.toInt64 + 1 ∧ 0 ≤ revision.toInt)
    (hs : SubtreeInv marshal s) : SubtreeInv marshal s' := by
  obtain ⟨hrowsStored, hstoredRows, hrev⟩ := hs
  obtain ⟨hnew, hall⟩ := hwrites
  refine ⟨fun row hrow => ?_, fun e he => ?_, fun e he => ?_⟩
  · rw [hstored]
    rw [hrows, List.mem_append] at hrow
    rcases hrow with hrow | hrow
    · obtain ⟨e, he, hholds⟩ := hrowsStored row hrow
      exact ⟨e, List.mem_append_left _ he, hholds⟩
    · obtain ⟨st, hst, hholds⟩ := hnew row hrow
      exact ⟨⟨treeId, root, revision, st⟩, List.mem_append_right _ (List.mem_map_of_mem hst), hholds⟩
  · rw [hrows]
    rw [hstored, List.mem_append] at he
    rcases he with he | he
    · obtain ⟨row, hrow, hholds⟩ := hstoredRows e he
      exact ⟨row, List.mem_append_left _ hrow, hholds⟩
    · obtain ⟨st, hst, rfl⟩ := List.mem_map.mp he
      obtain ⟨row, hrow, hholds⟩ := hall st hst
      exact ⟨row, List.mem_append_right _ hrow, hholds⟩
  · rw [hstored, List.mem_append] at he
    rcases he with he | he
    · exact hrev e he
    · obtain ⟨st, hst, rfl⟩ := List.mem_map.mp he
      exact hafter (List.ne_nil_of_mem hst)

theorem subtreeInv_step (e : LogTx N) {s : LogState N} (hs : SubtreeInv marshal s) :
    SubtreeInv marshal (logStep marshal leafSort e s) := by
  cases e with
  | queueLeaves tree leaves queueTimestamp =>
      dsimp only [logStep]
      split
      · rename_i db queued hq
        obtain ⟨tl, tu, fresh, queuedRows, rfl, -⟩ := queueLeaves_growth hq
        exact subtreeInv_of_eq marshal (s := s) rfl rfl hs
      · exact hs
  | integrate tree limit cutoff firstIndex integrateTimestamp subtrees newRoot =>
      dsimp only [logStep]
      split
      · rename_i db sequenced hi
        obtain ⟨-, -, -, rows, -, -, -, -, -, -, hrows, hwrites, -⟩ := integrate_eq_ok marshal hi
        refine subtreeInv_append marshal hrows rfl hwrites (fun hne => ?_) hs
        obtain ⟨st, hst⟩ := List.exists_mem_of_ne_nil _ hne
        exact writeRevisionAt_of_mem_flushedAt hst
      · exact hs
  | addSequencedLeaves tree leaves timestamp =>
      dsimp only [logStep]
      split
      · rename_i db res ha
        obtain ⟨tl, ts, -, -, rfl, -⟩ := addSequencedLeaves_growth ha
        exact subtreeInv_of_eq marshal (s := s) rfl rfl hs
      · exact hs
  | storeRoot tree logRoot =>
      dsimp only [logStep]
      split
      · rename_i db hr
        obtain ⟨th, rfl⟩ := storeSignedLogRoot_eq_ok hr
        exact subtreeInv_of_eq marshal (s := s) rfl rfl hs
      · exact hs

theorem subtreeInv_run (events : List (LogTx N)) {s : LogState N} (hs : SubtreeInv marshal s) :
    SubtreeInv marshal (run (logStep marshal leafSort) events s) :=
  run_invariant (P := SubtreeInv marshal) (fun e _ h => subtreeInv_step marshal leafSort e h) events s hs

end Invariant

section Read

variable (unmarshal : Bytes → Except GoError (SubtreeProto N))

/-- `proto.Unmarshal` reads back what `proto.Marshal` wrote, but for a prefix that may
come back `nil` where it was empty. -/
def RoundTrips : Prop :=
  ∀ st b, marshal st = .ok b →
    (unmarshal b).map SubtreeProto.normalizePrefix = .ok st.normalizePrefix

variable {marshal unmarshal}

theorem readSubtree_of_holds (hround : RoundTrips marshal unmarshal)
    {treeId revision : Int64} {st : SubtreeProto N} {row : SubtreeRow}
    (hholds : StoredAs marshal treeId revision st row) :
    readSubtree unmarshal row.nodes = .ok st := by
  obtain ⟨-, -, hpfx, hmarshal⟩ := hholds
  rw [readSubtree_eq_map, hround _ _ hmarshal,
    SubtreeProto.normalizePrefix_of_isSome (by simp [hpfx])]

theorem latestStored_of_isLatest {s : LogState N} (hs : SubtreeInv marshal s)
    {treeId r : Int64} {id : Bytes} {row : SubtreeRow} (hrow : IsLatest s.db treeId r id row)
    {e : StoredSubtree N} (he : e ∈ s.stored) (hholds : Holds marshal e row) :
    LatestStored s.stored treeId r id e.subtree := by
  obtain ⟨-, htree, hid, hr, hmax⟩ := hrow
  obtain ⟨he₁, he₂, hpfx, -⟩ := hholds
  refine ⟨e, he, he₁.symm.trans htree, rfl, hid ▸ hpfx, he₂ ▸ hr, fun e' he' htree' hpfx' hr' => ?_⟩
  obtain ⟨row', hrow', he'₁, he'₂, hpfx'', -⟩ := hs.stored_rows e' he'
  have hid' : row'.subtreeId = id := Option.some.inj (hpfx''.symm.trans hpfx')
  rw [← he₂, ← he'₂]
  rw [← he'₂] at hr'
  exact hmax row' hrow' (he'₁.trans htree') hid' hr'

theorem isLatest_of_latestStored {s : LogState N} (hs : SubtreeInv marshal s)
    {treeId r : Int64} {id : Bytes} {st : SubtreeProto N}
    (h : LatestStored s.stored treeId r id st) :
    ∃ row, IsLatest s.db treeId r id row ∧ StoredAs marshal treeId row.subtreeRevision st row := by
  obtain ⟨e, hmem, htreeId, rfl, hpfx, hr, hmax⟩ := h
  obtain ⟨row, hrow, hholds⟩ := hs.stored_rows _ hmem
  obtain ⟨htree, hrev, hpfx', hmarshal⟩ : row.treeId = e.treeId ∧ row.subtreeRevision = e.revision ∧
      e.subtree.prefixBytes = some row.subtreeId ∧ marshal e.subtree = .ok row.nodes := hholds
  have hid : row.subtreeId = id := Option.some.inj (hpfx'.symm.trans hpfx)
  refine ⟨row, ⟨hrow, htree.trans htreeId, hid, hrev ▸ hr, fun row' hrow' htree' hid' hr' => ?_⟩,
    ⟨htree.trans htreeId, rfl, hpfx', hmarshal⟩⟩
  obtain ⟨e', he', he'₁, he'₂, hpfx'', -⟩ := hs.rows_stored row' hrow'
  rw [hrev, he'₂]
  exact hmax e' he' (he'₁.symm.trans htree') (hpfx''.trans (congrArg some hid')) (he'₂ ▸ hr')

theorem latestStored_of_mem_selectSubtree (hround : RoundTrips marshal unmarshal)
    {s : LogState N} (hs : SubtreeInv marshal s) {treeId r : Int64} {ids : List Bytes}
    {e : Bytes × Int64 × Bytes} (he : e ∈ selectSubtree s.db treeId r ids) {st : SubtreeProto N}
    (hst : readSubtree unmarshal e.2.2 = .ok st) :
    LatestStored s.stored treeId r e.1 st ∧ st.prefixBytes = some e.1 := by
  obtain ⟨-, row, hrow, he₂⟩ := mem_selectSubtree_iff.mp he
  obtain ⟨e', he', hholds⟩ := hs.rows_stored row hrow.1
  have hnodes : e.2.2 = row.nodes := congrArg Prod.snd he₂
  rw [hnodes, readSubtree_of_holds hround hholds] at hst
  cases hst
  refine ⟨latestStored_of_isLatest hs hrow he' hholds, ?_⟩
  rw [hholds.2.2.1, hrow.2.2.1]

/-- Under the invariant, `getSubtrees` returns, for each distinct id asked for, the
subtree stored for it at the greatest revision no later than `r`, and nothing for an id
without one. -/
theorem getSubtrees_of_subtreeInv (hround : RoundTrips marshal unmarshal) {s : LogState N}
    (hs : SubtreeInv marshal s) (tx : TreeTx N) (r : Int64) (ids : List Bytes) :
    ∃ sts, getSubtrees unmarshal tx s.db r ids = .ok sts ∧
      (sts.map (·.prefixBytes)).Nodup ∧
      ∀ st, st ∈ sts ↔ ∃ id ∈ ids, LatestStored s.stored tx.treeId r id st := by
  by_cases hids : ids = []
  · subst hids
    exact ⟨[], rfl, List.nodup_nil, by simp⟩
  have hsome : ∀ e ∈ selectSubtree s.db tx.treeId r ids,
      ∃ st, readSubtree unmarshal e.2.2 = .ok st := by
    intro e he
    obtain ⟨-, row, hrow, he₂⟩ := mem_selectSubtree_iff.mp he
    obtain ⟨e', -, hholds⟩ := hs.rows_stored row hrow.1
    exact ⟨e'.subtree, (congrArg Prod.snd he₂) ▸ readSubtree_of_holds hround hholds⟩
  obtain ⟨sts, hsts⟩ := exists_mapM_eq_ok hsome
  have hget : getSubtrees unmarshal tx s.db r ids = .ok sts := by
    rw [getSubtrees, if_neg (by simpa using hids)]
    exact hsts
  refine ⟨sts, hget, ?_, fun st => ⟨fun hst => ?_, fun hlatest => ?_⟩⟩
  · -- the prefixes are the ids of the rows, which the grouping makes distinct
    have hmap : sts.map (·.prefixBytes) = (selectSubtree s.db tx.treeId r ids).map (some ·.1) :=
      map_eq_map_of_mapM_eq_ok
        (fun e st he hst => (latestStored_of_mem_selectSubtree hround hs he hst).2) hsts
    rw [hmap]
    have hdistinct := (selectSubtree_ids_nodup s.db tx.treeId r ids).map
      (fun _ _ h => Option.some.inj h)
    rwa [List.map_map] at hdistinct
  · obtain ⟨e, he, hread⟩ := exists_of_mem_mapM_eq_ok hsts hst
    exact ⟨e.1, (mem_selectSubtree_iff.mp he).1,
      (latestStored_of_mem_selectSubtree hround hs he hread).1⟩
  · obtain ⟨id, hid, hlatest⟩ := hlatest
    obtain ⟨row, hrow, hholds⟩ := isLatest_of_latestStored hs hlatest
    have he : (id, row.subtreeRevision, row.nodes) ∈ selectSubtree s.db tx.treeId r ids :=
      mem_selectSubtree_iff.mpr ⟨hid, row, hrow, rfl⟩
    obtain ⟨st', hst', hread⟩ := exists_mem_of_mapM_eq_ok hsts he
    rw [readSubtree_of_holds hround hholds] at hread
    cases hread
    exact hst'

theorem getSubtrees_latest_stored (hround : RoundTrips marshal unmarshal)
    (events : List (LogTx N)) {s : LogState N} (hs : SubtreeInv marshal s) (tx : TreeTx N)
    (r : Int64) (ids : List Bytes) :
    ∃ sts, getSubtrees unmarshal tx (run (logStep marshal leafSort) events s).db r ids = .ok sts ∧
      (sts.map (·.prefixBytes)).Nodup ∧
      (∀ st, st ∈ sts ↔
        ∃ id ∈ ids, LatestStored (run (logStep marshal leafSort) events s).stored tx.treeId r id st) ∧
      ∀ e ∈ (run (logStep marshal leafSort) events s).stored,
        e.revision = e.root.revision.toInt64 + 1 ∧ 0 ≤ e.revision.toInt := by
  have hinv := subtreeInv_run marshal leafSort events hs
  obtain ⟨sts, hget, hnodup, hmem⟩ := getSubtrees_of_subtreeInv hround hinv tx r ids
  exact ⟨sts, hget, hnodup, hmem, hinv.written_after_root⟩

end Read

/-- A codec for subtrees that carry one byte: the byte, then the prefix. proto3 writes an
empty prefix as nothing, so it reads back `nil`. -/
def byteMarshal (st : SubtreeProto UInt8) : Except GoError Bytes := .ok (st.body :: st.prefixBytes.getD [])

def byteUnmarshal : Bytes → Except GoError (SubtreeProto UInt8)
  | [] => .ok ⟨none, 0⟩
  | b :: pre => .ok ⟨if pre.isEmpty then none else some pre, b⟩

theorem byte_roundTrips : RoundTrips byteMarshal byteUnmarshal := by
  rintro ⟨pre, b⟩ _ h
  cases h
  rcases pre with _ | _ | ⟨x, xs⟩ <;> rfl

def logTree₀ : Tree := ⟨0, .active, .log, [], [], 0, 0, 0, false, none⟩

/-- Tree 0, initialised: its root has revision 0. -/
def snapshotState₀ : LogState UInt8 :=
  ⟨{ Db.empty with
      trees := ⟨[⟨0, .active, .log, [], [], 0, 0, 0, false, none, some ⟨0, [], 0, 0, []⟩⟩],
        List.nodup_singleton _⟩ }, [], [], []⟩

theorem subtreeInv_snapshotState₀ : SubtreeInv byteMarshal snapshotState₀ where
  rows_stored _ h := by cases h
  stored_rows _ h := by cases h
  written_after_root _ h := by cases h

/-- Two signer transactions write subtree `[7]`, with byte 1 and then byte 2, each storing
its root: they write at revisions 1 and 2. -/
def twoRevisionRun : List (LogTx UInt8) :=
  [.integrate logTree₀ 0 0 0 1 [⟨some [7], 1⟩] (some (0, [], 1)),
    .integrate logTree₀ 0 0 0 2 [⟨some [7], 2⟩] (some (0, [], 2))]

/-- A reader at revision 1 gets the first version, at revision 2 the second. -/
theorem getSubtrees_latest_stored_twoRevisions :
    RoundTrips byteMarshal byteUnmarshal ∧ SubtreeInv byteMarshal snapshotState₀ ∧
      (∃ sts, getSubtrees byteUnmarshal (beginTreeTx logTree₀ hashSize)
          (run (logStep byteMarshal stableLeafSort) twoRevisionRun snapshotState₀).db 1 [[7]] = .ok sts ∧
        (sts.map (·.prefixBytes)).Nodup ∧
        (∀ st, st ∈ sts ↔ ∃ id ∈ [[7]], LatestStored
          (run (logStep byteMarshal stableLeafSort) twoRevisionRun snapshotState₀).stored
          (beginTreeTx (N := UInt8) logTree₀ hashSize).treeId 1 id st) ∧
        ∀ e ∈ (run (logStep byteMarshal stableLeafSort) twoRevisionRun snapshotState₀).stored,
          e.revision = e.root.revision.toInt64 + 1 ∧ 0 ≤ e.revision.toInt) ∧
      getSubtrees byteUnmarshal (beginTreeTx logTree₀ hashSize)
          (run (logStep byteMarshal stableLeafSort) twoRevisionRun snapshotState₀).db 1 [[7]] =
        .ok [⟨some [7], 1⟩] ∧
      getSubtrees byteUnmarshal (beginTreeTx logTree₀ hashSize)
          (run (logStep byteMarshal stableLeafSort) twoRevisionRun snapshotState₀).db 2 [[7]] =
        .ok [⟨some [7], 2⟩] :=
  ⟨byte_roundTrips, subtreeInv_snapshotState₀,
    getSubtrees_latest_stored stableLeafSort byte_roundTrips twoRevisionRun subtreeInv_snapshotState₀ _ 1
      [[7]],
    by decide +kernel, by decide +kernel⟩

end Vct.Storage.Snapshot
