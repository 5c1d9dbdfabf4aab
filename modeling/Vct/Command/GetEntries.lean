import Vct.Command.Models
import Vct.Command.Controller
import Vct.Trillian.Types
import Vct.Lib.Except
import Vct.Lib.Int64

namespace Vct.Command.GetEntries

open Vct.Controller.Errors
open Vct.Command.Models
open Vct.Command.Controller
open Vct.Trillian.Types
open Vct.Lib.Except
open Vct.Lib.Int64

def maxRange : Int64 := 1000

/-- The clamp of `GetEntries`: when `End - Start + 1` (in `int64`) exceeds
`maxRange`, `End` becomes `Start + maxRange - 1`. -/
def clampRange (request : GetEntriesRequest) : GetEntriesRequest :=
  if request.end - request.start + 1 > maxRange then
    { request with «end» := request.start + maxRange - 1 }
  else request

@[simp] theorem clampRange_alias (request : GetEntriesRequest) :
    (clampRange request).alias = request.alias := by
  unfold clampRange
  split_ifs <;> rfl

@[simp] theorem clampRange_start (request : GetEntriesRequest) :
    (clampRange request).start = request.start := by
  unfold clampRange
  split_ifs <;> rfl

def leavesByRangeRequest (logId : Int64) (request : GetEntriesRequest) :
    GetLeavesByRangeRequest :=
  { logId := logId, startIndex := request.start, count := request.end + 1 - request.start }

/-- The loop over `resp.Leaves` that rejects a leaf whose index is not
`request.Start + int64(i)`. -/
def checkLeafIndices (request : GetEntriesRequest) : Nat → List LogLeaf → Except GoError Unit
  | _, [] => .ok ()
  | i, leaf :: leaves =>
      if leaf.leafIndex ≠ request.start + Int64.ofNat i then
        .error (.wrapf "%w: unexpected leaf index: rsp.Leaves[%d].LeafIndex=%d for range [%d,%d]"
          [.int i, .int leaf.leafIndex.toInt, .int request.start.toInt, .int request.end.toInt]
          errInternal)
      else checkLeafIndices request (i + 1) leaves

/-- The checks `GetEntries` makes on Trillian's answer, in order: the tree must
hold the first requested leaf, there must be at most `Count` leaves, and their
indices must run from `Start` upwards. -/
def checkLeaves (request : GetEntriesRequest) (req : GetLeavesByRangeRequest)
    (currentRoot : LogRootV1) (leaves : List LogLeaf) : Except GoError Unit :=
  if currentRoot.treeSize ≤ request.start.toUInt64 then
    .error (.wrapf "%w: need tree size: %d to get leaves but only got: %d"
      [.int (request.start + 1).toInt, .int currentRoot.treeSize.toNat] errInternal)
  else if (leaves.length : Int) > req.count.toInt then
    .error (.wrapf "%w: too many leaves: got %d in range [%d,%d]"
      [.int leaves.length, .int request.start.toInt, .int request.end.toInt] errInternal)
  else checkLeafIndices request 0 leaves

theorem checkLeafIndices_eq_ok_iff (request : GetEntriesRequest) (i : Nat)
    (leaves : List LogLeaf) :
    checkLeafIndices request i leaves = .ok () ↔
      ∀ j (hj : j < leaves.length),
        leaves[j].leafIndex = request.start + Int64.ofNat (i + j) := by
  induction leaves generalizing i with
  | nil => simp [checkLeafIndices]
  | cons leaf leaves ih =>
      simp only [checkLeafIndices]
      split_ifs with hleaf
      · simp only [false_iff, not_forall]
        exact ⟨0, by simp, by simpa using hleaf⟩
      · rw [ih (i + 1)]
        constructor
        · intro hrest j hj
          cases j with
          | zero => simpa using hleaf
          | succ j =>
              simpa [Nat.add_assoc, Nat.add_comm 1 j] using hrest j (by simpa using hj)
        · intro hall j hj
          have hnext := hall (j + 1) (by simpa using hj)
          rw [List.getElem_cons_succ] at hnext
          simpa [Nat.add_assoc, Nat.add_comm 1 j] using hnext

theorem checkLeaves_eq_ok_iff (request : GetEntriesRequest) (req : GetLeavesByRangeRequest)
    (currentRoot : LogRootV1) (leaves : List LogLeaf) :
    checkLeaves request req currentRoot leaves = .ok () ↔
      request.start.toUInt64 < currentRoot.treeSize ∧ (leaves.length : Int) ≤ req.count.toInt ∧
        ∀ j (hj : j < leaves.length), leaves[j].leafIndex = request.start + Int64.ofNat j := by
  unfold checkLeaves
  split_ifs with hsize hcount
  · simp only [false_iff, not_and]
    intro hlt
    exact absurd hsize (UInt64.not_le.mpr hlt)
  · simp only [false_iff, not_and]
    intro _ hle
    exact absurd hcount (Int.not_lt.mpr hle)
  · rw [checkLeafIndices_eq_ok_iff]
    simp only [Nat.zero_add]
    exact ⟨fun h => ⟨UInt64.not_le.mp hsize, Int.not_lt.mp hcount, h⟩, fun h => h.2.2⟩

theorem leavesByRangeRequest_count_toInt (logId : Int64) (r : GetEntriesRequest)
    (hstart : 0 ≤ r.start) (hrange : r.start ≤ r.end)
    (hne : ¬(r.start = 0 ∧ r.end = Int64.maxValue)) :
    (leavesByRangeRequest logId (clampRange r)).count.toInt =
      min (r.end.toInt - r.start.toInt + 1) 1000 := by
  have hmax := r.end.toInt_lt
  have hone : (1 : Int64).toInt = 1 := rfl
  have hthousand : maxRange.toInt = 1000 := rfl
  have hne' : ¬(r.start.toInt = 0 ∧ r.end.toInt = 2 ^ 63 - 1) := by
    rintro ⟨h1, h2⟩
    exact hne ⟨Int64.toInt_inj.mp h1, Int64.toInt_inj.mp h2⟩
  simp only [Int64.le_iff_toInt_le, Int64.toInt_zero] at hstart hrange
  have hlength : (r.end - r.start + 1).toInt = r.end.toInt - r.start.toInt + 1 :=
    toInt_sub_add_of_range (by omega) (by omega)
  unfold clampRange leavesByRangeRequest
  split_ifs with hgt
  · rw [gt_iff_lt, Int64.lt_iff_toInt_lt, hlength, hthousand] at hgt
    have hlast : (r.start + maxRange - 1).toInt = r.start.toInt + 999 := by
      rw [toInt_add_sub_of_range] <;> omega
    simp only
    rw [toInt_add_sub_of_range] <;> omega
  · rw [gt_iff_lt, Int64.lt_iff_toInt_lt, hlength, hthousand] at hgt
    simp only
    rw [toInt_add_sub_of_range] <;> omega

/-- At `Start = 0`, `End = MaxInt64` the length `End - Start + 1` wraps to
`MinInt64`, the clamp is skipped, and the `Count` sent wraps as well. -/
theorem leavesByRangeRequest_count_wraps (logId : Int64) (aliasName : List Char) :
    (leavesByRangeRequest logId (clampRange ⟨aliasName, 0, Int64.maxValue⟩)).count =
      Int64.minValue := by
  have hno : ¬(Int64.maxValue - 0 + 1 > maxRange) := by decide
  simp only [clampRange, hno, if_false, leavesByRangeRequest]
  decide

variable {C : Type}

/-- `(*Cmd).GetEntries`, from the decoded request pointer to the response it encodes. -/
def getEntries (unmarshalLogRoot : List UInt8 → Except GoError LogRootV1)
    (getLeavesByRange : C → GetLeavesByRangeRequest → Except GoError GetLeavesByRangeResponse)
    (c : Cmd C) (decoded : Option GetEntriesRequest) : Except GoError GetEntriesResponse := do
  (GetEntriesRequest.validate decoded).mapError (.wrapf "validate GetEntries request: %w" [])
  -- `Validate` has rejected a nil request
  let some request := decoded | throw (.panic "nil pointer dereference")
  (c.hasPermissions request.alias .read).mapError (.wrapf "has permissions: %w" [])
  let request := clampRange request
  -- `hasPermissions` has found the alias
  let some log := c.logs.lookup request.alias | throw (.panic "nil pointer dereference")
  let req := leavesByRangeRequest log.id request
  let resp ← (getLeavesByRange log.client req).mapError (.wrapf "get leaves by range: %w" [])
  let currentRoot ← (unmarshalLogRoot resp.logRootBytes).mapError fun _ =>
    .wrapf "%w: unmarshal binary: %v" [.bytes resp.logRootBytes] errInternal
  checkLeaves request req currentRoot resp.leaves
  return { entries := resp.leaves.map fun leaf =>
    { leafInput := leaf.leafValue, extraData := leaf.extraData } }

theorem getEntries_eq_ok {unmarshalLogRoot : List UInt8 → Except GoError LogRootV1}
    {getLeavesByRange : C → GetLeavesByRangeRequest → Except GoError GetLeavesByRangeResponse}
    {c : Cmd C} {decoded : Option GetEntriesRequest} {out : GetEntriesResponse}
    (h : getEntries unmarshalLogRoot getLeavesByRange c decoded = .ok out) :
    ∃ request log resp currentRoot, decoded = some request ∧
      GetEntriesRequest.validate (some request) = .ok () ∧
      c.logs.lookup request.alias = some log ∧
      getLeavesByRange log.client (leavesByRangeRequest log.id (clampRange request)) = .ok resp ∧
      unmarshalLogRoot resp.logRootBytes = .ok currentRoot ∧
      checkLeaves (clampRange request) (leavesByRangeRequest log.id (clampRange request))
        currentRoot resp.leaves = .ok () ∧
      out.entries = resp.leaves.map fun leaf =>
        { leafInput := leaf.leafValue, extraData := leaf.extraData } := by
  cases decoded with
  | none => simp [getEntries, GetEntriesRequest.validate] at h
  | some request =>
      simp only [getEntries, bind_eq_ok_iff, mapError_eq_ok_iff] at h
      obtain ⟨_, hvalid, _, -, h⟩ := h
      cases hlog : c.logs.lookup (clampRange request).alias with
      | none => simp [hlog] at h
      | some log =>
          simp only [hlog, bind_eq_ok_iff, mapError_eq_ok_iff, pure_eq_ok_iff] at h
          obtain ⟨resp, hresp, currentRoot, hroot, _, hcheck, rfl⟩ := h
          rw [clampRange_alias] at hlog
          exact ⟨request, log, resp, currentRoot, rfl, hvalid, hlog, hresp, hroot, hcheck, rfl⟩

/-- Whenever `GetEntries` succeeds, its entries are those of leaves `Start`,
`Start + 1`, … of Trillian's answer, at most `min (End - Start + 1) 1000` of them,
with the indices computed as integers. -/
theorem getEntries_entries_spec {unmarshalLogRoot : List UInt8 → Except GoError LogRootV1}
    {getLeavesByRange : C → GetLeavesByRangeRequest → Except GoError GetLeavesByRangeResponse}
    {c : Cmd C} {decoded : Option GetEntriesRequest} {out : GetEntriesResponse}
    (h : getEntries unmarshalLogRoot getLeavesByRange c decoded = .ok out) :
    ∃ request log resp, decoded = some request ∧ c.logs.lookup request.alias = some log ∧
      getLeavesByRange log.client (leavesByRangeRequest log.id (clampRange request)) = .ok resp ∧
      (resp.leaves.length : Int) ≤ min (request.end.toInt - request.start.toInt + 1) 1000 ∧
      (∀ j (hj : j < resp.leaves.length),
        resp.leaves[j].leafIndex.toInt = request.start.toInt + j) ∧
      out.entries = resp.leaves.map fun leaf =>
        { leafInput := leaf.leafValue, extraData := leaf.extraData } := by
  obtain ⟨request, log, resp, currentRoot, rfl, hvalid, hlog, hresp, -, hcheck, hout⟩ :=
    getEntries_eq_ok h
  obtain ⟨hstart, hrange⟩ := (validate_eq_ok_iff request).mp hvalid
  obtain ⟨-, hcount, hindex⟩ := (checkLeaves_eq_ok_iff _ _ _ _).mp hcheck
  -- the wrapped `Count` of the one overflowing request is negative: no leaves pass
  have hne : ¬(request.start = 0 ∧ request.end = Int64.maxValue) := by
    rintro ⟨h0, hmax⟩
    have hwrap := leavesByRangeRequest_count_wraps log.id request.alias
    rw [← h0, ← hmax] at hwrap
    rw [hwrap] at hcount
    have : Int64.minValue.toInt = -2 ^ 63 := rfl
    omega
  have hbound := leavesByRangeRequest_count_toInt log.id request hstart hrange hne
  rw [hbound] at hcount
  simp only [Int64.le_iff_toInt_le, Int64.toInt_zero] at hstart hrange
  have hmax := request.end.toInt_lt
  refine ⟨request, log, resp, rfl, hlog, hresp, hcount, ?_, hout⟩
  intro j hj
  have hjlt : (j : Int) < request.end.toInt - request.start.toInt + 1 := by omega
  rw [hindex j hj, clampRange_start, toInt_add_of_range, Int64.toInt_ofNat_of_lt] <;>
    first | omega | (rw [Int64.toInt_ofNat_of_lt] <;> omega)

end Vct.Command.GetEntries
