import Mathlib.Data.List.AList
import Vct.Lib.Interleaving
import Vct.Controller.Errors

/-!
`CertPool` (`internal/pkg/tlsutil/certpool.go`) under concurrent `Add` and `Get`
calls. A step is an atomic compare-and-swap on `dirty`, a lock-protected block, or the
return of `loadSystemCertPool`. `Add` holds the write lock from its append to its
compare-and-swap, so those two steps are separate and the lock is part of the state.
-/

namespace Vct.Tlsutil.Certpool

open Vct.Lib.Interleaving
open Vct.Controller.Errors

variable {T C R S : Type}

section Raw

variable [DecidableEq R] (raw : C → R)

/-- `x509.Certificate.Equal`: the same DER bytes. -/
def certificateEqual (a b : C) : Bool := raw a == raw b

/-- `x509.CertPool.AddCert`: a certificate with the bytes of one the pool has is not added
again. -/
def addCert (certPool : List C) (cert : C) : List C :=
  if certPool.any (certificateEqual raw · cert) then certPool else certPool ++ [cert]

theorem raw_mem_addCert {certPool : List C} {cert : C} {x : R} :
    x ∈ (addCert raw certPool cert).map raw ↔ x ∈ certPool.map raw ∨ x = raw cert := by
  unfold addCert
  split
  · rename_i hany
    simp only [List.any_eq_true, certificateEqual, beq_iff_eq] at hany
    obtain ⟨c', hc', heq⟩ := hany
    constructor
    · exact .inl
    · rintro (h | rfl)
      · exact h
      · exact List.mem_map.mpr ⟨c', hc', heq⟩
  · simp

theorem raw_mem_foldl_addCert (l : List C) {certPool : List C} {x : R}
    (hx : x ∈ certPool.map raw ∨ x ∈ l.map raw) : x ∈ (l.foldl (addCert raw) certPool).map raw := by
  induction l generalizing certPool with
  | nil => simpa using hx
  | cons cert l ih =>
      apply ih
      rcases hx with hx | hx
      · exact .inl ((raw_mem_addCert raw).mpr (.inl hx))
      · rcases List.mem_cons.mp (List.map_cons ▸ hx) with rfl | hx
        · exact .inl ((raw_mem_addCert raw).mpr (.inr rfl))
        · exact .inr hx

end Raw

/-- `loadSystemCertPool`: an empty pool, or what `x509.SystemCertPool` returns. -/
def loadSystemCertPool (useSystemCertPool : Bool) (systemCertPool : Except GoError (List C)) :
    Except GoError (List C) :=
  if !useSystemCertPool then .ok [] else systemCertPool

structure CertPool (C S : Type) where
  certPool : List C
  certs : List C
  certsByName : AList fun _ : S => List Nat
  dirty : Bool
  systemCertPool : Bool
  -- the write lock, held by an `Add` from its append to its compare-and-swap
  locked : Bool

def newCertPool (useSystemCertPool : Bool) (systemCertPool : Except GoError (List C)) :
    Except GoError (CertPool C S) := do
  let c ← loadSystemCertPool useSystemCertPool systemCertPool
  return {
    certPool := c
    certs := []
    certsByName := ∅
    dirty := false
    systemCertPool := useSystemCertPool
    locked := false }

section Filter

variable [DecidableEq S] (raw : C → R) (subject : R → S)

/-- One turn of the loop of `Add` under the lock: index the certificate by its
`RawSubject`, then store it. -/
def storeCert (c : CertPool C S) (cert : C) : CertPool C S :=
  let name := subject (raw cert)
  { c with
    certsByName :=
      c.certsByName.insert name (((c.certsByName.lookup name).getD []) ++ [c.certs.length])
    certs := c.certs ++ [cert] }

@[simp] theorem storeCert_certs (c : CertPool C S) (cert : C) :
    (storeCert raw subject c cert).certs = c.certs ++ [cert] := rfl

theorem foldl_storeCert (l : List C) (c : CertPool C S) :
    (l.foldl (storeCert raw subject) c).certs = c.certs ++ l ∧
      (l.foldl (storeCert raw subject) c).certPool = c.certPool ∧
      (l.foldl (storeCert raw subject) c).dirty = c.dirty ∧
      (l.foldl (storeCert raw subject) c).systemCertPool = c.systemCertPool ∧
      (l.foldl (storeCert raw subject) c).locked = c.locked := by
  induction l generalizing c with
  | nil => simp
  | cons cert l ih =>
      obtain ⟨hcerts, hpool, hdirty, hsys, hlocked⟩ := ih (storeCert raw subject c cert)
      refine ⟨?_, hpool, hdirty, hsys, hlocked⟩
      rw [List.foldl_cons, hcerts, storeCert_certs, List.append_assoc, List.singleton_append]

/-- Every stored certificate is listed under its subject, so the lookup of
`filterCerts` misses none of them. -/
def IndexComplete (c : CertPool C S) : Prop :=
  ∀ i cert, c.certs[i]? = some cert → i ∈ (c.certsByName.lookup (subject (raw cert))).getD []

theorem indexComplete_storeCert {c : CertPool C S} (hc : IndexComplete raw subject c) (cert : C) :
    IndexComplete raw subject (storeCert raw subject c cert) := by
  intro i x hx
  simp only [storeCert_certs] at hx
  simp only [storeCert]
  by_cases hlt : i < c.certs.length
  · rw [List.getElem?_append_left hlt] at hx
    by_cases hname : subject (raw x) = subject (raw cert)
    · rw [hname, AList.lookup_insert, Option.getD_some, List.mem_append]
      exact .inl (hname ▸ hc i x hx)
    · rw [AList.lookup_insert_ne hname]
      exact hc i x hx
  · rw [List.getElem?_append_right (Nat.le_of_not_lt hlt)] at hx
    have hi : i = c.certs.length := by
      have := List.getElem?_eq_some_iff.mp hx
      simp at this
      omega
    subst hi
    simp only [Nat.sub_self, List.getElem?_cons_zero, Option.some.injEq] at hx
    subst hx
    simp

theorem indexComplete_foldl_storeCert {c : CertPool C S} (hc : IndexComplete raw subject c)
    (l : List C) : IndexComplete raw subject (l.foldl (storeCert raw subject) c) := by
  induction l generalizing c with
  | nil => exact hc
  | cons cert l ih => exact ih (indexComplete_storeCert raw subject hc cert)

variable [DecidableEq R]

/-- Whether `filterCerts` finds a stored certificate with the subject of `cert` that is
`Equal` to it. -/
def known (c : CertPool C S) (cert : C) : Bool :=
  ((c.certsByName.lookup (subject (raw cert))).getD []).any fun p =>
    c.certs[p]?.any (certificateEqual raw · cert)

theorem known_iff {c : CertPool C S} (hc : IndexComplete raw subject c) (cert : C) :
    known raw subject c cert = true ↔ raw cert ∈ c.certs.map raw := by
  simp only [known, List.any_eq_true, Option.any_eq_true, certificateEqual, beq_iff_eq]
  constructor
  · rintro ⟨p, -, c', hp, heq⟩
    exact List.mem_map.mpr ⟨c', List.mem_of_getElem? hp, heq⟩
  · intro hmem
    obtain ⟨c', hc', heq⟩ := List.mem_map.mp hmem
    obtain ⟨i, hi⟩ := List.mem_iff_getElem?.mp hc'
    exact ⟨i, heq ▸ hc i c' hi, c', hi, heq⟩

variable [DecidableEq C]

/-- `removeDuplicates`, over a `map[*x509.Certificate]bool`: the same pointer once. -/
def removeDuplicates (certs : List C) : List C := certs.eraseDups

def filterCerts (c : CertPool C S) (certs : List (Option C)) : List C :=
  removeDuplicates (certs.filterMap fun cert? =>
    match cert? with
    | none => none
    | some cert => if known raw subject c cert then none else some cert)

theorem mem_filterCerts {c : CertPool C S} (hc : IndexComplete raw subject c)
    (certs : List (Option C)) (cert : C) :
    cert ∈ filterCerts raw subject c certs ↔ some cert ∈ certs ∧ raw cert ∉ c.certs.map raw := by
  rw [filterCerts, removeDuplicates, List.mem_eraseDups, List.mem_filterMap]
  constructor
  · rintro ⟨cert?, hmem, hsome⟩
    cases cert? with
    | none => cases hsome
    | some cert' =>
        by_cases hknown : known raw subject c cert' = true
        · simp [hknown] at hsome
        · simp only [hknown, if_false, Option.some.injEq, Bool.false_eq_true] at hsome
          subst hsome
          exact ⟨hmem, fun h => hknown ((known_iff raw subject hc cert').mpr h)⟩
  · rintro ⟨hmem, hnot⟩
    have hknown : known raw subject c cert = false :=
      Bool.eq_false_iff.mpr fun h => hnot ((known_iff raw subject hc cert).mp h)
    exact ⟨some cert, hmem, by simp [hknown]⟩

end Filter

inductive GetPhase (C : Type)
  | cas
  | load
  | swap (newCertPool : List C)
  | read
  | returned (result : Except GoError (List C))

inductive AddPhase (C : Type)
  | filter
  | append (certsToBeAdded : List C)
  | cas
  | returned

inductive Call (C : Type)
  | get (phase : GetPhase C)
  | add (certs : List (Option C)) (phase : AddPhase C)

structure World (T C S : Type) where
  pool : CertPool C S
  calls : T → Call C

/-- A call takes its next step, or the platform answers a call's `x509.SystemCertPool`. -/
inductive Event (T C : Type)
  | step (t : T)
  | loadSystem (t : T) (systemCertPool : Except GoError (List C))

def Event.caller : Event T C → T
  | .step t | .loadSystem t _ => t

def Event.LoadsOk : Event T C → Prop
  | .step _ => True
  | .loadSystem _ systemCertPool => ∃ certPool, systemCertPool = .ok certPool

/-- A call that will still bring the stored certificates into the pool that `Get`
hands out: a `Get` between its compare-and-swap and its swap, or an `Add` before its
compare-and-swap. -/
def Call.Pending : Call C → Prop
  | .get .load | .get (.swap _) | .add _ .cas => True
  | _ => False

def Call.Initial : Call C → Prop
  | .get .cas | .add _ .filter => True
  | _ => False

def Call.Returned : Call C → Prop
  | .get (.returned _) | .add _ .returned => True
  | _ => False

theorem not_pending_of_returned {call : Call C} (h : call.Returned) : ¬call.Pending := by
  cases call with
  | get phase => cases phase <;> simp_all [Call.Returned, Call.Pending]
  | add certs phase => cases phase <;> simp_all [Call.Returned, Call.Pending]

/-- What an `Add` of `certs` has achieved in each of its phases: each certificate it was
given is stored, or one with its bytes is. -/
def AddPhase.Stored (raw : C → R) (c : CertPool C S) (certs : List (Option C)) : AddPhase C → Prop
  | .filter => True
  | .append certsToBeAdded =>
      ∀ cert, some cert ∈ certs → raw cert ∈ c.certs.map raw ∨ cert ∈ certsToBeAdded
  | .cas | .returned => ∀ cert, some cert ∈ certs → raw cert ∈ c.certs.map raw

theorem AddPhase.Stored.mono {raw : C → R} {c c' : CertPool C S} {certs : List (Option C)}
    {phase : AddPhase C} (h : phase.Stored raw c certs) (hsub : c.certs ⊆ c'.certs) :
    phase.Stored raw c' certs := by
  cases phase with
  | filter => trivial
  | append certsToBeAdded => exact fun cert hc => (h cert hc).imp_left (List.map_subset raw hsub ·)
  | cas => exact fun cert hc => List.map_subset raw hsub (h cert hc)
  | returned => exact fun cert hc => List.map_subset raw hsub (h cert hc)

section Invariant

variable [DecidableEq S] (raw : C → R) (subject : R → S)

/-- The invariant of a `CertPool` under concurrent calls: the subject index is
complete, the bytes of a stored certificate are in the handed-out pool unless `dirty` is
set or a call is still on its way to put them there, only an `Add` about to clear it holds
the lock, and every `Add` has stored what its phase says. -/
structure Inv (w : World T C S) : Prop where
  index : IndexComplete raw subject w.pool
  fresh : ∀ cert ∈ w.pool.certs,
    raw cert ∈ w.pool.certPool.map raw ∨ w.pool.dirty = true ∨ ∃ t, (w.calls t).Pending
  locked : w.pool.locked = true → ∃ t certs, w.calls t = .add certs .cas
  stored : ∀ t certs phase, w.calls t = .add certs phase → phase.Stored raw w.pool certs

theorem inv_start {w : World T C S} (hcerts : w.pool.certs = []) (hlocked : w.pool.locked = false)
    (hstart : ∀ t, (w.calls t).Initial) : Inv raw subject w := by
  refine ⟨fun i cert h => ?_, fun cert h => ?_, fun h => ?_, fun t certs phase h => ?_⟩
  · simp [hcerts] at h
  · simp [hcerts] at h
  · simp [hlocked] at h
  · have hinit := hstart t
    rw [h] at hinit
    cases phase with
    | filter => trivial
    | _ => exact hinit.elim

end Invariant

variable [DecidableEq T]

def World.setCall (w : World T C S) (t : T) (call : Call C) : World T C S :=
  { w with calls := Function.update w.calls t call }

@[simp] theorem World.setCall_pool (w : World T C S) (t : T) (call : Call C) :
    (w.setCall t call).pool = w.pool := rfl

@[simp] theorem World.setCall_calls_self (w : World T C S) (t : T) (call : Call C) :
    (w.setCall t call).calls t = call := by
  simp [World.setCall]

theorem World.setCall_calls_ne (w : World T C S) {t t' : T} (call : Call C) (h : t' ≠ t) :
    (w.setCall t call).calls t' = w.calls t' := by
  simp [World.setCall, h]

section Transitions

variable [DecidableEq S] (raw : C → R) (subject : R → S)

theorem inv_setCall {w : World T C S} (hw : Inv raw subject w) {t : T} {call : Call C}
    (hpending : ¬(w.calls t).Pending) (hcas : ∀ certs, w.calls t ≠ .add certs .cas)
    (hstored : ∀ certs phase, call = .add certs phase → phase.Stored raw w.pool certs) :
    Inv raw subject (w.setCall t call) := by
  refine ⟨hw.index, fun cert hcert => ?_, fun hlocked => ?_, fun t' certs phase h => ?_⟩
  · rcases hw.fresh cert hcert with h | h | ⟨t', ht'⟩
    · exact .inl h
    · exact .inr (.inl h)
    · have hne : t' ≠ t := fun heq => hpending (heq ▸ ht')
      exact .inr (.inr ⟨t', by rwa [World.setCall_calls_ne _ _ hne]⟩)
  · obtain ⟨t', certs, ht'⟩ := hw.locked hlocked
    have hne : t' ≠ t := fun heq => hcas certs (heq ▸ ht')
    exact ⟨t', certs, by rw [World.setCall_calls_ne _ _ hne, ht']⟩
  · by_cases hne : t' = t
    · subst hne
      rw [World.setCall_calls_self] at h
      exact hstored certs phase h
    · rw [World.setCall_calls_ne _ _ hne] at h
      exact hw.stored t' certs phase h

theorem inv_clearDirty {w : World T C S} (hw : Inv raw subject w) {t : T}
    (hcall : w.calls t = .get .cas) :
    Inv raw subject { w.setCall t (.get .load) with pool := { w.pool with dirty := false } } := by
  refine ⟨hw.index, fun _ _ => .inr (.inr ⟨t, by simp [Call.Pending]⟩), fun hlocked => ?_,
    fun t' certs phase h => ?_⟩
  · obtain ⟨t', certs, ht'⟩ := hw.locked hlocked
    have hne : t' ≠ t := by
      rintro rfl
      rw [hcall] at ht'
      cases ht'
    exact ⟨t', certs, by simp only [World.setCall_calls_ne _ _ hne, ht']⟩
  · have hne : t' ≠ t := by
      rintro rfl
      simp at h
    simp only [World.setCall_calls_ne _ _ hne] at h
    exact hw.stored t' certs phase h

theorem inv_swap [DecidableEq R] {w : World T C S} (hw : Inv raw subject w) {t : T}
    {newCertPool : List C} (hcall : w.calls t = .get (.swap newCertPool))
    (hunlocked : w.pool.locked = false) :
    Inv raw subject { w.setCall t (.get .read) with
      pool := { w.pool with certPool := w.pool.certs.foldl (addCert raw) newCertPool } } := by
  refine ⟨hw.index,
    fun cert hcert => .inl (raw_mem_foldl_addCert raw _ (.inr (List.mem_map_of_mem hcert))),
    fun hlocked => absurd hlocked (by simp [hunlocked]), fun t' certs phase h => ?_⟩
  have hne : t' ≠ t := by
    rintro rfl
    simp at h
  simp only [World.setCall_calls_ne _ _ hne] at h
  exact hw.stored t' certs phase h

theorem inv_append {w : World T C S} (hw : Inv raw subject w) {t : T} {certs : List (Option C)}
    {certsToBeAdded : List C} (hcall : w.calls t = .add certs (.append certsToBeAdded)) :
    Inv raw subject { w.setCall t (.add certs .cas) with
      pool := { certsToBeAdded.foldl (storeCert raw subject) w.pool with locked := true } } := by
  have hcerts := (foldl_storeCert raw subject certsToBeAdded w.pool).1
  refine ⟨indexComplete_foldl_storeCert raw subject hw.index certsToBeAdded,
    fun _ _ => .inr (.inr ⟨t, by simp [Call.Pending]⟩), fun _ => ⟨t, certs, by simp⟩,
    fun t' certs' phase h => ?_⟩
  by_cases hne : t' = t
  · subst hne
    simp only [World.setCall_calls_self, Call.add.injEq] at h
    obtain ⟨rfl, rfl⟩ := h
    intro cert hcert
    show raw cert ∈ (certsToBeAdded.foldl (storeCert raw subject) w.pool).certs.map raw
    rw [hcerts, List.map_append, List.mem_append]
    exact (hw.stored t' certs _ hcall cert hcert).imp_right (List.mem_map_of_mem ·)
  · simp only [World.setCall_calls_ne _ _ hne] at h
    apply (hw.stored t' certs' phase h).mono
    show w.pool.certs ⊆ (certsToBeAdded.foldl (storeCert raw subject) w.pool).certs
    rw [hcerts]
    exact List.subset_append_left _ _

theorem inv_setDirty {w : World T C S} (hw : Inv raw subject w) {t : T} {certs : List (Option C)}
    (hcall : w.calls t = .add certs .cas) :
    Inv raw subject { w.setCall t (.add certs .returned) with
      pool := { w.pool with dirty := true, locked := false } } := by
  refine ⟨hw.index, fun _ _ => .inr (.inl rfl), fun hlocked => absurd hlocked (by simp),
    fun t' certs' phase h => ?_⟩
  by_cases hne : t' = t
  · subst hne
    simp only [World.setCall_calls_self, Call.add.injEq] at h
    obtain ⟨rfl, rfl⟩ := h
    exact hw.stored t' certs _ hcall
  · simp only [World.setCall_calls_ne _ _ hne] at h
    exact hw.stored t' certs' phase h

theorem inv_load {w : World T C S} (hw : Inv raw subject w) {t : T} (hcall : w.calls t = .get .load)
    (newCertPool : List C) : Inv raw subject (w.setCall t (.get (.swap newCertPool))) := by
  refine ⟨hw.index, fun cert hcert => ?_, fun hlocked => ?_, fun t' certs phase h => ?_⟩
  · rcases hw.fresh cert hcert with h | h | ⟨t', ht'⟩
    · exact .inl h
    · exact .inr (.inl h)
    · by_cases hne : t' = t
      · exact .inr (.inr ⟨t, by simp [Call.Pending]⟩)
      · exact .inr (.inr ⟨t', by rwa [World.setCall_calls_ne _ _ hne]⟩)
  · obtain ⟨t', certs, ht'⟩ := hw.locked hlocked
    have hne : t' ≠ t := by
      rintro rfl
      rw [hcall] at ht'
      cases ht'
    exact ⟨t', certs, by rw [World.setCall_calls_ne _ _ hne, ht']⟩
  · have hne : t' ≠ t := by
      rintro rfl
      simp at h
    rw [World.setCall_calls_ne _ _ hne] at h
    exact hw.stored t' certs phase h

end Transitions

section Step

variable [DecidableEq C] [DecidableEq R] [DecidableEq S] (raw : C → R) (subject : R → S)

def certPoolStep : Event T C → World T C S → World T C S
  | .step t, w =>
      match w.calls t with
      | .get .cas =>
          -- atomic.CompareAndSwapInt32(&c.dirty, 1, 0)
          if w.pool.dirty then { w.setCall t (.get .load) with pool := { w.pool with dirty := false } }
          else w.setCall t (.get .read)
      | .get (.swap newCertPool) =>
          if w.pool.locked then w
          else
            { w.setCall t (.get .read) with
              pool := { w.pool with certPool := w.pool.certs.foldl (addCert raw) newCertPool } }
      | .get .read =>
          if w.pool.locked then w else w.setCall t (.get (.returned (.ok w.pool.certPool)))
      | .add certs .filter =>
          if certs = [] then w.setCall t (.add certs .returned)
          else if w.pool.locked then w
          else
            let certsToBeAdded := filterCerts raw subject w.pool certs
            if certsToBeAdded = [] then w.setCall t (.add certs .returned)
            else w.setCall t (.add certs (.append certsToBeAdded))
      | .add certs (.append certsToBeAdded) =>
          if w.pool.locked then w
          else
            { w.setCall t (.add certs .cas) with
              pool := { certsToBeAdded.foldl (storeCert raw subject) w.pool with locked := true } }
      | .add certs .cas =>
          -- atomic.CompareAndSwapInt32(&c.dirty, 0, 1), then the deferred Unlock
          { w.setCall t (.add certs .returned) with pool := { w.pool with dirty := true, locked := false } }
      | _ => w
  | .loadSystem t systemCertPool, w =>
      match w.calls t with
      | .get .load =>
          match loadSystemCertPool w.pool.systemCertPool systemCertPool with
          | .error err => w.setCall t (.get (.returned (.error err)))
          | .ok newCertPool => w.setCall t (.get (.swap newCertPool))
      | _ => w

theorem inv_filter {w : World T C S} (hw : Inv raw subject w) {t : T} {certs : List (Option C)}
    (hcall : w.calls t = .add certs .filter) :
    Inv raw subject (if filterCerts raw subject w.pool certs = [] then w.setCall t (.add certs .returned)
      else w.setCall t (.add certs (.append (filterCerts raw subject w.pool certs)))) := by
  have hpending : ¬(w.calls t).Pending := by simp [hcall, Call.Pending]
  have hcas : ∀ certs', w.calls t ≠ .add certs' .cas := by simp [hcall]
  have hmem := mem_filterCerts raw subject hw.index certs
  split
  · rename_i hnone
    refine inv_setCall raw subject hw hpending hcas ?_
    rintro _ _ ⟨rfl, rfl⟩ cert hcert
    by_contra hnot
    simpa [hnone] using (hmem cert).mpr ⟨hcert, hnot⟩
  · refine inv_setCall raw subject hw hpending hcas ?_
    rintro _ _ ⟨rfl, rfl⟩ cert hcert
    by_cases hin : raw cert ∈ w.pool.certs.map raw
    · exact .inl hin
    · exact .inr ((hmem cert).mpr ⟨hcert, hin⟩)

theorem inv_step {w : World T C S} (hw : Inv raw subject w) {ev : Event T C} (hev : ev.LoadsOk) :
    Inv raw subject (certPoolStep raw subject ev w) := by
  cases ev with
  | step t =>
      have hidle : ∀ call, w.calls t = call → ¬call.Pending → (∀ certs, call ≠ .add certs .cas) →
          ∀ call', (∀ certs phase, call' = .add certs phase → phase.Stored raw w.pool certs) →
            Inv raw subject (w.setCall t call') := by
        rintro call rfl hpending hcas call' hstored
        exact inv_setCall raw subject hw hpending hcas hstored
      cases hcall : w.calls t with
      | get phase =>
          cases phase with
          | cas =>
              cases hdirty : w.pool.dirty
              · simp only [certPoolStep, hcall, hdirty, Bool.false_eq_true, if_false]
                exact hidle _ hcall (by simp [Call.Pending]) (by simp) _ (by simp)
              · simp only [certPoolStep, hcall, hdirty, if_true]
                exact inv_clearDirty raw subject hw hcall
          | load => simpa [certPoolStep, hcall] using hw
          | swap newCertPool =>
              cases hlocked : w.pool.locked
              · simp only [certPoolStep, hcall]
                rw [if_neg (by simp [hlocked])]
                exact inv_swap raw subject hw hcall hlocked
              · simpa [certPoolStep, hcall, hlocked] using hw
          | read =>
              cases hlocked : w.pool.locked
              · simp only [certPoolStep, hcall, hlocked, Bool.false_eq_true, if_false]
                exact hidle _ hcall (by simp [Call.Pending]) (by simp) _ (by simp)
              · simpa [certPoolStep, hcall, hlocked] using hw
          | returned r => simpa [certPoolStep, hcall] using hw
      | add certs phase =>
          cases phase with
          | filter =>
              by_cases hempty : certs = []
              · subst hempty
                simp only [certPoolStep, hcall, if_true]
                exact hidle _ hcall (by simp [Call.Pending]) (by simp) _
                  (by rintro _ _ ⟨rfl, rfl⟩ cert hcert; cases hcert)
              · cases hlocked : w.pool.locked
                · simp only [certPoolStep, hcall, hempty, hlocked, Bool.false_eq_true, if_false]
                  exact inv_filter raw subject hw hcall
                · simpa [certPoolStep, hcall, hempty, hlocked] using hw
          | append certsToBeAdded =>
              cases hlocked : w.pool.locked
              · simp only [certPoolStep, hcall, hlocked, Bool.false_eq_true, if_false]
                exact inv_append raw subject hw hcall
              · simpa [certPoolStep, hcall, hlocked] using hw
          | cas =>
              simp only [certPoolStep, hcall]
              exact inv_setDirty raw subject hw hcall
          | returned => simpa [certPoolStep, hcall] using hw
  | loadSystem t systemCertPool =>
      obtain ⟨certPool, rfl⟩ := hev
      cases hcall : w.calls t with
      | get phase =>
          cases phase
          case load =>
            cases huse : w.pool.systemCertPool
            all_goals
              simp only [certPoolStep, hcall, loadSystemCertPool, huse]
              exact inv_load raw subject hw hcall _
          all_goals simpa [certPoolStep, hcall] using hw
      | add certs phase => simpa [certPoolStep, hcall] using hw

theorem inv_run (events : List (Event T C)) (hevents : ∀ ev ∈ events, ev.LoadsOk)
    {w : World T C S} (hw : Inv raw subject w) :
    Inv raw subject (run (certPoolStep raw subject) events w) :=
  run_invariant_of_forall (P := Inv raw subject) (Q := Event.LoadsOk)
    (fun _ _ hev hw => inv_step raw subject hw hev) events hevents w hw

theorem get_of_quiescent {w : World T C S} (hw : Inv raw subject w)
    (hdone : ∀ t, (w.calls t).Returned) (t : T) (systemCertPool : List C) :
    ∃ certPool, (run (certPoolStep raw subject)
        [.step t, .loadSystem t (.ok systemCertPool), .step t, .step t]
        (w.setCall t (.get .cas))).calls t = .get (.returned (.ok certPool)) ∧
      w.pool.certs.map raw ⊆ certPool.map raw := by
  have hunlocked : w.pool.locked = false := by
    cases hlocked : w.pool.locked
    · rfl
    · obtain ⟨t', certs, ht'⟩ := hw.locked hlocked
      have := hdone t'
      rw [ht'] at this
      exact this.elim
  cases hdirty : w.pool.dirty
  · -- the compare-and-swap fails and the pool in place is handed out
    refine ⟨w.pool.certPool, by simp [certPoolStep, hdirty, hunlocked], fun x hx => ?_⟩
    obtain ⟨cert, hcert, rfl⟩ := List.mem_map.mp hx
    rcases hw.fresh cert hcert with h | h | ⟨t', ht'⟩
    · exact h
    · simp [hdirty] at h
    · exact absurd ht' (not_pending_of_returned (hdone t'))
  · -- the compare-and-swap succeeds and the pool is rebuilt from every stored certificate
    refine ⟨w.pool.certs.foldl (addCert raw) (loadSystemCertPool w.pool.systemCertPool
        (.ok systemCertPool) |>.toOption |>.getD []), ?_,
      fun x hx => raw_mem_foldl_addCert raw _ (.inr hx)⟩
    cases huse : w.pool.systemCertPool <;>
      simp [certPoolStep, hdirty, hunlocked, huse, loadSystemCertPool, Except.toOption]

/-- After any run from a new pool in which every call has returned, one more `Get`
hands out a pool with the bytes of every certificate that a returned `Add` was given. -/
theorem get_after_all_returned_holds_stored (events : List (Event T C))
    (hevents : ∀ ev ∈ events, ev.LoadsOk) {useSystemCertPool : Bool}
    {systemCertPool : Except GoError (List C)} {c₀ : CertPool C S}
    (hnew : newCertPool useSystemCertPool systemCertPool = .ok c₀) {calls₀ : T → Call C}
    (hstart : ∀ t, (calls₀ t).Initial)
    (hdone : ∀ t, ((run (certPoolStep raw subject) events ⟨c₀, calls₀⟩).calls t).Returned)
    (t : T) (system : List C) :
    ∃ certPool, (run (certPoolStep raw subject) [.step t, .loadSystem t (.ok system), .step t, .step t]
        ((run (certPoolStep raw subject) events ⟨c₀, calls₀⟩).setCall t (.get .cas))).calls t =
          .get (.returned (.ok certPool)) ∧
      ∀ t' certs, (run (certPoolStep raw subject) events ⟨c₀, calls₀⟩).calls t' = .add certs .returned →
        ∀ cert, some cert ∈ certs → raw cert ∈ certPool.map raw := by
  have hc₀ : c₀.certs = [] ∧ c₀.locked = false := by
    unfold newCertPool at hnew
    cases hload : loadSystemCertPool useSystemCertPool systemCertPool <;>
      simp [hload, bind, Except.bind, pure, Except.pure] at hnew
    subst hnew
    exact ⟨rfl, rfl⟩
  have hw := inv_run raw subject events hevents
    (inv_start raw subject (w := ⟨c₀, calls₀⟩) hc₀.1 hc₀.2 hstart)
  obtain ⟨certPool, hget, hall⟩ := get_of_quiescent raw subject hw hdone t system
  exact ⟨certPool, hget, fun t' certs h cert hcert => hall (hw.stored t' certs _ h cert hcert)⟩

end Step

/-- `Add` of certificate 7 returns; a `Get` then clears `dirty` and goes to load the
system pool, and a second `Get`, which starts only now, finds `dirty` clear and returns
the pool built before certificate 7 was stored. -/
theorem get_after_add_misses_cert :
    let pool : CertPool Nat Nat := ⟨[], [], ∅, false, false, false⟩
    let w₀ : World Nat Nat Nat := ⟨pool, fun t => if t = 0 then .add [some 7] .filter else .get .cas⟩
    let w₁ := run (certPoolStep id id) [.step 0, .step 0, .step 0] w₀
    let w₂ := run (certPoolStep id id) [.step 1, .step 2, .step 2] w₁
    newCertPool false (.ok []) = .ok pool ∧ w₁.calls 0 = .add [some 7] .returned ∧
      w₁.calls 2 = .get .cas ∧ 7 ∈ w₂.pool.certs ∧ w₂.calls 2 = .get (.returned (.ok [])) :=
  ⟨rfl, rfl, rfl, by decide, rfl⟩

/-- A new pool that loads the system pool, after call 0 has added certificate 7. -/
def systemPool : CertPool Nat Nat := ⟨[], [], ∅, false, true, false⟩

def addedWorld : World Nat Nat Nat :=
  run (certPoolStep id id) [.step 0, .step 0, .step 0]
    ⟨systemPool, fun t => if t = 0 then .add [some 7] .filter else .get .cas⟩

/-- Call 1, a `Get`, clears `dirty`, and the system pool fails to load. -/
def failedReloadWorld (err : GoError) : World Nat Nat Nat :=
  run (certPoolStep id id) [.step 1, .loadSystem 1 (.error err)] addedWorld

/-- Call 2, a second `Get`, runs to its return. -/
def staleGetWorld (err : GoError) : World Nat Nat Nat :=
  run (certPoolStep id id) [.step 2, .step 2] (failedReloadWorld err)

/-- Calls made one after another: `Add` of certificate 7 returns, a `Get` fails while it
reloads the system pool, and the next `Get` succeeds with the pool built before
certificate 7 was stored, since the failed `Get` had already cleared `dirty`. -/
theorem get_after_failed_reload_misses_cert (err : GoError) :
    newCertPool true (.ok []) = .ok systemPool ∧
      addedWorld.calls 0 = .add [some 7] .returned ∧
      (failedReloadWorld err).calls 1 = .get (.returned (.error err)) ∧
      (staleGetWorld err).calls 2 = .get (.returned (.ok [])) ∧
      (staleGetWorld err).pool.certs = [7] :=
  ⟨rfl, rfl, rfl, rfl, rfl⟩

end Vct.Tlsutil.Certpool
