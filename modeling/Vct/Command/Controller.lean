import Mathlib.Data.List.AList
import Vct.Controller.Errors

namespace Vct.Command.Controller

open Vct.Controller.Errors

/-- `command.Log`: a ledger, its Trillian tree, and who may use it. -/
structure Log (C : Type) where
  id : Int64
  «alias» : List Char
  permission : List Char
  endpoint : List Char
  issuers : List (List Char)
  client : C

/-- `permission`, the rune a log's permission string must contain. -/
inductive Permission
  | read
  | write
  deriving DecidableEq, Repr

def Permission.rune : Permission → Char
  | .read => 'r'
  | .write => 'w'

abbrev LogMap (C : Type) := AList fun _ : List Char => Log C

structure Cmd (C : Type) where
  logs : LogMap C

variable {C : Type}

/-- The loop of `New` that fills `logs`: a later log with the same alias overwrites
an earlier one. -/
def logsOf (logs : List (Log C)) : LogMap C :=
  logs.foldl (fun m log => m.insert log.alias log) ∅

/-- `New`, restricted to the ledger map (the key manager and base URL it also
reads are not modelled). -/
def new (logs : List (Log C)) : Cmd C := { logs := logsOf logs }

/-- `(*Cmd).hasPermissions`: the alias must be served and its permission string
must contain the rune of `perm`. -/
def Cmd.hasPermissions (c : Cmd C) (aliasName : List Char) (perm : Permission) :
    Except GoError Unit :=
  match c.logs.lookup aliasName with
  | none => .error (newNotFoundError (.errorf "alias %q is not supported" [.quoted aliasName]))
  | some log =>
      if log.permission.any (· == perm.rune) then .ok ()
      else .error (newUnauthorizedError (.errorf "action forbidden for %q" [.quoted aliasName]))

theorem hasPermissions_eq_ok_iff (c : Cmd C) (aliasName : List Char) (perm : Permission) :
    c.hasPermissions aliasName perm = .ok () ↔
      ∃ log, c.logs.lookup aliasName = some log ∧ perm.rune ∈ log.permission := by
  unfold Cmd.hasPermissions
  cases hlookup : c.logs.lookup aliasName with
  | none => simp
  | some log =>
      by_cases hmem : perm.rune ∈ log.permission
      · have hany : log.permission.any (· == perm.rune) = true :=
          List.any_eq_true.mpr ⟨perm.rune, hmem, beq_self_eq_true _⟩
        simp [hany, hmem]
      · have hany : log.permission.any (· == perm.rune) = false := by
          simp only [List.any_eq_false, beq_iff_eq]
          rintro x hx rfl
          exact hmem hx
        simp [hany, hmem]

def contains (s : List (List Char)) (e : List Char) : Bool := s.any (· == e)

@[simp] theorem contains_eq_true_iff (s : List (List Char)) (e : List Char) :
    contains s e = true ↔ e ∈ s := by
  simp [contains]

/-- The issuer check of `AddVC`: a ledger that lists issuers accepts only those.
An alias that is not served reads as the zero `Log`, which lists none. -/
def Cmd.issuerAllowed (c : Cmd C) (aliasName issuer : List Char) : Bool :=
  match c.logs.lookup aliasName with
  | some log => !(decide (log.issuers.length > 0) && !contains log.issuers issuer)
  | none => true

theorem issuerAllowed_eq_true_iff (c : Cmd C) (aliasName issuer : List Char) (log : Log C)
    (hlog : c.logs.lookup aliasName = some log) :
    c.issuerAllowed aliasName issuer = true ↔ log.issuers = [] ∨ issuer ∈ log.issuers := by
  unfold Cmd.issuerAllowed
  rw [hlog]
  cases hissuers : log.issuers with
  | nil => simp [hissuers]
  | cons first rest => simp [hissuers]

end Vct.Command.Controller
