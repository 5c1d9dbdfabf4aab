import Mathlib
import Vct.Lib.ParseInt
import Vct.Command.Models

namespace Vct.Controller.Params

open Vct.Lib.Json (decimal)
open Vct.Lib.ParseInt
open Vct.Controller.Errors
open Vct.Command.Models

/-- `r.FormValue(name)`: the first value of the parameter in the query, empty when absent. -/
def formValue (query : List (List Char × List UInt8)) (name : List Char) : List UInt8 :=
  ((query.find? (·.1 == name)).map (·.2)).getD []

/-- The read of one number parameter, the same in every handler. -/
def parseParam (form : List Char → List UInt8) (name : List Char) : Except GoError Int64 :=
  match parseInt (form name) with
  | .ok n => .ok n
  | .error _ => .error (.wrapf "%w: parameter %q is not a number" [.quoted name] errValidation)

/-- The two number parameters of a handler, in the order it reads them. -/
def parseParams (form : List Char → List UInt8) (first second : List Char) :
    Except GoError (Int64 × Int64) := do
  let a ← parseParam form first
  let b ← parseParam form second
  return (a, b)

variable {α : Type}

/-- `(*Operation).GetEntries` up to the command, which gets the request it decodes. -/
def restGetEntries (getEntries : Option GetEntriesRequest → Except GoError α)
    (form : List Char → List UInt8) (aliasVar : List Char) : Except GoError α := do
  let (start, «end») ← parseParams form "start".toList "end".toList
  getEntries (some ⟨aliasVar, start, «end»⟩)

def restGetSTHConsistency (getSTHConsistency : Option GetSTHConsistencyRequest → Except GoError α)
    (form : List Char → List UInt8) (aliasVar : List Char) : Except GoError α := do
  let (first, second) ← parseParams form "first".toList "second".toList
  getSTHConsistency (some ⟨aliasVar, first, second⟩)

def restGetEntryAndProof (getEntryAndProof : Option GetEntryAndProofRequest → Except GoError α)
    (form : List Char → List UInt8) (aliasVar : List Char) : Except GoError α := do
  let (leafIndex, treeSize) ← parseParams form "leaf_index".toList "tree_size".toList
  getEntryAndProof (some ⟨aliasVar, leafIndex, treeSize⟩)

/-- The hash is passed on as the text of its parameter. -/
def restGetProofByHash (getProofByHash : Option GetProofByHashRequest → Except GoError α)
    (form : List Char → List UInt8) (aliasVar : List Char) : Except GoError α := do
  let treeSize ← parseParam form "tree_size".toList
  getProofByHash (some ⟨aliasVar, form "hash".toList, treeSize⟩)

/-- The query of the client's calls with two numbers, each written by `FormatUint`. -/
def clientQuery (first second : List Char) (a b : UInt64) : List (List Char × List UInt8) :=
  [(first, decimal a.toNat), (second, decimal b.toNat)]

/-- The query `client.GetEntries` builds. -/
def clientGetEntriesQuery (start «end» : UInt64) : List (List Char × List UInt8) :=
  clientQuery "start".toList "end".toList start «end»

theorem toInt64_eq_ofNat (n : UInt64) : n.toInt64 = Int64.ofNat n.toNat := by
  rw [← UInt64.toInt64_ofNat', UInt64.ofNat_toNat]

/-- The server's read of a number the client wrote: the number itself below `2^63`, and a 400
naming the parameter from there on. -/
theorem parseParam_decimal {form : List Char → List UInt8} {name : List Char} {n : UInt64}
    (hform : form name = decimal n.toNat) :
    parseParam form name = if n.toNat < 2 ^ 63 then .ok n.toInt64
      else .error (.wrapf "%w: parameter %q is not a number" [.quoted name] errValidation) := by
  rw [parseParam, hform, parseInt_decimal n.toNat_lt]
  split_ifs with hsmall
  · rw [toInt64_eq_ofNat]
  · rfl

theorem formValue_clientQuery_first {first second : List Char} {a b : UInt64} :
    formValue (clientQuery first second a b) first = decimal a.toNat := by
  simp [formValue, clientQuery]

theorem formValue_clientQuery_second {first second : List Char} (hne : first ≠ second)
    {a b : UInt64} : formValue (clientQuery first second a b) second = decimal b.toNat := by
  simp [formValue, clientQuery, hne]

/-- The two numbers of the client's query, read by the server. -/
theorem parseParams_clientQuery {first second : List Char} (hne : first ≠ second) (a b : UInt64) :
    parseParams (formValue (clientQuery first second a b)) first second =
      if a.toNat < 2 ^ 63 then
        if b.toNat < 2 ^ 63 then .ok (a.toInt64, b.toInt64)
        else .error (.wrapf "%w: parameter %q is not a number" [.quoted second] errValidation)
      else .error (.wrapf "%w: parameter %q is not a number" [.quoted first] errValidation) := by
  rw [parseParams, parseParam_decimal formValue_clientQuery_first,
    parseParam_decimal (formValue_clientQuery_second hne)]
  split_ifs <;> rfl

/-- The numbers of `client.GetEntries` reach the command as the client sent them when both
are below `2^63`; otherwise the server answers 400 naming the first one that is not. -/
theorem restGetEntries_clientQuery (getEntries : Option GetEntriesRequest → Except GoError α)
    (start «end» : UInt64) (aliasVar : List Char) :
    restGetEntries getEntries (formValue (clientGetEntriesQuery start «end»)) aliasVar =
      if start.toNat < 2 ^ 63 then
        if «end».toNat < 2 ^ 63 then getEntries (some ⟨aliasVar, start.toInt64, «end».toInt64⟩)
        else .error (.wrapf "%w: parameter %q is not a number" [.quoted "end".toList] errValidation)
      else .error (.wrapf "%w: parameter %q is not a number" [.quoted "start".toList] errValidation) := by
  rw [restGetEntries, clientGetEntriesQuery, parseParams_clientQuery (by decide)]
  split_ifs <;> rfl

end Vct.Controller.Params
