import Vct.Lib.GoString
import Vct.Lib.GoMap
import Vct.Lib.Except
import Vct.Command.Controller

namespace Vct.StartCmd.ParseLogs

open Vct.Lib.GoString
open Vct.Lib.GoMap
open Vct.Lib.Except
open Vct.Controller.Errors
open Vct.Command.Controller

def embeddedLogServerHost : List Char := "0.0.0.0:8090".toList

/-- `parts[i]`, which panics when the slice is too short. -/
def index (parts : List (List Char)) (i : Nat) : Except GoError (List Char) :=
  match parts[i]? with
  | some part => .ok part
  | none => .error (.panic "index out of range")

abbrev IssuerSet := AList fun _ : List Char => Unit

abbrev IssuersSet := AList fun _ : List Char => IssuerSet

/-- The loop over `issuersRaw`: `issuersSet[alias][issuer] = struct{}{}`. -/
def collectIssuers (issuersRaw : List (List Char)) : Except GoError IssuersSet :=
  List.foldlM (fun issuersSet issuerRaw => do
      let parts := split issuerRaw '@'
      let aliasName := trimSpace (← index parts 0)
      let issuer := trimSpace (← index parts 1)
      let inner := (issuersSet.lookup aliasName).getD ∅
      return issuersSet.insert aliasName (inner.insert issuer ())) ∅ issuersRaw

/-- The split of one `--logs` entry into alias, permission and endpoint, and
whether the entry names no endpoint, which starts the embedded Trillian. -/
def parseLogEntry (rawLog : List Char) :
    Except GoError (List Char × List Char × List Char × Bool) := do
  if contains rawLog "@".toList then
    let parts := split rawLog '@'
    let apParts := split (← index parts 0) ':'
    return (← index apParts 0, ← index apParts 1, ← index parts 1, false)
  else
    let parts := split rawLog ':'
    return (← index parts 0, ← index parts 1, embeddedLogServerHost, true)

/-- The ledger `parseLogs` records for one entry, with the issuers listed for its
trimmed alias in the order `range` visits them. -/
def logEntity (order : MapOrder) (issuersSet : IssuersSet)
    (entry : List Char × List Char × List Char × Bool) : Log Unit :=
  let aliasName := trimSpace entry.1
  { id := 0, «alias» := aliasName, permission := trimSpace entry.2.1,
    endpoint := trimSpace entry.2.2.1,
    issuers := order.arrange ((issuersSet.lookup aliasName).getD ∅).keys, client := () }

/-- The body of the loop over the `--logs` entries: `logsSet[alias] = logEntity`, and
an entry without endpoint sets `starTrillian`. -/
def addLog (order : MapOrder) (issuersSet : IssuersSet) (acc : LogMap Unit × Bool)
    (rawLog : List Char) : Except GoError (LogMap Unit × Bool) := do
  let entry ← parseLogEntry rawLog
  let log := logEntity order issuersSet entry
  return (acc.1.insert log.alias log, acc.2 || entry.2.2.2)

def parseLogs (order : MapOrder) (logsRaw : List Char) (issuersRaw : List (List Char)) :
    Except GoError (List (Log Unit) × Bool) := do
  let issuersSet ← collectIssuers issuersRaw
  let (logsSet, starTrillian) ← List.foldlM (addLog order issuersSet) (∅, false) (split logsRaw ',')
  return (order.arrange (logsSet.entries.map (·.2)), starTrillian)

/-- How `startAgent` reads `--issuers`: split on commas unless empty. -/
def issuersOf (issuersStr : List Char) : List (List Char) :=
  if issuersStr = [] then [] else split issuersStr ','

/-- One `--logs` entry as an operator writes it: `alias:permission@endpoint`, or
`alias:permission` for a ledger on the embedded log server. -/
structure LogSpec where
  «alias» : List Char
  permission : List Char
  endpoint : Option (List Char)
  alias_free : ':' ∉ «alias» ∧ '@' ∉ «alias» ∧ ',' ∉ «alias»
  permission_free : ':' ∉ permission ∧ '@' ∉ permission ∧ ',' ∉ permission
  endpoint_free : ∀ e ∈ endpoint, '@' ∉ e ∧ ',' ∉ e

def LogSpec.render (spec : LogSpec) : List Char :=
  match spec.endpoint with
  | none => spec.alias ++ ':' :: spec.permission
  | some e => spec.alias ++ ':' :: spec.permission ++ '@' :: e

/-- What `parseLogEntry` should read back from a rendered spec. -/
def LogSpec.entry (spec : LogSpec) : List Char × List Char × List Char × Bool :=
  (spec.alias, spec.permission, spec.endpoint.getD embeddedLogServerHost, spec.endpoint.isNone)

def renderLogs (specs : List LogSpec) : List Char := [','].intercalate (specs.map LogSpec.render)

/-- The last spec whose trimmed alias is `aliasName`: the one whose ledger survives. -/
def lastSpec (specs : List LogSpec) (aliasName : List Char) : Option LogSpec :=
  (specs.filter fun spec => trimSpace spec.alias = aliasName).getLast?

structure IssuerSpec where
  «alias» : List Char
  issuer : List Char
  alias_free : '@' ∉ «alias» ∧ ',' ∉ «alias»
  issuer_free : '@' ∉ issuer ∧ ',' ∉ issuer

def IssuerSpec.render (spec : IssuerSpec) : List Char := spec.alias ++ '@' :: spec.issuer

def renderIssuers (issuers : List IssuerSpec) : List Char :=
  [','].intercalate (issuers.map IssuerSpec.render)

/-- The trimmed issuers listed for `aliasName`, with repetitions. -/
def listedIssuers (issuers : List IssuerSpec) (aliasName : List Char) : List (List Char) :=
  (issuers.filter fun spec => trimSpace spec.alias = aliasName).map fun spec => trimSpace spec.issuer

theorem listedIssuers_cons (spec : IssuerSpec) (rest : List IssuerSpec) (aliasName : List Char) :
    listedIssuers (spec :: rest) aliasName =
      if trimSpace spec.alias = aliasName then trimSpace spec.issuer :: listedIssuers rest aliasName
      else listedIssuers rest aliasName := by
  by_cases h : trimSpace spec.alias = aliasName <;> simp [listedIssuers, h]

def addIssuer (issuersSet : IssuersSet) (spec : IssuerSpec) : IssuersSet :=
  let aliasName := trimSpace spec.alias
  issuersSet.insert aliasName (((issuersSet.lookup aliasName).getD ∅).insert (trimSpace spec.issuer) ())

theorem parseLogEntry_render (spec : LogSpec) : parseLogEntry spec.render = .ok spec.entry := by
  obtain ⟨a, p, endpoint, ha, hp, he⟩ := spec
  have hap := split_append_cons ha.1 hp.1
  cases endpoint with
  | none =>
      have hat : '@' ∉ a ++ ':' :: p := by simp [ha.2.1, hp.2.1]
      simp [parseLogEntry, LogSpec.render, LogSpec.entry, contains_singleton, hat, hap, index]
  | some e =>
      have hsplit : split (a ++ ':' :: (p ++ '@' :: e)) '@' = [a ++ ':' :: p, e] := by
        simpa using split_append_cons (x := a ++ ':' :: p) (by simp [ha.2.1, hp.2.1])
          (he e rfl).1
      simp [parseLogEntry, LogSpec.render, LogSpec.entry, contains_singleton, hsplit, hap, index]

theorem split_renderLogs {specs : List LogSpec} (hspecs : specs ≠ []) :
    split (renderLogs specs) ',' = specs.map LogSpec.render := by
  apply split_intercalate _ (by simpa using hspecs)
  intro part hpart
  obtain ⟨⟨a, p, endpoint, ha, hp, he⟩, -, rfl⟩ := List.mem_map.mp hpart
  cases endpoint with
  | none => simp [LogSpec.render, ha.2.2, hp.2.2]
  | some e => simp [LogSpec.render, ha.2.2, hp.2.2, (he e rfl).2]

theorem issuersOf_renderIssuers (issuers : List IssuerSpec) :
    issuersOf (renderIssuers issuers) = issuers.map IssuerSpec.render := by
  cases issuers with
  | nil => rfl
  | cons spec rest =>
      have hne : renderIssuers (spec :: rest) ≠ [] := by
        cases rest <;> simp [renderIssuers, IssuerSpec.render]
      rw [issuersOf, if_neg hne]
      apply split_intercalate _ (by simp)
      intro part hpart
      obtain ⟨⟨a, i, ha, hi⟩, -, rfl⟩ := List.mem_map.mp hpart
      simp [IssuerSpec.render, ha.2, hi.2]

theorem collectIssuers_render (issuers : List IssuerSpec) :
    collectIssuers (issuers.map IssuerSpec.render) = .ok (issuers.foldl addIssuer ∅) := by
  rw [collectIssuers, List.foldlM_map]
  apply foldlM_eq_ok_foldl
  rintro issuersSet ⟨a, i, ha, hi⟩ -
  have hsplit := split_append_cons ha.1 hi.1
  simp [IssuerSpec.render, hsplit, index, addIssuer]

theorem mem_foldl_addIssuer (issuers : List IssuerSpec) (m : IssuersSet) (aliasName issuer) :
    issuer ∈ ((issuers.foldl addIssuer m).lookup aliasName).getD ∅ ↔
      issuer ∈ (m.lookup aliasName).getD ∅ ∨ issuer ∈ listedIssuers issuers aliasName := by
  induction issuers generalizing m with
  | nil => simp [listedIssuers]
  | cons spec rest ih =>
      rw [List.foldl_cons, ih]
      by_cases halias : trimSpace spec.alias = aliasName
      · subst halias
        rw [listedIssuers_cons, if_pos rfl, List.mem_cons]
        simp only [addIssuer, AList.lookup_insert, Option.getD_some, AList.mem_insert]
        rw [or_assoc]
        exact or_left_comm
      · rw [listedIssuers_cons, if_neg halias]
        simp only [addIssuer, AList.lookup_insert_ne (Ne.symm halias)]

theorem addLog_render (order : MapOrder) (issuersSet : IssuersSet) (acc : LogMap Unit × Bool)
    (spec : LogSpec) :
    addLog order issuersSet acc spec.render =
      .ok (acc.1.insert (trimSpace spec.alias) (logEntity order issuersSet spec.entry),
        acc.2 || spec.endpoint.isNone) := by
  simp [addLog, parseLogEntry_render, LogSpec.entry, logEntity]

def ledgersOf (order : MapOrder) (specs : List LogSpec) (issuers : List IssuerSpec) : LogMap Unit :=
  assignAll Log.alias (specs.map fun spec => logEntity order (issuers.foldl addIssuer ∅) spec.entry) ∅

theorem foldl_addLog (order : MapOrder) (issuersSet : IssuersSet) (specs : List LogSpec)
    (logsSet : LogMap Unit) (starTrillian : Bool) :
    specs.foldl (fun acc spec => (acc.1.insert (trimSpace spec.alias)
        (logEntity order issuersSet spec.entry), acc.2 || spec.endpoint.isNone))
        (logsSet, starTrillian) =
      (assignAll Log.alias (specs.map fun spec => logEntity order issuersSet spec.entry) logsSet,
        starTrillian || specs.any fun spec => spec.endpoint.isNone) := by
  induction specs generalizing logsSet starTrillian with
  | nil => simp [assignAll]
  | cons spec rest ih =>
      rw [List.foldl_cons, ih, List.map_cons, List.any_cons, ← Bool.or_assoc]
      rfl

theorem parseLogs_render (order : MapOrder) {specs : List LogSpec} (hspecs : specs ≠ [])
    (issuers : List IssuerSpec) :
    parseLogs order (renderLogs specs) (issuersOf (renderIssuers issuers)) =
      .ok (order.arrange ((ledgersOf order specs issuers).entries.map (·.2)),
        specs.any fun spec => spec.endpoint.isNone) := by
  have hloop := foldlM_eq_ok_foldl (l := specs) (fun acc spec _ => addLog_render order
    (issuers.foldl addIssuer ∅) acc spec) (∅, false)
  rw [← List.foldlM_map, foldl_addLog] at hloop
  rw [issuersOf_renderIssuers, parseLogs, collectIssuers_render, split_renderLogs hspecs]
  simp [bind, Except.bind, hloop, ledgersOf]

theorem lookup_ledgersOf (order : MapOrder) (specs : List LogSpec) (issuers : List IssuerSpec)
    (aliasName : List Char) :
    (ledgersOf order specs issuers).lookup aliasName =
      (lastSpec specs aliasName).map fun spec =>
        logEntity order (issuers.foldl addIssuer ∅) spec.entry := by
  rw [ledgersOf, lookup_assignAll, List.filter_map, List.getLast?_map, AList.lookup_empty,
    Option.or_none]
  rfl

theorem lastSpec_alias {specs : List LogSpec} {aliasName : List Char} {spec : LogSpec}
    (h : lastSpec specs aliasName = some spec) : trimSpace spec.alias = aliasName := by
  have hmem := List.mem_filter.mp (List.mem_of_getLast? h)
  simpa using hmem.2

theorem lastSpec_isSome_iff (specs : List LogSpec) (aliasName : List Char) :
    (lastSpec specs aliasName).isSome ↔ ∃ spec ∈ specs, trimSpace spec.alias = aliasName := by
  simp [lastSpec]

theorem mem_issuers_logEntity (order : MapOrder) (issuers : List IssuerSpec) (spec : LogSpec)
    (issuer : List Char) :
    issuer ∈ (logEntity order (issuers.foldl addIssuer ∅) spec.entry).issuers ↔
      issuer ∈ listedIssuers issuers (trimSpace spec.alias) := by
  simp only [logEntity, LogSpec.entry]
  rw [(order.arrange_perm _).mem_iff, ← AList.mem_keys, mem_foldl_addIssuer]
  simp

theorem isSpace_rune (perm : Permission) : isSpace perm.rune = false := by
  cases perm <;> decide

theorem parseLogs_new_spec (order : MapOrder) (specs : List LogSpec) (hspecs : specs ≠ [])
    (issuers : List IssuerSpec) :
    ∃ logs starTrillian,
      parseLogs order (renderLogs specs) (issuersOf (renderIssuers issuers)) =
        .ok (logs, starTrillian) ∧
      (starTrillian = true ↔ ∃ spec ∈ specs, spec.endpoint = none) ∧
      (logs.map (·.alias)).Nodup ∧
      (∀ aliasName, aliasName ∈ logs.map (·.alias) ↔
        ∃ spec ∈ specs, trimSpace spec.alias = aliasName) ∧
      (∀ aliasName spec, lastSpec specs aliasName = some spec →
        ∃ log, (new logs).logs.lookup aliasName = some log ∧ log.alias = aliasName ∧
          log.permission = trimSpace spec.permission ∧
          log.endpoint = trimSpace (spec.endpoint.getD embeddedLogServerHost) ∧
          log.issuers.Nodup ∧
          (∀ issuer, issuer ∈ log.issuers ↔ issuer ∈ listedIssuers issuers aliasName) ∧
          ∀ issuer, (new logs).issuerAllowed aliasName issuer = true ↔
            listedIssuers issuers aliasName = [] ∨ issuer ∈ listedIssuers issuers aliasName) ∧
      ∀ aliasName perm, (new logs).hasPermissions aliasName perm = .ok () ↔
        ∃ spec, lastSpec specs aliasName = some spec ∧ perm.rune ∈ spec.permission := by
  set ledgers := ledgersOf order specs issuers with hledgers
  have hkey := assignAll_key Log.alias
    (specs.map fun spec => logEntity order (issuers.foldl addIssuer ∅) spec.entry)
  have hlookup : ∀ aliasName,
      (new (order.arrange (ledgers.entries.map (·.2)))).logs.lookup aliasName =
        (lastSpec specs aliasName).map fun spec =>
          logEntity order (issuers.foldl addIssuer ∅) spec.entry := fun aliasName =>
    (lookup_assignAll_entries order ledgers hkey aliasName).trans
      (lookup_ledgersOf order specs issuers aliasName)
  have hperm := (order.arrange_perm (ledgers.entries.map (·.2))).map Log.alias
  rw [map_key_values ledgers hkey] at hperm
  refine ⟨order.arrange (ledgers.entries.map (·.2)), specs.any fun spec => spec.endpoint.isNone,
    parseLogs_render order hspecs issuers, by simp, hperm.nodup_iff.mpr ledgers.keys_nodup,
    fun aliasName => ?_, fun aliasName spec hspec => ?_, fun aliasName perm => ?_⟩
  · rw [hperm.mem_iff, ← AList.mem_keys, ← AList.lookup_isSome, lookup_ledgersOf,
      Option.isSome_map, lastSpec_isSome_iff]
  · have halias := lastSpec_alias hspec
    refine ⟨_, by rw [hlookup, hspec]; rfl, halias, rfl, rfl, ?_, ?_, fun issuer => ?_⟩
    · exact (order.arrange_perm _).nodup_iff.mpr (AList.keys_nodup _)
    · intro issuer
      rw [mem_issuers_logEntity, halias]
    · have hlog : (new (order.arrange (ledgers.entries.map (·.2)))).logs.lookup aliasName =
          some (logEntity order (issuers.foldl addIssuer ∅) spec.entry) := by
        rw [hlookup, hspec]
        rfl
      have hnil : (logEntity order (issuers.foldl addIssuer ∅) spec.entry).issuers = [] ↔
          listedIssuers issuers aliasName = [] := by
        simp only [List.eq_nil_iff_forall_not_mem, mem_issuers_logEntity, halias]
      rw [issuerAllowed_eq_true_iff _ _ _ _ hlog, mem_issuers_logEntity, halias, hnil]
  · rw [hasPermissions_eq_ok_iff, hlookup]
    simp [logEntity, LogSpec.entry, mem_trimSpace_iff (isSpace_rune perm)]

theorem parseLogs_new_spec_maple2021 :
    ∃ logs starTrillian,
      parseLogs ⟨fun l => l, List.Perm.refl⟩ "maple2021:rw".toList
          ["maple2021@did:example:76e12ec712ebc6f1c221ebfeb1f".toList] = .ok (logs, starTrillian) ∧
        starTrillian = true ∧
        (new logs).issuerAllowed "maple2021".toList
          "did:example:76e12ec712ebc6f1c221ebfeb1f".toList = true := by
  let spec : LogSpec := ⟨"maple2021".toList, "rw".toList, none, by decide, by decide, by simp⟩
  let issuer : IssuerSpec :=
    ⟨"maple2021".toList, "did:example:76e12ec712ebc6f1c221ebfeb1f".toList, by decide, by decide⟩
  obtain ⟨logs, starTrillian, hparse, hstar, -, -, hledger, -⟩ :=
    parseLogs_new_spec ⟨fun l => l, List.Perm.refl⟩ [spec] (by simp) [issuer]
  have htrim : trimSpace "maple2021".toList = "maple2021".toList := by decide
  have hlast : lastSpec [spec] "maple2021".toList = some spec := by
    rw [lastSpec, List.filter_cons_of_pos
      (p := fun spec : LogSpec => decide (trimSpace spec.alias = "maple2021".toList))
      (decide_eq_true htrim)]
    rfl
  have hlogs : renderLogs [spec] = "maple2021:rw".toList := by decide
  have hissuers : issuersOf (renderIssuers [issuer]) =
      ["maple2021@did:example:76e12ec712ebc6f1c221ebfeb1f".toList] := by decide
  rw [hlogs, hissuers] at hparse
  obtain ⟨log, -, -, -, -, -, -, hallowed⟩ := hledger _ _ hlast
  refine ⟨logs, starTrillian, hparse, hstar.mpr ⟨spec, List.mem_singleton_self _, rfl⟩, ?_⟩
  rw [hallowed]
  right
  decide

end Vct.StartCmd.ParseLogs
