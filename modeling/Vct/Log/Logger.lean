import Mathlib.Data.List.AList
import Vct.Lib.GoString
import Vct.Lib.GoMap
import Vct.Lib.Except

/-!
The module log levels of `internal/pkg/log/logger.go`. A table maps module names to levels;
`GetLevel` reads a module's entry, else the default entry `""`, else INFO, and `SetLevel`,
`SetDefaultLevel` and `SetSpec` write it. `SetSpec` reads a spec
`module1=level1:module2=level2:defaultLevel` part by part and writes the table only once
every part has parsed; `GetSpec` prints the table in the order `range` visits it.
-/

namespace Vct.Log.Logger

open Vct.Lib.GoString
open Vct.Lib.GoMap
open Vct.Lib.Except

/-- `log.Level`, an `int` that holds a `zapcore.Level`. -/
structure Level where
  toInt : Int
  deriving DecidableEq, Repr

namespace Level

def debug : Level := ⟨-1⟩
def info : Level := ⟨0⟩
def warning : Level := ⟨1⟩
def error : Level := ⟨2⟩
def panic : Level := ⟨4⟩
def fatal : Level := ⟨5⟩

/-- `Level.String`. -/
def toString (l : Level) : List Char :=
  if l = debug then "DEBUG".toList
  else if l = info then "INFO".toList
  else if l = warning then "WARN".toList
  else if l = error then "ERROR".toList
  else if l = panic then "PANIC".toList
  else if l = fatal then "FATAL".toList
  else ("Level(" ++ l.toInt.repr ++ ")").toList

end Level

def namedLevels : List Level := [.debug, .info, .warning, .error, .panic, .fatal]

/-- The cases of the switch of `ParseLevel`, in order. -/
def levelNames : List (List (List Char) × Level) :=
  [(["DEBUG".toList, "debug".toList], .debug), (["INFO".toList, "info".toList], .info),
    (["WARN".toList, "warn".toList, "WARNING".toList, "warning".toList], .warning),
    (["ERROR".toList, "error".toList], .error), (["PANIC".toList, "panic".toList], .panic),
    (["FATAL".toList, "fatal".toList], .fatal)]

/-- `ParseLevel`. -/
def parseLevel (level : List Char) : Except String Level :=
  match levelNames.find? fun case => level ∈ case.1 with
  | some (_, l) => .ok l
  | none => .error "logger: invalid log level"

def minLogLevel : Level := .debug

def defaultLevel : Level := .info

def defaultModuleName : List Char := []

/-- `moduleLevels.levels`. -/
abbrev ModuleLevels := AList fun _ : List Char => Level

namespace ModuleLevels

/-- `moduleLevels.Get`: with no entry for the module nor a default, INFO. -/
def get (l : ModuleLevels) (module : List Char) : Level :=
  match l.lookup module with
  | some level => level
  | none =>
    match l.lookup defaultModuleName with
    | some level => level
    | none => defaultLevel

def set (l : ModuleLevels) (module : List Char) (level : Level) : ModuleLevels :=
  l.insert module level

def setDefault (l : ModuleLevels) (level : Level) : ModuleLevels := l.set defaultModuleName level

def isEnabled (l : ModuleLevels) (module : List Char) (level : Level) : Bool :=
  level.toInt ≥ (l.get module).toInt

end ModuleLevels

/-- `moduleLevelPair`. -/
structure ModuleLevelPair where
  module : List Char
  logLevel : Level
  deriving DecidableEq

/-- A turn of the loop of `SetSpec` over the `:`-parts of the spec: the pairs read so far, and
the default level, which starts below `minLogLevel` to mark that no bare level was read. -/
def readPart (acc : List ModuleLevelPair × Level) (part : List Char) :
    Except String (List ModuleLevelPair × Level) :=
  if contains part ['='] then
    -- a text that contains `=` splits into at least two fields; the rest are not read
    let moduleAndLevelPair := split part '='
    match parseLevel (moduleAndLevelPair.getD 1 []) with
    | .ok logLevel => .ok (acc.1 ++ [⟨moduleAndLevelPair.getD 0 [], logLevel⟩], acc.2)
    | .error err => .error err
  else if acc.2.toInt ≥ minLogLevel.toInt then .error "multiple default values found"
  else
    match parseLevel part with
    | .ok level => .ok (acc.1, level)
    | .error err => .error err

/-- `SetSpec`: the default entry is written first, then the pairs in order. -/
def setSpec (spec : List Char) (levels : ModuleLevels) : Except String ModuleLevels := do
  let (moduleLevelPairs, defaultLogLevel) ←
    (split spec ':').foldlM readPart ([], ⟨minLogLevel.toInt - 1⟩)
  let levels :=
    if defaultLogLevel.toInt ≥ minLogLevel.toInt then levels.set [] defaultLogLevel
    else levels.set [] .info
  return moduleLevelPairs.foldl (fun levels p => levels.set p.module p.logLevel) levels

/-- `GetSpec`: `module=LEVEL:` for each module other than the default, in the order of
`range`, then the default's level, or nothing where there is no default entry. -/
def getSpec (order : MapOrder) (levels : ModuleLevels) : List Char :=
  let (spec, defaultDebugLevel) := (order.arrange levels.entries).foldl
    (fun (acc : List Char × List Char) e =>
      if e.1 = [] then (acc.1, e.2.toString)
      else (acc.1 ++ (e.1 ++ '=' :: e.2.toString ++ [':']), acc.2)) ([], [])
  spec ++ defaultDebugLevel

/-- The calls that write the table. -/
inductive Call
  | setLevel (module : List Char) (level : Level)
  | setDefaultLevel (level : Level)
  | setSpec (spec : List Char)

/-- A call on the table; a spec that `SetSpec` rejects leaves the table as it was. -/
def runCall : Call → ModuleLevels → ModuleLevels
  | .setLevel module level, levels => levels.set module level
  | .setDefaultLevel level, levels => levels.setDefault level
  | .setSpec spec, levels =>
    match setSpec spec levels with
    | .ok levels' => levels'
    | .error _ => levels

/-- The table after a run of calls from the empty one of `newModuleLevels`. -/
def runCalls (calls : List Call) : ModuleLevels := calls.foldl (fun levels c => runCall c levels) ∅

/-! ### What a spec reads as -/

/-- The field of a part that names its level: the second `=`-field of a pair, or the part. -/
def levelField (part : List Char) : List Char :=
  if contains part ['='] then (split part '=').getD 1 [] else part

def partLevel (part : List Char) : Option Level := (parseLevel (levelField part)).toOption

/-- The parts without `=`. -/
def bareCount (parts : List (List Char)) : Nat :=
  (parts.filter fun part => !contains part ['=']).length

/-- The spec `SetSpec` accepts: every part names a level, and at most one part is bare. -/
def SpecAccepted (parts : List (List Char)) : Prop :=
  (∀ part ∈ parts, (partLevel part).isSome) ∧ bareCount parts ≤ 1

instance (parts : List (List Char)) : Decidable (SpecAccepted parts) :=
  inferInstanceAs (Decidable ((∀ part ∈ parts, (partLevel part).isSome) ∧ bareCount parts ≤ 1))

/-- The pairs of the parts with `=`: the first field, and the level of the second. -/
def pairsOf (parts : List (List Char)) : List ModuleLevelPair :=
  parts.filterMap fun part =>
    if contains part ['='] then (partLevel part).map fun l => ⟨(split part '=').getD 0 [], l⟩
    else none

/-- The level of the first bare part. -/
def bareLevel (parts : List (List Char)) : Option Level :=
  (parts.filterMap fun part => if contains part ['='] then none else partLevel part).head?

/-- The table an accepted spec leaves. -/
def applySpec (parts : List (List Char)) (levels : ModuleLevels) : ModuleLevels :=
  (pairsOf parts).foldl (fun levels p => levels.set p.module p.logLevel)
    (levels.set [] ((bareLevel parts).getD .info))

/-! ### Levels -/

theorem mem_namedLevels_of_parseLevel {s : List Char} {l : Level} (h : parseLevel s = .ok l) :
    l ∈ namedLevels := by
  unfold parseLevel at h
  split at h
  · rename_i names l' hfind
    cases h
    have hcases : ∀ case ∈ levelNames, case.2 ∈ namedLevels := by decide
    exact hcases _ (List.mem_of_find?_eq_some hfind)
  · cases h

theorem minLogLevel_le_of_mem {l : Level} (h : l ∈ namedLevels) : minLogLevel.toInt ≤ l.toInt := by
  simp only [namedLevels, List.mem_cons, List.not_mem_nil, or_false] at h
  rcases h with rfl | rfl | rfl | rfl | rfl | rfl <;> decide

theorem parseLevel_toString {l : Level} (h : l ∈ namedLevels) : parseLevel l.toString = .ok l := by
  simp only [namedLevels, List.mem_cons, List.not_mem_nil, or_false] at h
  rcases h with rfl | rfl | rfl | rfl | rfl | rfl <;> decide

/-- The name of a named level is a bare part of a spec. -/
theorem toString_clean {l : Level} (h : l ∈ namedLevels) :
    l.toString ≠ [] ∧ ':' ∉ l.toString ∧ '=' ∉ l.toString := by
  simp only [namedLevels, List.mem_cons, List.not_mem_nil, or_false] at h
  rcases h with rfl | rfl | rfl | rfl | rfl | rfl <;> decide

theorem partLevel_eq_some_iff {part : List Char} {l : Level} :
    partLevel part = some l ↔ parseLevel (levelField part) = .ok l := by
  unfold partLevel
  cases parseLevel (levelField part) <;> simp [Except.toOption]

theorem partLevel_eq_none_iff {part : List Char} :
    partLevel part = none ↔ ∃ e, parseLevel (levelField part) = .error e := by
  unfold partLevel
  cases parseLevel (levelField part) <;> simp [Except.toOption]

theorem levelField_of_bare {part : List Char} (hbare : contains part ['='] = false) :
    levelField part = part := by
  rw [levelField, if_neg (by simp [hbare])]

/-! ### The loop of `SetSpec` -/

theorem readPart_of_pair {part : List Char} (hpair : contains part ['='] = true)
    (acc : List ModuleLevelPair × Level) :
    readPart acc part = (parseLevel (levelField part)).map
      fun l => (acc.1 ++ [⟨(split part '=').getD 0 [], l⟩], acc.2) := by
  simp only [readPart, if_pos hpair, levelField]
  cases parseLevel ((split part '=').getD 1 []) <;> rfl

theorem readPart_of_bare {part : List Char} (hbare : contains part ['='] = false)
    (pairs : List ModuleLevelPair) (d : Level) :
    readPart (pairs, d) part =
      if d.toInt ≥ minLogLevel.toInt then .error "multiple default values found"
      else (parseLevel part).map fun l => (pairs, l) := by
  rw [readPart, if_neg (by simp [hbare])]
  split
  · rfl
  · cases parseLevel part <;> rfl

theorem bareCount_cons (part : List Char) (parts : List (List Char)) :
    bareCount (part :: parts) = bareCount parts + if contains part ['='] then 0 else 1 := by
  unfold bareCount
  rw [List.filter_cons]
  cases contains part ['='] <;> simp [Nat.add_comm]

theorem bareLevel_eq_none {parts : List (List Char)} (h : bareCount parts = 0) :
    bareLevel parts = none := by
  unfold bareCount at h
  unfold bareLevel
  rw [List.length_eq_zero_iff, List.filter_eq_nil_iff] at h
  rw [List.head?_eq_none_iff, List.filterMap_eq_nil_iff]
  intro part hpart
  have hpair : contains part ['='] = true := by simpa using h part hpart
  rw [if_pos hpair]

/-- The loop of an accepted spec ends with the pairs of its parts and its bare level, if it
has one. -/
theorem foldlM_readPart_of_accepted {parts : List (List Char)}
    (hlevels : ∀ part ∈ parts, (partLevel part).isSome) :
    ∀ {pairs : List ModuleLevelPair} {d : Level},
      bareCount parts + (if minLogLevel.toInt ≤ d.toInt then 1 else 0) ≤ 1 →
      parts.foldlM readPart (pairs, d) = .ok (pairs ++ pairsOf parts, (bareLevel parts).getD d) := by
  induction parts with
  | nil =>
    intro pairs d _
    simp [pairsOf, bareLevel, pure, Except.pure]
  | cons part parts ih =>
    intro pairs d hcount
    obtain ⟨l, hl⟩ := Option.isSome_iff_exists.mp (hlevels part List.mem_cons_self)
    have hparse := partLevel_eq_some_iff.mp hl
    have hrest : ∀ p ∈ parts, (partLevel p).isSome := fun p hp => hlevels p (List.mem_cons_of_mem _ hp)
    rw [bareCount_cons] at hcount
    rw [List.foldlM_cons]
    cases hpair : contains part ['='] with
    | true =>
      rw [readPart_of_pair hpair, hparse]
      rw [hpair, if_pos rfl, Nat.add_zero] at hcount
      show parts.foldlM readPart _ = _
      rw [ih hrest hcount]
      simp [pairsOf, bareLevel, hpair, hl]
    | false =>
      rw [hpair, if_neg Bool.false_ne_true] at hcount
      have hd : ¬minLogLevel.toInt ≤ d.toInt := by
        intro hd
        rw [if_pos hd] at hcount
        omega
      have hnone : bareCount parts = 0 := by
        rw [if_neg hd] at hcount
        omega
      have hmin : minLogLevel.toInt ≤ l.toInt :=
        minLogLevel_le_of_mem (mem_namedLevels_of_parseLevel hparse)
      rw [levelField_of_bare hpair] at hparse
      rw [readPart_of_bare hpair, if_neg (by simpa [ge_iff_le] using hd), hparse]
      show parts.foldlM readPart _ = _
      rw [ih hrest (by rw [hnone, if_pos hmin]), bareLevel_eq_none hnone]
      have hbare : bareLevel (part :: parts) = some l := by
        simp [bareLevel, hpair, hl]
      simp [pairsOf, hpair, hbare]

/-- A part that names no level, or a second bare part, makes the loop fail. -/
theorem foldlM_readPart_error {parts : List (List Char)} :
    ∀ {pairs : List ModuleLevelPair} {d : Level},
      ((∃ part ∈ parts, partLevel part = none) ∨
        1 < bareCount parts + (if minLogLevel.toInt ≤ d.toInt then 1 else 0)) →
      ∃ e, parts.foldlM readPart (pairs, d) = .error e := by
  induction parts with
  | nil =>
    intro pairs d h
    simp only [List.not_mem_nil, false_and, exists_false, false_or, bareCount,
      List.filter_nil, List.length_nil, Nat.zero_add] at h
    split at h <;> omega
  | cons part parts ih =>
    intro pairs d h
    rw [List.foldlM_cons]
    cases hl : partLevel part with
    | none =>
      obtain ⟨e, he⟩ := partLevel_eq_none_iff.mp hl
      cases hpair : contains part ['='] with
      | true =>
        rw [readPart_of_pair hpair, he]
        exact ⟨e, rfl⟩
      | false =>
        rw [levelField_of_bare hpair] at he
        rw [readPart_of_bare hpair]
        split
        · exact ⟨_, rfl⟩
        · rw [he]
          exact ⟨e, rfl⟩
    | some l =>
      have hparse := partLevel_eq_some_iff.mp hl
      have htail : (∃ p ∈ parts, partLevel p = none) ∨
          1 < bareCount (part :: parts) + (if minLogLevel.toInt ≤ d.toInt then 1 else 0) := by
        rcases h with ⟨p, hp, hpn⟩ | h
        · rcases List.mem_cons.mp hp with rfl | hp
          · rw [hl] at hpn
            cases hpn
          · exact .inl ⟨p, hp, hpn⟩
        · exact .inr h
      rw [bareCount_cons] at htail
      cases hpair : contains part ['='] with
      | true =>
        rw [readPart_of_pair hpair, hparse]
        rw [hpair, if_pos rfl, Nat.add_zero] at htail
        exact ih htail
      | false =>
        rw [readPart_of_bare hpair]
        split
        · exact ⟨_, rfl⟩
        · rename_i hd
          have hmin : minLogLevel.toInt ≤ l.toInt :=
            minLogLevel_le_of_mem (mem_namedLevels_of_parseLevel hparse)
          rw [levelField_of_bare hpair] at hparse
          rw [hparse]
          apply ih
          rw [hpair, if_neg (by simp), if_neg (by simpa [ge_iff_le] using hd)] at htail
          rw [if_pos hmin]
          rcases htail with htail | htail
          · exact .inl htail
          · exact .inr (by omega)

theorem mem_namedLevels_of_bareLevel {parts : List (List Char)} {l : Level}
    (h : bareLevel parts = some l) : l ∈ namedLevels := by
  unfold bareLevel at h
  obtain ⟨part, -, hpart⟩ := List.mem_filterMap.mp (List.mem_of_mem_head? h)
  split at hpart
  · cases hpart
  · exact mem_namedLevels_of_parseLevel (partLevel_eq_some_iff.mp hpart)

theorem setSpec_eq (spec : List Char) (levels : ModuleLevels) :
    setSpec spec levels = ((split spec ':').foldlM readPart ([], ⟨minLogLevel.toInt - 1⟩)).map
      fun r => r.1.foldl (fun levels p => levels.set p.module p.logLevel)
        (if r.2.toInt ≥ minLogLevel.toInt then levels.set [] r.2 else levels.set [] .info) := by
  rw [setSpec]
  cases (split spec ':').foldlM readPart ([], ⟨minLogLevel.toInt - 1⟩) <;> rfl

theorem setSpec_of_accepted {spec : List Char} (h : SpecAccepted (split spec ':'))
    (levels : ModuleLevels) : setSpec spec levels = .ok (applySpec (split spec ':') levels) := by
  obtain ⟨hlevels, hcount⟩ := h
  have hunset : ¬minLogLevel.toInt ≤ minLogLevel.toInt - 1 := by omega
  rw [setSpec_eq, @foldlM_readPart_of_accepted _ hlevels [] _ (by rw [if_neg hunset]; omega)]
  show Except.ok (List.foldl _ _ _) = _
  cases hb : bareLevel (split spec ':') with
  | none =>
    rw [Option.getD_none, if_neg hunset]
    simp only [applySpec, hb, Option.getD_none, List.nil_append]
  | some l =>
    rw [Option.getD_some,
      if_pos (minLogLevel_le_of_mem (mem_namedLevels_of_bareLevel hb))]
    simp only [applySpec, hb, Option.getD_some, List.nil_append]

theorem setSpec_error_of_not_accepted {spec : List Char} (h : ¬SpecAccepted (split spec ':'))
    (levels : ModuleLevels) : ∃ e, setSpec spec levels = .error e := by
  have hfails : (∃ part ∈ split spec ':', partLevel part = none) ∨
      1 < bareCount (split spec ':') +
        (if minLogLevel.toInt ≤ (⟨minLogLevel.toInt - 1⟩ : Level).toInt then 1 else 0) := by
    have hunset : ¬minLogLevel.toInt ≤ minLogLevel.toInt - 1 := by omega
    rw [if_neg hunset, Nat.add_zero]
    by_cases hlevels : ∀ part ∈ split spec ':', (partLevel part).isSome
    · -- every part names a level, so there is a second bare part
      refine .inr (Nat.lt_of_not_le fun hle => h ⟨hlevels, hle⟩)
    · simp only [not_forall] at hlevels
      obtain ⟨part, hpart, hnone⟩ := hlevels
      exact .inl ⟨part, hpart, by simpa using hnone⟩
  obtain ⟨e, he⟩ := @foldlM_readPart_error _ [] _ hfails
  exact ⟨e, by rw [setSpec_eq, he]; rfl⟩

/-- `SetSpec` accepts a spec exactly when every part names a level (a pair by its second
`=`-field, which need not be its last) and at most one part is bare; it then writes the bare
level (INFO if there is none) to `""` and each pair in order, so that a pair with an empty
module overrides the default. A rejected spec leaves the table as it was. -/
theorem setSpec_spec (spec : List Char) (levels : ModuleLevels) :
    (∀ levels', setSpec spec levels = .ok levels' ↔
      SpecAccepted (split spec ':') ∧ levels' = applySpec (split spec ':') levels) ∧
    (¬SpecAccepted (split spec ':') → runCall (.setSpec spec) levels = levels) := by
  constructor
  · intro levels'
    by_cases hacc : SpecAccepted (split spec ':')
    · rw [setSpec_of_accepted hacc]
      constructor
      · intro hok
        cases hok
        exact ⟨hacc, rfl⟩
      · rintro ⟨-, rfl⟩
        rfl
    · obtain ⟨e, he⟩ := setSpec_error_of_not_accepted hacc levels
      rw [he]
      constructor
      · intro hok
        cases hok
      · rintro ⟨hacc', -⟩
        exact absurd hacc' hacc
  · intro hrej
    obtain ⟨e, he⟩ := setSpec_error_of_not_accepted hrej levels
    rw [runCall, he]

/-- `m=debug=x` pairs no module with a level name, and `=debug` names no module: `SetSpec`
accepts both, and the second writes the default after the bare level `info` did. -/
theorem setSpec_accepts_outside_grammar :
    setSpec "m=debug=x".toList ∅ = .ok (((∅ : ModuleLevels).set [] .info).set "m".toList .debug) ∧
      ∃ levels', setSpec "info:=debug".toList ∅ = .ok levels' ∧ levels'.get [] = .debug := by
  constructor
  · have hpairs : pairsOf (split "m=debug=x".toList ':') = [⟨"m".toList, .debug⟩] := by decide
    have hbare : bareLevel (split "m=debug=x".toList ':') = none := by decide
    rw [setSpec_of_accepted (by decide), applySpec, hpairs, hbare]
    rfl
  · refine ⟨_, setSpec_of_accepted (by decide) ∅, ?_⟩
    have hpairs : pairsOf (split "info:=debug".toList ':') = [⟨[], .debug⟩] := by decide
    rw [applySpec, hpairs]
    rfl

/-- Each module holds the level of its last pair; the default, unless a pair with an empty
module overrides it, the bare level or INFO. -/
theorem lookup_applySpec (parts : List (List Char)) (levels : ModuleLevels) (m : List Char) :
    (applySpec parts levels).lookup m =
      ((((pairsOf parts).filter (·.module = m)).getLast?).map (·.logLevel)).or
        ((levels.set [] ((bareLevel parts).getD .info)).lookup m) :=
  lookup_foldl_insert _ _ _ _ _

/-! ### `GetSpec` read back by `SetSpec` -/

/-- The text `GetSpec` writes for an entry other than the default, before its `:`. -/
def specPair (e : Sigma fun _ : List Char => Level) : List Char := e.1 ++ '=' :: e.2.toString

/-- The tables `GetSpec` prints so that the text splits back: module names free of `:` and
`=`, and named levels. -/
def Printable (levels : ModuleLevels) : Prop :=
  ∀ e ∈ levels.entries, ':' ∉ e.1 ∧ '=' ∉ e.1 ∧ e.2 ∈ namedLevels

instance (levels : ModuleLevels) : Decidable (Printable levels) :=
  inferInstanceAs (Decidable (∀ e ∈ levels.entries, ':' ∉ e.1 ∧ '=' ∉ e.1 ∧ e.2 ∈ namedLevels))

/-- `GetSpec` joins, with `:`, the pairs of the modules in the order of `range` and then the
default's level, which is empty where the table has no default. -/
theorem getSpec_eq (order : MapOrder) (levels : ModuleLevels) :
    getSpec order levels = [':'].intercalate
      ((((order.arrange levels.entries).filter (·.1 ≠ [])).map specPair) ++
        [((levels.lookup []).map Level.toString).getD []]) := by
  have hfold : ∀ (es : List (Sigma fun _ : List Char => Level)) (spec d : List Char),
      es.foldl (fun (acc : List Char × List Char) e =>
          if e.1 = [] then (acc.1, e.2.toString)
          else (acc.1 ++ (e.1 ++ '=' :: e.2.toString ++ [':']), acc.2)) (spec, d) =
        (spec ++ (es.filter (·.1 ≠ [])).flatMap (specPair · ++ [':']),
          (((es.filter (·.1 = [])).getLast?).map (·.2.toString)).getD d) := by
    intro es
    induction es with
    | nil => simp
    | cons e es ih =>
      intro spec d
      rw [List.foldl_cons]
      by_cases he : e.1 = []
      · rw [if_pos he, ih, List.filter_cons_of_neg (by simp [he]),
          List.filter_cons_of_pos (by simp [he]), List.getLast?_cons]
        cases (es.filter (·.1 = [])).getLast? <;> rfl
      · rw [if_neg he, ih, List.filter_cons_of_pos (by simp [he]),
          List.filter_cons_of_neg (by simp [he]), List.flatMap_cons, List.append_assoc]
        rfl
  have hdefault : (((order.arrange levels.entries).filter (·.1 = [])).getLast?).map
      (·.2.toString) = (levels.lookup []).map Level.toString := by
    rw [← arrange_filter_getLast? order levels [], Option.map_map]
    rfl
  unfold getSpec
  rw [hfold, hdefault, List.nil_append, ← flatMap_append_intercalate, List.flatMap_map]

section Printable

variable {e : Sigma fun _ : List Char => Level}

theorem split_specPair (h : '=' ∉ e.1) (hl : e.2 ∈ namedLevels) :
    split (specPair e) '=' = [e.1, e.2.toString] :=
  split_append_cons h (toString_clean hl).2.2

theorem contains_specPair : contains (specPair e) ['='] = true := by
  simp [specPair, contains_singleton]

theorem partLevel_specPair (h : '=' ∉ e.1) (hl : e.2 ∈ namedLevels) :
    partLevel (specPair e) = some e.2 := by
  rw [partLevel_eq_some_iff, levelField, if_pos contains_specPair, split_specPair h hl]
  exact parseLevel_toString hl

end Printable

/-- The parts of the spec `GetSpec` prints are the pairs of the modules, then the default. -/
theorem split_getSpec (order : MapOrder) {levels : ModuleLevels} (h : Printable levels) :
    split (getSpec order levels) ':' =
      ((order.arrange levels.entries).filter (·.1 ≠ [])).map specPair ++
        [((levels.lookup []).map Level.toString).getD []] := by
  rw [getSpec_eq]
  apply split_intercalate _ (by simp)
  intro part hpart
  rcases List.mem_append.mp hpart with hpart | hpart
  · -- a module's pair: neither its name nor its level has a `:`
    obtain ⟨e, he, rfl⟩ := List.mem_map.mp hpart
    have he' : e ∈ levels.entries :=
      (order.arrange_perm _).subset (List.mem_of_mem_filter he)
    obtain ⟨hcolon, -, hl⟩ := h e he'
    simp only [specPair, List.mem_append, List.mem_cons, not_or]
    exact ⟨hcolon, by decide, (toString_clean hl).2.1⟩
  · -- the default's level, or nothing
    rw [List.mem_singleton] at hpart
    subst hpart
    cases hdefault : levels.lookup [] with
    | none => simp
    | some l =>
      have hl : l ∈ namedLevels := (h ⟨[], l⟩ (AList.mem_lookup_iff.mp hdefault)).2.2
      exact (toString_clean hl).2.1

theorem pairsOf_map_specPair {es : List (Sigma fun _ : List Char => Level)}
    (h : ∀ e ∈ es, '=' ∉ e.1 ∧ e.2 ∈ namedLevels) :
    pairsOf (es.map specPair) = es.map fun e => ⟨e.1, e.2⟩ := by
  induction es with
  | nil => rfl
  | cons e es ih =>
    obtain ⟨heq, hl⟩ := h e List.mem_cons_self
    rw [List.map_cons, List.map_cons, ← ih fun e' he' => h e' (List.mem_cons_of_mem _ he')]
    simp [pairsOf, contains_specPair, partLevel_specPair heq hl, split_specPair heq hl]

theorem bareCount_map_specPair (es : List (Sigma fun _ : List Char => Level)) :
    bareCount (es.map specPair) = 0 := by
  rw [bareCount, List.length_eq_zero_iff, List.filter_eq_nil_iff]
  intro part hpart
  obtain ⟨e, -, rfl⟩ := List.mem_map.mp hpart
  simp [contains_specPair]

theorem bareCount_append (parts parts' : List (List Char)) :
    bareCount (parts ++ parts') = bareCount parts + bareCount parts' := by
  simp [bareCount, List.filter_append]

/-- The entries `GetSpec` prints as pairs split back at `=` into a name and a named level. -/
theorem Printable.pairs_clean {levels : ModuleLevels} (h : Printable levels) (order : MapOrder) :
    ∀ e ∈ (order.arrange levels.entries).filter (·.1 ≠ []), '=' ∉ e.1 ∧ e.2 ∈ namedLevels := by
  intro e he
  obtain ⟨-, heq, hlv⟩ := h e ((order.arrange_perm _).subset (List.mem_of_mem_filter he))
  exact ⟨heq, hlv⟩

theorem partLevel_isSome_of_mem_map_specPair {es : List (Sigma fun _ : List Char => Level)}
    (h : ∀ e ∈ es, '=' ∉ e.1 ∧ e.2 ∈ namedLevels) :
    ∀ part ∈ es.map specPair, (partLevel part).isSome := by
  intro part hpart
  obtain ⟨e, he, rfl⟩ := List.mem_map.mp hpart
  rw [partLevel_specPair (h e he).1 (h e he).2]
  rfl

/-- The pairs `GetSpec` prints for the modules other than the default: the last one for a
module holds its level, and none is the default's. -/
theorem getLast?_pairs (order : MapOrder) (levels : ModuleLevels) (m : List Char) :
    (((((order.arrange levels.entries).filter (·.1 ≠ [])).map
        fun e => (⟨e.1, e.2⟩ : ModuleLevelPair)).filter (·.module = m)).getLast?).map (·.logLevel) =
      if m = [] then none else levels.lookup m := by
  rw [List.filter_map, List.getLast?_map, Option.map_map]
  show ((((order.arrange levels.entries).filter (·.1 ≠ [])).filter (·.1 = m)).getLast?).map
    (·.2) = _
  split_ifs with hm
  · subst hm
    have hnone : ((order.arrange levels.entries).filter (·.1 ≠ [])).filter (·.1 = []) = [] :=
      List.filter_eq_nil_iff.mpr fun e he => by simpa using (List.mem_filter.mp he).2
    rw [hnone]
    rfl
  · have hfilter : ((order.arrange levels.entries).filter (·.1 ≠ [])).filter (·.1 = m) =
        (order.arrange levels.entries).filter (·.1 = m) := by
      rw [List.filter_filter]
      apply List.filter_congr
      intro e _
      by_cases he : e.1 = m
      · simp [he, hm]
      · simp [he]
    rw [hfilter, arrange_filter_getLast?]

/-- A printable table with a default entry reads back from its spec: `SetSpec` of the spec
`GetSpec` printed, run on any table, writes every module of it and its default as they were
and leaves the other modules alone. -/
theorem setSpec_getSpec (order : MapOrder) {levels : ModuleLevels} (h : Printable levels)
    (hdefault : (levels.lookup []).isSome) (levels' : ModuleLevels) :
    ∃ levels'', setSpec (getSpec order levels) levels' = .ok levels'' ∧
      ∀ m, levels''.lookup m = (levels.lookup m).or (levels'.lookup m) := by
  obtain ⟨l, hl⟩ := Option.isSome_iff_exists.mp hdefault
  have hnamed : l ∈ namedLevels := (h ⟨[], l⟩ (AList.mem_lookup_iff.mp hl)).2.2
  have hclean := h.pairs_clean order
  have hparts : split (getSpec order levels) ':' =
      ((order.arrange levels.entries).filter (·.1 ≠ [])).map specPair ++ [l.toString] := by
    rw [split_getSpec order h, hl]
    rfl
  have hbare : contains l.toString ['='] = false := by
    simpa [contains_singleton] using (toString_clean hnamed).2.2
  have hlevel : partLevel l.toString = some l := by
    rw [partLevel_eq_some_iff, levelField_of_bare hbare]
    exact parseLevel_toString hnamed
  have hacc : SpecAccepted (split (getSpec order levels) ':') := by
    rw [hparts]
    constructor
    · intro part hpart
      rcases List.mem_append.mp hpart with hpart | hpart
      · exact partLevel_isSome_of_mem_map_specPair hclean part hpart
      · rw [List.mem_singleton.mp hpart, hlevel]
        rfl
    · rw [bareCount_append, bareCount_map_specPair]
      simp [bareCount, hbare]
  have hpairs : pairsOf (split (getSpec order levels) ':') =
      ((order.arrange levels.entries).filter (·.1 ≠ [])).map fun e => ⟨e.1, e.2⟩ := by
    rw [hparts, pairsOf, List.filterMap_append, ← pairsOf, pairsOf_map_specPair hclean]
    simp [hbare]
  have hdefault' : bareLevel (split (getSpec order levels) ':') = some l := by
    rw [hparts, bareLevel, List.filterMap_append,
      List.filterMap_eq_nil_iff.mpr fun part hpart => ?_]
    · simp [hbare, hlevel]
    · obtain ⟨e, -, rfl⟩ := List.mem_map.mp hpart
      rw [if_pos contains_specPair]
  refine ⟨_, setSpec_of_accepted hacc levels', fun m => ?_⟩
  rw [lookup_applySpec, hpairs, hdefault', Option.getD_some, getLast?_pairs]
  by_cases hm : m = []
  · -- the default is written once, from the bare part
    subst hm
    simp [ModuleLevels.set, hl]
  · simp [ModuleLevels.set, hm]

/-- Without a default entry `GetSpec` ends its spec with an empty part, which `SetSpec`
rejects as no level, so the table cannot be read back. -/
theorem setSpec_getSpec_without_default (order : MapOrder) {levels : ModuleLevels}
    (h : Printable levels) (hnone : levels.lookup [] = none) (levels' : ModuleLevels) :
    setSpec (getSpec order levels) levels' = .error "logger: invalid log level" := by
  have hclean := h.pairs_clean order
  have hparts : split (getSpec order levels) ':' =
      ((order.arrange levels.entries).filter (·.1 ≠ [])).map specPair ++ [[]] := by
    rw [split_getSpec order h, hnone]
    rfl
  have hpairs := partLevel_isSome_of_mem_map_specPair hclean
  have hunset : ¬minLogLevel.toInt ≤ minLogLevel.toInt - 1 := by omega
  rw [setSpec_eq, hparts, List.foldlM_append,
    @foldlM_readPart_of_accepted _ hpairs [] _ (by rw [bareCount_map_specPair, if_neg hunset]; omega),
    bareLevel_eq_none (bareCount_map_specPair _), Option.getD_none]
  rw [ok_bind, List.foldlM_cons, readPart_of_bare (by decide), if_neg (by omega)]
  rfl

/-- After the one call `SetLevel("m", DEBUG)` the spec is `m=DEBUG:`, which `SetSpec` rejects. -/
theorem setSpec_getSpec_without_default_setLevel :
    Printable (runCalls [.setLevel "m".toList .debug]) ∧
      (runCalls [.setLevel "m".toList .debug]).lookup [] = none ∧
      getSpec ⟨fun l => l, List.Perm.refl⟩ (runCalls [.setLevel "m".toList .debug]) =
        "m=DEBUG:".toList ∧
      setSpec (getSpec ⟨fun l => l, List.Perm.refl⟩ (runCalls [.setLevel "m".toList .debug])) ∅ =
        .error "logger: invalid log level" :=
  ⟨by decide, by decide, by decide,
    setSpec_getSpec_without_default _ (by decide) (by decide) ∅⟩

end Vct.Log.Logger
