import Mathlib.Data.List.AList
import Vct.Lib.GoString
import Vct.Lib.Except
import Vct.Controller.Errors
import Vct.Storage.Schema

/-!
The statements with a variable number of parameters (`tree_storage.go`): a
`statementSkeleton` names a query with one `<placeholder>`, the insertion written in its
place for the first value and the one repeated after it for each further value, and how
many parameters each holds. `expandPlaceholderSQL` numbers the parameters of the insertions
`$1, $2, ...`, and `getStmt` numbers the `<param>` markers of the query after them, caching
the prepared statement per query text and count.

The markers are numbered from `restPlaceholders * num + 1`. That is one past the insertion's
last parameter when both insertions hold as many parameters, and then every parameter of
the statement is numbered once and in order; when the first insertion holds more, the
markers reuse its last numbers.
-/

namespace Vct.Storage.Placeholder

open Vct.Lib.GoString
open Vct.Lib.Except
open Vct.Controller.Errors
open Vct.Storage.Schema

def placeholderSQL : List Char := "<placeholder>".toList

/-- The marker `getStmt` numbers. -/
def paramMarker : List Char := "<param>".toList

/-- `statementSkeleton`. The counts of placeholders are Go `int`s that every skeleton sets to
a natural number; a negative one would make `make` panic. -/
structure StatementSkeleton where
  sql : List Char
  firstInsertion : List Char
  firstPlaceholders : Nat
  restInsertion : List Char
  restPlaceholders : Nat
  num : Int
  deriving DecidableEq

/-- `fmt.Sprintf("$%d", i)`. -/
def dollar (i : Nat) : List Char := '$' :: (Nat.repr i).toList

/-- `expandPlaceholderSQL`: the first insertion takes `$1` to `$firstPlaceholders`, and the
`num - 1` copies of `,` and the rest insertion take the numbers after them. -/
def expandPlaceholderSQL (skeleton : StatementSkeleton) : Except GoError (List Char) :=
  if skeleton.num ≤ 0 then
    .error (.errorf "trying to expand SQL placeholder with <= 0 parameters: %s" [.str skeleton.sql])
  else
    let restCount := (skeleton.num - 1).toNat
    let totalArray := (List.range (skeleton.firstPlaceholders +
      skeleton.restPlaceholders * restCount)).map fun i => dollar (i + 1)
    let remainingInsertion := stringsRepeat (',' :: skeleton.restInsertion) restCount
    .ok (replace skeleton.sql placeholderSQL
      (sprintf skeleton.firstInsertion (totalArray.take skeleton.firstPlaceholders) ++
        sprintf remainingInsertion (totalArray.drop skeleton.firstPlaceholders)))

/-- The loop of `getStmt` that numbers the `<param>` markers from `counter` on. Each turn
replaces a `<` by digits, so the length of the statement is fuel enough. -/
def numberParams : Nat → Nat → List Char → List Char
  | 0, _, statement => statement
  | fuel + 1, counter, statement =>
    if contains statement paramMarker then
      numberParams fuel (counter + 1) (replace statement paramMarker (dollar counter))
    else statement

/-- The text `getStmt` prepares. The counter starts at `restPlaceholders * num + 1`; where
`num ≤ 0` the expansion fails and the loop runs on no marker. -/
def statementText (skeleton : StatementSkeleton) : Except GoError (List Char) :=
  (expandPlaceholderSQL skeleton).map fun statement =>
    numberParams statement.length (skeleton.restPlaceholders * skeleton.num.toNat + 1) statement

/-- `pgTreeStorage.statements`, keyed by the query text and the count. -/
abbrev Statements (σ : Type) := AList fun _ : List Char × Int => σ

variable {σ : Type}

/-- `getStmt`: the statement cached for the skeleton's query and count, or the one
`PrepareContext` makes of its text, which is then cached. -/
def getStmt (prepare : List Char → Except GoError σ) (statements : Statements σ)
    (skeleton : StatementSkeleton) : Except GoError σ × Statements σ :=
  match statements.lookup (skeleton.sql, skeleton.num) with
  | some s => (.ok s, statements)
  | none =>
    match statementText skeleton >>= prepare with
    | .ok s => (.ok s, statements.insert (skeleton.sql, skeleton.num) s)
    | .error err => (.error err, statements)

/-- The cache after a run of `getStmt` calls from the empty one of `newTreeStorage`. -/
def runGetStmt (prepare : List Char → Except GoError σ) (skeletons : List StatementSkeleton) :
    Statements σ :=
  skeletons.foldl (fun statements skeleton => (getStmt prepare statements skeleton).2) ∅

/-! ### A count below one -/

theorem statementText_of_num_nonpos {skeleton : StatementSkeleton} (h : skeleton.num ≤ 0) :
    statementText skeleton = .error
      (.errorf "trying to expand SQL placeholder with <= 0 parameters: %s" [.str skeleton.sql]) := by
  rw [statementText, expandPlaceholderSQL, if_pos h]
  rfl

/-- Only counts of one or more are ever cached. -/
def CachedPositive (statements : Statements σ) : Prop := ∀ key ∈ statements, 0 < key.2

theorem cachedPositive_getStmt (prepare : List Char → Except GoError σ)
    {statements : Statements σ} (h : CachedPositive statements) (skeleton : StatementSkeleton) :
    CachedPositive (getStmt prepare statements skeleton).2 := by
  unfold getStmt
  split
  · exact h
  · split
    · rename_i hok
      have hnum : 0 < skeleton.num := by
        by_contra hle
        rw [statementText_of_num_nonpos (Int.not_lt.mp hle)] at hok
        cases hok
      intro key hkey
      rcases (AList.mem_insert _).mp hkey with rfl | hkey
      · exact hnum
      · exact h key hkey
    · exact h

theorem cachedPositive_runGetStmt (prepare : List Char → Except GoError σ)
    (skeletons : List StatementSkeleton) : CachedPositive (runGetStmt prepare skeletons) := by
  unfold runGetStmt
  suffices h : ∀ (statements : Statements σ), CachedPositive statements →
      CachedPositive (skeletons.foldl
        (fun statements skeleton => (getStmt prepare statements skeleton).2) statements) from
    h ∅ (by simp [CachedPositive])
  induction skeletons with
  | nil => exact fun _ h => h
  | cons skeleton skeletons ih =>
    intro statements h
    exact ih _ (cachedPositive_getStmt prepare h skeleton)

/-- After any run of `getStmt`, a skeleton with a count below one gets the error of
`expandPlaceholderSQL`. -/
theorem getStmt_of_num_nonpos (prepare : List Char → Except GoError σ)
    (skeletons : List StatementSkeleton) {skeleton : StatementSkeleton} (h : skeleton.num ≤ 0) :
    (getStmt prepare (runGetStmt prepare skeletons) skeleton).1 = .error
      (.errorf "trying to expand SQL placeholder with <= 0 parameters: %s" [.str skeleton.sql]) := by
  have hnone : (runGetStmt prepare skeletons).lookup (skeleton.sql, skeleton.num) = none := by
    rw [AList.lookup_eq_none]
    intro hmem
    have := cachedPositive_runGetStmt prepare skeletons _ hmem
    simp only at this
    omega
  rw [getStmt, hnone, statementText_of_num_nonpos h]
  rfl

/-! ### The numbering of the parameters -/

/-- The parameters `$start`, `$(start + 1)`, ..., `count` of them. -/
def dollarRange (start count : Nat) : List (List Char) :=
  (List.range count).map fun i => dollar (start + i)

/-- `text` is `format` with its `K` verbs filled with `$1` to `$K`, in order. -/
def NumberedInOrder (format text : List Char) (K : Nat) : Prop :=
  formatVerbs format = some K ∧ text = sprintf format (dollarRange 1 K)

theorem length_dollarRange (start count : Nat) : (dollarRange start count).length = count := by
  simp [dollarRange]

theorem dollarRange_zero (start : Nat) : dollarRange start 0 = [] := rfl

theorem dollarRange_succ (start count : Nat) :
    dollarRange start (count + 1) = dollar start :: dollarRange (start + 1) count := by
  rw [dollarRange, dollarRange, List.range_succ_eq_map, List.map_cons, List.map_map,
    Nat.add_zero]
  refine List.cons_eq_cons.mpr ⟨rfl, List.map_congr_left fun i _ => ?_⟩
  show dollar (start + (i + 1)) = dollar (start + 1 + i)
  rw [Nat.add_assoc, Nat.add_comm 1 i]

theorem dollarRange_add (start m n : Nat) :
    dollarRange start (m + n) = dollarRange start m ++ dollarRange (start + m) n := by
  rw [dollarRange, dollarRange, dollarRange, List.range_add, List.map_append, List.map_map]
  refine congrArg (_ ++ ·) (List.map_congr_left fun i _ => ?_)
  show dollar (start + (m + i)) = dollar (start + m + i)
  rw [Nat.add_assoc]

theorem guarded_dollar (n : Nat) : Guarded '<' 'p' (dollar n) := by
  apply guarded_of_not_mem
  intro h
  rcases List.mem_cons.mp h with h | h
  · cases h
  · have hdigits : (Nat.repr n).toList = Nat.toDigits 10 n := by simp [Nat.repr]
    rw [hdigits] at h
    have hdigit := Nat.isDigit_of_mem_toDigits (b := 10) (by decide) (by decide) h
    revert hdigit
    decide

theorem guarded_dollarRange (start count : Nat) :
    ∀ arg ∈ dollarRange start count, Guarded '<' 'p' arg := by
  intro arg harg
  obtain ⟨i, -, rfl⟩ := List.mem_map.mp harg
  exact guarded_dollar _

/-- The first `%s` of a format of pieces takes the first parameter, and the rest the rest. -/
theorem sprintf_flatMap_cons {t : List Char} (ht : formatVerbs t = some 0) (ts : List (List Char))
    (c : Nat) :
    sprintf ((t :: ts).flatMap ("%s".toList ++ ·)) (dollarRange c (ts.length + 1)) =
      dollar c ++ (t ++ sprintf (ts.flatMap ("%s".toList ++ ·)) (dollarRange (c + 1) ts.length)) := by
  rw [dollarRange_succ, List.flatMap_cons,
    show "%s".toList ++ t ++ ts.flatMap ("%s".toList ++ ·) =
      '%' :: 's' :: (t ++ ts.flatMap ("%s".toList ++ ·)) from rfl, sprintf_verb,
    sprintf_plain_append ht]

theorem pair_prefix_paramMarker : ['<', 'p'] <+: paramMarker := by decide

theorem pair_prefix_placeholderSQL : ['<', 'p'] <+: placeholderSQL := by decide

theorem expandPlaceholderSQL_eq {skeleton : StatementSkeleton} (hnum : 0 < skeleton.num)
    (hfirst : formatVerbs skeleton.firstInsertion = some skeleton.firstPlaceholders) :
    expandPlaceholderSQL skeleton = .ok (replace skeleton.sql placeholderSQL
      (sprintf (skeleton.firstInsertion ++
          stringsRepeat (',' :: skeleton.restInsertion) (skeleton.num - 1).toNat)
        (dollarRange 1 (skeleton.firstPlaceholders +
          skeleton.restPlaceholders * (skeleton.num - 1).toNat)))) := by
  have htotal : ((List.range (skeleton.firstPlaceholders +
      skeleton.restPlaceholders * (skeleton.num - 1).toNat)).map fun i => dollar (i + 1)) =
      dollarRange 1 (skeleton.firstPlaceholders +
        skeleton.restPlaceholders * (skeleton.num - 1).toNat) := by
    simp only [dollarRange, Nat.add_comm 1]
  have hlen : (dollarRange 1 skeleton.firstPlaceholders).length = skeleton.firstPlaceholders :=
    length_dollarRange _ _
  rw [expandPlaceholderSQL, if_neg (by omega)]
  simp only
  rw [htotal, dollarRange_add, List.take_left' hlen, List.drop_left' hlen,
    sprintf_append (hfirst.trans (congrArg some hlen.symm))]

/-- The loop of `getStmt` on a text whose markers stand between guarded pieces: each turn
`Replace` finds the first marker, after the pieces already numbered. -/
theorem numberParams_flatMap {segs : List (List Char)}
    (hsegs : ∀ t ∈ segs, Guarded '<' 'p' t ∧ formatVerbs t = some 0) :
    ∀ {P : List Char} (c : Nat) {fuel : Nat}, Guarded '<' 'p' P → segs.length ≤ fuel →
      numberParams fuel c (P ++ segs.flatMap (paramMarker ++ ·)) =
        P ++ sprintf (segs.flatMap ("%s".toList ++ ·)) (dollarRange c segs.length) := by
  induction segs with
  | nil =>
    intro P c fuel hP _
    rw [List.flatMap_nil, List.append_nil, List.flatMap_nil, List.length_nil, dollarRange_zero,
      sprintf_nil, List.append_nil]
    cases fuel with
    | zero => rfl
    | succ fuel =>
      rw [numberParams, hP.contains_eq_false pair_prefix_paramMarker]
      rfl
  | cons t segs ih =>
    intro P c fuel hP hfuel
    obtain ⟨ht, htverbs⟩ := hsegs t List.mem_cons_self
    obtain ⟨fuel, rfl⟩ : ∃ n, fuel = n + 1 := ⟨fuel - 1, by simp at hfuel; omega⟩
    have hsplit : P ++ (t :: segs).flatMap (paramMarker ++ ·) =
        P ++ paramMarker ++ (t ++ segs.flatMap (paramMarker ++ ·)) := by
      simp only [List.flatMap_cons, List.append_assoc]
    have hnext : replace (P ++ paramMarker ++ (t ++ segs.flatMap (paramMarker ++ ·))) paramMarker
        (dollar c) = (P ++ dollar c ++ t) ++ segs.flatMap (paramMarker ++ ·) := by
      rw [replace_append_of_guarded _ _ hP pair_prefix_paramMarker, List.append_assoc,
        List.append_assoc, List.append_assoc]
    rw [hsplit, numberParams, if_pos (contains_append _ _ _), hnext,
      ih (fun t' ht' => hsegs t' (List.mem_cons_of_mem _ ht')) (c + 1)
        ((hP.append (guarded_dollar c)).append ht) (by simp at hfuel; omega),
      List.length_cons, sprintf_flatMap_cons htverbs]
    simp only [List.append_assoc]

theorem length_le_length_flatMap_paramMarker (segs : List (List Char)) :
    segs.length ≤ (segs.flatMap (paramMarker ++ ·)).length := by
  induction segs with
  | nil => exact Nat.le_refl 0
  | cons t segs ih =>
    rw [List.flatMap_cons, List.length_append, List.length_append, List.length_cons]
    have : 0 < paramMarker.length := by decide
    omega

section Numbering

variable {skeleton : StatementSkeleton} {before a0 : List Char} {segs : List (List Char)}

theorem formatVerbs_insertion
    (hfirst : formatVerbs skeleton.firstInsertion = some skeleton.firstPlaceholders)
    (hrest : formatVerbs skeleton.restInsertion = some skeleton.restPlaceholders) :
    formatVerbs (skeleton.firstInsertion ++
      stringsRepeat (',' :: skeleton.restInsertion) (skeleton.num - 1).toNat) =
      some (skeleton.firstPlaceholders + skeleton.restPlaceholders * (skeleton.num - 1).toNat) :=
  formatVerbs_append hfirst (formatVerbs_stringsRepeat
    ((formatVerbs_cons_of_ne (by decide) _).trans hrest) _)

/-- The text `getStmt` prepares for a skeleton whose query is `before`, the placeholder, and
pieces between `<param>` markers: the insertion numbered from `$1`, and the markers from
`restPlaceholders * num + 1` on. -/
theorem statementText_eq
    (hsql : skeleton.sql = before ++ placeholderSQL ++ (a0 ++ segs.flatMap (paramMarker ++ ·)))
    (hfirst : formatVerbs skeleton.firstInsertion = some skeleton.firstPlaceholders)
    (hrest : formatVerbs skeleton.restInsertion = some skeleton.restPlaceholders)
    (hinsert : '<' ∉ skeleton.firstInsertion ∧ '<' ∉ skeleton.restInsertion)
    (hbefore : Guarded '<' 'p' before) (ha0 : Guarded '<' 'p' a0)
    (hsegs : ∀ t ∈ segs, Guarded '<' 'p' t ∧ formatVerbs t = some 0) (hnum : 0 < skeleton.num) :
    statementText skeleton = .ok (before ++
      sprintf (skeleton.firstInsertion ++
          stringsRepeat (',' :: skeleton.restInsertion) (skeleton.num - 1).toNat)
        (dollarRange 1 (skeleton.firstPlaceholders +
          skeleton.restPlaceholders * (skeleton.num - 1).toNat)) ++
      a0 ++ sprintf (segs.flatMap ("%s".toList ++ ·))
        (dollarRange (skeleton.restPlaceholders * skeleton.num.toNat + 1) segs.length)) := by
  have hverbs := formatVerbs_insertion hfirst hrest
  have hnoLt : '<' ∉ skeleton.firstInsertion ++
      stringsRepeat (',' :: skeleton.restInsertion) (skeleton.num - 1).toNat := by
    intro h
    rcases List.mem_append.mp h with h | h
    · exact hinsert.1 h
    · obtain ⟨t, ht, hmem⟩ := List.mem_flatten.mp h
      rw [List.eq_of_mem_replicate ht] at hmem
      rcases List.mem_cons.mp hmem with h | h
      · cases h
      · exact hinsert.2 h
  have hinsertion : Guarded '<' 'p' (sprintf (skeleton.firstInsertion ++
      stringsRepeat (',' :: skeleton.restInsertion) (skeleton.num - 1).toNat)
        (dollarRange 1 (skeleton.firstPlaceholders +
          skeleton.restPlaceholders * (skeleton.num - 1).toNat))) :=
    guarded_sprintf (hverbs.trans (congrArg some (length_dollarRange _ _).symm)) hnoLt
      (guarded_dollarRange _ _)
  have hP := (hbefore.append hinsertion).append ha0
  rw [statementText, expandPlaceholderSQL_eq hnum hfirst, Except.map, hsql,
    replace_append_of_guarded _ _ hbefore pair_prefix_placeholderSQL]
  congr 1
  have hgroup : before ++ sprintf (skeleton.firstInsertion ++
      stringsRepeat (',' :: skeleton.restInsertion) (skeleton.num - 1).toNat)
        (dollarRange 1 (skeleton.firstPlaceholders +
          skeleton.restPlaceholders * (skeleton.num - 1).toNat)) ++
      (a0 ++ segs.flatMap (paramMarker ++ ·)) = (before ++ sprintf (skeleton.firstInsertion ++
      stringsRepeat (',' :: skeleton.restInsertion) (skeleton.num - 1).toNat)
        (dollarRange 1 (skeleton.firstPlaceholders +
          skeleton.restPlaceholders * (skeleton.num - 1).toNat)) ++ a0) ++
      segs.flatMap (paramMarker ++ ·) := by
    simp only [List.append_assoc]
  rw [hgroup, numberParams_flatMap hsegs _ hP]
  rw [List.length_append]
  have := length_le_length_flatMap_paramMarker segs
  omega

/-- Where the two insertions hold as many parameters each, as in every skeleton of the
storage, the text `getStmt` prepares is its skeleton's with all the parameters, in order,
numbered `$1` to `$K`: the insertion's and then the markers'. -/
theorem statementText_eq_of_same
    (hsql : skeleton.sql = before ++ placeholderSQL ++ (a0 ++ segs.flatMap (paramMarker ++ ·)))
    (hfirst : formatVerbs skeleton.firstInsertion = some skeleton.firstPlaceholders)
    (hrest : formatVerbs skeleton.restInsertion = some skeleton.restPlaceholders)
    (hsame : skeleton.firstPlaceholders = skeleton.restPlaceholders)
    (hinsert : '<' ∉ skeleton.firstInsertion ∧ '<' ∉ skeleton.restInsertion)
    (hbefore : Guarded '<' 'p' before ∧ formatVerbs before = some 0)
    (ha0 : Guarded '<' 'p' a0 ∧ formatVerbs a0 = some 0)
    (hsegs : ∀ t ∈ segs, Guarded '<' 'p' t ∧ formatVerbs t = some 0) (hnum : 0 < skeleton.num) :
    statementText skeleton = .ok (sprintf (before ++ (skeleton.firstInsertion ++
        stringsRepeat (',' :: skeleton.restInsertion) (skeleton.num - 1).toNat) ++ a0 ++
          segs.flatMap ("%s".toList ++ ·))
      (dollarRange 1 (skeleton.firstPlaceholders +
        skeleton.restPlaceholders * (skeleton.num - 1).toNat + segs.length))) := by
  have hverbs := formatVerbs_insertion hfirst hrest
  -- the markers' counter starts right after the insertion's parameters
  have hstart : skeleton.restPlaceholders * skeleton.num.toNat + 1 =
      1 + (skeleton.firstPlaceholders + skeleton.restPlaceholders * (skeleton.num - 1).toNat) := by
    have hsucc : skeleton.num.toNat = (skeleton.num - 1).toNat + 1 := by omega
    rw [hsucc, hsame, Nat.mul_succ]
    omega
  rw [statementText_eq hsql hfirst hrest hinsert hbefore.1 ha0.1 hsegs hnum, hstart,
    dollarRange_add 1 _ segs.length,
    sprintf_around_plain hbefore.2 (hverbs.trans (congrArg some (length_dollarRange _ _).symm)) ha0.2]

theorem formatVerbs_statement
    (hfirst : formatVerbs skeleton.firstInsertion = some skeleton.firstPlaceholders)
    (hrest : formatVerbs skeleton.restInsertion = some skeleton.restPlaceholders)
    (hbefore : formatVerbs before = some 0) (ha0 : formatVerbs a0 = some 0)
    (hsegs : ∀ t ∈ segs, formatVerbs t = some 0) :
    formatVerbs (before ++ (skeleton.firstInsertion ++
        stringsRepeat (',' :: skeleton.restInsertion) (skeleton.num - 1).toNat) ++ a0 ++
          segs.flatMap ("%s".toList ++ ·)) =
      some (skeleton.firstPlaceholders + skeleton.restPlaceholders * (skeleton.num - 1).toNat +
        segs.length) := by
  rw [formatVerbs_append (formatVerbs_append (formatVerbs_append hbefore
    (formatVerbs_insertion hfirst hrest)) ha0) (formatVerbs_flatMap_verb hsegs)]
  simp only [Nat.zero_add, Nat.add_zero]

end Numbering

/-! ### Binding the arguments -/

/-- Where the server's scan of a statement stands: in plain text, just after a `$`, or in the
digits of a parameter, with their value so far. -/
inductive Scan
  | text
  | dollar
  | param (n : Nat)

section Binding

variable {α : Type} (args : List α)

/-- The argument `$n` names, counting from one. -/
def paramArg (n : Nat) : Option α := if n = 0 then none else args[n - 1]?

theorem paramArg_one_add {i : Nat} (hi : i < args.length) : paramArg args (1 + i) = some args[i] := by
  simp [paramArg, List.getElem?_eq_getElem hi]

/-- One character of the scan: the next state, and what the server has read. -/
def scanStep : Scan → Char → Option (Scan × List (Char ⊕ α))
  | .text, c => some (if c = '$' then (.dollar, []) else (.text, [.inl c]))
  | .dollar, c => if c.isDigit then some (.param (c.toNat - '0'.toNat), []) else none
  | .param n, c =>
    if c.isDigit then some (.param (10 * n + (c.toNat - '0'.toNat)), [])
    else (paramArg args n).map fun a =>
      if c = '$' then (.dollar, [.inr a]) else (.text, [.inr a, .inl c])

def scanEnd : Scan → Option (List (Char ⊕ α))
  | .text => some []
  | .dollar => none
  | .param n => (paramArg args n).map ([.inr ·])

/-- The statement as the server reads it, bound to the arguments of `QueryContext` or
`ExecContext`: `$n` is the `n`th argument, and every other character is itself. A `$`
without digits, or a number that names no argument, is refused. -/
def bindParams : Scan → List Char → Option (List (Char ⊕ α))
  | s, [] => scanEnd args s
  | s, c :: cs => do
    let (s', out) ← scanStep args s c
    let rest ← bindParams s' cs
    pure (out ++ rest)

theorem bindParams_cons (s : Scan) (c : Char) (cs : List Char) :
    bindParams args s (c :: cs) =
      (scanStep args s c).bind fun p => (p.2 ++ ·) <$> bindParams args p.1 cs := by
  simp only [bindParams]
  rcases scanStep args s c with _ | ⟨s', out⟩
  · rfl
  · show (bindParams args s' cs >>= fun rest => pure (out ++ rest)) = (out ++ ·) <$> bindParams args s' cs
    cases bindParams args s' cs <;> rfl

theorem bindParams_plain {t : List Char} (ht : '$' ∉ t) (rest : List Char) :
    bindParams args .text (t ++ rest) = (t.map Sum.inl ++ ·) <$> bindParams args .text rest := by
  induction t with
  | nil => simp
  | cons c t ih =>
    rw [List.mem_cons, not_or] at ht
    rw [List.cons_append, bindParams_cons]
    simp [scanStep, Ne.symm ht.1, ih ht.2, Function.comp_def]

theorem bindParams_digits {ds : List Char} (hds : ∀ d ∈ ds, d.isDigit = true) (n : Nat)
    (rest : List Char) :
    bindParams args (.param n) (ds ++ rest) =
      bindParams args (.param (Nat.ofDigitChars 10 ds n)) rest := by
  induction ds generalizing n with
  | nil => rfl
  | cons d ds ih =>
    rw [List.cons_append, bindParams_cons, Nat.ofDigitChars_cons,
      ← ih (fun d' hd' => hds d' (List.mem_cons_of_mem _ hd'))]
    simp [scanStep, hds d List.mem_cons_self]

theorem bindParams_dollar {k : Nat} {a : α} (ha : paramArg args k = some a) {t : List Char}
    (ht : '$' ∉ t) (hhead : ∀ c ∈ t.head?, c.isDigit = false) {rest : List Char}
    (hend : t = [] → rest = []) :
    bindParams args .text (dollar k ++ (t ++ rest)) =
      ((Sum.inr a :: t.map Sum.inl) ++ ·) <$> bindParams args .text rest := by
  obtain ⟨d, ds, hdigits⟩ := List.exists_cons_of_ne_nil (Nat.toDigits_ne_nil (n := k) (b := 10))
  have hall : ∀ c ∈ d :: ds, c.isDigit = true :=
    fun c hc => Nat.isDigit_of_mem_toDigits (by decide) (by decide) (hdigits ▸ hc)
  have hk : Nat.ofDigitChars 10 ds (d.toNat - '0'.toNat) = k := by
    rw [← Nat.zero_add (d.toNat - '0'.toNat), ← Nat.mul_zero 10, ← Nat.ofDigitChars_cons, ← hdigits,
      Nat.ofDigitChars_ten_toDigits]
  have hdollar : dollar k = '$' :: d :: ds := by simp [dollar, Nat.repr, hdigits]
  have hparam : bindParams args .text (dollar k ++ (t ++ rest)) =
      bindParams args (.param k) (t ++ rest) := by
    rw [hdollar, List.cons_append, bindParams_cons, List.cons_append, ← hk,
      ← bindParams_digits args (fun c hc => hall c (List.mem_cons_of_mem _ hc))]
    simp [scanStep, bindParams_cons, hall d List.mem_cons_self, Function.comp_def]
  rw [hparam]
  cases t with
  | nil =>
    rw [hend rfl]
    simp [bindParams, scanEnd, ha]
  | cons c t =>
    rw [List.mem_cons, not_or] at ht
    have hc : c.isDigit = false := hhead c rfl
    rw [List.cons_append, bindParams_cons]
    simp [scanStep, hc, ha, Ne.symm ht.1, bindParams_plain args ht.2, Function.comp_def]

/-- The pieces of text between the parameters of a statement: no `$` and no verb, none
starting with a digit, and only the last one empty. -/
structure Pieces (ts : List (List Char)) : Prop where
  plain : ∀ t ∈ ts, '$' ∉ t ∧ formatVerbs t = some 0
  head : ∀ t ∈ ts, ∀ c ∈ t.head?, c.isDigit = false
  nonempty : ∀ t ∈ ts.dropLast, t ≠ []

theorem Pieces.tail {t : List Char} {ts : List (List Char)} (h : Pieces (t :: ts)) : Pieces ts :=
  ⟨fun t' ht' => h.plain t' (List.mem_cons_of_mem _ ht'),
    fun t' ht' => h.head t' (List.mem_cons_of_mem _ ht'),
    fun t' ht' => h.nonempty t' (by
      cases ts with
      | nil => cases ht'
      | cons t'' ts => exact List.mem_cons_of_mem _ ht')⟩

theorem Pieces.cons {t : List Char} {ts : List (List Char)} (ht : '$' ∉ t ∧ formatVerbs t = some 0)
    (hhead : ∀ c ∈ t.head?, c.isDigit = false) (hne : t ≠ []) (hts : Pieces ts) :
    Pieces (t :: ts) := by
  refine ⟨fun t' ht' => ?_, fun t' ht' => ?_, fun t' ht' => ?_⟩
  · rcases List.mem_cons.mp ht' with rfl | ht'
    · exact ht
    · exact hts.plain t' ht'
  · rcases List.mem_cons.mp ht' with rfl | ht'
    · exact hhead
    · exact hts.head t' ht'
  · cases ts with
    | nil => cases ht'
    | cons t'' ts =>
      rw [List.dropLast_cons_cons] at ht'
      rcases List.mem_cons.mp ht' with rfl | ht'
      · exact hne
      · exact hts.nonempty t' ht'

theorem Pieces.append {us ts : List (List Char)}
    (hus : ∀ u ∈ us, ('$' ∉ u ∧ formatVerbs u = some 0) ∧ (∀ c ∈ u.head?, c.isDigit = false) ∧ u ≠ [])
    (hts : Pieces ts) : Pieces (us ++ ts) := by
  induction us with
  | nil => exact hts
  | cons u us ih =>
    obtain ⟨hplain, hhead, hne⟩ := hus u List.mem_cons_self
    exact Pieces.cons hplain hhead hne (ih fun u' hu' => hus u' (List.mem_cons_of_mem _ hu'))

/-- A piece that can stand between two parameters anywhere: no `$`, no verb, not empty, and
no digit first. -/
def plainPiece (t : List Char) : Bool :=
  !t.contains '$' && formatVerbs t == some 0 && !t.isEmpty && t.head?.all fun c => !c.isDigit

theorem plainPiece_spec {t : List Char} (h : plainPiece t = true) :
    ('$' ∉ t ∧ formatVerbs t = some 0) ∧ (∀ c ∈ t.head?, c.isDigit = false) ∧ t ≠ [] := by
  simp only [plainPiece, Bool.and_eq_true] at h
  obtain ⟨⟨⟨hdollar, hverbs⟩, hne⟩, hhead⟩ := h
  refine ⟨⟨by simpa using hdollar, by simpa using hverbs⟩, fun c hc => ?_, by simpa using hne⟩
  rw [Option.mem_def] at hc
  simpa [hc] using hhead

theorem Pieces.nil : Pieces [] := ⟨by simp, by simp, by simp⟩

theorem Pieces.of_plainPiece {us : List (List Char)} (h : ∀ u ∈ us, plainPiece u = true) :
    Pieces us := by
  simpa using Pieces.append (fun u hu => plainPiece_spec (h u hu)) Pieces.nil

/-- What the server reads where each value is followed by its piece of text. -/
def filled (ts : List (List Char)) (vals : List α) : List (Char ⊕ α) :=
  (vals.zip ts).flatMap fun p => .inr p.1 :: p.2.map .inl

@[simp] theorem filled_nil (vals : List α) : filled [] vals = [] := by simp [filled]

@[simp] theorem filled_cons (t : List Char) (ts : List (List Char)) (v : α) (vals : List α) :
    filled (t :: ts) (v :: vals) = .inr v :: t.map .inl ++ filled ts vals := by
  simp [filled]

theorem filled_append {ts us : List (List Char)} {vs ws : List α} (h : vs.length = ts.length) :
    filled (ts ++ us) (vs ++ ws) = filled ts vs ++ filled us ws := by
  simp [filled, List.zip_append h]

/-- The parameters `$c`, `$(c + 1)`, ... between the pieces read as the values they name. -/
theorem bindParams_sprintf {ts : List (List Char)} (hts : Pieces ts) {c : Nat} (hc : 0 < c)
    {vals : List α} (hlen : vals.length = ts.length)
    (hargs : ∀ i (hi : i < vals.length), paramArg args (c + i) = some vals[i]) :
    bindParams args .text (sprintf (ts.flatMap ("%s".toList ++ ·)) (dollarRange c ts.length)) =
      some (filled ts vals) := by
  induction ts generalizing c vals with
  | nil => simp [dollarRange_zero, sprintf_nil, bindParams, scanEnd]
  | cons t ts ih =>
    obtain ⟨v, vals, rfl⟩ : ∃ v vals', vals = v :: vals' :=
      List.exists_cons_of_ne_nil (by rintro rfl; simp at hlen)
    obtain ⟨htdollar, htverbs⟩ := hts.plain t List.mem_cons_self
    have hrest := ih hts.tail (Nat.succ_pos c) (by simpa using hlen)
      (fun i hi => by
        rw [show c + 1 + i = c + (i + 1) by omega]
        exact hargs (i + 1) (by simp only [List.length_cons]; omega))
    have hend : t = [] → sprintf (ts.flatMap ("%s".toList ++ ·)) (dollarRange (c + 1) ts.length) = [] := by
      intro ht
      cases ts with
      | nil => rfl
      | cons t' ts => exact absurd ht (hts.nonempty t List.mem_cons_self)
    rw [List.length_cons, sprintf_flatMap_cons htverbs,
      bindParams_dollar args (by simpa using hargs 0 (by simp)) htdollar
        (hts.head t List.mem_cons_self) hend, hrest]
    simp

end Binding

/-! ### The queries and their arguments -/

/-- A statement with one value a parameter of its insertions, for `num` values: the three
leaf lookups and `getSubtreeStmt`. -/
def inListSkeleton (sql : List Char) (num : Int) : StatementSkeleton :=
  ⟨sql, "%s".toList, 1, "%s".toList, 1, num⟩

/-- A query cut at its `<placeholder>` and its `<param>` markers: the text before the
placeholder, after it, and after each marker. -/
structure QueryText where
  before : List Char
  afterPlaceholder : List Char
  afterParams : List (List Char)

def QueryText.sql (q : QueryText) : List Char :=
  q.before ++ placeholderSQL ++ (q.afterPlaceholder ++ q.afterParams.flatMap (paramMarker ++ ·))

/-- A query text, written as the fragments it is joined from. -/
def sqlText (fragments : List String) : List Char := fragments.flatMap String.toList

/-- `selectSubtreeSQL`. -/
def selectSubtreeText : QueryText where
  before := sqlText ["\n\t\tSELECT x.subtree_id, ", "x.max_revision, subtree.nodes", "\n\t\tFROM (",
    "\n\t\t\tSELECT n.subtree_id, ", "max(n.subtree_revision) ", "AS max_revision",
    "\n\t\t\tFROM subtree n", "\n\t\t\tWHERE n.subtree_id IN ("]
  afterPlaceholder := sqlText [") AND", "\n\t\t\tn.tree_id = "]
  afterParams := [sqlText [" AND n.subtree_revision <= "],
    sqlText ["\n\t\t\tGROUP BY n.subtree_id", "\n\t\t) AS x", "\n\t\tINNER JOIN subtree",
      "\n\t\tON subtree.subtree_id = ", "x.subtree_id", "\n\t\tAND subtree.subtree_revision = ",
      "x.max_revision", "\n\t\tAND subtree.tree_id = "], []]

def selectSubtreeSQL : List Char := selectSubtreeText.sql

/-- `selectLeavesByMerkleHashSQL`. -/
def selectLeavesByMerkleHashText : QueryText where
  before := sqlText ["SELECT s.merkle_leaf_hash,", "l.leaf_identity_hash,", "l.leaf_value,",
    "s.sequence_number,", "l.extra_data,", "l.queue_timestamp_nanos,", "s.integrate_timestamp_nanos",
    "\n                        FROM ", "leaf_data l,sequenced_leaf_data s",
    "\n                        WHERE ", "l.leaf_identity_hash = ", "s.leaf_identity_hash",
    "\n                        AND ", "s.merkle_leaf_hash IN ("]
  afterPlaceholder := sqlText [") AND l.tree_id = "]
  afterParams := [sqlText [" AND s.tree_id = l.tree_id"]]

def selectLeavesByMerkleHashSQL : List Char := selectLeavesByMerkleHashText.sql

def orderBySequenceNumberSQL : List Char := " ORDER BY s.sequence_number".toList

/-- `selectLeavesByMerkleHashOrderedBySequenceSQL`, the query above and `ORDER BY`. -/
def selectLeavesByMerkleHashOrderedBySequenceText : QueryText :=
  { selectLeavesByMerkleHashText with
    afterParams := [sqlText [" AND s.tree_id = l.tree_id"] ++ orderBySequenceNumberSQL] }

def selectLeavesByMerkleHashOrderedBySequenceSQL : List Char :=
  selectLeavesByMerkleHashOrderedBySequenceText.sql

def dummymerkleLeafHash : List Char := "00000000000000000000000000000000".toList

/-- `selectLeavesByLeafIdentityHashSQL`. -/
def selectLeavesByLeafIdentityHashText : QueryText where
  before := "SELECT '".toList ++ dummymerkleLeafHash ++ sqlText ["',l.leaf_identity_hash,",
    "l.leaf_value,", "-1,", "l.extra_data,", "l.queue_timestamp_nanos,", "s.integrate_timestamp_nanos",
    "\n                        FROM ", "leaf_data l LEFT JOIN ", "sequenced_leaf_data s ON (",
    "l.leaf_identity_hash = ", "s.leaf_identity_hash AND ", "l.tree_id = s.tree_id)",
    "\n                        WHERE ", "l.leaf_identity_hash IN ("]
  afterPlaceholder := sqlText [") AND l.tree_id = "]
  afterParams := [[]]

def selectLeavesByLeafIdentityHashSQL : List Char := selectLeavesByLeafIdentityHashText.sql

/-- The skeleton `getSubtreeStmt` builds for `num` ids. -/
def getSubtreeSkeleton (num : Int) : StatementSkeleton := inListSkeleton selectSubtreeSQL num

/-- The skeleton `getLeavesByMerkleHashStmt` builds for `num` hashes. -/
def getLeavesByMerkleHashSkeleton (num : Int) (orderBySequence : Bool) : StatementSkeleton :=
  if orderBySequence then inListSkeleton selectLeavesByMerkleHashOrderedBySequenceSQL num
  else inListSkeleton selectLeavesByMerkleHashSQL num

/-- The skeleton `getLeavesByLeafIdentityHashStmt` builds for `num` hashes. -/
def getLeavesByLeafIdentityHashSkeleton (num : Int) : StatementSkeleton :=
  inListSkeleton selectLeavesByLeafIdentityHashSQL num

/-- An argument of `QueryContext` or `ExecContext`: an `int64` or a `[]byte`. -/
inductive QueryArg
  | int (v : Int64)
  | bytes (v : Bytes)
  deriving DecidableEq

/-- The arguments of `getSubtrees`: the ids, then the tree, the revision and the tree. -/
def getSubtreesArgs (treeId treeRevision : Int64) (ids : List Bytes) : List QueryArg :=
  ids.map .bytes ++ [.int treeId, .int treeRevision, .int treeId]

/-- The arguments of `getLeavesByHashInternal`: the hashes, then the tree. -/
def getLeavesByHashArgs (treeId : Int64) (leafHashes : List Bytes) : List QueryArg :=
  leafHashes.map .bytes ++ [.int treeId]

/-- The four arguments `storeSubtrees` appends for a subtree, the fields of its row. -/
def subtreeRowArgs (row : SubtreeRow) : List QueryArg :=
  [.int row.treeId, .bytes row.subtreeId, .bytes row.nodes, .int row.subtreeRevision]

def storeSubtreesArgs (rows : List SubtreeRow) : List QueryArg := rows.flatMap subtreeRowArgs

/-- What the server reads for a tuple `(v₁, v₂, ...)` of a `VALUES` list. -/
def valuesTuple {α : Type} (vals : List α) : List (Char ⊕ α) :=
  Sum.inl '(' :: ((", ".toList.map Sum.inl).intercalate (vals.map fun v => [Sum.inr v]) ++
    [Sum.inl ')'])

/-! ### The statement of `storeSubtrees` -/

/-- The text of `insertSubtreeMultiSQL` before its placeholder. -/
def insertSubtreeText : List Char :=
  sqlText ["INSERT INTO subtree(", "tree_id, subtree_id, ", "nodes, subtree_revision) "]

/-- `insertSubtreeMultiSQL`. -/
def insertSubtreeMultiSQL : List Char := insertSubtreeText ++ placeholderSQL

/-- The skeleton `setSubtreeStmt` builds for `num` subtrees, four parameters each. -/
def setSubtreeSkeleton (num : Int) : StatementSkeleton :=
  ⟨insertSubtreeMultiSQL, "VALUES(%s, %s, %s, %s)".toList, 4, "(%s, %s, %s, %s)".toList, 4, num⟩

/-- `storeSubtrees` writes `num` subtrees with one statement whose parameters are `$1` to
`$(4 num)`, four a subtree, in order. -/
theorem statementText_setSubtreeSkeleton {num : Int} (hnum : 0 < num) :
    statementText (setSubtreeSkeleton num) = .ok
      (insertSubtreeText ++ sprintf ("VALUES(%s, %s, %s, %s)".toList ++
          stringsRepeat (',' :: "(%s, %s, %s, %s)".toList) (num - 1).toNat)
        (dollarRange 1 (4 * num.toNat))) := by
  have hsql : (setSubtreeSkeleton num).sql = insertSubtreeText ++
      placeholderSQL ++ ([] ++ ([] : List (List Char)).flatMap (paramMarker ++ ·)) := by
    rw [List.flatMap_nil, List.append_nil, List.append_nil]
    exact (rfl : insertSubtreeMultiSQL = insertSubtreeText ++ placeholderSQL)
  have hfirst : formatVerbs (setSubtreeSkeleton num).firstInsertion =
      some (setSubtreeSkeleton num).firstPlaceholders := by
    show formatVerbs "VALUES(%s, %s, %s, %s)".toList = some 4
    decide
  have hrest : formatVerbs (setSubtreeSkeleton num).restInsertion =
      some (setSubtreeSkeleton num).restPlaceholders := by
    show formatVerbs "(%s, %s, %s, %s)".toList = some 4
    decide
  have hinsert : '<' ∉ (setSubtreeSkeleton num).firstInsertion ∧
      '<' ∉ (setSubtreeSkeleton num).restInsertion := by
    show '<' ∉ "VALUES(%s, %s, %s, %s)".toList ∧ '<' ∉ "(%s, %s, %s, %s)".toList
    decide
  have hbefore : Guarded '<' 'p' insertSubtreeText := guarded_of_not_mem _ _ (by decide)
  have hcount : 4 + 4 * (num - 1).toNat = 4 * num.toNat := by omega
  rw [statementText_eq hsql hfirst hrest hinsert hbefore (guarded_of_not_mem _ _ List.not_mem_nil)
    (fun t ht => absurd ht List.not_mem_nil) hnum]
  show Except.ok (_ ++ sprintf _ (dollarRange 1 (4 + 4 * (num - 1).toNat)) ++ [] ++
    sprintf [] (dollarRange _ 0)) = _
  rw [hcount, List.append_nil, dollarRange_zero, sprintf_nil, List.append_nil]
  rfl

/-! ### What the server reads -/

section Bound

variable {α : Type}

/-- A query whose pieces read as plain text around its values. -/
structure QueryText.WellFormed (q : QueryText) : Prop where
  before : Guarded '<' 'p' q.before ∧ formatVerbs q.before = some 0 ∧ '$' ∉ q.before
  guarded : ∀ t ∈ q.afterPlaceholder :: q.afterParams, Guarded '<' 'p' t
  pieces : Pieces (q.afterPlaceholder :: q.afterParams)

/-- A piece of a query: no `<` that a marker could start at, no `$`, no verb, and no digit
first. -/
def queryPiece (t : List Char) : Bool :=
  !contains t ['<', 'p'] && t.getLast? != some '<' && !t.contains '$' && formatVerbs t == some 0 &&
    t.head?.all fun c => !c.isDigit

theorem queryPiece_spec {t : List Char} (h : queryPiece t = true) :
    Guarded '<' 'p' t ∧ '$' ∉ t ∧ formatVerbs t = some 0 ∧ ∀ c ∈ t.head?, c.isDigit = false := by
  simp only [queryPiece, Bool.and_eq_true] at h
  obtain ⟨⟨⟨⟨hpair, hlast⟩, hdollar⟩, hverbs⟩, hhead⟩ := h
  refine ⟨⟨fun hin => ?_, by simpa using hlast⟩, by simpa using hdollar, by simpa using hverbs,
    fun c hc => ?_⟩
  · rw [← contains_eq_true_iff] at hin
    simp [hin] at hpair
  · rw [Option.mem_def] at hc
    simpa [hc] using hhead

/-- `QueryText.WellFormed` as a test on the text. -/
def QueryText.check (q : QueryText) : Bool :=
  queryPiece q.before && (q.afterPlaceholder :: q.afterParams).all queryPiece &&
    (q.afterPlaceholder :: q.afterParams).dropLast.all fun t => !t.isEmpty

theorem QueryText.wellFormed_of_check {q : QueryText} (h : q.check = true) : q.WellFormed := by
  simp only [QueryText.check, Bool.and_eq_true, List.all_eq_true] at h
  obtain ⟨⟨hbefore, hpieces⟩, hne⟩ := h
  have hb := queryPiece_spec hbefore
  refine ⟨⟨hb.1, hb.2.2.1, hb.2.1⟩, fun t ht => (queryPiece_spec (hpieces t ht)).1,
    ⟨fun t ht => ⟨(queryPiece_spec (hpieces t ht)).2.1, (queryPiece_spec (hpieces t ht)).2.2.1⟩,
      fun t ht => (queryPiece_spec (hpieces t ht)).2.2.2, fun t ht => ?_⟩⟩
  simpa using hne t ht

theorem inList_format (m : Nat) (a0 : List Char) (segs : List (List Char)) :
    "%s".toList ++ stringsRepeat (',' :: "%s".toList) m ++ a0 ++ segs.flatMap ("%s".toList ++ ·) =
      (List.replicate m [','] ++ a0 :: segs).flatMap ("%s".toList ++ ·) := by
  induction m with
  | zero => simp [stringsRepeat]
  | succ m ih =>
    rw [List.replicate_succ, List.cons_append, List.flatMap_cons, ← ih]
    simp [stringsRepeat, List.replicate_succ]

theorem pieces_inList {a0 : List Char} {segs : List (List Char)} (h : Pieces (a0 :: segs))
    (m : Nat) : Pieces (List.replicate m [','] ++ a0 :: segs) :=
  Pieces.append (fun u hu => by rw [List.eq_of_mem_replicate hu]; exact plainPiece_spec rfl) h

theorem filled_inList {vs : List α} (hvs : vs ≠ []) (a0 : List Char) (segs : List (List Char))
    (ws : List α) :
    filled (List.replicate (vs.length - 1) [','] ++ a0 :: segs) (vs ++ ws) =
      (vs.map Sum.inr).intersperse (.inl ',') ++ a0.map .inl ++ filled segs ws := by
  induction vs with
  | nil => exact absurd rfl hvs
  | cons v vs ih =>
    cases vs with
    | nil => simp
    | cons w vs =>
      have hrest := ih (List.cons_ne_nil w vs)
      rw [List.length_cons, Nat.add_sub_cancel, List.length_cons, List.replicate_succ,
        List.cons_append, List.cons_append, filled_cons]
      rw [List.length_cons, Nat.add_sub_cancel] at hrest
      rw [hrest]
      simp [List.intersperse_cons_cons]

/-- The format of the statement of `q` for `n` values: a `%s` where each parameter goes. -/
def QueryText.format (q : QueryText) (n : Nat) : List Char :=
  q.before ++ ("%s".toList ++ stringsRepeat (',' :: "%s".toList) (n - 1)) ++ q.afterPlaceholder ++
    q.afterParams.flatMap ("%s".toList ++ ·)

/-- What the server reads of `q` with the values `vs` in its list and `ws` at its markers. -/
def QueryText.reads (q : QueryText) (vs ws : List α) : List (Char ⊕ α) :=
  q.before.map .inl ++ (vs.map .inr).intersperse (.inl ',') ++ q.afterPlaceholder.map .inl ++
    filled q.afterParams ws

theorem QueryText.format_eq (q : QueryText) (n : Nat) :
    q.format n = q.before ++
      (List.replicate (n - 1) [','] ++ q.afterPlaceholder :: q.afterParams).flatMap
        ("%s".toList ++ ·) := by
  rw [QueryText.format, ← inList_format]
  simp only [List.append_assoc]

theorem QueryText.formatVerbs_format {q : QueryText} (hq : q.WellFormed) {n : Nat} (hn : 0 < n) :
    formatVerbs (q.format n) = some (n + q.afterParams.length) := by
  rw [q.format_eq, formatVerbs_append hq.before.2.1
    (formatVerbs_flatMap_verb fun t ht => ((pieces_inList hq.pieces _).plain t ht).2)]
  simp only [List.length_append, List.length_replicate, List.length_cons]
  congr 1
  omega

theorem statementText_inList {q : QueryText} (hq : q.WellFormed) {n : Nat} (hn : 0 < n) :
    statementText (inListSkeleton q.sql n) =
      .ok (sprintf (q.format n) (dollarRange 1 (n + q.afterParams.length))) := by
  have hm : ((n : Int) - 1).toNat = n - 1 := by omega
  have hcount : 1 + 1 * (n - 1) + q.afterParams.length = n + q.afterParams.length := by omega
  rw [statementText_eq_of_same
    (show (inListSkeleton q.sql n).sql = q.before ++ placeholderSQL ++
      (q.afterPlaceholder ++ q.afterParams.flatMap (paramMarker ++ ·)) from rfl)
    rfl rfl rfl (show '<' ∉ "%s".toList ∧ '<' ∉ "%s".toList by decide)
    ⟨hq.before.1, hq.before.2.1⟩
    ⟨hq.guarded _ List.mem_cons_self, (hq.pieces.plain _ List.mem_cons_self).2⟩
    (fun t ht => ⟨hq.guarded t (List.mem_cons_of_mem _ ht),
      (hq.pieces.plain t (List.mem_cons_of_mem _ ht)).2⟩)
    (show (0 : Int) < n by omega)]
  simp only [inListSkeleton, hm, hcount]
  rfl

theorem bindParams_inList {q : QueryText} (hq : q.WellFormed) {vs ws : List α} (hvs : vs ≠ [])
    (hws : ws.length = q.afterParams.length) :
    bindParams (vs ++ ws) .text
      (sprintf (q.format vs.length) (dollarRange 1 (vs.length + q.afterParams.length))) =
        some (q.reads vs ws) := by
  have hcount : vs.length + q.afterParams.length =
      (List.replicate (vs.length - 1) [','] ++ q.afterPlaceholder :: q.afterParams).length := by
    have := List.length_pos_of_ne_nil hvs
    simp only [List.length_append, List.length_replicate, List.length_cons]
    omega
  rw [q.format_eq, hcount, sprintf_plain_append hq.before.2.1, bindParams_plain _ hq.before.2.2,
    bindParams_sprintf _ (pieces_inList hq.pieces _) Nat.one_pos
      (by rw [List.length_append, ← hcount, hws]) fun i hi => paramArg_one_add _ hi,
    filled_inList hvs]
  simp [QueryText.reads]

/-- The statement `getStmt` prepares for `skeleton` numbers its parameters `$1` to `$K` in
order, `K` the number of `args`, and the server, binding `$k` to the `k`th of them, reads
`reads`. -/
def BindsInOrder (skeleton : StatementSkeleton) (args : List α) (reads : List (Char ⊕ α)) :
    Prop :=
  ∃ format text, NumberedInOrder format text args.length ∧ statementText skeleton = .ok text ∧
    bindParams args .text text = some reads

theorem bindsInOrder_inList {q : QueryText} (hq : q.WellFormed) {vs ws : List α} (hvs : vs ≠ [])
    (hws : ws.length = q.afterParams.length) :
    BindsInOrder (inListSkeleton q.sql vs.length) (vs ++ ws) (q.reads vs ws) := by
  have hn : 0 < vs.length := List.length_pos_of_ne_nil hvs
  have hlen : (vs ++ ws).length = vs.length + q.afterParams.length := by
    rw [List.length_append, hws]
  refine ⟨q.format vs.length, _, ⟨?_, rfl⟩, ?_, ?_⟩ <;> rw [hlen]
  · exact q.formatVerbs_format hq hn
  · exact statementText_inList hq hn
  · exact bindParams_inList hq hvs hws

/-- The pieces around the values of `storeSubtrees`, four a row. -/
def valuesPieces (m : Nat) : List (List Char) :=
  (List.replicate m [", ".toList, ", ".toList, ", ".toList, "),(".toList]).flatten ++
    [", ".toList, ", ".toList, ", ".toList, ")".toList]

theorem valuesPieces_succ (m : Nat) :
    valuesPieces (m + 1) =
      [", ".toList, ", ".toList, ", ".toList, "),(".toList] ++ valuesPieces m := by
  simp [valuesPieces, List.replicate_succ]

theorem length_valuesPieces (m : Nat) : (valuesPieces m).length = 4 * (m + 1) := by
  induction m with
  | zero => rfl
  | succ m ih =>
    rw [valuesPieces_succ, List.length_append, ih]
    simp only [List.length_cons, List.length_nil]
    omega

theorem values_format (m : Nat) :
    "%s, %s, %s, %s)".toList ++ stringsRepeat (',' :: "(%s, %s, %s, %s)".toList) m =
      (valuesPieces m).flatMap ("%s".toList ++ ·) := by
  induction m with
  | zero =>
    simp only [stringsRepeat, valuesPieces, List.replicate_zero, List.flatten_nil, List.nil_append,
      List.append_nil, List.flatMap_cons, List.flatMap_nil, String.reduceToList, List.cons_append]
  | succ m ih =>
    rw [stringsRepeat, List.replicate_succ, List.flatten_cons, ← stringsRepeat, valuesPieces_succ,
      List.flatMap_append, ← ih]
    simp only [String.reduceToList, List.flatMap_cons, List.flatMap_nil, List.cons_append,
      List.nil_append, List.append_nil]

theorem pieces_valuesPieces (m : Nat) : Pieces (valuesPieces m) := by
  refine Pieces.of_plainPiece fun u hu => ?_
  rcases List.mem_append.mp hu with hu | hu
  · obtain ⟨row, hrow, hu⟩ := List.mem_flatten.mp hu
    rw [List.eq_of_mem_replicate hrow] at hu
    simp only [List.mem_cons, List.not_mem_nil, or_false] at hu
    rcases hu with rfl | rfl | rfl | rfl <;> rfl
  · simp only [List.mem_cons, List.not_mem_nil, or_false] at hu
    rcases hu with rfl | rfl | rfl | rfl <;> rfl

theorem length_storeSubtreesArgs (rows : List SubtreeRow) :
    (storeSubtreesArgs rows).length = 4 * rows.length := by
  induction rows with
  | nil => rfl
  | cons row rows ih =>
    rw [storeSubtreesArgs, List.flatMap_cons, List.length_append, ← storeSubtreesArgs, ih]
    simp only [subtreeRowArgs, List.length_cons, List.length_nil, List.length_cons]
    omega

theorem filled_valuesPieces {rows : List SubtreeRow} (hrows : rows ≠ []) :
    Sum.inl '(' :: filled (valuesPieces (rows.length - 1)) (storeSubtreesArgs rows) =
      [Sum.inl ','].intercalate (rows.map fun row => valuesTuple (subtreeRowArgs row)) := by
  induction rows with
  | nil => exact absurd rfl hrows
  | cons row rows ih =>
    cases rows with
    | nil => simp [valuesPieces, storeSubtreesArgs, subtreeRowArgs, valuesTuple]
    | cons row' rows =>
      have hrest := ih (List.cons_ne_nil row' rows)
      rw [List.length_cons, Nat.add_sub_cancel] at hrest
      obtain ⟨t, ts, htuples⟩ : ∃ t ts, (row' :: rows).map (fun row => valuesTuple (subtreeRowArgs row)) =
          t :: ts := ⟨_, _, rfl⟩
      rw [List.length_cons, List.length_cons, Nat.add_sub_cancel, valuesPieces_succ,
        storeSubtreesArgs, List.flatMap_cons, ← storeSubtreesArgs, filled_append (by rfl),
        List.map_cons, htuples, List.intercalate_cons_cons, ← htuples, ← hrest]
      simp [subtreeRowArgs, valuesTuple]

/-- `storeSubtrees` of one or more subtrees: the server reads one row of four values a
subtree, in the columns of `insertSubtreeMultiSQL`. -/
theorem bindsInOrder_storeSubtrees {rows : List SubtreeRow} (hrows : rows ≠ []) :
    BindsInOrder (setSubtreeSkeleton rows.length) (storeSubtreesArgs rows)
      ((insertSubtreeText ++ "VALUES".toList).map Sum.inl ++
        [Sum.inl ','].intercalate (rows.map fun row => valuesTuple (subtreeRowArgs row))) := by
  have hlen : 0 < rows.length := List.length_pos_of_ne_nil hrows
  have hm : ((rows.length : Int) - 1).toNat = rows.length - 1 := by omega
  have hK : 4 * ((rows.length : Int)).toNat = (storeSubtreesArgs rows).length := by
    rw [length_storeSubtreesArgs]
    omega
  have hcount : (storeSubtreesArgs rows).length = (valuesPieces (rows.length - 1)).length := by
    rw [length_storeSubtreesArgs, length_valuesPieces]
    omega
  have hformat : "VALUES(%s, %s, %s, %s)".toList ++
      stringsRepeat (',' :: "(%s, %s, %s, %s)".toList) (rows.length - 1) =
        ("VALUES".toList ++ ['(']) ++ (valuesPieces (rows.length - 1)).flatMap ("%s".toList ++ ·) := by
    have hsplit : "VALUES(%s, %s, %s, %s)".toList =
        ("VALUES".toList ++ ['(']) ++ "%s, %s, %s, %s)".toList := by
      simp only [String.reduceToList, List.cons_append, List.nil_append]
    rw [← values_format, hsplit, List.append_assoc, List.append_assoc]
  have hinsert : formatVerbs insertSubtreeText = some 0 := by decide
  have hvalues : formatVerbs ("VALUES".toList ++ ['(']) = some 0 := by decide
  refine ⟨insertSubtreeText ++ ("VALUES(%s, %s, %s, %s)".toList ++
    stringsRepeat (',' :: "(%s, %s, %s, %s)".toList) (rows.length - 1)), _, ⟨?_, rfl⟩, ?_, ?_⟩
  · rw [hformat, formatVerbs_append hinsert (formatVerbs_append hvalues
      (formatVerbs_flatMap_verb fun t ht => ((pieces_valuesPieces _).plain t ht).2)), hcount,
      Nat.zero_add, Nat.zero_add]
  · rw [statementText_setSubtreeSkeleton (by omega), hm, hK, sprintf_plain_append hinsert]
  · rw [hformat, sprintf_plain_append hinsert, sprintf_plain_append hvalues, hcount,
      ← List.append_assoc, bindParams_plain _ (by decide),
      bindParams_sprintf _ (pieces_valuesPieces _) Nat.one_pos hcount
        fun i hi => paramArg_one_add _ hi,
      ← filled_valuesPieces hrows]
    simp

end Bound

theorem selectSubtreeText_wellFormed : selectSubtreeText.WellFormed :=
  QueryText.wellFormed_of_check (by decide +kernel)

theorem selectLeavesByMerkleHashText_wellFormed : selectLeavesByMerkleHashText.WellFormed :=
  QueryText.wellFormed_of_check (by decide +kernel)

theorem selectLeavesByMerkleHashOrderedBySequenceText_wellFormed :
    selectLeavesByMerkleHashOrderedBySequenceText.WellFormed :=
  QueryText.wellFormed_of_check (by decide +kernel)

theorem selectLeavesByLeafIdentityHashText_wellFormed :
    selectLeavesByLeafIdentityHashText.WellFormed :=
  QueryText.wellFormed_of_check (by decide +kernel)

/-- `getSubtrees` of one or more ids: the ids in the list, then the tree at `n.tree_id`, the
revision at `n.subtree_revision <=` and the tree at `subtree.tree_id`. -/
theorem bindsInOrder_getSubtrees (treeId treeRevision : Int64) {ids : List Bytes}
    (hids : ids ≠ []) :
    BindsInOrder (getSubtreeSkeleton ids.length) (getSubtreesArgs treeId treeRevision ids)
      (selectSubtreeText.reads (ids.map .bytes) [.int treeId, .int treeRevision, .int treeId]) := by
  rw [← List.length_map QueryArg.bytes]
  exact bindsInOrder_inList selectSubtreeText_wellFormed (by simpa using hids) (by
    simp only [selectSubtreeText, List.length_cons, List.length_nil])

/-- `getLeavesByHashInternal` on the statement of `getLeavesByMerkleHashStmt`: the hashes in
the list, then the tree at `l.tree_id`. -/
theorem bindsInOrder_getLeavesByMerkleHash (treeId : Int64) {leafHashes : List Bytes}
    (hhashes : leafHashes ≠ []) (orderBySequence : Bool) :
    BindsInOrder (getLeavesByMerkleHashSkeleton leafHashes.length orderBySequence)
      (getLeavesByHashArgs treeId leafHashes)
      ((if orderBySequence then selectLeavesByMerkleHashOrderedBySequenceText
        else selectLeavesByMerkleHashText).reads (leafHashes.map .bytes) [.int treeId]) := by
  rw [← List.length_map QueryArg.bytes]
  cases orderBySequence with
  | false =>
    exact bindsInOrder_inList selectLeavesByMerkleHashText_wellFormed (by simpa using hhashes) rfl
  | true =>
    exact bindsInOrder_inList selectLeavesByMerkleHashOrderedBySequenceText_wellFormed
      (by simpa using hhashes) rfl

theorem bindsInOrder_getLeavesByLeafIdentityHash (treeId : Int64) {leafHashes : List Bytes}
    (hhashes : leafHashes ≠ []) :
    BindsInOrder (getLeavesByLeafIdentityHashSkeleton leafHashes.length)
      (getLeavesByHashArgs treeId leafHashes)
      (selectLeavesByLeafIdentityHashText.reads (leafHashes.map .bytes) [.int treeId]) := by
  rw [← List.length_map QueryArg.bytes]
  exact bindsInOrder_inList selectLeavesByLeafIdentityHashText_wellFormed
    (by simpa using hhashes) rfl

/-! ### The numbering of the markers -/

/-- A query with one marker, whose first insertion holds two parameters and each further
one holds one. -/
def twoThenOne : StatementSkeleton :=
  ⟨"x <placeholder> <param>".toList, "(%s, %s)".toList, 2, "%s".toList, 1, 1⟩

end Vct.Storage.Placeholder
