import Mathlib.Data.List.Infix
import Mathlib.Data.List.DropRight

namespace Vct.Lib.GoString

def contains (s substr : List Char) : Bool := decide (substr <:+: s)

/-- `unicode.IsSpace`: the Latin-1 spaces, then the `White_Space` property. -/
def isSpace (c : Char) : Bool :=
  if c.val ≤ 0xFF then
    c = '\t' || c = '\n' || c.val = 0x0B || c.val = 0x0C || c = '\r' || c = ' ' ||
      c.val = 0x85 || c.val = 0xA0
  else
    c.val = 0x1680 || (0x2000 ≤ c.val && c.val ≤ 0x200A) || c.val = 0x2028 ||
      c.val = 0x2029 || c.val = 0x202F || c.val = 0x205F || c.val = 0x3000

def trimSpace (s : List Char) : List Char := (s.dropWhile isSpace).rdropWhile isSpace

/-- `strings.Split` with a one-rune separator. -/
def split (s : List Char) (sep : Char) : List (List Char) := s.splitOn sep

theorem contains_eq_true_iff (s substr : List Char) : contains s substr = true ↔ substr <:+: s := by
  simp [contains]

theorem contains_singleton (s : List Char) (c : Char) : contains s [c] = decide (c ∈ s) := by
  simp [contains, List.singleton_infix_iff]

theorem mem_dropWhile_iff {p : α → Bool} {c : α} (hc : p c = false) (l : List α) :
    c ∈ l.dropWhile p ↔ c ∈ l := by
  constructor
  · exact fun h => (List.dropWhile_sublist p).subset h
  · intro h
    rw [← List.takeWhile_append_dropWhile (p := p) (l := l), List.mem_append] at h
    rcases h with h | h
    · have hp := List.mem_takeWhile_imp h
      rw [hc] at hp
      contradiction
    · exact h

theorem mem_trimSpace_iff {c : Char} (hc : isSpace c = false) (s : List Char) :
    c ∈ trimSpace s ↔ c ∈ s := by
  unfold trimSpace List.rdropWhile
  rw [List.mem_reverse, mem_dropWhile_iff hc, List.mem_reverse, mem_dropWhile_iff hc]

theorem split_intercalate {parts : List (List Char)} {sep : Char}
    (hsep : ∀ part ∈ parts, sep ∉ part) (hne : parts ≠ []) :
    split ([sep].intercalate parts) sep = parts :=
  List.splitOn_intercalate sep hsep hne

theorem split_append_cons {x y : List Char} {sep : Char} (hx : sep ∉ x) (hy : sep ∉ y) :
    split (x ++ sep :: y) sep = [x, y] := by
  have hsplit := @split_intercalate [x, y] sep (by simp [hx, hy]) (by simp)
  simpa [List.intercalate] using hsplit

theorem split_of_not_mem {s : List Char} {sep : Char} (h : sep ∉ s) : split s sep = [s] := by
  have hsplit := @split_intercalate [s] sep (by simpa using h) (by simp)
  simpa using hsplit

/-- Pieces each followed by a separator, then a last piece, are the pieces joined by it. -/
theorem flatMap_append_intercalate (rs : List (List Char)) (d : List Char) (c : Char) :
    rs.flatMap (· ++ [c]) ++ d = [c].intercalate (rs ++ [d]) := by
  induction rs with
  | nil => simp
  | cons r rs ih =>
    obtain ⟨x, xs, hxs⟩ : ∃ x xs, rs ++ [d] = x :: xs := List.exists_cons_of_ne_nil (by simp)
    rw [List.flatMap_cons, List.cons_append, hxs, List.intercalate_cons_cons, ← hxs, ← ih]
    simp

/-- `strings.Replace(s, old, new, 1)`: the first occurrence of `old` is replaced, and an
empty `old` matches at the start. -/
def replace (s old new : List Char) : List Char :=
  match s with
  | [] => if old = [] then new else []
  | c :: rest =>
    if old <+: c :: rest then new ++ (c :: rest).drop old.length else c :: replace rest old new

/-- `strings.Repeat`. -/
def stringsRepeat (s : List Char) (count : Nat) : List Char := (List.replicate count s).flatten

/-- `fmt.Sprintf` with string arguments, for formats whose only verb is `%s`: `%%` is a
percent sign, a `%s` with no argument left is `%!s(MISSING)`, and the arguments left over
are listed as `%!(EXTRA string=..., ...)`. A `%` before any other letter is written as it
stands. -/
def sprintf : List Char → List (List Char) → List Char
  | '%' :: '%' :: format, args => '%' :: sprintf format args
  | '%' :: 's' :: format, arg :: args => arg ++ sprintf format args
  | '%' :: 's' :: format, [] => "%!s(MISSING)".toList ++ sprintf format []
  | c :: format, args => c :: sprintf format args
  | [], [] => []
  | [], arg :: args =>
    "%!(EXTRA ".toList ++ ", ".toList.intercalate ((arg :: args).map ("string=".toList ++ ·)) ++
      [')']

/-- Where no occurrence of `old` starts inside `p`, the first one is the one after it. -/
theorem replace_append {p old rest : List Char} (new : List Char) (hold : old ≠ [])
    (hp : ∀ k < p.length, ¬old <+: (p ++ old).drop k) :
    replace (p ++ old ++ rest) old new = p ++ new ++ rest := by
  induction p with
  | nil =>
    obtain ⟨c, cs, rfl⟩ := List.exists_cons_of_ne_nil hold
    rw [List.nil_append, List.nil_append, List.cons_append, replace,
      if_pos (show c :: cs <+: c :: (cs ++ rest) from List.prefix_append (c :: cs) rest)]
    simp
  | cons c p ih =>
    have hnot : ¬old <+: c :: p ++ old := by simpa using hp 0 (by simp)
    have hhead : ¬old <+: c :: (p ++ old ++ rest) := by
      intro hpre
      have hlong : old <+: c :: p ++ old ++ rest := by simpa using hpre
      exact hnot (List.prefix_of_prefix_length_le hlong (List.prefix_append _ rest) (by simp; omega))
    rw [List.cons_append, List.cons_append, replace, if_neg hhead,
      ih fun k hk => by simpa using hp (k + 1) (by simp; omega)]
    rfl

section Guarded

variable {α : Type} (a b : α)

/-- `a` is never followed by `b` in `s`, and does not end it: no text that starts with
`a, b` begins inside `s`, not even one that runs on past its end. -/
def Guarded (s : List α) : Prop := ¬[a, b] <:+: s ∧ s.getLast? ≠ some a

theorem guarded_of_not_mem {s : List α} (h : a ∉ s) : Guarded a b s :=
  ⟨fun hab => h (hab.subset (by simp)), fun hlast => h (List.mem_of_getLast? hlast)⟩

/-- A pair inside `x ++ y` lies inside one of them or across the seam. -/
theorem pair_infix_append {x y : List α} (h : [a, b] <:+: x ++ y) :
    [a, b] <:+: x ∨ [a, b] <:+: y ∨ (x.getLast? = some a ∧ y.head? = some b) := by
  induction x with
  | nil => exact .inr (.inl h)
  | cons c x ih =>
    rw [List.cons_append, List.infix_cons_iff] at h
    rcases h with h | h
    · -- the pair starts at `c`
      obtain ⟨rfl, hb⟩ := List.cons_prefix_cons.mp h
      cases x with
      | nil =>
        have hb' : [b] <+: y := by simpa using hb
        cases y with
        | nil => simp at hb'
        | cons e y => exact .inr (.inr ⟨rfl, by rw [(List.cons_prefix_cons.mp hb').1]; rfl⟩)
      | cons d x =>
        obtain ⟨rfl, -⟩ := List.cons_prefix_cons.mp hb
        exact .inl (List.IsPrefix.isInfix (by simp))
    · rcases ih h with h | h | ⟨hlast, hhead⟩
      · exact .inl (h.trans (List.suffix_cons c x).isInfix)
      · exact .inr (.inl h)
      · cases x with
        | nil => cases hlast
        | cons d x => exact .inr (.inr ⟨by simpa using hlast, hhead⟩)

variable {a b}

theorem Guarded.append {x y : List α} (hx : Guarded a b x) (hy : Guarded a b y) :
    Guarded a b (x ++ y) := by
  refine ⟨fun h => ?_, ?_⟩
  · rcases pair_infix_append a b h with h | h | ⟨hlast, -⟩
    · exact hx.1 h
    · exact hy.1 h
    · exact hx.2 hlast
  · rw [List.getLast?_append]
    cases hlast : y.getLast? with
    | none => exact hx.2
    | some c =>
      rw [Option.some_or, ← hlast]
      exact hy.2

/-- A text that starts with `a, b` occurs in no guarded text. -/
theorem Guarded.not_infix {s old : List α} (hs : Guarded a b s) (hold : [a, b] <+: old) :
    ¬old <:+: s :=
  fun h => hs.1 (hold.isInfix.trans h)

/-- Nor does it begin inside a guarded text followed by itself. -/
theorem Guarded.not_prefix_drop {p old : List α} (hp : Guarded a b p) (hold : [a, b] <+: old) :
    ∀ k < p.length, ¬old <+: (p ++ old).drop k := by
  intro k hk h
  rw [List.drop_append_of_le_length (Nat.le_of_lt hk)] at h
  have hpair : [a, b] <+: p.drop k ++ old := hold.trans h
  obtain ⟨c, cs, hcs⟩ := List.exists_cons_of_ne_nil (show p.drop k ≠ [] by simp; omega)
  rw [hcs, List.cons_append, List.cons_prefix_cons] at hpair
  obtain ⟨hac, hb⟩ := hpair
  cases cs with
  | nil =>
    apply hp.2
    rw [← List.take_append_drop k p, hcs, hac]
    exact List.getLast?_concat
  | cons d cs =>
    have hbd := (List.cons_prefix_cons.mp hb).1
    apply hp.1
    have hsuffix : [c, d] ++ cs <:+ p := by
      rw [List.cons_append, List.cons_append, List.nil_append, ← hcs]
      exact List.drop_suffix k p
    rw [hac, hbd]
    exact (List.prefix_append [c, d] cs).isInfix.trans hsuffix.isInfix

end Guarded

/-- The replacement of a text that starts with `a, b`, after a guarded text. -/
theorem replace_append_of_guarded {a b : Char} {p old : List Char} (rest new : List Char)
    (hp : Guarded a b p) (hold : [a, b] <+: old) :
    replace (p ++ old ++ rest) old new = p ++ new ++ rest :=
  replace_append new (fun h => by simp [h] at hold) (hp.not_prefix_drop hold)

theorem Guarded.contains_eq_false {a b : Char} {s old : List Char} (hs : Guarded a b s)
    (hold : [a, b] <+: old) : contains s old = false := by
  simpa [contains] using hs.not_infix hold

theorem contains_append (p old rest : List Char) : contains (p ++ old ++ rest) old = true :=
  (contains_eq_true_iff _ _).mpr (List.infix_append p old rest)

theorem sprintf_cons_of_ne {c : Char} (hc : c ≠ '%') (format : List Char)
    (args : List (List Char)) : sprintf (c :: format) args = c :: sprintf format args := by
  rw [sprintf.eq_def]
  split
  · rename_i h
    exact absurd (List.cons.inj h).1 hc
  · rename_i h
    exact absurd (List.cons.inj h).1 hc
  · rename_i h
    exact absurd (List.cons.inj h).1 hc
  · rename_i heq _ _
    obtain ⟨rfl, rfl⟩ := List.cons.inj heq
    rfl
  · rename_i h
    cases h
  · rename_i h
    cases h

theorem sprintf_verb (format arg : List Char) (args : List (List Char)) :
    sprintf ('%' :: 's' :: format) (arg :: args) = arg ++ sprintf format args := by
  rw [sprintf.eq_def]
  rfl

theorem sprintf_nil : sprintf [] [] = [] := by
  rw [sprintf.eq_def]

/-- The number of `%s` verbs of a format whose only `%` are those verbs. -/
def formatVerbs : List Char → Option Nat
  | '%' :: 's' :: format => (formatVerbs format).map (· + 1)
  | '%' :: _ => none
  | _ :: format => formatVerbs format
  | [] => some 0

theorem formatVerbs_append {f g : List Char} {m n : Nat} (hf : formatVerbs f = some m)
    (hg : formatVerbs g = some n) : formatVerbs (f ++ g) = some (m + n) := by
  induction f using formatVerbs.induct generalizing m with
  | case1 f ih =>
    rw [formatVerbs] at hf
    obtain ⟨m', hm', rfl⟩ := Option.map_eq_some_iff.mp hf
    rw [List.cons_append, List.cons_append, formatVerbs, ih hm', Option.map_some, Nat.add_right_comm]
  | case2 tail htail =>
    rw [formatVerbs.eq_2 _ htail] at hf
    cases hf
  | case3 c f h1 h2 ih =>
    rw [formatVerbs.eq_3 _ _ h1 h2] at hf
    rw [List.cons_append, formatVerbs.eq_3 _ _ (fun _ hc => absurd hc h2) h2, ih hf]
  | case4 =>
    rw [formatVerbs] at hf
    cases hf
    rw [List.nil_append, hg, Nat.zero_add]

theorem formatVerbs_cons_of_ne {c : Char} (hc : c ≠ '%') (format : List Char) :
    formatVerbs (c :: format) = formatVerbs format :=
  formatVerbs.eq_3 _ _ (fun _ h => absurd h hc) hc

theorem formatVerbs_stringsRepeat {f : List Char} {n : Nat} (hf : formatVerbs f = some n)
    (count : Nat) : formatVerbs (stringsRepeat f count) = some (n * count) := by
  induction count with
  | zero => rfl
  | succ count ih =>
    rw [stringsRepeat, List.replicate_succ, List.flatten_cons, ← stringsRepeat,
      formatVerbs_append hf ih, Nat.mul_succ, Nat.add_comm]

/-- Texts without verbs, each after a `%s`: a format with one verb per text. -/
theorem formatVerbs_flatMap_verb {segs : List (List Char)}
    (h : ∀ t ∈ segs, formatVerbs t = some 0) :
    formatVerbs (segs.flatMap ("%s".toList ++ ·)) = some segs.length := by
  induction segs with
  | nil => rfl
  | cons t segs ih =>
    rw [List.flatMap_cons, List.length_cons]
    have hverb : formatVerbs ("%s".toList ++ t) = some (0 + 1) := by
      show ((formatVerbs t).map (· + 1)) = _
      rw [h t List.mem_cons_self]
      rfl
    rw [formatVerbs_append hverb (ih fun t' ht' => h t' (List.mem_cons_of_mem _ ht')),
      Nat.zero_add, Nat.add_comm]

/-- A format with exactly as many verbs as arguments takes them all, and what follows it
takes the rest. -/
theorem sprintf_append {f : List Char} {args : List (List Char)}
    (hf : formatVerbs f = some args.length) (g : List Char) (rest : List (List Char)) :
    sprintf (f ++ g) (args ++ rest) = sprintf f args ++ sprintf g rest := by
  induction f using formatVerbs.induct generalizing args with
  | case1 f ih =>
    rw [formatVerbs] at hf
    obtain ⟨n, hn, hlen⟩ := Option.map_eq_some_iff.mp hf
    cases args with
    | nil => cases hlen
    | cons arg args =>
      rw [List.length_cons, Nat.add_right_cancel_iff] at hlen
      rw [List.cons_append, List.cons_append, List.cons_append, sprintf_verb, sprintf_verb,
        ih (hlen ▸ hn), List.append_assoc]
  | case2 tail htail =>
    rw [formatVerbs.eq_2 _ htail] at hf
    cases hf
  | case3 c f h1 h2 ih =>
    rw [formatVerbs.eq_3 _ _ h1 h2] at hf
    rw [List.cons_append, sprintf_cons_of_ne h2, sprintf_cons_of_ne h2, ih hf, List.cons_append]
  | case4 =>
    rw [formatVerbs] at hf
    cases args with
    | nil => rw [List.nil_append, List.nil_append, sprintf_nil, List.nil_append]
    | cons => cases hf

/-- A format without verbs is written as it stands. -/
theorem sprintf_of_formatVerbs_zero {f : List Char} (hf : formatVerbs f = some 0) :
    sprintf f [] = f := by
  induction f using formatVerbs.induct with
  | case1 f ih =>
    rw [formatVerbs] at hf
    obtain ⟨n, -, hn⟩ := Option.map_eq_some_iff.mp hf
    cases hn
  | case2 tail htail =>
    rw [formatVerbs.eq_2 _ htail] at hf
    cases hf
  | case3 c f h1 h2 ih =>
    rw [formatVerbs.eq_3 _ _ h1 h2] at hf
    rw [sprintf_cons_of_ne h2, ih hf]
  | case4 => exact sprintf_nil

/-- Text without verbs before a format is written as it stands. -/
theorem sprintf_plain_append {p : List Char} (hp : formatVerbs p = some 0) (f : List Char)
    (args : List (List Char)) : sprintf (p ++ f) args = p ++ sprintf f args := by
  rw [← List.nil_append args, @sprintf_append p [] hp, sprintf_of_formatVerbs_zero hp,
    List.nil_append]

/-- A format between two texts without verbs takes its arguments, and what follows them the
rest. -/
theorem sprintf_around_plain {before f a0 g : List Char} {args rest : List (List Char)}
    (hbefore : formatVerbs before = some 0) (hf : formatVerbs f = some args.length)
    (ha0 : formatVerbs a0 = some 0) :
    sprintf (before ++ f ++ a0 ++ g) (args ++ rest) =
      before ++ sprintf f args ++ a0 ++ sprintf g rest := by
  rw [List.append_assoc, List.append_assoc, sprintf_plain_append hbefore, sprintf_append hf,
    sprintf_plain_append ha0]
  simp only [List.append_assoc]

theorem guarded_sprintf {a b : Char} {f : List Char} {args : List (List Char)}
    (hf : formatVerbs f = some args.length) (ha : a ∉ f) (hargs : ∀ arg ∈ args, Guarded a b arg) :
    Guarded a b (sprintf f args) := by
  induction f using formatVerbs.induct generalizing args with
  | case1 f ih =>
    rw [formatVerbs] at hf
    obtain ⟨n, hn, hlen⟩ := Option.map_eq_some_iff.mp hf
    cases args with
    | nil => cases hlen
    | cons arg args =>
      rw [List.length_cons, Nat.add_right_cancel_iff] at hlen
      rw [sprintf_verb]
      exact (hargs arg List.mem_cons_self).append
        (ih (hlen ▸ hn) (fun h => ha (by simp [h])) fun x hx => hargs x (List.mem_cons_of_mem _ hx))
  | case2 tail htail =>
    rw [formatVerbs.eq_2 _ htail] at hf
    cases hf
  | case3 c f h1 h2 ih =>
    rw [formatVerbs.eq_3 _ _ h1 h2] at hf
    rw [sprintf_cons_of_ne h2]
    have hc : a ∉ [c] := by
      intro hmem
      exact ha (by simp [List.mem_singleton.mp hmem])
    exact (guarded_of_not_mem a b hc).append (ih hf (fun h => ha (by simp [h])) hargs)
  | case4 =>
    cases args with
    | nil =>
      rw [sprintf_nil]
      exact guarded_of_not_mem a b List.not_mem_nil
    | cons => cases hf

end Vct.Lib.GoString
