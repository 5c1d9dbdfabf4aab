import Mathlib.Data.List.Basic

namespace Vct.Lib.Base64

def alphabet : List Char :=
  "ABCDEFGHIJKLMNOPQRSTUVWXYZabcdefghijklmnopqrstuvwxyz0123456789+/".toList

def sextet (n : Nat) : Char := alphabet.getD (n % 64) 'A'

/-- The four characters of the 24 bits `n`, of which `pad` trailing groups are padding. -/
def quantum (n pad : Nat) : List Char :=
  [sextet (n / 262144), sextet (n / 4096)] ++
    (if pad < 2 then [sextet (n / 64)] else ['=']) ++ (if pad < 1 then [sextet n] else ['='])

def encode : List UInt8 → List Char
  | a :: b :: c :: rest => quantum (a.toNat * 65536 + b.toNat * 256 + c.toNat) 0 ++ encode rest
  | [a, b] => quantum (a.toNat * 65536 + b.toNat * 256) 1
  | [a] => quantum (a.toNat * 65536) 2
  | [] => []

example : encode [0x66, 0x6f, 0x6f, 0x62, 0x61] = "Zm9vYmE=".toList := by decide

/-- `decodeMap`: the value of a byte of the alphabet. -/
def value (b : UInt8) : Option Nat := alphabet.idxOf? (Char.ofNat b.toNat)

def isPad (b : UInt8) : Bool := b == '='.toUInt8

def decodeQuanta : List UInt8 → Option (List UInt8)
  | [] => some []
  | a :: b :: c :: d :: rest => do
    let va ← value a
    let vb ← value b
    if isPad c then
      if isPad d ∧ rest = [] then some [(va * 4 + vb / 16).toUInt8] else none
    else
      let vc ← value c
      if isPad d then
        if rest = [] then some [(va * 4 + vb / 16).toUInt8, (vb % 16 * 16 + vc / 4).toUInt8]
        else none
      else
        let vd ← value d
        let n := va * 262144 + vb * 4096 + vc * 64 + vd
        let tail ← decodeQuanta rest
        some ([(n / 65536).toUInt8, (n / 256 % 256).toUInt8, (n % 256).toUInt8] ++ tail)
  | _ => none

def decode (s : List UInt8) : Option (List UInt8) :=
  decodeQuanta (s.filter fun b => b != '\n'.toUInt8 && b != '\r'.toUInt8)

theorem value_sextet (n : Nat) : value (sextet n).toUInt8 = some (n % 64) := by
  have h : ∀ k : Fin 64, value (sextet k).toUInt8 = some k := by decide +kernel
  have := h ⟨n % 64, Nat.mod_lt _ (by omega)⟩
  simpa [sextet] using this

theorem isPad_sextet (n : Nat) : isPad (sextet n).toUInt8 = false := by
  have h : ∀ k : Fin 64, isPad (sextet k).toUInt8 = false := by decide +kernel
  simpa [sextet] using h ⟨n % 64, Nat.mod_lt _ (by omega)⟩

/-- Every character of a quantum is a sextet or the padding. -/
theorem mem_quantum {c : Char} {n pad : Nat} (h : c ∈ quantum n pad) :
    (∃ m, c = sextet m) ∨ c = '=' := by
  have hlast : ∀ (p : Prop) [Decidable p] (m : Nat), c ∈ (if p then [sextet m] else ['=']) →
      (∃ m, c = sextet m) ∨ c = '=' := by
    intro p _ m hc
    split_ifs at hc <;> rw [List.mem_singleton] at hc
    · exact .inl ⟨m, hc⟩
    · exact .inr hc
  simp only [quantum, List.mem_append, List.mem_cons, List.not_mem_nil, or_false] at h
  rcases h with ((rfl | rfl) | h) | h
  · exact .inl ⟨_, rfl⟩
  · exact .inl ⟨_, rfl⟩
  · exact hlast _ _ h
  · exact hlast _ _ h

theorem not_newline_of_mem_encode {c : Char} {b : List UInt8} (h : c ∈ encode b) :
    c.toUInt8 ≠ '\n'.toUInt8 ∧ c.toUInt8 ≠ '\r'.toUInt8 := by
  have hs : ∀ k : Fin 64, (sextet k).toUInt8 ≠ '\n'.toUInt8 ∧ (sextet k).toUInt8 ≠ '\r'.toUInt8 := by
    decide +kernel
  have hq : ∀ n pad, c ∈ quantum n pad → c.toUInt8 ≠ '\n'.toUInt8 ∧ c.toUInt8 ≠ '\r'.toUInt8 := by
    intro n pad hc
    rcases mem_quantum hc with ⟨m, rfl⟩ | rfl
    · simpa [sextet] using hs ⟨m % 64, Nat.mod_lt _ (by omega)⟩
    · decide
  induction b using encode.induct with
  | case1 a b c rest ih =>
    simp only [encode, List.mem_append] at h
    exact h.elim (hq _ _) ih
  | case2 a b => exact hq _ _ h
  | case3 a => exact hq _ _ h
  | case4 => simp [encode] at h

/-- Every character of an encoding is a sextet or the padding. -/
theorem mem_encode {c : Char} {b : List UInt8} (h : c ∈ encode b) :
    (∃ m, c = sextet m) ∨ c = '=' := by
  induction b using encode.induct with
  | case1 x y z rest ih =>
    simp only [encode, List.mem_append] at h
    exact h.elim mem_quantum ih
  | case2 x y => exact mem_quantum h
  | case3 x => exact mem_quantum h
  | case4 => simp [encode] at h

theorem toUInt8_eq_of_eq {n : Nat} {a : UInt8} (h : n = a.toNat) : n.toUInt8 = a := by
  rw [h]
  exact UInt8.ofNat_toNat

theorem decodeQuanta_quantum_full {a b c : UInt8} {n : Nat}
    (hn : n = a.toNat * 65536 + b.toNat * 256 + c.toNat) (rest : List UInt8) :
    decodeQuanta ((quantum n 0).map Char.toUInt8 ++ rest) = (decodeQuanta rest).map ([a, b, c] ++ ·) := by
  have ha := a.toNat_lt
  have hb := b.toNat_lt
  have hc := c.toNat_lt
  simp only [quantum, show (0 : Nat) < 2 from by decide, show (0 : Nat) < 1 from by decide, if_true,
    List.cons_append, List.nil_append, List.map_cons, List.map_nil]
  rw [decodeQuanta]
  simp only [value_sextet, isPad_sextet, Option.bind_eq_bind, Option.bind_some, Bool.false_eq_true,
    if_false]
  have hm : n / 262144 % 64 * 262144 + n / 4096 % 64 * 4096 + n / 64 % 64 * 64 + n % 64 = n := by
    omega
  rw [hm, toUInt8_eq_of_eq (a := a) (by omega), toUInt8_eq_of_eq (a := b) (by omega),
    toUInt8_eq_of_eq (a := c) (by omega)]
  cases decodeQuanta rest <;> rfl

theorem decodeQuanta_quantum_two {a b : UInt8} {n : Nat} (hn : n = a.toNat * 65536 + b.toNat * 256) :
    decodeQuanta ((quantum n 1).map Char.toUInt8) = some [a, b] := by
  have ha := a.toNat_lt
  have hb := b.toNat_lt
  simp only [quantum, show (1 : Nat) < 2 from by decide, show ¬(1 : Nat) < 1 from by decide, if_true,
    if_false, List.cons_append, List.nil_append, List.map_cons, List.map_nil]
  rw [decodeQuanta]
  simp only [value_sextet, isPad_sextet, Option.bind_eq_bind, Option.bind_some, Bool.false_eq_true,
    if_false, show isPad '='.toUInt8 = true from rfl, if_true, and_self]
  rw [toUInt8_eq_of_eq (a := a) (by omega), toUInt8_eq_of_eq (a := b) (by omega)]

theorem decodeQuanta_quantum_one {a : UInt8} {n : Nat} (hn : n = a.toNat * 65536) :
    decodeQuanta ((quantum n 2).map Char.toUInt8) = some [a] := by
  have ha := a.toNat_lt
  simp only [quantum, show ¬(2 : Nat) < 2 from by decide, show ¬(2 : Nat) < 1 from by decide, if_false,
    List.cons_append, List.nil_append, List.map_cons, List.map_nil]
  rw [decodeQuanta]
  simp only [value_sextet, Option.bind_eq_bind, Option.bind_some, show isPad '='.toUInt8 = true from rfl,
    if_true, and_self]
  rw [toUInt8_eq_of_eq (a := a) (by omega)]

theorem decodeQuanta_encode (b : List UInt8) : decodeQuanta ((encode b).map Char.toUInt8) = some b := by
  induction b using encode.induct with
  | case1 a b c rest ih =>
    rw [encode, List.map_append, decodeQuanta_quantum_full rfl, ih]
    rfl
  | case2 a b => exact decodeQuanta_quantum_two rfl
  | case3 a => exact decodeQuanta_quantum_one rfl
  | case4 => rfl

/-- Decoding reads back what encoding wrote. -/
theorem decode_encode (b : List UInt8) : decode ((encode b).map Char.toUInt8) = some b := by
  have hfilter : ((encode b).map Char.toUInt8).filter
      (fun x => x != '\n'.toUInt8 && x != '\r'.toUInt8) = (encode b).map Char.toUInt8 := by
    rw [List.filter_eq_self]
    intro x hx
    obtain ⟨c, hc, rfl⟩ := List.mem_map.mp hx
    obtain ⟨h₁, h₂⟩ := not_newline_of_mem_encode hc
    simp [h₁, h₂]
  rw [decode, hfilter, decodeQuanta_encode]

end Vct.Lib.Base64
