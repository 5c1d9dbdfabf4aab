import Mathlib

namespace Vct.Lib.Unicode

def runeError : Nat := 0xFFFD

def isCont (b : UInt8) : Bool := 0x80 ≤ b && b ≤ 0xBF

/-- The width of the sequence a first byte starts (`0` where it starts none), and the
range its second byte must lie in. -/
def firstByte (b : UInt8) : Nat × UInt8 × UInt8 :=
  if b < 0x80 then (1, 0, 0)
  else if 0xC2 ≤ b ∧ b ≤ 0xDF then (2, 0x80, 0xBF)
  else if b = 0xE0 then (3, 0xA0, 0xBF)
  else if b = 0xED then (3, 0x80, 0x9F)
  else if 0xE1 ≤ b ∧ b ≤ 0xEF then (3, 0x80, 0xBF)
  else if b = 0xF0 then (4, 0x90, 0xBF)
  else if b = 0xF4 then (4, 0x80, 0x8F)
  else if 0xF1 ≤ b ∧ b ≤ 0xF3 then (4, 0x80, 0xBF)
  else (0, 0, 0)

/-- `utf8.DecodeRune` at a byte `b₀` followed by `rest`: the rune and its width, and
`RuneError` of width one where no well-formed sequence starts. -/
def decodeRune (b₀ : UInt8) (rest : List UInt8) : Nat × Nat :=
  if b₀ < 0x80 then (b₀.toNat, 1)
  else
    let (w, lo, hi) := firstByte b₀
    let b₁ := rest.getD 0 0
    let b₂ := rest.getD 1 0
    let b₃ := rest.getD 2 0
    if w = 0 ∨ rest.length + 1 < w ∨ b₁ < lo ∨ hi < b₁ then (runeError, 1)
    else if w = 2 then (b₀.toNat % 32 * 64 + b₁.toNat % 64, 2)
    else if !isCont b₂ then (runeError, 1)
    else if w = 3 then (b₀.toNat % 16 * 4096 + b₁.toNat % 64 * 64 + b₂.toNat % 64, 3)
    else if !isCont b₃ then (runeError, 1)
    else (b₀.toNat % 8 * 262144 + b₁.toNat % 64 * 4096 + b₂.toNat % 64 * 64 + b₃.toNat % 64, 4)

/-- The loop of `[]rune(s)`; every rune takes at least one byte, so `fuel` bytes are enough. -/
def runesAux : Nat → List UInt8 → List Nat
  | 0, _ => []
  | _, [] => []
  | fuel + 1, b :: rest =>
    let (r, w) := decodeRune b rest
    r :: runesAux fuel ((b :: rest).drop w)

def runes (s : List UInt8) : List Nat := runesAux s.length s

def encodeRune (r : Nat) : List UInt8 :=
  if r ≤ 0x7F then [r.toUInt8]
  else if r ≤ 0x7FF then [(0xC0 + r / 64).toUInt8, (0x80 + r % 64).toUInt8]
  else if 0x10FFFF < r ∨ (0xD800 ≤ r ∧ r ≤ 0xDFFF) then [0xEF, 0xBF, 0xBD]
  else if r ≤ 0xFFFF then
    [(0xE0 + r / 4096).toUInt8, (0x80 + r / 64 % 64).toUInt8, (0x80 + r % 64).toUInt8]
  else
    [(0xF0 + r / 262144).toUInt8, (0x80 + r / 4096 % 64).toUInt8, (0x80 + r / 64 % 64).toUInt8,
      (0x80 + r % 64).toUInt8]

def isSurrogate (r : Nat) : Bool := 0xD800 ≤ r && r < 0xE000

/-- `utf16.DecodeRune`: the rune of a surrogate pair, and `RuneError` for anything else. -/
def decodeRune16 (r₁ r₂ : Nat) : Nat :=
  if 0xD800 ≤ r₁ ∧ r₁ < 0xDC00 ∧ 0xDC00 ≤ r₂ ∧ r₂ < 0xE000 then
    (r₁ - 0xD800) * 0x400 + (r₂ - 0xDC00) + 0x10000
  else runeError

def encodeRune16 (v : Nat) : List Nat :=
  if v < 0xD800 ∨ (0xE000 ≤ v ∧ v < 0x10000) then [v]
  else if 0x10000 ≤ v ∧ v ≤ 0x10FFFF then
    [0xD800 + (v - 0x10000) / 0x400 % 0x400, 0xDC00 + (v - 0x10000) % 0x400]
  else [runeError]

def utf16Encode (vs : List Nat) : List Nat := vs.flatMap encodeRune16

theorem runesAux_of_ascii {s : List UInt8} (h : ∀ b ∈ s, b < 0x80) :
    ∀ {fuel}, s.length ≤ fuel → runesAux fuel s = s.map UInt8.toNat := by
  induction s with
  | nil => intro fuel _; cases fuel <;> rfl
  | cons b s ih =>
    intro fuel hfuel
    obtain ⟨fuel, rfl⟩ : ∃ n, fuel = n + 1 := ⟨fuel - 1, by simp at hfuel; omega⟩
    have hb : decodeRune b s = (b.toNat, 1) := by simp [decodeRune, h b (by simp)]
    simp only [runesAux, hb, List.drop_one, List.tail_cons, List.map_cons]
    rw [ih (fun c hc => h c (by simp [hc])) (by simpa using hfuel)]

/-- A byte string of ASCII reads as its bytes. -/
theorem runes_of_ascii {s : List UInt8} (h : ∀ b ∈ s, b < 0x80) : runes s = s.map UInt8.toNat :=
  runesAux_of_ascii h (Nat.le_refl _)

theorem utf16Encode_of_lt {vs : List Nat} (h : ∀ v ∈ vs, v < 0xD800) : utf16Encode vs = vs := by
  induction vs with
  | nil => rfl
  | cons v vs ih =>
    have hv : encodeRune16 v = [v] := by simp [encodeRune16, h v (by simp)]
    simp only [utf16Encode, List.flatMap_cons, hv] at ih ⊢
    rw [ih fun w hw => h w (by simp [hw])]
    rfl

theorem encodeRune_of_lt {r : Nat} (h : r < 0x80) : encodeRune r = [r.toUInt8] := by
  simp [encodeRune, show r ≤ 0x7F by omega]

end Vct.Lib.Unicode
