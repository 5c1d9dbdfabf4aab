import Vct.Lib.Quote
import Vct.Lib.JsonParse
import Vct.Command.Controller
import Vct.Lib.Except

namespace Vct.Controller.Rest

open Vct.Lib.Except
open Vct.Lib.Unicode
open Vct.Lib.Quote
open Vct.Lib.Json
open Vct.Controller.Errors
open Vct.Command.Controller

variable {C : Type}

/-- The first statement of the commands that read one string: decode it from the body, or
wrap `ErrInternal` with the command's own text. -/
def decodeRequest (format : String) (body : List UInt8) : Except GoError (List UInt8) :=
  (decodeString body).mapError fun _ => .wrapf format [] errInternal

/-- The decode of `Cmd.GetSTH` and `Cmd.GetIssuers`. -/
def decodeAlias (body : List UInt8) : Except GoError (List UInt8) :=
  decodeRequest "%w: decode alias failed" body

/-- The decode of `Cmd.Webfinger`. -/
def decodeResourceID (body : List UInt8) : Except GoError (List UInt8) :=
  decodeRequest "%w: decode resource ID failed" body

/-- A Go string as the characters the ledgers are keyed by, `[]rune(s)`. -/
def runeString (s : List UInt8) : List Char := (runes s).map Char.ofNat

/-- `Cmd.GetIssuers`, with the issuers it encodes into the response. -/
def getIssuers (c : Cmd C) (body : List UInt8) : Except GoError (List (List Char)) := do
  let aliasName ← decodeAlias body
  (c.hasPermissions (runeString aliasName) .read).mapError (.wrapf "has permissions: %w" [])
  return ((c.logs.lookup (runeString aliasName)).map (·.issuers)).getD []

/-- The ASCII bytes whose `%q` escape a JSON decoder reads back: the printable ones, and the
five control characters both syntaxes write as `\b`, `\t`, `\n`, `\f` and `\r`. -/
def jsonSafe (r : Nat) : Bool :=
  (0x20 ≤ r && r ≤ 0x7E) || r = 8 || r = 9 || r = 10 || r = 12 || r = 13

theorem lt_of_jsonSafe {r : Nat} (h : jsonSafe r = true) : r < 0x80 := by
  simp only [jsonSafe, Bool.or_eq_true, Bool.and_eq_true, decide_eq_true_eq] at h
  omega

section Escape

variable (isPrintTable : Nat → Bool)

theorem stringBody_appendEscapedRune_of_jsonSafe {b : UInt8} (hs : jsonSafe b.toNat = true)
    (tail : List UInt8) :
    stringBody (appendEscapedRune isPrintTable b.toNat ++ tail) =
      (stringBody tail).map fun p => (b :: p.1, p.2) := by
  simp only [jsonSafe, Bool.or_eq_true, Bool.and_eq_true, decide_eq_true_eq] at hs
  rcases hs with ((((⟨hlo, hhi⟩ | h) | h) | h) | h) | h
  · by_cases hq : b.toNat = '"'.toNat ∨ b.toNat = '\\'.toNat
    · -- a quote or a backslash gets a backslash, and JSON reads it back
      have hesc : appendEscapedRune isPrintTable b.toNat = ['\\'.toUInt8, b] := by
        rw [appendEscapedRune, if_pos hq, encodeRune_of_lt (by omega), Nat.toUInt8_eq,
          UInt8.ofNat_toNat]
      have hback : escapeByte b = some b := by
        rcases hq with hq | hq
        · obtain rfl : b = '"'.toUInt8 := UInt8.toNat_inj.mp hq
          decide
        · obtain rfl : b = '\\'.toUInt8 := UInt8.toNat_inj.mp hq
          decide
      rw [hesc, List.cons_append, List.cons_append, List.nil_append, stringBody_escape hback]
    · have hprint : isPrint isPrintTable b.toNat = true := by
        simp only [isPrint]
        rw [if_pos (by omega), if_pos ⟨hlo, hhi⟩]
      have hplain : appendEscapedRune isPrintTable b.toNat = [b] := by
        rw [appendEscapedRune, if_neg hq, if_pos hprint, encodeRune_of_lt (by omega),
          Nat.toUInt8_eq, UInt8.ofNat_toNat]
      have hquote : b ≠ '"'.toUInt8 := fun hb => hq (.inl (by rw [hb]; rfl))
      have hslash : b ≠ '\\'.toUInt8 := fun hb => hq (.inr (by rw [hb]; rfl))
      have hctl : ¬b < 0x20 := by
        rw [UInt8.lt_iff_toNat_lt]
        exact Nat.not_lt.mpr hlo
      rw [hplain, List.cons_append, List.nil_append, stringBody_plainByte hquote hctl hslash]
  all_goals
    have hb : b = b.toNat.toUInt8 := by rw [Nat.toUInt8_eq, UInt8.ofNat_toNat]
    rw [h] at hb
    subst hb
    exact stringBody_escape (by decide) tail

theorem stringBody_appendEscapedRune_of_not_jsonSafe {b : UInt8} (hb : b < 0x80)
    (hs : jsonSafe b.toNat = false) (tail : List UInt8) :
    ∃ e, stringBody (appendEscapedRune isPrintTable b.toNat ++ tail) = .error e := by
  have hlt : b.toNat < 0x80 := hb
  simp only [jsonSafe, Bool.or_eq_false_iff, Bool.and_eq_false_iff, decide_eq_false_iff_not] at hs
  have hq : ¬(b.toNat = '"'.toNat ∨ b.toNat = '\\'.toNat) := by
    show ¬(b.toNat = 34 ∨ b.toNat = 92)
    omega
  have hprint : isPrint isPrintTable b.toNat = false := by
    simp only [isPrint]
    rw [if_pos (by omega), if_neg (by omega), if_neg (by omega)]
  obtain ⟨e, more, hesc, hu, hnone⟩ : ∃ e more, appendEscapedRune isPrintTable b.toNat =
      '\\'.toUInt8 :: e :: more ∧ e ≠ 'u'.toUInt8 ∧ escapeByte e = none := by
    rw [appendEscapedRune, if_neg hq, if_neg (by rw [hprint]; decide)]
    by_cases h7 : b.toNat = 7
    · rw [if_pos h7]
      exact ⟨_, _, rfl, by decide, by decide⟩
    rw [if_neg h7, if_neg (by omega), if_neg (by omega), if_neg (by omega), if_neg (by omega),
      if_neg (by omega)]
    by_cases h11 : b.toNat = 11
    · rw [if_pos h11]
      exact ⟨_, _, rfl, by decide, by decide⟩
    rw [if_neg h11, if_pos (by omega)]
    exact ⟨_, _, rfl, by decide, by decide⟩
  exact ⟨_, by rw [hesc, List.cons_append, List.cons_append, stringBody_badEscape hu hnone]⟩

/-- The `%q` text of a string of JSON-safe bytes reads back as the string. -/
theorem stringBody_escaped_of_jsonSafe (rest : List UInt8) {s : List UInt8}
    (h : ∀ b ∈ s, jsonSafe b.toNat = true) :
    stringBody (s.flatMap (fun b => appendEscapedRune isPrintTable b.toNat) ++ '"'.toUInt8 :: rest) =
      .ok (s, rest) := by
  induction s with
  | nil => exact stringBody_quote rest
  | cons b s ih =>
    rw [List.flatMap_cons, List.append_assoc,
      stringBody_appendEscapedRune_of_jsonSafe isPrintTable (h b (by simp)),
      ih (fun c hc => h c (by simp [hc]))]
    rfl

/-- One byte of an ASCII string that is not JSON-safe makes the whole text fail. -/
theorem stringBody_escaped_of_not_jsonSafe (rest : List UInt8) {s : List UInt8}
    (hascii : ∀ b ∈ s, b < 0x80) (h : ∃ b ∈ s, jsonSafe b.toNat = false) :
    ∃ e, stringBody (s.flatMap (fun b => appendEscapedRune isPrintTable b.toNat) ++
      '"'.toUInt8 :: rest) = .error e := by
  induction s with
  | nil => simp at h
  | cons b s ih =>
    rw [List.flatMap_cons, List.append_assoc]
    cases hb : jsonSafe b.toNat with
    | false => exact stringBody_appendEscapedRune_of_not_jsonSafe isPrintTable (hascii b (by simp)) hb _
    | true =>
      have htail : ∃ c ∈ s, jsonSafe c.toNat = false := by
        obtain ⟨c, hc, hcs⟩ := h
        rcases List.mem_cons.mp hc with rfl | hc
        · rw [hb] at hcs
          cases hcs
        · exact ⟨c, hc, hcs⟩
      obtain ⟨e, he⟩ := ih (fun c hc => hascii c (by simp [hc])) htail
      refine ⟨e, ?_⟩
      rw [stringBody_appendEscapedRune_of_jsonSafe isPrintTable hb, he]
      rfl

theorem decodeString_quote_of_jsonSafe {s : List UInt8} (h : ∀ b ∈ s, jsonSafe b.toNat = true) :
    decodeString (quote isPrintTable s) = .ok s := by
  have hascii : ∀ b ∈ s, b < 0x80 := fun b hb => lt_of_jsonSafe (h b hb)
  rw [quote_of_ascii isPrintTable hascii, List.cons_append,
    decodeString_of_stringBody (stringBody_escaped_of_jsonSafe isPrintTable [] h),
    sanitize_of_ascii hascii]

/-- On ASCII, a string survives `%q` and the JSON decoder exactly when every byte of it is
JSON-safe. -/
theorem decodeString_quote_eq_ok_iff {s : List UInt8} (hascii : ∀ b ∈ s, b < 0x80) :
    decodeString (quote isPrintTable s) = .ok s ↔ ∀ b ∈ s, jsonSafe b.toNat = true := by
  constructor
  · intro hok
    by_contra hunsafe
    have hfalse : ∃ b ∈ s, jsonSafe b.toNat = false := by simpa using hunsafe
    obtain ⟨e, he⟩ := stringBody_escaped_of_not_jsonSafe isPrintTable [] hascii hfalse
    rw [quote_of_ascii isPrintTable hascii, List.cons_append,
      decodeString_of_stringBody_error he] at hok
    cases hok
  · exact decodeString_quote_of_jsonSafe isPrintTable

/-- A JSON-safe alias reaches the permission check as it was sent, so an alias the command
does not serve is answered with 404. -/
theorem getIssuers_quote_of_not_served (c : Cmd C) {s : List UInt8}
    (h : ∀ b ∈ s, jsonSafe b.toNat = true) (hnone : c.logs.lookup (runeString s) = none) :
    getIssuers c (quote isPrintTable s) =
      .error (.wrapf "has permissions: %w" []
        (newNotFoundError (.errorf "alias %q is not supported" [.quoted (runeString s)]))) := by
  have hdecode : decodeAlias (quote isPrintTable s) = .ok s := by
    rw [decodeAlias, decodeRequest, decodeString_quote_of_jsonSafe isPrintTable h]
    rfl
  rw [getIssuers, hdecode, ok_bind, Cmd.hasPermissions, hnone]
  rfl

/-- The alias `"\x01"`: `%q` writes `\x01`, which the JSON decoder rejects, so `GetIssuers`
fails with `ErrInternal` (status 500) whatever ledgers the command serves, and never reaches
the check that answers an unknown alias with 404. -/
theorem getIssuers_control_alias_fails (c : Cmd C) :
    quote isPrintTable [1] = ascii ['"', '\\', 'x', '0', '1', '"'] ∧
      decodeString (quote isPrintTable [1]) =
        .error (invalidChar 'x'.toUInt8 "in string escape code") ∧
      getIssuers c (quote isPrintTable [1]) =
        .error (.wrapf "%w: decode alias failed" [] errInternal) ∧
      statusCodeFromError (.wrapf "%w: decode alias failed" [] errInternal) = 500 := by
  have hquote : quote isPrintTable [1] = ascii ['"', '\\', 'x', '0', '1', '"'] := rfl
  have hdecode : decodeString (quote isPrintTable [1]) =
      .error (invalidChar 'x'.toUInt8 "in string escape code") := by
    rw [hquote]
    decide
  refine ⟨hquote, hdecode, ?_, rfl⟩
  rw [getIssuers, decodeAlias, decodeRequest, hdecode]
  rfl

end Escape

end Vct.Controller.Rest
