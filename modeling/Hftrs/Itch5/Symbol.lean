import Mathlib.Data.List.DropRight
import Hftrs.Library.BigEndian

/-! The text of a symbol. Symbols are their packed values, text is its list of characters. -/
namespace Hftrs.Itch5

open Hftrs.Library

namespace Symbol

/-- `from_u64`, as the eight bytes of the wire. -/
def bytes (symbol : Nat) : List UInt8 := encode 8 symbol

/-- The text, or `"unknown"` when the bytes are no UTF-8. -/
def asStr (symbol : Nat) : List Char :=
  match (ByteArray.mk (bytes symbol).toArray).utf8Decode? with
  | some text => text.toList
  | none => ['u', 'n', 'k', 'n', 'o', 'w', 'n']

/-- The bytes of a text. -/
def utf8 (text : List Char) : List UInt8 := text.flatMap String.utf8EncodeChar

/-- `from_str`: the upper case in the first eight bytes, padded with blanks. `toUppercase` gives the
characters of `char::to_uppercase`. -/
def fromStr (toUppercase : Char → List Char) (s : List Char) : Except String Nat :=
  if s.isEmpty then .error "empty input"
  else
    let upper := utf8 (s.flatMap toUppercase)
    .ok (decode (upper.take 8 ++ List.replicate (8 - upper.length) 32))

theorem asStr_of_bytes {symbol : Nat} {text : List Char} (spelled : bytes symbol = utf8 text) :
    asStr symbol = text := by
  have whole : ByteArray.mk (utf8 text).toArray = text.utf8Encode :=
    ByteArray.ext List.data_toByteArray.symm
  rw [asStr, spelled, whole, List.utf8Decode?_utf8Encode]

/-- A text of eight bytes is that of its bytes only. -/
theorem asStr_eq_iff (symbol : Nat) {text : List Char} (eight : (utf8 text).length = 8) :
    asStr symbol = text ↔ bytes symbol = utf8 text := by
  refine ⟨fun same => ?_, asStr_of_bytes⟩
  unfold asStr at same
  split at same
  next chars decoded =>
    have valid : (ByteArray.mk (bytes symbol).toArray).utf8Decode?.isSome := by
      rw [decoded]
      rfl
    have encoded : (ByteArray.mk (bytes symbol).toArray).utf8Decode?.get valid = chars := by
      simp only [decoded, Option.get_some]
    have whole := ByteArray.utf8Encode_get_utf8Decode? (h := valid)
    rw [encoded, same] at whole
    have data := congrArg (fun b => b.data.toList) whole
    simpa [utf8, List.utf8Encode, List.data_toByteArray] using data.symm
  next =>
    -- the replacement has seven bytes
    rw [← same] at eight
    exact absurd eight (by decide)

end Symbol

/-- `char::is_whitespace`: the Unicode property `White_Space`. -/
def isWhitespace (c : Char) : Bool :=
  (9 ≤ c.toNat ∧ c.toNat ≤ 13) ∨ (0x2000 ≤ c.toNat ∧ c.toNat ≤ 0x200A) ∨
    c.toNat ∈ [0x20, 0x85, 0xA0, 0x1680, 0x2028, 0x2029, 0x202F, 0x205F, 0x3000]

/-- `str::trim_end` -/
def trimEnd (text : List Char) : List Char := text.rdropWhile isWhitespace

end Hftrs.Itch5
