import Mathlib.Algebra.Ring.Nat
import Mathlib.Data.List.Basic
import Mathlib.Data.List.Induction

/-! Big-endian numbers of a fixed width in bytes. -/
namespace Hftrs.Library

/-- The number that the bytes spell, most significant first. -/
def decode (bytes : List UInt8) : Nat := bytes.foldl (fun acc byte => acc * 256 + byte.toNat) 0

/-- The low `width` bytes of a number, most significant first. -/
def encode : Nat → Nat → List UInt8
  | 0, _ => []
  | width + 1, n => encode width (n / 256) ++ [UInt8.ofNat n]

@[simp] theorem length_encode (width n : Nat) : (encode width n).length = width := by
  induction width generalizing n with
  | zero => rfl
  | succ width ih => rw [encode, List.length_append, ih, List.length_singleton]

theorem decode_concat (bytes : List UInt8) (byte : UInt8) :
    decode (bytes ++ [byte]) = decode bytes * 256 + byte.toNat := by
  simp only [decode, List.foldl_append, List.foldl_cons, List.foldl_nil]

theorem decode_lt (bytes : List UInt8) : decode bytes < 256 ^ bytes.length := by
  -- from the last byte, which is the lowest digit
  induction bytes using List.reverseRecOn with
  | nil => simp [decode]
  | append_singleton bytes byte ih =>
    have digit := byte.toNat_lt
    rw [decode_concat, List.length_append, List.length_singleton, Nat.pow_succ]
    omega

/-- Decoding undoes encoding within the width. -/
theorem decode_encode (width n : Nat) (fits : n < 256 ^ width) : decode (encode width n) = n := by
  induction width generalizing n with
  | zero =>
    simp only [Nat.pow_zero, Nat.lt_one_iff] at fits
    rw [fits]
    rfl
  | succ width ih =>
    rw [Nat.pow_succ] at fits
    -- the high digits are those of `n / 256`, which has one digit less
    rw [encode, decode_concat, ih (n / 256) (Nat.div_lt_of_lt_mul (by omega)), UInt8.toNat_ofNat']
    omega

/-- Encoding undoes decoding at the length of the bytes. -/
theorem encode_decode (bytes : List UInt8) : encode bytes.length (decode bytes) = bytes := by
  induction bytes using List.reverseRecOn with
  | nil => rfl
  | append_singleton bytes byte ih =>
    have digit := byte.toNat_lt
    have quotient : (decode bytes * 256 + byte.toNat) / 256 = decode bytes := by omega
    have remainder : UInt8.ofNat (decode bytes * 256 + byte.toNat) = byte := by
      apply UInt8.toNat_inj.mp
      rw [UInt8.toNat_ofNat']
      omega
    rw [decode_concat, List.length_append, List.length_singleton, encode, quotient, remainder, ih]

end Hftrs.Library
