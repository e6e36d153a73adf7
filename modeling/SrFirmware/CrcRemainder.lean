import SrFirmware.CrcAlgebra
import SrFirmware.LogRing
import SrFirmware.Lib.Remainder

/-!
# The checksum as polynomial division

`crc16_ccitt` leaves the remainder of the start value and the message, put in front of sixteen
zero bits, on division by `X ^ 16 + X ^ 12 + X ^ 5 + 1`.
-/

namespace SrFirmware

open Lib.Feedback Polynomial
set_option autoImplicit false

theorem modulus_crcPoly : modulus crcPoly = X ^ 16 + X ^ 12 + X ^ 5 + 1 := by
  have hpoly : poly crcPoly = X ^ 12 + X ^ 5 + 1 := by
    simp [poly, crcPoly, Finset.sum_range_succ]
    ring
  rw [modulus, hpoly]
  ring

theorem crc16Ccitt_zeros (n : Nat) (c : U16) :
    crc16Ccitt (List.replicate n 0) c = (shift crcPoly)^[8 * n] c := by
  induction n generalizing c with
  | zero => rfl
  | succ n ih =>
    have hbyte : crc16Byte c 0 = (shift crcPoly)^[8] c := by
      rw [crc16Byte_eq]
      simp
    rw [List.replicate_succ, Nat.mul_succ, Function.iterate_add_apply, ← hbyte]
    exact ih _

theorem zipWith_zeros (m : List Byte) :
    List.zipWith (· ^^^ ·) m (List.replicate m.length 0) = m := by
  induction m with
  | nil => rfl
  | cons b m ih =>
    rw [List.length_cons, List.replicate_succ, List.zipWith_cons_cons, ih]
    exact congrArg (· :: m) BitVec.xor_zero

/-- The start value and the message contribute apart. -/
theorem crc16Ccitt_split (m : List Byte) (c : U16) :
    crc16Ccitt m c = (shift crcPoly)^[8 * m.length] c ^^^ crc16Ccitt m 0 := by
  have hlen : m.length = (List.replicate m.length (0 : Byte)).length := by simp
  have hsum := crc16Ccitt_xor 0 c hlen
  have hstart : 0 ^^^ c = c := BitVec.zero_xor
  rw [zipWith_zeros, hstart, crc16Ccitt_zeros] at hsum
  rw [hsum, BitVec.xor_comm]

theorem poly_crc16Ccitt (m : List Byte) (c : U16) :
    poly (crc16Ccitt m c) =
      (poly c * X ^ (8 * m.length) + messagePoly (messageBits m) * X ^ 16) %ₘ modulus crcPoly := by
  have hmessage : poly (crc16Ccitt m 0) =
      (messagePoly (messageBits m) * X ^ 16) %ₘ modulus crcPoly := by
    rw [crc16Ccitt_zero, ← residue_zeros, ← residue_append, poly_residue, poly_zero, zero_mul,
      zero_add, messagePoly_append, messagePoly_zeros, add_zero, List.length_replicate]
  rw [crc16Ccitt_split, poly_xor, poly_iterate, hmessage, add_modByMonic]

theorem crc16Ccitt_flatten (chunks : List (List Byte)) (c : U16) :
    chunks.foldl (fun crc chunk => crc16Ccitt chunk crc) c = crc16Ccitt chunks.flatten c := by
  induction chunks generalizing c with
  | nil => rfl
  | cons chunk chunks ih => rw [List.foldl_cons, ih, List.flatten_cons, crc16Ccitt_append]

/-- `crc16_ccitt` is division by the polynomial, and how the message is cut into chunks does
not matter: neither to a caller that feeds them one after the other nor to the log ring. -/
theorem crc16_ccitt_is_polynomial_remainder (c : U16) :
    (∀ m : List Byte, poly (crc16Ccitt m c) =
      (poly c * X ^ (8 * m.length) + messagePoly (messageBits m) * X ^ 16) %ₘ
        (X ^ 16 + X ^ 12 + X ^ 5 + 1)) ∧
      (∀ chunks : List (List Byte), chunks.foldl (fun crc chunk => crc16Ccitt chunk crc) c =
        crc16Ccitt chunks.flatten c) ∧
      ∀ b : CircularBufferLog, rp2040GetCrc c b = crc16Ccitt (live b).flatten c := by
  refine ⟨?_, fun chunks => crc16Ccitt_flatten chunks c, fun b => rp2040GetCrc_eq b c⟩
  intro m
  rw [poly_crc16Ccitt, modulus_crcPoly]

end SrFirmware
