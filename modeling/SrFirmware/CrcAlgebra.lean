import SrFirmware.Crc
import SrFirmware.Lib.Feedback
import Mathlib.Tactic.NormNum.Prime

/-!
# The checksum as a linear register

`crc16_ccitt` turns the register of `x ^ 16 + x ^ 12 + x ^ 5 + 1`, with the message added at
the high end. Its difference on two messages of one length depends on their difference only.
-/

namespace SrFirmware

open Lib.Feedback
set_option autoImplicit false

def crcPoly : U16 := 0x1021

/-- Most significant bit first. -/
def messageBits (m : List Byte) : List Bool := m.flatMap bits

@[simp] theorem messageBits_nil : messageBits [] = [] := rfl

@[simp] theorem messageBits_cons (b : Byte) (m : List Byte) :
    messageBits (b :: m) = bits b ++ messageBits m := rfl

theorem messageBits_append (m n : List Byte) :
    messageBits (m ++ n) = messageBits m ++ messageBits n := List.flatMap_append

theorem length_messageBits (m : List Byte) : (messageBits m).length = 8 * m.length := by
  induction m with
  | nil => rfl
  | cons b m ih =>
    rw [messageBits_cons, List.length_append, length_bits, ih, List.length_cons]
    omega

theorem crc16Bit_eq (c : U16) : crc16Bit c = shift crcPoly c := by
  have hmsb : (c &&& 0x8000 ≠ 0) ↔ c.msb = true := by
    have hmask : (0x8000 : U16) = BitVec.twoPow 16 15 := rfl
    rw [hmask, BitVec.and_twoPow, BitVec.msb_eq_getLsbD_last]
    cases c.getLsbD (16 - 1) <;> simp
  simp only [crc16Bit, shift, hmsb, crcPoly]

theorem crc16Byte_eq (c : U16) (b : Byte) :
    crc16Byte c b = (shift crcPoly)^[8] (c ^^^ b.setWidth 16 <<< 8) := by
  have hturn : crc16Bit = shift crcPoly := funext crc16Bit_eq
  rw [crc16Byte, hturn]
  rfl

/-- Adding a byte at the high end is adding it at the low end, eight turns earlier. -/
theorem setWidth_shiftLeft_eq (b : Byte) :
    b.setWidth 16 <<< 8 = (shift crcPoly)^[8] (residue crcPoly 0#16 (bits b)) := by
  revert b
  decide +kernel

theorem crc16Byte_iterate (c : U16) (b : Byte) :
    crc16Byte ((shift crcPoly)^[16] c) b = (shift crcPoly)^[16] (residue crcPoly c (bits b)) := by
  rw [crc16Byte_eq, residue_eq, length_bits, setWidth_shiftLeft_eq, iterate_shift_xor,
    iterate_shift_xor, ← Function.iterate_add_apply, ← Function.iterate_add_apply,
    ← Function.iterate_add_apply]

/-- From a zero register the checksum is the remainder of the message times `x ^ 16`. -/
theorem crc16Ccitt_zero (m : List Byte) :
    crc16Ccitt m 0 = (shift crcPoly)^[16] (residue crcPoly 0#16 (messageBits m)) := by
  have hrun : ∀ c, crc16Ccitt m ((shift crcPoly)^[16] c) =
      (shift crcPoly)^[16] (residue crcPoly c (messageBits m)) := by
    induction m with
    | nil => exact fun c => rfl
    | cons b m ih =>
      intro c
      rw [messageBits_cons, residue_append, ← ih, ← crc16Byte_iterate]
      rfl
  rw [← hrun, iterate_shift_zero]
  rfl

theorem crc16Byte_xor (c d : U16) (a b : Byte) :
    crc16Byte (c ^^^ d) (a ^^^ b) = crc16Byte c a ^^^ crc16Byte d b := by
  rw [crc16Byte_eq, crc16Byte_eq, crc16Byte_eq, ← iterate_shift_xor, BitVec.setWidth_xor,
    BitVec.shiftLeft_xor_distrib, xor_xor_xor_comm]

/-- Superposition: the checksum of a changed message differs by the checksum of the change. -/
theorem crc16Ccitt_xor (c d : U16) {m n : List Byte} (h : m.length = n.length) :
    crc16Ccitt (List.zipWith (· ^^^ ·) m n) (c ^^^ d) = crc16Ccitt m c ^^^ crc16Ccitt n d := by
  induction m generalizing c d n with
  | nil =>
    obtain rfl := List.length_eq_zero_iff.mp h.symm
    rfl
  | cons a m ih =>
    cases n with
    | nil => cases h
    | cons b n =>
      change crc16Ccitt (List.zipWith (· ^^^ ·) m n) (crc16Byte (c ^^^ d) (a ^^^ b)) = _
      rw [crc16Byte_xor, ih _ _ (Nat.succ.inj h)]
      rfl

/-! ### The polynomial -/

theorem crcPoly_constant : crcPoly.getLsbD 0 = true := rfl

/-- `x + 1` divides the polynomial. -/
theorem parity_crcPoly : parity crcPoly = true := rfl

/-- The order of `x`: no two bits closer than this cancel in the checksum. -/
theorem minimalPeriod_crcPoly : Function.minimalPeriod (shift crcPoly) 1#16 = 32767 := by
  have hperiod : Function.IsPeriodicPt (shift crcPoly) 32767 1#16 :=
    (power_eq crcPoly (List.replicate 15 true)).symm.trans (by decide +kernel)
  have h7 : ¬ Function.IsPeriodicPt (shift crcPoly) 4681 1#16 := fun h =>
    absurd ((power_eq crcPoly [true, false, false, true, false, false, true, false, false, true,
      false, false, true]).trans h) (by decide +kernel)
  have h31 : ¬ Function.IsPeriodicPt (shift crcPoly) 1057 1#16 := fun h =>
    absurd ((power_eq crcPoly [true, false, false, false, false, true, false, false, false, false,
      true]).trans h) (by decide +kernel)
  have h151 : ¬ Function.IsPeriodicPt (shift crcPoly) 217 1#16 := fun h =>
    absurd ((power_eq crcPoly [true, true, false, true, true, false, false, true]).trans h)
      (by decide +kernel)
  apply minimalPeriod_eq hperiod
  intro q hq hdvd
  have hfactors : q ∣ 7 * 31 * 151 := hdvd
  rcases hq.dvd_mul.mp hfactors with hdvd | hdvd
  · rcases hq.dvd_mul.mp hdvd with hdvd | hdvd
    · rw [(Nat.prime_dvd_prime_iff_eq hq (by norm_num)).mp hdvd]
      exact h7
    · rw [(Nat.prime_dvd_prime_iff_eq hq (by norm_num)).mp hdvd]
      exact h31
  · rw [(Nat.prime_dvd_prime_iff_eq hq (by norm_num)).mp hdvd]
    exact h151

end SrFirmware
