import SrFirmware.CommandLoop
import SrFirmware.CrcAlgebra

/-!
# Corrupted frames

Bits of the command, the payload and the checksum are flipped on the way to `get_block`. The
frame is still accepted exactly when the checksum of the flips, over a zero register, is the
flip of the checksum field. The field travels low byte first, so a burst that straddles the
end of the payload is not a burst of the polynomial.
-/

namespace SrFirmware

open Lib.Feedback
set_option autoImplicit false

/-- The bits set in `mask` flipped behind the start marker and the length. -/
def corrupt (mask bytes : List Byte) : List Byte :=
  bytes.take 3 ++ List.zipWith (· ^^^ ·) (bytes.drop 3) mask

def flippedBits (mask : List Byte) : Nat := (messageBits mask).count true

/-- Changes confined to two consecutive bytes, `before` bytes behind the length field. -/
def window (before : Nat) (e1 e2 : Byte) (after : Nat) : List Byte :=
  List.replicate before 0 ++ [e1, e2] ++ List.replicate after 0

/-- Answered by NACK, `handle_packet` not called. -/
def CallResult.Rejected (r : CallResult) : Prop :=
  r.handled = [] ∧ r.out = sendFramedPacket Command.nack none 0

/-! ### What the receiver makes of it -/

theorem crc16Ccitt_replicate_zero (n : Nat) : crc16Ccitt (List.replicate n 0) 0 = 0 := by
  induction n with
  | zero => rfl
  | succ n ih => exact ih

theorem crc16Ccitt_corrupt (l1 l2 : Byte) {body e : List Byte} (h : body.length = e.length) :
    crc16Ccitt (l1 :: l2 :: List.zipWith (· ^^^ ·) body e) 0xFFFF =
      crc16Ccitt (l1 :: l2 :: body) 0xFFFF ^^^ crc16Ccitt e 0 := by
  have hxor := crc16Ccitt_xor (crc16Ccitt [l1, l2] 0xFFFF) 0#16 h
  rw [BitVec.xor_zero] at hxor
  exact hxor

theorem word_eq_append (l1 l2 : Byte) : word l1 l2 = l2 ++ l1 := by
  apply BitVec.eq_of_getLsbD_eq
  intro i hi
  simp only [word, BitVec.getLsbD_or, BitVec.getLsbD_setWidth, BitVec.getLsbD_shiftLeft,
    BitVec.getLsbD_append]
  by_cases hlow : i < 8
  · simp [hlow, hi]
  · simp [hlow, hi, BitVec.getLsbD_of_ge l1 i (by omega), show i - 8 < 16 by omega]

theorem word_xor (a b c d : Byte) : word (a ^^^ b) (c ^^^ d) = word a c ^^^ word b d := by
  rw [word_eq_append, word_eq_append, word_eq_append]
  exact BitVec.xor_append.symm

namespace Delimited

/-- A delimited frame with its body flipped by `e` and its checksum field by `e1` and `e2`. -/
def flip (d : Delimited) (e : List Byte) (e1 e2 : Byte) (h : d.body.length = e.length) :
    Delimited where
  l1 := d.l1
  l2 := d.l2
  body := List.zipWith (· ^^^ ·) d.body e
  c1 := d.c1 ^^^ e1
  c2 := d.c2 ^^^ e2
  size := by rw [List.length_zipWith, ← h, Nat.min_self, d.size]

theorem bytes_flip (d : Delimited) (e : List Byte) (e1 e2 : Byte)
    (h : d.body.length = e.length) :
    (d.flip e e1 e2 h).bytes = corrupt (e ++ [e1, e2]) d.bytes := by
  simp [bytes, corrupt, flip, List.zipWith_append h]

theorem flip_valid_iff {d : Delimited} (hd : d.Valid) (e : List Byte) (e1 e2 : Byte)
    (h : d.body.length = e.length) :
    (d.flip e e1 e2 h).Valid ↔ crc16Ccitt e 0 = word e1 e2 := by
  obtain ⟨hne, hmax, hcrc⟩ := hd
  have hlen : (List.zipWith (· ^^^ ·) d.body e).length = d.body.length := by
    rw [List.length_zipWith, ← h, Nat.min_self]
  have hne' : List.zipWith (· ^^^ ·) d.body e ≠ [] := by
    rw [← List.length_pos_iff, hlen]
    exact List.length_pos_iff.mpr hne
  simp only [Valid, flip, crc16Ccitt_corrupt d.l1 d.l2 h, word_xor, hcrc, hlen]
  constructor
  · rintro ⟨-, -, heq⟩
    exact (BitVec.xor_right_inj _).mp heq
  · intro heq
    exact ⟨hne', hmax, by rw [heq]⟩

theorem request_eq_none_iff {d : Delimited} (hne : d.body ≠ []) :
    d.request = none ↔ ¬ d.Valid := by
  unfold request
  split
  · contradiction
  · split <;> simp_all

end Delimited

section
variable {logLevel : Int} (build : Build) (p : Platform logLevel)

theorem getBlock_rejected_iff (s : SerialComm) (d : Delimited) (rest : List Input) :
    (getBlock build p s (d.bytes.map .byte ++ rest)).Rejected ↔ d.request = none := by
  unfold CallResult.Rejected
  rw [getBlock_handled, getBlock_out, scan_append]
  cases hreq : d.request with
  | none => simp [Item.request, serve, hreq, SerialComm.nackResult]
  | some q => simp [Item.request, hreq]

/-- A corrupted frame is rejected exactly when the flips of the body and of the checksum
field do not agree. -/
theorem getBlock_corrupt_rejected_iff (s : SerialComm) (cmd : Byte) {payload : List Byte}
    (hlen : payload.length ≤ 1023) (e : List Byte) (e1 e2 : Byte)
    (he : e.length = payload.length + 1) (rest : List Input) :
    (getBlock build p s
        ((corrupt (e ++ [e1, e2])
          (sendFramedPacket cmd (some payload) payload.length)).map .byte ++ rest)).Rejected ↔
      crc16Ccitt e 0 ≠ word e1 e2 := by
  obtain ⟨d, hd⟩ := frame_delimited cmd (show payload.length < 65535 by omega)
  obtain ⟨hbody, hvalid⟩ := Delimited.request_eq_some
    ((d.request_iff cmd payload).mpr ⟨hlen, hd⟩)
  have hsize : d.body.length = e.length := by rw [hbody, List.length_cons, he]
  have hne : (d.flip e e1 e2 hsize).body ≠ [] := by
    rw [← List.length_pos_iff, (d.flip e e1 e2 hsize).size]
    change 0 < (word d.l1 d.l2).toNat
    rw [← d.size, hsize, he]
    exact Nat.succ_pos _
  rw [sendFramedPacket_eq, ← hd, ← Delimited.bytes_flip d e e1 e2 hsize,
    getBlock_rejected_iff, Delimited.request_eq_none_iff hne, Delimited.flip_valid_iff hvalid]

/-! ### Few flips, or an odd number -/

theorem syndrome_eq (e : List Byte) (e1 e2 : Byte) :
    crc16Ccitt e 0 ^^^ word e1 e2 =
      residue crcPoly 0#16 (messageBits e ++ bits (word e1 e2)) := by
  rw [crc16Ccitt_zero, residue_append, residue_bits]

theorem count_syndrome (e : List Byte) (e1 e2 : Byte) :
    (messageBits e ++ bits (word e1 e2)).count true = flippedBits (e ++ [e1, e2]) := by
  rw [flippedBits, messageBits_append, word_eq_append, bits_append]
  simp only [messageBits_cons, messageBits_nil, List.append_nil, List.count_append]
  omega

theorem split_last_two {mask : List Byte} {n : Nat} (h : mask.length = n + 2) :
    ∃ e e1 e2, mask = e ++ [e1, e2] ∧ e.length = n := by
  obtain ⟨e1, e2, htail⟩ := List.length_eq_two.mp
    (show (mask.drop n).length = 2 by rw [List.length_drop, h, Nat.add_sub_cancel_left])
  refine ⟨mask.take n, e1, e2, ?_, by simp [h]⟩
  rw [← htail, List.take_append_drop]

/-- One, two, three or any odd number of flipped bits make the frame a rejected one. -/
theorem get_block_rejects_small_corruptions (s : SerialComm) (cmd : Byte) (payload : List Byte)
    (hlen : payload.length ≤ 1023) (mask : List Byte) (hmask : mask.length = payload.length + 3)
    (hflips : flippedBits mask = 1 ∨ flippedBits mask = 2 ∨ flippedBits mask = 3 ∨
      flippedBits mask % 2 = 1) (rest : List Input) :
    (getBlock build p s
      ((corrupt mask (sendFramedPacket cmd (some payload) payload.length)).map .byte ++
        rest)).Rejected := by
  obtain ⟨e, e1, e2, rfl, he⟩ := split_last_two hmask
  rw [getBlock_corrupt_rejected_iff build p s cmd hlen e e1 e2 he rest]
  intro heq
  have hzero : residue crcPoly 0#16 (messageBits e ++ bits (word e1 e2)) = 0#16 := by
    rw [← syndrome_eq, heq, BitVec.xor_self]
  rw [← count_syndrome] at hflips
  have hcases : (messageBits e ++ bits (word e1 e2)).count true = 2 ∨
      (messageBits e ++ bits (word e1 e2)).count true % 2 = 1 := by omega
  rcases hcases with htwo | hodd
  · refine residue_ne_zero_of_two crcPoly_constant htwo ?_ hzero
    rw [minimalPeriod_crcPoly, List.length_append, length_messageBits, length_bits, he]
    omega
  · exact residue_ne_zero_of_odd parity_crcPoly hodd hzero

/-- One flipped bit in the identifier of a state request. -/
theorem get_block_rejects_one_flip :
    (getBlock ⟨false, true⟩ (.idle 0) (serialCommManagerInit RP2040State.zero)
      ((corrupt [0x01, 0, 0] (sendFramedPacket Command.getState (some []) 0)).map .byte ++
        [])).Rejected :=
  get_block_rejects_small_corruptions ⟨false, true⟩ (.idle 0) _ Command.getState [] (by decide)
    [0x01, 0, 0] rfl (by decide +kernel) []

/-! ### Bursts of two bytes -/

theorem crc16Ccitt_pair_eq_zero {e1 e2 : Byte} (h : crc16Ccitt [e1, e2] 0 = 0) :
    e1 = 0 ∧ e2 = 0 := by
  rw [crc16Ccitt_zero, messageBits_cons, messageBits_cons, messageBits_nil, List.append_nil,
    ← bits_append, ← word_eq_append, residue_bits, iterate_shift_zero, BitVec.zero_xor] at h
  have hword := iterate_shift_eq_zero crcPoly_constant h
  have hlow := lowByte_word e2 e1
  have hhigh := highByte_word e2 e1
  rw [hword] at hlow hhigh
  exact ⟨hhigh.symm, hlow.symm⟩

theorem crc16Ccitt_zeros_eq_zero {n : Nat} {c : U16}
    (h : crc16Ccitt (List.replicate n 0) c = 0) : c = 0 := by
  induction n generalizing c with
  | zero => exact h
  | succ n ih =>
    have hbyte : crc16Byte c 0 = (shift crcPoly)^[8] c := by
      rw [crc16Byte_eq]
      simp
    have hstep : (shift crcPoly)^[8] c = 0 := by
      rw [← hbyte]
      exact ih h
    exact iterate_shift_eq_zero crcPoly_constant hstep

theorem word_eq_zero_iff (l1 l2 : Byte) : word l1 l2 = 0 ↔ l1 = 0 ∧ l2 = 0 := by
  constructor
  · intro h
    have hlow := lowByte_word l1 l2
    have hhigh := highByte_word l1 l2
    rw [h] at hlow hhigh
    exact ⟨hlow.symm, hhigh.symm⟩
  · rintro ⟨rfl, rfl⟩
    rfl

/-- The one byte whose checksum fits the low byte of the field, which is sent next to it. -/
theorem crc16Byte_eq_word_iff (e1 e2 : Byte) :
    crc16Byte 0 e1 = word e2 0 ↔ (e1 = 0 ∧ e2 = 0) ∨ (e1 = 0x89 ∧ e2 = 0xA1) := by
  have hhigh : ∀ b : Byte, highByte (crc16Byte 0 b) = 0 → b = 0 ∨ b = 0x89 := by
    decide +kernel
  constructor
  · intro h
    have hlow : lowByte (crc16Byte 0 e1) = e2 := by rw [h, lowByte_word]
    rcases hhigh e1 (by rw [h, highByte_word]) with rfl | rfl
    · exact .inl ⟨rfl, hlow.symm⟩
    · exact .inr ⟨rfl, hlow.symm⟩
  · rintro (⟨rfl, rfl⟩ | ⟨rfl, rfl⟩)
    · rfl
    · decide +kernel

theorem crc16Ccitt_zeros_append (n : Nat) (m : List Byte) :
    crc16Ccitt (List.replicate n 0 ++ m) 0 = crc16Ccitt m 0 := by
  rw [crc16Ccitt_append, crc16Ccitt_replicate_zero]

/-- A change within two consecutive bytes is rejected, except one change of the last byte
before the checksum field together with the first byte of the field. -/
theorem get_block_rejects_two_byte_bursts (s : SerialComm) (cmd : Byte) (payload : List Byte)
    (hlen : payload.length ≤ 1023) (before after : Nat) (e1 e2 : Byte)
    (hwindow : before + 2 + after = payload.length + 3) (hchange : e1 ≠ 0 ∨ e2 ≠ 0)
    (rest : List Input) :
    (getBlock build p s
      ((corrupt (window before e1 e2 after)
        (sendFramedPacket cmd (some payload) payload.length)).map .byte ++ rest)).Rejected ↔
      ¬ (after = 1 ∧ e1 = 0x89 ∧ e2 = 0xA1) := by
  have hne : ¬ (e1 = 0 ∧ e2 = 0) := by
    rintro ⟨rfl, rfl⟩
    rcases hchange with h | h <;> exact h rfl
  match after with
  | 0 =>
    have hmask : window before e1 e2 0 = List.replicate before 0 ++ [e1, e2] := by simp [window]
    rw [hmask, getBlock_corrupt_rejected_iff build p s cmd hlen _ e1 e2 (by simp; omega) rest,
      crc16Ccitt_replicate_zero]
    exact iff_of_true (fun h => hne ((word_eq_zero_iff e1 e2).mp h.symm)) fun h => nomatch h.1
  | 1 =>
    have hmask : window before e1 e2 1 =
        (List.replicate before 0 ++ [e1]) ++ [e2, 0] := by simp [window]
    rw [hmask, getBlock_corrupt_rejected_iff build p s cmd hlen _ e2 0 (by simp; omega) rest,
      crc16Ccitt_zeros_append]
    have hbyte : crc16Ccitt [e1] 0 = crc16Byte 0 e1 := rfl
    rw [hbyte, Ne, crc16Byte_eq_word_iff, or_iff_right hne]
    exact not_congr (iff_and_self.mpr fun _ => rfl)
  | k + 2 =>
    have hmask : window before e1 e2 (k + 2) =
        (List.replicate before 0 ++ [e1, e2] ++ List.replicate k 0) ++ [0, 0] := by
      simp [window, List.replicate_succ', List.append_assoc]
    rw [hmask, getBlock_corrupt_rejected_iff build p s cmd hlen _ 0 0 (by simp; omega) rest,
      crc16Ccitt_append, crc16Ccitt_zeros_append, (word_eq_zero_iff 0 0).mpr ⟨rfl, rfl⟩]
    refine iff_of_true ?_ fun h => by omega
    intro h
    exact hne (crc16Ccitt_pair_eq_zero (crc16Ccitt_zeros_eq_zero h))

end

/-- A burst inside the payload of a motor command. -/
theorem get_block_rejects_payload_burst :
    (getBlock ⟨false, true⟩ (.idle 0) (serialCommManagerInit RP2040State.zero)
      ((corrupt (window 1 0x89 0xA1 2)
        (sendFramedPacket Command.setMotorLevel (some [0, 0]) 2)).map .byte ++ [])).Rejected :=
  (get_block_rejects_two_byte_bursts ⟨false, true⟩ (.idle 0) _ Command.setMotorLevel [0, 0]
    (by decide) 1 2 0x89 0xA1 rfl (.inl (by decide)) []).mpr (by decide)

/-- The same change one byte later makes a valid command for another motor level. -/
theorem get_block_accepts_seam_burst :
    let sent := sendFramedPacket Command.setMotorLevel (some [0, 0]) 2
    let r := getBlock ⟨false, true⟩ (.idle 0) (serialCommManagerInit RP2040State.zero)
      ((corrupt (window 2 0x89 0xA1 1) sent).map .byte)
    ¬ r.Rejected ∧ r.handled = [(Command.setMotorLevel, [0, 0x89])] := by
  intro sent r
  have hhandled : r.handled = [(Command.setMotorLevel, [0, 0x89])] := by
    rw [getBlock_handled]
    decide +kernel
  refine ⟨?_, hhandled⟩
  intro h
  rw [CallResult.Rejected, hhandled] at h
  cases h.1

end SrFirmware
