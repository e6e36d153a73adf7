import Mathlib.Data.List.Basic

/-! The CRC of `crc.c`. Machine words are bit vectors of the widths the code uses. -/

namespace SrFirmware

set_option autoImplicit false

abbrev Byte := BitVec 8
abbrev U16 := BitVec 16

/-- One turn of the inner loop. C shifts in `int` and cuts back to 16 bits on assignment. -/
def crc16Bit (crc : U16) : U16 :=
  if crc &&& 0x8000 ≠ 0 then (crc <<< 1) ^^^ 0x1021 else crc <<< 1

def crc16Byte (crc : U16) (b : Byte) : U16 :=
  Nat.repeat crc16Bit 8 (crc ^^^ (b.setWidth 16 <<< 8))

def crc16Ccitt (data : List Byte) (initial : U16) : U16 :=
  data.foldl crc16Byte initial

theorem crc16Ccitt_append (m n : List Byte) (c : U16) :
    crc16Ccitt (m ++ n) c = crc16Ccitt n (crc16Ccitt m c) := List.foldl_append

example : crc16Ccitt [0x31, 0x32, 0x33, 0x34, 0x35, 0x36, 0x37, 0x38, 0x39] 0xFFFF = 0x29B1 := by
  decide +kernel

end SrFirmware
