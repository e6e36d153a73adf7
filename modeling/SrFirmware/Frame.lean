import SrFirmware.LogRing

/-!
# Frames on the wire

The two transmit routines of `serial_comm_manager.c`, the encoder of the benchmark host
in `tools/benchmark/main.cpp`, and the frame of `PROTOCOL.md` that all three produce.
-/

namespace SrFirmware

set_option autoImplicit false

def startMarker : Byte := 0xFE

/-! Command identifiers and status codes. -/
namespace Command

def getLog : Byte := 0x00
def setMotorLevel : Byte := 0x01
def resetState : Byte := 0x02
def getState : Byte := 0x03
def getVersion : Byte := 0x06
def nack : Byte := 0xFC
def ack : Byte := 0xFD

end Command

def lowByte (x : U16) : Byte := (x &&& 0xFF).setWidth 8
def highByte (x : U16) : Byte := ((x >>> 8) &&& 0xFF).setWidth 8

/-- `(uint16_t)l1 | ((uint16_t)l2 << 8)` -/
def word (l1 l2 : Byte) : U16 := l1.setWidth 16 ||| (l2.setWidth 16 <<< 8)

/-- The bytes `data[0]` to `data[len - 1]`, or nothing for a null pointer or no length. -/
def pointedBytes (data : Option (List Byte)) (len : Nat) : List Byte :=
  match data with
  | some bytes => if len > 0 then bytes.take len else []
  | none => []

def sendFramedPacket (cmd : Byte) (data : Option (List Byte)) (len : Nat) : List Byte :=
  let totalPayloadLen : U16 := BitVec.ofNat 16 (len + 1)
  let lenBytes := [lowByte totalPayloadLen, highByte totalPayloadLen]
  let crc := crc16Ccitt lenBytes 0xFFFF
  let crc := crc16Ccitt [cmd] crc
  let crc := crc16Ccitt (pointedBytes data len) crc
  [startMarker] ++ lenBytes ++ [cmd] ++ pointedBytes data len ++ [lowByte crc, highByte crc]

/-- The bytes put on the wire and the ring left behind. -/
def sendLogPacket (b : CircularBufferLog) : List Byte × CircularBufferLog :=
  let totalPayloadLen : U16 := BitVec.ofNat 16 (rp2040GetByteCount b + 1)
  let lenBytes := [lowByte totalPayloadLen, highByte totalPayloadLen]
  let crc := crc16Ccitt lenBytes 0xFFFF
  let cmd := Command.getLog
  let crc := crc16Ccitt [cmd] crc
  let crc := rp2040GetCrc crc b
  let flushed := rp2040LogFlush b
  ([startMarker] ++ lenBytes ++ [Command.getLog] ++ flushed.1 ++ [lowByte crc, highByte crc],
    flushed.2)

namespace Benchmark

def crc16Ccitt (data : List Byte) (initial : U16) : U16 :=
  data.foldl
    (fun (crc : U16) (b : Byte) => Nat.repeat
      (fun crc : U16 => if crc &&& 0x8000 ≠ 0 then (crc <<< 1) ^^^ 0x1021 else crc <<< 1) 8
      (crc ^^^ (b.setWidth 16 <<< 8)))
    initial

def wrapPacket (cmd : Byte) (payload : List Byte) : List Byte :=
  let len : U16 := BitVec.ofNat 16 payload.length + 1
  let pkt := [startMarker, lowByte len, highByte len, cmd] ++ payload
  let lenBytes := [lowByte len, highByte len]
  let crc := crc16Ccitt lenBytes 0xFFFF
  let crc := crc16Ccitt [cmd] crc
  let crc := if payload.isEmpty then crc else crc16Ccitt payload crc
  pkt ++ [lowByte crc, highByte crc]

theorem crc16Ccitt_eq (data : List Byte) (initial : U16) :
    crc16Ccitt data initial = SrFirmware.crc16Ccitt data initial := rfl

end Benchmark

/-! ### Little-endian words -/

theorem toNat_lowByte (x : U16) : (lowByte x).toNat = x.toNat % 256 := by
  have hmask : x.toNat &&& 255 = x.toNat % 256 := Nat.and_two_pow_sub_one_eq_mod x.toNat 8
  change (x.toNat &&& 255) % 256 = x.toNat % 256
  rw [hmask]
  omega

theorem toNat_highByte (x : U16) : (highByte x).toNat = x.toNat / 256 := by
  have hmask : (x.toNat >>> 8) &&& 255 = (x.toNat >>> 8) % 256 :=
    Nat.and_two_pow_sub_one_eq_mod (x.toNat >>> 8) 8
  have hlt := x.isLt
  change ((x.toNat >>> 8) &&& 255) % 256 = x.toNat / 256
  rw [hmask, Nat.shiftRight_eq_div_pow]
  omega

theorem toNat_word (l1 l2 : Byte) : (word l1 l2).toNat = l1.toNat + 256 * l2.toNat := by
  have hor : l2.toNat <<< 8 + l1.toNat = l2.toNat <<< 8 ||| l1.toNat :=
    Nat.shiftLeft_add_eq_or_of_lt l1.isLt l2.toNat
  have h1 := l1.isLt
  have h2 := l2.isLt
  rw [Nat.shiftLeft_eq] at hor
  simp only [word, BitVec.toNat_or, BitVec.toNat_shiftLeft, BitVec.toNat_setWidth,
    Nat.shiftLeft_eq]
  have hl1 : l1.toNat < 2 ^ 16 := by omega
  have hl2 : l2.toNat < 2 ^ 16 := by omega
  have hshift : l2.toNat * 2 ^ 8 < 2 ^ 16 := by omega
  rw [Nat.mod_eq_of_lt hl1, Nat.mod_eq_of_lt hl2, Nat.mod_eq_of_lt hshift, Nat.or_comm, ← hor]
  omega

@[simp] theorem lowByte_word (l1 l2 : Byte) : lowByte (word l1 l2) = l1 := by
  apply BitVec.eq_of_toNat_eq
  rw [toNat_lowByte, toNat_word]
  omega

@[simp] theorem highByte_word (l1 l2 : Byte) : highByte (word l1 l2) = l2 := by
  apply BitVec.eq_of_toNat_eq
  rw [toNat_highByte, toNat_word]
  omega

@[simp] theorem word_low_high (x : U16) : word (lowByte x) (highByte x) = x := by
  apply BitVec.eq_of_toNat_eq
  rw [toNat_word, toNat_lowByte, toNat_highByte]
  omega

/-! ### The documented frame -/

def frameCrc (len : U16) (cmd : Byte) (payload : List Byte) : U16 :=
  crc16Ccitt (lowByte len :: highByte len :: cmd :: payload) 0xFFFF

/-- The frame format table of `PROTOCOL.md`. -/
def frame (cmd : Byte) (payload : List Byte) : List Byte :=
  let len : U16 := BitVec.ofNat 16 (payload.length + 1)
  let crc := frameCrc len cmd payload
  [startMarker, lowByte len, highByte len, cmd] ++ payload ++ [lowByte crc, highByte crc]

/-- What the same table asks of received bytes, field by field. -/
def WellFormed (bytes : List Byte) (cmd : Byte) (payload : List Byte) : Prop :=
  ∃ l1 l2 c1 c2, bytes = [startMarker, l1, l2, cmd] ++ payload ++ [c1, c2] ∧
    (word l1 l2).toNat = payload.length + 1 ∧
    word c1 c2 = crc16Ccitt (l1 :: l2 :: cmd :: payload) 0xFFFF

theorem frame_wellFormed {cmd : Byte} {payload : List Byte} (h : payload.length < 65535) :
    WellFormed (frame cmd payload) cmd payload := by
  refine ⟨_, _, _, _, rfl, ?_, ?_⟩
  · rw [word_low_high]
    simp
    omega
  · rw [word_low_high]
    rfl

theorem WellFormed.eq_frame {bytes payload : List Byte} {cmd : Byte}
    (h : WellFormed bytes cmd payload) : bytes = frame cmd payload := by
  obtain ⟨l1, l2, c1, c2, rfl, hlen, hcrc⟩ := h
  have hl : BitVec.ofNat 16 (payload.length + 1) = word l1 l2 := by
    rw [← hlen, BitVec.ofNat_toNat, BitVec.setWidth_eq]
  simp only [frame, frameCrc, hl, lowByte_word, highByte_word, ← hcrc]

theorem sendFramedPacket_eq (cmd : Byte) (payload : List Byte) :
    sendFramedPacket cmd (some payload) payload.length = frame cmd payload := by
  have hp : pointedBytes (some payload) payload.length = payload := by
    cases payload <;> simp [pointedBytes]
  simp only [sendFramedPacket, hp, ← crc16Ccitt_append]
  rfl

theorem sendFramedPacket_null (cmd : Byte) : sendFramedPacket cmd none 0 = frame cmd [] := by
  rw [← sendFramedPacket_eq cmd []]
  simp only [sendFramedPacket, pointedBytes, List.length_nil, Nat.lt_irrefl, if_false]

theorem wrapPacket_eq (cmd : Byte) (payload : List Byte) :
    Benchmark.wrapPacket cmd payload = frame cmd payload := by
  have hlen : BitVec.ofNat 16 payload.length + 1 = BitVec.ofNat 16 (payload.length + 1) := by
    simp [BitVec.ofNat_add]
  have hcrc : ∀ c, (if payload.isEmpty then c else crc16Ccitt payload c) =
      crc16Ccitt payload c := by
    intro c
    cases payload <;> rfl
  simp only [Benchmark.wrapPacket, hlen, Benchmark.crc16Ccitt_eq, hcrc]
  simp only [← crc16Ccitt_append]
  rfl

/-! ### The three passes over the ring -/

theorem rp2040GetByteCount_eq {b : CircularBufferLog} (h : Wf b) :
    rp2040GetByteCount b = (live b).flatten.length := by
  rw [← payloadBytes_eq_length_flatten, ← h.bytes, rp2040GetByteCount]

theorem rp2040LogFlush_printed_flatten {b : CircularBufferLog} (h : Wf b)
    (hnul : ∀ line ∈ live b, NulFree line) : (rp2040LogFlush b).1 = (live b).flatten := by
  rw [rp2040LogFlush_printed h, flatMap_printed_of_nulFree hnul]

/-- The streaming encoder produces the documented frame of the live lines, and leaves the
ring as a flush does. -/
theorem sendLogPacket_eq {b : CircularBufferLog} (h : Wf b)
    (hnul : ∀ line ∈ live b, NulFree line) :
    (sendLogPacket b).1 = frame Command.getLog (live b).flatten := by
  simp only [sendLogPacket, rp2040GetByteCount_eq h, rp2040LogFlush_printed_flatten h hnul,
    rp2040GetCrc_eq, ← crc16Ccitt_append]
  rfl

/-- The streaming encoder emits what the generic one would emit for the concatenated live
lines: the byte counter, the checksum pass and the printing pass agree. -/
theorem send_log_packet_streams_the_live_lines {b : CircularBufferLog} (h : Wf b)
    (hnul : ∀ line ∈ live b, NulFree line) :
    let lines := (live b).flatten
    let printed := (rp2040LogFlush b).1
    (sendLogPacket b).1 = sendFramedPacket Command.getLog (some lines) lines.length ∧
      (BitVec.ofNat 16 (rp2040GetByteCount b + 1)).toNat = printed.length + 1 ∧
      ∀ crc, rp2040GetCrc crc b = crc16Ccitt printed crc := by
  have hprinted := rp2040LogFlush_printed_flatten h hnul
  have hcount := rp2040GetByteCount_eq h
  have hmax : rp2040GetByteCount b ≤ 65534 := h.bytes_le
  refine ⟨?_, ?_, ?_⟩
  · rw [sendFramedPacket_eq, sendLogPacket_eq h hnul]
  · rw [BitVec.toNat_ofNat, hprinted, ← hcount, Nat.mod_eq_of_lt (by omega)]
  · intro crc
    rw [hprinted, rp2040GetCrc_eq]

/-- Three lines, one of them empty, on a ring that wraps behind the first. -/
theorem send_log_packet_streams_wrapped_lines :
    let b := rp2040LogStore 2 [0x47] (rp2040LogStore 1 [] (rp2040LogStore 3 [0x4F, 0x4B]
      { rp2040LogInit with head := 1027, tail := 1027 }))
    (sendLogPacket b).1 = sendFramedPacket Command.getLog (some [0x4F, 0x4B, 0x47]) 3 := by
  intro b
  have hslots : Lib.slots logBufferLineCount b.head b.count = [1027, 0, 1] := by decide
  have hlive : live b = [[0x4F, 0x4B], [], [0x47]] := by decide
  have hstored : ∀ i ∈ [1027, 0, 1], Stored (b.logArray i) (b.logArrayLineSize i) := by
    refine List.forall_mem_cons.mpr ⟨⟨by decide, by decide⟩, List.forall_mem_cons.mpr
      ⟨⟨by decide, by decide⟩, List.forall_mem_singleton.mpr ⟨by decide, by decide⟩⟩⟩
  have hwf : Wf b := by
    refine ⟨by decide, by decide, by decide, hslots ▸ hstored, ?_, by decide⟩
    rw [hlive]
    decide
  have hnul : ∀ line ∈ live b, NulFree line := by
    rw [hlive]
    simp [NulFree]
  have h := (send_log_packet_streams_the_live_lines hwf hnul).1
  rw [hlive] at h
  exact h

theorem sendLogPacket_ring (b : CircularBufferLog) :
    (sendLogPacket b).2 = (rp2040LogFlush b).2 := rfl

end SrFirmware
