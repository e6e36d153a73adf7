import SrFirmware.Crc
import SrFirmware.Lib.Ring

/-!
# The log ring of `rp2040_log.c`

The ring build (no `LOGGER_UART`). Sixteen-bit counters are naturals with the wrap
written out; a slot is its 128 characters, terminator and stale tail included, because
the readers rely on the terminator. The eviction loop has fuel, and `none` means that it
is still spinning: `rp2040LogDropOldest` does nothing on an empty ring.
-/

namespace SrFirmware

open Lib
set_option autoImplicit false

def logBufferLineCount : Nat := 1028
def logBufferCharLimit : Nat := 128
def uint16Max : Nat := 65535

@[simp] theorem logBufferLineCount_eq : logBufferLineCount = 1028 := rfl
@[simp] theorem logBufferCharLimit_eq : logBufferCharLimit = 128 := rfl
@[simp] theorem uint16Max_eq : uint16Max = 65535 := rfl

structure CircularBufferLog where
  logArray : Nat → List Byte
  logArrayLineSize : Nat → Nat
  count : Nat
  byteCount : Nat
  head : Nat
  tail : Nat

/-- C's `vsnprintf (buf, n, ..)` for an already formatted text: at most `n - 1` characters
and a terminator, the rest of the buffer untouched. -/
def vsnprintf (buf : List Byte) (n : Nat) (text : List Byte) : List Byte :=
  if n = 0 then buf
  else text.take (n - 1) ++ 0 :: buf.drop ((text.take (n - 1)).length + 1)

/-- What `printf ("%.*s", precision, s)` prints: up to the precision or the terminator. -/
def printfPrecision (precision : Nat) (s : List Byte) : List Byte :=
  (s.take precision).takeWhile (· ≠ 0)

def rp2040LogPayloadSize (lineSize : Nat) : Nat := if lineSize > 0 then lineSize - 1 else 0

def rp2040LogBufferIsEmpty (b : CircularBufferLog) : Bool := b.count == 0

def rp2040LogDropOldest (b : CircularBufferLog) : CircularBufferLog :=
  if rp2040LogBufferIsEmpty b then b
  else
    let payloadSize := rp2040LogPayloadSize (b.logArrayLineSize b.head)
    let byteCount := if payloadSize > b.byteCount then 0 else b.byteCount - payloadSize
    let head := (b.head + 1) % logBufferLineCount
    let count := (b.count + 65535) % 65536
    { b with
      byteCount := byteCount
      logArrayLineSize := Function.update b.logArrayLineSize b.head 0
      head := head
      count := count
      tail := if count = 0 then head else b.tail }

def rp2040LogMakeRoom : Nat → Nat → CircularBufferLog → Option CircularBufferLog
  | 0, _, _ => none
  | fuel + 1, payloadSize, b =>
    if b.count = logBufferLineCount ∨ b.byteCount + payloadSize > uint16Max - 1 then
      rp2040LogMakeRoom fuel payloadSize (rp2040LogDropOldest b)
    else some b

def rp2040LogInit : CircularBufferLog where
  logArray := fun _ => List.replicate logBufferCharLimit 0
  logArrayLineSize := fun _ => 0
  count := 0
  byteCount := 0
  head := 0
  tail := 0

/-- The end of `rp2040_log`, once there is room: format into the tail slot and account for it. -/
def rp2040LogStore (len : Nat) (text : List Byte) (b : CircularBufferLog) : CircularBufferLog :=
  { b with
    logArray := Function.update b.logArray b.tail (vsnprintf (b.logArray b.tail) len text)
    logArrayLineSize := Function.update b.logArrayLineSize b.tail len
    byteCount := (b.byteCount + rp2040LogPayloadSize len) % 65536
    count := (b.count + 1) % 65536
    tail := (b.tail + 1) % logBufferLineCount }

/-- `logLevel` is the build's `LOG_LEVEL`; `text` is the formatted message. -/
def rp2040Log (fuel : Nat) (logLevel level : Int) (text : List Byte) (b : CircularBufferLog) :
    Option CircularBufferLog :=
  if level < logLevel then some b
  else
    let len := if text.length + 1 > logBufferCharLimit then logBufferCharLimit
      else text.length + 1
    (rp2040LogMakeRoom fuel (rp2040LogPayloadSize len) b).map (rp2040LogStore len text)

def rp2040GetByteCount (b : CircularBufferLog) : Nat := b.byteCount

def rp2040GetCrc (initialCrc : U16) (b : CircularBufferLog) : U16 :=
  (slots logBufferLineCount b.head b.count).foldl
    (fun crc current =>
      let size := b.logArrayLineSize current
      if size > 1 then crc16Ccitt ((b.logArray current).take (size - 1)) crc else crc)
    initialCrc

/-- What the loop of `rp2040_log_flush` prints. -/
def rp2040LogPrinted (b : CircularBufferLog) : List Byte :=
  (slots logBufferLineCount b.head b.count).flatMap fun index =>
    let lineSize := b.logArrayLineSize index
    if lineSize > 0 then printfPrecision lineSize (b.logArray index) else []

/-- The bytes printed and the ring left behind. -/
def rp2040LogFlush (b : CircularBufferLog) : List Byte × CircularBufferLog :=
  if rp2040LogBufferIsEmpty b then ([], b)
  else (rp2040LogPrinted b, { b with head := 0, tail := 0, count := 0, byteCount := 0 })

end SrFirmware
