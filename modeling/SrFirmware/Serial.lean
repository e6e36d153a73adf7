import SrFirmware.LogHistory

/-!
# The command loop of `serial_comm_manager.c`

One `getBlock` call reads events from the serial input and answers. What the rest of the
firmware does during that call (`get_state`, the clock) is the `Platform` of the call.
An exhausted input keeps timing out.
-/

namespace SrFirmware

open Lib
set_option autoImplicit false

def maxPayloadSize : Nat := 1024

@[simp] theorem maxPayloadSize_eq : maxPayloadSize = 1024 := rfl

/-! ### The packed answer -/

structure RP2040State where
  controlValuesLeft : Byte
  controlValuesRight : Byte
  faultsLeft : Byte
  faultsRight : Byte
  encoderCountsLeft : BitVec 32
  encoderCountsRight : BitVec 32
  voltage : U16
  safetyStatus : Byte
  temperature : U16
  stateOfHealth : Byte
  flags : U16
  max77976ChgDetails : BitVec 32
  wirelessChargerAttached : Byte
  usbChargerVoltage : U16
  wirelessChargerVrect : U16
  deriving DecidableEq

def RP2040State.zero : RP2040State := ⟨0, 0, 0, 0, 0, 0, 0, 0, 0, 0, 0, 0, 0, 0, 0⟩

/-- A field of `n` bytes in the packed little-endian layout. -/
def littleEndian (n : Nat) {w : Nat} (x : BitVec w) : List Byte :=
  (List.range n).map fun i => (x >>> (8 * i)).setWidth 8

@[simp] theorem length_littleEndian (n : Nat) {w : Nat} (x : BitVec w) :
    (littleEndian n x).length = n := by simp [littleEndian]

def RP2040State.toBytes (s : RP2040State) : List Byte :=
  [s.controlValuesLeft, s.controlValuesRight, s.faultsLeft, s.faultsRight] ++
    littleEndian 4 s.encoderCountsLeft ++ littleEndian 4 s.encoderCountsRight ++
    littleEndian 2 s.voltage ++ [s.safetyStatus] ++ littleEndian 2 s.temperature ++
    [s.stateOfHealth] ++ littleEndian 2 s.flags ++
    littleEndian 4 s.max77976ChgDetails ++ [s.wirelessChargerAttached] ++
    littleEndian 2 s.usbChargerVoltage ++ littleEndian 2 s.wirelessChargerVrect

theorem RP2040State.length_toBytes (s : RP2040State) : s.toBytes.length = 29 := by
  simp [RP2040State.toBytes]

structure LatencyMeasurements where
  t4TimestampUs : BitVec 64
  t5TimestampUs : BitVec 64

structure OutgoingPacketToAndroid where
  state : RP2040State
  telemetry : LatencyMeasurements

/-- The preprocessor switches that change what the command loop does. -/
structure Build where
  enableLatencyBenchmark : Bool
  boardPico : Bool

/-- Without `ENABLE_LATENCY_BENCHMARK` the packet has no telemetry member. -/
def OutgoingPacketToAndroid.toBytes (build : Build) (o : OutgoingPacketToAndroid) : List Byte :=
  o.state.toBytes ++
    if build.enableLatencyBenchmark then
      littleEndian 8 o.telemetry.t4TimestampUs ++ littleEndian 8 o.telemetry.t5TimestampUs
    else []

theorem OutgoingPacketToAndroid.length_toBytes_le (build : Build) (o : OutgoingPacketToAndroid) :
    (o.toBytes build).length ≤ 45 := by
  unfold OutgoingPacketToAndroid.toBytes
  split <;> simp [RP2040State.length_toBytes]

structure Version where
  versionMajor : Byte
  versionMinor : Byte
  versionPatch : Byte

def fwVersion : Version := ⟨0x01, 0x02, 0x00⟩

def Version.toBytes (v : Version) : List Byte := [v.versionMajor, v.versionMinor, v.versionPatch]

/-! ### State and surroundings -/

inductive LogReach (logLevel : Int) : CircularBufferLog → CircularBufferLog → Prop where
  | refl (b : CircularBufferLog) : LogReach logLevel b b
  | log {a b c : CircularBufferLog} {fuel : Nat} {level : Int} {text : List Byte} :
      NulFree text → rp2040Log fuel logLevel level text a = some b → LogReach logLevel b c →
      LogReach logLevel a c

/-- The rings reachable from `rp2040_log_init` by logging NUL-free texts and draining. -/
inductive ReachableRing (logLevel : Int) : CircularBufferLog → Prop where
  | init : ReachableRing logLevel rp2040LogInit
  | log {a b : CircularBufferLog} : ReachableRing logLevel a → LogReach logLevel a b →
      ReachableRing logLevel b
  | drain {b : CircularBufferLog} : ReachableRing logLevel b →
      ReachableRing logLevel (rp2040LogFlush b).2

/-- What the rest of the firmware answers during one call: the two readings of
`time_us_64`, and `get_state`, which fills any fields and reaches the log only through
`rp2040_log`. -/
structure Platform (logLevel : Int) where
  t4 : BitVec 64
  t5 : BitVec 64
  getState : CircularBufferLog → RP2040State → CircularBufferLog × RP2040State
  logsOnly : ∀ log state, LogReach logLevel log (getState log state).1

def Platform.idle (logLevel : Int) : Platform logLevel :=
  ⟨0, 0, fun log state => (log, state), fun log _ => .refl log⟩

structure MotorControl where
  left : Byte
  right : Byte
  deriving DecidableEq

def setMotorLevels (build : Build) (state : RP2040State) (motors : MotorControl) : MotorControl :=
  if build.boardPico then motors else ⟨state.controlValuesLeft, state.controlValuesRight⟩

structure SerialComm where
  outgoing : OutgoingPacketToAndroid
  rxBuffer : Vector Byte maxPayloadSize
  log : CircularBufferLog
  motors : MotorControl

def serialCommManagerInit (rp2040State : RP2040State) : SerialComm :=
  ⟨⟨rp2040State, ⟨0, 0⟩⟩, Vector.replicate maxPayloadSize 0, rp2040LogInit, ⟨0, 0⟩⟩

inductive Input where
  | byte (b : Byte)
  | timeout
  deriving DecidableEq

/-- The calls out of the file that change something, in the order they are made. -/
inductive Effect where
  | setMotorLevels (left right : Byte)
  | getState
  | sendLogPacket
  deriving DecidableEq

structure Handled where
  comm : SerialComm
  out : List Byte
  effects : List Effect

/-- What one `get_block` call leaves: its state, the unread input, the bytes transmitted,
the calls of `handle_packet` and their effects. -/
structure CallResult where
  comm : SerialComm
  input : List Input
  out : List Byte
  handled : List (Byte × List Byte)
  effects : List Effect

/-! ### Dispatch -/

section
variable {logLevel : Int} (build : Build) (platform : Platform logLevel)

def handlePacket (s : SerialComm) (cmd : Byte) (payload : List Byte) : Handled :=
  let payloadLen := payload.length
  let nacked : Handled := ⟨s, sendFramedPacket Command.nack none 0, []⟩
  if (cmd = Command.setMotorLevel ∧ payloadLen ≠ 2) ∨
      ((cmd = Command.getLog ∨ cmd = Command.getState ∨ cmd = Command.getVersion ∨
        cmd = Command.resetState) ∧ payloadLen ≠ 0) then
    nacked
  else if cmd = Command.getLog then
    let sent := sendLogPacket s.log
    ⟨{ s with log := sent.2 }, sent.1, [.sendLogPacket]⟩
  else if cmd = Command.setMotorLevel then
    if payloadLen = 2 then
      let left := payload.getD 0 0
      let right := payload.getD 1 0
      let cleared := { RP2040State.zero with
        controlValuesLeft := left
        controlValuesRight := right }
      let motors := setMotorLevels build cleared s.motors
      let filled := platform.getState s.log cleared
      let telemetry := if build.enableLatencyBenchmark then
          { s.outgoing.telemetry with t5TimestampUs := platform.t5 }
        else s.outgoing.telemetry
      let outgoing : OutgoingPacketToAndroid := ⟨filled.2, telemetry⟩
      let bytes := outgoing.toBytes build
      ⟨{ s with outgoing := outgoing, log := filled.1, motors := motors },
        sendFramedPacket Command.setMotorLevel (some bytes) bytes.length,
        [.setMotorLevels left right, .getState]⟩
    else nacked
  else if cmd = Command.getState then
    let filled := platform.getState s.log RP2040State.zero
    let outgoing : OutgoingPacketToAndroid := ⟨filled.2, s.outgoing.telemetry⟩
    let bytes := outgoing.toBytes build
    ⟨{ s with outgoing := outgoing, log := filled.1 },
      sendFramedPacket Command.getState (some bytes) bytes.length, [.getState]⟩
  else if cmd = Command.getVersion then
    ⟨s, sendFramedPacket Command.getVersion (some fwVersion.toBytes) fwVersion.toBytes.length, []⟩
  else if cmd = Command.resetState then
    ⟨s, sendFramedPacket Command.ack none 0, []⟩
  else nacked

/-! ### Reception -/

/-- `none` is `PICO_ERROR_TIMEOUT`. -/
def readByte : List Input → Option Byte × List Input
  | [] => (none, [])
  | .timeout :: rest => (none, rest)
  | .byte b :: rest => (some b, rest)

def discardBytes : Nat → List Input → List Input
  | 0, input => input
  | count + 1, input =>
    match readByte input with
    | (none, rest) => rest
    | (some _, rest) => discardBytes count rest

/-- The loop that fills `rx_buffer` from index `i`; `false` when a read timed out. -/
def readPayload (i : Nat) :
    Nat → Vector Byte maxPayloadSize → List Input →
      Bool × Vector Byte maxPayloadSize × List Input
  | 0, buffer, input => (true, buffer, input)
  | n + 1, buffer, input =>
    match readByte input with
    | (none, rest) => (false, buffer, rest)
    | (some b, rest) => readPayload (i + 1) n (buffer.setIfInBounds i b) rest

def SerialComm.nackResult (s : SerialComm) (input : List Input) : CallResult :=
  ⟨s, input, sendFramedPacket Command.nack none 0, [], []⟩

/-- The first timestamp of the latency build, taken at every start marker. -/
def SerialComm.stampT4 (s : SerialComm) : SerialComm :=
  if build.enableLatencyBenchmark then
    { s with outgoing := { s.outgoing with
        telemetry := { s.outgoing.telemetry with t4TimestampUs := platform.t4 } } }
  else s

/-- The checksum comparison and what follows it, once the whole frame has been read. -/
def processFrame (s : SerialComm) (input : List Input) (l1 l2 c1 c2 : Byte) (total : Nat) :
    CallResult :=
  let receivedCrc := word c1 c2
  let body := s.rxBuffer.toList.take total
  let calculatedCrc := crc16Ccitt [l1, l2] 0xFFFF
  let calculatedCrc := crc16Ccitt body calculatedCrc
  if calculatedCrc ≠ receivedCrc then s.nackResult input
  else
    let cmd := body.getD 0 0
    let payload := body.drop 1
    let handled := handlePacket build platform s cmd payload
    ⟨handled.comm, input, handled.out, [(cmd, payload)], handled.effects⟩

def readFrame (s : SerialComm) (input : List Input) (l1 l2 : Byte) : CallResult :=
  let total := (word l1 l2).toNat
  if total = 0 ∨ total > maxPayloadSize then
    -- the oversized or empty frame is still drained to its end
    s.nackResult (discardBytes (total + 2) input)
  else
    match readPayload 0 total s.rxBuffer input with
    | (false, buffer, input) => { s with rxBuffer := buffer }.nackResult input
    | (true, buffer, input) =>
      let s := { s with rxBuffer := buffer }
      match readByte input with
      | (none, input) => s.nackResult input
      | (some c1, input) =>
        match readByte input with
        | (none, input) => s.nackResult input
        | (some c2, input) => processFrame build platform s input l1 l2 c1 c2 total

def getBlock (s : SerialComm) (input : List Input) : CallResult :=
  match readByte input with
  | (none, input) => ⟨s, input, [], [], []⟩
  | (some c, input) =>
    if c ≠ startMarker then ⟨s, input, [], [], []⟩
    else
      let s := s.stampT4 build platform
      match readByte input with
      | (none, input) => s.nackResult input
      | (some l1, input) =>
        match readByte input with
        | (none, input) => s.nackResult input
        | (some l2, input) => readFrame build platform s input l1 l2

end

/-- Repeated calls, one per platform, each on the input the one before left. -/
def getBlocks {logLevel : Int} (build : Build) :
    List (Platform logLevel) → SerialComm → List Input → List CallResult
  | [], _, _ => []
  | p :: ps, s, input =>
    let r := getBlock build p s input
    r :: getBlocks build ps r.comm r.input

end SrFirmware
