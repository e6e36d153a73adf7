import SrFirmware.Receive

/-!
# The requests of `PROTOCOL.md`

`handle_packet` as a table: what each documented request is answered with, and what it does.
-/

namespace SrFirmware

open Lib
set_option autoImplicit false

/-! ### The command table -/

/-- The requests of `PROTOCOL.md`, with everything else in one case. -/
inductive Request where
  | getLog
  | setMotorLevel (left right : Byte)
  | getState
  | getVersion
  | resetState
  | unsupported
  deriving DecidableEq

def Request.ofPacket : Byte × List Byte → Request
  | (cmd, []) =>
    if cmd = Command.getLog then .getLog
    else if cmd = Command.getState then .getState
    else if cmd = Command.getVersion then .getVersion
    else if cmd = Command.resetState then .resetState
    else .unsupported
  | (cmd, [left, right]) =>
    if cmd = Command.setMotorLevel then .setMotorLevel left right else .unsupported
  | _ => .unsupported

namespace Request

def answer : Request → Byte
  | .getLog => Command.getLog
  | .setMotorLevel _ _ => Command.setMotorLevel
  | .getState => Command.getState
  | .getVersion => Command.getVersion
  | .resetState => Command.ack
  | .unsupported => Command.nack

def effects : Request → List Effect
  | .getLog => [.sendLogPacket]
  | .setMotorLevel left right => [.setMotorLevels left right, .getState]
  | .getState => [.getState]
  | _ => []

def motorPair : Request → Option (Byte × Byte)
  | .setMotorLevel left right => some (left, right)
  | _ => none

end Request

def Effect.motorPair : Effect → Option (Byte × Byte)
  | .setMotorLevels left right => some (left, right)
  | _ => none

theorem Request.effects_motorPair (r : Request) :
    r.effects.filterMap Effect.motorPair = r.motorPair.toList := by
  cases r <;> rfl

section
variable {logLevel : Int} (build : Build) (p : Platform logLevel)

def fillState (s : SerialComm) (cleared : RP2040State) (telemetry : LatencyMeasurements) :
    SerialComm :=
  { s with
    outgoing := ⟨(p.getState s.log cleared).2, telemetry⟩
    log := (p.getState s.log cleared).1 }

/-- `handle_packet` by request. -/
def respond (s : SerialComm) : Request → Handled
  | .getLog =>
    ⟨{ s with log := (sendLogPacket s.log).2 }, (sendLogPacket s.log).1, [.sendLogPacket]⟩
  | .setMotorLevel left right =>
    let cleared := { RP2040State.zero with controlValuesLeft := left, controlValuesRight := right }
    let telemetry := if build.enableLatencyBenchmark then
        { s.outgoing.telemetry with t5TimestampUs := p.t5 }
      else s.outgoing.telemetry
    let filled := { fillState p s cleared telemetry with
      motors := setMotorLevels build cleared s.motors }
    ⟨filled, frame Command.setMotorLevel (filled.outgoing.toBytes build),
      [.setMotorLevels left right, .getState]⟩
  | .getState =>
    let filled := fillState p s RP2040State.zero s.outgoing.telemetry
    ⟨filled, frame Command.getState (filled.outgoing.toBytes build), [.getState]⟩
  | .getVersion => ⟨s, frame Command.getVersion fwVersion.toBytes, []⟩
  | .resetState => ⟨s, frame Command.ack [], []⟩
  | .unsupported => ⟨s, frame Command.nack [], []⟩

theorem handlePacket_eq_respond (s : SerialComm) (cmd : Byte) (payload : List Byte) :
    handlePacket build p s cmd payload = respond build p s (.ofPacket (cmd, payload)) := by
  unfold handlePacket
  simp only [sendFramedPacket_eq, sendFramedPacket_null]
  by_cases hset : cmd = Command.setMotorLevel
  · subst hset
    match payload with
    | [] | [left, right] | [_] => rfl
    | _ :: _ :: _ :: _ => simp [Request.ofPacket, respond]
  by_cases hempty : cmd = Command.getLog ∨ cmd = Command.getState ∨ cmd = Command.getVersion ∨
      cmd = Command.resetState
  · rcases hempty with rfl | rfl | rfl | rfl
    all_goals
      match payload with
      | [] | [_, _] | [_] | _ :: _ :: _ :: _ => rfl
  · obtain ⟨hlog, hstate, hversion, hreset⟩ : cmd ≠ Command.getLog ∧ cmd ≠ Command.getState ∧
        cmd ≠ Command.getVersion ∧ cmd ≠ Command.resetState := by simpa using hempty
    have hunsupported : Request.ofPacket (cmd, payload) = .unsupported := by
      unfold Request.ofPacket
      split <;> simp_all
    rw [hunsupported]
    simp [hlog, hset, hstate, hversion, hreset, respond]

theorem respond_effects (s : SerialComm) (r : Request) :
    (respond build p s r).effects = r.effects := by
  cases r <;> rfl

theorem respond_log (s : SerialComm) (r : Request) :
    if .sendLogPacket ∈ r.effects then
      (respond build p s r).comm.log = (rp2040LogFlush s.log).2
    else LogReach logLevel s.log (respond build p s r).comm.log := by
  cases r with
  | getLog => exact sendLogPacket_ring s.log
  | setMotorLevel left right => exact p.logsOnly _ _
  | getState => exact p.logsOnly _ _
  | getVersion | resetState | unsupported => exact .refl _

/-- The answer carries the command byte of the request, and none of NACK, ACK and
GET_VERSION comes with a change of state. -/
theorem respond_out (s : SerialComm) (r : Request) :
    (respond build p s r).out[3]? = some r.answer ∧
      (r.answer = Command.nack ∨ r.answer = Command.ack ∨ r.answer = Command.getVersion →
        (respond build p s r).comm = s) := by
  cases r with
  | getLog | getState => exact ⟨rfl, fun h => absurd h (by decide)⟩
  | setMotorLevel left right =>
    exact ⟨rfl, fun h => absurd h (by simp only [Request.answer]; decide)⟩
  | getVersion | resetState | unsupported => exact ⟨rfl, fun _ => rfl⟩

theorem respond_motors (s : SerialComm) (r : Request) (h : r.motorPair = none) :
    (respond build p s r).comm.motors = s.motors := by
  cases r with
  | setMotorLevel left right => cases h
  | getLog | getState | getVersion | resetState | unsupported => rfl

/-- The answer to any request over a log that a GET_LOG frame can carry. -/
theorem respond_wellFormed (s : SerialComm) (r : Request) (hwf : Wf s.log)
    (hnul : ∀ line ∈ live s.log, NulFree line) :
    ∃ payload, WellFormed (respond build p s r).out r.answer payload := by
  cases r with
  | getLog =>
    have hlen : (live s.log).flatten.length < 65535 := by
      rw [← payloadBytes_eq_length_flatten, ← hwf.bytes]
      exact Nat.lt_succ_of_le hwf.bytes_le
    refine ⟨(live s.log).flatten, ?_⟩
    rw [respond, sendLogPacket_eq hwf hnul]
    exact frame_wellFormed hlen
  | setMotorLevel left right =>
    exact ⟨_, frame_wellFormed (Nat.lt_of_le_of_lt (OutgoingPacketToAndroid.length_toBytes_le _ _)
      (by decide))⟩
  | getState =>
    exact ⟨_, frame_wellFormed (Nat.lt_of_le_of_lt (OutgoingPacketToAndroid.length_toBytes_le _ _)
      (by decide))⟩
  | getVersion => exact ⟨_, frame_wellFormed (by decide)⟩
  | resetState => exact ⟨_, frame_wellFormed (by decide)⟩
  | unsupported => exact ⟨_, frame_wellFormed (by decide)⟩

end

end SrFirmware
