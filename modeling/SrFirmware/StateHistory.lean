import SrFirmware.CommandLoop
import SrFirmware.Telemetry

/-!
# State answers after a history

Two histories of `get_block` calls, then one state request under the same readings and clock.
-/

namespace SrFirmware

open Telemetry (StateRequest)
set_option autoImplicit false

/-- A call of `get_block`: what it finds on the line, and what the rest of the firmware
answers meanwhile. -/
structure Reception (logLevel : Int) where
  platform : Platform logLevel
  input : List Input

/-- The surroundings of a state request: what `get_state` makes of a cleared state is a
function of the devices. -/
structure Readings (logLevel : Int) extends Platform logLevel where
  ofDevices : ∀ log log' state, (getState log state).2 = (getState log' state).2

section
variable {logLevel : Int} (build : Build) (initial : RP2040State)

def afterHistory (history : List (Reception logLevel)) : SerialComm :=
  history.foldl (fun s r => (getBlock build r.platform s r.input).comm)
    (serialCommManagerInit initial)

def requestInput (request : StateRequest) : List Input :=
  (sendFramedPacket request.cmd (some request.payload) request.payload.length).map .byte

/-- What the firmware puts on the wire for a request that comes after a history. -/
def stateAnswer (p : Readings logLevel) (request : StateRequest)
    (history : List (Reception logLevel)) (rest : List Input) : List Byte :=
  (getBlock build p.toPlatform (afterHistory build initial history)
    (requestInput request ++ rest)).out

def Reception.setsMotors (r : Reception logLevel) : Bool :=
  ((scan r.input).1.request.bind fun q => (Request.ofPacket q).motorPair).isSome

/-- The clock at the last motor command of a history. -/
def motorTimestamp (history : List (Reception logLevel)) : BitVec 64 :=
  history.foldl (fun t r => if r.setsMotors then r.platform.t5 else t) 0

/-! ### What a history leaves -/

@[simp] theorem SerialComm.stampT4_t5 (p : Platform logLevel) (s : SerialComm) :
    (s.stampT4 build p).outgoing.telemetry.t5TimestampUs =
      s.outgoing.telemetry.t5TimestampUs := by
  unfold SerialComm.stampT4
  split <;> rfl

theorem respond_t5 (p : Platform logLevel) (s : SerialComm) (r : Request) :
    (respond build p s r).comm.outgoing.telemetry.t5TimestampUs =
      if build.enableLatencyBenchmark ∧ r.motorPair.isSome then p.t5
      else s.outgoing.telemetry.t5TimestampUs := by
  cases r with
  | setMotorLevel left right =>
    cases hb : build.enableLatencyBenchmark <;> simp [respond, fillState, Request.motorPair, hb]
  | getLog | getState | getVersion | resetState | unsupported =>
    simp [respond, fillState, Request.motorPair]

theorem getBlock_t5 (s : SerialComm) (r : Reception logLevel) :
    (getBlock build r.platform s r.input).comm.outgoing.telemetry.t5TimestampUs =
      if build.enableLatencyBenchmark ∧ r.setsMotors then r.platform.t5
      else s.outgoing.telemetry.t5TimestampUs := by
  obtain ⟨v, hv⟩ := getBlock_serve build r.platform s r.input
  rw [hv, Reception.setsMotors]
  obtain ⟨hitem, h⟩ | ⟨-, hreq, h⟩ | ⟨q, hreq, h⟩ :=
    serve_cases build r.platform s (scan r.input).1 (scan r.input).2
  · rw [h, hitem]
    simp [CallResult.withBuffer, SerialComm.withBuffer, Item.request]
  · rw [h, hreq]
    simp [CallResult.withBuffer, SerialComm.withBuffer, SerialComm.nackResult]
  · rw [h, hreq]
    simp [CallResult.withBuffer, SerialComm.withBuffer, respond_t5]

theorem afterHistory_t5 (hb : build.enableLatencyBenchmark = true)
    (history : List (Reception logLevel)) :
    (afterHistory build initial history).outgoing.telemetry.t5TimestampUs =
      motorTimestamp history := by
  have hrun : ∀ s : SerialComm,
      (history.foldl (fun s r => (getBlock build r.platform s r.input).comm)
        s).outgoing.telemetry.t5TimestampUs =
      history.foldl (fun t r => if r.setsMotors then r.platform.t5 else t)
        s.outgoing.telemetry.t5TimestampUs := by
    induction history with
    | nil => exact fun s => rfl
    | cons r history ih =>
      intro s
      rw [List.foldl_cons, List.foldl_cons, ih, getBlock_t5]
      simp [hb]
  exact hrun _

/-! ### The answer -/

theorem getBlock_requestInput (p : Platform logLevel) (s : SerialComm) (request : StateRequest)
    (rest : List Input) :
    (getBlock build p s (requestInput request ++ rest)).out =
      (respond build p (s.stampT4 build p) (.ofPacket (request.cmd, request.payload))).out := by
  have hlen : request.payload.length ≤ 1023 := by
    cases request <;> simp [StateRequest.payload]
  have hscan : (scan (requestInput request ++ rest)).1.request =
      some (request.cmd, request.payload) := by
    rw [scan_request_iff, requestInput, sendFramedPacket_eq]
    exact ⟨hlen, List.prefix_append _ _⟩
  rw [getBlock_out]
  obtain ⟨hitem, -⟩ | ⟨-, hreq, -⟩ | ⟨q, hreq, h⟩ := serve_cases build p s
    (scan (requestInput request ++ rest)).1 (scan (requestInput request ++ rest)).2
  · rw [hitem] at hscan
    cases hscan
  · rw [hscan] at hreq
    cases hreq
  · rw [hscan] at hreq
    obtain rfl := Option.some.inj hreq
    rw [h]

/-- The packet of an answer, when the second timestamp was `t5` before the request. -/
def Readings.packet (p : Readings logLevel) (request : StateRequest) (t5 : BitVec 64) :
    OutgoingPacketToAndroid :=
  ⟨(p.getState rp2040LogInit request.cleared).2, p.t4,
    match request with
    | .getState => t5
    | .setMotorLevel _ _ => p.t5⟩

theorem respond_stateRequest (p : Platform logLevel) (s : SerialComm) (request : StateRequest) :
    (respond build p s (.ofPacket (request.cmd, request.payload))).out =
      frame request.cmd (OutgoingPacketToAndroid.toBytes build
        ⟨(p.getState s.log request.cleared).2, match request with
          | .getState => s.outgoing.telemetry
          | .setMotorLevel _ _ => if build.enableLatencyBenchmark then
              { s.outgoing.telemetry with t5TimestampUs := p.t5 }
            else s.outgoing.telemetry⟩) := by
  cases request <;> rfl

theorem stateAnswer_eq (p : Readings logLevel) (request : StateRequest)
    (history : List (Reception logLevel)) (rest : List Input) :
    stateAnswer build initial p request history rest =
      frame request.cmd ((p.packet request (motorTimestamp history)).toBytes build) := by
  rw [stateAnswer, getBlock_requestInput, respond_stateRequest]
  generalize hs : afterHistory build initial history = s
  rw [p.ofDevices _ rp2040LogInit]
  cases hb : build.enableLatencyBenchmark with
  | false => simp [OutgoingPacketToAndroid.toBytes, Readings.packet, hb]
  | true =>
    have ht5 := afterHistory_t5 build initial hb history
    rw [hs] at ht5
    have ht4 : (s.stampT4 build p.toPlatform).outgoing.telemetry =
        ⟨p.t4, motorTimestamp history⟩ := by
      rw [SerialComm.stampT4, if_pos hb, ← ht5]
    cases request <;> simp [OutgoingPacketToAndroid.toBytes, Readings.packet, hb, ht4]

theorem frame_payload (cmd : Byte) (payload : List Byte) :
    ((frame cmd payload).drop 4).take payload.length = payload := by simp [frame]

theorem frame_injective {cmd : Byte} {a b : List Byte} (hlen : a.length = b.length)
    (h : frame cmd a = frame cmd b) : a = b := by
  rw [← frame_payload cmd a, h, hlen, frame_payload]

theorem packet_frame_eq_iff (p : Readings logLevel) (request : StateRequest)
    (t t' : BitVec 64) :
    frame request.cmd ((p.packet request t).toBytes build) =
        frame request.cmd ((p.packet request t').toBytes build) ↔
      (build.enableLatencyBenchmark = true → request = .getState → t = t') := by
  constructor
  · rintro h hb rfl
    have hbytes := frame_injective (by simp [OutgoingPacketToAndroid.toBytes, hb,
      RP2040State.length_toBytes]) h
    have htrailer : littleEndian 8 t = littleEndian 8 t' := by
      simpa [OutgoingPacketToAndroid.toBytes, hb, Readings.packet] using hbytes
    rw [← ofLittleEndian_littleEndian 8 t, htrailer,
      ofLittleEndian_littleEndian 8 t']
  · intro h
    cases request with
    | setMotorLevel left right => rfl
    | getState =>
      cases hb : build.enableLatencyBenchmark with
      | false => simp [OutgoingPacketToAndroid.toBytes, hb, Readings.packet]
      | true => rw [h hb rfl]

/-- Two histories show in the answer to the same state request exactly if it is GET_STATE in
the latency build and their last motor commands fell at different times. -/
theorem state_answers_agree_iff (p : Readings logLevel) (request : StateRequest)
    (history history' : List (Reception logLevel)) (rest rest' : List Input) :
    stateAnswer build initial p request history rest =
        stateAnswer build initial p request history' rest' ↔
      (build.enableLatencyBenchmark = true → request = .getState →
        motorTimestamp history = motorTimestamp history') := by
  rw [stateAnswer_eq, stateAnswer_eq, packet_frame_eq_iff]

end

def Readings.idle : Readings 0 where
  toPlatform := .idle 0
  ofDevices := fun _ _ _ => rfl

/-- A motor command at one microsecond. -/
def motorCommand : Reception 0 :=
  ⟨{ Platform.idle 0 with t5 := 1 }, requestInput (.setMotorLevel 0 0)⟩

/-- GET_STATE first, and after the motor command: the second answer carries the time of that
command. -/
theorem state_answer_reveals_motor_command :
    stateAnswer ⟨true, true⟩ RP2040State.zero .idle .getState [] [] ≠
      stateAnswer ⟨true, true⟩ RP2040State.zero .idle .getState [motorCommand] [] := by
  have htime : (0 : BitVec 64) ≠ motorTimestamp [motorCommand] := by decide +kernel
  rw [stateAnswer_eq, stateAnswer_eq, ne_eq, packet_frame_eq_iff]
  exact fun h => htime (h rfl rfl)

end SrFirmware
