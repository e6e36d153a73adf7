import SrFirmware.Drv8830
import SrFirmware.GaugeBus
import SrFirmware.Requests

/-!
# State telemetry

`get_state` of `robot.c` with the drivers it reads from, up to the bytes of the answer and
back through the packed layout. The devices are held fixed during one request, and every
transfer succeeds.
-/

namespace SrFirmware

set_option autoImplicit false

/-! ### The packed layout, read back -/

def ofLittleEndian (w : Nat) (bytes : List Byte) : BitVec w :=
  bytes.foldr (fun b x => x <<< 8 ||| b.setWidth w) 0

/-- `n` bytes of a word from its byte `k` on. -/
theorem getLsbD_ofLittleEndian {w : Nat} (x : BitVec w) (n k i : Nat) :
    (ofLittleEndian w ((List.range' k n).map fun j => (x >>> (8 * j)).setWidth 8)).getLsbD i =
      (decide (i < w) && decide (i < 8 * n) && x.getLsbD (8 * k + i)) := by
  induction n generalizing k i with
  | zero => simp [ofLittleEndian]
  | succ n ih =>
    have hcons : ofLittleEndian w ((List.range' k (n + 1)).map fun j =>
        (x >>> (8 * j)).setWidth 8) =
        ofLittleEndian w ((List.range' (k + 1) n).map fun j => (x >>> (8 * j)).setWidth 8) <<< 8
          ||| ((x >>> (8 * k)).setWidth 8).setWidth w := rfl
    rw [hcons, BitVec.getLsbD_or, BitVec.getLsbD_shiftLeft, ih]
    by_cases hi : i < 8
    · have hn : i < 8 * (n + 1) := by omega
      simp [hi, hn, Bool.and_comm]
    · have hnext : 8 * (k + 1) + (i - 8) = 8 * k + i := by omega
      have hcount : i - 8 < 8 * n ↔ i < 8 * (n + 1) := by omega
      have hw : i < w → i - 8 < w := by omega
      simp only [BitVec.getLsbD_setWidth, hi, decide_false, Bool.not_false, Bool.and_true,
        Bool.false_and, Bool.and_false, Bool.or_false, hnext, hcount]
      by_cases hlt : i < w
      · simp [hlt, hw hlt]
      · simp [hlt]

theorem ofLittleEndian_littleEndian (n : Nat) (x : BitVec (8 * n)) :
    ofLittleEndian (8 * n) (littleEndian n x) = x := by
  apply BitVec.eq_of_getLsbD_eq
  intro i hi
  rw [littleEndian, List.range_eq_range', getLsbD_ofLittleEndian]
  simp [hi]

/-- What the phone makes of the first 29 bytes of a payload. -/
def RP2040State.ofBytes (bytes : List Byte) : RP2040State :=
  let uint32 (offset : Nat) := ofLittleEndian 32 ((bytes.drop offset).take 4)
  let uint16 (offset : Nat) := ofLittleEndian 16 ((bytes.drop offset).take 2)
  let uint8 (offset : Nat) := bytes.getD offset 0
  { controlValuesLeft := uint8 0
    controlValuesRight := uint8 1
    faultsLeft := uint8 2
    faultsRight := uint8 3
    encoderCountsLeft := uint32 4
    encoderCountsRight := uint32 8
    voltage := uint16 12
    safetyStatus := uint8 14
    temperature := uint16 15
    stateOfHealth := uint8 17
    flags := uint16 18
    max77976ChgDetails := uint32 20
    wirelessChargerAttached := uint8 24
    usbChargerVoltage := uint16 25
    wirelessChargerVrect := uint16 27 }

theorem RP2040State.ofBytes_toBytes (s : RP2040State) : ofBytes s.toBytes = s := by
  have h4 (x : BitVec 32) : ofLittleEndian 32 (littleEndian 4 x) = x :=
    ofLittleEndian_littleEndian 4 x
  have h2 (x : U16) : ofLittleEndian 16 (littleEndian 2 x) = x :=
    ofLittleEndian_littleEndian 2 x
  simp [ofBytes, toBytes, List.drop_append, List.drop_of_length_le, List.take_of_length_le, h4,
    h2]

namespace Telemetry

open Lib
open Drv8830 (Motor)
open GaugeBus (Registers peripheral regTemperature regVoltage regFlags regSafetyStatus
  regStateOfHealth)

/-- What `get_state` finds during one request. -/
structure Hardware where
  encoderCount : Motor → BitVec 32
  fault : Motor → Byte
  faultValues : Motor → Byte
  gauge : Addressed Registers
  charger : Addressed Registers
  wirelessChargerAttached : Bool
  adc0Counts : BitVec 12
  adc1Counts : BitVec 12
  -- the memory around the `send_buf` of `max77976.c`, by its index; `return_buf` may be there,
  -- so it may change with the byte read last
  beyondSendBuf : Byte → Nat → Byte

/-! ### Drivers -/

def readRegisters (r len : Nat) (device : Addressed Registers) :
    List Byte × Addressed Registers :=
  peripheral.read len (peripheral.write r [] device)

def drv8830GetFaults (hw : Hardware) : Motor → Byte :=
  (Drv8830.getFaults.foldl Drv8830.State.perform
    (Drv8830.start true hw.fault hw.faultValues)).faultValues

def bq27742G1GetVoltage (gauge : Addressed Registers) : U16 × Addressed Registers :=
  let (returnBuf, gauge) := readRegisters regVoltage 2 gauge
  (word (returnBuf.getD 0 0) (returnBuf.getD 1 0), gauge)

def bq27742G1GetSafetyStats (gauge : Addressed Registers) : Byte × Addressed Registers :=
  let (returnBuf, gauge) := readRegisters regSafetyStatus 2 gauge
  (returnBuf.getD 0 0, gauge)

def bq27742G1GetTemp (gauge : Addressed Registers) : U16 × Addressed Registers :=
  -- `memset (&temperature, 0, ..)`
  let temperature : U16 := 0
  let (_, gauge) := readRegisters regTemperature 2 gauge
  -- the degrees go to the float `temperature_`; what is cast and returned is `temperature`
  (temperature, gauge)

def bq27742G1GetSoh (gauge : Addressed Registers) : Byte × Addressed Registers :=
  let (returnBuf, gauge) := readRegisters regStateOfHealth 2 gauge
  (returnBuf.getD 0 0, gauge)

def bq27742G1GetFlags (gauge : Addressed Registers) : U16 × Addressed Registers :=
  let (returnBuf, gauge) := readRegisters regFlags 2 gauge
  (word (returnBuf.getD 0 0) (returnBuf.getD 1 0), gauge)

/-- The index into `send_buf` and the shift of each term of `CHG_CNFG`. -/
def chgCnfgTerms : List (Nat × Nat) := [(4, 24), (5, 16), (6, 8), (7, 0)]

/-- What `send_buf` is filled with. -/
def chgDetailsRegisters : List Byte := [0x13, 0x14, 0x15, 0x16]

/-- The four reads into `return_buf`, and what the last has left there. -/
def readChgDetails (charger : Addressed Registers) : Byte × Addressed Registers :=
  chgDetailsRegisters.foldl
    (fun (_, charger) r =>
      let (returnBuf, charger) := readRegisters r.toNat 1 charger
      (returnBuf.getD 0 0, charger))
    (0, charger)

/-- The bytes read are only logged. -/
def max77976GetChgDetails (beyondSendBuf : Byte → Nat → Byte) (charger : Addressed Registers) :
    BitVec 32 × Addressed Registers :=
  let sendBuf := chgDetailsRegisters
  let (returnBuf, charger) := readChgDetails charger
  let chgCnfg := chgCnfgTerms.foldl
    (fun chgCnfg (i, shift) =>
      chgCnfg ||| (sendBuf.getD i (beyondSendBuf returnBuf i)).setWidth 32 <<< shift) 0
  (chgCnfg, charger)

def adc0CountsToVinaMv (adcCounts : BitVec 12) : U16 :=
  let adcVrefMv := 3300
  let adcFullScaleCounts := 4096
  let dividerTopKohm := 510
  let dividerBottomKohm := 100
  let dividerTotalKohm := dividerTopKohm + dividerBottomKohm
  let numerator := adcCounts.toNat * adcVrefMv * dividerTotalKohm
  let denominator := adcFullScaleCounts * dividerBottomKohm
  BitVec.ofNat 16 ((numerator + denominator / 2) / denominator)

def adcCountsToPinMv (adcCounts : BitVec 12) : U16 :=
  let adcVrefMv := 3300
  let adcFullScaleCounts := 4096
  let numerator := adcCounts.toNat * adcVrefMv
  BitVec.ofNat 16 ((numerator + adcFullScaleCounts / 2) / adcFullScaleCounts)

/-! ### `robot.c` -/

def getEncoderCounts (hw : Hardware) (state : RP2040State) : RP2040State :=
  { state with
    encoderCountsLeft := hw.encoderCount .left
    encoderCountsRight := hw.encoderCount .right }

def getMotorFaults (hw : Hardware) (state : RP2040State) : RP2040State :=
  let motorFaults := drv8830GetFaults hw
  { state with
    faultsLeft := motorFaults .left
    faultsRight := motorFaults .right }

def getChargerState (hw : Hardware) (state : RP2040State) : RP2040State :=
  { state with
    max77976ChgDetails := (max77976GetChgDetails hw.beyondSendBuf hw.charger).1
    wirelessChargerAttached := if hw.wirelessChargerAttached then 1 else 0
    usbChargerVoltage := adc0CountsToVinaMv hw.adc0Counts
    wirelessChargerVrect := adcCountsToPinMv hw.adc1Counts }

def getBatteryState (hw : Hardware) (state : RP2040State) : RP2040State :=
  let (voltage, gauge) := bq27742G1GetVoltage hw.gauge
  let (safetyStatus, gauge) := bq27742G1GetSafetyStats gauge
  let (temperature, gauge) := bq27742G1GetTemp gauge
  let (stateOfHealth, gauge) := bq27742G1GetSoh gauge
  let (flags, _) := bq27742G1GetFlags gauge
  { state with voltage, safetyStatus, temperature, stateOfHealth, flags }

/-- Outside the `BOARD_PICO` build, which leaves the structure alone. -/
def getState (hw : Hardware) (state : RP2040State) : RP2040State :=
  getBatteryState hw (getChargerState hw (getMotorFaults hw (getEncoderCounts hw state)))

/-! ### The request -/

inductive StateRequest where
  | getState
  | setMotorLevel (left right : Byte)

namespace StateRequest

def cmd : StateRequest → Byte
  | .getState => Command.getState
  | .setMotorLevel _ _ => Command.setMotorLevel

def payload : StateRequest → List Byte
  | .getState => []
  | .setMotorLevel left right => [left, right]

def cleared : StateRequest → RP2040State
  | .getState => RP2040State.zero
  | .setMotorLevel left right =>
    { RP2040State.zero with controlValuesLeft := left, controlValuesRight := right }

end StateRequest

/-- What surrounds one request: the clock, what the getters log, and everything before it. -/
structure Surroundings (logLevel : Int) where
  enableLatencyBenchmark : Bool
  t4 : BitVec 64
  t5 : BitVec 64
  logged : ∀ log : CircularBufferLog, { log' // LogReach logLevel log log' }
  comm : SerialComm

section
variable {logLevel : Int} (around : Surroundings logLevel) (request : StateRequest)

def Surroundings.build : Build := ⟨around.enableLatencyBenchmark, false⟩

def Surroundings.platform (hw : Hardware) : Platform logLevel where
  t4 := around.t4
  t5 := around.t5
  getState := fun log state => (around.logged log, getState hw state)
  logsOnly := fun log _ => (around.logged log).property

/-- The first 29 payload bytes of the answer, decoded. -/
def decodedAnswer (hw : Hardware) : RP2040State :=
  let handled := handlePacket around.build (around.platform hw) around.comm request.cmd
    request.payload
  RP2040State.ofBytes ((handled.out.drop 4).take 29)

/-! ### Faithfulness -/

/-- `value` is `num / den` rounded to the nearest. -/
def Rounds (num den value : Nat) : Prop :=
  2 * den * value ≤ 2 * num + den ∧ 2 * num + den < 2 * den * (value + 1)

def temperatureReading (hw : Hardware) : Nat :=
  (word (hw.gauge.device regTemperature) (hw.gauge.device (regTemperature + 1))).toNat

/-- Readings are tenths of a kelvin, and 0 °C is at 2731.5 of them. -/
def TemperatureFaithful (hw : Hardware) (state : RP2040State) : Prop :=
  2732 ≤ temperatureReading hw →
    state.temperature.toNat = (2 * temperatureReading hw - 5463) / 20

structure OthersFaithful (hw : Hardware) (state : RP2040State) : Prop where
  encoderCounts : state.encoderCountsLeft = hw.encoderCount .left ∧
    state.encoderCountsRight = hw.encoderCount .right
  faults : state.faultsLeft = hw.fault .left ∧ state.faultsRight = hw.fault .right
  voltage : state.voltage =
    word (hw.gauge.device regVoltage) (hw.gauge.device (regVoltage + 1))
  safetyStatus : state.safetyStatus = hw.gauge.device regSafetyStatus
  stateOfHealth : state.stateOfHealth = hw.gauge.device regStateOfHealth
  flags : state.flags = word (hw.gauge.device regFlags) (hw.gauge.device (regFlags + 1))
  wirelessChargerAttached : state.wirelessChargerAttached ≠ 0 ↔ hw.wirelessChargerAttached
  usbChargerVoltage :
    Rounds (hw.adc0Counts.toNat * 3300 * 610) (4096 * 100) state.usbChargerVoltage.toNat
  wirelessChargerVrect : Rounds (hw.adc1Counts.toNat * 3300) 4096 state.wirelessChargerVrect.toNat

def chargerRegisters (regs : Registers) : Byte × Byte × Byte × Byte :=
  (regs 0x13, regs 0x14, regs 0x15, regs 0x16)

def ChgDetailsFaithful (hw : Hardware) : Prop :=
  ∃ f : Byte × Byte × Byte × Byte → BitVec 32, Function.Injective f ∧
    ∀ charger : Addressed Registers,
      (decodedAnswer around request { hw with charger }).max77976ChgDetails =
        f (chargerRegisters charger.device)

structure Faithful (hw : Hardware) : Prop where
  others : OthersFaithful hw (decodedAnswer around request hw)
  temperature : TemperatureFaithful hw (decodedAnswer around request hw)
  chgDetails : ChgDetailsFaithful around request hw
  indices : ∀ term ∈ chgCnfgTerms, term.1 < 4

/-! ### From the devices to the phone -/

theorem drv8830GetFaults_eq (hw : Hardware) : drv8830GetFaults hw = hw.fault := by
  funext m
  cases m <;> rfl

theorem decodedAnswer_eq (hw : Hardware) :
    decodedAnswer around request hw = getState hw request.cleared := by
  have hpayload (cmd : Byte) (state : RP2040State) (rest : List Byte) :
      ((frame cmd (state.toBytes ++ rest)).drop 4).take 29 = state.toBytes := by
    simp [frame, RP2040State.length_toBytes]
  have hout : ∃ rest, (handlePacket around.build (around.platform hw) around.comm request.cmd
      request.payload).out = frame request.cmd ((getState hw request.cleared).toBytes ++ rest) := by
    rw [handlePacket_eq_respond]
    cases request with
    | getState => exact ⟨_, rfl⟩
    | setMotorLevel left right => exact ⟨_, rfl⟩
  obtain ⟨rest, hout⟩ := hout
  simp only [decodedAnswer, hout, hpayload, RP2040State.ofBytes_toBytes]

theorem rounds_div {num den : Nat} (hden : 0 < den) (heven : den % 2 = 0) :
    Rounds num den ((num + den / 2) / den) := by
  have hlow := Nat.mul_div_le (num + den / 2) den
  have hhigh := Nat.lt_mul_div_succ (num + den / 2) hden
  constructor
  · rw [Nat.mul_assoc]
    omega
  · rw [Nat.mul_assoc]
    omega

theorem rounds_cast {num den bound : Nat} (hden : 0 < den) (heven : den % 2 = 0)
    (hnum : num ≤ bound) (hbound : bound + den / 2 < 65536 * den) :
    Rounds num den (BitVec.ofNat 16 ((num + den / 2) / den)).toNat := by
  have hfits : (num + den / 2) / den < 65536 := Nat.div_lt_of_lt_mul (by omega)
  rw [BitVec.toNat_ofNat, Nat.mod_eq_of_lt hfits]
  exact rounds_div hden heven

theorem rounds_adc0 (adcCounts : BitVec 12) :
    Rounds (adcCounts.toNat * 3300 * 610) (4096 * 100) (adc0CountsToVinaMv adcCounts).toNat := by
  have hcounts : adcCounts.toNat * 3300 * 610 ≤ 4095 * 3300 * 610 := by
    have := adcCounts.isLt
    omega
  exact rounds_cast (by decide) (by decide) hcounts (by decide)

theorem rounds_adc1 (adcCounts : BitVec 12) :
    Rounds (adcCounts.toNat * 3300) 4096 (adcCountsToPinMv adcCounts).toNat := by
  have hcounts : adcCounts.toNat * 3300 ≤ 4095 * 3300 := by
    have := adcCounts.isLt
    omega
  exact rounds_cast (by decide) (by decide) hcounts (by decide)

theorem others_getState (hw : Hardware) (state : RP2040State) :
    OthersFaithful hw (getState hw state) where
  encoderCounts := ⟨rfl, rfl⟩
  faults := ⟨congrFun (drv8830GetFaults_eq hw) .left, congrFun (drv8830GetFaults_eq hw) .right⟩
  voltage := rfl
  safetyStatus := rfl
  stateOfHealth := rfl
  flags := rfl
  wirelessChargerAttached := by
    change (if hw.wirelessChargerAttached then (1 : Byte) else 0) ≠ 0 ↔ _
    cases hw.wirelessChargerAttached <;> decide
  usbChargerVoltage := rounds_adc0 hw.adc0Counts
  wirelessChargerVrect := rounds_adc1 hw.adc1Counts

/-- The temperature is the cleared variable, right up to 0.9 °C only. -/
theorem temperatureFaithful_getState_iff (hw : Hardware) (state : RP2040State) :
    TemperatureFaithful hw (getState hw state) ↔ temperatureReading hw < 2742 := by
  have hzero : (getState hw state).temperature.toNat = 0 := rfl
  rw [TemperatureFaithful, hzero]
  omega

theorem readChgDetails_fst (charger : Addressed Registers) :
    (readChgDetails charger).1 = charger.device 0x16 := rfl

/-- Every index is behind `send_buf`, where at most the last of the four bytes read is. -/
theorem chgDetails_getState (hw : Hardware) {charger : Addressed Registers}
    (h : charger.device 0x16 = hw.charger.device 0x16) (state : RP2040State) :
    (getState { hw with charger } state).max77976ChgDetails =
      (getState hw state).max77976ChgDetails := by
  change (max77976GetChgDetails hw.beyondSendBuf charger).1 =
    (max77976GetChgDetails hw.beyondSendBuf hw.charger).1
  simp only [max77976GetChgDetails, readChgDetails_fst, h]

/-- Two contents of the charger with one word. -/
theorem not_chgDetailsFaithful (hw : Hardware) : ¬ ChgDetailsFaithful around request hw := by
  rintro ⟨f, hf, hchg⟩
  let low : Addressed Registers := ⟨0, fun _ => 0⟩
  let high : Addressed Registers := ⟨0, fun r => if r = 0x16 then 0 else 1⟩
  have hlast : high.device 0x16 = low.device 0x16 := rfl
  have hword : (decodedAnswer around request { hw with charger := high }).max77976ChgDetails =
      (decodedAnswer around request { hw with charger := low }).max77976ChgDetails := by
    simp only [decodedAnswer_eq]
    exact chgDetails_getState { hw with charger := low } hlast request.cleared
  have hsame : f (1, 1, 1, 0) = f (0, 0, 0, 0) :=
    ((hchg high).symm.trans hword).trans (hchg low)
  exact absurd (hf hsame) (by decide)

/-- Every other field reaches the phone as the sensors have it. The temperature does up to
0.9 °C, and the charger word is taken from behind `send_buf`, whatever the registers `0x13` to
`0x15` hold. -/
theorem state_telemetry_loses_temperature_and_charger (hw : Hardware) :
    let state := decodedAnswer around request hw
    OthersFaithful hw state ∧
      (TemperatureFaithful hw state ↔ temperatureReading hw < 2742) ∧
      (∀ term ∈ chgCnfgTerms, 4 ≤ term.1) ∧
      (∀ charger : Addressed Registers, charger.device 0x16 = hw.charger.device 0x16 →
        (decodedAnswer around request { hw with charger }).max77976ChgDetails =
          state.max77976ChgDetails) ∧
      ¬ ChgDetailsFaithful around request hw ∧ ¬ Faithful around request hw := by
  refine ⟨?_, ?_, by decide, ?_, not_chgDetailsFaithful around request hw, ?_⟩
  · rw [decodedAnswer_eq]
    exact others_getState hw _
  · rw [decodedAnswer_eq]
    exact temperatureFaithful_getState_iff hw _
  · intro charger hlast
    simp only [decodedAnswer_eq, chgDetails_getState hw hlast]
  · intro h
    have hterm : (4, 24) ∈ chgCnfgTerms := by decide
    exact absurd (h.indices (4, 24) hterm) (by decide)

end

def quiet : Surroundings 0 :=
  ⟨false, 0, 0, fun log => ⟨log, .refl log⟩, serialCommManagerInit RP2040State.zero⟩

/-- 298.2 K, and nothing else going on. -/
def roomTemperature : Hardware where
  encoderCount := fun _ => 0
  fault := fun _ => 0
  faultValues := fun _ => 0
  gauge := ⟨0, fun r => if r = regTemperature then 0xA6 else if r = regTemperature + 1 then 0x0B
    else 0⟩
  charger := ⟨0, fun _ => 0⟩
  wirelessChargerAttached := false
  adc0Counts := 0
  adc1Counts := 0
  beyondSendBuf := fun _ _ => 0

/-- 25 °C is answered as 0. -/
theorem room_temperature_answered_as_zero : ¬ Faithful quiet .getState roomTemperature := by
  intro h
  have htemperature := h.temperature (by decide)
  rw [decodedAnswer_eq] at htemperature
  exact absurd htemperature (by decide)

end Telemetry

end SrFirmware
