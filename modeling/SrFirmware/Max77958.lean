import SrFirmware.Crc
import Mathlib.Tactic.IntervalCases

/-!
# The service job of `max77958.c`

`parse_interrupt_vals` and the handlers it calls. What the device answers during one run of
the job is its `Readings`; the calls that reach the two queues are listed in order and left
to the model of the queues. The log texts are left out.
-/

namespace SrFirmware.Max77958

set_option autoImplicit false

/-! ### Opcode entries -/

inductive OpcodeFunc where
  | gpioSet
  | customerConfigWrite
  | bcCtrl1Read
  | bcCtrl2Read
  | control1Read
  | ccCtrl1Read
  | ccCtrl4Read
  | gpioControlRead
  | gpio0Gpio1AdcRead
  | snkPdoRequest
  | customerConfigRead
  deriving DecidableEq

structure OpcodeEntry where
  opcodeFunc : OpcodeFunc
  opcodeData : BitVec 32
  deriving DecidableEq

/-- The functions that are put on `call_queue`; those of the other drivers are one case. -/
inductive Job where
  | opcode (entry : OpcodeEntry)
  | parseInterruptVals
  | pdMsgResponse
  | max77958TestResponse
  | other
  deriving DecidableEq

inductive Call where
  | opcodeQueueAdd (entry : OpcodeEntry)
  | opcodeQueuePop
  | onOpcodeCmdResponse
  -- `call_queue_try_add (&pd_msg_response, 0)`
  | callQueueTryAddPdMsg
  | waitOpcodesFinished
  deriving DecidableEq

def gpioBoolToInt32 (gpio4 gpio5 : Bool) : BitVec 32 :=
  ((BitVec.ofBool gpio5).setWidth 32 <<< 3) ||| (1 <<< 2) |||
    ((BitVec.ofBool gpio4).setWidth 32 <<< 1) ||| (1 <<< 0)

def vbusTurnOff : List Call :=
  [.opcodeQueueAdd ⟨.gpioSet, gpioBoolToInt32 false true⟩, .opcodeQueuePop]

def vbusTurnOn : List Call :=
  [.opcodeQueueAdd ⟨.gpioSet, gpioBoolToInt32 true true⟩, .opcodeQueuePop]

/-! ### The shared buffer -/

abbrev ReturnBuf := Fin 33 → Byte

/-- `return_buf` after `memset` and a read of these bytes. -/
def readInto (bytes : List Byte) : ReturnBuf := fun i => bytes.getD i 0

/-- What the device answers during one run of the job. It may change between two reads. -/
structure Readings where
  uicInt : Byte
  ccInt : Byte
  pdInt : Byte
  -- the register after the three, read with them
  actionInt : Byte
  bcStatus : Byte
  ccStatus0 : Byte
  ccStatus1 : Byte

/-- `return_buf` as `get_interrupt_vals` leaves it. -/
def Readings.snapshot (r : Readings) : ReturnBuf :=
  readInto [r.uicInt, r.ccInt, r.pdInt, r.actionInt]

inductive Cause where
  | apCmdResI
  | psRdyI
  | pdMsgI
  | chgType
  | ccStat
  | ccVcnStatI
  | ccIStatI
  | ccPinStatI
  deriving DecidableEq

namespace Cause

/-- Where in `return_buf` the cause is looked up: `UIC_INT`, `CC_INT` and `PD_INT` are the
first three bytes. -/
def byte : Cause → Fin 33
  | .apCmdResI | .chgType => 0
  | .ccStat | .ccVcnStatI | .ccIStatI | .ccPinStatI => 1
  | .psRdyI | .pdMsgI => 2

def bit : Cause → Nat
  | .apCmdResI => 7
  | .psRdyI => 6
  | .pdMsgI => 7
  | .chgType => 1
  | .ccStat => 0
  | .ccVcnStatI => 1
  | .ccIStatI => 2
  | .ccPinStatI => 3

def mask (c : Cause) : Byte := 1 <<< c.bit

def returnBit : Cause → Fin 16
  | .apCmdResI => 0
  | .psRdyI => 1
  | .pdMsgI => 2
  | .chgType => 3
  | .ccStat => 4
  | .ccVcnStatI => 5
  | .ccIStatI => 6
  | .ccPinStatI => 7

def raised (c : Cause) (buf : ReturnBuf) : Bool := buf c.byte &&& c.mask ≠ 0

end Cause

/-- The variables of a run: the buffer, the value to return, and what has been called. -/
structure Service where
  returnBuf : ReturnBuf
  returnVal : U16
  handled : List Cause
  calls : List Call

/-! ### Handlers -/

def onOpcodeCmdResponse (s : Service) : Service :=
  { s with calls := s.calls ++ [.onOpcodeCmdResponse] }

def onPdMsgReceived (s : Service) : Service :=
  { s with calls := s.calls ++ [.callQueueTryAddPdMsg] }

/-- The `switch` on the low bits of `CC_STATUS0`. -/
def ccStatCalls (ccStatus0 : Byte) : List Call :=
  if ccStatus0 &&& 0b111 = 0b000 then vbusTurnOff
  else if ccStatus0 &&& 0b111 = 0b001 then vbusTurnOff
  else []

def onCcStatChange (r : Readings) (s : Service) : Service :=
  { s with
    returnBuf := readInto [r.ccStatus0, r.ccStatus1]
    calls := s.calls ++ ccStatCalls r.ccStatus0 }

def onChgTypeChange (r : Readings) (s : Service) : Service :=
  { s with returnBuf := readInto [r.bcStatus] }

/-- One `if` of the chain: the byte is looked up in the buffer as it is by then. -/
def check (c : Cause) (handler : Service → Service) (s : Service) : Service :=
  if c.raised s.returnBuf then
    let s := handler { s with handled := s.handled ++ [c] }
    { s with returnVal := s.returnVal ||| (1 : U16) <<< c.returnBit.val }
  else s

def parseInterruptVals (r : Readings) : Service :=
  let s : Service := ⟨r.snapshot, 0, [], []⟩
  let s := check .apCmdResI onOpcodeCmdResponse s
  let s := check .psRdyI id s
  let s := check .pdMsgI onPdMsgReceived s
  let s := check .chgType (onChgTypeChange r) s
  let s := check .ccStat (onCcStatChange r) s
  let s := check .ccVcnStatI id s
  let s := check .ccIStatI id s
  check .ccPinStatI id s

inductive PdMsg where
  | prswapSrcToSwap
  | prswapSwapToSnk
  | prswapSnkToSwap
  | prswapSwapToSrc
  | other
  deriving DecidableEq

def pdMsgResponse : PdMsg → List Call
  | .prswapSwapToSnk => vbusTurnOff
  | .prswapSwapToSrc => vbusTurnOn
  | _ => []

/-! ### What decides each cause -/

theorem Cause.raised_eq (c : Cause) (buf : ReturnBuf) :
    c.raised buf = (buf c.byte).getLsbD c.bit := by
  have hpow : BitVec.twoPow 8 c.bit ≠ 0 := by
    cases c <;> decide
  change decide (buf c.byte &&& BitVec.twoPow 8 c.bit ≠ 0) = _
  rw [BitVec.and_twoPow]
  by_cases h : (buf c.byte).getLsbD c.bit = true
  · rw [if_pos h, h]
    exact decide_eq_true hpow
  · rw [if_neg h, (Bool.not_eq_true _).mp h]
    rfl

def Quiet (f : Service → Service) : Prop :=
  ∀ s, (f s).handled = s.handled ∧ (f s).returnVal = s.returnVal

def Marked (s : Service) : Prop :=
  ∀ c : Cause, s.returnVal.getLsbD c.returnBit = true ↔ c ∈ s.handled

theorem check_handled {f : Service → Service} (hf : Quiet f) (c d : Cause) (s : Service) :
    d ∈ (check c f s).handled ↔ d ∈ s.handled ∨ d = c ∧ c.raised s.returnBuf = true := by
  unfold check
  split
  · simp [(hf _).1, *]
  · simp [*]

theorem check_marked {f : Service → Service} (hf : Quiet f) (c : Cause) {s : Service}
    (hs : Marked s) : Marked (check c f s) := by
  intro d
  have hbit : ((1 : U16) <<< c.returnBit.val).getLsbD d.returnBit = true ↔ d = c := by
    cases c <;> cases d <;> decide
  rw [check_handled hf]
  unfold check
  split
  · simp only [(hf _).2, BitVec.getLsbD_or, Bool.or_eq_true, hs d, *, and_true]
  · rename_i hraised
    rw [hs d]
    exact ⟨.inl, fun h => h.resolve_right fun h => hraised h.2⟩

theorem check_returnBuf {f : Service → Service} {buf : ReturnBuf}
    (hf : ∀ s, (f s).returnBuf = buf) (c : Cause) (s : Service) :
    (check c f s).returnBuf = if c.raised s.returnBuf = true then buf else s.returnBuf := by
  unfold check
  split
  · exact hf _
  · rfl

theorem check_returnBuf_kept {f : Service → Service} (hf : ∀ s, (f s).returnBuf = s.returnBuf)
    (c : Cause) (s : Service) : (check c f s).returnBuf = s.returnBuf := by
  unfold check
  split
  · exact hf _
  · rfl

namespace Readings

def afterChgType (r : Readings) : ReturnBuf :=
  if Cause.chgType.raised r.snapshot = true then readInto [r.bcStatus] else r.snapshot

def afterCcStat (r : Readings) : ReturnBuf :=
  if Cause.ccStat.raised r.afterChgType = true then readInto [r.ccStatus0, r.ccStatus1]
  else r.afterChgType

def lookedUp (r : Readings) : Cause → ReturnBuf
  | .apCmdResI | .psRdyI | .pdMsgI | .chgType => r.snapshot
  | .ccStat => r.afterChgType
  | .ccVcnStatI | .ccIStatI | .ccPinStatI => r.afterCcStat

end Readings

theorem quiet_id : Quiet id := fun _ => ⟨rfl, rfl⟩
theorem quiet_onOpcodeCmdResponse : Quiet onOpcodeCmdResponse := fun _ => ⟨rfl, rfl⟩
theorem quiet_onPdMsgReceived : Quiet onPdMsgReceived := fun _ => ⟨rfl, rfl⟩
theorem quiet_onChgTypeChange (r : Readings) : Quiet (onChgTypeChange r) := fun _ => ⟨rfl, rfl⟩
theorem quiet_onCcStatChange (r : Readings) : Quiet (onCcStatChange r) := fun _ => ⟨rfl, rfl⟩

theorem parseInterruptVals_marked (r : Readings) : Marked (parseInterruptVals r) := by
  have hstart : Marked ⟨r.snapshot, 0, [], []⟩ := by
    intro c
    simp
  have hopcode := check_marked quiet_onOpcodeCmdResponse .apCmdResI hstart
  have hps := check_marked quiet_id .psRdyI hopcode
  have hpd := check_marked quiet_onPdMsgReceived .pdMsgI hps
  have hchg := check_marked (quiet_onChgTypeChange r) .chgType hpd
  have hcc := check_marked (quiet_onCcStatChange r) .ccStat hchg
  have hvcn := check_marked quiet_id .ccVcnStatI hcc
  have hcurrent := check_marked quiet_id .ccIStatI hvcn
  exact check_marked quiet_id .ccPinStatI hcurrent

theorem mem_handled_iff (r : Readings) (c : Cause) :
    c ∈ (parseInterruptVals r).handled ↔ c.raised (r.lookedUp c) = true := by
  have hopcode : ∀ s, (onOpcodeCmdResponse s).returnBuf = s.returnBuf := fun _ => rfl
  have hpd : ∀ s, (onPdMsgReceived s).returnBuf = s.returnBuf := fun _ => rfl
  have hid : ∀ s : Service, (id s).returnBuf = s.returnBuf := fun _ => rfl
  have hchg : ∀ s, (onChgTypeChange r s).returnBuf = readInto [r.bcStatus] := fun _ => rfl
  have hcc : ∀ s, (onCcStatChange r s).returnBuf = readInto [r.ccStatus0, r.ccStatus1] :=
    fun _ => rfl
  have hafterChg : (if Cause.chgType.raised r.snapshot = true then readInto [r.bcStatus]
      else r.snapshot) = r.afterChgType := rfl
  have hafterCc : (if Cause.ccStat.raised r.afterChgType = true then
      readInto [r.ccStatus0, r.ccStatus1] else r.afterChgType) = r.afterCcStat := rfl
  simp only [parseInterruptVals, check_handled quiet_id, check_handled quiet_onOpcodeCmdResponse,
    check_handled quiet_onPdMsgReceived, check_handled (quiet_onChgTypeChange r),
    check_handled (quiet_onCcStatChange r), check_returnBuf_kept hid,
    check_returnBuf_kept hopcode, check_returnBuf_kept hpd, check_returnBuf hchg,
    check_returnBuf hcc, hafterChg, hafterCc, List.not_mem_nil, false_or]
  cases c <;> simp [Readings.lookedUp]

/-! ### Dispatch from one snapshot -/

/-- A run calls the handlers of the causes set in the bytes it fetched first, returns their
bits, and neither drops nor invents one. -/
def DispatchedFromSnapshot (r : Readings) : Prop :=
  ∀ c : Cause, (c ∈ (parseInterruptVals r).handled ↔ c.raised r.snapshot = true) ∧
    ((parseInterruptVals r).returnVal.getLsbD c.returnBit = true ↔ c.raised r.snapshot = true)

/-- No refill of the buffer changes a bit that is still to be looked up: `BC_STATUS` is read
over the interrupts, and `CC_STATUS1` lands where `CC_INT` was. -/
def RefillsHarmless (r : Readings) : Prop :=
  if r.uicInt &&& 0b10 ≠ 0 then r.ccInt &&& 0b1111 = 0
  else r.ccInt &&& 0b1 ≠ 0 → r.ccStatus1 &&& 0b1110 = r.ccInt &&& 0b1110

theorem dispatchedFromSnapshot_iff (r : Readings) :
    DispatchedFromSnapshot r ↔ ∀ c : Cause, c.raised (r.lookedUp c) = c.raised r.snapshot := by
  have hmark := parseInterruptVals_marked r
  simp only [DispatchedFromSnapshot, mem_handled_iff, hmark _, and_self, Bool.coe_iff_coe]

theorem and_mask_eq_iff (x y m : Byte) :
    x &&& m = y &&& m ↔ ∀ i, m.getLsbD i = true → x.getLsbD i = y.getLsbD i := by
  constructor
  · intro h i hi
    have hbit := congrArg (·.getLsbD i) h
    simpa only [BitVec.getLsbD_and, hi, Bool.and_true] using hbit
  · intro h
    apply BitVec.eq_of_getLsbD_eq
    intro i _
    rw [BitVec.getLsbD_and, BitVec.getLsbD_and]
    cases hi : m.getLsbD i with
    | true => rw [h i hi]
    | false => simp

theorem getLsbD_iff_of_low {m : Byte} {p : Nat → Prop} (hlow : ∀ i, p i → i < 8)
    (h : ∀ i < 8, m.getLsbD i = true ↔ p i) (i : Nat) : m.getLsbD i = true ↔ p i := by
  by_cases hi : i < 8
  · exact h i hi
  · rw [BitVec.getLsbD_of_ge _ _ (Nat.not_lt.mp hi)]
    exact iff_of_false Bool.false_ne_true fun hp => hi (hlow i hp)

theorem getLsbD_15 (i : Nat) :
    (0b1111 : Byte).getLsbD i = true ↔ i = 0 ∨ i = 1 ∨ i = 2 ∨ i = 3 :=
  getLsbD_iff_of_low (p := fun i => i = 0 ∨ i = 1 ∨ i = 2 ∨ i = 3) (by omega) (by decide) i

theorem getLsbD_14 (i : Nat) : (0b1110 : Byte).getLsbD i = true ↔ i = 1 ∨ i = 2 ∨ i = 3 :=
  getLsbD_iff_of_low (p := fun i => i = 1 ∨ i = 2 ∨ i = 3) (by omega) (by decide) i

/-- After `ChgType` the place of `CC_INT` holds zero, and every CC cause is looked up there. -/
theorem lookedUp_of_chgType {r : Readings} (h : Cause.chgType.raised r.snapshot = true) :
    (∀ c : Cause, c.raised (r.lookedUp c) = c.raised r.snapshot) ↔ r.ccInt &&& 0b1111 = 0 := by
  have hafterChg : r.afterChgType = readInto [r.bcStatus] := if_pos h
  have hafterCc : r.afterCcStat = readInto [r.bcStatus] := by
    have hgone : ¬ Cause.ccStat.raised (readInto [r.bcStatus]) = true := by
      rw [Cause.raised_eq]
      simp [readInto, Cause.byte]
    rw [Readings.afterCcStat, hafterChg]
    exact if_neg hgone
  have hzero : r.ccInt &&& 0b1111 = 0 ↔ r.ccInt &&& 0b1111 = (0 : Byte) &&& 0b1111 := by simp
  rw [hzero, and_mask_eq_iff]
  simp only [getLsbD_15, Cause.raised_eq]
  constructor
  · intro hall
    have h0 := hall .ccStat
    have h1 := hall .ccVcnStatI
    have h2 := hall .ccIStatI
    have h3 := hall .ccPinStatI
    simp only [Readings.lookedUp, hafterChg, hafterCc] at h0 h1 h2 h3
    rintro i (rfl | rfl | rfl | rfl)
    · exact h0.symm
    · exact h1.symm
    · exact h2.symm
    · exact h3.symm
  · intro hbits c
    cases c with
    | apCmdResI | psRdyI | pdMsgI | chgType => rfl
    | ccStat =>
      simp only [Readings.lookedUp, hafterChg]
      exact (hbits 0 (by simp)).symm
    | ccVcnStatI | ccIStatI | ccPinStatI =>
      simp only [Readings.lookedUp, hafterCc]
      exact (hbits _ (by simp [Cause.bit])).symm

/-- Without `ChgType`, `CCStat` puts `CC_STATUS1` in the place of `CC_INT` for the last three. -/
theorem lookedUp_of_not_chgType {r : Readings} (h : ¬ Cause.chgType.raised r.snapshot = true) :
    (∀ c : Cause, c.raised (r.lookedUp c) = c.raised r.snapshot) ↔
      (Cause.ccStat.raised r.snapshot = true →
        r.ccStatus1 &&& 0b1110 = r.ccInt &&& 0b1110) := by
  have hafterChg : r.afterChgType = r.snapshot := if_neg h
  rw [and_mask_eq_iff]
  simp only [getLsbD_14]
  by_cases hcc : Cause.ccStat.raised r.snapshot = true
  · have hafterCc : r.afterCcStat = readInto [r.ccStatus0, r.ccStatus1] := by
      rw [Readings.afterCcStat, hafterChg]
      exact if_pos hcc
    simp only [hcc, true_implies]
    simp only [Cause.raised_eq]
    constructor
    · intro hall
      have h1 := hall .ccVcnStatI
      have h2 := hall .ccIStatI
      have h3 := hall .ccPinStatI
      simp only [Readings.lookedUp, hafterCc] at h1 h2 h3
      rintro i (rfl | rfl | rfl)
      · exact h1
      · exact h2
      · exact h3
    · intro hbits c
      cases c with
      | apCmdResI | psRdyI | pdMsgI | chgType => rfl
      | ccStat => simp only [Readings.lookedUp, hafterChg]
      | ccVcnStatI | ccIStatI | ccPinStatI =>
        simp only [Readings.lookedUp, hafterCc]
        exact hbits _ (by simp [Cause.bit])
  · have hafterCc : r.afterCcStat = r.snapshot := by
      rw [Readings.afterCcStat, hafterChg]
      exact if_neg hcc
    refine ⟨fun _ h' => absurd h' hcc, ?_⟩
    intro _ c
    cases c <;> simp only [Readings.lookedUp, hafterChg, hafterCc]

/-- The causes are dispatched from the bytes fetched first exactly when no refill of the
shared buffer changes a bit still to be looked up. -/
theorem interrupts_dispatched_iff (r : Readings) :
    DispatchedFromSnapshot r ↔ RefillsHarmless r := by
  have hchg : Cause.chgType.raised r.snapshot = decide (r.uicInt &&& 0b10 ≠ 0) := rfl
  have hcc : Cause.ccStat.raised r.snapshot = decide (r.ccInt &&& 0b1 ≠ 0) := rfl
  rw [dispatchedFromSnapshot_iff, RefillsHarmless]
  by_cases h : r.uicInt &&& 0b10 ≠ 0
  · rw [if_pos h]
    exact lookedUp_of_chgType (hchg ▸ decide_eq_true h)
  · rw [if_neg h, lookedUp_of_not_chgType (hchg ▸ by simpa using h), hcc, decide_eq_true_iff]

/-- An attach that raises `ChgType` and `CCStat` together: `CCStat` is dropped. -/
theorem interrupts_not_dispatched :
    ¬ DispatchedFromSnapshot ⟨0b10, 0b1, 0, 0, 0b01, 0b001, 0⟩ := by
  intro h
  have hcc := (h .ccStat).1.mpr (by decide)
  revert hcc
  decide

end SrFirmware.Max77958
