import SrFirmware.Crc
import SrFirmware.Lib.Registers
import SrFirmware.Lib.Steps
import SrFirmware.Opcodes

/-!
# The charger's interrupt, `max77976.c`

core0 initialises the charger, reads its details for the state requests and runs the boot
tests; core1 reads the interrupt registers for every falling edge of INTB. A step is one
transfer, one write of a flag or of the pin's direction, a cause raised by the charger, or a
step of the handler, which interrupts core0. The jobs of the other drivers are left out, and so
is a full queue.
-/

namespace SrFirmware.Max77976

open Lib
open Max77958 (Core)
set_option autoImplicit false

def regChgInt : Nat := 0x10
def regChgIntMask : Nat := 0x11
def chginI : Byte := 1 <<< 6

/-! ### `bit_ops.c` -/

def bitAssign (bitvector newValue : Byte) (idx : Nat) : Byte :=
  bitvector &&& ~~~ (1#8 <<< idx) ||| (if newValue ≠ 0 then 1#8 else 0) <<< idx

def bitmaskFromX2Y (lsb msb : Nat) : Byte :=
  (((1#32 <<< (msb - lsb + 1)) - 1) <<< lsb).setWidth 8

def bitmaskClear (bitvector mask : Byte) : Byte := bitvector &&& ~~~ mask

def bitSetRange (bitvector : Byte) (lsb msb : Nat) (newVal : Byte) : Byte :=
  let mask := bitmaskFromX2Y lsb msb
  bitmaskClear bitvector mask ||| newVal <<< lsb &&& mask

/-! ### The functions -/

inductive Op where
  -- a write transfer: the register, and what is stored from there on
  | write (r : Nat) (data : List Byte)
  -- the read transfer of the call that is to read `command`
  | read (command len : Nat)
  -- the one byte that `i2c_scan` reads, wherever the pointer is
  | scan
  -- the pin driven low, or an input again
  | drive (low : Bool)
  | setTestStarted (started : Bool)
  | setTestCompleted (completed : Bool)
  -- the loop until `test_max77976_completed`
  | awaitCompleted
  deriving DecidableEq

def setInterruptMasksAllMasked : List Op := [.write regChgIntMask [0b11111111, 0, 0]]

/-- All but `CHGIN_M`. -/
def interruptMasks : Byte := 0b10111111

def setInterruptMasks : List Op := [.write regChgIntMask [interruptMasks, 0, 0]]

def getInterruptVals : List Op := [.write regChgInt [], .read regChgInt 3]

def readByte (r : Nat) : List Op := [.write r [], .read r 1]

/-- From the masks on. -/
def max77976Init : List Op :=
  setInterruptMasks ++ getInterruptVals ++
    [.write 0x1C [0x0C], .write 0x16 [0x05], .write 0x18 [0x19],
     .write 0x1E [bitAssign 0x02 0 1], .write 0x1F [bitSetRange 0x89 0 5 0x3B],
     .write 0x1C [0x00]]

def getChgDetails : List Op := readByte 0x13 ++ readByte 0x14 ++ readByte 0x15 ++ readByte 0x16

/-- `b` is the byte at the null address, which is passed for the pointer. -/
def testGetId (b : Byte) : List Op :=
  setInterruptMasksAllMasked ++ readByte b.toNat ++ setInterruptMasks

def testGetFsw : List Op := setInterruptMasksAllMasked ++ readByte 0x1E ++ setInterruptMasks

def testInterrupt : List Op :=
  setInterruptMasksAllMasked ++
    [.setTestStarted true, .drive true, .awaitCompleted, .drive false, .setTestStarted false,
     .setTestCompleted false] ++
    setInterruptMasks

/-- What core0 does with the charger once it is initialised. -/
inductive Routine where
  | getChgDetails
  | testGetId (b : Byte)
  | testGetFsw
  | testInterrupt
  | i2cScan

def Routine.script : Routine → List Op
  | .getChgDetails => Max77976.getChgDetails
  | .testGetId b => Max77976.testGetId b
  | .testGetFsw => Max77976.testGetFsw
  | .testInterrupt => Max77976.testInterrupt
  | .i2cScan => [.scan]

/-- Its read of one register is not one of `CHG_INT`. -/
def Routine.Apart : Routine → Prop
  | .testGetId b => b.toNat ≠ regChgInt
  | .getChgDetails | .testGetFsw | .testInterrupt | .i2cScan => True

instance (routine : Routine) : Decidable routine.Apart := by
  cases routine <;> unfold Routine.Apart <;> infer_instance

inductive Job where
  | parseInterruptVals
  | testResponse
  deriving DecidableEq

def Job.script : Job → List Op
  | .parseInterruptVals => getInterruptVals
  | .testResponse => [.setTestCompleted true]

/-- The steps of core1 that a job takes, its removal from the queue included. -/
def Job.cost (job : Job) : Nat := 1 + job.script.length

/-! ### The charger and the pin -/

abbrev Registers := Nat → Byte

def readOnly (r : Nat) : Bool := r = regChgInt ∨ 0x12 ≤ r ∧ r ≤ 0x15

def peripheral : Peripheral Registers Byte :=
  ⟨fun regs r => regs r,
    fun regs r v => if readOnly r then regs else Function.update regs r v⟩

def unmasked (regs : Registers) : Byte := regs regChgInt &&& ~~~ regs regChgIntMask

inductive Handler where
  | idle
  | entered
  -- past `gpio_acknowledge_irq`
  | acknowledged
  -- past the first `call_queue_try_add`
  | parseAdded
  deriving DecidableEq

/-- The steps that a handler still takes, with those of the jobs that it still adds. -/
def Handler.due : Handler → Nat
  | .idle => 0
  | .entered => 8
  | .acknowledged => 7
  | .parseAdded => 3

structure State where
  charger : Addressed Registers
  driven : Bool
  latched : Bool
  handler : Handler
  callQueue : List Job
  testStarted : Bool
  testCompleted : Bool
  -- what each core has yet to do
  script : Core → List Op
  -- only for the statements: the causes raised that no `get_interrupt_vals` has read
  unread : Byte

/-- In `max77976_init`, right after `gpio_set_irq_enabled`: what was set before has no edge. -/
def armed (pointer : Nat) (regs : Registers) : State where
  charger := ⟨pointer, regs⟩
  driven := false
  latched := false
  handler := .idle
  callQueue := []
  testStarted := false
  testCompleted := false
  script
    | .core0 => max77976Init
    | .core1 => []
  unread := regs regChgInt

inductive Action where
  | raise (bits : Byte)
  | call (routine : Routine)
  | deliver
  | handler
  | callQueuePop
  | core (c : Core)

namespace State

def intbHigh (s : State) : Bool := !s.driven && unmasked s.charger.device = 0

/-- Whether the line falls from `s` to `t`. -/
def latch (s t : State) : State :=
  { t with latched := t.latched || (s.intbHigh && !t.intbHigh) }

def goto (s : State) (c : Core) (script : List Op) : State :=
  { s with script := Function.update s.script c script }

def raise (s : State) (bits : Byte) : State :=
  { s with
    charger := ⟨s.charger.pointer,
      Function.update s.charger.device regChgInt (s.charger.device regChgInt ||| bits)⟩
    unread := s.unread ||| bits }

/-- A read of `CHG_INT` clears it. -/
def read (s : State) (command len : Nat) : State :=
  let ⟨pointer, regs⟩ := s.charger
  let hit := pointer ≤ regChgInt ∧ regChgInt < pointer + len
  { s with
    charger := ⟨pointer + len, if hit then Function.update regs regChgInt 0 else regs⟩
    unread := if hit ∧ command = regChgInt then s.unread &&& ~~~ regs regChgInt else s.unread }

def perform (s : State) : Op → State
  | .write r data => { s with charger := peripheral.write r data s.charger }
  | .read command len => s.read command len
  -- nothing looks at the byte
  | .scan => { s.read s.charger.pointer 1 with unread := s.unread }
  | .drive low => { s with driven := low }
  | .setTestStarted started => { s with testStarted := started }
  | .setTestCompleted completed => { s with testCompleted := completed }
  | .awaitCompleted => s

def Ready (s : State) (c : Core) (op : Op) : Prop :=
  (c = .core0 → s.handler = .idle) ∧ (op = .awaitCompleted → s.testCompleted = true)

instance (s : State) (c : Core) (op : Op) : Decidable (s.Ready c op) :=
  inferInstanceAs (Decidable (_ ∧ _))

def step (s : State) : Action → Option State
  | .raise bits => some (s.latch (s.raise bits))
  | .call routine =>
    if s.handler = .idle ∧ s.script .core0 = [] then some (s.goto .core0 routine.script)
    else none
  | .deliver =>
    if s.latched = true ∧ s.handler = .idle then some { s with handler := .entered } else none
  | .handler =>
    match s.handler with
    | .idle => none
    | .entered => some { s with latched := false, handler := .acknowledged }
    | .acknowledged =>
      some { s with
        callQueue := s.callQueue ++ [.parseInterruptVals]
        handler := .parseAdded }
    | .parseAdded =>
      some { s with
        callQueue := if s.testStarted then s.callQueue ++ [.testResponse] else s.callQueue
        handler := .idle }
  | .callQueuePop =>
    match s.callQueue, s.script .core1 with
    | job :: rest, [] => some ({ s with callQueue := rest }.goto .core1 job.script)
    | _, _ => none
  | .core c =>
    match s.script c with
    | [] => none
    | op :: rest =>
      if s.Ready c op then some (s.latch ((s.perform op).goto c rest)) else none

/-! ### What is to hold -/

def Quiet (s : State) : Prop :=
  s.latched = false ∧ s.handler = .idle ∧ s.callQueue = [] ∧ ∀ c, s.script c = []

def NoInterruptLost (s : State) : Prop :=
  s.Quiet → s.unread &&& chginI = 0 ∧ s.intbHigh = true

def pointerAfter (s : State) : Op → Nat
  | .write r data => r + data.length
  | .read _ len => s.charger.pointer + len
  | .scan => s.charger.pointer + 1
  | .drive _ | .setTestStarted _ | .setTestCompleted _ | .awaitCompleted => s.charger.pointer

/-- A transfer between the two transfers of the other core's read leaves the pointer where
that read has put it, and `test_max77976_get_id` is not made to read `CHG_INT`. -/
def PointerKept (s : State) : Action → Prop
  | .core c =>
    match s.script c, s.script c.other with
    | op :: _, .read command _ :: _ => s.pointerAfter op = command
    | _, _ => True
  | .call routine => routine.Apart
  | _ => True

instance (s : State) (a : Action) : Decidable (s.PointerKept a) := by
  unfold PointerKept
  split
  · split <;> infer_instance
  · infer_instance
  · exact .isTrue trivial

/-- In the loop of `test_max77976_interrupt`, which gives up after ten seconds. -/
def Waiting (s : State) : Prop :=
  (s.script .core0).head? = some .awaitCompleted ∧ s.testCompleted = false

/-- At most this many steps of the handler and core1 are made while core0 waits. -/
def due (s : State) : Nat :=
  (if s.latched ∧ s.handler ≠ .entered then 9 else 0) + s.handler.due +
    (s.callQueue.map Job.cost).sum + (s.script .core1).length

/-- While core0 waits, a step of the handler or of core1 is possible, and every step but a
raise leaves fewer of them. -/
def TestEnds (s : State) : Prop :=
  s.Waiting → (∃ a t, s.step a = some t ∧ t.due < s.due) ∧
    ∀ a t, s.step a = some t → t.due < s.due ∨ t.due = s.due ∧ ∃ bits, a = .raise bits

/-! ### One step -/

/-- What a step can do. -/
inductive Stepped (s : State) : Action → State → Prop
  | raise (bits : Byte) : Stepped s (.raise bits) (s.latch (s.raise bits))
  | call (routine : Routine) (hidle : s.handler = .idle) (hscript : s.script .core0 = []) :
      Stepped s (.call routine) (s.goto .core0 routine.script)
  | deliver (hlatched : s.latched = true) (hidle : s.handler = .idle) :
      Stepped s .deliver { s with handler := .entered }
  | acknowledge (hentered : s.handler = .entered) :
      Stepped s .handler { s with latched := false, handler := .acknowledged }
  | addParse (hacknowledged : s.handler = .acknowledged) :
      Stepped s .handler { s with
        callQueue := s.callQueue ++ [.parseInterruptVals]
        handler := .parseAdded }
  | addResponse (hadded : s.handler = .parseAdded) :
      Stepped s .handler { s with
        callQueue := if s.testStarted then s.callQueue ++ [.testResponse] else s.callQueue
        handler := .idle }
  | pop (job : Job) (rest : List Job) (hqueue : s.callQueue = job :: rest)
      (hscript : s.script .core1 = []) :
      Stepped s .callQueuePop ({ s with callQueue := rest }.goto .core1 job.script)
  | core (c : Core) (op : Op) (rest : List Op) (hscript : s.script c = op :: rest)
      (hready : s.Ready c op) :
      Stepped s (.core c) (s.latch ((s.perform op).goto c rest))

theorem stepped_of_step {s t : State} {a : Action} (h : s.step a = some t) : s.Stepped a t := by
  cases a with
  | raise bits =>
    obtain rfl := Option.some.inj h
    exact .raise bits
  | call routine =>
    simp only [step] at h
    split at h
    · rename_i hguard
      obtain rfl := Option.some.inj h
      exact .call routine hguard.1 hguard.2
    · cases h
  | deliver =>
    simp only [step] at h
    split at h
    · rename_i hguard
      obtain rfl := Option.some.inj h
      exact .deliver hguard.1 hguard.2
    · cases h
  | handler =>
    simp only [step] at h
    split at h
    · cases h
    · rename_i hpc
      obtain rfl := Option.some.inj h
      exact .acknowledge hpc
    · rename_i hpc
      obtain rfl := Option.some.inj h
      exact .addParse hpc
    · rename_i hpc
      obtain rfl := Option.some.inj h
      exact .addResponse hpc
  | callQueuePop =>
    simp only [step] at h
    split at h
    · rename_i job rest hqueue hscript
      obtain rfl := Option.some.inj h
      exact .pop job rest hqueue hscript
    · cases h
  | core c =>
    simp only [step] at h
    split at h
    · cases h
    · rename_i op rest hscript
      split at h
      · rename_i hready
        obtain rfl := Option.some.inj h
        exact .core c op rest hscript hready
      · cases h

end State

end SrFirmware.Max77976
