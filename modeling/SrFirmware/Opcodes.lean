import SrFirmware.Lib.Steps
import SrFirmware.Max77958
import Mathlib.Logic.Function.Basic

/-!
# Two cores on `opcode_queue` and `call_queue`

A step is one queue operation, one flag write or one device transaction of one core, one
answer of the device, or one interrupt. `opcode_queue_pop` is two queue operations with the
entry in the hands of the core between them. What core0 runs is the initialisation and then
any boot checks or the shutdown; core1 runs the jobs of `call_queue`.
-/

namespace SrFirmware.Max77958

open Lib
set_option autoImplicit false

def opcodeQueueSize : Nat := 16
def callQueueSize : Nat := 256

inductive Core where
  | core0
  | core1
  deriving DecidableEq

def Core.other : Core → Core
  | .core0 => .core1
  | .core1 => .core0

inductive Pc where
  -- about to make the next call of its script
  | next
  -- in `opcode_queue_add`, past the write of `opcodes_finished`
  | adding (entry : OpcodeEntry)
  -- in `on_opcode_cmd_response`, past `opcode_read`
  | responded
  -- in `opcode_queue_pop`, past `queue_try_remove`; `chained` under `on_opcode_cmd_response`
  | holding (chained : Bool) (entry : OpcodeEntry)
  -- in `on_opcode_cmd_response`, past a pop that returned false
  | finishing
  -- in an opcode function, before `opcode_write`
  | running (entry : OpcodeEntry)
  -- past a failed `assert`, perhaps of an interrupt handler in the middle of a pop
  | halted (inHand : Option OpcodeEntry)
  deriving DecidableEq

def Pc.held : Pc → Option OpcodeEntry
  | .holding _ entry => some entry
  | .halted inHand => inHand
  | _ => none

structure Thread where
  pc : Pc
  script : List Call
  deriving DecidableEq

/-- The MAX77958: commands written and not answered, answers not read, and the interrupt bit. -/
structure Device where
  written : List OpcodeEntry
  answered : List OpcodeEntry
  apCmdResI : Bool
  deriving DecidableEq

/-- `accepted` and `executed` only record, for the statements, what was added to `opcode_queue`
and which opcode entries core1 has taken from `call_queue`. -/
structure System where
  opcodeQueue : List OpcodeEntry
  callQueue : List Job
  opcodesFinished : Bool
  threads : Core → Thread
  device : Device
  accepted : List OpcodeEntry
  executed : List OpcodeEntry

/-! ### Scripts of core0 -/

def max77958Init (ccStatus0 : Byte) : List Call :=
  [.opcodeQueueAdd ⟨.gpioSet, gpioBoolToInt32 false false⟩,
   .opcodeQueueAdd ⟨.gpioSet, gpioBoolToInt32 false true⟩,
   .opcodeQueueAdd ⟨.customerConfigWrite, 0⟩,
   .opcodeQueuePop] ++ ccStatCalls ccStatus0

/-- What core0 does with the queues once initialisation is over. -/
inductive Routine where
  | check (opcodeFunc : OpcodeFunc)
  | max77958Shutdown
  deriving DecidableEq

def Routine.script : Routine → List Call
  | .check opcodeFunc => [.opcodeQueueAdd ⟨opcodeFunc, 0⟩, .opcodeQueuePop, .waitOpcodesFinished]
  | .max77958Shutdown =>
    [.opcodeQueueAdd ⟨.gpioSet, gpioBoolToInt32 false false⟩, .opcodeQueuePop,
     .waitOpcodesFinished]

/-- Right after `queue_init (&opcode_queue, ..)`. -/
def boot (ccStatus0 : Byte) : System where
  opcodeQueue := []
  callQueue := []
  opcodesFinished := false
  threads := fun
    | .core0 => ⟨.next, max77958Init ccStatus0⟩
    | .core1 => ⟨.next, []⟩
  device := ⟨[], [], false⟩
  accepted := []
  executed := []

/-! ### Steps -/

/-- The jobs that interrupt handlers put on `call_queue`. -/
inductive Interrupt where
  | max77958
  | max77958Test
  | other
  deriving DecidableEq

def Interrupt.job : Interrupt → Job
  | .max77958 => .parseInterruptVals
  | .max77958Test => .max77958TestResponse
  | .other => .other

inductive Action where
  | core (c : Core)
  -- core1 takes a job; `r` and `msg` are what the device tells the jobs that ask
  | callQueuePop (r : Readings) (msg : PdMsg)
  | routine (routine : Routine)
  | respond
  | interrupt (i : Interrupt)

def System.goto (s : System) (c : Core) (pc : Pc) (script : List Call) : System :=
  { s with threads := Function.update s.threads c ⟨pc, script⟩ }

def System.halt (s : System) (c : Core) : System :=
  s.goto c (.halted (s.threads c).pc.held) (s.threads c).script

/-- `queue_try_remove` on `opcode_queue`. -/
def System.tryRemove (s : System) (c : Core) (chained : Bool) (script : List Call) : System :=
  match s.opcodeQueue with
  | [] => s.goto c (if chained then .finishing else .next) script
  | entry :: rest => { s with opcodeQueue := rest }.goto c (.holding chained entry) script

/-- `call_queue_try_add`, which asserts that there was room. -/
def System.callQueueTryAdd (s : System) (c : Core) (job : Job) : System :=
  if s.callQueue.length < callQueueSize then { s with callQueue := s.callQueue ++ [job] }
  else s.halt c

def System.call (s : System) (c : Core) (script : List Call) : Call → Option System
  | .opcodeQueueAdd entry =>
    some ({ s with opcodesFinished := false }.goto c (.adding entry) script)
  | .opcodeQueuePop => some (s.tryRemove c false script)
  | .onOpcodeCmdResponse =>
    some ({ s with device := { s.device with answered := [] } }.goto c .responded script)
  | .callQueueTryAddPdMsg => some ((s.goto c .next script).callQueueTryAdd c .pdMsgResponse)
  | .waitOpcodesFinished => if s.opcodesFinished then some (s.goto c .next script) else none

def System.stepCore (s : System) (c : Core) : Option System :=
  let script := (s.threads c).script
  match (s.threads c).pc with
  | .next =>
    match script with
    | [] => none
    | call :: rest => s.call c rest call
  | .adding entry =>
    if s.opcodeQueue.length < opcodeQueueSize then
      some ({ s with
        opcodeQueue := s.opcodeQueue ++ [entry]
        accepted := s.accepted ++ [entry] }.goto c .next script)
    else some (s.halt c)
  | .responded => some (s.tryRemove c true script)
  | .holding chained entry =>
    if s.callQueue.length < callQueueSize then
      some ({ s with callQueue := s.callQueue ++ [Job.opcode entry] }.goto c .next script)
    else
      -- the error is logged and the entry goes nowhere
      some (s.goto c (if chained then .finishing else .next) script)
  | .finishing => some ({ s with opcodesFinished := true }.goto c .next script)
  | .running entry =>
    some ({ s with device := { s.device with written := s.device.written ++ [entry] } }.goto
      c .next script)
  | .halted _ => none

/-- `call_queue_pop` on core1, up to the first step of the job's function. -/
def System.takeJob (s : System) (r : Readings) (msg : PdMsg) : Option System :=
  match s.threads .core1, s.callQueue with
  | ⟨.next, []⟩, job :: rest =>
    let s := { s with callQueue := rest }
    match job with
    | .opcode entry =>
      some ({ s with executed := s.executed ++ [entry] }.goto .core1 (.running entry) [])
    | .parseInterruptVals =>
      -- the fetch tells of an unread answer exactly when there is one, and clears the bit
      if Cause.apCmdResI.raised r.snapshot = s.device.apCmdResI then
        some ({ s with device := { s.device with apCmdResI := false } }.goto
          .core1 .next (parseInterruptVals r).calls)
      else none
    | .pdMsgResponse => some (s.goto .core1 .next (pdMsgResponse msg))
    | .max77958TestResponse => some s
    | .other => some s
  | _, _ => none

def System.step (s : System) : Action → Option System
  | .core c => s.stepCore c
  | .callQueuePop r msg => s.takeJob r msg
  | .routine routine =>
    match s.threads .core0 with
    | ⟨.next, []⟩ => some (s.goto .core0 .next routine.script)
    | _ => none
  | .respond =>
    match s.device.written with
    | [] => none
    | entry :: rest =>
      some { s with device := ⟨rest, s.device.answered ++ [entry], true⟩ }
  | .interrupt i => some (s.callQueueTryAdd .core0 i.job)

end SrFirmware.Max77958
