import Mathlib.Algebra.Group.Nat.Defs
import Mathlib.Data.List.Basic

/-!
# State machines of the programmable I/O block

One clock of a state machine runs one instruction. A machine has two scratch registers, two
shift registers, a program counter and two FIFOs to the core; all it sees of the outside is
the word on its input pins. The part of the instruction set is the one without side-set and
delays, with automatic push and pull off and the input shift register shifting left.
-/

namespace SrFirmware.Lib.Pio

set_option autoImplicit false

abbrev Word := BitVec 32

inductive Scratch where
  | x
  | y

inductive Condition where
  | always
  -- `!X`
  | xZero
  -- `X--` and `Y--`: taken when the register was not zero, which is then decremented
  | dec (r : Scratch)

inductive Source where
  | pins
  | x
  | y
  | null
  | isr
  | osr

inductive Dest where
  | x
  | y
  | pc
  | isr
  | osr

inductive Instr where
  | jmp (c : Condition) (address : Nat)
  | set (r : Scratch) (value : Word)
  | pullNoblock
  | push
  | mov (d : Dest) (invert : Bool) (s : Source)
  -- `IN`
  | shiftIn (s : Source) (bits : Nat)

structure Program where
  code : List Instr
  wrapTarget : Nat
  wrap : Nat

structure Machine where
  pc : Nat
  x : Word
  y : Word
  isr : Word
  osr : Word
  tx : List Word
  rx : List Word

/-- Each FIFO has four words when the two are not joined. -/
def fifoDepth : Nat := 4

namespace Machine

def read (m : Machine) (pins : Word) : Source → Word
  | .pins => pins
  | .x => m.x
  | .y => m.y
  | .null => 0
  | .isr => m.isr
  | .osr => m.osr

def scratch (m : Machine) : Scratch → Word
  | .x => m.x
  | .y => m.y

def setScratch (m : Machine) (w : Word) : Scratch → Machine
  | .x => { m with x := w }
  | .y => { m with y := w }

def goto (m : Machine) (address : Nat) : Machine := { m with pc := address }

/-- A write of the core to the TX FIFO; a full FIFO ignores it. -/
def put (m : Machine) (w : Word) : Machine :=
  if m.tx.length < fifoDepth then { m with tx := m.tx ++ [w] } else m

/-- A read of the core from the RX FIFO. -/
def get (m : Machine) : Option (Word × Machine) :=
  match m.rx with
  | [] => none
  | w :: rest => some (w, { m with rx := rest })

section Fifos
variable (m : Machine) (w : Word)

@[simp] theorem put_pc : (m.put w).pc = m.pc := by unfold put; split <;> rfl

@[simp] theorem put_x : (m.put w).x = m.x := by unfold put; split <;> rfl

@[simp] theorem put_y : (m.put w).y = m.y := by unfold put; split <;> rfl

@[simp] theorem put_isr : (m.put w).isr = m.isr := by unfold put; split <;> rfl

@[simp] theorem put_osr : (m.put w).osr = m.osr := by unfold put; split <;> rfl

@[simp] theorem put_rx : (m.put w).rx = m.rx := by unfold put; split <;> rfl

end Fifos

end Machine

/-- Where execution goes on after an instruction that does not jump. -/
def Program.after (p : Program) (pc : Nat) : Nat := if pc = p.wrap then p.wrapTarget else pc + 1

def Program.exec (p : Program) (pins : Word) (m : Machine) : Instr → Machine
  | .jmp .always address => m.goto address
  | .jmp .xZero address => m.goto (if m.x = 0 then address else p.after m.pc)
  | .jmp (.dec r) address =>
    (m.setScratch (m.scratch r - 1) r).goto
      (if m.scratch r = 0 then p.after m.pc else address)
  | .set r value => (m.setScratch value r).goto (p.after m.pc)
  | .pullNoblock =>
    match m.tx with
    -- an empty FIFO gives a copy of X
    | [] => { m with osr := m.x, pc := p.after m.pc }
    | w :: rest => { m with osr := w, tx := rest, pc := p.after m.pc }
  | .push =>
    if m.rx.length < fifoDepth then
      { m with rx := m.rx ++ [m.isr], isr := 0, pc := p.after m.pc }
    else m
  | .mov d invert s =>
    let w := if invert then ~~~ m.read pins s else m.read pins s
    match d with
    | .x => { m with x := w, pc := p.after m.pc }
    | .y => { m with y := w, pc := p.after m.pc }
    | .isr => { m with isr := w, pc := p.after m.pc }
    | .osr => { m with osr := w, pc := p.after m.pc }
    -- five bits address the instruction memory
    | .pc => m.goto (w.toNat % 32)
  | .shiftIn s bits =>
    let low := m.read pins s &&& BitVec.ofNat 32 (2 ^ bits - 1)
    { m with isr := m.isr <<< bits ||| low, pc := p.after m.pc }

/-- One clock. `none` if the program counter is outside of the program. -/
def Program.clock (p : Program) (pins : Word) (m : Machine) : Option Machine :=
  p.code[m.pc]?.map (p.exec pins m)

end SrFirmware.Lib.Pio
