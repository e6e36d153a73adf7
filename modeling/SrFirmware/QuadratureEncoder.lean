import SrFirmware.Lib.Pio
import SrFirmware.Lib.Quadrature
import SrFirmware.Lib.Steps
import Mathlib.Tactic.IntervalCases

/-!
# The quadrature encoder program

The program of `quadrature_encoder.pio`, clock by clock, with the core that asks it for the
count. One state machine reads one encoder; the two have nothing in common.
-/

namespace SrFirmware.QuadratureEncoder

open Lib Lib.Quadrature
open Lib.Pio (Word Machine)
set_option autoImplicit false

def decrement : Nat := 14
def update : Nat := 15
def samplePins : Nat := 22
def increment : Nat := 26
def incrementCont : Nat := 28

def code : List Pio.Instr := [
  -- 00 state
  .jmp .always update,
  .jmp .always decrement,
  .jmp .always increment,
  .jmp .always update,
  -- 01 state
  .jmp .always increment,
  .jmp .always update,
  .jmp .always update,
  .jmp .always decrement,
  -- 10 state
  .jmp .always decrement,
  .jmp .always update,
  .jmp .always update,
  .jmp .always increment,
  -- 11 state
  .jmp .always update,
  .jmp .always increment,
  -- decrement
  .jmp (.dec .y) update,
  -- update
  .set .x 0,
  .pullNoblock,
  .mov .x false .osr,
  .mov .osr false .isr,
  .jmp .xZero samplePins,
  .mov .isr false .y,
  .push,
  -- sample_pins
  .mov .isr false .null,
  .shiftIn .osr 2,
  .shiftIn .pins 2,
  .mov .pc false .isr,
  -- increment
  .mov .x true .y,
  .jmp (.dec .x) incrementCont,
  .mov .y true .x]

def program : Pio.Program where
  code := code
  wrapTarget := update
  wrap := incrementCont

/-- After `quadrature_encoder_program_init`: `pio_sm_init` empties the FIFOs and the ISR and
leaves the other registers as they are. -/
def programInit (x y osr : Word) : Machine where
  pc := 0
  x := x
  y := y
  isr := 0
  osr := osr
  tx := []
  rx := []

/-- Where the first sixteen instructions jump to. -/
def jumpTarget (pc : Nat) : Nat := if pc ∈ [1, 7, 8] then decrement
  else if pc ∈ [2, 4, 11, 13] then increment else update

/-- What one clock of the program does; the pins are read in one place. -/
inductive Clock (pins : Word) (m : Machine) : Machine → Prop where
  | jumpTable (h : m.pc < 14) : Clock pins m { m with pc := jumpTarget m.pc }
  | decrement (h : m.pc = 14) : Clock pins m { m with y := m.y - 1, pc := 15 }
  | clearX (h : m.pc = 15) : Clock pins m { m with x := 0, pc := 16 }
  | pullNothing (h : m.pc = 16) (hx : m.tx = []) :
      Clock pins m { m with osr := m.x, pc := 17 }
  | pull (h : m.pc = 16) (w : Word) (rest : List Word) (hx : m.tx = w :: rest) :
      Clock pins m { m with osr := w, tx := rest, pc := 17 }
  | copyRequest (h : m.pc = 17) : Clock pins m { m with x := m.osr, pc := 18 }
  | saveState (h : m.pc = 18) : Clock pins m { m with osr := m.isr, pc := 19 }
  | notAsked (h : m.pc = 19) (hx : m.x = 0) : Clock pins m { m with pc := 22 }
  | asked (h : m.pc = 19) (hx : m.x ≠ 0) : Clock pins m { m with pc := 20 }
  | copyCount (h : m.pc = 20) : Clock pins m { m with isr := m.y, pc := 21 }
  | push (h : m.pc = 21) (room : m.rx.length < 4) :
      Clock pins m { m with rx := m.rx ++ [m.isr], isr := 0, pc := 22 }
  | stall (h : m.pc = 21) (full : 4 ≤ m.rx.length) : Clock pins m m
  | clearIsr (h : m.pc = 22) : Clock pins m { m with isr := 0, pc := 23 }
  | shiftState (h : m.pc = 23) :
      Clock pins m { m with isr := m.isr <<< 2 ||| m.osr &&& 3#32, pc := 24 }
  | sample (h : m.pc = 24) :
      Clock pins m { m with isr := m.isr <<< 2 ||| pins &&& 3#32, pc := 25 }
  | jump (h : m.pc = 25) : Clock pins m { m with pc := m.isr.toNat % 32 }
  | negate (h : m.pc = 26) : Clock pins m { m with x := ~~~ m.y, pc := 27 }
  | decrementX (h : m.pc = 27) : Clock pins m { m with x := m.x - 1, pc := 28 }
  | negateBack (h : m.pc = 28) : Clock pins m { m with y := ~~~ m.x, pc := 15 }

theorem code_jumpTable {pc : Nat} (h : pc < 14) :
    code[pc]? = some (.jmp .always (jumpTarget pc)) := by
  interval_cases pc <;> rfl

theorem clock_of_fetch {pins : Word} {m m' : Machine} {i : Pio.Instr} {pc : Nat}
    (hpc : m.pc = pc) (hi : code[pc]? = some i) (h : program.clock pins m = some m') :
    m' = program.exec pins m i := by
  have hcode : program.code[m.pc]? = some i := by rw [hpc]; exact hi
  rw [Pio.Program.clock, hcode] at h
  exact (Option.some.inj h).symm

theorem pc_lt_of_clock {pins : Word} {m m' : Machine} (h : program.clock pins m = some m') :
    m.pc < 29 := by
  rw [Pio.Program.clock, Option.map_eq_some_iff] at h
  obtain ⟨i, hi, -⟩ := h
  obtain ⟨hlt, -⟩ := List.getElem?_eq_some_iff.mp hi
  exact hlt

theorem after_of_ne {pc : Nat} (h : pc ≠ 28) : program.after pc = pc + 1 := if_neg h

@[simp] theorem after_wrap : program.after 28 = 15 := rfl

theorem clock_pull {pins : Word} {m : Machine} (hpc : m.pc = 16) :
    Clock pins m (program.exec pins m .pullNoblock) := by
  cases htx : m.tx with
  | nil => simpa [Pio.Program.exec, htx, hpc, after_of_ne] using Clock.pullNothing hpc htx
  | cons w rest => simpa [Pio.Program.exec, htx, hpc, after_of_ne] using Clock.pull hpc w rest htx

theorem clock_push {pins : Word} {m : Machine} (hpc : m.pc = 21) :
    Clock pins m (program.exec pins m .push) := by
  by_cases room : m.rx.length < 4
  · simpa [Pio.Program.exec, Pio.fifoDepth, room, hpc, after_of_ne] using Clock.push hpc room
  · simpa [Pio.Program.exec, Pio.fifoDepth, room] using Clock.stall hpc (Nat.not_lt.mp room)

theorem clock_ifAsked {pins : Word} {m : Machine} (hpc : m.pc = 19) :
    Clock pins m (program.exec pins m (.jmp .xZero samplePins)) := by
  rw [Pio.Program.exec]
  by_cases hx : m.x = 0
  · rw [if_pos hx]
    exact .notAsked hpc hx
  · rw [if_neg hx, hpc]
    exact .asked hpc hx

theorem clock_cases {pins : Word} {m m' : Machine} (h : program.clock pins m = some m') :
    Clock pins m m' := by
  have hlt := pc_lt_of_clock h
  by_cases hjump : m.pc < 14
  · rw [clock_of_fetch rfl (code_jumpTable hjump) h]
    exact .jumpTable hjump
  · generalize hpc : m.pc = pc at hlt hjump
    have run := @clock_of_fetch pins m m'
    interval_cases pc
    · rw [run hpc rfl h]
      simpa [Pio.Program.exec, hpc, after_of_ne, Machine.goto, Machine.scratch,
        Machine.setScratch, update] using Clock.decrement hpc
    · rw [run hpc rfl h]
      simpa [Pio.Program.exec, hpc, after_of_ne, Machine.setScratch, Machine.goto]
        using Clock.clearX hpc
    · rw [run hpc rfl h]
      exact clock_pull hpc
    · rw [run hpc rfl h]
      simpa [Pio.Program.exec, hpc, after_of_ne, Machine.read] using Clock.copyRequest hpc
    · rw [run hpc rfl h]
      simpa [Pio.Program.exec, hpc, after_of_ne, Machine.read] using Clock.saveState hpc
    · rw [run hpc rfl h]
      exact clock_ifAsked hpc
    · rw [run hpc rfl h]
      simpa [Pio.Program.exec, hpc, after_of_ne, Machine.read] using Clock.copyCount hpc
    · rw [run hpc rfl h]
      exact clock_push hpc
    · rw [run hpc rfl h]
      simpa [Pio.Program.exec, hpc, after_of_ne, Machine.read] using Clock.clearIsr hpc
    · rw [run hpc rfl h]
      simpa [Pio.Program.exec, hpc, after_of_ne, Machine.read] using Clock.shiftState hpc
    · rw [run hpc rfl h]
      simpa [Pio.Program.exec, hpc, after_of_ne, Machine.read] using Clock.sample hpc
    · rw [run hpc rfl h]
      simpa [Pio.Program.exec, Machine.read, Machine.goto] using Clock.jump hpc
    · rw [run hpc rfl h]
      simpa [Pio.Program.exec, hpc, after_of_ne, Machine.read] using Clock.negate hpc
    · rw [run hpc rfl h]
      simpa [Pio.Program.exec, hpc, after_of_ne, Machine.goto, Machine.scratch,
        Machine.setScratch, incrementCont] using Clock.decrementX hpc
    · rw [run hpc rfl h]
      simpa [Pio.Program.exec, hpc, Machine.read] using Clock.negateBack hpc

/-! ### What the registers hold -/

/-- The two channels as the program reads them. -/
def channels (pins : Word) : Phase := pins.setWidth 2

/-- What the instructions from `pc` on do to Y before the pins are read again. -/
def change (pc : Nat) : Word :=
  if pc ∈ [1, 7, 8, 14] then -1 else if pc ∈ [2, 4, 11, 13, 26, 27] then 1 else 0

/-- The count with the phase read last taken into account. -/
def count (m : Machine) : Word :=
  if m.pc = 25 then m.y + change (m.isr.toNat % 32)
  else if m.pc = 28 then ~~~ m.x
  else m.y + change m.pc

def lastSeen (m : Machine) : Phase := channels (if 19 ≤ m.pc ∧ m.pc ≤ 24 then m.osr else m.isr)

structure Registers (m : Machine) : Prop where
  pc_lt : m.pc < 29
  cleared : m.pc = 16 → m.x = 0
  copied : m.pc = 21 → m.isr = m.y
  empty : m.pc = 23 → m.isr = 0
  shifted : m.pc = 24 → m.isr = m.osr &&& 3#32
  computed : m.pc = 25 → m.isr.toNat < 16
  negated : m.pc = 27 → m.x = ~~~ m.y

theorem registers_of_pc {m : Machine} (h : m.pc < 29)
    (h' : m.pc ∉ [16, 21, 23, 24, 25, 27]) : Registers m := by
  constructor <;> first | exact h | (intro hpc; simp [hpc] at h')

theorem registers_programInit (x y osr : Word) : Registers (programInit x y osr) :=
  registers_of_pc (by decide : (0 : Nat) < 29) (by decide : (0 : Nat) ∉ [16, 21, 23, 24, 25, 27])

theorem jumpTarget_cases (pc : Nat) :
    jumpTarget pc = 14 ∨ jumpTarget pc = 15 ∨ jumpTarget pc = 26 := by
  simp only [jumpTarget, decrement, increment, update]
  split_ifs <;> simp

theorem and_three (w : Word) : w &&& 3#32 = (channels w).setWidth 32 := by
  apply BitVec.eq_of_toNat_eq
  have hmod := Nat.and_two_pow_sub_one_eq_mod w.toNat 2
  simp [channels] at hmod ⊢
  omega

theorem computed_lt (a b : Word) : ((a &&& 3#32) <<< 2 ||| b &&& 3#32).toNat < 16 := by
  rw [and_three, and_three]
  generalize channels a = p
  generalize channels b = q
  revert p q
  decide

/-- The sixteen targets of the computed jump are the sixteen entries of the decoder's table. -/
theorem change_computed (a b : Word) :
    change (((a &&& 3#32) <<< 2 ||| b &&& 3#32).toNat % 32) =
      BitVec.ofInt 32 (turn (channels a) (channels b)) := by
  rw [and_three, and_three]
  generalize channels a = p
  generalize channels b = q
  revert p q
  decide

theorem channels_shift (a b : Word) : channels (a <<< 2 ||| b &&& 3#32) = channels b := by
  rw [and_three]
  ext i hi
  simp [channels]

theorem registers_clock {pins : Word} {m m' : Machine} (hm : Registers m)
    (h : Clock pins m m') : Registers m' := by
  cases h with
  | jumpTable h =>
    obtain ht | ht | ht := jumpTarget_cases m.pc <;> rw [ht] <;>
      exact registers_of_pc (by simp) (by simp)
  | clearX h => constructor <;> simp
  | copyCount h => constructor <;> simp
  | clearIsr h => constructor <;> simp
  | shiftState h =>
    have hisr := hm.empty h
    constructor <;> simp [hisr]
  | sample h =>
    have hisr := hm.shifted h
    have hlt := computed_lt m.osr pins
    constructor <;> simp [hisr]
    simpa using hlt
  | jump h =>
    have hlt := hm.computed h
    refine registers_of_pc ?_ ?_
    · simp only
      omega
    · simp only [List.mem_cons, List.not_mem_nil, or_false]
      omega
  | negate h => constructor <;> simp
  | stall h full => exact hm
  | decrement | pullNothing | pull | copyRequest | saveState | notAsked | asked | push
  | decrementX | negateBack => exact registers_of_pc (by simp) (by simp)

theorem clock_isSome {m : Machine} (hm : Registers m) (pins : Word) :
    ∃ m', program.clock pins m = some m' := by
  have hlt : m.pc < program.code.length := hm.pc_lt
  exact ⟨_, by rw [Pio.Program.clock, List.getElem?_eq_getElem hlt, Option.map_some]⟩

theorem change_jumpTarget {pc : Nat} (h : pc < 14) : change (jumpTarget pc) = change pc := by
  interval_cases pc <;> rfl

theorem count_of_pc {m : Machine} (h : m.pc ≠ 25) (h' : m.pc ≠ 28) :
    count m = m.y + change m.pc := by
  rw [count, if_neg h, if_neg h']

/-- A clock counts the step between the phase seen last and the pins if it reads them, and
leaves the count alone otherwise. -/
theorem count_clock {pins : Word} {m m' : Machine} (hm : Registers m) (h : Clock pins m m') :
    count m' = if m.pc = 24 then count m + BitVec.ofInt 32 (turn (lastSeen m) (channels pins))
      else count m := by
  cases h with
  | jumpTable h =>
    have hjump := change_jumpTarget h
    have ht := jumpTarget_cases m.pc
    rw [if_neg (by omega), count_of_pc (by simp; omega) (by simp; omega),
      count_of_pc (by omega) (by omega), hjump]
  | sample h =>
    have hisr := hm.shifted h
    have hc := change_computed m.osr pins
    rw [if_pos h]
    simp only [count, h, hisr, hc, lastSeen, if_true]
    simp [change]
  | jump h =>
    have hlt := hm.computed h
    have hne : m.isr.toNat % 32 ≠ 25 ∧ m.isr.toNat % 32 ≠ 28 := by omega
    rw [if_neg (by omega), count_of_pc hne.1 hne.2, count, if_pos h]
  | decrementX h =>
    have hx := hm.negated h
    simp [count, change, h, hx, BitVec.not_sub_one_eq_not_add_one]
  | negateBack h => simp [count, change, h]
  | stall h full => rw [if_neg (by omega)]
  | decrement h => simp [count, change, h, BitVec.sub_eq_add_neg]
  | clearX h | pullNothing h | pull h | copyRequest h | saveState h | notAsked h | asked h
  | copyCount h | push h | clearIsr h | shiftState h | negate h => simp [count, change, h]

theorem lastSeen_of_pc {m : Machine} (h : m.pc < 19 ∨ 24 < m.pc) :
    lastSeen m = channels m.isr := by
  rw [lastSeen, if_neg (by omega)]

theorem lastSeen_clock {pins : Word} {m m' : Machine} (hm : Registers m) (h : Clock pins m m') :
    lastSeen m' = if m.pc = 24 then channels pins else lastSeen m := by
  cases h with
  | sample h => simp [lastSeen, h, channels_shift]
  | jumpTable h =>
    have ht := jumpTarget_cases m.pc
    have hout : jumpTarget m.pc < 19 ∨ 24 < jumpTarget m.pc := by omega
    rw [if_neg (by omega), lastSeen_of_pc hout, lastSeen_of_pc (by omega)]
  | jump h =>
    have hlt := hm.computed h
    have hout : m.isr.toNat % 32 < 19 ∨ 24 < m.isr.toNat % 32 := by omega
    rw [if_neg (by omega), lastSeen_of_pc hout, lastSeen_of_pc (by omega)]
  | stall h full => rw [if_neg (by omega)]
  | decrement h | clearX h | pullNothing h | pull h | copyRequest h | saveState h | notAsked h
  | asked h | copyCount h | push h | clearIsr h | shiftState h | negate h | decrementX h
  | negateBack h => simp [lastSeen, h]

/-! ### Requests -/

/-- A request was pulled and its answer is still to be pushed. -/
def Serving (m : Machine) : Prop :=
  (m.pc = 17 ∧ m.osr ≠ 0) ∨ ((m.pc = 18 ∨ m.pc = 19) ∧ m.x ≠ 0) ∨ m.pc = 20 ∨ m.pc = 21

theorem not_serving_of_pc {m : Machine} (h : m.pc < 17 ∨ 21 < m.pc) : ¬ Serving m := by
  unfold Serving
  omega

/-- Only a PULL that finds a request takes one up, and only a request taken up is answered. -/
theorem unasked_clock {pins : Word} {m m' : Machine} (hm : Registers m) (h : Clock pins m m')
    (hserving : ¬ Serving m) (htx : m.pc = 16 → m.tx = []) :
    ¬ Serving m' ∧ m'.tx = m.tx ∧ m'.rx = m.rx := by
  cases h with
  | jumpTable h =>
    have ht := jumpTarget_cases m.pc
    exact ⟨not_serving_of_pc (by simp only; omega), rfl, rfl⟩
  | jump h =>
    have hlt := hm.computed h
    exact ⟨not_serving_of_pc (by simp only; omega), rfl, rfl⟩
  | pullNothing h =>
    have hx := hm.cleared h
    exact ⟨by simp [Serving, hx], rfl, rfl⟩
  | pull h w rest hpull => simp [htx h] at hpull
  | copyRequest h =>
    have hosr : m.osr = 0 := by
      by_contra hne
      exact hserving (.inl ⟨h, hne⟩)
    exact ⟨by simp [Serving, hosr], rfl, rfl⟩
  | saveState h =>
    have hx : m.x = 0 := by
      by_contra hne
      exact hserving (.inr (.inl ⟨.inl h, hne⟩))
    exact ⟨by simp [Serving, hx], rfl, rfl⟩
  | asked h hx => exact absurd (.inr (.inl ⟨.inr h, hx⟩)) hserving
  | copyCount h => exact absurd (.inr (.inr (.inl h))) hserving
  | push h | stall h => exact absurd (.inr (.inr (.inr h))) hserving
  | decrement | clearX | notAsked | clearIsr | shiftState | sample | negate | decrementX
  | negateBack => exact ⟨not_serving_of_pc (by simp), rfl, rfl⟩

theorem pull_clock {pins : Word} {m m' : Machine} (h : Clock pins m m') (hpc : m.pc = 16)
    {w : Word} {rest : List Word} (hw : w ≠ 0) (htx : m.tx = w :: rest) :
    Serving m' ∧ m'.pc = 17 ∧ m'.tx = rest ∧ m'.rx = m.rx := by
  cases h with
  | pull _ v rest' hv =>
    obtain ⟨rfl, rfl⟩ := List.cons.inj (htx.symm.trans hv)
    exact ⟨.inl ⟨rfl, hw⟩, rfl, rfl, rfl⟩
  | pullNothing _ hnone => simp [htx] at hnone
  | _ h => omega

theorem pc_of_serving {m : Machine} (h : Serving m) : 17 ≤ m.pc ∧ m.pc ≤ 21 := by
  unfold Serving at h
  omega

theorem serving_clock {pins : Word} {m m' : Machine} (h : Clock pins m m')
    (hserving : Serving m) (hpc : m.pc ≠ 21) :
    Serving m' ∧ m'.pc = m.pc + 1 ∧ m'.tx = m.tx ∧ m'.rx = m.rx := by
  have hbounds := pc_of_serving hserving
  cases h with
  | copyRequest h =>
    have hosr : m.osr ≠ 0 := by simpa [Serving, h] using hserving
    exact ⟨.inr (.inl ⟨.inl rfl, hosr⟩), by simp [h], rfl, rfl⟩
  | saveState h =>
    have hx : m.x ≠ 0 := by simpa [Serving, h] using hserving
    exact ⟨.inr (.inl ⟨.inr rfl, hx⟩), by simp [h], rfl, rfl⟩
  | notAsked h hx =>
    have hne : m.x ≠ 0 := by simpa [Serving, h] using hserving
    exact absurd hx hne
  | asked h => exact ⟨.inr (.inr (.inl rfl)), by simp [h], rfl, rfl⟩
  | copyCount h => exact ⟨.inr (.inr (.inr rfl)), by simp [h], rfl, rfl⟩
  | _ h => omega

theorem push_clock {pins : Word} {m m' : Machine} (hm : Registers m) (h : Clock pins m m')
    (hpc : m.pc = 21) (room : m.rx.length < 4) :
    ¬ Serving m' ∧ m'.tx = m.tx ∧ m'.rx = m.rx ++ [count m] := by
  have hcount : count m = m.y := by simp [count, change, hpc]
  cases h with
  | push h =>
    rw [hcount, ← hm.copied h]
    exact ⟨not_serving_of_pc (.inr (by simp)), rfl, rfl⟩
  | stall _ full => omega
  | _ h => omega

/-! ### Clocks -/

/-- The most clocks between the last read of the pins and the instruction at `pc`. -/
def age (pc : Nat) : Nat :=
  if pc < 14 then 1
  else if pc = 14 then 2
  else if pc < 25 then pc - 10
  else if pc = 25 then 0
  else pc - 24

/-- The most clocks from the instruction at `pc` to the end of the PUSH, for a request that
is still in the TX FIFO. -/
def wait (pc : Nat) : Nat :=
  if pc < 14 then 11
  else if pc = 14 then 8
  else if pc < 17 then 22 - pc
  else if pc < 20 then 35 - pc
  else if pc < 26 then 37 - pc
  else 36 - pc

theorem age_clock {pins : Word} {m m' : Machine} (hm : Registers m) (h : Clock pins m m')
    (hpc : m.pc ≠ 24) (room : m.rx.length < 4) : age m.pc + 1 ≤ age m'.pc := by
  cases h with
  | jumpTable h =>
    obtain ht | ht | ht := jumpTarget_cases m.pc <;> simp [ht, age, h]
  | jump h =>
    have hlt := hm.computed h
    simp only [age, h]
    split_ifs <;> omega
  | sample h => exact absurd h hpc
  | stall _ full => omega
  | decrement h | clearX h | pullNothing h | pull h | copyRequest h | saveState h | notAsked h
  | asked h | copyCount h | push h | clearIsr h | shiftState h | negate h | decrementX h
  | negateBack h => simp [age, h]

theorem wait_clock {pins : Word} {m m' : Machine} (hm : Registers m) (h : Clock pins m m')
    (hpc : m.pc ≠ 16) (hserving : ¬ Serving m) : wait m'.pc + 1 ≤ wait m.pc := by
  cases h with
  | jumpTable h =>
    obtain ht | ht | ht := jumpTarget_cases m.pc <;> simp [ht, wait, h]
  | jump h =>
    have hlt := hm.computed h
    simp only [wait, h]
    split_ifs <;> omega
  | asked h hx => exact absurd (.inr (.inl ⟨.inr h, hx⟩)) hserving
  | copyCount h => exact absurd (.inr (.inr (.inl h))) hserving
  | push h | stall h => exact absurd (.inr (.inr (.inr h))) hserving
  | pullNothing h | pull h => exact absurd h hpc
  | decrement h | clearX h | copyRequest h | saveState h | notAsked h | clearIsr h
  | shiftState h | sample h | negate h | decrementX h | negateBack h => simp [wait, h]

theorem age_le {pc : Nat} (h : pc < 29) : age pc ≤ 14 := by
  unfold age
  split_ifs <;> omega

theorem wait_pos {pc : Nat} (h : pc < 29) : 0 < wait pc := by
  unfold wait
  split_ifs <;> omega

theorem wait_le {m : Machine} (hm : Registers m) (hserving : ¬ Serving m) : wait m.pc ≤ 18 := by
  have hlt := hm.pc_lt
  have hne : m.pc ≠ 20 ∧ m.pc ≠ 21 := by
    unfold Serving at hserving
    omega
  unfold wait
  split_ifs <;> omega

end SrFirmware.QuadratureEncoder
