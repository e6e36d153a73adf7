import SrFirmware.Frame
import SrFirmware.Lib.Registers
import SrFirmware.Lib.Steps
import SrFirmware.Opcodes

/-!
# The gauge and its buffers between the cores

`bq27742_g1_read_bytes` sets the gauge's register pointer in one transfer and reads in the
next, with no lock between the cores, and the getters keep what they read in the one
`return_buf` of `bq27742_g1.c`. core0 answers state requests while core1 runs the jobs of the
alert line. A step is one transfer, one `memset`, one byte stored to or taken from a buffer, or
a register that changes by itself. What the functions only log is left out.
-/

namespace SrFirmware.GaugeBus

open Lib
open Max77958 (Core)
set_option autoImplicit false

def regControl : Nat := 0x00
def regTemperature : Nat := 0x06
def regVoltage : Nat := 0x08
def regFlags : Nat := 0x0A
def regSafetyStatus : Nat := 0x1A
def regStateOfHealth : Nat := 0x2E

def imaxMask : U16 := 1 <<< 4
def controlImaxIntClear : U16 := 0x0023

inductive Buffer where
  -- the static one of the file
  | returnBuf
  -- those of a run of `bq27742_g1_parse_interrupt_vals`
  | flagsBuf
  | safetyBuf
  deriving DecidableEq

inductive Op where
  | memsetSendBuf
  | memsetReturnBuf
  | setSendBuf (i : Nat) (v : Byte)
  -- the write transfer of the first bytes of `send_buf`
  | writeSendBuf (len : Nat)
  -- the two transfers of `bq27742_g1_read_bytes (command, buf, len)`
  | write (command : Nat)
  | read (command len : Nat) (buf : Buffer)
  -- the read transfer of `bq27742_g1_control`
  | readControl (len : Nat)
  -- a byte of what the caller makes of the buffer
  | load (buf : Buffer) (i : Nat)
  -- `if (flags & IMAX_MASK) bq27742_g1_control (BQ27742_G1_CONTROL_IMAX_INT_CLEAR)`
  | clearImaxIfSet
  deriving DecidableEq

/-! ### The functions -/

def readBytes (command : Nat) (buf : Buffer) (len : Nat) : List Op :=
  [.write command, .read command len buf]

def control (subcommandCode : U16) : List Op :=
  [.memsetSendBuf, .memsetReturnBuf, .setSendBuf 0 0x00, .setSendBuf 1 (lowByte subcommandCode),
   .setSendBuf 2 (highByte subcommandCode), .writeSendBuf 4, .setSendBuf 0 0x00, .writeSendBuf 1,
   .readControl 2]

def getVoltage : List Op :=
  [.memsetReturnBuf, .memsetSendBuf] ++ readBytes regVoltage .returnBuf 2 ++
    [.load .returnBuf 1, .load .returnBuf 0]

def getSafetyStats : List Op :=
  [.memsetSendBuf, .memsetReturnBuf] ++ readBytes regSafetyStatus .returnBuf 2 ++
    [.load .returnBuf 0]

def getTemp : List Op :=
  [.memsetReturnBuf, .memsetSendBuf] ++ readBytes regTemperature .returnBuf 2 ++
    [.load .returnBuf 1, .load .returnBuf 0]

def getSoh : List Op :=
  [.memsetReturnBuf, .memsetSendBuf] ++ readBytes regStateOfHealth .returnBuf 2 ++
    [.load .returnBuf 0]

def getFlags : List Op :=
  [.memsetSendBuf, .memsetReturnBuf] ++ readBytes regFlags .returnBuf 2 ++
    [.load .returnBuf 1, .load .returnBuf 0]

def getBatteryState : List Op :=
  getVoltage ++ getSafetyStats ++ getTemp ++ getSoh ++ getFlags

def parseInterruptVals : List Op :=
  readBytes regFlags .flagsBuf 2 ++ readBytes regSafetyStatus .safetyBuf 2 ++
    [.load .flagsBuf 1, .load .flagsBuf 0, .load .safetyBuf 1, .load .safetyBuf 0,
     .clearImaxIfSet]

abbrev Registers := Nat → Byte

def peripheral : Peripheral Registers Byte :=
  ⟨fun regs r => regs r, fun regs r v => Function.update regs r v⟩

structure State where
  gauge : Addressed Registers
  sendBuf : Nat → Byte
  buffer : Buffer → Nat → Byte
  -- what each core has yet to do
  script : Core → List Op
  -- only for the statements: what the call that was to fill a buffer last was asked for, and
  -- whether a call has delivered, or its caller has taken, anything else
  due : Buffer → Nat → Byte
  misread : Bool

def start (pointer : Nat) (regs : Registers) : State where
  gauge := ⟨pointer, regs⟩
  sendBuf := fun _ => 0
  buffer := fun _ _ => 0
  script := fun _ => []
  due := fun _ _ => 0
  misread := false

inductive Action where
  -- core0 begins to answer a state request
  | getBatteryState
  -- core1 begins to run a job
  | parseInterruptVals
  | core (c : Core)
  -- a register changes by itself
  | measure (r : Nat) (v : Byte)
  deriving DecidableEq

/-- The bytes of a transfer, and what was there behind them. -/
def fill (bytes : List Byte) (old : Nat → Byte) (i : Nat) : Byte := bytes.getD i (old i)

namespace State

/-! ### Steps -/

def flags (s : State) : U16 := word (s.buffer .flagsBuf 0) (s.buffer .flagsBuf 1)

def expand (s : State) : Op → List Op
  | .clearImaxIfSet => if s.flags &&& imaxMask ≠ 0 then control controlImaxIntClear else []
  | _ => []

def setBuffer (s : State) (buf : Buffer) (bytes : Nat → Byte) : State :=
  { s with buffer := Function.update s.buffer buf bytes }

def perform (s : State) : Op → State
  | .memsetSendBuf => { s with sendBuf := fun _ => 0 }
  | .memsetReturnBuf => s.setBuffer .returnBuf fun _ => 0
  | .setSendBuf i v => { s with sendBuf := Function.update s.sendBuf i v }
  | .writeSendBuf len =>
    { s with gauge :=
        peripheral.write (s.sendBuf 0).toNat ((List.range' 1 (len - 1)).map s.sendBuf) s.gauge }
  | .write command => { s with gauge := peripheral.write command [] s.gauge }
  | .read command len buf =>
    let (bytes, gauge) := peripheral.read len s.gauge
    let asked := peripheral.loadFrom command len s.gauge.device
    { s.setBuffer buf (fill bytes (s.buffer buf)) with
      gauge := gauge
      due := Function.update s.due buf (fill asked (s.buffer buf))
      misread := s.misread || decide (bytes ≠ asked) }
  | .readControl len =>
    let (bytes, gauge) := peripheral.read len s.gauge
    { s.setBuffer .returnBuf (fill bytes (s.buffer .returnBuf)) with gauge := gauge }
  | .load buf i => { s with misread := s.misread || decide (s.buffer buf i ≠ s.due buf i) }
  | .clearImaxIfSet => s

def goto (s : State) (c : Core) (script : List Op) : State :=
  { s with script := Function.update s.script c script }

def step (s : State) : Action → Option State
  | .getBatteryState =>
    if s.script .core0 = [] then some (s.goto .core0 GaugeBus.getBatteryState) else none
  | .parseInterruptVals =>
    if s.script .core1 = [] then some (s.goto .core1 GaugeBus.parseInterruptVals) else none
  | .core c =>
    match s.script c with
    | [] => none
    | op :: rest => some ((s.perform op).goto c (s.expand op ++ rest))
  | .measure r v =>
    some { s with gauge := ⟨s.gauge.pointer, Function.update s.gauge.device r v⟩ }

/-! ### Reads at the wrong register -/

def NoMisread (s : State) : Prop := s.misread = false

instance (s : State) : Decidable s.NoMisread := inferInstanceAs (Decidable (_ = _))

def pointerAfter (s : State) : Op → Nat
  | .writeSendBuf len => (s.sendBuf 0).toNat + (len - 1)
  | .write command => command
  | .read _ len _ | .readControl len => s.gauge.pointer + len
  | .memsetSendBuf | .memsetReturnBuf | .setSendBuf _ _ | .load _ _ | .clearImaxIfSet =>
    s.gauge.pointer

def returnBufAfter (s : State) : Op → Nat → Byte
  | .memsetReturnBuf => fun _ => 0
  | .read _ len .returnBuf | .readControl len =>
    fill (peripheral.loadFrom s.gauge.pointer len s.gauge.device) (s.buffer .returnBuf)
  | _ => s.buffer .returnBuf

/-- What comes between the two transfers of the other core's read leaves the pointer where that
read has put it; what comes between the read and the use of its bytes leaves them in
`return_buf`. -/
def ReadKept (s : State) : Action → Prop
  | .core c =>
    match s.script c, s.script c.other with
    | op :: _, .read command _ _ :: _ => s.pointerAfter op = command
    | op :: _, .load .returnBuf _ :: _ =>
      ∀ i < 2, s.returnBufAfter op i = s.buffer .returnBuf i
    | _, _ => True
  | _ => True

instance (s : State) (a : Action) : Decidable (s.ReadKept a) := by
  unfold ReadKept
  split
  · split <;> infer_instance
  · exact .isTrue trivial

end State

/-! ### Scripts -/

/-- A read transfer comes right behind the write of its pointer, and what it has left in
`return_buf` is taken before anything else is done. -/
def Paired : List Op → Prop
  | [] => True
  | op :: rest =>
    (∀ command len buf, rest.head? = some (.read command len buf) → op = .write command) ∧
      (∀ i, rest.head? = some (.load .returnBuf i) →
        (∃ command len, op = .read command len .returnBuf) ∨ ∃ j, op = .load .returnBuf j) ∧
      (∀ buf i, op = .load buf i → i < 2) ∧ Paired rest

theorem paired_getBatteryState : Paired getBatteryState := by
  simp [Paired, getBatteryState, getVoltage, getSafetyStats, getTemp, getSoh, getFlags, readBytes]

theorem paired_parseInterruptVals : Paired parseInterruptVals := by
  simp [Paired, parseInterruptVals, readBytes]

def Begins (script : List Op) : Prop :=
  ∀ op, script.head? = some op → (∀ command len buf, op ≠ .read command len buf) ∧
    ∀ i, op ≠ .load .returnBuf i

theorem begins_getBatteryState : Begins getBatteryState := by
  intro op hop
  obtain rfl := Option.some.inj hop
  simp

theorem begins_parseInterruptVals : Begins parseInterruptVals := by
  intro op hop
  obtain rfl := Option.some.inj hop
  simp

theorem paired_control {rest : List Op} (h : Paired rest) (hbegins : Begins rest) (code : U16) :
    Paired (control code ++ rest) := by
  have hread (command len : Nat) (buf : Buffer) : rest.head? ≠ some (.read command len buf) :=
    fun hhead => (hbegins _ hhead).1 command len buf rfl
  have hload (i : Nat) : rest.head? ≠ some (.load .returnBuf i) :=
    fun hhead => (hbegins _ hhead).2 i rfl
  simp [Paired, control, h, hread, hload]

namespace State

/-! ### What a buffer holds -/

def Filled (s : State) (buf : Buffer) : Prop := ∀ i < 2, s.buffer buf i = s.due buf i

structure Inv (s : State) : Prop where
  right : s.NoMisread
  paired : ∀ c, Paired (s.script c)
  -- a core about to read finds the pointer where it has put it
  aimed : ∀ c command len buf, (s.script c).head? = some (.read command len buf) →
    s.gauge.pointer = command
  -- a core about to use `return_buf` finds what it has read
  filled : ∀ c i, (s.script c).head? = some (.load .returnBuf i) → s.Filled .returnBuf
  locals : s.Filled .flagsBuf ∧ s.Filled .safetyBuf

variable {s t : State}

theorem inv_start (pointer : Nat) (regs : Registers) : (start pointer regs).Inv :=
  ⟨rfl, fun _ => trivial, nofun, nofun, fun _ _ => rfl, fun _ _ => rfl⟩

theorem perform_pointer (op : Op) : (s.perform op).gauge.pointer = s.pointerAfter op := by
  cases op with
  | writeSendBuf len => simp [perform, pointerAfter]
  | memsetSendBuf | memsetReturnBuf | setSendBuf i v | write command | read command len buf
  | readControl len | load buf i | clearImaxIfSet => rfl

theorem perform_script (op : Op) : (s.perform op).script = s.script := by
  cases op <;> rfl

theorem perform_returnBuf (op : Op) :
    (s.perform op).buffer .returnBuf = s.returnBufAfter op := by
  cases op with
  | memsetReturnBuf | readControl len =>
    simp [perform, setBuffer, returnBufAfter, Peripheral.read]
  | read command len buf =>
    cases buf with
    | returnBuf => simp [perform, setBuffer, returnBufAfter, Peripheral.read]
    | flagsBuf | safetyBuf => rfl
  | memsetSendBuf | setSendBuf i v | writeSendBuf len | write command | load buf i
  | clearImaxIfSet => rfl

/-- A read that finds the pointer where it should be fills its buffer. -/
theorem filled_read {command len : Nat} (h : s.gauge.pointer = command) (buf : Buffer) :
    (s.perform (.read command len buf)).Filled buf := by
  intro i _
  simp [perform, setBuffer, Peripheral.read, h]

/-- Nothing but a read of a function's own touches its buffers. -/
theorem perform_of_ne {buf : Buffer} {op : Op} (hbuf : buf ≠ .returnBuf)
    (hop : ∀ command len, op ≠ .read command len buf) :
    (s.perform op).buffer buf = s.buffer buf ∧ (s.perform op).due buf = s.due buf := by
  cases op with
  | memsetReturnBuf | readControl len => exact ⟨Function.update_of_ne hbuf _ _, rfl⟩
  | read command len buf' =>
    have hne : buf ≠ buf' := by
      rintro rfl
      exact hop command len rfl
    exact ⟨Function.update_of_ne hne _ _, Function.update_of_ne hne _ _⟩
  | memsetSendBuf | setSendBuf i v | writeSendBuf len | write command | load buf i
  | clearImaxIfSet => exact ⟨rfl, rfl⟩

theorem perform_due_of_ne {op : Op} (hop : ∀ command len, op ≠ .read command len .returnBuf) :
    (s.perform op).due .returnBuf = s.due .returnBuf := by
  cases op with
  | read command len buf =>
    have hne : Buffer.returnBuf ≠ buf := by
      rintro rfl
      exact hop command len rfl
    exact Function.update_of_ne hne _ _
  | memsetSendBuf | memsetReturnBuf | setSendBuf i v | writeSendBuf len | write command
  | readControl len | load buf i | clearImaxIfSet => rfl

theorem perform_noMisread {op : Op} (h : s.NoMisread)
    (hread : ∀ command len buf, op = .read command len buf → s.gauge.pointer = command)
    (hload : ∀ buf i, op = .load buf i → s.buffer buf i = s.due buf i) :
    (s.perform op).NoMisread := by
  have hright : s.misread = false := h
  cases op with
  | read command len buf =>
    have hpointer := hread command len buf rfl
    simp [NoMisread, perform, Peripheral.read, hpointer, hright]
  | load buf i =>
    have hloaded := hload buf i rfl
    simp [NoMisread, perform, hloaded, hright]
  | memsetSendBuf | memsetReturnBuf | setSendBuf i v | writeSendBuf len | write command
  | readControl len | clearImaxIfSet => exact h

theorem begins_of_paired {op : Op} {rest : List Op} (h : Paired (op :: rest))
    (hop : op = .clearImaxIfSet) : Begins rest := by
  obtain ⟨hread, hload, -⟩ := h
  subst hop
  intro x hx
  refine ⟨?_, ?_⟩
  · rintro command len buf rfl
    cases hread command len buf hx
  · rintro i rfl
    rcases hload i hx with ⟨command, len, hop⟩ | ⟨j, hop⟩ <;> cases hop

theorem paired_expand {op : Op} {rest : List Op} (h : Paired (op :: rest)) :
    Paired (s.expand op ++ rest) := by
  have hrest : Paired rest := h.2.2.2
  cases op with
  | clearImaxIfSet =>
    simp only [expand]
    split
    · exact paired_control hrest (begins_of_paired h rfl) _
    · exact hrest
  | memsetSendBuf | memsetReturnBuf | setSendBuf i v | writeSendBuf len | write command
  | read command len buf | readControl len | load buf i => exact hrest

/-- What follows an operation at once was there before, or is the `memset` of a control. -/
theorem head_expand (s : State) (op : Op) (rest : List Op) :
    (s.expand op ++ rest).head? = rest.head? ∨
      op = .clearImaxIfSet ∧ (s.expand op ++ rest).head? = some .memsetSendBuf := by
  cases op with
  | clearImaxIfSet =>
    simp only [expand]
    split
    · exact Or.inr ⟨trivial, rfl⟩
    · exact Or.inl rfl
  | memsetSendBuf | memsetReturnBuf | setSendBuf i v | writeSendBuf len | write command
  | read command len buf | readControl len | load buf i => exact Or.inl rfl

theorem filled_core {c : Core} {op : Op} {rest : List Op} (hi : s.Inv)
    (hs : s.script c = op :: rest) (hok : s.ReadKept (.core c)) {c' : Core} {i : Nat}
    (hload : (((s.perform op).goto c (s.expand op ++ rest)).script c').head? =
      some (.load .returnBuf i)) : (s.perform op).Filled .returnBuf := by
  have hpaired : Paired (op :: rest) := hs ▸ hi.paired c
  have haimed (command len : Nat) (buf : Buffer) (hop : op = .read command len buf) :
      s.gauge.pointer = command := hi.aimed c command len buf (by rw [hs, hop]; rfl)
  by_cases hread : ∃ command len, op = .read command len .returnBuf
  · obtain ⟨command, len, rfl⟩ := hread
    exact filled_read (haimed command len .returnBuf rfl) .returnBuf
  · simp only [not_exists] at hread
    have hdue := perform_due_of_ne (s := s) hread
    have hkept (hbytes : ∀ j < 2, s.returnBufAfter op j = s.buffer .returnBuf j)
        (hfilled : s.Filled .returnBuf) : (s.perform op).Filled .returnBuf := by
      intro j hj
      rw [perform_returnBuf, hdue, hbytes j hj]
      exact hfilled j hj
    by_cases hc : c' = c
    · subst hc
      simp only [goto, Function.update_self] at hload
      rcases s.head_expand op rest with hhead | ⟨-, hhead⟩
      · rw [hhead] at hload
        rcases hpaired.2.1 i hload with ⟨command, len, hop⟩ | ⟨j, rfl⟩
        · exact absurd hop (hread command len)
        · exact hkept (fun _ _ => rfl) (hi.filled c' j (by rw [hs]; rfl))
      · rw [hhead] at hload
        cases hload
    · have hother : c' = c.other := by cases c <;> cases c' <;> first | rfl | contradiction
      simp only [goto, Function.update_of_ne hc, perform_script] at hload
      have hfilled := hi.filled c' i hload
      rw [hother] at hload
      obtain ⟨tail, htail⟩ := List.head?_eq_some_iff.mp hload
      refine hkept ?_ hfilled
      simpa [ReadKept, hs, htail] using hok

theorem aimed_core {c : Core} {op : Op} {rest : List Op} (hi : s.Inv)
    (hs : s.script c = op :: rest) (hok : s.ReadKept (.core c)) {c' : Core} {command len : Nat}
    {buf : Buffer} (hread : (((s.perform op).goto c (s.expand op ++ rest)).script c').head? =
      some (.read command len buf)) : (s.perform op).gauge.pointer = command := by
  have hpaired : Paired (op :: rest) := hs ▸ hi.paired c
  rw [perform_pointer]
  by_cases hc : c' = c
  · subst hc
    simp only [goto, Function.update_self] at hread
    rcases s.head_expand op rest with hhead | ⟨-, hhead⟩
    · rw [hhead] at hread
      rw [hpaired.1 command len buf hread]
      rfl
    · rw [hhead] at hread
      cases hread
  · have hother : c' = c.other := by cases c <;> cases c' <;> first | rfl | contradiction
    simp only [goto, Function.update_of_ne hc, perform_script] at hread
    rw [hother] at hread
    obtain ⟨tail, htail⟩ := List.head?_eq_some_iff.mp hread
    simpa [ReadKept, hs, htail] using hok

theorem locals_perform {c : Core} {op : Op} {rest : List Op} (hi : s.Inv)
    (hs : s.script c = op :: rest) {buf : Buffer} (hbuf : buf ≠ .returnBuf)
    (hfilled : s.Filled buf) : (s.perform op).Filled buf := by
  by_cases hread : ∃ command len, op = .read command len buf
  · obtain ⟨command, len, rfl⟩ := hread
    exact filled_read (hi.aimed c command len buf (by rw [hs]; rfl)) buf
  · simp only [not_exists] at hread
    obtain ⟨hbuffer, hdue⟩ := perform_of_ne (s := s) hbuf hread
    intro i hlt
    rw [hbuffer, hdue]
    exact hfilled i hlt

theorem inv_core {c : Core} (hi : s.Inv) (hok : s.ReadKept (.core c))
    (h : s.step (.core c) = some t) : t.Inv := by
  simp only [step] at h
  split at h
  · cases h
  · rename_i op rest hs
    obtain rfl := Option.some.inj h
    have hpaired : Paired (op :: rest) := hs ▸ hi.paired c
    refine ⟨?_, ?_, fun _ _ _ _ hread => aimed_core hi hs hok hread,
      fun _ _ hload => filled_core hi hs hok hload, locals_perform hi hs (by decide) hi.locals.1,
      locals_perform hi hs (by decide) hi.locals.2⟩
    · apply perform_noMisread hi.right
      · rintro command len buf rfl
        exact hi.aimed c command len buf (by rw [hs]; rfl)
      · rintro buf i rfl
        have hlt := hpaired.2.2.1 buf i rfl
        cases buf with
        | returnBuf => exact hi.filled c i (by rw [hs]; rfl) i hlt
        | flagsBuf => exact hi.locals.1 i hlt
        | safetyBuf => exact hi.locals.2 i hlt
    · intro c'
      by_cases hc : c' = c
      · subst hc
        simpa [goto] using paired_expand hpaired
      · simpa [goto, Function.update_of_ne hc, perform_script] using hi.paired c'

theorem inv_goto {c : Core} {script : List Op} (hi : s.Inv) (hpaired : Paired script)
    (hbegins : Begins script) : (s.goto c script).Inv := by
  refine ⟨hi.right, ?_, ?_, ?_, hi.locals⟩
  · intro c'
    by_cases hc : c' = c
    · subst hc
      simpa [goto] using hpaired
    · simpa [goto, Function.update_of_ne hc] using hi.paired c'
  · intro c' command len buf hread
    by_cases hc : c' = c
    · subst hc
      simp only [goto, Function.update_self] at hread
      exact absurd rfl ((hbegins _ hread).1 command len buf)
    · simp only [goto, Function.update_of_ne hc] at hread
      exact hi.aimed c' command len buf hread
  · intro c' i hload
    by_cases hc : c' = c
    · subst hc
      simp only [goto, Function.update_self] at hload
      exact absurd rfl ((hbegins _ hload).2 i)
    · simp only [goto, Function.update_of_ne hc] at hload
      exact hi.filled c' i hload

theorem inv_step {a : Action} (hi : s.Inv) (hok : s.ReadKept a) (h : s.step a = some t) :
    t.Inv := by
  cases a with
  | getBatteryState =>
    simp only [step] at h
    split at h
    · obtain rfl := Option.some.inj h
      exact inv_goto hi paired_getBatteryState begins_getBatteryState
    · cases h
  | parseInterruptVals =>
    simp only [step] at h
    split at h
    · obtain rfl := Option.some.inj h
      exact inv_goto hi paired_parseInterruptVals begins_parseInterruptVals
    · cases h
  | core c => exact inv_core hi hok h
  | measure r v =>
    obtain rfl := Option.some.inj h
    exact ⟨hi.right, hi.paired, hi.aimed, hi.filled, hi.locals⟩

end State

open State

/-- As long as the pointer is kept for every read, and `return_buf` for every use of it, every
call delivers the registers it was asked for, and its caller takes them. -/
theorem reads_deliver_addressed_registers {pointer : Nat} {regs : Registers}
    {actions : List Action} (h : Along step ReadKept (start pointer regs) actions) :
    Throughout step NoMisread (start pointer regs) actions :=
  (throughout_of_along inv_step (inv_start pointer regs) h).mono fun _ hi => hi.right

/-- Flags with `IMAX` set: the job ends with a control. -/
def imaxSet (r : Nat) : Byte := if r = regFlags then 0x10 else BitVec.ofNat 8 r

/-- Two state requests and a job, whose control comes between two getters. -/
theorem reads_deliver_addressed_registers_control :
    Throughout step NoMisread (start 0 imaxSet)
      ([.getBatteryState] ++ List.replicate 6 (.core .core0) ++ [.parseInterruptVals] ++
        List.replicate 2 (.core .core1) ++ List.replicate 7 (.core .core0) ++
        List.replicate 16 (.core .core1) ++ List.replicate 16 (.core .core0) ++
        [.getBatteryState] ++ List.replicate 6 (.core .core0)) :=
  reads_deliver_addressed_registers (by decide)

/-- The job's pointer write between the two transfers of the voltage read: the flags are
delivered for the voltage. -/
theorem voltage_read_delivers_flags :
    ¬ Throughout step NoMisread (start 0 imaxSet)
      [.getBatteryState, .core .core0, .core .core0, .core .core0, .parseInterruptVals,
        .core .core1, .core .core0] := by
  decide

/-- The job's control between the voltage read and its use: the voltage is what the control has
read back, `0x0023`. -/
example :
    (run step (start 0 imaxSet)
      ([.getBatteryState, .parseInterruptVals] ++ List.replicate 9 (.core .core1) ++
        List.replicate 4 (.core .core0) ++ List.replicate 9 (.core .core1))).map
      (fun s => ((s.script .core0).head?, s.buffer .returnBuf 0, s.buffer .returnBuf 1)) =
      some (some (.load .returnBuf 1), 0x23, 0x00) := by
  decide +kernel

end SrFirmware.GaugeBus
