import SrFirmware.Max77976

/-!
# No interrupt of the charger is lost, and its boot test ends

The pin is driven only while every cause is masked, so a cause that the charger raises meets
a line that falls, and so does the boot test. What is left to the schedule is the register
pointer, which the two cores share.
-/

namespace SrFirmware.Max77976

open Lib
open Max77958 (Core)
set_option autoImplicit false

/-! ### Registers -/

theorem storeFrom_of_lt {q r : Nat} (h : q < r) (data : List Byte) (regs : Registers) :
    peripheral.storeFrom r data regs q = regs q := by
  induction data generalizing r regs with
  | nil => rfl
  | cons v data ih =>
    rw [Peripheral.storeFrom_cons, ih (Nat.lt_succ_of_lt h)]
    simp only [peripheral]
    split
    · rfl
    · exact Function.update_of_ne h.ne _ _

theorem storeFrom_chgInt (r : Nat) (data : List Byte) (regs : Registers) :
    peripheral.storeFrom r data regs regChgInt = regs regChgInt := by
  induction data generalizing r regs with
  | nil => rfl
  | cons v data ih =>
    rw [Peripheral.storeFrom_cons, ih]
    simp only [peripheral]
    split
    · rfl
    · rename_i hr
      exact Function.update_of_ne (fun hq => hr (by simp [readOnly, hq])) _ _

theorem storeFrom_chgIntMask (v : Byte) (data : List Byte) (regs : Registers) :
    peripheral.storeFrom regChgIntMask (v :: data) regs regChgIntMask = v := by
  rw [Peripheral.storeFrom_cons, storeFrom_of_lt (Nat.lt_succ_self _)]
  simp [peripheral, readOnly, regChgInt, regChgIntMask]

/-! ### The pin -/

structure Pin where
  driven : Bool
  testStarted : Bool
  mask : Byte

def Pin.after (p : Pin) : Op → Pin
  | .write r data => if r = regChgIntMask then { p with mask := data.headD p.mask } else p
  | .drive low => { p with driven := low }
  | .setTestStarted started => { p with testStarted := started }
  | .read _ _ | .scan | .setTestCompleted _ | .awaitCompleted => p

/-- While the pin is driven, the masks stay as they are and the test is not taken back. -/
def Pin.Allows (p : Pin) : Op → Prop
  | .write r data =>
    regChgIntMask < r ∨ data = [] ∨ r = regChgIntMask ∧ p.driven = false
  | .read _ _ | .scan => True
  | .drive low =>
    low = true → p.driven = false ∧ p.testStarted = true ∧ p.mask = 0b11111111
  | .setTestStarted _ | .setTestCompleted _ => p.driven = false
  | .awaitCompleted => p.driven = true

instance (p : Pin) (op : Op) : Decidable (p.Allows op) := by
  cases op <;> unfold Pin.Allows <;> infer_instance

/-- In the end the pin is an input and the masks are those of the driver. -/
def Pin.Orderly (p : Pin) : List Op → Prop
  | [] => p.driven = false ∧ p.mask = interruptMasks
  | op :: rest => p.Allows op ∧ (p.after op).Orderly rest

/-- What core1 does. -/
def Op.OfJob : Op → Prop
  | .write _ data => data = []
  | .read command len => regChgInt < command + len
  | .setTestCompleted completed => completed = true
  | .scan | .drive _ | .setTestStarted _ | .awaitCompleted => False

theorem orderly_max77976Init (mask : Byte) :
    Pin.Orderly ⟨false, false, mask⟩ max77976Init := by
  simp [max77976Init, setInterruptMasks, getInterruptVals, Pin.Orderly, Pin.Allows, Pin.after,
    regChgIntMask]

theorem orderly_routine (routine : Routine) (testStarted : Bool) :
    Pin.Orderly ⟨false, testStarted, interruptMasks⟩ routine.script := by
  cases routine <;>
    simp [Routine.script, getChgDetails, testGetId, testGetFsw, testInterrupt, setInterruptMasks,
      setInterruptMasksAllMasked, readByte, Pin.Orderly, Pin.Allows, Pin.after, regChgIntMask]

theorem ofJob_script (job : Job) : ∀ op ∈ job.script, op.OfJob := by
  cases job <;> simp [Job.script, getInterruptVals, Op.OfJob, regChgInt]

namespace State
variable {s t : State}

def pin (s : State) : Pin := ⟨s.driven, s.testStarted, s.charger.device regChgIntMask⟩

theorem read_regs_of_ne {command len q : Nat} (hq : q ≠ regChgInt) :
    (s.read command len).charger.device q = s.charger.device q := by
  simp only [State.read]
  split
  · exact Function.update_of_ne hq _ _
  · rfl

theorem perform_pin {op : Op} (h : s.pin.Allows op) : (s.perform op).pin = s.pin.after op := by
  cases op with
  | write r data =>
    simp only [perform, pin, Pin.after, Peripheral.write_device]
    rcases h with hr | rfl | ⟨rfl, -⟩
    · rw [storeFrom_of_lt hr, if_neg hr.ne']
    · split <;> rfl
    · cases data with
      | nil => rfl
      | cons v data => rw [storeFrom_chgIntMask, if_pos rfl]; rfl
  | read command len =>
    have hmask : (s.read command len).charger.device regChgIntMask =
        s.charger.device regChgIntMask := read_regs_of_ne (by decide)
    simp only [perform, pin, Pin.after, hmask]
    rfl
  | scan =>
    have hmask : (s.read s.charger.pointer 1).charger.device regChgIntMask =
        s.charger.device regChgIntMask := read_regs_of_ne (by decide)
    simp only [perform, pin, Pin.after, hmask]
    rfl
  | drive low | setTestStarted started | setTestCompleted completed | awaitCompleted => rfl

theorem perform_pin_ofJob {op : Op} (h : op.OfJob) : (s.perform op).pin = s.pin := by
  cases op with
  | write r data =>
    obtain rfl : data = [] := h
    rfl
  | read command len =>
    have hallowed : s.pin.Allows (.read command len) := trivial
    exact perform_pin hallowed
  | setTestCompleted completed => rfl
  | scan | drive low | setTestStarted started | awaitCompleted => cases h

/-! ### The boot test -/

/-- The response to the edge of the test has come, or is on its way. -/
def Responds (s : State) : Prop :=
  s.testCompleted = true ∨ s.latched = true ∨ s.handler ≠ .idle ∨
    .testResponse ∈ s.callQueue ∨ .setTestCompleted true ∈ s.script .core1

structure Steady (s : State) : Prop where
  orderly : s.pin.Orderly (s.script .core0)
  ofJob : ∀ op ∈ s.script .core1, op.OfJob
  driven : s.driven = true →
    s.testStarted = true ∧ s.charger.device regChgIntMask = 0b11111111 ∧ s.Responds

@[simp] theorem latch_pin : (s.latch t).pin = t.pin := rfl

@[simp] theorem goto_pin (c : Core) (script : List Op) : (s.goto c script).pin = s.pin := rfl

@[simp] theorem latch_script : (s.latch t).script = t.script := rfl

@[simp] theorem goto_script_self (c : Core) (script : List Op) :
    (s.goto c script).script c = script := Function.update_self ..

theorem goto_script_of_ne {c d : Core} (h : d ≠ c) (script : List Op) :
    (s.goto c script).script d = s.script d := Function.update_of_ne h ..

@[simp] theorem perform_script (op : Op) : (s.perform op).script = s.script := by
  cases op <;> rfl

theorem raise_pin (bits : Byte) : (s.raise bits).pin = s.pin := by
  have hne : regChgIntMask ≠ regChgInt := by decide
  simp [pin, State.raise, hne]

theorem Responds.latch (h : t.Responds) : (s.latch t).Responds := by
  rcases h with h | h | h
  · exact Or.inl h
  · exact Or.inr (Or.inl (by simp [State.latch, h]))
  · exact Or.inr (Or.inr h)

theorem Responds.goto (h : s.Responds) (script : List Op) :
    (s.goto .core0 script).Responds := by
  have hkept := goto_script_of_ne (s := s) (c := .core0) (d := .core1) (by decide) script
  unfold Responds at h ⊢
  rw [hkept]
  exact h

/-- What core0 does while the pin is driven takes no response back. -/
theorem Responds.perform {op : Op} (h : s.Responds)
    (hop : op ≠ .setTestCompleted false) : (s.perform op).Responds := by
  cases op with
  | write r data | read command len | scan | drive low | setTestStarted started
  | awaitCompleted => exact h
  | setTestCompleted completed =>
    cases completed with
    | true => exact Or.inl rfl
    | false => exact absurd rfl hop

theorem Pin.after_driven {p : Pin} {op : Op} (hallows : p.Allows op)
    (h : (p.after op).driven = true) :
    p.driven = true ∧ p.after op = p ∧ op ≠ .setTestCompleted false ∨
      op = .drive true ∧ p.driven = false ∧ p.testStarted = true ∧ p.mask = 0b11111111 := by
  cases op with
  | write r data =>
    have hdriven : p.driven = true := by
      simp only [Pin.after] at h
      split at h <;> exact h
    refine Or.inl ⟨hdriven, ?_, nofun⟩
    simp only [Pin.after]
    rcases hallows with hr | rfl | ⟨-, hlow⟩
    · rw [if_neg hr.ne']
    · split <;> rfl
    · rw [hdriven] at hlow
      cases hlow
  | read command len => exact Or.inl ⟨h, rfl, nofun⟩
  | scan => exact Or.inl ⟨h, rfl, nofun⟩
  | awaitCompleted => exact Or.inl ⟨h, rfl, nofun⟩
  | drive low =>
    obtain rfl : low = true := h
    obtain ⟨hdriven, hstarted, hmask⟩ := hallows rfl
    exact Or.inr ⟨rfl, hdriven, hstarted, hmask⟩
  | setTestStarted started =>
    have hlow : p.driven = false := hallows
    rw [show p.driven = true from h] at hlow
    cases hlow
  | setTestCompleted completed =>
    have hlow : p.driven = false := hallows
    rw [show p.driven = true from h] at hlow
    cases hlow

theorem intbHigh_of_masked (hdriven : s.driven = false)
    (hmask : s.charger.device regChgIntMask = 0b11111111) : s.intbHigh = true := by
  simp [intbHigh, unmasked, hdriven, hmask]

theorem latched_of_falls (hs : s.intbHigh = true) (ht : t.intbHigh = false) :
    (s.latch t).latched = true := by
  simp [State.latch, hs, ht]

theorem steady_armed (pointer : Nat) (regs : Registers) : (armed pointer regs).Steady :=
  ⟨orderly_max77976Init _, by simp [armed], nofun⟩

theorem Steady.core0 (hs : s.Steady) {op : Op} {rest : List Op}
    (hscript : s.script .core0 = op :: rest) :
    (s.latch ((s.perform op).goto .core0 rest)).Steady := by
  have horderly := hs.orderly
  rw [hscript] at horderly
  obtain ⟨hallows, horderly⟩ := horderly
  have hpin : (s.latch ((s.perform op).goto .core0 rest)).pin = s.pin.after op :=
    perform_pin hallows
  refine ⟨?_, ?_, ?_⟩
  · rw [hpin]
    simpa using horderly
  · simpa [goto_script_of_ne (show Core.core1 ≠ .core0 by decide)] using hs.ofJob
  · intro hdriven
    have hafter : (s.pin.after op).driven = true := hpin ▸ hdriven
    rcases Pin.after_driven hallows hafter with
      ⟨hwas, hsame, hop⟩ | ⟨rfl, hwas, hstarted, hmask⟩
    · obtain ⟨hstarted, hmask, hresponds⟩ := hs.driven hwas
      rw [hsame] at hpin
      refine ⟨?_, ?_, ((hresponds.perform hop).goto rest).latch⟩
      · exact (congrArg Pin.testStarted hpin).trans hstarted
      · exact (congrArg Pin.mask hpin).trans hmask
    · -- the edge of the test
      have hhigh := intbHigh_of_masked hwas hmask
      refine ⟨hstarted, hmask, Or.inr (Or.inl (latched_of_falls hhigh ?_))⟩
      simp [intbHigh, State.goto, State.perform]

theorem Steady.core1 (hs : s.Steady) {op : Op} {rest : List Op}
    (hscript : s.script .core1 = op :: rest) :
    (s.latch ((s.perform op).goto .core1 rest)).Steady := by
  have hall : ∀ x ∈ op :: rest, x.OfJob := hscript ▸ hs.ofJob
  have hop : op.OfJob := hall op List.mem_cons_self
  have hpin : (s.latch ((s.perform op).goto .core1 rest)).pin = s.pin := perform_pin_ofJob hop
  refine ⟨?_, ?_, ?_⟩
  · rw [hpin]
    simpa [goto_script_of_ne (show Core.core0 ≠ .core1 by decide)] using hs.orderly
  · intro x hx
    rw [latch_script, goto_script_self] at hx
    exact hall x (List.mem_cons_of_mem op hx)
  · intro hdriven
    have hwas : s.driven = true := (congrArg Pin.driven hpin).symm.trans hdriven
    obtain ⟨hstarted, hmask, hresponds⟩ := hs.driven hwas
    refine ⟨(congrArg Pin.testStarted hpin).trans hstarted,
      (congrArg Pin.mask hpin).trans hmask, Responds.latch ?_⟩
    have hne : op ≠ .setTestCompleted false := by
      rintro rfl
      cases hop
    rcases hresponds.perform hne with h | h | h | h | h
    · exact Or.inl h
    · exact Or.inr (Or.inl h)
    · exact Or.inr (Or.inr (Or.inl h))
    · exact Or.inr (Or.inr (Or.inr (Or.inl h)))
    · rw [perform_script, hscript] at h
      rcases List.mem_cons.mp h with rfl | h
      · exact Or.inl rfl
      · refine Or.inr (Or.inr (Or.inr (Or.inr ?_)))
        rw [goto_script_self]
        exact h

theorem Steady.step {a : Action} (hs : s.Steady) (hstep : s.step a = some t) : t.Steady := by
  cases stepped_of_step hstep with
  | raise bits =>
    have hpin : (s.latch (s.raise bits)).pin = s.pin := raise_pin bits
    refine ⟨hpin ▸ hs.orderly, hs.ofJob, ?_⟩
    intro hdriven
    obtain ⟨hstarted, hmask, hresponds⟩ := hs.driven hdriven
    exact ⟨hstarted, (congrArg Pin.mask hpin).trans hmask, Responds.latch hresponds⟩
  | call routine hidle hscript =>
    have hend : s.pin.Orderly [] := hscript ▸ hs.orderly
    obtain ⟨hdriven, hmask⟩ := hend
    refine ⟨?_, ?_, ?_⟩
    · have hpin : s.pin = ⟨false, s.testStarted, interruptMasks⟩ := by
        rw [← hdriven, ← hmask]
        rfl
      rw [goto_pin, goto_script_self, hpin]
      exact orderly_routine routine s.testStarted
    · simpa [goto_script_of_ne (show Core.core1 ≠ .core0 by decide)] using hs.ofJob
    · intro hlow
      exact absurd (hdriven.symm.trans hlow) (by decide)
  | deliver hlatched hidle =>
    refine ⟨hs.orderly, hs.ofJob, ?_⟩
    intro hdriven
    obtain ⟨hstarted, hmask, -⟩ := hs.driven hdriven
    exact ⟨hstarted, hmask, Or.inr (Or.inr (Or.inl nofun))⟩
  | acknowledge hentered =>
    refine ⟨hs.orderly, hs.ofJob, ?_⟩
    intro hdriven
    obtain ⟨hstarted, hmask, -⟩ := hs.driven hdriven
    exact ⟨hstarted, hmask, Or.inr (Or.inr (Or.inl nofun))⟩
  | addParse hacknowledged =>
    refine ⟨hs.orderly, hs.ofJob, ?_⟩
    intro hdriven
    obtain ⟨hstarted, hmask, -⟩ := hs.driven hdriven
    exact ⟨hstarted, hmask, Or.inr (Or.inr (Or.inl nofun))⟩
  | addResponse hadded =>
    refine ⟨hs.orderly, hs.ofJob, ?_⟩
    intro hdriven
    obtain ⟨hstarted, hmask, -⟩ := hs.driven hdriven
    refine ⟨hstarted, hmask, Or.inr (Or.inr (Or.inr (Or.inl ?_)))⟩
    simp [hstarted]
  | pop job rest hqueue hscript =>
    refine ⟨hs.orderly, ?_, ?_⟩
    · rw [goto_script_self]
      exact ofJob_script job
    · intro hdriven
      obtain ⟨hstarted, hmask, hresponds⟩ := hs.driven hdriven
      refine ⟨hstarted, hmask, ?_⟩
      rcases hresponds with h | h | h | h | h
      · exact Or.inl h
      · exact Or.inr (Or.inl h)
      · exact Or.inr (Or.inr (Or.inl h))
      · rw [hqueue] at h
        rcases List.mem_cons.mp h with rfl | h
        · refine Or.inr (Or.inr (Or.inr (Or.inr ?_)))
          rw [goto_script_self]
          exact List.mem_singleton_self _
        · exact Or.inr (Or.inr (Or.inr (Or.inl h)))
      · rw [hscript] at h
        cases h
  | core c op rest hscript hready =>
    cases c with
    | core0 => exact hs.core0 hscript
    | core1 => exact hs.core1 hscript

theorem intbLow_of_driven (h : s.driven = true) : s.intbHigh = false := by simp [intbHigh, h]

theorem latched_of_low (h : s.intbHigh = false) : (s.latch t).latched = t.latched := by
  simp [State.latch, h]

@[simp] theorem perform_latched (op : Op) : (s.perform op).latched = s.latched := by
  cases op <;> rfl

@[simp] theorem perform_handler (op : Op) : (s.perform op).handler = s.handler := by
  cases op <;> rfl

@[simp] theorem perform_callQueue (op : Op) : (s.perform op).callQueue = s.callQueue := by
  cases op <;> rfl

/-- While core0 waits, the pin is driven. -/
theorem Steady.driven_of_waiting (hs : s.Steady) (hw : s.Waiting) : s.driven = true := by
  obtain ⟨rest, hscript⟩ := List.head?_eq_some_iff.mp hw.1
  have horderly := hs.orderly
  rw [hscript] at horderly
  exact horderly.1

theorem Steady.due_step {a : Action} (hs : s.Steady) (hw : s.Waiting)
    (hstep : s.step a = some t) :
    t.due < s.due ∨ t.due = s.due ∧ ∃ bits, a = .raise bits := by
  have hlow := intbLow_of_driven (hs.driven_of_waiting hw)
  cases stepped_of_step hstep with
  | raise bits =>
    refine Or.inr ⟨?_, bits, rfl⟩
    simp only [due, latched_of_low hlow]
    rfl
  | call routine hidle hscript =>
    have hnone := hw.1
    rw [hscript] at hnone
    cases hnone
  | deliver hlatched hidle => left; simp [due, hlatched, hidle, Handler.due]
  | acknowledge hentered => left; simp [due, hentered, Handler.due]
  | addParse hacknowledged =>
    left
    simp only [due, hacknowledged, Handler.due, List.map_append, List.sum_append]
    simp [Job.cost, Job.script, getInterruptVals]
    omega
  | addResponse hadded =>
    left
    have hcost : ((if s.testStarted then s.callQueue ++ [.testResponse] else s.callQueue).map
        Job.cost).sum ≤ (s.callQueue.map Job.cost).sum + 2 := by
      split <;> simp [Job.cost, Job.script]
    simp only [due, hadded, Handler.due]
    simp
    omega
  | pop job rest hqueue hscript =>
    left
    have hdue : ({ s with callQueue := rest }.goto .core1 job.script).due =
        (if s.latched ∧ s.handler ≠ .entered then 9 else 0) + s.handler.due +
          (rest.map Job.cost).sum + job.script.length := by
      rw [due, goto_script_self]
      rfl
    rw [hdue, due, hqueue, hscript, List.map_cons, List.sum_cons, Job.cost, List.length_nil]
    omega
  | core c op rest hscript hready =>
    cases c with
    | core0 =>
      have hhead := hw.1
      rw [hscript, List.head?_cons, Option.some.injEq] at hhead
      have hdone := hready.2 hhead
      rw [hw.2] at hdone
      cases hdone
    | core1 =>
      left
      simp only [due, latched_of_low hlow, latch_script, goto_script_self, hscript,
        List.length_cons]
      simp [State.goto, State.latch]

/-- Someone can go on while core0 waits. -/
theorem Steady.exists_step (hs : s.Steady) (hw : s.Waiting) :
    ∃ a, (s.step a).isSome ∧ ∀ bits, a ≠ .raise bits := by
  obtain ⟨-, -, hresponds⟩ := hs.driven (hs.driven_of_waiting hw)
  cases hscript : s.script .core1 with
  | cons op rest =>
    have hop : op.OfJob := hs.ofJob op (by simp [hscript])
    have hready : s.Ready .core1 op := by
      refine ⟨by simp, ?_⟩
      rintro rfl
      cases hop
    exact ⟨.core .core1, by simp [State.step, hscript, hready], by simp⟩
  | nil =>
    cases hqueue : s.callQueue with
    | cons job rest => exact ⟨.callQueuePop, by simp [State.step, hqueue, hscript], by simp⟩
    | nil =>
      cases hpc : s.handler with
      | entered | acknowledged | parseAdded =>
        exact ⟨.handler, by simp [State.step, hpc], by simp⟩
      | idle =>
        have hlatched : s.latched = true := by
          simpa [Responds, hw.2, hpc, hqueue, hscript] using hresponds
        exact ⟨.deliver, by simp [State.step, hlatched, hpc], by simp⟩

theorem Steady.testEnds (hs : s.Steady) : s.TestEnds := by
  intro hw
  refine ⟨?_, fun a t hstep => hs.due_step hw hstep⟩
  obtain ⟨a, hsome, hraise⟩ := hs.exists_step hw
  obtain ⟨t, hstep⟩ := Option.isSome_iff_exists.mp hsome
  refine ⟨a, t, hstep, ?_⟩
  rcases hs.due_step hw hstep with hless | ⟨-, bits, rfl⟩
  · exact hless
  · exact absurd rfl (hraise bits)

/-- The boot test of the interrupt never waits in vain: in every run, whenever core0 is in its
loop, the response comes after at most `due` steps of the handler and core1, whatever else
they have to do and whatever the charger raises meanwhile. -/
theorem boot_test_ends (pointer : Nat) (regs : Registers) (actions : List Action) :
    Throughout step TestEnds (armed pointer regs) actions :=
  (throughout_of_step (fun hs hstep => hs.step hstep) (steady_armed pointer regs)).mono
    fun _ hs => hs.testEnds

end State

/-! ### Scripts -/

/-- A read starts at `CHG_INT` or does not reach it. -/
def Op.Separate : Op → Prop
  | .read command len =>
    regChgInt < command ∨ command < regChgInt ∧ command + len ≤ regChgInt ∨
      command = regChgInt ∧ 0 < len
  | _ => True

/-- A read transfer comes right behind the write of its pointer. -/
def Paired : List Op → Prop
  | [] => True
  | op :: rest =>
    op.Separate ∧
      (∀ command len, rest.head? = some (.read command len) → op = .write command []) ∧
      Paired rest

/-- The pointer is left at `CHG_INT` or in front of it between the two transfers of a read, and
in front of a write. -/
def Parks : List Op → Prop
  | [] => True
  | .write r data :: rest =>
    (r + data.length ≤ regChgInt → ∃ command len, rest.head? = some (.read command len)) ∧
      Parks rest
  | .read command len :: rest =>
    (command + len ≤ regChgInt → ∃ r data, rest.head? = some (.write r data)) ∧ Parks rest
  | _ :: rest => Parks rest

theorem paired_max77976Init : Paired max77976Init := by
  simp [max77976Init, setInterruptMasks, getInterruptVals, Paired, Op.Separate]

theorem paired_routine {routine : Routine} (h : routine.Apart) : Paired routine.script := by
  cases routine with
  | testGetId b =>
    have hseparate : Op.Separate (.read b.toNat 1) := by
      have hne : b.toNat ≠ regChgInt := h
      unfold Op.Separate
      omega
    simp [Routine.script, testGetId, setInterruptMasks, setInterruptMasksAllMasked, readByte,
      Paired, hseparate]
    simp [Op.Separate]
  | getChgDetails | testGetFsw | testInterrupt | i2cScan =>
    simp [Routine.script, getChgDetails, testGetFsw, testInterrupt, setInterruptMasks,
      setInterruptMasksAllMasked, readByte, Paired, Op.Separate, regChgInt]

theorem paired_job (job : Job) : Paired job.script := by
  cases job <;> simp [Job.script, getInterruptVals, Paired, Op.Separate]

theorem parks_max77976Init : Parks max77976Init := by
  simp [max77976Init, setInterruptMasks, getInterruptVals, Parks, regChgInt, regChgIntMask]

theorem parks_routine (routine : Routine) : Parks routine.script := by
  cases routine <;>
    simp [Routine.script, getChgDetails, testGetId, testGetFsw, testInterrupt, setInterruptMasks,
      setInterruptMasksAllMasked, readByte, Parks, regChgInt, regChgIntMask]

theorem parks_job (job : Job) : Parks job.script := by
  cases job <;> simp [Job.script, getInterruptVals, Parks, regChgInt]

theorem head_routine (routine : Routine) (command len : Nat) :
    routine.script.head? ≠ some (.read command len) := by
  cases routine <;>
    simp [Routine.script, getChgDetails, testGetId, testGetFsw, testInterrupt,
      setInterruptMasksAllMasked, readByte]

theorem head_job (job : Job) (command len : Nat) :
    job.script.head? ≠ some (.read command len) := by
  cases job <;> simp [Job.script, getInterruptVals]

/-- A core is between the two transfers of a read, or core0 is in front of a write. -/
def MidTransfer (script : Core → List Op) : Prop :=
  (∃ c command len, (script c).head? = some (.read command len)) ∨
    ∃ r data, (script .core0).head? = some (.write r data)

/-- Where the pointer is, given what each core has yet to do. -/
structure Pointed (pointer : Nat) (script : Core → List Op) : Prop where
  paired : ∀ c, Paired (script c)
  parks : ∀ c, Parks (script c)
  -- a core about to read finds the pointer where it has put it
  aimed : ∀ c command len, (script c).head? = some (.read command len) → pointer = command
  midTransfer : pointer ≤ regChgInt → MidTransfer script

theorem MidTransfer.update {script : Core → List Op} {c : Core} (h : MidTransfer script)
    (hread : ∀ command len, (script c).head? ≠ some (.read command len))
    (hwrite : ∀ r data, (script c).head? ≠ some (.write r data)) (rest : List Op) :
    MidTransfer (Function.update script c rest) := by
  rcases h with ⟨d, command, len, hhead⟩ | ⟨r, data, hhead⟩
  · have hne : d ≠ c := by
      rintro rfl
      exact hread command len hhead
    refine Or.inl ⟨d, command, len, ?_⟩
    rwa [Function.update_of_ne hne]
  · have hne : Core.core0 ≠ c := by
      rintro rfl
      exact hwrite r data hhead
    refine Or.inr ⟨r, data, ?_⟩
    rwa [Function.update_of_ne hne]

/-- A core that has nothing to do gets something that does not start with a read. -/
theorem Pointed.load {pointer : Nat} {script : Core → List Op} {c : Core}
    (h : Pointed pointer script) (hdone : script c = []) {ops : List Op} (hpaired : Paired ops)
    (hparks : Parks ops) (hhead : ∀ command len, ops.head? ≠ some (.read command len)) :
    Pointed pointer (Function.update script c ops) := by
  refine ⟨?_, ?_, ?_, ?_⟩
  · intro d
    by_cases hd : d = c
    · rwa [hd, Function.update_self]
    · rw [Function.update_of_ne hd]
      exact h.paired d
  · intro d
    by_cases hd : d = c
    · rwa [hd, Function.update_self]
    · rw [Function.update_of_ne hd]
      exact h.parks d
  · intro d command len hread
    by_cases hd : d = c
    · rw [hd, Function.update_self] at hread
      exact absurd hread (hhead command len)
    · rw [Function.update_of_ne hd] at hread
      exact h.aimed d command len hread
  · intro hlow
    exact (h.midTransfer hlow).update (by simp [hdone]) (by simp [hdone]) ops

namespace State
variable {s t : State}

/-! ### Every cause is ahead of a read -/

def Covered (s : State) : Prop :=
  s.latched = true ∨ s.handler = .entered ∨ s.handler = .acknowledged ∨
    .parseInterruptVals ∈ s.callQueue ∨ ∃ c len, .read regChgInt len ∈ s.script c

/-- The read transfer gets what it is to read, and `i2c_scan` nothing of `CHG_INT`. -/
def Meets (s : State) : Op → Prop
  | .read command _ => s.charger.pointer = command
  | .scan => regChgInt < s.charger.pointer
  | _ => True

structure Watched (s : State) : Prop where
  steady : s.Steady
  unread : s.unread = s.charger.device regChgInt
  pointed : Pointed s.charger.pointer s.script
  covered : unmasked s.charger.device ≠ 0 → s.Covered

theorem watched_armed (pointer : Nat) (regs : Registers) : (armed pointer regs).Watched := by
  refine ⟨steady_armed pointer regs, rfl, ⟨?_, ?_, ?_, ?_⟩, ?_⟩
  · intro c
    cases c with
    | core0 => exact paired_max77976Init
    | core1 => trivial
  · intro c
    cases c with
    | core0 => exact parks_max77976Init
    | core1 => trivial
  · intro c command len hread
    cases c <;> cases hread
  · exact fun _ => Or.inr ⟨regChgIntMask, [interruptMasks, 0, 0], rfl⟩
  · intro _
    refine Or.inr (Or.inr (Or.inr (Or.inr ⟨.core0, 3, ?_⟩)))
    exact List.mem_append_left _ (List.mem_append_right _ (by simp [getInterruptVals]))

theorem read_of_miss (s : State) (command len : Nat)
    (h : regChgInt < s.charger.pointer ∨ s.charger.pointer + len ≤ regChgInt) :
    (s.read command len).charger.device = s.charger.device ∧
      (s.read command len).unread = s.unread := by
  have hmiss : ¬ (s.charger.pointer ≤ regChgInt ∧ regChgInt < s.charger.pointer + len) := by
    omega
  simp [State.read, hmiss]

theorem read_chgInt {len : Nat} (h : s.charger.pointer = regChgInt) (hlen : 0 < len) :
    (s.read regChgInt len).charger.device regChgInt = 0 ∧
      (s.read regChgInt len).unread = s.unread &&& ~~~ s.charger.device regChgInt := by
  simp [State.read, h, hlen]

theorem perform_unread {op : Op} (hu : s.unread = s.charger.device regChgInt)
    (hop : op.Separate) (hmeets : s.Meets op) :
    (s.perform op).unread = (s.perform op).charger.device regChgInt := by
  cases op with
  | write r data => exact hu.trans (storeFrom_chgInt r data _).symm
  | read command len =>
    obtain rfl : s.charger.pointer = command := hmeets
    rcases hop with hbehind | ⟨-, hfront⟩ | ⟨hpointer, hlen⟩
    · obtain ⟨hdevice, hunread⟩ := s.read_of_miss s.charger.pointer len (Or.inl hbehind)
      simp only [perform, hdevice, hunread, hu]
    · obtain ⟨hdevice, hunread⟩ := s.read_of_miss s.charger.pointer len (Or.inr hfront)
      simp only [perform, hdevice, hunread, hu]
    · obtain ⟨hdevice, hunread⟩ := read_chgInt hpointer hlen
      simp only [perform, hpointer, hdevice, hunread, hu, BitVec.and_not_self]
  | scan =>
    have hbehind : regChgInt < s.charger.pointer ∨ s.charger.pointer + 1 ≤ regChgInt :=
      Or.inl hmeets
    obtain ⟨hdevice, -⟩ := s.read_of_miss s.charger.pointer 1 hbehind
    simp only [perform, hdevice, hu]
  | drive low | setTestStarted started | setTestCompleted completed | awaitCompleted => exact hu

theorem perform_pointer (op : Op) : (s.perform op).charger.pointer = s.pointerAfter op := by
  cases op <;> rfl

theorem perform_device_or_driven (op : Op) :
    (s.perform op).charger.device = s.charger.device ∨ (s.perform op).driven = s.driven := by
  cases op with
  | write r data | read command len | scan => exact Or.inr rfl
  | drive low | setTestStarted started | setTestCompleted completed | awaitCompleted =>
    exact Or.inl rfl

theorem Steady.unmasked_of_driven (hs : s.Steady) (h : s.driven = true) :
    unmasked s.charger.device = 0 := by
  obtain ⟨-, hmask, -⟩ := hs.driven h
  simp [unmasked, hmask]

/-- A cause that is unmasked while nothing was meets a falling line. -/
theorem latched_of_unmasked (ht : (s.latch t).Steady) (hdriven : t.driven = s.driven)
    (hwas : unmasked s.charger.device = 0) (hnow : unmasked t.charger.device ≠ 0) :
    (s.latch t).latched = true := by
  have hrelease : t.driven = false := by
    rw [← Bool.not_eq_true]
    exact fun hlow => hnow (ht.unmasked_of_driven hlow)
  apply latched_of_falls
  · simp [intbHigh, hwas, ← hdriven, hrelease]
  · simpa [intbHigh, hrelease] using hnow

theorem Covered.latch (h : t.Covered) : (s.latch t).Covered := by
  rcases h with h | h
  · exact Or.inl (by simp [State.latch, h])
  · exact Or.inr h

theorem unmasked_of_clear {regs : Registers} (h : regs regChgInt = 0) : unmasked regs = 0 := by
  simp [unmasked, h]

theorem Watched.covered_core (hs : s.Watched) {c : Core} {op : Op} {rest : List Op}
    (hscript : s.script c = op :: rest)
    (ht : (s.latch ((s.perform op).goto c rest)).Steady)
    (hnow : unmasked (s.perform op).charger.device ≠ 0) :
    (s.latch ((s.perform op).goto c rest)).Covered := by
  by_cases hwas : unmasked s.charger.device = 0
  · have hdriven : (s.perform op).driven = s.driven := by
      rcases perform_device_or_driven (s := s) op with hsame | hsame
      · rw [hsame] at hnow
        exact absurd hwas hnow
      · exact hsame
    exact Or.inl (latched_of_unmasked ht hdriven hwas hnow)
  · apply Covered.latch
    rcases hs.covered hwas with h | h | h | h | ⟨d, len, h⟩
    · exact Or.inl ((perform_latched op).trans h)
    · exact Or.inr (Or.inl ((perform_handler op).trans h))
    · exact Or.inr (Or.inr (Or.inl ((perform_handler op).trans h)))
    · exact Or.inr (Or.inr (Or.inr (Or.inl ((perform_callQueue op).symm ▸ h))))
    · refine Or.inr (Or.inr (Or.inr (Or.inr ⟨d, len, ?_⟩)))
      by_cases hd : d = c
      · subst hd
        rw [goto_script_self]
        rw [hscript] at h
        rcases List.mem_cons.mp h with rfl | h
        · -- the read has cleared every cause
          have hpaired : Paired (.read regChgInt len :: rest) := hscript ▸ hs.pointed.paired d
          have hpointer := hs.pointed.aimed d regChgInt len (by rw [hscript]; rfl)
          have hlen : 0 < len := by
            rcases hpaired.1 with h | ⟨h, -⟩ | ⟨-, hlen⟩
            · exact absurd h (lt_irrefl _)
            · exact absurd h (lt_irrefl _)
            · exact hlen
          exact absurd (unmasked_of_clear (read_chgInt hpointer hlen).1) hnow
        · exact h
      · rw [goto_script_of_ne hd, perform_script]
        exact h

theorem Watched.meets (hs : s.Watched) {c : Core} {op : Op} {rest : List Op}
    (hscript : s.script c = op :: rest) (hok : s.PointerKept (.core c)) : s.Meets op := by
  cases op with
  | read command len => exact hs.pointed.aimed c command len (by rw [hscript]; rfl)
  | scan =>
    cases c with
    | core1 => exact absurd (hs.steady.ofJob .scan (by rw [hscript]; simp)) id
    | core0 =>
      refine Nat.lt_of_not_le fun hlow => ?_
      rcases hs.pointed.midTransfer hlow with ⟨d, command, len, hhead⟩ | ⟨r, data, hhead⟩
      · cases d with
        | core0 =>
          rw [hscript] at hhead
          cases hhead
        | core1 =>
          -- core1 is about to read what the scan would get
          have haimed := hs.pointed.aimed .core1 command len hhead
          obtain ⟨tail, htail⟩ := List.head?_eq_some_iff.mp hhead
          have hkept : s.pointerAfter .scan = command := by
            simpa [PointerKept, hscript, Core.other, htail] using hok
          simp only [pointerAfter] at hkept
          omega
      · rw [hscript] at hhead
        cases hhead
  | write r data => trivial
  | drive low | setTestStarted started | setTestCompleted completed | awaitCompleted => trivial

theorem Watched.midTransfer_core (hs : s.Watched) {c : Core} {op : Op} {rest : List Op}
    (hscript : s.script c = op :: rest) (hok : s.PointerKept (.core c))
    (hlow : s.pointerAfter op ≤ regChgInt) : MidTransfer (Function.update s.script c rest) := by
  have hparks : Parks (op :: rest) := hscript ▸ hs.pointed.parks c
  have hmeets := hs.meets hscript hok
  cases op with
  | write r data =>
    obtain ⟨command, len, hhead⟩ := hparks.1 hlow
    exact Or.inl ⟨c, command, len, by rwa [Function.update_self]⟩
  | read command len =>
    obtain rfl : s.charger.pointer = command := hmeets
    cases c with
    | core0 =>
      obtain ⟨r, data, hhead⟩ := hparks.1 hlow
      exact Or.inr ⟨r, data, by rwa [Function.update_self]⟩
    | core1 =>
      have hbehind : regChgInt < s.charger.pointer + len :=
        hs.steady.ofJob (.read s.charger.pointer len) (by rw [hscript]; simp)
      exact absurd hlow (Nat.not_le_of_lt hbehind)
  | scan =>
    have hbehind : regChgInt < s.charger.pointer := hmeets
    simp only [pointerAfter] at hlow
    omega
  | drive low | setTestStarted started | setTestCompleted completed | awaitCompleted =>
    exact (hs.pointed.midTransfer hlow).update (by simp [hscript]) (by simp [hscript]) rest

theorem Watched.pointed_core (hs : s.Watched) {c : Core} {op : Op} {rest : List Op}
    (hscript : s.script c = op :: rest) (hok : s.PointerKept (.core c)) :
    Pointed (s.pointerAfter op) (Function.update s.script c rest) := by
  obtain ⟨-, hhead, hpaired⟩ : Paired (op :: rest) := hscript ▸ hs.pointed.paired c
  have hparks : Parks rest := by
    have hall : Parks (op :: rest) := hscript ▸ hs.pointed.parks c
    cases op with
    | write r data | read command len => exact hall.2
    | scan | drive low | setTestStarted started | setTestCompleted completed
    | awaitCompleted => exact hall
  refine ⟨?_, ?_, ?_, fun hlow => hs.midTransfer_core hscript hok hlow⟩
  · intro d
    by_cases hd : d = c
    · rwa [hd, Function.update_self]
    · rw [Function.update_of_ne hd]
      exact hs.pointed.paired d
  · intro d
    by_cases hd : d = c
    · rwa [hd, Function.update_self]
    · rw [Function.update_of_ne hd]
      exact hs.pointed.parks d
  · intro d command len hread
    by_cases hd : d = c
    · rw [hd, Function.update_self] at hread
      rw [hhead command len hread]
      rfl
    · have hother : d = c.other := by cases c <;> cases d <;> first | rfl | contradiction
      rw [Function.update_of_ne hd, hother] at hread
      obtain ⟨tail, htail⟩ := List.head?_eq_some_iff.mp hread
      simpa [PointerKept, hscript, htail] using hok

theorem Watched.core (hs : s.Watched) {c : Core} {op : Op} {rest : List Op}
    (hscript : s.script c = op :: rest) (hok : s.PointerKept (.core c))
    (ht : (s.latch ((s.perform op).goto c rest)).Steady) :
    (s.latch ((s.perform op).goto c rest)).Watched := by
  obtain ⟨hseparate, -, -⟩ : Paired (op :: rest) := hscript ▸ hs.pointed.paired c
  refine ⟨ht, perform_unread hs.unread hseparate (hs.meets hscript hok), ?_,
    fun hnow => hs.covered_core hscript ht hnow⟩
  change Pointed (s.perform op).charger.pointer (Function.update (s.perform op).script c rest)
  rw [perform_pointer, perform_script]
  exact hs.pointed_core hscript hok

theorem Watched.step {a : Action} (hs : s.Watched) (hok : s.PointerKept a)
    (hstep : s.step a = some t) : t.Watched := by
  have hsteady := hs.steady.step hstep
  cases stepped_of_step hstep with
  | raise bits =>
    refine ⟨hsteady, ?_, hs.pointed, ?_⟩
    · simp [State.latch, State.raise, hs.unread]
    · intro hnow
      by_cases hwas : unmasked s.charger.device = 0
      · exact Or.inl (latched_of_unmasked hsteady rfl hwas hnow)
      · exact Covered.latch (hs.covered hwas)
  | call routine hidle hscript =>
    refine ⟨hsteady, hs.unread, ?_, ?_⟩
    · exact hs.pointed.load hscript (paired_routine hok) (parks_routine routine)
        (head_routine routine)
    · intro hnow
      rcases hs.covered hnow with h | h | h | h | ⟨c, len, h⟩
      · exact Or.inl h
      · exact Or.inr (Or.inl h)
      · exact Or.inr (Or.inr (Or.inl h))
      · exact Or.inr (Or.inr (Or.inr (Or.inl h)))
      · cases c with
        | core0 =>
          rw [hscript] at h
          cases h
        | core1 => exact Or.inr (Or.inr (Or.inr (Or.inr ⟨.core1, len, h⟩)))
  | deliver hlatched hidle =>
    exact ⟨hsteady, hs.unread, hs.pointed, fun _ => Or.inr (Or.inl rfl)⟩
  | acknowledge hentered =>
    exact ⟨hsteady, hs.unread, hs.pointed, fun _ => Or.inr (Or.inr (Or.inl rfl))⟩
  | addParse hacknowledged =>
    refine ⟨hsteady, hs.unread, hs.pointed, ?_⟩
    intro _
    exact Or.inr (Or.inr (Or.inr (Or.inl (List.mem_append_right _ (List.mem_singleton_self _)))))
  | addResponse hadded =>
    refine ⟨hsteady, hs.unread, hs.pointed, ?_⟩
    intro hnow
    rcases hs.covered hnow with h | h | h | h | h
    · exact Or.inl h
    · rw [hadded] at h
      cases h
    · rw [hadded] at h
      cases h
    · refine Or.inr (Or.inr (Or.inr (Or.inl ?_)))
      change _ ∈ if s.testStarted then _ else _
      split
      · exact List.mem_append_left _ h
      · exact h
    · exact Or.inr (Or.inr (Or.inr (Or.inr h)))
  | pop job rest hqueue hscript =>
    refine ⟨hsteady, hs.unread, ?_, ?_⟩
    · exact hs.pointed.load hscript (paired_job job) (parks_job job) (head_job job)
    · intro hnow
      rcases hs.covered hnow with h | h | h | h | ⟨c, len, h⟩
      · exact Or.inl h
      · exact Or.inr (Or.inl h)
      · exact Or.inr (Or.inr (Or.inl h))
      · rw [hqueue] at h
        rcases List.mem_cons.mp h with rfl | h
        · refine Or.inr (Or.inr (Or.inr (Or.inr ⟨.core1, 3, ?_⟩)))
          rw [goto_script_self]
          simp [Job.script, getInterruptVals]
        · exact Or.inr (Or.inr (Or.inr (Or.inl h)))
      · cases c with
        | core0 => exact Or.inr (Or.inr (Or.inr (Or.inr ⟨.core0, len, h⟩)))
        | core1 =>
          rw [hscript] at h
          cases h
  | core c op rest hscript hready => exact hs.core hscript hok hsteady

theorem Watched.noInterruptLost (hs : s.Watched) : s.NoInterruptLost := by
  rintro ⟨hlatched, hidle, hqueue, hscript⟩
  obtain ⟨hdriven, hmask⟩ : s.pin.Orderly [] := hscript .core0 ▸ hs.steady.orderly
  have hnone : unmasked s.charger.device = 0 := by
    by_contra hnow
    simpa [Covered, hlatched, hidle, hqueue, hscript] using hs.covered hnow
  constructor
  · have hchgin : chginI = ~~~ interruptMasks := by decide
    rw [hs.unread, hchgin, ← hmask]
    exact hnone
  · have hrelease : s.driven = false := hdriven
    simp [intbHigh, hnone, hrelease]

/-- In a run where no transfer of one core moves the pointer between the two transfers of the
other's read, no interrupt of the charger is lost: whenever nothing is on its way, every
`CHGIN_I` raised has been read and INTB is high. -/
theorem no_chgin_interrupt_lost (pointer : Nat) (regs : Registers) {actions : List Action}
    (h : Along step PointerKept (armed pointer regs) actions) :
    Throughout step NoInterruptLost (armed pointer regs) actions :=
  (throughout_of_along (fun hs hok hstep => hs.step hok hstep) (watched_armed pointer regs)
    h).mono fun _ hs => hs.noInterruptLost

/-- The charger is plugged in during a boot test that masks it, and the job reads it while
core0 reads the details, each between the other's pairs of transfers. -/
theorem no_chgin_interrupt_lost_masked :
    Throughout step NoInterruptLost (armed 0 fun _ => 0)
      (List.replicate 9 (.core .core0) ++ [.call (.testGetId 0)] ++
        List.replicate 4 (.core .core0) ++ [.call .testGetFsw, .core .core0, .raise 0b1000000] ++
        List.replicate 3 (.core .core0) ++
        [.deliver, .handler, .handler, .handler, .call .i2cScan, .core .core0,
          .call .getChgDetails, .core .core0, .core .core0,
          .callQueuePop, .core .core1, .core .core1] ++ List.replicate 6 (.core .core0)) :=
  no_chgin_interrupt_lost 0 (fun _ => 0) (by decide)

/-- core0 goes on to `CHG_DETAILS_00` between the two transfers of the job: `CHGIN_I` stays
set, INTB stays low, and no edge will come. -/
example :
    ¬ Throughout step NoInterruptLost (armed 0 fun _ => 0)
      (List.replicate 9 (.core .core0) ++ [.raise 0b1000000, .deliver, .handler, .handler,
        .handler, .callQueuePop, .call .getChgDetails, .core .core1, .core .core0, .core .core1] ++
        List.replicate 7 (.core .core0)) := by
  intro h
  have hrun : ∃ t, run step (armed 0 fun _ => 0)
      (List.replicate 9 (.core .core0) ++ [.raise 0b1000000, .deliver, .handler, .handler,
        .handler, .callQueuePop, .call .getChgDetails, .core .core1, .core .core0, .core .core1] ++
        List.replicate 7 (.core .core0)) = some t ∧ t.Quiet ∧ t.intbHigh = false := by
    refine ⟨_, rfl, ⟨by decide, by decide, by decide, ?_⟩, by decide⟩
    intro c
    cases c <;> decide
  obtain ⟨t, ht, hquiet, hlow⟩ := hrun
  have hhigh := (h.last ht hquiet).2
  rw [hlow] at hhigh
  cases hhigh

end State

end SrFirmware.Max77976
