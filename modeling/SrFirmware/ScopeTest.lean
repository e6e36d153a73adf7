import SrFirmware.Drv8830
import SrFirmware.Opcodes
import Mathlib.Data.List.Chain

/-!
# The motor scope test, `drv8830.c` built with `DRV8830_SCOPE_TEST`

core0 queues the controls of both motors packed in one argument of `call_queue`, between the
jobs that interrupts queue; core1 unpacks them and writes one CONTROL register after the
other. A step is one addition to the queue, one removal or one write. The dwell times are
left out: nothing holds core1 to them.
-/

namespace SrFirmware.Drv8830.Scope

open Lib
set_option autoImplicit false

def in1Bit : Nat := 0
def in2Bit : Nat := 1
def offControl : Byte := 0

section
-- `DRV8830_SCOPE_TEST_CONTROL` and `DRV8830_SCOPE_TEST_REPEAT`
variable (control : Byte) (repeats : Nat)

def forwardControl : Byte := control &&& 0xFC ||| 1 <<< in2Bit

def reverseControl : Byte := control &&& 0xFC ||| 1 <<< in1Bit

def phase : List Byte := [forwardControl control, offControl, reverseControl control, offControl]

/-- The controls that `drv8830_scope_test_run` queues, the same for both motors. -/
def scopeTestRun : List Byte :=
  offControl :: (List.replicate repeats (phase control)).flatten ++ [offControl]

end

/-- `drv8830_scope_queue_controls` -/
def packControls (left right : Byte) : BitVec 32 := left.setWidth 32 <<< 8 ||| right.setWidth 32

inductive Job where
  | scopeSetControls (packed : BitVec 32)
  -- a job of an interrupt: it writes no CONTROL register
  | other
  deriving DecidableEq

/-- `drv8830_scope_set_controls` -/
def setControls (packed : BitVec 32) : List (Motor × Byte) :=
  [(.left, (packed.sshiftRight 8 &&& 0xFF).setWidth 8), (.right, (packed &&& 0xFF).setWidth 8)]

def Job.script : Job → List (Motor × Byte)
  | .scopeSetControls packed => setControls packed
  | .other => []

structure State where
  -- what core0 has yet to queue
  core0 : List Byte
  callQueue : List Job
  -- what core1 has yet to write
  core1 : List (Motor × Byte)
  -- only for the statements
  written : List (Motor × Byte)

def start (control : Byte) (repeats : Nat) : State := ⟨scopeTestRun control repeats, [], [], []⟩

inductive Action where
  | core0
  | interrupt
  | callQueuePop
  | core1
  deriving DecidableEq

namespace State

/-- A full queue fails the assertion of whoever adds to it. -/
def callQueueTryAdd (s : State) (job : Job) : Option State :=
  if s.callQueue.length < Max77958.callQueueSize then
    some { s with callQueue := s.callQueue ++ [job] }
  else none

def step (s : State) : Action → Option State
  | .core0 =>
    match s.core0 with
    | [] => none
    | c :: rest => { s with core0 := rest }.callQueueTryAdd (.scopeSetControls (packControls c c))
  | .interrupt => s.callQueueTryAdd .other
  | .callQueuePop =>
    match s.callQueue, s.core1 with
    | job :: rest, [] => some { s with callQueue := rest, core1 := job.script }
    | _, _ => none
  | .core1 =>
    match s.core1 with
    | [] => none
    | write :: rest => some { s with core1 := rest, written := s.written ++ [write] }

def controls (m : Motor) (writes : List (Motor × Byte)) : List Byte :=
  (writes.filter fun w => w.1 = m).map Prod.snd

/-- The controls that a motor has yet to get. -/
def pending (s : State) (m : Motor) : List Byte :=
  controls m s.core1 ++ s.callQueue.flatMap (fun job => controls m job.script) ++ s.core0

/-- A motor gets the controls of the test in order, goes from one direction to the other through
off only, is never driven both ways, and is off in the end; the right motor is at most one
control behind. -/
structure Careful (control : Byte) (repeats : Nat) (s : State) : Prop where
  inOrder : ∀ m, controls m s.written <+: scopeTestRun control repeats
  separated : ∀ m, (controls m s.written).IsChain fun a b => a = offControl ∨ b = offControl
  oneWay : ∀ m, ∀ c ∈ controls m s.written, (c.getLsbD in1Bit && c.getLsbD in2Bit) = false
  together : controls .right s.written <+: controls .left s.written ∧
    (controls .left s.written).length ≤ (controls .right s.written).length + 1
  ends : s.core0 = [] → s.callQueue = [] → s.core1 = [] →
    ∀ m, (controls m s.written).getLast? = some offControl

end State

/-! ### The plan -/

theorem setWidth_low (x : BitVec 32) : (x &&& 0xFF).setWidth 8 = x.setWidth 8 := by
  have hmask : (0xFF : BitVec 32).setWidth 8 = BitVec.allOnes 8 := by decide
  rw [BitVec.setWidth_and, hmask, BitVec.and_allOnes]

theorem setControls_packControls (left right : Byte) :
    setControls (packControls left right) = [(.left, left), (.right, right)] := by
  have hleft : ((packControls left right).sshiftRight 8).setWidth 8 = left := by
    apply BitVec.eq_of_getLsbD_eq
    intro i hi
    have hshift : 8 + i < 32 ∧ ¬ 32 ≤ i ∧ i < 32 := by omega
    rw [BitVec.getLsbD_setWidth, BitVec.getLsbD_sshiftRight]
    simp [packControls, hi, hshift]
  have hright : (packControls left right).setWidth 8 = right := by
    apply BitVec.eq_of_getLsbD_eq
    intro i hi
    simp [packControls, hi]
  rw [setControls, setWidth_low, setWidth_low, hleft, hright]

def OffBetween (a b : Byte) : Prop := a = offControl ∨ b = offControl

def OneWay (c : Byte) : Prop := (c.getLsbD in1Bit && c.getLsbD in2Bit) = false

section
variable (control : Byte) (repeats : Nat)

theorem offBetween_scopeTestRun : (scopeTestRun control repeats).IsChain OffBetween := by
  unfold scopeTestRun
  induction repeats with
  | zero => simp [OffBetween]
  | succ n ih =>
    have hoff : OffBetween offControl (forwardControl control) ∧
        OffBetween (forwardControl control) offControl ∧
        OffBetween offControl (reverseControl control) ∧
        OffBetween (reverseControl control) offControl := by
      simp [OffBetween]
    simpa [List.replicate_succ, phase, List.isChain_cons_cons, hoff] using ih

theorem oneWay_scopeTestRun : ∀ c ∈ scopeTestRun control repeats, OneWay c := by
  have hphase : ∀ c ∈ phase control, OneWay c := by
    simp [phase, OneWay, forwardControl, reverseControl, offControl, in1Bit, in2Bit]
  intro c hc
  simp only [scopeTestRun, List.cons_append, List.mem_cons, List.mem_append, List.mem_flatten,
    List.mem_replicate, List.not_mem_nil, or_false] at hc
  rcases hc with rfl | ⟨l, ⟨-, rfl⟩, hc⟩ | rfl
  · exact hphase _ (by simp [phase])
  · exact hphase c hc
  · exact hphase _ (by simp [phase])

theorem getLast?_scopeTestRun : (scopeTestRun control repeats).getLast? = some offControl := by
  exact List.getLast?_concat ..

end

namespace State
variable {control : Byte} {repeats : Nat} {s t : State}

/-! ### Every control is written once, in order -/

/-- The two writes of one control, or none. -/
def Doubled (writes : List (Motor × Byte)) : Prop :=
  writes = [] ∨ ∃ c, writes = [(.left, c), (.right, c)]

structure Planned (control : Byte) (repeats : Nat) (s : State) : Prop where
  conserved : ∀ m, controls m s.written ++ s.pending m = scopeTestRun control repeats
  queued : ∀ job ∈ s.callQueue, Doubled job.script
  core1 : Doubled s.core1 ∨ ∃ c, s.core1 = [(.right, c)]

theorem controls_append (m : Motor) (a b : List (Motor × Byte)) :
    controls m (a ++ b) = controls m a ++ controls m b := by simp [controls]

theorem controls_pair (m : Motor) (c : Byte) : controls m [(.left, c), (.right, c)] = [c] := by
  cases m <;> rfl

theorem controls_of_doubled {writes : List (Motor × Byte)} (h : Doubled writes) (m : Motor) :
    controls m writes = controls .left writes := by
  rcases h with rfl | ⟨c, rfl⟩
  · rfl
  · rw [controls_pair, controls_pair]

theorem doubled_setControls (c : Byte) : Doubled (setControls (packControls c c)) :=
  Or.inr ⟨c, setControls_packControls c c⟩

theorem planned_start : (start control repeats).Planned control repeats :=
  ⟨fun _ => rfl, by simp [start], Or.inl (Or.inl rfl)⟩

theorem callQueueTryAdd_eq {job : Job} (h : s.callQueueTryAdd job = some t) :
    t = { s with callQueue := s.callQueue ++ [job] } := by
  unfold callQueueTryAdd at h
  split at h
  · exact (Option.some.inj h).symm
  · cases h

theorem Planned.step {a : Action} (hs : s.Planned control repeats) (hstep : s.step a = some t) :
    t.Planned control repeats := by
  cases a with
  | core0 =>
    simp only [State.step] at hstep
    split at hstep
    · cases hstep
    · rename_i c rest hscript
      obtain rfl := callQueueTryAdd_eq hstep
      refine ⟨?_, ?_, hs.core1⟩
      · intro m
        have hwrites : controls m (Job.scopeSetControls (packControls c c)).script = [c] := by
          rw [Job.script, setControls_packControls, controls_pair]
        have hconserved := hs.conserved m
        simp only [pending, hscript] at hconserved
        simpa [pending, hwrites] using hconserved
      · intro job hjob
        rcases List.mem_append.mp hjob with hjob | hjob
        · exact hs.queued job hjob
        · rw [List.mem_singleton.mp hjob]
          exact doubled_setControls c
  | interrupt =>
    obtain rfl := callQueueTryAdd_eq hstep
    refine ⟨?_, ?_, hs.core1⟩
    · intro m
      have hnone : controls m Job.other.script = [] := rfl
      simpa [pending, hnone] using hs.conserved m
    · intro job hjob
      rcases List.mem_append.mp hjob with hjob | hjob
      · exact hs.queued job hjob
      · rw [List.mem_singleton.mp hjob]
        exact Or.inl rfl
  | callQueuePop =>
    simp only [State.step] at hstep
    split at hstep
    · rename_i job rest hqueue hscript
      obtain rfl := Option.some.inj hstep
      refine ⟨?_, ?_, Or.inl (hs.queued job (by simp [hqueue]))⟩
      · intro m
        have hnone : controls m [] = [] := rfl
        simpa [pending, hqueue, hscript, hnone] using hs.conserved m
      · intro x hx
        exact hs.queued x (by simp [hqueue, hx])
    · cases hstep
  | core1 =>
    simp only [State.step] at hstep
    split at hstep
    · cases hstep
    · rename_i write rest hscript
      obtain rfl := Option.some.inj hstep
      refine ⟨?_, hs.queued, ?_⟩
      · intro m
        have hsplit : controls m (write :: rest) = controls m [write] ++ controls m rest :=
          controls_append m [write] rest
        have hconserved := hs.conserved m
        simp only [pending, hscript, hsplit] at hconserved
        simpa [pending, controls_append] using hconserved
      · have hcore1 := hs.core1
        rw [hscript] at hcore1
        rcases hcore1 with (hnil | ⟨c, hpair⟩) | ⟨c, hright⟩
        · cases hnil
        · obtain ⟨-, rfl⟩ := List.cons.inj hpair
          exact Or.inr ⟨c, rfl⟩
        · obtain ⟨-, rfl⟩ := List.cons.inj hright
          exact Or.inl (Or.inl rfl)

theorem Planned.controls_eq (hs : s.Planned control repeats) :
    controls .left s.written = controls .right s.written ∨
      ∃ c, controls .left s.written = controls .right s.written ++ [c] := by
  have htail : s.callQueue.flatMap (fun job => controls .right job.script) =
      s.callQueue.flatMap fun job => controls .left job.script :=
    List.flatMap_congr fun job hjob => controls_of_doubled (hs.queued job hjob) .right
  have hboth := (hs.conserved .left).trans (hs.conserved .right).symm
  simp only [pending, htail, ← List.append_assoc] at hboth
  have hwritten := List.append_cancel_right (List.append_cancel_right hboth)
  rcases hs.core1 with hdoubled | ⟨c, hright⟩
  · rw [controls_of_doubled hdoubled .right] at hwritten
    exact Or.inl (List.append_cancel_right hwritten)
  · have hleft : controls .left [(.right, c)] = [] := rfl
    have hone : controls .right [(.right, c)] = [c] := rfl
    rw [hright, hleft, hone, List.append_nil] at hwritten
    exact Or.inr ⟨c, hwritten⟩

theorem Planned.careful (hs : s.Planned control repeats) : s.Careful control repeats := by
  have hwritten : ∀ m, controls m s.written <+: scopeTestRun control repeats :=
    fun m => ⟨_, hs.conserved m⟩
  refine ⟨hwritten, ?_, ?_, ?_, ?_⟩
  · intro m
    obtain ⟨rest, hrest⟩ := hwritten m
    have hall := offBetween_scopeTestRun control repeats
    rw [← hrest] at hall
    exact hall.left_of_append
  · intro m c hc
    exact oneWay_scopeTestRun control repeats c ((hwritten m).subset hc)
  · rcases hs.controls_eq with heq | ⟨c, heq⟩
    · rw [heq]
      exact ⟨List.prefix_refl _, Nat.le_succ _⟩
    · rw [heq]
      exact ⟨List.prefix_append _ _, by simp⟩
  · intro hcore0 hqueue hcore1 m
    have hall := hs.conserved m
    have hnone : s.pending m = [] := by
      rw [pending, hcore0, hqueue, hcore1]
      rfl
    rw [hnone, List.append_nil] at hall
    rw [hall]
    exact getLast?_scopeTestRun control repeats

/-- However the interrupts and the cores interleave, for every control and number of repeats,
each motor gets the controls of the test in order: no direction follows the other without
off between them, no control drives both ways, and the test ends with both motors off. -/
theorem scope_test_careful (control : Byte) (repeats : Nat) (actions : List Action) :
    Throughout step (Careful control repeats) (start control repeats) actions :=
  (throughout_of_step (fun hs hstep => hs.step hstep) planned_start).mono
    fun _ hs => hs.careful

end State

end SrFirmware.Drv8830.Scope
