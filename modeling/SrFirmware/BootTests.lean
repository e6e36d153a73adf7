import Mathlib.Data.Fintype.Basic
import Mathlib.Data.Finset.Card
import SrFirmware.Drv8830
import SrFirmware.Lib.Steps
import SrFirmware.Opcodes

/-!
# Boot tests that wait for their own interrupt

`test_drv8830_interrupt` and `test_ncp3901_interrupt` drive a pin and wait until a job of its
interrupt has run on core1. Neither masks the device on the pin. A step is one write of a flag
or of a pin's direction, a step of the handler, which interrupts core0, or a job of core1; the
device and the other drivers come in between. A full queue fails the assertion of whoever adds
to it, and its core stops. The ten seconds after which a wait fails an assertion are left out.
-/

namespace SrFirmware.BootTest

open Lib
set_option autoImplicit false

inductive Edge where
  | rise
  | fall
  deriving DecidableEq

inductive Op (P : Type) where
  | setTestStarted (started : Bool)
  | setTestCompleted (completed : Bool)
  -- `gpio_set_dir`: driven low, or an input with a pull-up again
  | drive (p : P) (low : Bool)
  -- the `assert` on what `gpio_get` returns
  | check (p : P) (high : Bool)
  -- the loop until the flag is set
  | awaitCompleted
  deriving DecidableEq

structure Driver (P : Type) where
  enabled : P → Edge → Bool
  test : List (Op P)

/-- `test_drv8830_interrupt`: one phase for each fault pin. -/
def drv8830 : Driver Drv8830.Motor where
  enabled _ e := e = .fall
  test :=
    [.setTestStarted true, .drive .left true, .check .left false, .awaitCompleted,
      .drive .left false, .setTestStarted false, .setTestCompleted false,
      .setTestStarted true, .drive .right true, .awaitCompleted, .drive .right false,
      .setTestStarted false]

/-- `test_ncp3901_interrupt`: the pin falls, then it rises. -/
def ncp3901 : Driver Unit where
  enabled _ _ := true
  test :=
    [.setTestStarted true, .drive () true, .check () false, .awaitCompleted,
      .setTestStarted false, .setTestCompleted false,
      .setTestStarted true, .drive () false, .check () true, .awaitCompleted]

inductive Job where
  | work
  | testResponse
  deriving DecidableEq

/-- The handler of either driver: it queues a job, and the response if the test has started. -/
inductive Handler (P : Type) where
  | idle
  | entered (p : P) (e : Edge)
  -- past `gpio_acknowledge_irq`
  | acknowledged
  -- past the first `call_queue_try_add`
  | workAdded
  -- in a failed assertion, which core0 never leaves
  | halted
  deriving DecidableEq

/-- Under way to the response. -/
def Handler.serves {P : Type} : Handler P → Bool
  | .idle | .halted => false
  | .entered _ _ | .acknowledged | .workAdded => true

/-- The steps that a handler still takes, with those of the jobs that it still adds. -/
def Handler.due {P : Type} : Handler P → Nat
  | .idle | .halted => 0
  | .entered _ _ => 5
  | .acknowledged => 4
  | .workAdded => 2

structure State (P : Type) where
  -- what core0 has yet to do
  script : List (Op P)
  driven : P → Bool
  -- held low by the device
  asserted : P → Bool
  latched : P → Edge → Bool
  handler : Handler P
  callQueue : List Job
  core1Halted : Bool
  testStarted : Bool
  testCompleted : Bool
  -- only for the statements: an edge has come since the test was started, or something that
  -- leads to a response was there at that moment
  heard : Bool

inductive Action (P : Type) where
  | device (p : P) (low : Bool)
  -- another driver's handler adds a job
  | otherHandler
  -- a job adds another
  | jobAdd
  | deliver (p : P)
  | handler
  | callQueuePop
  | core0

/-- A step of the firmware itself. -/
def Action.own {P : Type} : Action P → Bool
  | .device _ _ | .otherHandler | .jobAdd => false
  | .deliver _ | .handler | .callQueuePop | .core0 => true

def start {P : Type} (d : Driver P) (asserted : P → Bool) : State P where
  script := d.test
  driven := fun _ => false
  asserted := asserted
  latched := fun _ _ => false
  handler := .idle
  callQueue := []
  core1Halted := false
  testStarted := false
  testCompleted := false
  heard := false

/-! ### What the tests rely on -/

def moved (before after : Bool) : Option Edge :=
  match before, after with
  | false, true => some .rise
  | true, false => some .fall
  | _, _ => none

def Driver.hears {P : Type} (d : Driver P) (p : P) (before after : Bool) : Bool :=
  match moved before after with
  | some e => d.enabled p e
  | none => false

/-- A wait is for a test that is started, and `test_..._completed` is only written between two
tests. -/
def Orderly {P : Type} : Bool → List (Op P) → Prop
  | _, [] => True
  | _, .setTestStarted started :: rest => Orderly started rest
  | started, .setTestCompleted _ :: rest => started = false ∧ Orderly started rest
  | started, .drive _ _ :: rest => Orderly started rest
  | started, .check _ _ :: rest => Orderly started rest
  | started, .awaitCompleted :: rest => started = true ∧ Orderly started rest

/-- On a pin that only core0 drives each wait follows an edge that the driver hears. -/
def Heeds {P : Type} [DecidableEq P] (d : Driver P) : (P → Bool) → Bool → List (Op P) → Prop
  | _, _, [] => True
  | driven, _, .setTestStarted _ :: rest => Heeds d driven false rest
  | driven, heard, .setTestCompleted _ :: rest => Heeds d driven heard rest
  | driven, heard, .drive p low :: rest =>
    Heeds d (Function.update driven p low) (heard || d.hears p (!driven p) (!low)) rest
  | driven, heard, .check _ _ :: rest => Heeds d driven heard rest
  | driven, heard, .awaitCompleted :: rest => heard = true ∧ Heeds d driven heard rest

/-- More may be heard than the test counts on. -/
theorem Heeds.heard {P : Type} [DecidableEq P] {d : Driver P} {driven : P → Bool}
    {script : List (Op P)} (h : Heeds d driven false script) (heard : Bool) :
    Heeds d driven heard script := by
  induction script generalizing driven heard with
  | nil => trivial
  | cons op rest ih =>
    cases op with
    | setTestStarted started => exact h
    | setTestCompleted completed => exact ih h heard
    | check p high => exact ih h heard
    | awaitCompleted => cases h.1
    | drive p low =>
      cases heard with
      | false => exact h
      | true =>
        cases hhears : d.hears p (!driven p) (!low) with
        | false =>
          simp only [Heeds, hhears, Bool.or_false] at h ⊢
          exact ih h true
        | true =>
          simp only [Heeds, hhears, Bool.or_true] at h ⊢
          exact h

theorem orderly_drv8830 : Orderly false drv8830.test := by
  simp [drv8830, Orderly]

theorem orderly_ncp3901 : Orderly false ncp3901.test := by
  simp [ncp3901, Orderly]

theorem heeds_drv8830 : Heeds drv8830 (fun _ => false) false drv8830.test := by
  simp [drv8830, Heeds, Driver.hears, moved]

theorem heeds_ncp3901 : Heeds ncp3901 (fun _ => false) false ncp3901.test := by
  simp [ncp3901, Heeds, Driver.hears, moved]

instance : Fintype Drv8830.Motor where
  elems := {.left, .right}
  complete m := by cases m <;> decide

namespace State

section
variable {P : Type}

def high (s : State P) (p : P) : Bool := !(s.driven p || s.asserted p)

def isLatched (s : State P) (p : P) : Bool := s.latched p .rise || s.latched p .fall

/-- A response has come or is on its way, if the test stays started. -/
def OnItsWay (s : State P) : Prop :=
  s.testCompleted = true ∨ (∃ p, s.isLatched p = true) ∨ s.handler.serves = true ∨
    .testResponse ∈ s.callQueue

def Waiting (s : State P) : Prop :=
  s.script.head? = some .awaitCompleted ∧ s.testCompleted = false

/-- A core has stopped at a full queue. -/
def Halted (s : State P) : Prop := s.handler = .halted ∨ s.core1Halted = true

/-- What is heard leads to a response, unless core0 stops on the way. -/
structure Told (s : State P) : Prop where
  heard : s.OnItsWay → s.heard = true
  onItsWay : s.handler ≠ .halted → s.heard = true → s.OnItsWay

structure Steady (s : State P) : Prop where
  orderly : Orderly s.testStarted s.script
  told : s.testStarted = true → s.Told

/-- A step that has nothing to do with the response. -/
theorem Told.of_iff {s t : State P} (hs : s.Told) (h : t.OnItsWay ↔ s.OnItsWay)
    (hheard : t.heard = s.heard) (hruns : t.handler ≠ .halted → s.handler ≠ .halted) :
    t.Told := by
  refine ⟨?_, ?_⟩
  · rw [h, hheard]
    exact hs.heard
  · rw [h, hheard]
    exact fun ht => hs.onItsWay (hruns ht)

/-- `call_queue_try_add` in a handler, which goes on as `next`. -/
def callQueueTryAdd (s : State P) (job : Job) (next : Handler P) : State P :=
  if s.callQueue.length < Max77958.callQueueSize then
    { s with callQueue := s.callQueue ++ [job], handler := next }
  else { s with handler := .halted }

theorem callQueueTryAdd_cases (s : State P) (job : Job) (next : Handler P) :
    s.callQueue.length < Max77958.callQueueSize ∧ s.callQueueTryAdd job next =
        { s with callQueue := s.callQueue ++ [job], handler := next } ∨
      ¬ s.callQueue.length < Max77958.callQueueSize ∧
        s.callQueueTryAdd job next = { s with handler := .halted } := by
  unfold callQueueTryAdd
  split
  · rename_i hroom
    exact Or.inl ⟨hroom, rfl⟩
  · rename_i hfull
    exact Or.inr ⟨hfull, rfl⟩

/-- Only the queue and the handler change. -/
theorem callQueueTryAdd_eq (s : State P) (job : Job) (next : Handler P) :
    ∃ queue handler, s.callQueueTryAdd job next =
      { s with callQueue := queue, handler := handler } := by
  rcases callQueueTryAdd_cases s job next with ⟨-, h⟩ | ⟨-, h⟩
  · exact ⟨s.callQueue ++ [job], next, h⟩
  · exact ⟨s.callQueue, .halted, h⟩

theorem callQueueTryAdd_heard (s : State P) (job : Job) (next : Handler P) :
    (s.callQueueTryAdd job next).heard = s.heard := by
  obtain ⟨queue, handler, h⟩ := callQueueTryAdd_eq s job next
  rw [h]

theorem Waiting.testStarted {s : State P} (hs : s.Steady) (hw : s.Waiting) :
    s.testStarted = true := by
  have horderly := hs.orderly
  obtain ⟨rest, hscript⟩ := List.head?_eq_some_iff.mp hw.1
  rw [hscript] at horderly
  exact horderly.1

/-- A step that only passes the response on. -/
theorem Steady.of_onItsWay {s t : State P} (hs : s.Steady) (hbefore : s.OnItsWay)
    (hscript : t.script = s.script) (hstarted : t.testStarted = s.testStarted)
    (hheard : t.heard = s.heard)
    (hafter : s.testStarted = true → t.handler ≠ .halted → t.OnItsWay) : t.Steady := by
  refine ⟨?_, ?_⟩
  · rw [hscript, hstarted]
    exact hs.orderly
  · rw [hstarted]
    intro h
    refine ⟨?_, ?_⟩
    · intro _
      rw [hheard]
      exact (hs.told h).heard hbefore
    · intro hruns _
      exact hafter h hruns

/-- A handler that adds a job either goes on or has stopped. -/
theorem Steady.callQueueTryAdd {s : State P} (hs : s.Steady)
    (hserves : s.handler.serves = true) {job : Job} {next : Handler P}
    (h : next.serves = true ∨ job = .testResponse) :
    (s.callQueueTryAdd job next).Steady := by
  have hbefore : s.OnItsWay := Or.inr (Or.inr (Or.inl hserves))
  rcases callQueueTryAdd_cases s job next with ⟨-, hadded⟩ | ⟨-, hhalted⟩
  · rw [hadded]
    refine hs.of_onItsWay hbefore rfl rfl rfl ?_
    intro _ _
    rcases h with hnext | rfl
    · exact Or.inr (Or.inr (Or.inl hnext))
    · exact Or.inr (Or.inr (Or.inr (by simp)))
  · rw [hhalted]
    exact hs.of_onItsWay hbefore rfl rfl rfl fun _ hruns => absurd rfl hruns

/-- Neither does another job change what is on its way, nor a stop of a handler that serves no
edge. -/
theorem Steady.otherHandler {s : State P} (hs : s.Steady) (hidle : s.handler = .idle) :
    (s.callQueueTryAdd .work .idle).Steady := by
  rcases callQueueTryAdd_cases s .work .idle with ⟨-, hadded⟩ | ⟨-, hhalted⟩
  · rw [hadded]
    refine ⟨hs.orderly, ?_⟩
    intro hstarted
    refine (hs.told hstarted).of_iff ?_ rfl (by simp [hidle])
    simp [OnItsWay, isLatched, hidle]
  · rw [hhalted]
    refine ⟨hs.orderly, ?_⟩
    intro hstarted
    refine (hs.told hstarted).of_iff ?_ rfl (by simp [hidle])
    simp [OnItsWay, isLatched, hidle, Handler.serves]

theorem not_halted_callQueueTryAdd {s : State P} (hcore1 : ¬ s.core1Halted = true)
    (hroom : s.callQueue.length < Max77958.callQueueSize) {job : Job} {next : Handler P}
    (hnext : next ≠ .halted) : ¬ (s.callQueueTryAdd job next).Halted := by
  rw [State.callQueueTryAdd, if_pos hroom]
  exact not_or.mpr ⟨hnext, hcore1⟩

/-- Core0 cannot go on: it has stopped itself, or it waits for core1, which has. -/
def Dead (s : State P) : Prop :=
  s.handler = .halted ∨ s.core1Halted = true ∧ s.Waiting

/-- A handler that can still add a job is not what has stopped. -/
theorem Dead.callQueueTryAdd {s : State P} (hs : s.Dead) (hruns : s.handler ≠ .halted) (job : Job)
    (next : Handler P) :
    (s.callQueueTryAdd job next).script = s.script ∧ (s.callQueueTryAdd job next).Dead := by
  obtain ⟨queue, handler, h⟩ := callQueueTryAdd_eq s job next
  have hwaits := hs.resolve_left hruns
  rw [h]
  exact ⟨rfl, Or.inr hwaits⟩

theorem steady_start {d : Driver P} (h : Orderly false d.test) (asserted : P → Bool) :
    (start d asserted).Steady :=
  ⟨h, by simp [start]⟩

variable [DecidableEq P] (d : Driver P)

def setLatched (s : State P) (p : P) (e : Edge) (on : Bool) : State P :=
  { s with latched := Function.update s.latched p (Function.update (s.latched p) e on) }

/-- What the pin does from `s` to `t`. -/
def latch (s t : State P) (p : P) : State P :=
  match moved (s.high p) (t.high p) with
  | some e => if d.enabled p e then { t.setLatched p e true with heard := true } else t
  | none => t

variable {d} {s t : State P}

theorem isLatched_setLatched (s : State P) (p : P) (e : Edge) :
    (s.setLatched p e true).isLatched p = true := by
  cases e <;> simp [isLatched, setLatched]

theorem latch_cases (d : Driver P) (s t : State P) (p : P) :
    d.hears p (s.high p) (t.high p) = false ∧ s.latch d t p = t ∨
      d.hears p (s.high p) (t.high p) = true ∧
        ∃ e, s.latch d t p = { t.setLatched p e true with heard := true } := by
  unfold latch Driver.hears
  split
  · rename_i e hmoved
    split
    · rename_i henabled
      exact Or.inr ⟨henabled, e, rfl⟩
    · rename_i henabled
      exact Or.inl ⟨Bool.eq_false_of_not_eq_true henabled, rfl⟩
  · exact Or.inl ⟨rfl, rfl⟩

theorem latch_eq (d : Driver P) (s t : State P) (p : P) :
    ∃ latched heard, s.latch d t p = { t with latched := latched, heard := heard } := by
  rcases latch_cases d s t p with ⟨-, h⟩ | ⟨-, e, h⟩
  · exact ⟨t.latched, t.heard, h⟩
  · exact ⟨(t.setLatched p e true).latched, true, h⟩

theorem latch_script (p : P) : (s.latch d t p).script = t.script := by
  obtain ⟨latched, heard, h⟩ := latch_eq d s t p
  rw [h]

theorem latch_testStarted (p : P) : (s.latch d t p).testStarted = t.testStarted := by
  obtain ⟨latched, heard, h⟩ := latch_eq d s t p
  rw [h]

theorem latch_driven (p : P) : (s.latch d t p).driven = t.driven := by
  obtain ⟨latched, heard, h⟩ := latch_eq d s t p
  rw [h]

theorem latch_heard (p : P) :
    (s.latch d t p).heard = (t.heard || d.hears p (s.high p) (t.high p)) := by
  rcases latch_cases d s t p with ⟨hhears, h⟩ | ⟨hhears, e, h⟩
  · rw [h, hhears, Bool.or_false]
  · rw [h, hhears, Bool.or_true]

theorem Told.latch {p : P} (h : t.Told) : (s.latch d t p).Told := by
  rcases latch_cases d s t p with ⟨-, hlatch⟩ | ⟨-, e, hlatch⟩
  · rw [hlatch]
    exact h
  · rw [hlatch]
    exact ⟨fun _ => rfl, fun _ _ => Or.inr (Or.inl ⟨p, isLatched_setLatched t p e⟩)⟩

def HeedsNow (d : Driver P) (s : State P) : Prop := Heeds d s.driven s.heard s.script

theorem HeedsNow.latch {p : P} (ht : t.HeedsNow d) : (s.latch d t p).HeedsNow d := by
  unfold HeedsNow at ht ⊢
  rw [latch_driven, latch_heard, latch_script]
  cases hheard : t.heard with
  | false =>
    rw [hheard] at ht
    exact ht.heard _
  | true =>
    rw [hheard] at ht
    exact ht

theorem HeedsNow.callQueueTryAdd (hs : s.HeedsNow d) (job : Job) (next : Handler P) :
    (s.callQueueTryAdd job next).HeedsNow d := by
  obtain ⟨queue, handler, h⟩ := callQueueTryAdd_eq s job next
  rw [h]
  exact hs

theorem Waiting.heard (hw : s.Waiting) (hs : s.HeedsNow d) : s.heard = true := by
  obtain ⟨rest, hscript⟩ := List.head?_eq_some_iff.mp hw.1
  unfold HeedsNow at hs
  rw [hscript] at hs
  exact hs.1

end

section
variable {P : Type} [Fintype P]

def latchedPins (s : State P) : Finset P := Finset.univ.filter fun p => s.isLatched p = true

/-- At most this many steps of the firmware are made while core0 waits. -/
def due (s : State P) : Nat :=
  6 * s.latchedPins.card + s.handler.due + s.callQueue.length

theorem mem_latchedPins {s : State P} {p : P} : p ∈ s.latchedPins ↔ s.isLatched p = true := by
  simp [latchedPins]

theorem due_lt {s t : State P} (hpins : t.latchedPins ⊆ s.latchedPins)
    (h : t.handler.due + t.callQueue.length < s.handler.due + s.callQueue.length) :
    t.due < s.due := by
  have hcard := Finset.card_le_card hpins
  unfold due
  omega

theorem due_callQueueTryAdd {s : State P} {job : Job} {next : Handler P}
    (h : next.due + 1 < s.handler.due) : (s.callQueueTryAdd job next).due < s.due := by
  rcases callQueueTryAdd_cases s job next with ⟨-, hadded⟩ | ⟨-, hhalted⟩
  · rw [hadded]
    have hless : next.due + (s.callQueue ++ [job]).length <
        s.handler.due + s.callQueue.length := by
      rw [List.length_append, List.length_singleton]
      omega
    exact due_lt (Finset.Subset.refl s.latchedPins) hless
  · rw [hhalted]
    have hless : (Handler.halted : Handler P).due + s.callQueue.length <
        s.handler.due + s.callQueue.length := by
      have hnone : (Handler.halted : Handler P).due = 0 := rfl
      omega
    exact due_lt (Finset.Subset.refl s.latchedPins) hless

variable [DecidableEq P] (d : Driver P)

instance (s : State P) : Decidable s.OnItsWay := inferInstanceAs (Decidable (_ ∨ _))

def perform (s : State P) : Op P → Option (State P)
  | .setTestStarted started =>
    some { s with testStarted := started, heard := started && s.OnItsWay }
  | .setTestCompleted completed => some { s with testCompleted := completed }
  | .drive p low => some (s.latch d { s with driven := Function.update s.driven p low } p)
  | .check p high => if s.high p = high then some s else none
  | .awaitCompleted => if s.testCompleted then some s else none

def step (s : State P) : Action P → Option (State P)
  | .device p low => some (s.latch d { s with asserted := Function.update s.asserted p low } p)
  | .otherHandler => if s.handler = .idle then some (s.callQueueTryAdd .work .idle) else none
  | .jobAdd =>
    if s.core1Halted then none
    else if s.callQueue.length < Max77958.callQueueSize then
      some { s with callQueue := s.callQueue ++ [.work] }
    else some { s with core1Halted := true }
  | .deliver p =>
    if s.handler = .idle ∧ s.isLatched p = true then
      some { s with
        latched := Function.update s.latched p fun _ => false
        handler := .entered p (if s.latched p .rise then .rise else .fall) }
    else none
  | .handler =>
    match s.handler with
    | .idle | .halted => none
    | .entered p e => some { s.setLatched p e false with handler := .acknowledged }
    | .acknowledged => some (s.callQueueTryAdd .work .workAdded)
    | .workAdded =>
      some (if s.testStarted then s.callQueueTryAdd .testResponse .idle
        else { s with handler := .idle })
  | .callQueuePop =>
    if s.core1Halted then none
    else match s.callQueue with
    | [] => none
    | .work :: rest => some { s with callQueue := rest }
    | .testResponse :: rest => some { s with callQueue := rest, testCompleted := true }
  | .core0 =>
    match s.script with
    | [] => none
    | op :: rest => if s.handler = .idle then { s with script := rest }.perform d op else none

/-! ### What is to hold -/

/-- The job that the step adds, if any, finds room. -/
def FindsRoom (s : State P) : Action P → Prop
  | .otherHandler | .jobAdd => s.callQueue.length < Max77958.callQueueSize
  | .handler =>
    s.handler = .acknowledged ∨ s.handler = .workAdded ∧ s.testStarted = true →
      s.callQueue.length < Max77958.callQueueSize
  | .device _ _ | .deliver _ | .callQueuePop | .core0 => True

/-- While the device and the other drivers are quiet and the handler finds room for its jobs the
wait ends: as long as it lasts some such step can be made, and no more than `due` of them are. -/
def Ends (s : State P) : Prop :=
  ∀ (actions : List (Action P)) (t : State P), (∀ a ∈ actions, a.own = true) →
    Along (step d) FindsRoom s actions → run (step d) s actions = some t →
      Throughout (step d) Waiting s actions →
        actions.length ≤ s.due ∧ ∃ a, a.own = true ∧ t.FindsRoom a ∧ (t.step d a).isSome = true

/-- While the device is quiet core0 waits on, whatever the firmware does. -/
def Hangs (s : State P) : Prop :=
  ∀ actions : List (Action P), (∀ a ∈ actions, a.own = true) →
    Throughout (step d) Waiting s actions

/-- Core0 makes no further step, whatever happens. -/
def Stuck (s : State P) : Prop :=
  ∀ actions : List (Action P), Throughout (step d) (fun t => t.script = s.script) s actions

/-- A wait never ends once a core has stopped at a full queue. Until then it ends if an edge has
been heard since the test was started, and else it does not. -/
def WaitDecided (s : State P) : Prop :=
  s.Waiting → (s.Halted → s.Stuck d) ∧ (¬ s.Halted → s.heard = true → s.Ends d) ∧
    (s.heard = false → s.Hangs d)

/-- What a step does. -/
inductive Stepped (s : State P) : Action P → State P → Prop where
  | device (p : P) (low : Bool) : Stepped s (.device p low)
      (s.latch d { s with asserted := Function.update s.asserted p low } p)
  | otherHandler (hidle : s.handler = .idle) :
      Stepped s .otherHandler (s.callQueueTryAdd .work .idle)
  | jobAdd : Stepped s .jobAdd { s with callQueue := s.callQueue ++ [.work] }
  | jobHalt (hfull : ¬ s.callQueue.length < Max77958.callQueueSize) :
      Stepped s .jobAdd { s with core1Halted := true }
  | deliver (p : P) (hidle : s.handler = .idle) (hlatched : s.isLatched p = true) :
      Stepped s (.deliver p) { s with
        latched := Function.update s.latched p fun _ => false
        handler := .entered p (if s.latched p .rise then .rise else .fall) }
  | acknowledge (p : P) (e : Edge) (hentered : s.handler = .entered p e) :
      Stepped s .handler { s.setLatched p e false with handler := .acknowledged }
  | addWork (hacknowledged : s.handler = .acknowledged) :
      Stepped s .handler (s.callQueueTryAdd .work .workAdded)
  | addResponse (hadded : s.handler = .workAdded) (hstarted : s.testStarted = true) :
      Stepped s .handler (s.callQueueTryAdd .testResponse .idle)
  | leave (hadded : s.handler = .workAdded) (hstarted : s.testStarted = false) :
      Stepped s .handler { s with handler := .idle }
  | popWork (rest : List Job) (hruns : s.core1Halted = false)
      (hqueue : s.callQueue = .work :: rest) :
      Stepped s .callQueuePop { s with callQueue := rest }
  | popResponse (rest : List Job) (hruns : s.core1Halted = false)
      (hqueue : s.callQueue = .testResponse :: rest) :
      Stepped s .callQueuePop { s with callQueue := rest, testCompleted := true }
  | core0 (op : Op P) (rest : List (Op P)) (t : State P) (hscript : s.script = op :: rest)
      (hidle : s.handler = .idle) (hperform : { s with script := rest }.perform d op = some t) :
      Stepped s .core0 t

variable {d} {s t : State P} {a : Action P}

theorem stepped_of_step (h : s.step d a = some t) : s.Stepped d a t := by
  cases a with
  | device p low =>
    obtain rfl := Option.some.inj h
    exact .device p low
  | otherHandler =>
    simp only [step] at h
    split at h
    · rename_i hidle
      obtain rfl := Option.some.inj h
      exact .otherHandler hidle
    · cases h
  | jobAdd =>
    simp only [step] at h
    split at h
    · cases h
    · split at h
      · obtain rfl := Option.some.inj h
        exact .jobAdd
      · rename_i hfull
        obtain rfl := Option.some.inj h
        exact .jobHalt hfull
  | deliver p =>
    simp only [step] at h
    split at h
    · rename_i hready
      obtain rfl := Option.some.inj h
      exact .deliver p hready.1 hready.2
    · cases h
  | handler =>
    simp only [step] at h
    split at h
    · cases h
    · cases h
    · rename_i p e hentered
      obtain rfl := Option.some.inj h
      exact .acknowledge p e hentered
    · rename_i hacknowledged
      obtain rfl := Option.some.inj h
      exact .addWork hacknowledged
    · rename_i hadded
      obtain rfl := Option.some.inj h
      split
      · rename_i hstarted
        exact .addResponse hadded hstarted
      · rename_i hstarted
        exact .leave hadded (Bool.eq_false_of_not_eq_true hstarted)
  | callQueuePop =>
    simp only [step] at h
    split at h
    · cases h
    · rename_i hruns
      have hruns := Bool.eq_false_of_not_eq_true hruns
      split at h
      · cases h
      · rename_i rest hqueue
        obtain rfl := Option.some.inj h
        exact .popWork rest hruns hqueue
      · rename_i rest hqueue
        obtain rfl := Option.some.inj h
        exact .popResponse rest hruns hqueue
  | core0 =>
    simp only [step] at h
    split at h
    · cases h
    · rename_i op rest hscript
      split at h
      · rename_i hidle
        exact .core0 op rest t hscript hidle h
      · cases h

/-! ### The wait is decided -/

theorem perform_check {p : P} {high : Bool} (h : s.perform d (.check p high) = some t) :
    t = s := by
  simp only [State.perform] at h
  split at h
  · exact (Option.some.inj h).symm
  · cases h

theorem perform_awaitCompleted (h : s.perform d .awaitCompleted = some t) : t = s := by
  simp only [State.perform] at h
  split at h
  · exact (Option.some.inj h).symm
  · cases h

theorem perform_halts {op : Op P} {rest : List (Op P)}
    (h : { s with script := rest }.perform d op = some t) :
    t.handler = s.handler ∧ t.core1Halted = s.core1Halted := by
  cases op with
  | setTestStarted | setTestCompleted =>
    obtain rfl := Option.some.inj h
    exact ⟨rfl, rfl⟩
  | drive p low =>
    obtain rfl := Option.some.inj h
    obtain ⟨latched, heard, h⟩ := latch_eq d { s with script := rest }
      { s with script := rest, driven := Function.update s.driven p low } p
    rw [h]
    exact ⟨rfl, rfl⟩
  | check p high =>
    obtain rfl := perform_check h
    exact ⟨rfl, rfl⟩
  | awaitCompleted =>
    obtain rfl := perform_awaitCompleted h
    exact ⟨rfl, rfl⟩

theorem Steady.perform {op : Op P} {rest : List (Op P)} (hs : s.Steady)
    (hscript : s.script = op :: rest)
    (hperform : { s with script := rest }.perform d op = some t) : t.Steady := by
  obtain ⟨horderly, htold⟩ := hs
  rw [hscript] at horderly
  cases op with
  | setTestStarted started =>
    obtain rfl := Option.some.inj hperform
    refine ⟨horderly, ?_⟩
    intro hstarted
    obtain rfl : started = true := hstarted
    exact ⟨fun h => decide_eq_true h, fun _ h => of_decide_eq_true h⟩
  | setTestCompleted completed =>
    obtain rfl := Option.some.inj hperform
    refine ⟨horderly.2, ?_⟩
    intro hstarted
    exact absurd (horderly.1.symm.trans hstarted) (by decide)
  | drive p low =>
    obtain rfl := Option.some.inj hperform
    refine ⟨?_, ?_⟩
    · rw [latch_script, latch_testStarted]
      exact horderly
    · rw [latch_testStarted]
      intro hstarted
      exact Told.latch ((htold hstarted).of_iff Iff.rfl rfl id)
  | check p high =>
    obtain rfl := perform_check hperform
    exact ⟨horderly, fun hstarted => (htold hstarted).of_iff Iff.rfl rfl id⟩
  | awaitCompleted =>
    obtain rfl := perform_awaitCompleted hperform
    exact ⟨horderly.2, fun hstarted => (htold hstarted).of_iff Iff.rfl rfl id⟩

theorem Steady.step (hs : s.Steady) (hstep : s.step d a = some t) : t.Steady := by
  cases stepped_of_step hstep with
  | device p low =>
    refine ⟨?_, ?_⟩
    · rw [latch_script, latch_testStarted]
      exact hs.orderly
    · rw [latch_testStarted]
      intro hstarted
      exact Told.latch ((hs.told hstarted).of_iff Iff.rfl rfl id)
  | otherHandler hidle => exact hs.otherHandler hidle
  | jobAdd =>
    refine ⟨hs.orderly, ?_⟩
    intro hstarted
    exact (hs.told hstarted).of_iff (by simp [OnItsWay, isLatched]) rfl id
  | jobHalt hfull => exact ⟨hs.orderly, fun hstarted => (hs.told hstarted).of_iff Iff.rfl rfl id⟩
  | deliver p hidle hlatched =>
    have hbefore : s.OnItsWay := Or.inr (Or.inl ⟨p, hlatched⟩)
    exact hs.of_onItsWay hbefore rfl rfl rfl fun _ _ => Or.inr (Or.inr (Or.inl rfl))
  | acknowledge p e hentered =>
    have hbefore : s.OnItsWay := Or.inr (Or.inr (Or.inl (by rw [hentered]; rfl)))
    exact hs.of_onItsWay hbefore rfl rfl rfl fun _ _ => Or.inr (Or.inr (Or.inl rfl))
  | addWork hacknowledged =>
    exact hs.callQueueTryAdd (by rw [hacknowledged]; rfl) (Or.inl rfl)
  | addResponse hadded hstarted =>
    exact hs.callQueueTryAdd (by rw [hadded]; rfl) (Or.inr rfl)
  | leave hadded hstarted =>
    refine ⟨hs.orderly, ?_⟩
    intro h
    exact absurd (hstarted.symm.trans h) (by decide)
  | popWork rest hruns hqueue =>
    refine ⟨hs.orderly, ?_⟩
    intro hstarted
    exact (hs.told hstarted).of_iff (by simp [OnItsWay, isLatched, hqueue]) rfl id
  | popResponse rest hruns hqueue =>
    have hbefore : s.OnItsWay := Or.inr (Or.inr (Or.inr (by simp [hqueue])))
    exact hs.of_onItsWay hbefore rfl rfl rfl fun _ _ => Or.inl rfl
  | core0 op rest t hscript hidle hperform => exact hs.perform hscript hperform

theorem Waiting.not_perform {op : Op P} {rest : List (Op P)} (hw : s.Waiting)
    (hscript : s.script = op :: rest) :
    { s with script := rest }.perform d op = none := by
  obtain ⟨hhead, hcompleted⟩ := hw
  rw [hscript, List.head?_cons, Option.some.injEq] at hhead
  obtain rfl := hhead
  simp [State.perform, hcompleted]

/-- The device alone can bring an edge that is heard. -/
theorem Waiting.heard_step (hw : s.Waiting) (ha : a.own = true) (hstep : s.step d a = some t) :
    t.heard = s.heard := by
  cases stepped_of_step hstep with
  | device | otherHandler | jobAdd | jobHalt => cases ha
  | deliver | acknowledge | leave | popWork | popResponse => rfl
  | addWork hacknowledged => exact callQueueTryAdd_heard s .work .workAdded
  | addResponse hadded hstarted => exact callQueueTryAdd_heard s .testResponse .idle
  | core0 op rest t hscript hidle hperform =>
    rw [hw.not_perform hscript] at hperform
    cases hperform

theorem latchedPins_deliver {p : P} (hlatched : s.isLatched p = true) (handler : Handler P) :
    ({ s with
        latched := Function.update s.latched p fun _ => false
        handler := handler } : State P).latchedPins.card + 1 = s.latchedPins.card := by
  rw [← Finset.card_erase_add_one (mem_latchedPins.mpr hlatched)]
  congr 2
  ext q
  rw [Finset.mem_erase, mem_latchedPins, mem_latchedPins]
  by_cases hq : q = p
  · simp [isLatched, hq]
  · simp [isLatched, hq]

theorem latchedPins_acknowledge (p : P) (e : Edge) (handler : Handler P) :
    ({ s.setLatched p e false with handler := handler } : State P).latchedPins ⊆
      s.latchedPins := by
  intro q hq
  rw [mem_latchedPins] at hq ⊢
  by_cases hqp : q = p
  · obtain rfl := hqp
    cases e with
    | rise =>
      have hfall : s.latched q .fall = true := by simpa [isLatched, setLatched] using hq
      simp [isLatched, hfall]
    | fall =>
      have hrise : s.latched q .rise = true := by simpa [isLatched, setLatched] using hq
      simp [isLatched, hrise]
  · simpa [isLatched, setLatched, hqp] using hq

theorem Waiting.due_step (hw : s.Waiting) (ha : a.own = true) (hstep : s.step d a = some t) :
    t.due < s.due := by
  cases stepped_of_step hstep with
  | device | otherHandler | jobAdd | jobHalt => cases ha
  | deliver p hidle hlatched =>
    have hpins := latchedPins_deliver hlatched
      (.entered p (if s.latched p .rise then .rise else .fall))
    simp only [due, hidle, Handler.due]
    omega
  | acknowledge p e hentered =>
    refine due_lt (latchedPins_acknowledge p e .acknowledged) ?_
    have hqueue : (s.setLatched p e false).callQueue = s.callQueue := rfl
    simp only [hentered, Handler.due, hqueue]
    omega
  | addWork hacknowledged => exact due_callQueueTryAdd (by simp [hacknowledged, Handler.due])
  | addResponse hadded hstarted => exact due_callQueueTryAdd (by simp [hadded, Handler.due])
  | leave hadded hstarted =>
    refine due_lt (Finset.Subset.refl s.latchedPins) ?_
    simp [hadded, Handler.due]
  | popWork rest hruns hqueue =>
    refine due_lt (Finset.Subset.refl s.latchedPins) ?_
    simp only [hqueue, List.length_cons]
    omega
  | popResponse rest hruns hqueue =>
    refine due_lt (Finset.Subset.refl s.latchedPins) ?_
    simp only [hqueue, List.length_cons]
    omega
  | core0 op rest t hscript hidle hperform =>
    rw [hw.not_perform hscript] at hperform
    cases hperform

/-- While there is room no core stops. -/
theorem not_halted_step (hs : ¬ s.Halted) (hroom : s.FindsRoom a)
    (hstep : s.step d a = some t) : ¬ t.Halted := by
  obtain ⟨hhandler, hcore1⟩ := not_or.mp hs
  cases stepped_of_step hstep with
  | device p low =>
    obtain ⟨latched, heard, h⟩ :=
      latch_eq d s { s with asserted := Function.update s.asserted p low } p
    rw [h]
    exact hs
  | otherHandler hidle => exact not_halted_callQueueTryAdd hcore1 hroom (by simp)
  | jobAdd => exact hs
  | jobHalt hfull => exact absurd hroom hfull
  | deliver | acknowledge | leave => exact not_or.mpr ⟨by simp, hcore1⟩
  | addWork hacknowledged =>
    exact not_halted_callQueueTryAdd hcore1 (hroom (Or.inl hacknowledged)) (by simp)
  | addResponse hadded hstarted =>
    exact not_halted_callQueueTryAdd hcore1 (hroom (Or.inr ⟨hadded, hstarted⟩)) (by simp)
  | popWork | popResponse => exact hs
  | core0 op rest t hscript hidle hperform =>
    obtain ⟨hsame, hsame1⟩ := perform_halts hperform
    unfold Halted
    rw [hsame, hsame1]
    exact hs

/-- A handler that finds the queue full leaves something for core1 to do. -/
theorem exists_step_of_adds (d : Driver P) (hcore1 : s.core1Halted = false)
    (hhandler : (s.step d .handler).isSome = true) :
    ∃ a, a.own = true ∧ s.FindsRoom a ∧ (s.step d a).isSome = true := by
  by_cases hroom : s.callQueue.length < Max77958.callQueueSize
  · exact ⟨.handler, rfl, fun _ => hroom, hhandler⟩
  · refine ⟨.callQueuePop, rfl, trivial, ?_⟩
    cases hqueue : s.callQueue with
    | nil => exact absurd (by rw [hqueue]; decide) hroom
    | cons job rest => cases job <;> simp [State.step, hcore1, hqueue]

theorem Waiting.exists_step (d : Driver P) (hw : s.Waiting) (hruns : ¬ s.Halted)
    (hs : s.OnItsWay) : ∃ a, a.own = true ∧ s.FindsRoom a ∧ (s.step d a).isSome = true := by
  obtain ⟨hhalted, hcore1⟩ := not_or.mp hruns
  have hcore1 := Bool.eq_false_of_not_eq_true hcore1
  cases hhandler : s.handler with
  | halted => exact absurd hhandler hhalted
  | entered p e => exact exists_step_of_adds d hcore1 (by simp [State.step, hhandler])
  | acknowledged => exact exists_step_of_adds d hcore1 (by simp [State.step, hhandler])
  | workAdded => exact exists_step_of_adds d hcore1 (by simp [State.step, hhandler])
  | idle =>
    rcases hs with hcompleted | ⟨p, hlatched⟩ | hserves | hqueued
    · rw [hw.2] at hcompleted
      cases hcompleted
    · exact ⟨.deliver p, rfl, trivial, by simp [State.step, hhandler, hlatched]⟩
    · rw [hhandler] at hserves
      cases hserves
    · refine ⟨.callQueuePop, rfl, trivial, ?_⟩
      cases hqueue : s.callQueue with
      | nil =>
        rw [hqueue] at hqueued
        cases hqueued
      | cons job rest => cases job <;> simp [State.step, hcore1, hqueue]

theorem Steady.ends (hs : s.Steady) (hw : s.Waiting) (hruns : ¬ s.Halted)
    (hheard : s.heard = true) : s.Ends d := by
  intro actions t hown hroom hrun hwaits
  induction actions generalizing s with
  | nil =>
    obtain rfl := Option.some.inj hrun
    obtain ⟨hhandler, -⟩ := not_or.mp hruns
    have honItsWay := (hs.told (hw.testStarted hs)).onItsWay hhandler hheard
    exact ⟨Nat.zero_le _, hw.exists_step d hruns honItsWay⟩
  | cons a actions ih =>
    rw [run_cons, Option.bind_eq_some_iff] at hrun
    obtain ⟨u, hstep, hrun⟩ := hrun
    have ha := hown a List.mem_cons_self
    have hrest := hwaits.2 u hstep
    obtain ⟨hfinds, hroom⟩ := hroom u hstep
    obtain ⟨hlength, hgo⟩ := ih (hs.step hstep) hrest.head (not_halted_step hruns hfinds hstep)
      ((hw.heard_step ha hstep).trans hheard)
      (fun b hb => hown b (List.mem_cons_of_mem a hb)) hroom hrun hrest
    have hless := hw.due_step ha hstep
    exact ⟨by rw [List.length_cons]; omega, hgo⟩

/-- Nothing of the firmware brings the response if no edge was heard. -/
theorem Steady.waiting_step (hs : s.Steady) (hw : s.Waiting) (hheard : s.heard = false)
    (ha : a.own = true) (hstep : s.step d a = some t) : t.Waiting := by
  have hnone : ¬ s.OnItsWay := by
    intro h
    exact absurd (hheard.symm.trans ((hs.told (hw.testStarted hs)).heard h)) (by decide)
  cases stepped_of_step hstep with
  | device | otherHandler | jobAdd | jobHalt => cases ha
  | deliver p hidle hlatched => exact absurd (Or.inr (Or.inl ⟨p, hlatched⟩)) hnone
  | acknowledge | leave | popWork => exact hw
  | addWork hacknowledged =>
    exact absurd (Or.inr (Or.inr (Or.inl (by rw [hacknowledged]; rfl)))) hnone
  | addResponse hadded hstarted =>
    exact absurd (Or.inr (Or.inr (Or.inl (by rw [hadded]; rfl)))) hnone
  | popResponse rest hruns hqueue =>
    exact absurd (Or.inr (Or.inr (Or.inr (by simp [hqueue])))) hnone
  | core0 op rest t hscript hidle hperform =>
    rw [hw.not_perform hscript] at hperform
    cases hperform

theorem Steady.hangs (hs : s.Steady) (hw : s.Waiting) (hheard : s.heard = false) :
    s.Hangs d := by
  intro actions hown
  induction actions generalizing s with
  | nil => exact hw
  | cons a actions ih =>
    refine ⟨hw, ?_⟩
    intro t hstep
    have ha := hown a List.mem_cons_self
    exact ih (hs.step hstep) (hs.waiting_step hw hheard ha hstep)
      ((hw.heard_step ha hstep).trans hheard) fun b hb => hown b (List.mem_cons_of_mem a hb)

theorem Dead.step (hs : s.Dead) (hstep : s.step d a = some t) :
    t.script = s.script ∧ t.Dead := by
  cases stepped_of_step hstep with
  | device p low =>
    obtain ⟨latched, heard, h⟩ :=
      latch_eq d s { s with asserted := Function.update s.asserted p low } p
    rw [h]
    exact ⟨rfl, hs⟩
  | otherHandler hidle => exact hs.callQueueTryAdd (by simp [hidle]) .work .idle
  | jobAdd => exact ⟨rfl, hs⟩
  | jobHalt hfull => exact ⟨rfl, hs.imp_right fun h => ⟨rfl, h.2⟩⟩
  | deliver p hidle hlatched => exact ⟨rfl, Or.inr (hs.resolve_left (by simp [hidle]))⟩
  | acknowledge p e hentered => exact ⟨rfl, Or.inr (hs.resolve_left (by simp [hentered]))⟩
  | addWork hacknowledged => exact hs.callQueueTryAdd (by simp [hacknowledged]) .work .workAdded
  | addResponse hadded hstarted => exact hs.callQueueTryAdd (by simp [hadded]) .testResponse .idle
  | leave hadded hstarted => exact ⟨rfl, Or.inr (hs.resolve_left (by simp [hadded]))⟩
  | popWork rest hruns hqueue => exact ⟨rfl, Or.inl (hs.resolve_right (by simp [hruns]))⟩
  | popResponse rest hruns hqueue => exact ⟨rfl, Or.inl (hs.resolve_right (by simp [hruns]))⟩
  | core0 op rest t hscript hidle hperform =>
    obtain ⟨-, hw⟩ := hs.resolve_left (by simp [hidle])
    rw [hw.not_perform hscript] at hperform
    cases hperform

theorem Dead.stuck (hs : s.Dead) : s.Stuck d := by
  intro actions
  have hrun : Throughout (State.step d) (fun t => t.script = s.script ∧ t.Dead) s actions :=
    throughout_of_step
      (fun ht hstep => ⟨(ht.2.step hstep).1.trans ht.1, (ht.2.step hstep).2⟩) ⟨rfl, hs⟩
  exact hrun.mono fun _ ht => ht.1

theorem Steady.waitDecided (hs : s.Steady) : s.WaitDecided d := by
  intro hw
  refine ⟨?_, hs.ends hw, hs.hangs hw⟩
  intro hhalted
  exact Dead.stuck (hhalted.imp_right fun h => ⟨h, hw⟩)

theorem throughout_steady (h : Orderly false d.test) (asserted : P → Bool)
    (actions : List (Action P)) : Throughout (step d) Steady (start d asserted) actions :=
  throughout_of_step (fun hs hstep => hs.step hstep) (steady_start h asserted)

/-! ### No wait hangs -/

/-- Core0 neither drives nor releases a pin that the device holds low. -/
def Unheld (s : State P) : Action P → Prop
  | .core0 => ∀ p low, s.script.head? = some (.drive p low) → s.asserted p = false
  | .device _ _ | .otherHandler | .jobAdd | .deliver _ | .handler | .callQueuePop => True

instance (s : State P) (a : Action P) : Decidable (s.Unheld a) := by
  cases a <;> unfold Unheld <;> infer_instance

theorem HeedsNow.perform {op : Op P} {rest : List (Op P)} (hs : s.HeedsNow d)
    (hscript : s.script = op :: rest) (hunheld : s.Unheld .core0)
    (hperform : { s with script := rest }.perform d op = some t) : t.HeedsNow d := by
  unfold HeedsNow at hs ⊢
  rw [hscript] at hs
  cases op with
  | setTestStarted started =>
    obtain rfl := Option.some.inj hperform
    exact Heeds.heard hs _
  | setTestCompleted completed =>
    obtain rfl := Option.some.inj hperform
    exact hs
  | drive p low =>
    obtain rfl := Option.some.inj hperform
    have hasserted : s.asserted p = false := hunheld p low (by rw [hscript]; rfl)
    rw [latch_driven, latch_heard, latch_script]
    have hbefore : s.high p = !s.driven p := by simp [high, hasserted]
    have hafter : ({ s with script := rest, driven := Function.update s.driven p low } :
        State P).high p = !low := by
      simp [high, hasserted]
    have hsame : ({ s with script := rest } : State P).high p = s.high p := rfl
    rw [hsame, hbefore, hafter]
    exact hs
  | check p high =>
    obtain rfl := perform_check hperform
    exact hs
  | awaitCompleted =>
    obtain rfl := perform_awaitCompleted hperform
    exact hs.2

theorem HeedsNow.step (hs : s.HeedsNow d) (hunheld : s.Unheld a)
    (hstep : s.step d a = some t) : t.HeedsNow d := by
  cases stepped_of_step hstep with
  | device p low =>
    have hmoved : ({ s with asserted := Function.update s.asserted p low } : State P).HeedsNow d :=
      hs
    exact hmoved.latch
  | otherHandler hidle => exact hs.callQueueTryAdd .work .idle
  | addWork hacknowledged => exact hs.callQueueTryAdd .work .workAdded
  | addResponse hadded hstarted => exact hs.callQueueTryAdd .testResponse .idle
  | jobAdd | jobHalt | deliver | acknowledge | leave | popWork | popResponse => exact hs
  | core0 op rest t hscript hidle hperform => exact hs.perform hscript hunheld hperform

theorem throughout_ends (horderly : Orderly false d.test)
    (hheeds : Heeds d (fun _ => false) false d.test) {asserted : P → Bool}
    {actions : List (Action P)} (h : Along (step d) Unheld (start d asserted) actions) :
    Throughout (step d) (fun s => s.Waiting → ¬ s.Halted → s.Ends d) (start d asserted)
      actions := by
  have hrun : Throughout (step d) (fun s => s.Steady ∧ s.HeedsNow d) (start d asserted)
      actions :=
    throughout_of_along
      (fun hs hunheld hstep => ⟨hs.1.step hstep, hs.2.step hunheld hstep⟩)
      ⟨steady_start horderly asserted, hheeds⟩ h
  exact hrun.mono fun _ hs hw hruns => hs.1.ends hw hruns (hw.heard hs.2)

end

/-- In every run of either test, whatever the device and the other drivers do: once core0 waits
and neither core has stopped at a full queue, it is decided by the edges heard since the test was
started whether the firmware gets through or the wait lasts until the device moves. -/
theorem wait_decided :
    (∀ asserted actions,
      Throughout (step drv8830) (WaitDecided drv8830) (start drv8830 asserted) actions) ∧
    ∀ asserted actions,
      Throughout (step ncp3901) (WaitDecided ncp3901) (start ncp3901 asserted) actions := by
  refine ⟨?_, ?_⟩
  · intro asserted actions
    exact (throughout_steady orderly_drv8830 asserted actions).mono fun _ hs => hs.waitDecided
  · intro asserted actions
    exact (throughout_steady orderly_ncp3901 asserted actions).mono fun _ hs => hs.waitDecided

-- With a charger on the pad from the start nothing is heard.
example :
    (run (step ncp3901) (start ncp3901 fun _ => true) [.core0, .core0, .core0]).map
      (fun s => (s.script.head?, s.testCompleted, s.heard)) =
        some (some .awaitCompleted, false, false) := by
  decide

/-- If core0 neither drives nor releases a pin that its device holds low, every wait of either
test ends, unless a core stops at a full queue. -/
theorem tests_end_if_unheld :
    (∀ asserted actions, Along (step drv8830) Unheld (start drv8830 asserted) actions →
      Throughout (step drv8830) (fun s => s.Waiting → ¬ s.Halted → s.Ends drv8830)
        (start drv8830 asserted) actions) ∧
    ∀ asserted actions, Along (step ncp3901) Unheld (start ncp3901 asserted) actions →
      Throughout (step ncp3901) (fun s => s.Waiting → ¬ s.Halted → s.Ends ncp3901)
        (start ncp3901 asserted) actions :=
  ⟨fun _ _ h => throughout_ends orderly_drv8830 heeds_drv8830 h,
    fun _ _ h => throughout_ends orderly_ncp3901 heeds_ncp3901 h⟩

theorem tests_end_if_unheld_attached :
    Throughout (step ncp3901) (fun s => s.Waiting → ¬ s.Halted → s.Ends ncp3901)
      (start ncp3901 fun _ => false)
      [.core0, .core0, .otherHandler, .core0, .deliver (), .handler, .device () true, .handler,
        .handler, .callQueuePop, .jobAdd, .callQueuePop, .callQueuePop, .core0, .core0, .core0,
        .device () false, .core0, .core0, .core0, .deliver (), .handler] :=
  tests_end_if_unheld.2 _ _ (by decide)

end State

end SrFirmware.BootTest
