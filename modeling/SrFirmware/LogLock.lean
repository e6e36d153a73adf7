import SrFirmware.Lib.Steps
import Mathlib.Data.Fintype.Basic
import Mathlib.Logic.Function.Basic

/-!
# The log mutex under interrupts

GPIO handlers run on core0 on top of the main thread, which stands still meanwhile. They queue
jobs for core1; `call_queue_try_add` logs an error when the queue is full, and logging takes
the mutex that the interrupted code may hold. `LOG_LEVEL` is at most ERROR, and only messages
that are recorded count as calls. A failed `assert` stops its core.
-/

namespace SrFirmware.LogLock

open Lib
set_option autoImplicit false

def callQueueSize : Nat := 256

inductive Agent where
  | main
  | handler
  -- the job that core1 runs
  | job
  deriving DecidableEq

inductive Op where
  | acquireLock
  -- what is done with the ring, or printed from it, under the mutex
  | useLog
  | releaseLock
  | callQueueTryAdd
  | callQueueTryAddNonblocking
  | assertFalse
  deriving DecidableEq

/-! ### The functions -/

def rp2040Log : List Op := [.acquireLock, .useLog, .releaseLock]

def sendLogPacket : List Op := [.acquireLock, .useLog, .releaseLock]

/-- The calls of the main thread and of the jobs that matter here. -/
inductive Call where
  | rp2040Log
  | sendLogPacket
  | callQueueTryAdd
  deriving DecidableEq

def Call.ops : Call → List Op
  | .rp2040Log => LogLock.rp2040Log
  | .sendLogPacket => LogLock.sendLogPacket
  | .callQueueTryAdd => [.callQueueTryAdd]

inductive Pin where
  | wirelessAvailable
  | batteryChargerInterruptPin
  | max77958Intb
  | bq27742G1InterruptPin
  | drv8830Fault1
  | drv8830Fault2
  deriving DecidableEq

/-- The handler of a pin. `adds` tells whether it finds something to queue, from the event mask
or from its own pending flag, and `testStarted` whether its driver is under test. -/
def robotInterruptHandler (pin : Pin) (adds testStarted : Bool) : List Op :=
  if adds then
    match pin with
    | .bq27742G1InterruptPin => [.callQueueTryAddNonblocking]
    | .wirelessAvailable | .batteryChargerInterruptPin | .max77958Intb | .drv8830Fault1
    | .drv8830Fault2 => .callQueueTryAdd :: if testStarted then [.callQueueTryAdd] else []
  else []

structure State where
  holder : Option Agent
  -- entries in `call_queue`
  queued : Nat
  -- what each agent has yet to do
  script : Agent → List Op

def start : State where
  holder := none
  queued := 0
  script := fun _ => []

inductive Action where
  -- the main thread makes a call: `rp2040_log`, or `get_block` down to `send_log_packet`
  | mainCall (call : Call)
  | interrupt (pin : Pin) (adds testStarted : Bool)
  -- core1 takes an entry; its job makes these calls
  | callQueuePop (calls : List Call)
  | agent (a : Agent)
  deriving DecidableEq

namespace State

/-! ### Steps -/

def goto (s : State) (a : Agent) (script : List Op) : State :=
  { s with script := Function.update s.script a script }

/-- The state after an operation and what the agent goes on with in front of the rest; `none`
where it waits or has stopped. -/
def perform (s : State) (a : Agent) : Op → Option (State × List Op)
  | .acquireLock => if s.holder = none then some ({ s with holder := some a }, []) else none
  | .useLog => some (s, [])
  | .releaseLock => some ({ s with holder := none }, [])
  | .callQueueTryAdd =>
    if s.queued < callQueueSize then some ({ s with queued := s.queued + 1 }, [])
    else some (s, LogLock.rp2040Log ++ [.assertFalse])
  | .callQueueTryAddNonblocking =>
    if s.queued < callQueueSize then some ({ s with queued := s.queued + 1 }, []) else some (s, [])
  | .assertFalse => none

def step (s : State) : Action → Option State
  | .mainCall call =>
    if s.script .handler = [] ∧ s.script .main = [] then some (s.goto .main call.ops) else none
  | .interrupt pin adds testStarted =>
    if s.script .handler = [] then
      some (s.goto .handler (robotInterruptHandler pin adds testStarted))
    else none
  | .callQueuePop calls =>
    match s.queued, s.script .job with
    | n + 1, [] => some ({ s with queued := n }.goto .job (calls.flatMap Call.ops))
    | _, _ => none
  | .agent a =>
    if a = .main ∧ s.script .handler ≠ [] then none
    else
      match s.script a with
      | [] => none
      | op :: rest => (s.perform a op).map fun r => r.1.goto a (r.2 ++ rest)

/-! ### Waiting for the interrupted code -/

/-- A handler is waiting for the mutex that the code under it holds. -/
def WaitsForMain (s : State) : Prop :=
  (s.script .handler).head? = some .acquireLock ∧ s.holder = some .main

def NeverWaitsForMain (s : State) : Prop := ¬ s.WaitsForMain

instance (s : State) : Decidable s.WaitsForMain := inferInstanceAs (Decidable (_ ∧ _))

instance (s : State) : Decidable s.NeverWaitsForMain := inferInstanceAs (Decidable (¬ _))

/-- A handler that asks for an entry over code that holds the mutex finds room. -/
def RoomWhileHeld (s : State) : Action → Prop
  | .agent .handler =>
    (s.script .handler).head? = some .callQueueTryAdd → s.holder = some .main →
      s.queued < callQueueSize
  | _ => True

instance (s : State) (a : Action) : Decidable (s.RoomWhileHeld a) :=
  match a with
  | .agent .handler => inferInstanceAs (Decidable (_ → _ → _))
  | .agent .main | .agent .job | .mainCall _ | .interrupt .. | .callQueuePop _ => .isTrue trivial

/-- What keeps the handlers going: where one has a mutex to take, the main thread has not. -/
def Inv (s : State) : Prop := .acquireLock ∈ s.script .handler → s.holder ≠ some .main

variable {s t : State}

theorem acquireLock_not_mem_handler (pin : Pin) (adds testStarted : Bool) :
    .acquireLock ∉ robotInterruptHandler pin adds testStarted := by
  cases pin <;> cases adds <;> cases testStarted <;> decide

theorem Inv.neverWaitsForMain (hi : s.Inv) : s.NeverWaitsForMain := by
  rintro ⟨hhead, hholder⟩
  exact hi (List.mem_of_mem_head? hhead) hholder

theorem perform_holder {a : Agent} {op : Op} {r : State × List Op} (ha : a ≠ .main)
    (h : s.perform a op = some r) (hholder : s.holder ≠ some .main) :
    r.1.holder ≠ some .main := by
  cases op with
  | acquireLock =>
    simp only [perform] at h
    split at h
    · obtain rfl := Option.some.inj h
      exact fun heq => ha (Option.some.inj heq)
    · cases h
  | useLog =>
    obtain rfl := Option.some.inj h
    exact hholder
  | releaseLock =>
    obtain rfl := Option.some.inj h
    nofun
  | callQueueTryAdd | callQueueTryAddNonblocking =>
    simp only [perform] at h
    split at h <;> obtain rfl := Option.some.inj h <;> exact hholder
  | assertFalse => cases h

/-- Only a full queue puts something in front of the rest. -/
theorem perform_front {a : Agent} {op : Op} {r : State × List Op}
    (h : s.perform a op = some r) :
    r.2 = [] ∨ op = .callQueueTryAdd ∧ ¬ s.queued < callQueueSize ∧ r.1 = s := by
  cases op with
  | acquireLock =>
    simp only [perform] at h
    split at h
    · obtain rfl := Option.some.inj h
      exact .inl rfl
    · cases h
  | useLog | releaseLock =>
    obtain rfl := Option.some.inj h
    exact .inl rfl
  | callQueueTryAdd =>
    simp only [perform] at h
    split at h
    · obtain rfl := Option.some.inj h
      exact .inl rfl
    · rename_i hfull
      obtain rfl := Option.some.inj h
      exact .inr ⟨rfl, hfull, rfl⟩
  | callQueueTryAddNonblocking =>
    simp only [perform] at h
    split at h <;> obtain rfl := Option.some.inj h <;> exact .inl rfl
  | assertFalse => cases h

/-! ### Steps keep the invariant -/

theorem perform_script {a : Agent} {op : Op} {r : State × List Op}
    (h : s.perform a op = some r) : r.1.script = s.script := by
  cases op with
  | useLog | releaseLock =>
    obtain rfl := Option.some.inj h
    rfl
  | acquireLock =>
    simp only [perform] at h
    split at h
    · obtain rfl := Option.some.inj h
      rfl
    · cases h
  | callQueueTryAdd | callQueueTryAddNonblocking =>
    simp only [perform] at h
    split at h <;> obtain rfl := Option.some.inj h <;> rfl
  | assertFalse => cases h

theorem inv_handler {op : Op} {rest : List Op} {r : State × List Op} (hi : s.Inv)
    (hs : s.script .handler = op :: rest)
    (hroom : op = .callQueueTryAdd → s.holder = some .main → s.queued < callQueueSize)
    (h : s.perform .handler op = some r) : (r.1.goto .handler (r.2 ++ rest)).Inv := by
  intro hmem
  simp only [goto, Function.update_self] at hmem
  change r.1.holder ≠ some .main
  rcases perform_front h with hfront | ⟨hop, hfull, hsame⟩
  · rw [hfront, List.nil_append] at hmem
    have hmem' : .acquireLock ∈ s.script .handler := by
      rw [hs]
      exact List.mem_cons_of_mem _ hmem
    exact perform_holder (a := .handler) (by decide) h (hi hmem')
  · rw [hsame]
    exact fun hmain => hfull (hroom hop hmain)

theorem inv_agent {a : Agent} (hi : s.Inv) (hok : s.RoomWhileHeld (.agent a))
    (h : s.step (.agent a) = some t) : t.Inv := by
  simp only [step] at h
  split at h
  · cases h
  · rename_i hmain
    split at h
    · cases h
    · rename_i op rest hs
      obtain ⟨r, hr, rfl⟩ := Option.map_eq_some_iff.mp h
      cases a with
      | handler =>
        refine inv_handler hi hs ?_ hr
        intro hop
        rw [hop] at hs
        simpa [RoomWhileHeld, hs] using hok
      | main =>
        have hempty : s.script .handler = [] := not_not.mp fun hne => hmain ⟨rfl, hne⟩
        intro hmem
        have hkeep : (r.1.goto .main (r.2 ++ rest)).script .handler = s.script .handler := by
          simp [goto, perform_script hr]
        rw [hkeep, hempty] at hmem
        cases hmem
      | job =>
        intro hmem
        have hkeep : (r.1.goto .job (r.2 ++ rest)).script .handler = s.script .handler := by
          simp [goto, perform_script hr]
        rw [hkeep] at hmem
        exact perform_holder (a := .job) (by decide) hr (hi hmem)

theorem inv_step {a : Action} (hi : s.Inv) (hok : s.RoomWhileHeld a) (h : s.step a = some t) :
    t.Inv := by
  cases a with
  | mainCall call =>
    simp only [step] at h
    split at h
    · obtain rfl := Option.some.inj h
      simpa [Inv, goto] using hi
    · cases h
  | interrupt pin adds testStarted =>
    simp only [step] at h
    split at h
    · obtain rfl := Option.some.inj h
      intro hmem
      simp only [goto, Function.update_self] at hmem
      exact absurd hmem (acquireLock_not_mem_handler pin adds testStarted)
    · cases h
  | callQueuePop calls =>
    simp only [step] at h
    split at h
    · obtain rfl := Option.some.inj h
      simpa [Inv, goto] using hi
    · cases h
  | agent a => exact inv_agent hi hok h

theorem roomWhileHeld_of_never {a : Action} (h : s.step a = some t)
    (ht : t.NeverWaitsForMain) : s.RoomWhileHeld a := by
  cases a with
  | mainCall _ | interrupt _ _ _ | callQueuePop _ => trivial
  | agent a =>
    cases a with
    | main | job => trivial
    | handler =>
      intro hhead hholder
      by_contra hfull
      apply ht
      obtain ⟨rest, hs⟩ := List.head?_eq_some_iff.mp hhead
      simp only [step, hs, perform, if_neg hfull] at h
      obtain rfl := Option.some.inj h
      exact ⟨by simp [goto, rp2040Log], hholder⟩

end State

open State

/-- The handlers never wait for the code they interrupt exactly in the schedules in which
every one that asks for an entry over code that holds the mutex finds room. -/
theorem handlers_never_wait_iff (actions : List Action) :
    Throughout step NeverWaitsForMain start actions ↔ Along step RoomWhileHeld start actions := by
  constructor
  · exact along_of_throughout fun _ ht h => roomWhileHeld_of_never h ht
  · intro h
    have hstart : start.Inv := nofun
    exact (throughout_of_along inv_step hstart h).mono fun _ hi => hi.neverWaitsForMain

/-- core0 streams the log, core1's job waits to log, and 257 more edges come in. -/
def freeze : List Action :=
  [.mainCall .sendLogPacket, .agent .main, .interrupt .drv8830Fault1 true false, .agent .handler,
    .callQueuePop [.rp2040Log]] ++
    (List.replicate 257 [.interrupt .drv8830Fault1 true false, .agent .handler]).flatten

/-- The handler of the last edge waits for the code under it, and no agent can go on. -/
theorem handler_waits_for_main :
    ¬ Throughout step NeverWaitsForMain start freeze ∧
      ∃ s, run step start freeze = some s ∧ s.WaitsForMain ∧ ∀ a, s.step (.agent a) = none := by
  have hrun : (run step start freeze).map (fun s => (s.holder, s.script .handler,
      s.script .job)) = some (some .main, LogLock.rp2040Log ++ [.assertFalse],
        LogLock.rp2040Log) := by
    decide +kernel
  obtain ⟨s, hs, hfields⟩ := Option.map_eq_some_iff.mp hrun
  obtain ⟨hholder, hhandler, hjob⟩ : s.holder = some .main ∧
      s.script .handler = LogLock.rp2040Log ++ [.assertFalse] ∧
        s.script .job = LogLock.rp2040Log := by
    simpa only [Prod.mk.injEq] using hfields
  have hwaits : s.WaitsForMain := ⟨by rw [hhandler]; rfl, hholder⟩
  refine ⟨fun h => h.last hs hwaits, s, hs, hwaits, ?_⟩
  intro a
  cases a with
  | main => simp [step, hhandler, LogLock.rp2040Log]
  | handler => simp [step, hhandler, LogLock.rp2040Log, perform, hholder]
  | job => simp [step, hjob, LogLock.rp2040Log, perform, hholder]

end SrFirmware.LogLock
