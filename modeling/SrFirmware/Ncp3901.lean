import SrFirmware.Lib.Steps
import Mathlib.Logic.Function.Basic

/-!
# The wireless charger flag of `ncp3901.c`

The pin is low while a charger is present. Each delivery hands all latched edges to the
handler, which queues one job on core1; the jobs write the flag. The state starts where
`ncp3901_init` has enabled the interrupt, and `assert (false)` on a full queue ends a run.
-/

namespace SrFirmware.Ncp3901

open Lib
set_option autoImplicit false

def callQueueSize : Nat := 256

inductive Edge where
  | rise
  | fall
  deriving DecidableEq

/-- The entries of `call_queue`; `other` is one of another driver's. -/
inductive Job where
  | attached
  | detached
  | testResponse
  | other
  deriving DecidableEq

def Job.writes : Job → Option Bool
  | .attached => some true
  | .detached => some false
  | .testResponse | .other => none

inductive Op where
  | gpioAcknowledgeIrq (e : Edge)
  | callQueueTryAdd (job : Job)
  deriving DecidableEq

def Op.job : Op → Option Job
  | .gpioAcknowledgeIrq _ => none
  | .callQueueTryAdd job => some job

/-- `ncp3901_on_wireless_charger_interrupt` for an event mask: a rising edge hides a falling
one. -/
def onWirelessChargerInterrupt (testStarted rise fall : Bool) : List Op :=
  let testResponse := if testStarted then [Op.callQueueTryAdd .testResponse] else []
  if rise then
    .gpioAcknowledgeIrq .rise :: .callQueueTryAdd .detached :: testResponse
  else if fall then
    .gpioAcknowledgeIrq .fall :: .callQueueTryAdd .attached :: testResponse
  else []

structure State where
  high : Bool
  latched : Edge → Bool
  -- what the handler on core0 has yet to do
  handler : List Op
  callQueue : List Job
  running : Option Job
  wirelessChargerAttached : Bool
  testStarted : Bool
  testCompleted : Bool

def start (high testStarted : Bool) : State where
  high := high
  latched := fun _ => false
  handler := []
  callQueue := []
  running := none
  wirelessChargerAttached := false
  testStarted := testStarted
  testCompleted := false

inductive Action where
  | rise
  | fall
  -- the edges latched since the last delivery call the handler
  | deliver
  | handler
  -- another driver adds an entry
  | otherAdd
  | callQueuePop
  | runJob
  deriving DecidableEq

namespace State

/-! ### Steps -/

def callQueueTryAdd (s : State) (job : Job) : Option State :=
  if s.callQueue.length < callQueueSize then some { s with callQueue := s.callQueue ++ [job] }
  else none

def perform (s : State) : Job → State
  | .attached => { s with wirelessChargerAttached := true }
  | .detached => { s with wirelessChargerAttached := false }
  | .testResponse => { s with testCompleted := true }
  | .other => s

def step (s : State) : Action → Option State
  | .rise =>
    if s.high then none
    else some { s with high := true, latched := Function.update s.latched .rise true }
  | .fall =>
    if s.high then some { s with high := false, latched := Function.update s.latched .fall true }
    else none
  | .deliver =>
    if s.handler = [] ∧ (s.latched .rise || s.latched .fall) = true then
      some { s with
        latched := fun _ => false
        handler :=
          onWirelessChargerInterrupt s.testStarted (s.latched .rise) (s.latched .fall) }
    else none
  | .handler =>
    match s.handler with
    | [] => none
    | .gpioAcknowledgeIrq e :: rest =>
      some { s with latched := Function.update s.latched e false, handler := rest }
    | .callQueueTryAdd job :: rest => { s with handler := rest }.callQueueTryAdd job
  | .otherAdd => s.callQueueTryAdd .other
  | .callQueuePop =>
    match s.callQueue, s.running with
    | job :: rest, none => some { s with callQueue := rest, running := some job }
    | _, _ => none
  | .runJob => s.running.map fun job => { s with running := none }.perform job

/-! ### The flag -/

/-- What the jobs not yet run write to the flag, first to last. -/
def pending (s : State) : List Bool :=
  (s.running.toList ++ s.callQueue ++ s.handler.filterMap Op.job).filterMap Job.writes

/-- No latched edge, none being handled, no attach or detach job queued or running. -/
def Quiet (s : State) : Prop :=
  s.latched .rise = false ∧ s.latched .fall = false ∧ s.handler = [] ∧ s.pending = []

/-- `ncp3901_wireless_charger_attached ()` tells whether the pin is low. -/
def AgreesWhenQuiet (s : State) : Prop :=
  s.Quiet → (s.wirelessChargerAttached = true ↔ s.high = false)

instance (s : State) : Decidable s.Quiet := inferInstanceAs (Decidable (_ ∧ _ ∧ _ ∧ _))

instance (s : State) : Decidable s.AgreesWhenQuiet :=
  inferInstanceAs (Decidable (_ → (_ ↔ _)))

/-- A delivery of both edges finds the pin high, and no edge comes between a delivery of its
kind and the acknowledgement that would discard it. -/
def EdgesTellLevel (s : State) : Action → Prop
  | .rise => .gpioAcknowledgeIrq .rise ∉ s.handler
  | .fall => .gpioAcknowledgeIrq .fall ∉ s.handler
  | .deliver => s.latched .rise = true → s.latched .fall = true → s.high = true
  | _ => True

instance (s : State) (a : Action) : Decidable (s.EdgesTellLevel a) :=
  match a with
  | .rise | .fall => inferInstanceAs (Decidable (_ ∉ _))
  | .deliver => inferInstanceAs (Decidable (_ → _ → _))
  | .handler | .otherAdd | .callQueuePop | .runJob => .isTrue trivial

/-- The flag once all pending jobs have run. -/
def settled (s : State) : Bool := s.pending.getLastD s.wirelessChargerAttached

structure Inv (s : State) : Prop where
  rose : s.latched .rise = true → s.latched .fall = false → s.high = true
  fell : s.latched .fall = true → s.latched .rise = false → s.high = false
  settled : s.latched .rise = false → s.latched .fall = false → s.settled = !s.high
  acknowledged : ∀ e, .gpioAcknowledgeIrq e ∈ s.handler → s.latched e = false

variable {s t : State}

theorem inv_start (testStarted : Bool) : (start true testStarted).Inv :=
  ⟨nofun, nofun, fun _ _ => rfl, nofun⟩

/-! ### Jobs on their way -/

theorem pending_add {job : Job} {rest : List Op}
    (hs : s.handler = .callQueueTryAdd job :: rest)
    (h : { s with handler := rest }.callQueueTryAdd job = some t) :
    t.pending = s.pending ∧ t.high = s.high ∧ t.latched = s.latched ∧ t.handler = rest ∧
      t.wirelessChargerAttached = s.wirelessChargerAttached := by
  unfold callQueueTryAdd at h
  split at h
  · obtain rfl := Option.some.inj h
    simp [pending, hs, Op.job]
  · cases h

theorem pending_otherAdd (h : s.callQueueTryAdd .other = some t) :
    t.pending = s.pending ∧ t.high = s.high ∧ t.latched = s.latched ∧ t.handler = s.handler ∧
      t.wirelessChargerAttached = s.wirelessChargerAttached := by
  unfold callQueueTryAdd at h
  split at h
  · obtain rfl := Option.some.inj h
    refine ⟨?_, rfl, rfl, rfl, rfl⟩
    simp only [pending, List.append_assoc, List.filterMap_append]
    rfl
  · cases h

theorem pending_runJob {job : Job} (hs : s.running = some job) :
    s.pending = job.writes.toList ++ ({ s with running := none }.perform job).pending := by
  cases job <;> simp [pending, perform, hs, List.filterMap_cons, Job.writes]

theorem settled_runJob {job : Job} (hs : s.running = some job) :
    ({ s with running := none }.perform job).settled = s.settled := by
  rw [settled, settled, pending_runJob hs]
  cases job with
  | attached | detached =>
    simp only [Job.writes, Option.toList_some, List.singleton_append, List.getLastD_cons]
    rfl
  | testResponse | other => rfl

theorem settled_deliver (hempty : s.handler = []) (latched : Edge → Bool) {rise fall : Bool}
    (hedge : (rise || fall) = true) :
    { s with
      latched := latched
      handler := onWirelessChargerInterrupt s.testStarted rise fall }.settled = !rise := by
  have hpending : { s with
      latched := latched
      handler := onWirelessChargerInterrupt s.testStarted rise fall }.pending =
        s.pending ++ [!rise] := by
    unfold pending onWirelessChargerInterrupt
    rw [hempty]
    cases rise with
    | true => cases s.testStarted <;> simp [List.filterMap_cons, Op.job, Job.writes]
    | false =>
      rw [Bool.false_or] at hedge
      cases s.testStarted <;> simp [List.filterMap_cons, Op.job, Job.writes, hedge]
  rw [settled, hpending, List.getLastD_concat]

theorem handler_runJob (job : Job) : (s.perform job).handler = s.handler := by
  cases job <;> rfl

/-! ### Steps keep the invariant -/

theorem inv_rise (hi : s.Inv) (hok : .gpioAcknowledgeIrq .rise ∉ s.handler) :
    { s with high := true, latched := Function.update s.latched .rise true }.Inv := by
  refine ⟨fun _ _ => rfl, ?_, ?_, ?_⟩
  · intro _ h
    simp at h
  · intro h
    simp at h
  · intro e he
    cases e with
    | rise => exact absurd he hok
    | fall => simpa using hi.acknowledged .fall he

theorem inv_fall (hi : s.Inv) (hok : .gpioAcknowledgeIrq .fall ∉ s.handler) :
    { s with high := false, latched := Function.update s.latched .fall true }.Inv := by
  refine ⟨?_, fun _ _ => rfl, ?_, ?_⟩
  · intro _ h
    simp at h
  · intro _ h
    simp at h
  · intro e he
    cases e with
    | rise => simpa using hi.acknowledged .rise he
    | fall => exact absurd he hok

theorem inv_deliver (hi : s.Inv)
    (hok : s.latched .rise = true → s.latched .fall = true → s.high = true)
    (hempty : s.handler = []) (hedge : (s.latched .rise || s.latched .fall) = true) :
    { s with
      latched := fun _ => false
      handler :=
        onWirelessChargerInterrupt s.testStarted (s.latched .rise) (s.latched .fall) }.Inv := by
  refine ⟨nofun, nofun, ?_, fun _ _ => rfl⟩
  intro _ _
  rw [settled_deliver hempty _ hedge]
  congr 1
  change s.latched .rise = s.high
  cases hr : s.latched .rise with
  | true =>
    cases hf : s.latched .fall with
    | true => exact (hok hr hf).symm
    | false => exact (hi.rose hr hf).symm
  | false =>
    have hf : s.latched .fall = true := by simpa [hr] using hedge
    exact (hi.fell hf hr).symm

theorem Inv.congr (hi : s.Inv) (hhigh : t.high = s.high) (hlatched : t.latched = s.latched)
    (hsettled : t.settled = s.settled) (hhandler : ∀ op ∈ t.handler, op ∈ s.handler) : t.Inv := by
  obtain ⟨h1, h2, h3, h4⟩ := hi
  refine ⟨?_, ?_, ?_, ?_⟩
  · rwa [hlatched, hhigh]
  · rwa [hlatched, hhigh]
  · rwa [hlatched, hhigh, hsettled]
  · intro e he
    rw [hlatched]
    exact h4 e (hhandler _ he)

theorem inv_step {a : Action} (hi : s.Inv) (hok : s.EdgesTellLevel a) (h : s.step a = some t) :
    t.Inv := by
  cases a with
  | rise =>
    simp only [step] at h
    split at h
    · cases h
    · obtain rfl := Option.some.inj h
      exact inv_rise hi hok
  | fall =>
    simp only [step] at h
    split at h
    · obtain rfl := Option.some.inj h
      exact inv_fall hi hok
    · cases h
  | deliver =>
    simp only [step] at h
    split at h
    · rename_i hedge
      obtain rfl := Option.some.inj h
      exact inv_deliver hi hok hedge.1 hedge.2
    · cases h
  | handler =>
    simp only [step] at h
    split at h
    · cases h
    · rename_i e rest hs
      obtain rfl := Option.some.inj h
      -- the edge is not latched any more, so the second acknowledgement discards nothing
      have hlatch : Function.update s.latched e false = s.latched := by
        have he : s.latched e = false := hi.acknowledged e (by rw [hs]; exact List.mem_cons_self)
        rw [← he]
        exact Function.update_eq_self e s.latched
      refine hi.congr rfl hlatch ?_ fun op hop => by rw [hs]; exact List.mem_cons_of_mem _ hop
      simp only [settled, pending, hs]
      rfl
    · rename_i job rest hs
      obtain ⟨hpending, hhigh, hlatched, hhandler, hflag⟩ := pending_add hs h
      apply hi.congr hhigh hlatched (by rw [settled, hpending, hflag]; rfl)
      intro op hop
      rw [hs]
      exact List.mem_cons_of_mem _ (hhandler ▸ hop)
  | otherAdd =>
    obtain ⟨hpending, hhigh, hlatched, hhandler, hflag⟩ := pending_otherAdd h
    apply hi.congr hhigh hlatched (by rw [settled, hpending, hflag]; rfl)
    intro op hop
    exact hhandler ▸ hop
  | callQueuePop =>
    simp only [step] at h
    split at h
    · rename_i job rest hq hr
      obtain rfl := Option.some.inj h
      refine hi.congr rfl rfl ?_ fun op hop => hop
      simp [settled, pending, hq, hr]
    · cases h
  | runJob =>
    obtain ⟨job, hr, rfl⟩ := Option.map_eq_some_iff.mp h
    refine hi.congr ?_ ?_ (settled_runJob hr) ?_
    · cases job <;> rfl
    · cases job <;> rfl
    · intro op hop
      rwa [handler_runJob] at hop

theorem Inv.agrees (hi : s.Inv) : s.AgreesWhenQuiet := by
  rintro ⟨hr, hf, -, hpending⟩
  have hsettled := hi.settled hr hf
  rw [State.settled, hpending, List.getLastD_nil] at hsettled
  rw [hsettled]
  cases s.high <;> simp

end State

open State

/-- With the pin high when the interrupt is enabled, and edges that tell the level, the flag
agrees with the pin in every quiet state. -/
theorem attached_flag_agrees_when_quiet {high testStarted : Bool} (hhigh : high = true)
    {actions : List Action} (h : Along step EdgesTellLevel (start high testStarted) actions) :
    Throughout step AgreesWhenQuiet (start high testStarted) actions := by
  subst hhigh
  exact (throughout_of_along inv_step (inv_start testStarted) h).mono fun _ hi => hi.agrees

/-- A charger put on and taken off, with both edges in one delivery, the pin high again. -/
theorem attached_flag_agrees_after_plug_and_unplug :
    Throughout step AgreesWhenQuiet (start true false)
      [.fall, .rise, .deliver, .handler, .handler, .callQueuePop, .runJob] :=
  attached_flag_agrees_when_quiet rfl (by decide)

/-- A charger present at `ncp3901_init` is not reported; one taken off and put on again
within one delivery is reported gone. -/
theorem attached_flag_disagrees_when_quiet :
    ¬ Throughout step AgreesWhenQuiet (start false false) [] ∧
      ¬ Throughout step AgreesWhenQuiet (start true false)
        [.fall, .deliver, .handler, .handler, .callQueuePop, .runJob, .rise, .fall, .deliver,
          .handler, .handler, .callQueuePop, .runJob] := by
  decide

end SrFirmware.Ncp3901
