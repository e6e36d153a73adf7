import SrFirmware.Opcodes
import Mathlib.Data.Fintype.Basic

/-!
# The alert line of the battery gauge

`bq27742_g1.c` arms the falling edge of RC2, disarms it when it queues a parse job, and arms
it again when it finds the line high. Each function is the list of its operations; a step is
one operation of `bq27742_g1_init`, of the interrupt handler or of the parse job, or one
change of the line. The latches belong to the pin and each core has its own enable mask.
What the job does with the bytes it has read is left out.
-/

namespace SrFirmware.Bq27742

open Lib
open Max77958 (Core)
set_option autoImplicit false

inductive Edge where
  | fall
  | rise
  deriving DecidableEq

/-- An operation, or the call of a function that looks at the state. -/
inductive Op where
  | gpioAcknowledgeIrq (e : Edge)
  | gpioSetIrqEnabled (e : Edge) (enabled : Bool)
  | setInterruptPending (pending : Bool)
  | queueParseInterrupt
  | callQueueTryAddNonblocking
  | readFlags
  | readSafetyStatus
  -- `if (gpio_get (..)) bq27742_g1_rearm_assert_irq ()`
  | rearmIfHigh
  -- `if (!gpio_get (..)) bq27742_g1_queue_parse_interrupt ()`
  | queueIfLow
  deriving DecidableEq

/-- `bq27742_g1_init` runs on core0, where the handler interrupts it; the job runs on core1. -/
inductive Thread where
  | init
  | handler
  | job
  deriving DecidableEq

instance : Fintype Thread where
  elems := {.init, .handler, .job}
  complete th := by cases th <;> decide

def Thread.core : Thread → Core
  | .init | .handler => .core0
  | .job => .core1

/-! ### The functions -/

def initOps : List Op := [.gpioSetIrqEnabled .fall true, .queueIfLow]

def onInterrupt (fall rise : Bool) : List Op :=
  (if fall then [.gpioAcknowledgeIrq .fall, .queueParseInterrupt] else []) ++
    (if rise then [.gpioAcknowledgeIrq .rise, .rearmIfHigh] else [])

/-- `bq27742_g1_queue_parse_interrupt` once it has found the flag clear. -/
def queueOps : List Op :=
  [.setInterruptPending true, .gpioSetIrqEnabled .fall false, .gpioSetIrqEnabled .rise true,
   .callQueueTryAddNonblocking]

def parseInterruptVals : List Op := [.readFlags, .readSafetyStatus, .rearmIfHigh]

def rearmAssertIrq : List Op :=
  [.setInterruptPending false, .gpioSetIrqEnabled .rise false, .gpioSetIrqEnabled .fall true]

structure State where
  -- RC2 is active low
  high : Bool
  latched : Edge → Bool
  enabled : Core → Edge → Bool
  interruptPending : Bool
  queued : Nat
  -- what each thread has yet to do
  script : Thread → List Op
  -- only for the statements: a job has started reading since the line last fell
  read : Bool

/-- Where `bq27742_g1_init` enables the interrupt; a line already low is an alert not read. -/
def start (high : Bool) : State where
  high := high
  latched := fun _ => false
  enabled := fun _ _ => false
  interruptPending := false
  queued := 0
  script := fun
    | .init => initOps
    | .handler | .job => []
  read := high

inductive Action where
  | fall
  | rise
  -- what is latched and enabled on core0 calls `bq27742_g1_on_interrupt`
  | deliver
  | callQueuePop
  -- `room`: `call_queue` has room, should the operation ask
  | thread (th : Thread) (room : Bool)

namespace State

/-! ### Steps -/

def heard (s : State) (e : Edge) : Bool := s.latched e && s.enabled .core0 e

def expand (s : State) (room : Bool) : Op → List Op
  | .queueParseInterrupt => if s.interruptPending then [] else queueOps
  | .callQueueTryAddNonblocking => if room then [] else [.rearmIfHigh]
  | .rearmIfHigh => if s.high then rearmAssertIrq else []
  | .queueIfLow => if s.high then [] else [.queueParseInterrupt]
  | _ => []

def perform (s : State) (c : Core) (room : Bool) : Op → State
  | .gpioAcknowledgeIrq e => { s with latched := Function.update s.latched e false }
  | .gpioSetIrqEnabled e b =>
    { s with
      latched := Function.update s.latched e false
      enabled := Function.update s.enabled c (Function.update (s.enabled c) e b) }
  | .setInterruptPending b => { s with interruptPending := b }
  | .callQueueTryAddNonblocking => if room then { s with queued := s.queued + 1 } else s
  | .readFlags => { s with read := true }
  | .queueParseInterrupt | .readSafetyStatus | .rearmIfHigh | .queueIfLow => s

def goto (s : State) (th : Thread) (script : List Op) : State :=
  { s with script := Function.update s.script th script }

def advance (s : State) (th : Thread) (room : Bool) (op : Op) (rest : List Op) : State :=
  (s.perform th.core room op).goto th (s.expand room op ++ rest)

def step (s : State) : Action → Option State
  | .fall =>
    if s.high then
      some { s with high := false, latched := Function.update s.latched .fall true, read := false }
    else none
  | .rise =>
    if s.high then none
    else some { s with high := true, latched := Function.update s.latched .rise true }
  | .deliver =>
    if s.script .handler = [] ∧ (s.heard .fall || s.heard .rise) = true then
      some (s.goto .handler (onInterrupt (s.heard .fall) (s.heard .rise)))
    else none
  | .callQueuePop =>
    match s.queued, s.script .job with
    | n + 1, [] => some ({ s with queued := n }.goto .job parseInterruptVals)
    | _, _ => none
  | .thread th room =>
    match s.script th with
    | [] => none
    | op :: rest =>
      if th = .init ∧ s.script .handler ≠ [] then none else some (s.advance th room op rest)

/-! ### Alerts -/

/-- After `bq27742_g1_init`, with no enabled edge latched, and no handler or job queued or
running. -/
def Quiet (s : State) : Prop :=
  s.heard .fall = false ∧ s.heard .rise = false ∧ s.queued = 0 ∧ ∀ th, s.script th = []

def NoAlertLost (s : State) : Prop := s.Quiet → s.read = true

instance (s : State) : Decidable s.Quiet := inferInstanceAs (Decidable (_ ∧ _ ∧ _ ∧ _))

instance (s : State) : Decidable s.NoAlertLost := inferInstanceAs (Decidable (_ → _))

def AddSucceeds (s : State) : Action → Prop
  | .thread th room => (s.script th).head? = some .callQueueTryAddNonblocking → room = true
  | _ => True

def Due (s : State) : Prop :=
  0 < s.queued ∨ .readFlags ∈ s.script .job ∨
    ∃ th, .callQueueTryAddNonblocking ∈ s.script th ∨
      s.interruptPending = false ∧
        (.queueParseInterrupt ∈ s.script th ∨ .queueIfLow ∈ s.script th ∧ s.high = false)

instance (s : State) : Decidable s.Due :=
  inferInstanceAs (Decidable (_ ∨ _ ∨ ∃ _, _ ∨ _ ∧ (_ ∨ _ ∧ _)))

/-- The line falls only while core0 has the falling edge enabled or a job is due; no edge is
discarded by enabling the falling edge, unless it has been read or a job is due; and an alert
that `bq27742_g1_init` has yet to look at stays. -/
def AlertKept (s : State) : Action → Prop
  | .fall => s.enabled .core0 .fall = true ∨ { s with high := false }.Due
  | .rise =>
    .queueIfLow ∈ s.script .init →
      s.read = true ∨ s.heard .fall = true ∨ { s with high := true }.Due
  | .thread th _ =>
    (s.script th).head? = some (.gpioSetIrqEnabled .fall true) →
      s.latched .fall = false ∨ s.read = true ∨ s.Due
  | _ => True

instance (s : State) (a : Action) : Decidable (s.AddSucceeds a) :=
  match a with
  | .thread _ _ => inferInstanceAs (Decidable (_ → _))
  | .fall | .rise | .deliver | .callQueuePop => .isTrue trivial

instance (s : State) (a : Action) : Decidable (s.AlertKept a) :=
  match a with
  | .fall => inferInstanceAs (Decidable (_ ∨ _))
  | .rise | .thread _ _ => inferInstanceAs (Decidable (_ → _ ∨ _ ∨ _))
  | .deliver | .callQueuePop => .isTrue trivial

end State

/-! ### Scripts -/

def Op.Before (rest : List Op) : Op → Prop
  | .gpioAcknowledgeIrq .fall => .queueParseInterrupt ∈ rest
  | .queueParseInterrupt | .queueIfLow => .gpioSetIrqEnabled .fall true ∉ rest
  | .setInterruptPending true =>
    .gpioSetIrqEnabled .fall false ∈ rest ∧ .callQueueTryAddNonblocking ∈ rest ∧
      .gpioSetIrqEnabled .fall true ∉ rest
  | .gpioSetIrqEnabled .fall false => .callQueueTryAddNonblocking ∈ rest
  | .rearmIfHigh | .gpioSetIrqEnabled .fall true => .setInterruptPending false ∉ rest
  | _ => True

/-- A falling edge is acknowledged first or not at all, and every operation finds what it
relies on. -/
def Ordered : List Op → Prop
  | [] => True
  | op :: rest => .gpioAcknowledgeIrq .fall ∉ rest ∧ op.Before rest ∧ Ordered rest

/-- What each thread ever does, as long as `call_queue` has room. -/
def Thread.Runs : Thread → Op → Prop
  | .init, op => op ∈ initOps ∨ op = .queueParseInterrupt ∨ op ∈ queueOps
  | .handler, op => op ≠ .queueIfLow ∧ op ≠ .readFlags
  | .job, op => op ∈ parseInterruptVals ∨ op ∈ rearmAssertIrq

theorem ordered_initOps : Ordered initOps := by simp [Ordered, Op.Before, initOps]

theorem ordered_onInterrupt (fall rise : Bool) : Ordered (onInterrupt fall rise) := by
  cases fall <;> cases rise <;> simp [Ordered, Op.Before, onInterrupt]

theorem ordered_parseInterruptVals : Ordered parseInterruptVals := by
  simp [Ordered, Op.Before, parseInterruptVals]

theorem mem_of_ordered {script : List Op} (h : Ordered script)
    (hmem : .gpioSetIrqEnabled .fall false ∈ script) : .callQueueTryAddNonblocking ∈ script := by
  induction script with
  | nil => cases hmem
  | cons op rest ih =>
    obtain ⟨-, hbefore, hrest⟩ := h
    rcases List.mem_cons.mp hmem with rfl | hmem
    · exact List.mem_cons_of_mem _ hbefore
    · exact List.mem_cons_of_mem _ (ih hrest hmem)

namespace State
variable {s : State} {th : Thread} {op : Op} {rest : List Op}

theorem ordered_expand (h : Ordered (op :: rest)) : Ordered (s.expand true op ++ rest) := by
  obtain ⟨hack, hbefore, hrest⟩ := h
  cases op with
  | queueParseInterrupt =>
    simp only [expand]
    split
    · exact hrest
    · simp_all [queueOps, Ordered, Op.Before]
  | rearmIfHigh =>
    simp only [expand]
    split
    · simp_all [rearmAssertIrq, Ordered, Op.Before]
    · exact hrest
  | queueIfLow =>
    simp only [expand]
    split
    · exact hrest
    · simp_all [Ordered, Op.Before]
  | gpioAcknowledgeIrq _ | gpioSetIrqEnabled _ _ | setInterruptPending _
  | callQueueTryAddNonblocking | readFlags | readSafetyStatus => exact hrest

theorem not_runs_job :
    ¬ Thread.job.Runs .queueParseInterrupt ∧ ¬ Thread.job.Runs .queueIfLow := by
  simp [Thread.Runs, parseInterruptVals, rearmAssertIrq]

theorem ne_of_runs_job (h : Thread.job.Runs op) : op ≠ .setInterruptPending true ∧
    op ≠ .gpioSetIrqEnabled .fall false ∧ op ≠ .gpioAcknowledgeIrq .fall := by
  refine ⟨?_, ?_, ?_⟩ <;> rintro rfl <;>
    simp [Thread.Runs, parseInterruptVals, rearmAssertIrq] at h

theorem ne_of_runs_init (h : Thread.init.Runs op) :
    op ≠ .rearmIfHigh ∧ op ≠ .gpioAcknowledgeIrq .fall := by
  refine ⟨?_, ?_⟩ <;> rintro rfl <;> simp [Thread.Runs, initOps, queueOps] at h

theorem runs_expand (h : th.Runs op) {x : Op} (hx : x ∈ s.expand true op) : th.Runs x := by
  cases op with
  | queueParseInterrupt =>
    have hmem : x ∈ queueOps := by
      simp only [expand] at hx
      split at hx
      · cases hx
      · exact hx
    cases th with
    | init => exact .inr (.inr hmem)
    | handler => constructor <;> rintro rfl <;> simp [queueOps] at hmem
    | job => exact absurd h not_runs_job.1
  | rearmIfHigh =>
    have hmem : x ∈ rearmAssertIrq := by
      simp only [expand] at hx
      split at hx
      · exact hx
      · cases hx
    cases th with
    | init => exact absurd rfl (ne_of_runs_init h).1
    | handler => constructor <;> rintro rfl <;> simp [rearmAssertIrq] at hmem
    | job => exact .inr hmem
  | queueIfLow =>
    have heq : x = .queueParseInterrupt := by
      simp only [expand] at hx
      split at hx
      · cases hx
      · exact List.mem_singleton.mp hx
    cases th with
    | init => exact .inr (.inl heq)
    | handler => exact absurd rfl h.1
    | job => exact absurd h not_runs_job.2
  | gpioAcknowledgeIrq _ | gpioSetIrqEnabled _ _ | setInterruptPending _
  | callQueueTryAddNonblocking | readFlags | readSafetyStatus => cases hx

/-! ### One operation -/

theorem perform_script (c : Core) (room : Bool) : (s.perform c room op).script = s.script := by
  cases op <;> first | rfl | (simp only [perform]; split <;> rfl)

theorem perform_high (c : Core) (room : Bool) : (s.perform c room op).high = s.high := by
  cases op <;> first | rfl | (simp only [perform]; split <;> rfl)

theorem perform_interruptPending (c : Core) (room : Bool) (h : op ≠ .setInterruptPending true)
    (hs : s.interruptPending = false) : (s.perform c room op).interruptPending = false := by
  cases op with
  | setInterruptPending b => cases b <;> simp_all [perform]
  | callQueueTryAddNonblocking => simp only [perform]; split <;> exact hs
  | gpioAcknowledgeIrq _ | gpioSetIrqEnabled _ _ | readFlags | queueParseInterrupt
  | readSafetyStatus | rearmIfHigh | queueIfLow => exact hs

theorem perform_read (c : Core) (room : Bool) (hs : s.read = true) :
    (s.perform c room op).read = true := by
  cases op <;> first | rfl | exact hs | (simp only [perform]; split <;> exact hs)

theorem le_perform_queued (c : Core) (room : Bool) : s.queued ≤ (s.perform c room op).queued := by
  cases op with
  | callQueueTryAddNonblocking =>
    simp only [perform]
    split
    · exact Nat.le_succ _
    · exact Nat.le_refl _
  | gpioAcknowledgeIrq _ | gpioSetIrqEnabled _ _ | setInterruptPending _ | readFlags
  | queueParseInterrupt | readSafetyStatus | rearmIfHigh | queueIfLow => exact Nat.le_refl _

theorem script_advance (th' : Thread) : (s.advance th true op rest).script th' =
    if th' = th then s.expand true op ++ rest else s.script th' := by
  by_cases h : th' = th
  · subst h
    simp [advance, goto]
  · simp [advance, goto, h, perform_script]

theorem mem_advance (hscript : s.script th = op :: rest) {th' : Thread} {x : Op} (hne : x ≠ op)
    (hx : x ∈ s.script th') : x ∈ (s.advance th true op rest).script th' := by
  rw [script_advance]
  split
  · rename_i h
    subst h
    rw [hscript] at hx
    exact List.mem_append_right _ ((List.mem_cons.mp hx).resolve_left hne)
  · exact hx

theorem mem_advance_self {x : Op} (hx : x ∈ s.expand true op ∨ x ∈ rest) :
    x ∈ (s.advance th true op rest).script th := by
  rw [script_advance, if_pos rfl]
  exact List.mem_append.mpr hx

theorem mem_of_mem_advance (hscript : s.script th = op :: rest) {th' : Thread} {x : Op}
    (hx : x ∈ (s.advance th true op rest).script th') :
    x ∈ s.script th' ∨ th' = th ∧ x ∈ s.expand true op := by
  rw [script_advance] at hx
  split at hx
  · rename_i h
    subst h
    rw [hscript]
    exact (List.mem_append.mp hx).symm.imp (List.mem_cons_of_mem _) fun h => ⟨rfl, h⟩
  · exact .inl hx

theorem advance_eq_of_room {room : Bool} (h : op = .callQueueTryAddNonblocking → room = true) :
    s.advance th room op rest = s.advance th true op rest := by
  cases op with
  | callQueueTryAddNonblocking => rw [h rfl]
  | gpioAcknowledgeIrq _ | gpioSetIrqEnabled _ _ | setInterruptPending _ | readFlags
  | queueParseInterrupt | readSafetyStatus | rearmIfHigh | queueIfLow => rfl

/-! ### The invariant -/

structure Guarded (s : State) : Prop where
  alert : s.read = true ∨ s.heard .fall = true ∨ s.Due
  -- the flag is set under an enabled edge only on the way to disabling it
  armed : s.enabled .core0 .fall = true → s.interruptPending = false ∨
    .gpioSetIrqEnabled .fall false ∈ s.script .init ∨
      .gpioSetIrqEnabled .fall false ∈ s.script .handler
  -- a fall about to be acknowledged is about to be noted
  noting : .gpioAcknowledgeIrq .fall ∈ s.script .handler →
    s.interruptPending = false ∨ .callQueueTryAddNonblocking ∈ s.script .init
  rearming : .gpioSetIrqEnabled .fall true ∈ s.script .handler →
    .setInterruptPending false ∈ s.script .handler ∨ s.interruptPending = false
  starting : .gpioSetIrqEnabled .fall true ∈ s.script .init → s.script .init = initOps ∧
    s.script .handler = [] ∧ s.interruptPending = false ∧ ∀ e, s.enabled .core0 e = false
  ordered : ∀ th, Ordered (s.script th)
  runs : ∀ th op, op ∈ s.script th → th.Runs op

theorem guarded_start (high : Bool) : (start high).Guarded where
  alert := by
    cases high with
    | true => exact .inl rfl
    | false =>
      have hlook : .queueIfLow ∈ (start false).script .init := by simp [start, initOps]
      exact .inr (.inr (.inr (.inr ⟨.init, .inr ⟨rfl, .inr ⟨hlook, rfl⟩⟩⟩)))
  armed := nofun
  noting := nofun
  rearming := nofun
  starting := fun _ => ⟨rfl, rfl, rfl, fun _ => rfl⟩
  ordered := by
    rintro (_ | _ | _)
    · exact ordered_initOps
    · trivial
    · trivial
  runs := by
    rintro (_ | _ | _) op hop
    · exact .inl hop
    · cases hop
    · cases hop

theorem Due.advance (h : s.Due) (hscript : s.script th = op :: rest)
    (hordered : Ordered (op :: rest)) :
    (s.advance th true op rest).read = true ∨ (s.advance th true op rest).Due := by
  have hadd (hmem : .callQueueTryAddNonblocking ∈ rest) : (s.advance th true op rest).Due :=
    .inr (.inr ⟨th, .inl (mem_advance_self (.inr hmem))⟩)
  have hflag (hp : s.interruptPending = false) (hne : op ≠ .setInterruptPending true) :
      (s.advance th true op rest).interruptPending = false :=
    perform_interruptPending th.core true hne hp
  have hhigh : (s.advance th true op rest).high = s.high := perform_high th.core true
  rcases h with hq | hread | ⟨th', hadd' | ⟨hp, hnote | ⟨hlook, hlow⟩⟩⟩
  · exact .inr (.inl (Nat.lt_of_lt_of_le hq (le_perform_queued th.core true)))
  · by_cases hop : op = .readFlags
    · subst hop
      exact .inl rfl
    · exact .inr (.inr (.inl (mem_advance hscript (Ne.symm hop) hread)))
  · by_cases hop : op = .callQueueTryAddNonblocking
    · subst hop
      exact .inr (.inl (Nat.succ_pos _))
    · exact .inr (.inr (.inr ⟨th', .inl (mem_advance hscript (Ne.symm hop) hadd')⟩))
  · by_cases hset : op = .setInterruptPending true
    · subst hset
      exact .inr (hadd hordered.2.1.2.1)
    by_cases hop : op = .queueParseInterrupt
    · subst hop
      refine .inr (.inr (.inr ⟨th, .inl (mem_advance_self (.inl ?_))⟩))
      simp [expand, hp, queueOps]
    · exact .inr (.inr (.inr ⟨th', .inr ⟨hflag hp hset,
        .inl (mem_advance hscript (Ne.symm hop) hnote)⟩⟩))
  · by_cases hset : op = .setInterruptPending true
    · subst hset
      exact .inr (hadd hordered.2.1.2.1)
    by_cases hop : op = .queueIfLow
    · subst hop
      refine .inr (.inr (.inr ⟨th, .inr ⟨hflag hp hset, .inl (mem_advance_self (.inl ?_))⟩⟩))
      simp [expand, hlow]
    · exact .inr (.inr (.inr ⟨th', .inr ⟨hflag hp hset,
        .inr ⟨mem_advance hscript (Ne.symm hop) hlook, hhigh.trans hlow⟩⟩⟩))

theorem heard_advance (hack : op ≠ .gpioAcknowledgeIrq .fall)
    (hset : ∀ b, op ≠ .gpioSetIrqEnabled .fall b) :
    (s.advance th true op rest).heard .fall = s.heard .fall := by
  cases op with
  | gpioAcknowledgeIrq e =>
    cases e with
    | fall => exact absurd rfl hack
    | rise => simp [advance, goto, perform, heard]
  | gpioSetIrqEnabled e b =>
    cases e with
    | fall => exact absurd rfl (hset b)
    | rise => cases th <;> simp [advance, goto, perform, heard, Thread.core]
  | setInterruptPending _ | callQueueTryAddNonblocking | readFlags | queueParseInterrupt
  | readSafetyStatus | rearmIfHigh | queueIfLow => rfl

theorem enabled_advance_of_ne {c : Core} (h : c ≠ th.core) :
    (s.advance th true op rest).enabled c = s.enabled c := by
  cases op with
  | gpioSetIrqEnabled e b => simp [advance, goto, perform, h]
  | gpioAcknowledgeIrq _ | setInterruptPending _ | callQueueTryAddNonblocking | readFlags
  | queueParseInterrupt | readSafetyStatus | rearmIfHigh | queueIfLow => rfl

theorem enabled_advance (h : th.core = .core0 → ∀ b, op ≠ .gpioSetIrqEnabled .fall b) :
    (s.advance th true op rest).enabled .core0 .fall = s.enabled .core0 .fall := by
  cases op with
  | gpioSetIrqEnabled e b =>
    cases e with
    | fall =>
      cases th with
      | init | handler => exact absurd rfl (h rfl b)
      | job => simp [advance, goto, perform, Thread.core]
    | rise => cases th <;> simp [advance, goto, perform, Thread.core]
  | gpioAcknowledgeIrq _ | setInterruptPending _ | callQueueTryAddNonblocking | readFlags
  | queueParseInterrupt | readSafetyStatus | rearmIfHigh | queueIfLow => rfl

theorem script_advance_of_ne {th' : Thread} (h : th' ≠ th) :
    (s.advance th true op rest).script th' = s.script th' := by
  rw [script_advance, if_neg h]

theorem acknowledge_not_mem_expand : .gpioAcknowledgeIrq .fall ∉ s.expand true op := by
  cases op with
  | queueParseInterrupt | rearmIfHigh | queueIfLow =>
    simp only [expand]
    split <;> simp [queueOps, rearmAssertIrq]
  | gpioAcknowledgeIrq _ | gpioSetIrqEnabled _ _ | setInterruptPending _
  | callQueueTryAddNonblocking | readFlags | readSafetyStatus => exact List.not_mem_nil

theorem expand_of_mem (h : .gpioSetIrqEnabled .fall true ∈ s.expand true op) :
    op = .rearmIfHigh ∧ .setInterruptPending false ∈ s.expand true op := by
  cases op with
  | rearmIfHigh =>
    simp only [expand] at h ⊢
    split at h
    · simp [rearmAssertIrq, *]
    · cases h
  | queueParseInterrupt | queueIfLow =>
    simp only [expand] at h
    split at h <;> simp [queueOps] at h
  | gpioAcknowledgeIrq _ | gpioSetIrqEnabled _ _ | setInterruptPending _
  | callQueueTryAddNonblocking | readFlags | readSafetyStatus => cases h

namespace Guarded

theorem alert_advance (h : s.Guarded) (hscript : s.script th = op :: rest)
    (hkept : s.AlertKept (.thread th true)) :
    (s.advance th true op rest).read = true ∨ (s.advance th true op rest).heard .fall = true ∨
      (s.advance th true op rest).Due := by
  have hordered : Ordered (op :: rest) := hscript ▸ h.ordered th
  have hruns : th.Runs op := h.runs th op (hscript ▸ List.mem_cons_self)
  have hdue (hd : s.Due) : (s.advance th true op rest).read = true ∨
      (s.advance th true op rest).heard .fall = true ∨ (s.advance th true op rest).Due :=
    (hd.advance hscript hordered).imp id .inr
  rcases h.alert with hread | hheard | hd
  · exact .inl (perform_read th.core true hread)
  · by_cases hack : op = .gpioAcknowledgeIrq .fall
    · subst hack
      refine .inr (.inr (.inr (.inr ?_)))
      cases th with
      | init => exact absurd rfl (ne_of_runs_init hruns).2
      | handler =>
        rcases h.noting (hscript ▸ List.mem_cons_self) with hp | hadd
        · exact ⟨.handler, .inr ⟨hp, .inl (mem_advance_self (.inr hordered.2.1))⟩⟩
        · exact ⟨.init, .inl (mem_advance hscript nofun hadd)⟩
      | job => exact absurd rfl (ne_of_runs_job hruns).2.2
    by_cases hset : ∃ b, op = .gpioSetIrqEnabled .fall b
    · obtain ⟨b, rfl⟩ := hset
      cases b with
      | false => exact .inr (.inr (.inr (.inr ⟨th, .inl (mem_advance_self (.inr hordered.2.1))⟩)))
      | true =>
        rcases hkept (by rw [hscript]; rfl) with hclear | hread | hd
        · simp [heard, hclear] at hheard
        · exact .inl (perform_read th.core true hread)
        · exact hdue hd
    · exact .inr (.inl ((heard_advance hack (not_exists.mp hset)).trans hheard))
  · exact hdue hd

theorem armed_advance (h : s.Guarded) (hscript : s.script th = op :: rest)
    (hen : (s.advance th true op rest).enabled .core0 .fall = true) :
    (s.advance th true op rest).interruptPending = false ∨
      .gpioSetIrqEnabled .fall false ∈ (s.advance th true op rest).script .init ∨
        .gpioSetIrqEnabled .fall false ∈ (s.advance th true op rest).script .handler := by
  have hordered : Ordered (op :: rest) := hscript ▸ h.ordered th
  have hruns : th.Runs op := h.runs th op (hscript ▸ List.mem_cons_self)
  by_cases hset : th.core = .core0 ∧ ∃ b, op = .gpioSetIrqEnabled .fall b
  · obtain ⟨hcore, b, rfl⟩ := hset
    refine .inl ?_
    change s.interruptPending = false
    cases b with
    | false => simp [advance, goto, perform, hcore] at hen
    | true =>
      cases th with
      | init => exact (h.starting (hscript ▸ List.mem_cons_self)).2.2.1
      | handler =>
        refine (h.rearming (hscript ▸ List.mem_cons_self)).resolve_left ?_
        intro hmem
        rw [hscript] at hmem
        exact hordered.2.1 ((List.mem_cons.mp hmem).resolve_left nofun)
      | job => cases hcore
  · have hne : th.core = .core0 → ∀ b, op ≠ .gpioSetIrqEnabled .fall b :=
      fun hcore b hop => hset ⟨hcore, b, hop⟩
    have hne' : .gpioSetIrqEnabled .fall false ≠ op := by
      rintro rfl
      cases th with
      | init | handler => exact hne rfl false rfl
      | job => exact (ne_of_runs_job hruns).2.1 rfl
    rcases h.armed (enabled_advance hne ▸ hen) with hp | hmem | hmem
    · by_cases hflag : op = .setInterruptPending true
      · subst hflag
        have hnext : .gpioSetIrqEnabled .fall false ∈
            (s.advance th true (.setInterruptPending true) rest).script th :=
          mem_advance_self (.inr hordered.2.1.1)
        cases th with
        | init => exact .inr (.inl hnext)
        | handler => exact .inr (.inr hnext)
        | job => exact absurd rfl (ne_of_runs_job hruns).1
      · exact .inl (perform_interruptPending th.core true hflag hp)
    · exact .inr (.inl (mem_advance hscript hne' hmem))
    · exact .inr (.inr (mem_advance hscript hne' hmem))

theorem noting_advance (h : s.Guarded) (hscript : s.script th = op :: rest)
    (hwait : th = .init → s.script .handler = [])
    (hack : .gpioAcknowledgeIrq .fall ∈ (s.advance th true op rest).script .handler) :
    (s.advance th true op rest).interruptPending = false ∨
      .callQueueTryAddNonblocking ∈ (s.advance th true op rest).script .init := by
  cases th with
  | init =>
    rw [script_advance_of_ne (by decide : Thread.handler ≠ .init), hwait rfl] at hack
    cases hack
  | handler =>
    have hordered : Ordered (op :: rest) := hscript ▸ h.ordered .handler
    rw [script_advance, if_pos rfl, List.mem_append] at hack
    exact absurd hack (not_or.mpr ⟨acknowledge_not_mem_expand, hordered.1⟩)
  | job =>
    have hruns := h.runs .job _ (hscript ▸ List.mem_cons_self)
    rw [script_advance_of_ne (by decide : Thread.handler ≠ .job)] at hack
    rw [script_advance_of_ne (by decide : Thread.init ≠ .job)]
    exact (h.noting hack).imp (perform_interruptPending _ true (ne_of_runs_job hruns).1) id

theorem rearming_advance (h : s.Guarded) (hscript : s.script th = op :: rest)
    (hwait : th = .init → s.script .handler = [])
    (hset : .gpioSetIrqEnabled .fall true ∈ (s.advance th true op rest).script .handler) :
    .setInterruptPending false ∈ (s.advance th true op rest).script .handler ∨
      (s.advance th true op rest).interruptPending = false := by
  cases th with
  | init =>
    rw [script_advance_of_ne (by decide : Thread.handler ≠ .init), hwait rfl] at hset
    cases hset
  | handler =>
    have hordered : Ordered (op :: rest) := hscript ▸ h.ordered .handler
    rw [script_advance, if_pos rfl, List.mem_append] at hset
    rcases hset with hexp | hrest
    · exact .inl (mem_advance_self (.inl (expand_of_mem hexp).2))
    by_cases hclear : op = .setInterruptPending false
    · subst hclear
      exact .inr rfl
    have hmem : .gpioSetIrqEnabled .fall true ∈ s.script .handler :=
      hscript ▸ List.mem_cons_of_mem op hrest
    refine (h.rearming hmem).imp (mem_advance hscript (Ne.symm hclear)) ?_
    apply perform_interruptPending _ true
    rintro rfl
    exact hordered.2.1.2.2 hrest
  | job =>
    have hruns := h.runs .job _ (hscript ▸ List.mem_cons_self)
    rw [script_advance_of_ne (by decide : Thread.handler ≠ .job)] at hset ⊢
    exact (h.rearming hset).imp id (perform_interruptPending _ true (ne_of_runs_job hruns).1)

theorem starting_advance (h : s.Guarded) (hscript : s.script th = op :: rest)
    (hset : .gpioSetIrqEnabled .fall true ∈ (s.advance th true op rest).script .init) :
    (s.advance th true op rest).script .init = initOps ∧
      (s.advance th true op rest).script .handler = [] ∧
        (s.advance th true op rest).interruptPending = false ∧
          ∀ e, (s.advance th true op rest).enabled .core0 e = false := by
  have hruns : th.Runs op := h.runs th op (hscript ▸ List.mem_cons_self)
  cases th with
  | init =>
    rw [script_advance, if_pos rfl, List.mem_append] at hset
    rcases hset with hexp | hrest
    · exact absurd (expand_of_mem hexp).1 (ne_of_runs_init hruns).1
    · obtain ⟨hinit, -⟩ := h.starting (hscript ▸ List.mem_cons_of_mem op hrest)
      obtain ⟨-, rfl⟩ := List.cons.inj (hscript.symm.trans hinit)
      simp at hrest
  | handler =>
    rw [script_advance_of_ne (by decide : Thread.init ≠ .handler)] at hset
    exact absurd (hscript.symm.trans (h.starting hset).2.1) (List.cons_ne_nil op rest)
  | job =>
    rw [script_advance_of_ne (by decide : Thread.init ≠ .job)] at hset ⊢
    rw [script_advance_of_ne (by decide : Thread.handler ≠ .job)]
    obtain ⟨hinit, hhandler, hp, hen⟩ := h.starting hset
    have hclear := perform_interruptPending Thread.job.core true (ne_of_runs_job hruns).1 hp
    refine ⟨hinit, hhandler, hclear, ?_⟩
    intro e
    rw [enabled_advance_of_ne (by decide : Core.core0 ≠ Thread.job.core)]
    exact hen e

theorem advance (h : s.Guarded) (hscript : s.script th = op :: rest)
    (hwait : th = .init → s.script .handler = []) (hkept : s.AlertKept (.thread th true)) :
    (s.advance th true op rest).Guarded where
  alert := h.alert_advance hscript hkept
  armed := h.armed_advance hscript
  noting := h.noting_advance hscript hwait
  rearming := h.rearming_advance hscript hwait
  starting := h.starting_advance hscript
  ordered := by
    intro th'
    rw [script_advance]
    split
    · exact ordered_expand (hscript ▸ h.ordered th)
    · exact h.ordered th'
  runs := by
    intro th' x hx
    rcases mem_of_mem_advance hscript hx with hold | ⟨rfl, hnew⟩
    · exact h.runs th' x hold
    · exact runs_expand (h.runs th' op (hscript ▸ List.mem_cons_self)) hnew

theorem fall (h : s.Guarded) (hkept : s.AlertKept .fall) :
    { s with
      high := false, latched := Function.update s.latched .fall true, read := false }.Guarded where
  alert := by
    rcases hkept with hen | hdue
    · exact .inr (.inl (by simp [heard, hen]))
    · exact .inr (.inr hdue)
  armed := h.armed
  noting := h.noting
  rearming := h.rearming
  starting := h.starting
  ordered := h.ordered
  runs := h.runs

theorem rise (h : s.Guarded) (hkept : s.AlertKept .rise) :
    { s with high := true, latched := Function.update s.latched .rise true }.Guarded where
  alert := by
    by_cases hlook : .queueIfLow ∈ s.script .init
    · exact hkept hlook
    refine h.alert.imp id (.imp id ?_)
    rintro (hq | hread | ⟨th, hadd | ⟨hp, hnote | ⟨hmem, -⟩⟩⟩)
    · exact .inl hq
    · exact .inr (.inl hread)
    · exact .inr (.inr ⟨th, .inl hadd⟩)
    · exact .inr (.inr ⟨th, .inr ⟨hp, .inl hnote⟩⟩)
    · have hruns := h.runs th _ hmem
      cases th with
      | init => exact absurd hmem hlook
      | handler => exact absurd rfl hruns.1
      | job => exact absurd hruns not_runs_job.2
  armed := h.armed
  noting := h.noting
  rearming := h.rearming
  starting := h.starting
  ordered := h.ordered
  runs := h.runs

end Guarded

theorem script_goto (th th' : Thread) (script : List Op) :
    (s.goto th script).script th' = if th' = th then script else s.script th' := by
  by_cases h : th' = th
  · subst h
    simp [goto]
  · simp [goto, h]

theorem Due.goto (h : s.Due) (hidle : s.script th = []) (script : List Op) :
    (s.goto th script).Due := by
  have hmem {th' : Thread} {x : Op} (hx : x ∈ s.script th') :
      x ∈ (s.goto th script).script th' := by
    rw [script_goto]
    split
    · rename_i heq
      rw [heq, hidle] at hx
      cases hx
    · exact hx
  exact h.imp id (.imp hmem (.imp fun th' => .imp hmem fun ⟨hp, hrest⟩ =>
    ⟨hp, hrest.imp hmem fun ⟨hlook, hlow⟩ => ⟨hmem hlook, hlow⟩⟩))

namespace Guarded

theorem deliver (h : s.Guarded) (hidle : s.script .handler = [])
    (hheard : (s.heard .fall || s.heard .rise) = true) :
    (s.goto .handler (onInterrupt (s.heard .fall) (s.heard .rise))).Guarded where
  alert := h.alert.imp id (.imp id fun hdue => hdue.goto hidle _)
  armed := by
    intro hen
    refine (h.armed hen).imp id fun hmem => .inl ?_
    rw [script_goto, if_neg (by decide)]
    exact hmem.resolve_right (by simp [hidle])
  noting := by
    intro hack
    have hfall : s.heard .fall = true := by
      by_contra hnot
      rw [Bool.not_eq_true] at hnot
      cases hr : s.heard .rise <;> simp [script_goto, onInterrupt, hnot, hr] at hack
    have hen : s.enabled .core0 .fall = true := (Bool.and_eq_true_iff.mp hfall).2
    refine (h.armed hen).imp id ?_
    intro hmem
    rw [script_goto, if_neg (by decide)]
    exact mem_of_ordered (h.ordered .init) (hmem.resolve_right (by simp [hidle]))
  rearming := by
    intro hset
    cases hf : s.heard .fall <;> cases hr : s.heard .rise <;>
      simp [script_goto, onInterrupt, hf, hr] at hset
  starting := by
    intro hset
    rw [script_goto, if_neg (by decide)] at hset
    obtain ⟨-, -, -, hen⟩ := h.starting hset
    simp [heard, hen] at hheard
  ordered := by
    intro th
    rw [script_goto]
    split
    · exact ordered_onInterrupt _ _
    · exact h.ordered th
  runs := by
    intro th op hop
    rw [script_goto] at hop
    split at hop
    · rename_i heq
      subst heq
      constructor <;> rintro rfl <;> cases hf : s.heard .fall <;> cases hr : s.heard .rise <;>
        simp [onInterrupt, hf, hr] at hop
    · exact h.runs th op hop

theorem callQueuePop (h : s.Guarded) (n : Nat) :
    ({ s with queued := n }.goto .job parseInterruptVals).Guarded where
  alert := by
    refine .inr (.inr (.inr (.inl ?_)))
    rw [script_goto, if_pos rfl]
    exact List.mem_cons_self
  armed := h.armed
  noting := h.noting
  rearming := h.rearming
  starting := h.starting
  ordered := by
    intro th
    rw [script_goto]
    split
    · exact ordered_parseInterruptVals
    · exact h.ordered th
  runs := by
    intro th op hop
    rw [script_goto] at hop
    split at hop
    · rename_i heq
      subst heq
      exact .inl hop
    · exact h.runs th op hop

theorem step (h : s.Guarded) {a : Action} {t : State} (hadd : s.AddSucceeds a)
    (hkept : s.AlertKept a) (hstep : s.step a = some t) : t.Guarded := by
  cases a with
  | fall =>
    simp only [State.step] at hstep
    split at hstep
    · obtain rfl := Option.some.inj hstep
      exact h.fall hkept
    · cases hstep
  | rise =>
    simp only [State.step] at hstep
    split at hstep
    · cases hstep
    · obtain rfl := Option.some.inj hstep
      exact h.rise hkept
  | deliver =>
    simp only [State.step] at hstep
    split at hstep
    · rename_i hidle
      obtain rfl := Option.some.inj hstep
      exact h.deliver hidle.1 hidle.2
    · cases hstep
  | callQueuePop =>
    simp only [State.step] at hstep
    split at hstep
    · obtain rfl := Option.some.inj hstep
      exact h.callQueuePop _
    · cases hstep
  | thread th room =>
    simp only [State.step] at hstep
    split at hstep
    · cases hstep
    · rename_i op rest hscript
      split at hstep
      · cases hstep
      · rename_i hwait
        obtain rfl := Option.some.inj hstep
        have hroom : op = .callQueueTryAddNonblocking → room = true := by
          rintro rfl
          exact hadd (by rw [hscript]; rfl)
        rw [advance_eq_of_room hroom]
        exact h.advance hscript (by simpa using hwait) hkept

end Guarded

/-! ### No alert is lost -/

theorem Due.not_quiet (h : s.Due) : ¬ s.Quiet := by
  rintro ⟨-, -, hq, hscript⟩
  simp [Due, hq, hscript] at h

theorem Guarded.noAlertLost (h : s.Guarded) : s.NoAlertLost := by
  intro hquiet
  rcases h.alert with hread | hheard | hdue
  · exact hread
  · simp [hquiet.1] at hheard
  · exact absurd hquiet hdue.not_quiet

/-- In a run in which `call_queue` has room, the line falls only while core0 would hear it or
a job is due, and enabling the falling edge discards no alert, no alert is lost. -/
theorem no_alert_lost (high : Bool) {actions : List Action}
    (hadd : Along step AddSucceeds (start high) actions)
    (hkept : Along step AlertKept (start high) actions) :
    Throughout step NoAlertLost (start high) actions :=
  (throughout_of_along (fun hs hok hstep => hs.step hok.1 hok.2 hstep) (guarded_start high)
    (hadd.and hkept)).mono fun _ hs => hs.noAlertLost

/-- An alert and its job, which ends with the line still low. -/
def firstAlert : List Action :=
  [.thread .init true, .thread .init true, .fall, .deliver, .thread .handler true,
   .thread .handler true, .thread .handler true, .thread .handler true, .thread .handler true,
   .thread .handler true, .callQueuePop, .thread .job true, .thread .job true, .thread .job true]

/-- The line rises, the handler re-arms, and the next alert is heard. -/
theorem no_alert_lost_rearmed :
    Throughout step NoAlertLost (start true)
      (firstAlert ++ .rise :: .deliver :: List.replicate 5 (.thread .handler true) ++
        [.fall, .deliver]) :=
  no_alert_lost true (by decide) (by decide)

/-- The line rises and falls before the handler for the rise looks at it: the falling edge
stays disabled and no job reads the second alert. -/
theorem alert_lost :
    ¬ Throughout step NoAlertLost (start true)
      (firstAlert ++ [.rise, .fall, .deliver, .thread .handler true, .thread .handler true]) := by
  decide

end State

end SrFirmware.Bq27742
