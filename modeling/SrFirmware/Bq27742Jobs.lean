import SrFirmware.Bq27742Irq

/-!
# Parse jobs of the battery gauge

How many `bq27742_g1_parse_interrupt_vals` jobs there are at a time. The flag that should
bound them is cleared by the handler of the rising edge, which knows nothing of `call_queue`.
-/

namespace SrFirmware.Bq27742

open Lib
open Max77958 (Core)
set_option autoImplicit false

namespace State

/-! ### Counting jobs -/

def running (s : State) : Nat := if s.script .job = [] then 0 else 1

def AtMostOneJob (s : State) : Prop := s.queued + s.running ≤ 1

instance (s : State) : Decidable s.AtMostOneJob := inferInstanceAs (Decidable (_ ≤ _))

def additions (script : List Op) : Nat := script.count .callQueueTryAddNonblocking

/-- The jobs queued and running, and those that a script has yet to add. -/
def outstanding (s : State) : Nat :=
  s.queued + s.running +
    (additions (s.script .init) + additions (s.script .handler) + additions (s.script .job))

/-- `bq27742_g1_rearm_assert_irq` clears the flag only when no job is queued, running or to be
added, but for the job that clears it, and that one once `bq27742_g1_init` is over. The handler
does not come when `bq27742_g1_init` has found the flag clear and not yet set it, nor when it
has cleared the flag and not yet enabled the edge. -/
def ClearsWait (s : State) : Action → Prop
  | .thread th _ =>
    (s.script th).head? = some (.setInterruptPending false) →
      if th = .job then s.outstanding = 1 ∧ s.script .init = [] else s.outstanding = 0
  | .deliver =>
    .setInterruptPending true ∉ s.script .init ∧
      (.gpioSetIrqEnabled .fall true ∈ s.script .init →
        .setInterruptPending false ∈ s.script .init)
  | .fall | .rise | .callQueuePop => True

instance (s : State) (a : Action) : Decidable (s.ClearsWait a) := by
  cases a <;> unfold ClearsWait <;> infer_instance

theorem additions_append (l r : List Op) : additions (l ++ r) = additions l + additions r :=
  List.count_append

theorem additions_onInterrupt (fall rise : Bool) : additions (onInterrupt fall rise) = 0 := by
  cases fall <;> cases rise <;> rfl

variable {s t : State} {th : Thread}

theorem outstanding_goto_job (script : List Op) :
    (s.goto .job script).outstanding + s.running + additions (s.script .job) =
      s.outstanding + (if script = [] then 0 else 1) + additions script := by
  simp only [outstanding, running, goto, Function.update_self, ne_eq, reduceCtorEq,
    not_false_eq_true, Function.update_of_ne]
  omega

theorem outstanding_goto (hjob : th ≠ .job) (script : List Op) :
    (s.goto th script).outstanding + additions (s.script th) =
      s.outstanding + additions script := by
  cases th with
  | job => exact absurd rfl hjob
  | init | handler =>
    simp only [outstanding, running, goto, Function.update_self, ne_eq, reduceCtorEq,
      not_false_eq_true, Function.update_of_ne]
    omega

/-! ### One step -/

/-- The only operation that asks for a job. -/
theorem additions_expand (room : Bool) (op : Op) :
    additions (s.expand room op) =
      if op = .queueParseInterrupt ∧ s.interruptPending = false then 1 else 0 := by
  cases op with
  | queueParseInterrupt => cases hp : s.interruptPending <;> simp [expand, hp, queueOps, additions]
  | callQueueTryAddNonblocking => cases room <;> rfl
  | rearmIfHigh => cases hh : s.high <;> simp [expand, hh, rearmAssertIrq, additions]
  | queueIfLow => cases hh : s.high <;> simp [expand, hh, additions]
  | gpioAcknowledgeIrq _ | gpioSetIrqEnabled _ _ | setInterruptPending _ | readFlags
  | readSafetyStatus => rfl

/-- What an operation adds to `call_queue` its script has promised. -/
theorem outstanding_perform_le (c : Core) (room : Bool) (op : Op) :
    (s.perform c room op).outstanding ≤ s.outstanding + additions [op] := by
  have hqueued : (s.perform c room op).queued ≤ s.queued + additions [op] := by
    cases op with
    | callQueueTryAddNonblocking =>
      cases room
      · exact Nat.le_succ _
      · exact Nat.le_refl _
    | gpioAcknowledgeIrq _ | gpioSetIrqEnabled _ _ | setInterruptPending _ | readFlags
    | queueParseInterrupt | readSafetyStatus | rearmIfHigh | queueIfLow => exact Nat.le_refl _
  simp only [outstanding, running, perform_script]
  omega

/-- An operation leaves no more jobs outstanding than there were, but for the one it asks for. -/
theorem outstanding_advance_le {op : Op} {rest : List Op} (hscript : s.script th = op :: rest)
    (room : Bool) :
    (s.advance th room op rest).outstanding ≤ s.outstanding + additions (s.expand room op) := by
  have hperform := outstanding_perform_le (s := s) th.core room op
  have hcons : additions (op :: rest) = additions [op] + additions rest :=
    additions_append [op] rest
  rw [advance]
  by_cases hjob : th = .job
  · subst hjob
    have hgoto := outstanding_goto_job (s := s.perform Thread.job.core room op)
      (s.expand room op ++ rest)
    have hrunning : (s.perform Thread.job.core room op).running = 1 := by
      simp [running, perform_script, hscript]
    rw [perform_script, hscript, hcons, additions_append, hrunning] at hgoto
    split at hgoto <;> omega
  · have hgoto := outstanding_goto (s := s.perform th.core room op) hjob (s.expand room op ++ rest)
    rw [perform_script, hscript, hcons, additions_append] at hgoto
    omega

/-! ### Scripts -/

/-- Still to look at the flag. -/
def Asks (script : List Op) : Prop := .queueParseInterrupt ∈ script ∨ .queueIfLow ∈ script

def Op.Leads (rest : List Op) : Op → Prop
  | .setInterruptPending true => .gpioSetIrqEnabled .fall false ∈ rest
  | .gpioSetIrqEnabled .fall false => .callQueueTryAddNonblocking ∈ rest
  | .queueIfLow | .queueParseInterrupt => ¬ Asks rest ∧ .gpioSetIrqEnabled .fall true ∉ rest
  | .callQueueTryAddNonblocking | .rearmIfHigh | .setInterruptPending false => ¬ Asks rest
  | _ => True

/-- The flag is cleared at once or not at all, and is looked at once. -/
def Led : List Op → Prop
  | [] => True
  | op :: rest => .setInterruptPending false ∉ rest ∧ Op.Leads rest op ∧ Led rest

theorem led_initOps : Led initOps := by simp [Led, Op.Leads, Asks, initOps]

theorem led_onInterrupt (fall rise : Bool) : Led (onInterrupt fall rise) := by
  cases fall <;> cases rise <;> simp [Led, Op.Leads, Asks, onInterrupt]

theorem led_parseInterruptVals : Led parseInterruptVals := by
  simp [Led, Op.Leads, Asks, parseInterruptVals]

theorem led_expand {op : Op} {rest : List Op} (h : Led (op :: rest)) (room : Bool) :
    Led (s.expand room op ++ rest) := by
  obtain ⟨hclear, hleads, hrest⟩ := h
  cases op with
  | queueParseInterrupt =>
    simp only [expand]
    split
    · exact hrest
    · simp_all [queueOps, Led, Op.Leads]
  | callQueueTryAddNonblocking =>
    cases room with
    | true => exact hrest
    | false => exact ⟨hclear, hleads, hrest⟩
  | rearmIfHigh =>
    simp only [expand]
    split
    · simp_all [rearmAssertIrq, Led, Op.Leads, Asks]
    · exact hrest
  | queueIfLow =>
    simp only [expand]
    split
    · exact hrest
    · exact ⟨hclear, hleads, hrest⟩
  | gpioAcknowledgeIrq _ | gpioSetIrqEnabled _ _ | setInterruptPending _ | readFlags
  | readSafetyStatus => exact hrest

theorem addition_of_led {script : List Op} (h : Led script)
    (hmem : .gpioSetIrqEnabled .fall false ∈ script) : 0 < additions script := by
  induction script with
  | nil => cases hmem
  | cons op rest ih =>
    obtain ⟨-, hleads, hrest⟩ := h
    have hcons : additions (op :: rest) = additions [op] + additions rest :=
      additions_append [op] rest
    rcases List.mem_cons.mp hmem with rfl | hmem
    · have hpos : 0 < additions rest := List.count_pos_iff.mpr hleads
      omega
    · have hpos := ih hrest hmem
      omega

/-! ### The invariant -/

structure Coalesced (s : State) : Prop where
  led : ∀ th, Led (s.script th)
  job : ∀ op ∈ s.script .job, Thread.job.Runs op
  outstanding : s.outstanding ≤ 1
  -- core0 hears no fall while a job is outstanding, but before the edge is disabled for it
  unheard : s.enabled .core0 .fall = true → s.outstanding = 0 ∨
    .gpioSetIrqEnabled .fall false ∈ s.script .init ∨
      .gpioSetIrqEnabled .fall false ∈ s.script .handler
  -- nor will it, past the write of the flag
  arming : ∀ th, th ≠ .job → .gpioSetIrqEnabled .fall true ∈ s.script th →
    .setInterruptPending false ∉ s.script th → s.outstanding = 0
  -- where `bq27742_g1_init` may be while the handler runs
  entered : s.script .handler ≠ [] → .setInterruptPending true ∉ s.script .init ∧
    (.gpioSetIrqEnabled .fall true ∈ s.script .init →
      .setInterruptPending false ∈ s.script .init)
  flagged : .gpioSetIrqEnabled .fall false ∈ s.script .init →
    .setInterruptPending true ∉ s.script .init → s.interruptPending = true
  handler : Asks (s.script .handler) →
    s.outstanding = 0 ∨ s.interruptPending = true ∧ s.script .init ≠ []
  init : Asks (s.script .init) →
    s.outstanding = 0 ∨ s.interruptPending = true ∨ .setInterruptPending true ∈ s.script .handler

theorem coalesced_start (high : Bool) : (start high).Coalesced where
  led th := by
    cases th with
    | init => exact led_initOps
    | handler | job => trivial
  job := by simp [start]
  outstanding := Nat.zero_le 1
  unheard := by simp [start]
  arming _ _ _ _ := rfl
  entered := by simp [start]
  flagged := by simp [start, initOps]
  handler := by simp [start, Asks]
  init _ := Or.inl rfl

/-! ### One operation of a script -/

variable {op : Op} {rest : List Op} {room : Bool}

theorem script_advance_self : (s.advance th room op rest).script th = s.expand room op ++ rest :=
  Function.update_self ..

theorem script_advance_other {th' : Thread} (h : th' ≠ th) :
    (s.advance th room op rest).script th' = s.script th' :=
  (Function.update_of_ne h _ _).trans (congrFun (perform_script _ _) th')

theorem mem_expand {x : Op} (hx : x ∈ s.expand room op) :
    op = .queueParseInterrupt ∧ s.interruptPending = false ∧ x ∈ queueOps ∨
      op = .callQueueTryAddNonblocking ∧ x = .rearmIfHigh ∨
      op = .rearmIfHigh ∧ s.high = true ∧ x ∈ rearmAssertIrq ∨
      op = .queueIfLow ∧ x = .queueParseInterrupt := by
  cases op with
  | queueParseInterrupt =>
    simp only [expand] at hx
    split at hx
    · cases hx
    · rename_i hpending
      exact Or.inl ⟨rfl, Bool.eq_false_of_not_eq_true hpending, hx⟩
  | callQueueTryAddNonblocking =>
    cases room with
    | true => cases hx
    | false => exact Or.inr (Or.inl ⟨rfl, List.mem_singleton.mp hx⟩)
  | rearmIfHigh =>
    simp only [expand] at hx
    split at hx
    · rename_i hhigh
      exact Or.inr (Or.inr (Or.inl ⟨rfl, hhigh, hx⟩))
    · cases hx
  | queueIfLow =>
    simp only [expand] at hx
    split at hx
    · cases hx
    · exact Or.inr (Or.inr (Or.inr ⟨rfl, List.mem_singleton.mp hx⟩))
  | gpioAcknowledgeIrq _ | gpioSetIrqEnabled _ _ | setInterruptPending _ | readFlags
  | readSafetyStatus => cases hx

/-- What is not the start of a job finds nothing new about the flag in its script. -/
theorem asks_of_expand (h : Asks (s.expand room op ++ rest)) : Asks (op :: rest) := by
  have hmem {x : Op} (hx : x ∈ s.expand room op ++ rest)
      (hask : x = .queueParseInterrupt ∨ x = .queueIfLow) : Asks (op :: rest) := by
    rcases List.mem_append.mp hx with hx | hx
    · rcases mem_expand hx with ⟨rfl, -, -⟩ | ⟨-, rfl⟩ | ⟨-, -, hrearm⟩ | ⟨rfl, -⟩
      · exact Or.inl List.mem_cons_self
      · simp at hask
      · rcases hask with rfl | rfl <;> simp [rearmAssertIrq] at hrearm
      · exact Or.inr List.mem_cons_self
    · rcases hask with rfl | rfl
      · exact Or.inl (List.mem_cons_of_mem _ hx)
      · exact Or.inr (List.mem_cons_of_mem _ hx)
  rcases h with h | h
  · exact hmem h (Or.inl rfl)
  · exact hmem h (Or.inr rfl)

/-- Not a write of the flag to clear it, nor a look that finds it clear. -/
def Tame (s : State) (op : Op) : Prop :=
  op ≠ .setInterruptPending false ∧ (op = .queueParseInterrupt → s.interruptPending = true)

theorem outstanding_of_tame (room : Bool) (hscript : s.script th = op :: rest)
    (h : s.Tame op) :
    (s.advance th room op rest).outstanding ≤ s.outstanding := by
  have hadvance := outstanding_advance_le hscript room
  have hnone : ¬ (op = .queueParseInterrupt ∧ s.interruptPending = false) := by
    rintro ⟨hask, hclear⟩
    rw [h.2 hask] at hclear
    cases hclear
  rw [additions_expand, if_neg hnone] at hadvance
  exact hadvance

theorem pending_of_tame (h : s.Tame op) (hpending : s.interruptPending = true) :
    (s.advance th room op rest).interruptPending = true := by
  cases op with
  | setInterruptPending b =>
    cases b with
    | true => rfl
    | false => exact absurd rfl h.1
  | callQueueTryAddNonblocking => cases room <;> exact hpending
  | gpioAcknowledgeIrq _ | gpioSetIrqEnabled _ _ | readFlags | queueParseInterrupt
  | readSafetyStatus | rearmIfHigh | queueIfLow => exact hpending

theorem mem_of_tame (h : s.Tame op) {x : Op}
    (hx : x ∉ .rearmIfHigh :: .queueParseInterrupt :: rearmAssertIrq)
    (hmem : x ∈ s.expand room op ++ rest) : x ∈ rest := by
  simp only [List.mem_cons, not_or] at hx
  rcases List.mem_append.mp hmem with hmem | hmem
  · rcases mem_expand hmem with ⟨hask, hclear, -⟩ | ⟨-, hadd⟩ | ⟨-, -, hrearm⟩ | ⟨-, hlook⟩
    · rw [h.2 hask] at hclear
      cases hclear
    · exact absurd hadd hx.1
    · exact absurd hrearm hx.2.2
    · exact absurd hlook hx.2.1
  · exact hmem

/-- An edge about to be enabled, with the flag cleared before. -/
theorem mem_of_arming (hled : Led (op :: rest)) (hclear : op ≠ .setInterruptPending false)
    (hmem : .gpioSetIrqEnabled .fall true ∈ s.expand room op ++ rest)
    (hnone : .setInterruptPending false ∉ s.expand room op ++ rest) :
    .gpioSetIrqEnabled .fall true ∈ rest ∧ .setInterruptPending false ∉ op :: rest := by
  refine ⟨?_, ?_⟩
  · rcases List.mem_append.mp hmem with hmem | hmem
    · rcases mem_expand hmem with ⟨-, -, hx⟩ | ⟨-, hx⟩ | ⟨rfl, hhigh, -⟩ | ⟨-, hx⟩
      · simp [queueOps] at hx
      · cases hx
      · simp [expand, hhigh, rearmAssertIrq] at hnone
      · cases hx
    · exact hmem
  · intro hx
    rcases List.mem_cons.mp hx with rfl | hx
    · exact hclear rfl
    · exact hled.1 hx

theorem enabled_core0_advance (h : ∀ b, op ≠ .gpioSetIrqEnabled .fall b) :
    (s.advance th room op rest).enabled .core0 .fall = s.enabled .core0 .fall := by
  cases op with
  | gpioSetIrqEnabled e b =>
    cases e with
    | fall => exact absurd rfl (h b)
    | rise => cases th <;> simp [advance, goto, perform, Thread.core]
  | callQueueTryAddNonblocking => cases room <;> rfl
  | gpioAcknowledgeIrq _ | setInterruptPending _ | readFlags | queueParseInterrupt
  | readSafetyStatus | rearmIfHigh | queueIfLow => rfl

theorem enabled_core0_advance_job (hth : th = .job) :
    (s.advance th room op rest).enabled .core0 = s.enabled .core0 := by
  subst hth
  cases op with
  | gpioSetIrqEnabled e b => simp [advance, goto, perform, Thread.core]
  | callQueueTryAddNonblocking => cases room <;> rfl
  | gpioAcknowledgeIrq _ | setInterruptPending _ | readFlags | queueParseInterrupt
  | readSafetyStatus | rearmIfHigh | queueIfLow => rfl

theorem pending_advance (h : ∀ b, op ≠ .setInterruptPending b) :
    (s.advance th room op rest).interruptPending = s.interruptPending := by
  cases op with
  | setInterruptPending b => exact absurd rfl (h b)
  | callQueueTryAddNonblocking => cases room <;> rfl
  | gpioAcknowledgeIrq _ | gpioSetIrqEnabled _ _ | readFlags | queueParseInterrupt
  | readSafetyStatus | rearmIfHigh | queueIfLow => rfl

theorem additions_init_le (s : State) : additions (s.script .init) ≤ s.outstanding := by
  unfold outstanding
  omega

namespace Coalesced

theorem led_advance (h : s.Coalesced) (room : Bool) (hscript : s.script th = op :: rest)
    (th' : Thread) :
    Led ((s.advance th room op rest).script th') := by
  by_cases hth : th' = th
  · subst hth
    rw [script_advance_self]
    exact led_expand (hscript ▸ h.led th') room
  · rw [script_advance_other hth]
    exact h.led th'

/-- The unheard edge, and the edge about to be enabled, past an operation that starts nothing. -/
theorem unheard_advance (h : s.Coalesced) (hjob : th ≠ .job) (hscript : s.script th = op :: rest)
    (htame : s.Tame op)
    (hon : (s.advance th room op rest).enabled .core0 .fall = true) :
    (s.advance th room op rest).outstanding = 0 ∨
      .gpioSetIrqEnabled .fall false ∈ (s.advance th room op rest).script .init ∨
        .gpioSetIrqEnabled .fall false ∈ (s.advance th room op rest).script .handler := by
  have hled : Led (op :: rest) := hscript ▸ h.led th
  have hle := outstanding_of_tame room hscript htame
  have hkept {th' : Thread} (hne : op ≠ .gpioSetIrqEnabled .fall false)
      (hmem : .gpioSetIrqEnabled .fall false ∈ s.script th') :
      .gpioSetIrqEnabled .fall false ∈ (s.advance th room op rest).script th' := by
    by_cases hth : th' = th
    · subst hth
      rw [hscript] at hmem
      rw [script_advance_self]
      exact List.mem_append_right _ ((List.mem_cons.mp hmem).resolve_left hne.symm)
    · rwa [script_advance_other hth]
  have hcore : th.core = .core0 := by cases th <;> first | rfl | exact absurd rfl hjob
  by_cases henable : op = .gpioSetIrqEnabled .fall true
  · subst henable
    have hnone := h.arming th hjob (by simp [hscript]) (by simp [hscript, hled.1])
    exact Or.inl (by omega)
  · by_cases hdisable : op = .gpioSetIrqEnabled .fall false
    · subst hdisable
      simp [advance, goto, perform, hcore] at hon
    · have hsame : ∀ b, op ≠ .gpioSetIrqEnabled .fall b := by
        intro b
        cases b with
        | true => exact henable
        | false => exact hdisable
      rw [enabled_core0_advance hsame] at hon
      rcases h.unheard hon with hnone | hinit | hhandler
      · exact Or.inl (by omega)
      · exact Or.inr (Or.inl (hkept hdisable hinit))
      · exact Or.inr (Or.inr (hkept hdisable hhandler))

theorem arming_advance (h : s.Coalesced) (hscript : s.script th = op :: rest)
    (htame : s.Tame op) {th' : Thread} (hjob : th' ≠ .job)
    (hmem : .gpioSetIrqEnabled .fall true ∈ (s.advance th room op rest).script th')
    (hnone : .setInterruptPending false ∉ (s.advance th room op rest).script th') :
    (s.advance th room op rest).outstanding = 0 := by
  have hle := outstanding_of_tame room hscript htame
  have hzero : s.outstanding = 0 := by
    by_cases hth : th' = th
    · subst hth
      rw [script_advance_self] at hmem hnone
      obtain ⟨hrest, hcons⟩ := mem_of_arming (hscript ▸ h.led th') htame.1 hmem hnone
      exact h.arming th' hjob (hscript ▸ List.mem_cons_of_mem _ hrest) (hscript ▸ hcons)
    · rw [script_advance_other hth] at hmem hnone
      exact h.arming th' hjob hmem hnone
  omega

/-- With nothing outstanding the flag may be cleared. -/
theorem of_clear (h : s.Coalesced) (hscript : s.script th = .setInterruptPending false :: rest)
    (hjob : th ≠ .job) (hidle : th = .init → s.script .handler = [])
    (hnone : s.outstanding = 0) :
    (s.advance th room (.setInterruptPending false) rest).Coalesced := by
  have hle := outstanding_advance_le hscript room
  rw [additions_expand, if_neg (by simp)] at hle
  have hzero : (s.advance th room (.setInterruptPending false) rest).outstanding = 0 := by omega
  have hpost := additions_init_le (s.advance th room (.setInterruptPending false) rest)
  refine ⟨h.led_advance room hscript, ?_, by omega, fun _ => Or.inl hzero,
    fun _ _ _ _ => hzero, ?_, ?_, fun _ => Or.inl hzero, fun _ => Or.inl hzero⟩
  · rw [script_advance_other (Ne.symm hjob)]
    exact h.job
  · intro hhandler
    cases th with
    | init =>
      rw [script_advance_other (by decide), hidle rfl] at hhandler
      exact absurd rfl hhandler
    | handler =>
      rw [script_advance_other (by decide)]
      exact h.entered (by simp [hscript])
    | job => exact absurd rfl hjob
  · intro hmem
    have hpos := addition_of_led (h.led_advance room hscript .init) hmem
    omega

/-- A look that finds the flag clear finds nothing outstanding. -/
theorem of_ask (h : s.Coalesced) (hscript : s.script th = .queueParseInterrupt :: rest)
    (hjob : th ≠ .job) (hidle : th = .init → s.script .handler = [])
    (hclear : s.interruptPending = false) :
    (s.advance th room .queueParseInterrupt rest).Coalesced := by
  have hled : Led (.queueParseInterrupt :: rest) := hscript ▸ h.led th
  obtain ⟨-, ⟨hasks, hon⟩, -⟩ := hled
  have hask : Asks (s.script th) := by
    rw [hscript]
    exact Or.inl List.mem_cons_self
  have hnone : s.outstanding = 0 := by
    cases th with
    | init =>
      rcases h.init hask with hnone | hpending | hset
      · exact hnone
      · rw [hclear] at hpending
        cases hpending
      · rw [hidle rfl] at hset
        cases hset
    | handler =>
      rcases h.handler hask with hnone | ⟨hpending, -⟩
      · exact hnone
      · rw [hclear] at hpending
        cases hpending
    | job => exact absurd rfl hjob
  have hle := outstanding_advance_le hscript room
  rw [additions_expand, if_pos ⟨rfl, hclear⟩, hnone] at hle
  have hnew : (s.advance th room .queueParseInterrupt rest).script th = queueOps ++ rest := by
    rw [script_advance_self, expand, hclear]
    rfl
  have hno : ¬ Asks (queueOps ++ rest) := by
    intro h
    exact hasks (by simpa [Asks, queueOps] using h)
  refine ⟨h.led_advance room hscript, ?_, hle, ?_, ?_, ?_, ?_, ?_, ?_⟩
  · rw [script_advance_other (Ne.symm hjob)]
    exact h.job
  · intro _
    cases th with
    | init => exact Or.inr (Or.inl (by rw [hnew]; simp [queueOps]))
    | handler => exact Or.inr (Or.inr (by rw [hnew]; simp [queueOps]))
    | job => exact absurd rfl hjob
  · intro th' hjob' hmem hnot
    by_cases hth : th' = th
    · subst hth
      rw [hnew] at hmem
      exact absurd (by simpa [queueOps] using hmem) hon
    · rw [script_advance_other hth] at hmem hnot
      have hzero := h.arming th' hjob' hmem hnot
      cases th with
      | init =>
        cases th' with
        | init => exact absurd rfl hth
        | handler =>
          rw [hidle rfl] at hmem
          cases hmem
        | job => exact absurd rfl hjob'
      | handler =>
        cases th' with
        | init => exact absurd ((h.entered (by simp [hscript])).2 hmem) hnot
        | handler => exact absurd rfl hth
        | job => exact absurd rfl hjob'
      | job => exact absurd rfl hjob
  · intro hhandler
    cases th with
    | init =>
      rw [script_advance_other (by decide), hidle rfl] at hhandler
      exact absurd rfl hhandler
    | handler =>
      rw [script_advance_other (by decide)]
      exact h.entered (by simp [hscript])
    | job => exact absurd rfl hjob
  · intro hmem hset
    cases th with
    | init =>
      rw [hnew] at hset
      exact absurd (by simp [queueOps]) hset
    | handler =>
      rw [script_advance_other (by decide)] at hmem hset
      rw [pending_advance (by simp)]
      exact h.flagged hmem hset
    | job => exact absurd rfl hjob
  · intro hasked
    cases th with
    | init =>
      rw [script_advance_other (by decide), hidle rfl] at hasked
      simp [Asks] at hasked
    | handler =>
      rw [hnew] at hasked
      exact absurd hasked hno
    | job => exact absurd rfl hjob
  · intro hasked
    cases th with
    | init =>
      rw [hnew] at hasked
      exact absurd hasked hno
    | handler => exact Or.inr (Or.inr (by rw [hnew]; simp [queueOps]))
    | job => exact absurd rfl hjob

theorem handler_advance (h : s.Coalesced) (hscript : s.script .handler = op :: rest)
    (htame : s.Tame op) : (s.advance .handler room op rest).Coalesced := by
  have hle := outstanding_of_tame room hscript htame
  have hinit : (s.advance .handler room op rest).script .init = s.script .init :=
    script_advance_other (by decide)
  have hjob : Thread.handler ≠ .job := by decide
  refine ⟨h.led_advance room hscript, ?_, Nat.le_trans hle h.outstanding,
    h.unheard_advance hjob hscript htame, fun _ => h.arming_advance hscript htame, ?_, ?_, ?_, ?_⟩
  · rw [script_advance_other (by decide)]
    exact h.job
  · intro _
    rw [hinit]
    exact h.entered (by simp [hscript])
  · rw [hinit]
    intro hmem hset
    exact pending_of_tame htame (h.flagged hmem hset)
  · rw [script_advance_self, hinit]
    intro hasked
    rcases h.handler (hscript ▸ asks_of_expand hasked) with hnone | ⟨hpending, hbusy⟩
    · exact Or.inl (by omega)
    · exact Or.inr ⟨pending_of_tame htame hpending, hbusy⟩
  · rw [script_advance_self, hinit]
    intro hasked
    rcases h.init hasked with hnone | hpending | hset
    · exact Or.inl (by omega)
    · exact Or.inr (Or.inl (pending_of_tame htame hpending))
    · rw [hscript] at hset
      rcases List.mem_cons.mp hset with rfl | hset
      · exact Or.inr (Or.inl rfl)
      · exact Or.inr (Or.inr (List.mem_append_right _ hset))

theorem init_advance (h : s.Coalesced) (hscript : s.script .init = op :: rest)
    (hidle : s.script .handler = []) (htame : s.Tame op) :
    (s.advance .init room op rest).Coalesced := by
  have hle := outstanding_of_tame room hscript htame
  have hhandler : (s.advance .init room op rest).script .handler = [] :=
    (script_advance_other (by decide)).trans hidle
  have hjob : Thread.init ≠ .job := by decide
  refine ⟨h.led_advance room hscript, ?_, Nat.le_trans hle h.outstanding,
    h.unheard_advance hjob hscript htame, fun _ => h.arming_advance hscript htame, ?_, ?_, ?_, ?_⟩
  · rw [script_advance_other (by decide)]
    exact h.job
  · intro hbusy
    exact absurd hhandler hbusy
  · rw [script_advance_self]
    intro hmem hset
    have hrest := mem_of_tame htame (by simp [rearmAssertIrq]) hmem
    by_cases hop : op = .setInterruptPending true
    · subst hop
      rfl
    · have hnot : .setInterruptPending true ∉ s.script .init := by
        rw [hscript]
        intro hx
        rcases List.mem_cons.mp hx with heq | hx
        · exact hop heq.symm
        · exact hset (List.mem_append_right _ hx)
      exact pending_of_tame htame (h.flagged (hscript ▸ List.mem_cons_of_mem _ hrest) hnot)
  · rw [hhandler]
    intro hasked
    simp [Asks] at hasked
  · rw [script_advance_self]
    intro hasked
    rcases h.init (hscript ▸ asks_of_expand hasked) with hnone | hpending | hset
    · exact Or.inl (by omega)
    · exact Or.inr (Or.inl (pending_of_tame htame hpending))
    · rw [hidle] at hset
      cases hset

theorem job_advance (h : s.Coalesced) (hscript : s.script .job = op :: rest)
    (hwait : op = .setInterruptPending false → s.outstanding = 1 ∧ s.script .init = []) :
    (s.advance .job room op rest).Coalesced := by
  have hruns : Thread.job.Runs op := h.job op (by simp [hscript])
  have hask : op ≠ .queueParseInterrupt := by
    rintro rfl
    exact not_runs_job.1 hruns
  have hadd : op ≠ .callQueueTryAddNonblocking := by
    rintro rfl
    simp [Thread.Runs, parseInterruptVals, rearmAssertIrq] at hruns
  have hle := outstanding_advance_le hscript room
  rw [additions_expand, if_neg (by simp [hask])] at hle
  have hinit : (s.advance .job room op rest).script .init = s.script .init :=
    script_advance_other (by decide)
  have hhandler : (s.advance .job room op rest).script .handler = s.script .handler :=
    script_advance_other (by decide)
  have hone := h.outstanding
  have hjobs : ∀ x ∈ (s.advance .job room op rest).script .job, Thread.job.Runs x := by
    rw [script_advance_self]
    intro x hx
    rcases List.mem_append.mp hx with hx | hx
    · refine runs_expand (s := s) hruns ?_
      cases op with
      | callQueueTryAddNonblocking => exact absurd rfl hadd
      | gpioAcknowledgeIrq _ | gpioSetIrqEnabled _ _ | setInterruptPending _ | readFlags
      | queueParseInterrupt | readSafetyStatus | rearmIfHigh | queueIfLow => exact hx
    · exact h.job x (hscript ▸ List.mem_cons_of_mem _ hx)
  have hzero {p : Prop} (hp : s.outstanding = 0 ∨ p) :
      (s.advance .job room op rest).outstanding = 0 ∨ p := by
    rcases hp with hp | hp
    · exact Or.inl (by omega)
    · exact Or.inr hp
  -- the job's own clear comes when nothing on core0 relies on the flag
  have hkept (hbusy : s.script .init ≠ []) (hpending : s.interruptPending = true) :
      (s.advance .job room op rest).interruptPending = true := by
    have hsame : ∀ b, op ≠ .setInterruptPending b := by
      intro b
      cases b with
      | true => exact (ne_of_runs_job hruns).1
      | false => exact fun hclear => hbusy (hwait hclear).2
    rwa [pending_advance hsame]
  refine ⟨h.led_advance room hscript, hjobs, by omega, ?_, ?_, ?_, ?_, ?_, ?_⟩
  · rw [hinit, hhandler, enabled_core0_advance_job rfl]
    intro hon
    exact hzero (h.unheard hon)
  · intro th hth
    have hother : (s.advance .job room op rest).script th = s.script th :=
      script_advance_other hth
    rw [hother]
    intro hmem hnone
    have hold := h.arming th hth hmem hnone
    omega
  · rw [hinit, hhandler]
    exact h.entered
  · rw [hinit]
    intro hmem hset
    exact hkept (List.ne_nil_of_mem hmem) (h.flagged hmem hset)
  · rw [hinit, hhandler]
    intro hasked
    rcases hzero (h.handler hasked) with hnone | ⟨hpending, hbusy⟩
    · exact Or.inl hnone
    · exact Or.inr ⟨hkept hbusy hpending, hbusy⟩
  · rw [hinit, hhandler]
    intro hasked
    have hbusy : s.script .init ≠ [] := by
      rcases hasked with hmem | hmem <;> exact List.ne_nil_of_mem hmem
    rcases hzero (h.init hasked) with hnone | hpending | hset
    · exact Or.inl hnone
    · exact Or.inr (Or.inl (hkept hbusy hpending))
    · exact Or.inr (Or.inr hset)

theorem deliver (h : s.Coalesced) (hidle : s.script .handler = [])
    (hset : .setInterruptPending true ∉ s.script .init)
    (hrearm : .gpioSetIrqEnabled .fall true ∈ s.script .init →
      .setInterruptPending false ∈ s.script .init) :
    (s.goto .handler (onInterrupt (s.heard .fall) (s.heard .rise))).Coalesced := by
  have hhandler := script_goto (s := s) .handler .handler
    (onInterrupt (s.heard .fall) (s.heard .rise))
  have hinit := script_goto (s := s) .handler .init (onInterrupt (s.heard .fall) (s.heard .rise))
  have hjob := script_goto (s := s) .handler .job (onInterrupt (s.heard .fall) (s.heard .rise))
  rw [if_pos rfl] at hhandler
  rw [if_neg (by decide)] at hinit hjob
  have hsame : (s.goto .handler (onInterrupt (s.heard .fall) (s.heard .rise))).outstanding =
      s.outstanding := by
    have hgoto := outstanding_goto (s := s) (by decide : Thread.handler ≠ .job)
      (onInterrupt (s.heard .fall) (s.heard .rise))
    rw [additions_onInterrupt, hidle] at hgoto
    exact hgoto
  have hmem (x : Op) (hx : x ∈ onInterrupt (s.heard .fall) (s.heard .rise)) :
      x ≠ .gpioSetIrqEnabled .fall true ∧ x ≠ .setInterruptPending true := by
    rw [onInterrupt] at hx
    constructor <;> rintro rfl <;> simp at hx
  refine ⟨?_, hjob ▸ h.job, hsame ▸ h.outstanding, ?_, ?_, ?_, ?_, ?_, ?_⟩
  · intro th
    cases th with
    | init => exact hinit ▸ h.led .init
    | handler =>
      rw [hhandler]
      exact led_onInterrupt _ _
    | job => exact hjob ▸ h.led .job
  · rw [hsame, hinit]
    intro hon
    rcases h.unheard hon with hnone | hmem | hmem
    · exact Or.inl hnone
    · exact Or.inr (Or.inl hmem)
    · rw [hidle] at hmem
      cases hmem
  · intro th hth hon hnone
    rw [hsame]
    cases th with
    | init =>
      rw [hinit] at hon hnone
      exact h.arming .init hth hon hnone
    | handler =>
      rw [hhandler] at hon
      exact absurd rfl (hmem _ hon).1
    | job => exact absurd rfl hth
  · rw [hinit]
    exact fun _ => ⟨hset, hrearm⟩
  · rw [hinit]
    exact h.flagged
  · rw [hhandler, hinit, hsame]
    intro hasked
    -- only a fall makes the handler look at the flag, and only what core0 has enabled is heard
    have hheard : s.heard .fall = true := by
      cases hfall : s.heard .fall with
      | true => rfl
      | false => cases hrise : s.heard .rise <;> simp [hfall, hrise, Asks, onInterrupt] at hasked
    simp only [heard, Bool.and_eq_true] at hheard
    rcases h.unheard hheard.2 with hnone | hoff | hoff
    · exact Or.inl hnone
    · exact Or.inr ⟨h.flagged hoff hset, List.ne_nil_of_mem hoff⟩
    · rw [hidle] at hoff
      cases hoff
  · rw [hinit, hsame]
    intro hasked
    rcases h.init hasked with hnone | hpending | hmem
    · exact Or.inl hnone
    · exact Or.inr (Or.inl hpending)
    · rw [hidle] at hmem
      cases hmem

theorem callQueuePop (h : s.Coalesced) {n : Nat} (hqueued : s.queued = n + 1)
    (hidle : s.script .job = []) :
    ({ s with queued := n }.goto .job parseInterruptVals).Coalesced := by
  have hjob : ({ s with queued := n }.goto .job parseInterruptVals).script .job =
      parseInterruptVals := by
    rw [script_goto, if_pos rfl]
  have hother {th : Thread} (hth : th ≠ .job) :
      ({ s with queued := n }.goto .job parseInterruptVals).script th = s.script th := by
    rw [script_goto, if_neg hth]
  have hsame : ({ s with queued := n }.goto .job parseInterruptVals).outstanding =
      s.outstanding := by
    have hgoto := outstanding_goto_job (s := { s with queued := n }) parseInterruptVals
    have hpopped : ({ s with queued := n } : State).outstanding + 1 = s.outstanding := by
      simp only [State.outstanding, running, hqueued]
      omega
    have hrunning : ({ s with queued := n } : State).running = 0 := by simp [running, hidle]
    have hnone : additions parseInterruptVals = 0 := rfl
    have hold : additions (({ s with queued := n } : State).script .job) = 0 := by
      rw [hidle]
      rfl
    have hsome : parseInterruptVals ≠ [] := List.cons_ne_nil _ _
    rw [hnone, if_neg hsome, hrunning, hold] at hgoto
    omega
  refine ⟨?_, ?_, hsame ▸ h.outstanding, ?_, ?_, ?_, ?_, ?_, ?_⟩
  · intro th
    by_cases hth : th = .job
    · subst hth
      rw [hjob]
      exact led_parseInterruptVals
    · rw [hother hth]
      exact h.led th
  · rw [hjob]
    exact fun op hop => Or.inl hop
  · rw [hsame, hother (by decide), hother (by decide)]
    exact h.unheard
  · intro th hth
    rw [hsame, hother hth]
    exact h.arming th hth
  · rw [hother (by decide), hother (by decide)]
    exact h.entered
  · rw [hother (by decide)]
    exact h.flagged
  · rw [hsame, hother (by decide), hother (by decide)]
    exact h.handler
  · rw [hsame, hother (by decide), hother (by decide)]
    exact h.init

theorem advance (h : s.Coalesced) (hscript : s.script th = op :: rest)
    (hidle : th = .init → s.script .handler = []) (hwait : s.ClearsWait (.thread th room)) :
    (s.advance th room op rest).Coalesced := by
  have hcond (hop : op = .setInterruptPending false) :
      if th = .job then s.outstanding = 1 ∧ s.script .init = [] else s.outstanding = 0 :=
    hwait (by rw [hscript, hop]; rfl)
  by_cases hjob : th = .job
  · subst hjob
    exact h.job_advance hscript fun hop => hcond hop
  · by_cases hclear : op = .setInterruptPending false
    · subst hclear
      have hnone := hcond rfl
      rw [if_neg hjob] at hnone
      exact h.of_clear hscript hjob hidle hnone
    · by_cases hask : op = .queueParseInterrupt ∧ s.interruptPending = false
      · obtain ⟨rfl, hpending⟩ := hask
        exact h.of_ask hscript hjob hidle hpending
      · have htame : s.Tame op := by
          refine ⟨hclear, ?_⟩
          intro hop
          cases hpending : s.interruptPending with
          | true => rfl
          | false => exact absurd ⟨hop, hpending⟩ hask
        cases th with
        | init => exact h.init_advance hscript (hidle rfl) htame
        | handler => exact h.handler_advance hscript htame
        | job => exact absurd rfl hjob

theorem step (h : s.Coalesced) {a : Action} (hwait : s.ClearsWait a)
    (hstep : s.step a = some t) : t.Coalesced := by
  cases a with
  | fall =>
    simp only [State.step] at hstep
    split at hstep
    · obtain rfl := Option.some.inj hstep
      exact ⟨h.led, h.job, h.outstanding, h.unheard, h.arming, h.entered, h.flagged, h.handler,
        h.init⟩
    · cases hstep
  | rise =>
    simp only [State.step] at hstep
    split at hstep
    · cases hstep
    · obtain rfl := Option.some.inj hstep
      exact ⟨h.led, h.job, h.outstanding, h.unheard, h.arming, h.entered, h.flagged, h.handler,
        h.init⟩
  | deliver =>
    simp only [State.step] at hstep
    split at hstep
    · rename_i hready
      obtain rfl := Option.some.inj hstep
      exact h.deliver hready.1 hwait.1 hwait.2
    · cases hstep
  | callQueuePop =>
    simp only [State.step] at hstep
    split at hstep
    · rename_i n hqueued hscript
      obtain rfl := Option.some.inj hstep
      exact h.callQueuePop hqueued hscript
    · cases hstep
  | thread th room =>
    simp only [State.step] at hstep
    split at hstep
    · cases hstep
    · rename_i op rest hscript
      split at hstep
      · cases hstep
      · rename_i hfree
        obtain rfl := Option.some.inj hstep
        refine h.advance hscript ?_ hwait
        intro hth
        by_contra hbusy
        exact hfree ⟨hth, hbusy⟩

end Coalesced

theorem atMostOneJob_of_outstanding (h : s.outstanding ≤ 1) : s.AtMostOneJob := by
  rw [outstanding] at h
  rw [AtMostOneJob]
  omega

/-- As long as the clears of the flag wait for the jobs, there is at most one. -/
theorem at_most_one_parse_job {high : Bool} {actions : List Action}
    (h : Along step ClearsWait (start high) actions) :
    Throughout step AtMostOneJob (start high) actions :=
  (throughout_of_along (fun hs hwait hstep => hs.step hwait hstep) (coalesced_start high) h).mono
    fun _ hs => atMostOneJob_of_outstanding hs.outstanding

/-- An alert, its job, and the next alert. -/
theorem at_most_one_parse_job_rearmed :
    Throughout step AtMostOneJob (start true)
      (firstAlert ++ .rise :: .deliver :: List.replicate 5 (.thread .handler true) ++
        [.fall, .deliver] ++ List.replicate 6 (.thread .handler true) ++ [.callQueuePop]) :=
  at_most_one_parse_job (by decide)

/-! ### A bouncing line -/

/-- The end of `bq27742_g1_init` on a line that is high. -/
def initDone : List Action := [.thread .init true, .thread .init true]

/-- The line falls and rises, and core0 hears both. -/
def bounce : List Action :=
  [.fall, .deliver] ++ List.replicate 6 (.thread .handler true) ++ [.rise, .deliver] ++
    List.replicate 5 (.thread .handler true)

/-- The line high again, with the `n` alerts it has given still queued. -/
def bounced (n : Nat) : State where
  high := true
  latched := fun _ => false
  enabled := fun
    | .core0, .fall => true
    | _, _ => false
  interruptPending := false
  queued := n
  script := fun _ => []
  read := n == 0

theorem eq_bounced {n : Nat} (hhigh : s.high = true)
    (hlatched : s.latched .fall = false ∧ s.latched .rise = false)
    (hcore0 : s.enabled .core0 .fall = true ∧ s.enabled .core0 .rise = false)
    (hcore1 : s.enabled .core1 .fall = false ∧ s.enabled .core1 .rise = false)
    (hpending : s.interruptPending = false) (hqueued : s.queued = n)
    (hscript : s.script .init = [] ∧ s.script .handler = [] ∧ s.script .job = [])
    (hread : s.read = (n == 0)) : s = bounced n := by
  have hl : s.latched = (bounced n).latched := by
    funext e
    cases e with
    | fall => exact hlatched.1
    | rise => exact hlatched.2
  have he : s.enabled = (bounced n).enabled := by
    funext c e
    cases c with
    | core0 =>
      cases e with
      | fall => exact hcore0.1
      | rise => exact hcore0.2
    | core1 =>
      cases e with
      | fall => exact hcore1.1
      | rise => exact hcore1.2
  have hs : s.script = (bounced n).script := by
    funext th
    cases th with
    | init => exact hscript.1
    | handler => exact hscript.2.1
    | job => exact hscript.2.2
  cases s
  simp only at hhigh hl he hpending hqueued hs hread
  rw [hhigh, hl, he, hpending, hqueued, hs, hread]
  rfl

theorem run_initDone : run step (start true) initDone = some (bounced 0) :=
  congrArg some
    (eq_bounced rfl ⟨rfl, rfl⟩ ⟨rfl, rfl⟩ ⟨rfl, rfl⟩ rfl rfl ⟨rfl, rfl, rfl⟩ rfl)

theorem run_bounce (n : Nat) : run step (bounced n) bounce = some (bounced (n + 1)) :=
  congrArg some
    (eq_bounced rfl ⟨rfl, rfl⟩ ⟨rfl, rfl⟩ ⟨rfl, rfl⟩ rfl rfl ⟨rfl, rfl, rfl⟩ rfl)

/-- Nothing but the room in `call_queue` bounds the jobs that a bouncing line queues. -/
theorem run_bounces (n : Nat) :
    run step (start true) (initDone ++ (List.replicate n bounce).flatten) =
      some (bounced n) := by
  rw [run_append, run_initDone, Option.bind_some]
  induction n with
  | zero => rfl
  | succ n ih =>
    rw [List.replicate_succ', List.flatten_concat, run_append, ih, Option.bind_some, run_bounce]

/-- The second fall finds the flag cleared by the rise, with the first job still queued; so
does every further one, until the jobs are as many as `call_queue` holds. -/
theorem bouncing_line_queues_many_jobs :
    ¬ Throughout step AtMostOneJob (start true) (initDone ++ bounce ++ bounce) ∧
      ∃ s, run step (start true) (initDone ++ (List.replicate 256 bounce).flatten) = some s ∧
        s.queued = 256 :=
  ⟨by decide, bounced 256, run_bounces 256, rfl⟩

end State

end SrFirmware.Bq27742
