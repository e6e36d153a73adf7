import SrFirmware.Lib.Steps
import SrFirmware.Crc
import Mathlib.Logic.Function.Basic

/-!
# The interrupt line of the MAX77958

INTB is low while an unmasked interrupt bit is set, and core0 is told of its falling edges
only. A step is a bit raised by the device, a step of the handler on core0, or the read of
one register: `get_interrupt_vals` reads them in address order and a read clears. The bytes
read and the jobs of the other drivers are left out.
-/

namespace SrFirmware.Max77958.Irq

open Lib
set_option autoImplicit false

inductive IntReg where
  | uicInt
  | ccInt
  | pdInt
  deriving DecidableEq

def addressOrder : List IntReg := [.uicInt, .ccInt, .pdInt]

/-- `set_interrupt_masks` -/
def IntReg.mask : IntReg → Byte
  | .uicInt => 0b00000100
  | .ccInt => 0b00000000
  | .pdInt => 0b00111111

def unmasked (regs : IntReg → Byte) (r : IntReg) : Byte := regs r &&& ~~~ r.mask

def intbHigh (regs : IntReg → Byte) : Bool := addressOrder.all fun r => unmasked regs r = 0

inductive Handler where
  | idle
  | entered
  -- past `gpio_acknowledge_irq`
  | acknowledged
  deriving DecidableEq

structure State where
  regs : IntReg → Byte
  latched : Bool
  handler : Handler
  queued : Nat
  -- what the read in `max77958_init` has yet to reach
  init : List IntReg
  -- the same for the job that core1 runs, if any
  job : Option (List IntReg)

/-- In `max77958_init`, right after `gpio_set_irq_enabled`: what was set before has no edge. -/
def armed (regs : IntReg → Byte) : State where
  regs := regs
  latched := false
  handler := .idle
  queued := 0
  init := addressOrder
  job := none

inductive Action where
  | raise (r : IntReg) (bits : Byte)
  | deliver
  | handler
  | init
  | callQueuePop
  | job

namespace State

def raise (s : State) (r : IntReg) (bits : Byte) : State :=
  let regs := Function.update s.regs r (s.regs r ||| bits)
  { s with regs := regs, latched := s.latched || (intbHigh s.regs && !intbHigh regs) }

def read (s : State) (r : IntReg) : State := { s with regs := Function.update s.regs r 0 }

def step (s : State) : Action → Option State
  | .raise r bits => some (s.raise r bits)
  | .deliver =>
    if s.latched = true ∧ s.handler = .idle then some { s with handler := .entered } else none
  | .handler =>
    match s.handler with
    | .idle => none
    | .entered => some { s with latched := false, handler := .acknowledged }
    | .acknowledged => some { s with queued := s.queued + 1, handler := .idle }
  | .init =>
    -- the handler interrupts core0
    match s.handler, s.init with
    | .idle, r :: rest => some ({ s with init := rest }.read r)
    | _, _ => none
  | .callQueuePop =>
    match s.queued, s.job with
    | n + 1, none => some { s with queued := n, job := some addressOrder }
    | _, _ => none
  | .job =>
    match s.job with
    | none => none
    | some [] => some { s with job := none }
    | some (r :: rest) => some ({ s with job := some rest }.read r)

def Pending (s : State) : Prop := s.latched = true ∨ s.handler ≠ .idle ∨ 0 < s.queued

/-- After `max77958_init`, with no edge on its way and no job queued or running. -/
def Quiet (s : State) : Prop := ¬ s.Pending ∧ s.init = [] ∧ s.job = none

def NoInterruptLost (s : State) : Prop :=
  s.Quiet → (∀ r, unmasked s.regs r = 0) ∧ intbHigh s.regs = true

def ahead (s : State) : List IntReg := s.init ++ s.job.getD []

/-- An unmasked bit is raised only while INTB is high, while a read of all registers is still
to start, or ahead of a read under way. -/
def RaisedAhead (s : State) : Action → Prop
  | .raise r bits =>
    bits &&& ~~~ r.mask = 0 ∨ intbHigh s.regs = true ∨ s.Pending ∨ r ∈ s.ahead
  | _ => True

instance (s : State) : Decidable s.Pending := inferInstanceAs (Decidable (_ ∨ _ ∨ _))

instance (s : State) (a : Action) : Decidable (s.RaisedAhead a) :=
  match a with
  | .raise _ _ => inferInstanceAs (Decidable (_ ∨ _ ∨ _ ∨ _))
  | .deliver | .handler | .init | .callQueuePop | .job => .isTrue trivial

end State

/-! ### The line -/

theorem mem_addressOrder (r : IntReg) : r ∈ addressOrder := by cases r <;> decide

theorem intbHigh_iff (regs : IntReg → Byte) :
    intbHigh regs = true ↔ ∀ r, unmasked regs r = 0 := by
  simp only [intbHigh, List.all_eq_true, decide_eq_true_eq]
  exact ⟨fun h r => h r (mem_addressOrder r), fun h r _ => h r⟩

theorem unmasked_update_self (regs : IntReg → Byte) (r : IntReg) (b : Byte) :
    unmasked (Function.update regs r b) r = b &&& ~~~ r.mask := by
  simp [unmasked]

theorem unmasked_update_of_ne (regs : IntReg → Byte) {r q : IntReg} (h : q ≠ r) (b : Byte) :
    unmasked (Function.update regs r b) q = unmasked regs q := by
  simp [unmasked, h]

theorem unmasked_raise_self (regs : IntReg → Byte) (r : IntReg) (bits : Byte) :
    unmasked (Function.update regs r (regs r ||| bits)) r =
      unmasked regs r ||| (bits &&& ~~~ r.mask) := by
  rw [unmasked_update_self, BitVec.and_or_distrib_right]
  rfl

theorem unmasked_raise {regs : IntReg → Byte} {r : IntReg} {bits : Byte}
    (h : bits &&& ~~~ r.mask = 0) :
    unmasked (Function.update regs r (regs r ||| bits)) = unmasked regs := by
  funext q
  by_cases hq : q = r
  · subst hq
    rw [unmasked_raise_self, h]
    exact BitVec.or_zero
  · exact unmasked_update_of_ne regs hq _

namespace State

/-! ### Every bit is ahead of a read -/

/-- While no read of all registers is still to start, what is set lies ahead of one under way. -/
def Covered (s : State) : Prop := s.Pending ∨ ∀ r, unmasked s.regs r ≠ 0 → r ∈ s.ahead

theorem covered_armed (regs : IntReg → Byte) : (armed regs).Covered :=
  .inr fun r _ => List.mem_append_left _ (mem_addressOrder r)

theorem Covered.raise {s : State} (h : s.Covered) {r : IntReg} {bits : Byte}
    (hok : s.RaisedAhead (.raise r bits)) : (s.raise r bits).Covered := by
  have hkept : s.Pending → (s.raise r bits).Pending := by
    rintro (hlatched | hrest)
    · exact .inl (by simp [State.raise, hlatched])
    · exact .inr hrest
  rcases h with hpending | hahead
  · exact .inl (hkept hpending)
  rcases hok with hmasked | hhigh | hpending | hmem
  · exact .inr fun q hq => hahead q (by simpa only [State.raise, unmasked_raise hmasked] using hq)
  · -- either the line falls, or nothing is set
    by_cases hstill : intbHigh (s.raise r bits).regs = true
    · exact .inr fun q hq => absurd ((intbHigh_iff _).mp hstill q) hq
    · refine .inl (.inl ?_)
      rw [Bool.not_eq_true] at hstill
      change (s.latched || (intbHigh s.regs && !intbHigh (s.raise r bits).regs)) = true
      rw [hhigh, hstill]
      exact Bool.or_true _
  · exact .inl (hkept hpending)
  · refine .inr ?_
    intro q hq
    by_cases hqr : q = r
    · exact hqr ▸ hmem
    · exact hahead q (unmasked_update_of_ne s.regs hqr _ ▸ hq)

theorem Covered.read {s u : State} (h : s.Covered) {r : IntReg} (hregs : u.regs = s.regs)
    (hpending : s.Pending → u.Pending) (hahead : ∀ q ∈ s.ahead, q = r ∨ q ∈ u.ahead) :
    (u.read r).Covered := by
  rcases h with hp | h
  · exact .inl (hpending hp)
  refine .inr ?_
  intro q hq
  by_cases hqr : q = r
  · subst hqr
    refine absurd ?_ hq
    rw [State.read, unmasked_update_self]
    exact BitVec.zero_and
  · rw [State.read, unmasked_update_of_ne u.regs hqr, hregs] at hq
    exact (hahead q (h q hq)).resolve_left hqr

theorem Covered.step {s t : State} {a : Action} (h : s.Covered) (hok : s.RaisedAhead a)
    (hstep : s.step a = some t) : t.Covered := by
  cases a with
  | raise r bits =>
    obtain rfl := Option.some.inj hstep
    exact h.raise hok
  | deliver =>
    simp only [State.step] at hstep
    split at hstep
    · obtain rfl := Option.some.inj hstep
      exact .inl (.inr (.inl nofun))
    · cases hstep
  | handler =>
    cases hpc : s.handler with
    | idle => simp [State.step, hpc] at hstep
    | entered =>
      simp only [State.step, hpc, Option.some.injEq] at hstep
      subst hstep
      exact .inl (.inr (.inl nofun))
    | acknowledged =>
      simp only [State.step, hpc, Option.some.injEq] at hstep
      subst hstep
      exact .inl (.inr (.inr (Nat.succ_pos _)))
  | init =>
    simp only [State.step] at hstep
    split at hstep
    · rename_i r rest _ hinit
      obtain rfl := Option.some.inj hstep
      refine h.read rfl id ?_
      intro q hq
      simp only [ahead, hinit, List.cons_append, List.mem_cons] at hq
      exact hq
    · cases hstep
  | callQueuePop =>
    simp only [State.step] at hstep
    split at hstep
    · obtain rfl := Option.some.inj hstep
      exact .inr fun r _ => List.mem_append_right _ (mem_addressOrder r)
    · cases hstep
  | job =>
    simp only [State.step] at hstep
    split at hstep
    · cases hstep
    · rename_i hjob
      obtain rfl := Option.some.inj hstep
      apply h.imp id
      intro h r hr
      have hmem := h r hr
      rw [ahead, hjob] at hmem
      exact hmem
    · rename_i r rest hjob
      obtain rfl := Option.some.inj hstep
      refine h.read rfl id ?_
      intro q hq
      simp only [ahead, hjob, Option.getD_some, List.mem_append, List.mem_cons] at hq ⊢
      rcases hq with hq | rfl | hq
      · exact .inr (.inl hq)
      · exact .inl rfl
      · exact .inr (.inr hq)

theorem Covered.noInterruptLost {s : State} (h : s.Covered) : s.NoInterruptLost := by
  rintro ⟨hpending, hinit, hjob⟩
  have hclear : ∀ r, unmasked s.regs r = 0 := by
    intro r
    by_contra hr
    have hmem := h.resolve_left hpending r hr
    simp [ahead, hinit, hjob] at hmem
  exact ⟨hclear, (intbHigh_iff s.regs).mpr hclear⟩

/-- In a run whose unmasked bits are all raised while INTB is high, while a read is still to
start, or ahead of a read under way, no interrupt is lost. -/
theorem no_interrupt_lost (regs : IntReg → Byte) {actions : List Action}
    (h : Along step RaisedAhead (armed regs) actions) :
    Throughout step NoInterruptLost (armed regs) actions :=
  (throughout_of_along (fun hs hok hstep => hs.step hok hstep) (covered_armed regs) h).mono
    fun _ hs => hs.noInterruptLost

/-- A second cause raised while the first is being read, in a register still ahead. -/
theorem no_interrupt_lost_second :
    Throughout step NoInterruptLost (armed fun _ => 0)
      [.init, .init, .init, .raise .ccInt 0b1, .deliver, .handler, .handler, .callQueuePop,
        .job, .raise .pdInt 0b10000000, .job, .job, .job] :=
  no_interrupt_lost (fun _ => 0) (by decide)

/-- A message arrives, and while the job is between `UIC_INT` and `PD_INT` the response to a
command: its bit stays set, INTB stays low, and no edge will come. -/
theorem interrupt_lost :
    ¬ Throughout step NoInterruptLost (armed fun _ => 0)
      [.init, .init, .init, .raise .pdInt 0b10000000, .deliver, .handler, .handler, .callQueuePop,
        .job, .raise .uicInt 0b10000000, .job, .job, .job] := by
  intro h
  have hrun : ∃ t, run step (armed fun _ => 0)
      [.init, .init, .init, .raise .pdInt 0b10000000, .deliver, .handler, .handler, .callQueuePop,
        .job, .raise .uicInt 0b10000000, .job, .job, .job] = some t ∧
      (¬ t.Pending ∧ t.init = [] ∧ t.job = none) ∧ intbHigh t.regs = false :=
    ⟨_, rfl, by decide, rfl⟩
  obtain ⟨t, ht, hquiet, hlow⟩ := hrun
  exact absurd ((h.last ht) hquiet).2 (by simp [hlow])

/-! ### The other raises -/

/-- INTB is held low by a register that nothing will read. -/
def Deaf (s : State) : Prop :=
  ¬ s.Pending ∧ ∃ r, unmasked s.regs r ≠ 0 ∧ r ∉ s.ahead

/-- A raise that the condition leaves out makes the controller deaf. -/
theorem deaf_of_not_raisedAhead {s t : State} {a : Action} (hok : ¬ s.RaisedAhead a)
    (hstep : s.step a = some t) : t.Deaf := by
  cases a with
  | raise r bits =>
    obtain rfl := Option.some.inj hstep
    simp only [RaisedAhead, not_or] at hok
    obtain ⟨hbits, hlow, hpending, hmem⟩ := hok
    rw [Bool.not_eq_true] at hlow
    refine ⟨?_, r, ?_, hmem⟩
    · simpa [Pending, State.raise, hlow] using hpending
    · rw [State.raise, unmasked_raise_self]
      exact fun h => hbits (BitVec.or_eq_zero_iff.mp h).2
  | deliver | handler | init | callQueuePop | job => exact absurd trivial hok

theorem Deaf.intbHigh_eq {s : State} (h : s.Deaf) : intbHigh s.regs = false := by
  obtain ⟨-, r, hr, -⟩ := h
  rw [← Bool.not_eq_true, intbHigh_iff]
  exact fun hall => hr (hall r)

theorem Deaf.read {s u : State} (h : s.Deaf) {q : IntReg} (hq : q ∈ s.ahead)
    (hregs : u.regs = s.regs) (hpending : u.Pending → s.Pending) (hahead : u.ahead ⊆ s.ahead) :
    (u.read q).Deaf := by
  obtain ⟨hp, r, hr, hmem⟩ := h
  have hne : r ≠ q := fun hrq => hmem (hrq ▸ hq)
  refine ⟨fun hu => hp (hpending hu), r, ?_, fun hr' => hmem (hahead hr')⟩
  rw [State.read, unmasked_update_of_ne u.regs hne, hregs]
  exact hr

theorem Deaf.step {s t : State} {a : Action} (h : s.Deaf) (hstep : s.step a = some t) :
    t.Deaf := by
  have hlow := h.intbHigh_eq
  have ⟨hpending, r, hr, hmem⟩ := h
  simp only [Pending, not_or, not_not] at hpending
  obtain ⟨hlatched, hidle, hqueued⟩ := hpending
  cases a with
  | raise q bits =>
    obtain rfl := Option.some.inj hstep
    refine ⟨by simp [Pending, State.raise, hlow, hlatched, hidle, hqueued], r, ?_, hmem⟩
    by_cases hrq : r = q
    · subst hrq
      rw [State.raise, unmasked_raise_self]
      exact fun hz => hr (BitVec.or_eq_zero_iff.mp hz).1
    · rw [State.raise, unmasked_update_of_ne s.regs hrq]
      exact hr
  | deliver => simp [State.step, hlatched] at hstep
  | handler => simp [State.step, hidle] at hstep
  | init =>
    simp only [State.step] at hstep
    split at hstep
    · rename_i q rest _ hinit
      obtain rfl := Option.some.inj hstep
      refine h.read (q := q) (by simp [ahead, hinit]) rfl id ?_
      intro x hx
      simp only [ahead, hinit, List.cons_append] at hx ⊢
      exact List.mem_cons_of_mem q hx
    · cases hstep
  | callQueuePop =>
    have hnone : s.queued = 0 := by omega
    simp [State.step, hnone] at hstep
  | job =>
    simp only [State.step] at hstep
    split at hstep
    · cases hstep
    · rename_i hjob
      obtain rfl := Option.some.inj hstep
      refine ⟨h.1, r, hr, fun hr' => hmem ?_⟩
      rw [ahead, hjob]
      exact hr'
    · rename_i q rest hjob
      obtain rfl := Option.some.inj hstep
      refine h.read (q := q) (by simp [ahead, hjob]) rfl id ?_
      intro x hx
      simp only [ahead, hjob, Option.getD_some, List.mem_append, List.mem_cons] at hx ⊢
      exact hx.imp id .inr

/-- Whatever follows, INTB stays low, and nothing is latched or queued. -/
theorem deaf_for_ever {s : State} (h : s.Deaf) (actions : List Action) :
    Throughout step (fun t => intbHigh t.regs = false ∧ ¬ t.Pending) s actions :=
  (throughout_of_step (fun hs hstep => hs.step hstep) h).mono
    fun _ hs => ⟨hs.intbHigh_eq, hs.1⟩

end State

end SrFirmware.Max77958.Irq
