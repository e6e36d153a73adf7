import SrFirmware.Crc
import SrFirmware.Lib.Steps
import Mathlib.Data.List.Infix
import Mathlib.Logic.Function.Basic

/-!
# Motor faults, `drv8830.c` outside the scope test build

A motor driver latches fault bits at any moment. `drv8830_get_faults` on core0 reads both
FAULT registers and then clears both; `drv8830_fault_handler` on core1 clears a register in
which it has found no active fault. Each operation is one transfer.
-/

namespace SrFirmware.Drv8830

open Lib
set_option autoImplicit false

inductive Motor where
  | left
  | right
  deriving DecidableEq

def motors : List Motor := [.left, .right]

def faultBitFault : Nat := 0

inductive Op where
  -- sets the driver's register pointer to FAULT
  | setPointer (m : Motor)
  -- reads into `fault_values`
  | readFaults (m : Motor)
  | clear (m : Motor)
  -- reads the cleared register, and asserts that no fault is active in it
  | readBack (m : Motor)
  -- the read of the fault handler
  | readFault (m : Motor)
  -- its clear, for an interrupt without an active fault
  | clearStatus (m : Motor)
  deriving DecidableEq

def clearFaults : List Op := motors.flatMap fun m => [.clear m, .setPointer m, .readBack m]

def getFaults : List Op := (motors.flatMap fun m => [.setPointer m, .readFaults m]) ++ clearFaults

/-- `none` is a pin of neither motor. -/
def faultHandler : Option Motor → List Op
  | none => []
  | some m => [.setPointer m, .readFault m]

/-- A fault latched with the FAULT bit set and not cleared since. -/
structure Fault where
  bits : Byte
  -- it has been read as an active fault by the fault handler
  handled : Bool
  deriving DecidableEq

def Fault.In (f : Fault) (byte : Byte) : Prop := f.bits &&& byte = f.bits

instance (f : Fault) (byte : Byte) : Decidable (f.In byte) := inferInstanceAs (Decidable (_ = _))

theorem Fault.In.or {f : Fault} {byte : Byte} (h : f.In byte) (more : Byte) :
    f.In (byte ||| more) := by
  apply BitVec.eq_of_getLsbD_eq
  intro i hi
  have hbit := congrArg (fun x => x.getLsbD i) h
  simp only [BitVec.getLsbD_and, BitVec.getLsbD_or] at hbit ⊢
  rw [Bool.and_or_distrib_left, hbit]
  cases f.bits.getLsbD i <;> simp

structure State where
  assertions : Bool
  fault : Motor → Byte
  faultValues : Motor → Byte
  -- what each core has yet to do
  core0 : List Op
  core1 : List Op
  -- only for the statements
  latched : Motor → List Fault
  clearedUnseen : Bool

def start (assertions : Bool) (fault faultValues : Motor → Byte) : State where
  assertions := assertions
  fault := fault
  faultValues := faultValues
  core0 := []
  core1 := []
  latched := fun _ => []
  clearedUnseen := false

inductive Action where
  -- the driver latches fault bits
  | latch (m : Motor) (bits : Byte)
  | getFaults
  | faultHandler (gpio : Option Motor)
  | core0
  | core1
  deriving DecidableEq

namespace State

/-! ### Steps -/

/-- A write of the CLEAR bit; the faults that `seen` leaves out are cleared unseen. -/
def clearFault (s : State) (m : Motor) (seen : Fault → Bool) : State :=
  { s with
    fault := Function.update s.fault m 0
    latched := Function.update s.latched m []
    clearedUnseen := s.clearedUnseen || (s.latched m).any fun f => !seen f }

def handle (s : State) (m : Motor) : State :=
  { s with latched :=
      Function.update s.latched m ((s.latched m).map fun f => { f with handled := true }) }

def active (s : State) (m : Motor) : Bool := (s.fault m).getLsbD faultBitFault

def perform (s : State) : Op → State
  | .setPointer _ | .readBack _ => s
  | .readFaults m => { s with faultValues := Function.update s.faultValues m (s.fault m) }
  | .clear m => s.clearFault m fun f => f.handled || decide (f.In (s.faultValues m))
  | .readFault m => if s.active m then s.handle m else s
  | .clearStatus m => s.clearFault m Fault.handled

def expand (s : State) : Op → List Op
  | .readFault m => if s.active m then [] else [.clearStatus m]
  | _ => []

/-- A failed assertion stops the core for good. -/
def stops (s : State) : Op → Bool
  | .readBack m => s.assertions && s.active m
  | _ => false

def latch (s : State) (m : Motor) (bits : Byte) : State :=
  { s with
    fault := Function.update s.fault m (s.fault m ||| bits)
    latched :=
      if bits.getLsbD faultBitFault then
        Function.update s.latched m (s.latched m ++ [⟨bits, false⟩])
      else s.latched }

def step (s : State) : Action → Option State
  | .latch m bits => some (s.latch m bits)
  | .getFaults => if s.core0 = [] then some { s with core0 := Drv8830.getFaults } else none
  | .faultHandler gpio =>
    if s.core1 = [] then some { s with core1 := Drv8830.faultHandler gpio } else none
  | .core0 =>
    match s.core0 with
    | [] => none
    | op :: rest =>
      if s.stops op then none else some { s.perform op with core0 := s.expand op ++ rest }
  | .core1 =>
    match s.core1 with
    | [] => none
    | op :: rest =>
      if s.stops op then none else some { s.perform op with core1 := s.expand op ++ rest }

/-! ### Faults cleared unseen -/

def NoneClearedUnseen (s : State) : Prop := s.clearedUnseen = false

instance (s : State) : Decidable s.NoneClearedUnseen := inferInstanceAs (Decidable (_ = _))

/-- Between an agent's read of the register and its clear of it a fault only repeats bits
that the read has found. -/
def OutsideGaps (s : State) : Action → Prop
  | .latch m bits =>
    bits.getLsbD faultBitFault = true →
      (.clear m ∈ s.core0 → .readFaults m ∉ s.core0 → bits &&& s.faultValues m = bits) ∧
        .clearStatus m ∉ s.core1
  | _ => True

instance (s : State) (a : Action) : Decidable (s.OutsideGaps a) :=
  match a with
  | .latch _ _ => inferInstanceAs (Decidable (_ → (_ → _ → _) ∧ _))
  | .getFaults | .faultHandler _ | .core0 | .core1 => .isTrue trivial

structure Inv (s : State) : Prop where
  seen : s.NoneClearedUnseen
  latched : ∀ m, ∀ f ∈ s.latched m, f.bits.getLsbD faultBitFault = true ∧ f.In (s.fault m)
  -- core0 has read and will clear
  gap0 : ∀ m, .clear m ∈ s.core0 → .readFaults m ∉ s.core0 →
    ∀ f ∈ s.latched m, f.handled = true ∨ f.In (s.faultValues m)
  -- core1 has read and will clear
  gap1 : ∀ m, .clearStatus m ∈ s.core1 → ∀ f ∈ s.latched m, f.handled = true
  script0 : s.core0 ∈ Drv8830.getFaults.tails
  script1 : ∀ op ∈ s.core1, ∃ m, op = .setPointer m ∨ op = .readFault m ∨ op = .clearStatus m

variable {s t : State}

theorem inv_start (assertions : Bool) (fault faultValues : Motor → Byte) :
    (start assertions fault faultValues).Inv :=
  ⟨rfl, nofun, nofun, nofun, (List.mem_tails _ _).mpr List.nil_suffix, nofun⟩

theorem readFaults_before_clear {m : Motor} {rest : List Op}
    (h : .clear m :: rest ∈ Drv8830.getFaults.tails) : .readFaults m ∉ rest := by
  have hall : ∀ script ∈ Drv8830.getFaults.tails, script.head? = some (.clear m) →
      .readFaults m ∉ script := by
    cases m <;> decide
  exact fun hmem => hall _ h rfl (List.mem_cons_of_mem _ hmem)

/-! ### Scripts going on -/

theorem Inv.rest0 (hi : s.Inv) {op : Op} {rest : List Op} (hs : s.core0 = op :: rest)
    (hop : ∀ m, op ≠ .readFaults m) : { s with core0 := rest }.Inv := by
  obtain ⟨hseen, hlatched, hgap0, hgap1, hscript0, hscript1⟩ := hi
  rw [hs] at hgap0 hscript0
  refine ⟨hseen, hlatched, ?_, hgap1, ?_, hscript1⟩
  · intro m hclear hread
    apply hgap0 m (List.mem_cons_of_mem _ hclear)
    intro hmem
    rcases List.mem_cons.mp hmem with heq | hmem
    · exact hop m heq.symm
    · exact hread hmem
  · rw [List.mem_tails] at hscript0 ⊢
    exact (List.suffix_cons op rest).trans hscript0

theorem Inv.rest1 (hi : s.Inv) {op : Op} {rest : List Op} (hs : s.core1 = op :: rest) :
    { s with core1 := rest }.Inv := by
  obtain ⟨hseen, hlatched, hgap0, hgap1, hscript0, hscript1⟩ := hi
  rw [hs] at hgap1 hscript1
  exact ⟨hseen, hlatched, hgap0, fun m hm => hgap1 m (List.mem_cons_of_mem _ hm), hscript0,
    fun x hx => hscript1 x (List.mem_cons_of_mem _ hx)⟩

/-! ### One transfer -/

/-- A clear that its agent's read covers loses nothing and leaves no fault behind. -/
theorem inv_clearFault (hi : s.Inv) {m : Motor} {seen : Fault → Bool}
    (hall : ∀ f ∈ s.latched m, seen f = true) : (s.clearFault m seen).Inv := by
  obtain ⟨hseen, hlatched, hgap0, hgap1, hscript0, hscript1⟩ := hi
  have hsub : ∀ m', ∀ f ∈ (s.clearFault m seen).latched m', m' ≠ m ∧ f ∈ s.latched m' := by
    intro m' f hf
    by_cases hm : m' = m
    · subst hm
      simp [clearFault] at hf
    · exact ⟨hm, by simpa [clearFault, Function.update_of_ne hm] using hf⟩
  refine ⟨?_, ?_, ?_, ?_,
    hscript0, hscript1⟩
  · have hnone : (s.latched m).any (fun f => !seen f) = false := by
      rw [List.any_eq_false]
      intro f hf
      simp [hall f hf]
    change (s.clearedUnseen || _) = false
    rw [hnone, Bool.or_false]
    exact hseen
  · intro m' f hf
    obtain ⟨hm, hf⟩ := hsub m' f hf
    have hkeep : (s.clearFault m seen).fault m' = s.fault m' := Function.update_of_ne hm _ _
    rw [hkeep]
    exact hlatched m' f hf
  · intro m' hclear hread f hf
    exact hgap0 m' hclear hread f (hsub m' f hf).2
  · intro m' hclear f hf
    exact hgap1 m' hclear f (hsub m' f hf).2

theorem inv_readFaults (hi : s.Inv) {m : Motor} {rest : List Op}
    (hs : s.core0 = .readFaults m :: rest) :
    { s with
      faultValues := Function.update s.faultValues m (s.fault m)
      core0 := rest }.Inv := by
  obtain ⟨hseen, hlatched, hgap0, hgap1, hscript0, hscript1⟩ := hi
  rw [hs] at hgap0 hscript0
  refine ⟨hseen, hlatched, ?_, hgap1, ?_, hscript1⟩
  · intro m' hclear hread f hf
    by_cases hm : m' = m
    · subst hm
      simp only [Function.update_self]
      exact .inr (hlatched m' f hf).2
    · simp only [Function.update_of_ne hm]
      refine hgap0 m' (List.mem_cons_of_mem _ hclear) ?_ f hf
      intro hmem
      rcases List.mem_cons.mp hmem with heq | hmem
      · exact hm (Op.readFaults.inj heq)
      · exact hread hmem
  · rw [List.mem_tails] at hscript0 ⊢
    exact (List.suffix_cons _ rest).trans hscript0

theorem inv_handle (hi : s.Inv) (m : Motor) : (s.handle m).Inv := by
  obtain ⟨hseen, hlatched, hgap0, hgap1, hscript0, hscript1⟩ := hi
  have hcases : ∀ m', ∀ f ∈ (s.handle m).latched m', f ∈ s.latched m' ∨
      f.handled = true ∧ ∃ f' ∈ s.latched m', f.bits = f'.bits := by
    intro m' f hf
    by_cases hm : m' = m
    · subst hm
      simp only [handle, Function.update_self] at hf
      obtain ⟨f', hf', rfl⟩ := List.mem_map.mp hf
      exact .inr ⟨rfl, f', hf', rfl⟩
    · simp only [handle, Function.update_of_ne hm] at hf
      exact .inl hf
  refine ⟨hseen, ?_, ?_, ?_,
    hscript0, hscript1⟩
  · intro m' f hf
    rcases hcases m' f hf with hf | ⟨-, f', hf', hbits⟩
    · exact hlatched m' f hf
    · have hf'' := hlatched m' f' hf'
      rwa [Fault.In, ← hbits] at hf''
  · intro m' hclear hread f hf
    rcases hcases m' f hf with hf | ⟨hhandled, -⟩
    · exact hgap0 m' hclear hread f hf
    · exact .inl hhandled
  · intro m' hclear f hf
    rcases hcases m' f hf with hf | ⟨hhandled, -⟩
    · exact hgap1 m' hclear f hf
    · exact hhandled

/-- Without an active fault nothing is latched that the coming clear could lose. -/
theorem latched_eq_nil (hi : s.Inv) {m : Motor} (h : s.active m = false) : s.latched m = [] := by
  rw [List.eq_nil_iff_forall_not_mem]
  intro f hf
  obtain ⟨hbit, hin⟩ := hi.latched m f hf
  rw [← hin, BitVec.getLsbD_and] at hbit
  rw [active] at h
  simp [h] at hbit

theorem inv_clearStatus_due (hi : s.Inv) {m : Motor} (h : s.active m = false) :
    { s with core1 := .clearStatus m :: s.core1 }.Inv := by
  have hnil := latched_eq_nil hi h
  refine ⟨hi.seen, hi.latched, hi.gap0, ?_, hi.script0, ?_⟩
  · intro m' hclear f hf
    rcases List.mem_cons.mp hclear with heq | hclear
    · obtain rfl := Op.clearStatus.inj heq
      change f ∈ s.latched m' at hf
      rw [hnil] at hf
      cases hf
    · exact hi.gap1 m' hclear f hf
  · intro op hop
    rcases List.mem_cons.mp hop with rfl | hop
    · exact ⟨m, .inr (.inr rfl)⟩
    · exact hi.script1 op hop

/-! ### Steps keep the invariant -/

theorem inv_latch (hi : s.Inv) {m : Motor} {bits : Byte}
    (hok : bits.getLsbD faultBitFault = true →
      (.clear m ∈ s.core0 → .readFaults m ∉ s.core0 → bits &&& s.faultValues m = bits) ∧
        .clearStatus m ∉ s.core1) : (s.latch m bits).Inv := by
  obtain ⟨hseen, hlatched, hgap0, hgap1, hscript0, hscript1⟩ := hi
  have hcases : ∀ m', ∀ f ∈ (s.latch m bits).latched m', f ∈ s.latched m' ∨
      m' = m ∧ f = ⟨bits, false⟩ ∧ bits.getLsbD faultBitFault = true := by
    intro m' f hf
    simp only [latch] at hf
    split at hf
    · rename_i hbit
      by_cases hm : m' = m
      · subst hm
        rw [Function.update_self, List.mem_append, List.mem_singleton] at hf
        exact hf.imp id fun heq => ⟨rfl, heq, hbit⟩
      · rw [Function.update_of_ne hm] at hf
        exact .inl hf
    · exact .inl hf
  have hgrow : ∀ m', ∀ f : Fault, f.In (s.fault m') → f.In ((s.latch m bits).fault m') := by
    intro m' f hf
    by_cases hm : m' = m
    · subst hm
      simp only [latch, Function.update_self]
      exact hf.or bits
    · simpa [latch, Function.update_of_ne hm] using hf
  refine ⟨hseen, ?_, ?_, ?_,
    hscript0, hscript1⟩
  · intro m' f hf
    rcases hcases m' f hf with hf | ⟨rfl, rfl, hbit⟩
    · exact ⟨(hlatched m' f hf).1, hgrow m' _ (hlatched m' f hf).2⟩
    · refine ⟨hbit, ?_⟩
      simp only [latch, Function.update_self]
      rw [BitVec.or_comm]
      exact Fault.In.or (BitVec.and_self) _
  · intro m' hclear hread f hf
    rcases hcases m' f hf with hf | ⟨rfl, rfl, hbit⟩
    · exact hgap0 m' hclear hread f hf
    · exact .inr ((hok hbit).1 hclear hread)
  · intro m' hclear f hf
    rcases hcases m' f hf with hf | ⟨rfl, rfl, hbit⟩
    · exact hgap1 m' hclear f hf
    · exact absurd hclear (hok hbit).2

theorem inv_core0 (hi : s.Inv) (h : s.step .core0 = some t) : t.Inv := by
  simp only [step] at h
  split at h
  · cases h
  · rename_i op rest hs
    split at h
    · cases h
    · obtain rfl := Option.some.inj h
      cases op with
      | setPointer m | readBack m => exact hi.rest0 hs nofun
      | readFaults m => exact inv_readFaults hi hs
      | clear m =>
        have hclear : .clear m ∈ s.core0 := by
          rw [hs]
          exact List.mem_cons_self
        have hread : .readFaults m ∉ s.core0 := by
          rw [hs]
          have hscript := hi.script0
          rw [hs] at hscript
          simpa using readFaults_before_clear hscript
        apply inv_clearFault (hi.rest0 hs nofun)
        intro f hf
        simpa using hi.gap0 m hclear hread f hf
      | readFault m | clearStatus m =>
        have hscript := hi.script0
        rw [hs] at hscript
        exact absurd ((List.mem_tails _ _).mp hscript |>.subset List.mem_cons_self)
          (by cases m <;> decide)

theorem inv_core1 (hi : s.Inv) (h : s.step .core1 = some t) : t.Inv := by
  simp only [step] at h
  split at h
  · cases h
  · rename_i op rest hs
    split at h
    · cases h
    · obtain rfl := Option.some.inj h
      have hrest := hi.rest1 hs
      obtain ⟨m, rfl | rfl | rfl⟩ := hi.script1 op (by rw [hs]; exact List.mem_cons_self)
      · exact hrest
      · cases hactive : s.active m with
        | true =>
          simp only [perform, expand, hactive, if_true]
          exact inv_handle hrest m
        | false =>
          simp only [perform, expand, hactive]
          exact inv_clearStatus_due hrest hactive
      · apply inv_clearFault hrest
        intro f hf
        exact hi.gap1 m (by rw [hs]; exact List.mem_cons_self) f hf

theorem inv_step {a : Action} (hi : s.Inv) (hok : s.OutsideGaps a) (h : s.step a = some t) :
    t.Inv := by
  cases a with
  | latch m bits =>
    obtain rfl := Option.some.inj h
    exact inv_latch hi hok
  | getFaults =>
    simp only [step] at h
    split at h
    · obtain rfl := Option.some.inj h
      have hreads : ∀ m, .readFaults m ∈ Drv8830.getFaults := by
        intro m
        cases m <;> decide
      refine ⟨hi.seen, hi.latched, fun m _ hread => absurd (hreads m) hread, hi.gap1, ?_,
        hi.script1⟩
      · exact (List.mem_tails _ _).mpr (List.suffix_refl _)
    · cases h
  | faultHandler gpio =>
    simp only [step] at h
    split at h
    · obtain rfl := Option.some.inj h
      refine ⟨hi.seen, hi.latched, hi.gap0, ?_, hi.script0, ?_⟩
      · intro m hclear
        cases gpio <;> simp [Drv8830.faultHandler] at hclear
      · intro op hop
        cases gpio with
        | none => cases hop
        | some m =>
          simp only [Drv8830.faultHandler, List.mem_cons, List.not_mem_nil, or_false] at hop
          exact ⟨m, hop.imp id .inl⟩
    · cases h
  | core0 => exact inv_core0 hi h
  | core1 => exact inv_core1 hi h

end State

open State

/-- As long as a fault that arrives between an agent's read of the register and its clear only
repeats what was read, no fault is cleared unseen. -/
theorem no_fault_cleared_unseen {assertions : Bool} {fault faultValues : Motor → Byte}
    {actions : List Action}
    (h : Along step OutsideGaps (start assertions fault faultValues) actions) :
    Throughout step NoneClearedUnseen (start assertions fault faultValues) actions :=
  (throughout_of_along inv_step (inv_start assertions fault faultValues) h).mono
    fun _ hi => hi.seen

/-- An overcurrent fault before a call: the call returns it and clears it. -/
theorem fault_returned_by_call :
    Throughout step NoneClearedUnseen (start true (fun _ => 0) fun _ => 0)
      [.latch .left 0x03, .getFaults, .core0, .core0, .core0, .core0, .core0] :=
  no_fault_cleared_unseen (by decide)

/-- The same fault between the call's reads and its clear. -/
theorem fault_cleared_unseen :
    ¬ Throughout step NoneClearedUnseen (start true (fun _ => 0) fun _ => 0)
      [.getFaults, .core0, .core0, .core0, .core0, .latch .left 0x03, .core0] := by
  decide

end SrFirmware.Drv8830
