import SrFirmware.Lib.Handover
import SrFirmware.Opcodes

/-!
# Opcode requests between the two queues

The system is a ledger with the two cores as movers: `opcode_queue` waits, a pop takes an
entry and hands it to `call_queue`, core1 executes.
-/

namespace SrFirmware.Max77958

open Lib
set_option autoImplicit false

def Job.entry : Job → Option OpcodeEntry
  | .opcode entry => some entry
  | _ => none

namespace System

def called (s : System) : List OpcodeEntry := s.callQueue.filterMap Job.entry

def held (s : System) : List OpcodeEntry :=
  (s.threads .core0).pc.held.toList ++ (s.threads .core1).pc.held.toList

/-- Every accepted request is accounted for, once and in order. -/
def Conserved (s : System) : Prop :=
  s.accepted = s.executed ++ s.called ++ s.held ++ s.opcodeQueue ∧ s.held.length ≤ 1

def Pops (s : System) (c : Core) : Prop :=
  (s.threads c).pc = .responded ∨
    (s.threads c).pc = .next ∧ (s.threads c).script.head? = some .opcodeQueuePop

/-- A pop takes an entry only while the other core holds none, and puts it into a
`call_queue` that has room. -/
def PopsAlone (s : System) : Action → Prop
  | .core c =>
    (s.Pops c → s.opcodeQueue ≠ [] → (s.threads c.other).pc.held = none) ∧
      ((∃ chained entry, (s.threads c).pc = .holding chained entry) →
        s.callQueue.length < callQueueSize)
  | _ => True

/-! ### The ledger -/

def ledger (s : System) : Ledger Core OpcodeEntry where
  accepted := s.accepted
  executed := s.executed
  called := s.called
  held := fun c => (s.threads c).pc.held
  waiting := s.opcodeQueue

def takeMove (s : System) (c : Core) : Move Core OpcodeEntry :=
  match s.opcodeQueue with
  | [] => .idle
  | entry :: _ => .take c entry

def callMove (s : System) (c : Core) : Call → Move Core OpcodeEntry
  | .opcodeQueuePop => s.takeMove c
  | _ => .idle

def coreMove (s : System) (c : Core) : Move Core OpcodeEntry :=
  match (s.threads c).pc with
  | .next => ((s.threads c).script.head?.map (s.callMove c)).getD .idle
  | .adding entry => if s.opcodeQueue.length < opcodeQueueSize then .accept entry else .idle
  | .responded => s.takeMove c
  | .holding _ entry =>
    if s.callQueue.length < callQueueSize then .hand c entry else .drop c entry
  | .finishing | .running _ | .halted _ => .idle

def moveOf (s : System) : Action → Move Core OpcodeEntry
  | .core c => s.coreMove c
  | .callQueuePop _ _ => ((s.callQueue.head?.bind Job.entry).map .execute).getD .idle
  | .routine _ | .respond | .interrupt _ => .idle

theorem ledger_goto (s : System) (c : Core) (pc : Pc) (script : List Call) :
    (s.goto c pc script).ledger =
      { s.ledger with held := Function.update s.ledger.held c pc.held } := by
  have hheld : (fun d => ((s.goto c pc script).threads d).pc.held) =
      Function.update s.ledger.held c pc.held := by
    funext d
    by_cases hd : d = c
    · subst hd
      simp [goto]
    · simp [goto, ledger, hd]
  simp only [ledger, called] at hheld ⊢
  rw [hheld]
  rfl

theorem ledger_goto_idle {s : System} {c : Core} {pc : Pc} {script : List Call}
    (h : (s.threads c).pc.held = none) (hpc : pc.held = none) :
    (s.goto c pc script).ledger = s.ledger := by
  rw [ledger_goto, hpc, ← h]
  change { s.ledger with held := Function.update s.ledger.held c (s.ledger.held c) } = s.ledger
  rw [Function.update_eq_self]

theorem ledger_halt (s : System) (c : Core) : (s.halt c).ledger = s.ledger := by
  rw [halt, ledger_goto]
  change { s.ledger with held := Function.update s.ledger.held c (s.ledger.held c) } = s.ledger
  rw [Function.update_eq_self]

theorem ledger_tryRemove {s : System} {c : Core} (h : (s.threads c).pc.held = none)
    (chained : Bool) (script : List Call) :
    s.ledger.Applicable (s.takeMove c) ∧
      (s.tryRemove c chained script).ledger = s.ledger.apply (s.takeMove c) := by
  unfold tryRemove takeMove
  cases hq : s.opcodeQueue with
  | nil => exact ⟨trivial, ledger_goto_idle h (by cases chained <;> rfl)⟩
  | cons entry rest =>
    refine ⟨⟨h, by simp [ledger, hq]⟩, ?_⟩
    simp only [ledger_goto, Ledger.apply]
    simp [ledger, hq, called, Pc.held]

theorem ledger_callQueueTryAdd (s : System) (c : Core) {job : Job} (hjob : job.entry = none) :
    (s.callQueueTryAdd c job).ledger = s.ledger := by
  unfold callQueueTryAdd
  split
  · simp [ledger, called, hjob]
  · exact ledger_halt s c

theorem ledger_call {s t : System} {c : Core} (hheld : (s.threads c).pc.held = none)
    {script : List Call} {call : Call} (h : s.call c script call = some t) :
    s.ledger.Applicable (s.callMove c call) ∧ t.ledger = s.ledger.apply (s.callMove c call) := by
  cases call with
  | opcodeQueueAdd entry | onOpcodeCmdResponse =>
    obtain rfl := Option.some.inj h
    exact ⟨trivial, ledger_goto_idle hheld rfl⟩
  | opcodeQueuePop =>
    obtain rfl := Option.some.inj h
    exact ledger_tryRemove hheld false script
  | callQueueTryAddPdMsg =>
    obtain rfl := Option.some.inj h
    exact ⟨trivial, (ledger_callQueueTryAdd _ c rfl).trans (ledger_goto_idle hheld rfl)⟩
  | waitOpcodesFinished =>
    simp only [call] at h
    split at h
    · obtain rfl := Option.some.inj h
      exact ⟨trivial, ledger_goto_idle hheld rfl⟩
    · cases h

theorem ledger_stepCore {s t : System} {c : Core} (h : s.stepCore c = some t) :
    s.ledger.Applicable (s.coreMove c) ∧ t.ledger = s.ledger.apply (s.coreMove c) := by
  unfold stepCore at h
  unfold coreMove
  cases hpc : (s.threads c).pc with
  | next =>
    have hheld : (s.threads c).pc.held = none := by rw [hpc]; rfl
    simp only [hpc] at h
    cases hscript : (s.threads c).script with
    | nil => simp [hscript] at h
    | cons call rest =>
      simp only [hscript] at h
      exact ledger_call hheld h
  | adding entry =>
    have hheld : (s.threads c).pc.held = none := by rw [hpc]; rfl
    simp only [hpc] at h ⊢
    split at h
    · rename_i hroom
      obtain rfl := Option.some.inj h
      rw [if_pos hroom]
      exact ⟨trivial, ledger_goto_idle hheld rfl⟩
    · rename_i hfull
      obtain rfl := Option.some.inj h
      rw [if_neg hfull]
      exact ⟨trivial, ledger_halt s c⟩
  | responded =>
    have hheld : (s.threads c).pc.held = none := by rw [hpc]; rfl
    simp only [hpc] at h ⊢
    obtain rfl := Option.some.inj h
    exact ledger_tryRemove hheld true _
  | holding chained entry =>
    have hheld : s.ledger.held c = some entry := by
      change (s.threads c).pc.held = some entry
      rw [hpc]
      rfl
    simp only [hpc] at h ⊢
    split at h
    · rename_i hroom
      obtain rfl := Option.some.inj h
      rw [if_pos hroom]
      refine ⟨hheld, ?_⟩
      rw [ledger_goto]
      simp [ledger, called, Ledger.apply, Pc.held, Job.entry]
    · rename_i hfull
      obtain rfl := Option.some.inj h
      rw [if_neg hfull]
      refine ⟨hheld, ?_⟩
      rw [ledger_goto]
      cases chained <;> rfl
  | finishing | running entry =>
    have hheld : (s.threads c).pc.held = none := by rw [hpc]; rfl
    simp only [hpc] at h ⊢
    obtain rfl := Option.some.inj h
    exact ⟨trivial, ledger_goto_idle hheld rfl⟩
  | halted inHand => simp [hpc] at h

theorem ledger_takeJob {s t : System} {r : Readings} {msg : PdMsg}
    (h : s.takeJob r msg = some t) :
    s.ledger.Applicable (s.moveOf (.callQueuePop r msg)) ∧
      t.ledger = s.ledger.apply (s.moveOf (.callQueuePop r msg)) := by
  unfold takeJob at h
  split at h
  · rename_i job rest hidle hqueue
    have hheld : (s.threads .core1).pc.held = none := by rw [hidle]; rfl
    have hother (hjob : job.entry = none) : { s with callQueue := rest }.ledger = s.ledger := by
      simp [ledger, called, hqueue, hjob]
    simp only [moveOf, hqueue, List.head?_cons, Option.bind_some]
    cases job with
    | opcode entry =>
      obtain rfl := Option.some.inj h
      refine ⟨by simp [Ledger.Applicable, Job.entry, ledger, called, hqueue], ?_⟩
      refine (ledger_goto_idle ?_ rfl).trans ?_
      · exact hheld
      · simp [ledger, called, hqueue, Ledger.apply, Job.entry]
    | parseInterruptVals =>
      simp only at h
      split at h
      · obtain rfl := Option.some.inj h
        refine ⟨trivial, (ledger_goto_idle ?_ rfl).trans (hother rfl)⟩
        exact hheld
      · cases h
    | pdMsgResponse =>
      obtain rfl := Option.some.inj h
      refine ⟨trivial, (ledger_goto_idle ?_ rfl).trans (hother rfl)⟩
      exact hheld
    | max77958TestResponse | other =>
      obtain rfl := Option.some.inj h
      exact ⟨trivial, hother rfl⟩
  · cases h

/-- Every step of the system is its move of the ledger. -/
theorem step_ledger {s t : System} {a : Action} (h : s.step a = some t) :
    s.ledger.Applicable (s.moveOf a) ∧ t.ledger = s.ledger.apply (s.moveOf a) := by
  cases a with
  | core c => exact ledger_stepCore h
  | callQueuePop r msg => exact ledger_takeJob h
  | routine routine =>
    simp only [step] at h
    split at h
    · rename_i hidle
      obtain rfl := Option.some.inj h
      exact ⟨trivial, ledger_goto_idle (by rw [hidle]; rfl) rfl⟩
    · cases h
  | respond =>
    simp only [step] at h
    split at h
    · cases h
    · obtain rfl := Option.some.inj h
      exact ⟨trivial, rfl⟩
  | interrupt i =>
    obtain rfl := Option.some.inj h
    exact ⟨trivial, ledger_callQueueTryAdd s .core0 (by cases i <;> rfl)⟩

theorem takeMove_safe_iff (s : System) (c : Core) :
    s.ledger.Safe (s.takeMove c) ↔
      (s.opcodeQueue ≠ [] → (s.threads c.other).pc.held = none) := by
  unfold takeMove
  cases hq : s.opcodeQueue with
  | nil => simp [Ledger.Safe]
  | cons entry rest =>
    simp only [Ledger.Safe, ne_eq, reduceCtorEq, not_false_eq_true, true_implies]
    constructor
    · intro h
      exact h c.other (by cases c <;> decide)
    · intro h d hd
      have hother : d = c.other := by
        cases c <;> cases d <;> first | rfl | exact absurd rfl hd
      rw [hother]
      exact h

theorem popsAlone_iff (s : System) (a : Action) : s.PopsAlone a ↔ s.ledger.Safe (s.moveOf a) := by
  cases a with
  | core c =>
    simp only [PopsAlone, Pops, moveOf, coreMove]
    cases hpc : (s.threads c).pc with
    | next =>
      cases hscript : (s.threads c).script with
      | nil => simp [Ledger.Safe]
      | cons call rest =>
        by_cases hpop : call = .opcodeQueuePop
        · subst hpop
          change _ ↔ s.ledger.Safe (s.takeMove c)
          simp [takeMove_safe_iff]
        · cases call <;> simp_all [callMove, Ledger.Safe]
    | responded => simp [takeMove_safe_iff]
    | adding entry =>
      by_cases hroom : s.opcodeQueue.length < opcodeQueueSize <;> simp [hroom, Ledger.Safe]
    | holding chained entry =>
      by_cases hroom : s.callQueue.length < callQueueSize <;> simp [hroom, Ledger.Safe]
    | finishing | running entry | halted inHand => simp [Ledger.Safe]
  | callQueuePop r msg =>
    cases h : s.callQueue.head?.bind Job.entry <;> simp [PopsAlone, moveOf, h, Ledger.Safe]
  | routine routine | respond | interrupt i => exact Iff.rfl

theorem onlyHeld_iff (held : Core → Option OpcodeEntry) (h : Option OpcodeEntry) :
    Ledger.OnlyHeld held h ↔
      (held .core0).toList ++ (held .core1).toList = h.toList ∧
        (held .core0 = none ∨ held .core1 = none) := by
  constructor
  · intro hh
    cases h with
    | none => simp [hh .core0, hh .core1]
    | some e =>
      obtain ⟨c, hc, hrest⟩ := hh
      cases c with
      | core0 => simp [hc, hrest .core1 (by decide)]
      | core1 => simp [hc, hrest .core0 (by decide)]
  · rintro ⟨hlist, h0 | h1⟩
    · cases h with
      | none => exact fun c => by cases c <;> simp_all
      | some e => exact ⟨.core1, by simpa [h0] using hlist, fun d hd => by cases d <;> simp_all⟩
    · cases h with
      | none => exact fun c => by cases c <;> simp_all
      | some e => exact ⟨.core0, by simpa [h1] using hlist, fun d hd => by cases d <;> simp_all⟩

theorem conserved_iff_ledger (s : System) : s.Conserved ↔ s.ledger.Conserved := by
  simp only [Conserved, Ledger.Conserved, onlyHeld_iff, held]
  constructor
  · rintro ⟨hacc, hlen⟩
    cases h0 : (s.threads .core0).pc.held with
    | none =>
      refine ⟨(s.threads .core1).pc.held, ⟨by simp [ledger, h0], .inl h0⟩, ?_⟩
      simpa [ledger, h0] using hacc
    | some e =>
      cases h1 : (s.threads .core1).pc.held with
      | none =>
        refine ⟨some e, ⟨by simp [ledger, h0, h1], .inr h1⟩, ?_⟩
        simpa [ledger, h0, h1] using hacc
      | some f => simp [h0, h1] at hlen
  · rintro ⟨h, ⟨hlist, -⟩, hacc⟩
    have hheld : (s.threads .core0).pc.held.toList ++ (s.threads .core1).pc.held.toList =
        h.toList := hlist
    rw [hheld]
    exact ⟨hacc, by cases h <;> simp⟩

/-- One step keeps the requests conserved exactly when its pop is alone and finds room. -/
theorem step_conserved_iff {s t : System} {a : Action} (hs : s.Conserved)
    (h : s.step a = some t) : t.Conserved ↔ s.PopsAlone a := by
  obtain ⟨happ, hledger⟩ := step_ledger h
  rw [conserved_iff_ledger, hledger, popsAlone_iff]
  exact Ledger.conserved_apply_iff ((conserved_iff_ledger s).mp hs) happ

/-- In a run from start-up, requests stay conserved and ordered exactly as long as no pop
takes an entry while the other core holds one and none finds `call_queue` full. -/
theorem opcode_requests_conserved_iff (ccStatus0 : Byte) (actions : List Action) :
    Throughout step Conserved (boot ccStatus0) actions ↔
      Along step PopsAlone (boot ccStatus0) actions := by
  constructor
  · exact along_of_throughout fun hs ht h => (step_conserved_iff hs h).mp ht
  · exact throughout_of_along (fun hs hok h => (step_conserved_iff hs h).mpr hok)
      ⟨rfl, Nat.zero_le 1⟩

theorem run_interrupts (i : Interrupt) (n : Nat) {s : System}
    (h : s.callQueue.length + n ≤ callQueueSize) :
    run step s (List.replicate n (.interrupt i)) =
      some { s with callQueue := s.callQueue ++ List.replicate n i.job } := by
  induction n generalizing s with
  | zero => simp
  | succ n ih =>
    have hroom : s.callQueue.length < callQueueSize := by omega
    have hstep : s.step (.interrupt i) = some { s with callQueue := s.callQueue ++ [i.job] } := by
      simp only [step, callQueueTryAdd, if_pos hroom]
    rw [List.replicate_succ, run_cons, hstep, Option.bind_some, ih (by simp; omega)]
    simp [List.replicate_succ]

theorem run_max77958Init (q : List Job) :
    ∃ t entry,
      run step { boot 0b010 with callQueue := q } (List.replicate 7 (.core .core0)) = some t ∧
      (t.threads .core0).pc = .holding false entry ∧ (t.threads .core1).pc.held = none ∧
      t.callQueue = q ∧ t.accepted.length = 3 ∧ t.executed = [] ∧ t.opcodeQueue.length = 2 :=
  ⟨_, _, rfl, rfl, rfl, rfl, rfl, rfl, rfl⟩

/-- The first request of `max77958_init` is lost when its pop finds `call_queue` full. -/
theorem opcode_requests_not_conserved :
    ¬ Throughout step Conserved (boot 0b010)
      (List.replicate callQueueSize (.interrupt .other) ++ List.replicate 8 (.core .core0)) := by
  intro h
  have hfill : run step (boot 0b010) (List.replicate callQueueSize (.interrupt .other)) =
      some { boot 0b010 with callQueue := List.replicate callQueueSize .other } := by
    rw [run_interrupts .other callQueueSize (Nat.le_refl _)]
    simp only [boot, List.nil_append, Interrupt.job]
  obtain ⟨t, entry, ht, hpc, hcore1, hqueue, hacc, hexec, hwait⟩ :=
    run_max77958Init (List.replicate callQueueSize .other)
  have hfull : ¬ t.callQueue.length < callQueueSize := by
    rw [hqueue, List.length_replicate]
    exact Nat.lt_irrefl _
  let dropped := t.goto .core0 .next (t.threads .core0).script
  have hdrop : t.step (.core .core0) = some dropped := by
    simp only [step, stepCore, hpc, if_neg hfull]
    rfl
  have hrun : run step (boot 0b010)
      (List.replicate callQueueSize (.interrupt .other) ++ List.replicate 8 (.core .core0)) =
        some dropped := by
    have hlast : List.replicate 8 (Action.core .core0) =
        List.replicate 7 (.core .core0) ++ [.core .core0] := rfl
    rw [run_append, hfill, Option.bind_some, hlast, run_append, ht, Option.bind_some, run_cons,
      hdrop]
    rfl
  have hcalled : dropped.called = [] := by
    change t.callQueue.filterMap Job.entry = []
    rw [hqueue]
    exact List.filterMap_replicate_of_none rfl
  have hheld : dropped.held = [] := by
    change (Pc.next).held.toList ++ (t.threads .core1).pc.held.toList = []
    rw [hcore1]
    rfl
  have hacc' : dropped.accepted.length = 3 := hacc
  have hexec' : dropped.executed = [] := hexec
  have hwait' : dropped.opcodeQueue.length = 2 := hwait
  have hlen := congrArg List.length (h.last hrun).1
  simp [hcalled, hheld, hacc', hexec', hwait'] at hlen

end System

end SrFirmware.Max77958
