import SrFirmware.OpcodeSequence

/-!
# Waiting for `opcodes_finished`

A boot check or the shutdown adds a request, pops, and waits for the flag. The flag is cleared
before the request is queued, and set by the other core on a response after which
`opcode_queue` is empty.
-/

namespace SrFirmware.Max77958

open Lib
set_option autoImplicit false

/-! ### Following the caller's command -/

/-- Of a core0 that can go on and has nothing to add. -/
def Pc.live : Pc → Bool
  | .next | .holding _ _ => true
  | _ => false

/-- Of a core that is in no response. -/
def Pc.direct : Pc → Bool
  | .next | .adding _ | .holding false _ | .halted _ => true
  | _ => false

/-- With no entry in hand, none running and none to add. -/
def Pc.free : Pc → Bool
  | .next | .responded | .finishing | .halted none => true
  | .adding _ | .holding _ _ | .running _ | .halted (some _) => false

theorem Pc.free_iff {pc : Pc} : pc.free = true ↔
    pc.held = none ∧ pc.executing = none ∧ ∀ entry, pc ≠ .adding entry := by
  cases pc with
  | halted inHand => cases inHand <;> simp [Pc.free, Pc.held, Pc.executing]
  | next | adding _ | responded | holding _ _ | finishing | running _ =>
    simp [Pc.free, Pc.held, Pc.executing]

/-- The system, core0's last request with its place, and which of the commands executed have
had their responses read into `op_code_return_buf`. -/
structure Watched where
  system : System
  own : Option (OpcodeEntry × Place Core)
  read : List Nat

namespace System

/-- About to read the op-command return registers. -/
def ReadsResponse (s : System) : Action → Prop
  | .core c =>
    (s.threads c).pc = .next ∧ (s.threads c).script.head? = some .onOpcodeCmdResponse
  | _ => False

instance (s : System) (a : Action) : Decidable (s.ReadsResponse a) :=
  match a with
  | .core _ => inferInstanceAs (Decidable (_ ∧ _))
  | .callQueuePop _ _ | .routine _ | .respond | .interrupt _ => .isFalse id

/-- Nothing is queued, dispatched or unanswered. -/
def NothingPending (s : System) : Prop := s.opcodeQueue = [] ∧ s.held = [] ∧ s.outstanding = []

instance (s : System) : Decidable s.NothingPending := inferInstanceAs (Decidable (_ ∧ _ ∧ _))

/-- core0 is about to find its wait over. -/
def WaitEnds (s : System) : Prop :=
  (s.threads .core0).pc = .next ∧
    (s.threads .core0).script.head? = some .waitOpcodesFinished ∧ s.opcodesFinished = true

instance (s : System) : Decidable s.WaitEnds := inferInstanceAs (Decidable (_ ∧ _ ∧ _))

end System

namespace Watched

def boot (ccStatus0 : Byte) : Watched := ⟨Max77958.boot ccStatus0, none, []⟩

def ownAfter (w : Watched) (a : Action) : Option (OpcodeEntry × Place Core) :=
  match a, w.system.moveOf a with
  | .core .core0, .accept entry => some (entry, .waiting w.system.opcodeQueue.length)
  | _, m => w.own.map fun own => (own.1, w.system.ledger.follow m own.2)

/-- The registers hold the response to the command that was answered last. -/
def readAfter (w : Watched) (a : Action) : List Nat :=
  if w.system.ReadsResponse a ∧ w.system.device.answered ≠ [] then
    w.read ++ [w.system.executed.length - w.system.device.written.length - 1]
  else w.read

def step (w : Watched) (a : Action) : Option Watched :=
  (w.system.step a).map fun t => ⟨t, w.ownAfter a, w.readAfter a⟩

def OwnResponseRead (w : Watched) : Prop :=
  match w.own with
  | some (entry, .executed n) => w.system.executed[n]? = some entry ∧ n ∈ w.read
  | _ => False

instance (w : Watched) : Decidable w.OwnResponseRead := by
  unfold OwnResponseRead
  split <;> infer_instance

/-- When the wait ends, the caller's own response has been read and no entry is pending. -/
def WaitIsRight (w : Watched) : Prop :=
  w.system.WaitEnds → w.OwnResponseRead ∧ w.system.NothingPending

instance (w : Watched) : Decidable w.WaitIsRight := inferInstanceAs (Decidable (_ → _))

end Watched

namespace System

/-! ### When the flag is kept for the caller -/

/-- core0 has queued its request and waits for it, or is about to. -/
def Awaiting (s : System) : Prop :=
  (s.threads .core0).pc.live = true ∧
    ((s.threads .core0).script = [.opcodeQueuePop, .waitOpcodesFinished] ∨
      (s.threads .core0).script = [.waitOpcodesFinished])

instance (s : System) : Decidable s.Awaiting := inferInstanceAs (Decidable (_ ∧ _))

/-- The caller's request goes into the queue while the flag is clear and not about to be set. -/
def RequestFindsClear (s : System) : Action → Prop
  | .core c =>
    match (s.threads c).pc with
    | .adding _ =>
      c = .core0 → .waitOpcodesFinished ∈ (s.threads c).script →
        s.opcodesFinished = false ∧ (s.threads .core1).pc ≠ .finishing
    | _ => True
  | _ => True

/-- While the caller waits, a popped entry finds room in `call_queue`. -/
def PoppedFits (s : System) : Action → Prop
  | .core c =>
    match (s.threads c).pc with
    | .holding _ _ => s.Awaiting → s.callQueue.length < callQueueSize
    | _ => True
  | _ => True

def FlagKept (s : System) (a : Action) : Prop :=
  s.DirectPopsWait a ∧ s.RequestFindsClear a ∧ s.PoppedFits a

instance (s : System) (a : Action) : Decidable (s.RequestFindsClear a) := by
  unfold RequestFindsClear
  split
  · split <;> infer_instance
  · exact .isTrue trivial

instance (s : System) (a : Action) : Decidable (s.PoppedFits a) := by
  unfold PoppedFits
  split
  · split <;> infer_instance
  · exact .isTrue trivial

instance (s : System) (a : Action) : Decidable (s.FlagKept a) :=
  inferInstanceAs (Decidable (_ ∧ _ ∧ _))

end System

namespace System

variable {s t : System}

/-! ### Commands one after the other -/

theorem Sequential.answered_le (h : s.Sequential) : s.device.answered.length ≤ 1 := by
  have hle := h.load_le
  simp only [load] at hle
  omega

theorem Pc.held_of_load {pc : Pc} (h : pc.load = 0) : pc.held = none := by
  cases pc with
  | halted inHand =>
    cases inHand with
    | none => rfl
    | some entry => cases h
  | holding chained entry => cases h
  | next | adding _ | responded | finishing | running _ => rfl

/-- The command whose response has just been read was the only one. -/
theorem Sequential.alone (h : s.Sequential) (hpc : (s.threads .core1).pc = .responded) :
    s.held = [] ∧ s.outstanding = [] := by
  have hle := h.load_le
  have hone : (s.threads .core1).pc.load = 1 := by rw [hpc]; rfl
  simp only [load, hone] at hle
  have hcalled : s.called = [] := List.length_eq_zero_iff.mp (by omega)
  have hwritten : s.device.written = [] := List.length_eq_zero_iff.mp (by omega)
  have hanswered : s.device.answered = [] := List.length_eq_zero_iff.mp (by omega)
  have hzero : (s.threads .core0).pc.load = 0 := by omega
  have hheld0 := Pc.held_of_load hzero
  have hheld1 : (s.threads .core1).pc.held = none := by rw [hpc]; rfl
  refine ⟨?_, ?_⟩
  · simp [System.held, hheld0, hheld1]
  · simp [outstanding, hcalled, hpc, Pc.executing, hwritten, hanswered]

/-! ### What a step does to core0 -/

theorem threads_goto_of_ne {c d : Core} (hd : d ≠ c) (pc : Pc) (script : List Call) :
    (s.goto c pc script).threads d = s.threads d := Function.update_of_ne hd _ _

theorem threads_goto_self (c : Core) (pc : Pc) (script : List Call) :
    (s.goto c pc script).threads c = ⟨pc, script⟩ := Function.update_self c _ _

theorem threads_callQueueTryAdd_of_ne {c d : Core} (hd : d ≠ c) (job : Job) :
    (s.callQueueTryAdd c job).threads d = s.threads d := by
  unfold callQueueTryAdd
  split
  · rfl
  · exact threads_goto_of_ne hd _ _

theorem threads_tryRemove_of_ne {c d : Core} (hd : d ≠ c) (chained : Bool) (script : List Call) :
    (s.tryRemove c chained script).threads d = s.threads d := by
  unfold tryRemove
  split
  · exact threads_goto_of_ne hd _ _
  · exact threads_goto_of_ne hd _ _

theorem threads_call_of_ne {c d : Core} (hd : d ≠ c) {script : List Call} {call : Call}
    (h : s.call c script call = some t) : t.threads d = s.threads d := by
  cases call with
  | opcodeQueueAdd entry | onOpcodeCmdResponse =>
    obtain rfl := Option.some.inj h
    exact threads_goto_of_ne hd _ _
  | opcodeQueuePop =>
    obtain rfl := Option.some.inj h
    exact threads_tryRemove_of_ne hd _ _
  | callQueueTryAddPdMsg =>
    obtain rfl := Option.some.inj h
    exact (threads_callQueueTryAdd_of_ne hd _).trans (threads_goto_of_ne hd _ _)
  | waitOpcodesFinished =>
    simp only [call] at h
    split at h
    · obtain rfl := Option.some.inj h
      exact threads_goto_of_ne hd _ _
    · cases h

theorem threads_stepCore_of_ne {c d : Core} (hd : d ≠ c) (h : s.stepCore c = some t) :
    t.threads d = s.threads d := by
  unfold stepCore at h
  cases hpc : (s.threads c).pc with
  | next =>
    simp only [hpc] at h
    split at h
    · cases h
    · exact threads_call_of_ne hd h
  | adding entry | holding chained entry =>
    simp only [hpc] at h
    split at h <;> obtain rfl := Option.some.inj h <;> exact threads_goto_of_ne hd _ _
  | responded =>
    simp only [hpc] at h
    obtain rfl := Option.some.inj h
    exact threads_tryRemove_of_ne hd _ _
  | finishing | running entry =>
    simp only [hpc] at h
    obtain rfl := Option.some.inj h
    exact threads_goto_of_ne hd _ _
  | halted inHand => simp [hpc] at h

theorem goto_eq_self {c : Core} {pc : Pc} {script : List Call}
    (h : s.threads c = ⟨pc, script⟩) : s.goto c pc script = s := by
  rw [goto, ← h, Function.update_eq_self]

/-- A job is an opcode function, or leaves the opcode entries alone. -/
theorem takeJob_cases {r : Readings} {msg : PdMsg} (h : s.takeJob r msg = some t) :
    ∃ job rest, s.threads .core1 = ⟨.next, []⟩ ∧ s.callQueue = job :: rest ∧
      ((∃ entry, job = .opcode entry ∧
        t = { s with callQueue := rest, executed := s.executed ++ [entry] }.goto .core1
          (.running entry) []) ∨
      (job.entry = none ∧ ∃ bit script,
        t = { s with callQueue := rest, device := { s.device with apCmdResI := bit } }.goto
          .core1 .next script)) := by
  unfold takeJob at h
  split at h
  · rename_i job rest hidle hqueue
    refine ⟨job, rest, hidle, hqueue, ?_⟩
    cases job with
    | opcode entry =>
      obtain rfl := Option.some.inj h
      exact .inl ⟨entry, rfl, rfl⟩
    | parseInterruptVals =>
      simp only at h
      split at h
      · obtain rfl := Option.some.inj h
        exact .inr ⟨rfl, false, _, rfl⟩
      · cases h
    | pdMsgResponse =>
      obtain rfl := Option.some.inj h
      exact .inr ⟨rfl, s.device.apCmdResI, _, rfl⟩
    | max77958TestResponse | other =>
      obtain rfl := Option.some.inj h
      exact .inr ⟨rfl, s.device.apCmdResI, [],
        (goto_eq_self (s := { s with callQueue := rest }) hidle).symm⟩
  · cases h

/-! ### The flag -/

/-- The flag is set, or about to be. -/
def Raised (s : System) : Prop :=
  s.opcodesFinished = true ∨ (s.threads .core1).pc = .finishing

/-- The flag may be set: nothing is pending, and core1 is not adding anything either. -/
def Quiet (s : System) : Prop :=
  s.NothingPending ∧ ∀ entry, (s.threads .core1).pc ≠ .adding entry

namespace Quiet

theorem opcodeQueue (h : s.Quiet) : s.opcodeQueue = [] := h.1.1

theorem pc_held (h : s.Quiet) (c : Core) : (s.threads c).pc.held = none := by
  have hhands := h.1.2.1
  simp only [System.held, List.append_eq_nil_iff, Option.toList_eq_nil_iff] at hhands
  cases c
  · exact hhands.1
  · exact hhands.2

theorem outstanding (h : s.Quiet) : s.called = [] ∧ (s.threads .core1).pc.executing = none ∧
    s.device.written = [] ∧ s.device.answered = [] := by
  have hout := h.1.2.2
  simp only [System.outstanding, List.append_eq_nil_iff, Option.toList_eq_nil_iff] at hout
  exact ⟨hout.1.1.1, hout.1.1.2, hout.1.2, hout.2⟩

/-- A core that moves on without an entry leaves everything quiet. -/
theorem goto (h : s.Quiet) {u : System} (hthreads : u.threads = s.threads)
    (hqueue : u.opcodeQueue = []) (hcalled : u.called = [])
    (hdevice : u.device.written = [] ∧ u.device.answered = []) {c : Core} {pc : Pc}
    {script : List Call} (hfree : pc.free = true) : (u.goto c pc script).Quiet := by
  obtain ⟨hheld, hexec, hadd⟩ := Pc.free_iff.mp hfree
  have hcalled' : (u.goto c pc script).called = [] := hcalled
  have hdevice' : (u.goto c pc script).device = u.device := rfl
  have h0 := h.pc_held .core0
  have h1 := h.pc_held .core1
  have hexec1 := h.outstanding.2.1
  have hadd1 := h.2
  refine ⟨⟨hqueue, ?_, ?_⟩, ?_⟩
  · cases c <;> simp [System.held, System.goto, hthreads, h0, h1, hheld]
  · rw [System.outstanding, hcalled', hdevice', hdevice.1, hdevice.2]
    cases c <;> simp [System.goto, hthreads, hexec1, hexec]
  · cases c <;> simpa [System.goto, hthreads]

theorem goto_same (h : s.Quiet) {c : Core} {pc : Pc} {script : List Call}
    (hfree : pc.free = true) : (s.goto c pc script).Quiet :=
  h.goto rfl h.opcodeQueue h.outstanding.1 h.outstanding.2.2 hfree

theorem tryRemove (h : s.Quiet) (c : Core) (chained : Bool) (script : List Call) :
    (s.tryRemove c chained script).Quiet := by
  simp only [System.tryRemove, h.opcodeQueue]
  cases chained
  · exact h.goto_same (by rfl)
  · exact h.goto_same (by rfl)

theorem callQueueTryAdd (h : s.Quiet) (c : Core) {job : Job} (hjob : job.entry = none) :
    (s.callQueueTryAdd c job).Quiet := by
  unfold System.callQueueTryAdd
  split
  · have hcalled : ({ s with callQueue := s.callQueue ++ [job] } : System).called = s.called := by
      simp [called, hjob]
    obtain ⟨⟨hqueue, hhands, hout⟩, hadd⟩ := h
    refine ⟨⟨hqueue, hhands, ?_⟩, hadd⟩
    rw [System.outstanding, hcalled]
    exact hout
  · have hheld := h.pc_held c
    exact h.goto_same (by rw [hheld]; rfl)

end Quiet

theorem raised_goto_core1 {pc : Pc} {script : List Call}
    (h : (s.goto .core1 pc script).Raised) : s.opcodesFinished = true ∨ pc = .finishing := by
  simpa [Raised, goto] using h

theorem raised_goto_core0 {pc : Pc} {script : List Call}
    (h : (s.goto .core0 pc script).Raised) : s.Raised := by
  simpa [Raised, goto] using h

theorem raised_tryRemove_core0 {chained : Bool} {script : List Call}
    (h : (s.tryRemove .core0 chained script).Raised) : s.Raised := by
  unfold tryRemove at h
  split at h
  · exact raised_goto_core0 h
  · exact raised_goto_core0 h

theorem raised_tryRemove_core1 {chained : Bool} {script : List Call}
    (h : (s.tryRemove .core1 chained script).Raised) :
    s.opcodesFinished = true ∨ chained = true ∧ s.opcodeQueue = [] := by
  unfold tryRemove at h
  cases hqueue : s.opcodeQueue with
  | nil =>
    simp only [hqueue] at h
    cases chained with
    | false => simpa using raised_goto_core1 h
    | true => exact .inr ⟨rfl, rfl⟩
  | cons entry rest =>
    simp only [hqueue] at h
    exact .inl ((raised_goto_core1 h).resolve_right nofun)

theorem raised_callQueueTryAdd {c : Core} {job : Job} (h : (s.callQueueTryAdd c job).Raised) :
    s.Raised := by
  unfold callQueueTryAdd at h
  split at h
  · exact h
  · cases c with
    | core0 => exact raised_goto_core0 h
    | core1 => exact .inl ((raised_goto_core1 h).resolve_right nofun)

theorem quiet_call_core1 (hs : s.Raised → s.Quiet) {script : List Call} {call : Call}
    (h : s.call .core1 script call = some t) (ht : t.Raised) : t.Quiet := by
  cases call with
  | opcodeQueueAdd entry =>
    obtain rfl := Option.some.inj h
    exact absurd (raised_goto_core1 ht) (by simp)
  | opcodeQueuePop =>
    obtain rfl := Option.some.inj h
    have hflag := (raised_tryRemove_core1 ht).resolve_right nofun
    exact (hs (.inl hflag)).tryRemove _ _ _
  | onOpcodeCmdResponse =>
    obtain rfl := Option.some.inj h
    have hflag := (raised_goto_core1 ht).resolve_right nofun
    have hq := hs (.inl hflag)
    exact hq.goto (u := { s with device := { s.device with answered := [] } }) rfl hq.opcodeQueue
      hq.outstanding.1 ⟨hq.outstanding.2.2.1, rfl⟩ rfl
  | callQueueTryAddPdMsg =>
    obtain rfl := Option.some.inj h
    have hflag := (raised_goto_core1 (raised_callQueueTryAdd ht)).resolve_right nofun
    exact ((hs (.inl hflag)).goto_same (by rfl)).callQueueTryAdd _ rfl
  | waitOpcodesFinished =>
    simp only [call] at h
    split at h
    · rename_i hflag
      obtain rfl := Option.some.inj h
      exact (hs (.inl hflag)).goto_same (by rfl)
    · cases h

theorem quiet_stepCore_core1 (hseq : s.Sequential) (hs : s.Raised → s.Quiet)
    (hwait : s.Awaiting) (hfits : s.PoppedFits (.core .core1))
    (h : s.stepCore .core1 = some t) (ht : t.Raised) : t.Quiet := by
  unfold stepCore at h
  unfold PoppedFits at hfits
  cases hpc : (s.threads .core1).pc with
  | next =>
    simp only [hpc] at h
    split at h
    · cases h
    · exact quiet_call_core1 hs h ht
  | adding entry =>
    simp only [hpc] at h
    have hflag : s.opcodesFinished = true := by
      split at h <;> obtain rfl := Option.some.inj h <;>
        exact (raised_goto_core1 ht).resolve_right nofun
    exact absurd hpc ((hs (.inl hflag)).2 entry)
  | responded =>
    simp only [hpc] at h
    obtain rfl := Option.some.inj h
    rcases raised_tryRemove_core1 ht with hflag | ⟨-, hqueue⟩
    · exact (hs (.inl hflag)).tryRemove _ _ _
    · obtain ⟨hhands, hout⟩ := hseq.alone hpc
      have hq : s.Quiet := ⟨⟨hqueue, hhands, hout⟩, by simp [hpc]⟩
      exact hq.tryRemove _ _ _
  | holding chained entry =>
    simp only [hpc] at h hfits
    rw [if_pos (hfits hwait)] at h
    obtain rfl := Option.some.inj h
    have hflag := (raised_goto_core1 ht).resolve_right nofun
    have hheld := (hs (.inl hflag)).pc_held .core1
    rw [hpc] at hheld
    cases hheld
  | finishing =>
    simp only [hpc] at h
    obtain rfl := Option.some.inj h
    have hq := hs (.inr hpc)
    exact hq.goto (by rfl) hq.opcodeQueue hq.outstanding.1 hq.outstanding.2.2 (by rfl)
  | running entry =>
    simp only [hpc] at h
    obtain rfl := Option.some.inj h
    have hflag := (raised_goto_core1 ht).resolve_right nofun
    have hexec := (hs (.inl hflag)).outstanding.2.1
    rw [hpc] at hexec
    cases hexec
  | halted inHand => simp [hpc] at h

theorem quiet_takeJob (hs : s.Raised → s.Quiet) {r : Readings} {msg : PdMsg}
    (h : s.takeJob r msg = some t) (ht : t.Raised) : t.Quiet := by
  obtain ⟨job, rest, -, hqueue, ⟨entry, rfl, rfl⟩ | ⟨hjob, bit, script, rfl⟩⟩ := takeJob_cases h
  · have hflag := (raised_goto_core1 ht).resolve_right (by simp)
    have hcalled := (hs (.inl hflag)).outstanding.1
    simp [called, hqueue, Job.entry] at hcalled
  · have hflag := (raised_goto_core1 ht).resolve_right (by simp)
    have hq := hs (.inl hflag)
    have hcalled := hq.outstanding.1
    simp only [called, hqueue, List.filterMap_cons, hjob] at hcalled
    let u : System :=
      { s with callQueue := rest, device := { s.device with apCmdResI := bit } }
    exact hq.goto (u := u) rfl hq.opcodeQueue hcalled hq.outstanding.2.2 rfl

theorem quiet_stepCore_core0 (hs : s.Raised → s.Quiet) (hwait : s.Awaiting)
    (h : s.stepCore .core0 = some t) (ht : t.Raised) : t.Quiet := by
  obtain ⟨hlive, hscript⟩ := hwait
  unfold stepCore at h
  cases hpc : (s.threads .core0).pc with
  | next =>
    rcases hscript with hscript | hscript
    · simp only [hpc, hscript, call] at h
      obtain rfl := Option.some.inj h
      have hraised := raised_tryRemove_core0 ht
      exact (hs hraised).tryRemove _ _ _
    · simp only [hpc, hscript, call] at h
      split at h
      · rename_i hflag
        obtain rfl := Option.some.inj h
        exact (hs (.inl hflag)).goto_same (by rfl)
      · cases h
  | holding chained entry =>
    have hraised : s.Raised := by
      simp only [hpc] at h
      split at h <;> obtain rfl := Option.some.inj h <;> exact raised_goto_core0 ht
    have hheld := (hs hraised).pc_held .core0
    rw [hpc] at hheld
    cases hheld
  | adding _ | responded | finishing | running _ | halted _ => simp [hpc, Pc.live] at hlive

theorem quiet_step (hseq : s.Sequential) (hs : s.Raised → s.Quiet) (hwait : s.Awaiting)
    {a : Action} (hok : s.FlagKept a) (h : s.step a = some t) (ht : t.Raised) : t.Quiet := by
  cases a with
  | core c =>
    cases c with
    | core0 => exact quiet_stepCore_core0 hs hwait h ht
    | core1 => exact quiet_stepCore_core1 hseq hs hwait hok.2.2 h ht
  | callQueuePop r msg => exact quiet_takeJob hs h ht
  | routine routine =>
    simp only [step] at h
    split at h
    · rename_i hidle
      obtain ⟨-, hscript⟩ := hwait
      simp [hidle] at hscript
    · cases h
  | respond =>
    simp only [step] at h
    split at h
    · cases h
    · rename_i entry rest hwritten
      obtain rfl := Option.some.inj h
      have hnone := (hs ht).outstanding.2.2.1
      rw [hwritten] at hnone
      cases hnone
  | interrupt i =>
    obtain rfl := Option.some.inj h
    exact (hs (raised_callQueueTryAdd ht)).callQueueTryAdd _ (by cases i <;> rfl)

/-! ### The responses -/

/-- How many of the executed commands are neither running nor unanswered nor unread. -/
def settled (s : System) : Nat :=
  s.executed.length - ((s.threads .core1).pc.executing.toList.length + s.device.written.length +
    s.device.answered.length)

theorem settled_le (s : System) : s.settled ≤ s.executed.length := Nat.sub_le _ _

theorem settled_goto_core0 (pc : Pc) (script : List Call) :
    (s.goto .core0 pc script).settled = s.settled := by
  simp [settled, goto]

theorem settled_goto_core1 (pc : Pc) (script : List Call) :
    (s.goto .core1 pc script).settled = s.executed.length -
      (pc.executing.toList.length + s.device.written.length + s.device.answered.length) := by
  simp [settled, goto]

theorem settled_goto_le {c : Core} (hexec : (s.threads c).pc.executing = none) (pc : Pc)
    (script : List Call) : (s.goto c pc script).settled ≤ s.settled := by
  cases c with
  | core0 => exact Nat.le_of_eq (settled_goto_core0 pc script)
  | core1 =>
    rw [settled_goto_core1, settled, hexec]
    simp only [Option.toList_none, List.length_nil]
    omega

theorem settled_tryRemove_le {c : Core} (hexec : (s.threads c).pc.executing = none)
    (chained : Bool) (script : List Call) : (s.tryRemove c chained script).settled ≤ s.settled := by
  unfold tryRemove
  split
  · exact settled_goto_le hexec _ _
  · rename_i entry rest _
    exact settled_goto_le (s := { s with opcodeQueue := rest }) hexec _ _

theorem settled_callQueueTryAdd_le {c : Core} (hexec : (s.threads c).pc.executing = none)
    (job : Job) : (s.callQueueTryAdd c job).settled ≤ s.settled := by
  unfold callQueueTryAdd
  split
  · exact Nat.le_refl _
  · exact settled_goto_le hexec _ _

theorem settled_call_le {c : Core} (hexec : (s.threads c).pc.executing = none)
    {script : List Call} {call : Call} (hcall : call ≠ .onOpcodeCmdResponse)
    (h : s.call c script call = some t) : t.settled ≤ s.settled := by
  cases call with
  | opcodeQueueAdd entry =>
    obtain rfl := Option.some.inj h
    exact settled_goto_le (s := { s with opcodesFinished := false }) hexec _ _
  | opcodeQueuePop =>
    obtain rfl := Option.some.inj h
    exact settled_tryRemove_le hexec _ _
  | onOpcodeCmdResponse => exact absurd rfl hcall
  | callQueueTryAddPdMsg =>
    obtain rfl := Option.some.inj h
    refine Nat.le_trans (settled_callQueueTryAdd_le ?_ _) (settled_goto_le hexec _ _)
    rw [threads_goto_self]
    rfl
  | waitOpcodesFinished =>
    simp only [call] at h
    split at h
    · obtain rfl := Option.some.inj h
      exact settled_goto_le hexec _ _
    · cases h

theorem settled_stepCore_le {c : Core} (hread : ¬ s.ReadsResponse (.core c))
    (h : s.stepCore c = some t) : t.settled ≤ s.settled := by
  unfold stepCore at h
  cases hpc : (s.threads c).pc with
  | next =>
    have hexec : (s.threads c).pc.executing = none := by rw [hpc]; rfl
    simp only [hpc] at h
    split at h
    · cases h
    · rename_i call rest hscript
      refine settled_call_le hexec (fun hcall => hread ⟨hpc, ?_⟩) h
      rw [hscript, hcall]
      rfl
  | adding entry | holding chained entry =>
    have hexec : (s.threads c).pc.executing = none := by rw [hpc]; rfl
    simp only [hpc] at h
    split at h
    · obtain rfl := Option.some.inj h
      exact settled_goto_le (by exact hexec) _ _
    · obtain rfl := Option.some.inj h
      exact settled_goto_le hexec _ _
  | responded =>
    have hexec : (s.threads c).pc.executing = none := by rw [hpc]; rfl
    simp only [hpc] at h
    obtain rfl := Option.some.inj h
    exact settled_tryRemove_le hexec _ _
  | finishing =>
    have hexec : (s.threads c).pc.executing = none := by rw [hpc]; rfl
    simp only [hpc] at h
    obtain rfl := Option.some.inj h
    exact settled_goto_le (s := { s with opcodesFinished := true }) hexec _ _
  | running entry =>
    simp only [hpc] at h
    obtain rfl := Option.some.inj h
    cases c with
    | core0 =>
      rw [settled_goto_core0, settled, settled]
      simp only [List.length_append]
      omega
    | core1 =>
      rw [settled_goto_core1, settled, hpc]
      simp [Pc.executing]
      omega
  | halted inHand => simp [hpc] at h

theorem settled_step_le {a : Action} (hread : ¬ s.ReadsResponse a) (h : s.step a = some t) :
    t.settled ≤ s.settled := by
  cases a with
  | core c => exact settled_stepCore_le hread h
  | callQueuePop r msg =>
    obtain ⟨job, rest, hidle, -, ⟨entry, rfl, rfl⟩ | ⟨-, bit, script, rfl⟩⟩ := takeJob_cases h
    · rw [settled_goto_core1, settled, hidle]
      simp [Pc.executing]
      omega
    · rw [settled_goto_core1, settled, hidle]
  | routine routine =>
    simp only [step] at h
    split at h
    · obtain rfl := Option.some.inj h
      exact Nat.le_of_eq (settled_goto_core0 _ _)
    · cases h
  | respond =>
    simp only [step] at h
    split at h
    · cases h
    · rename_i entry rest hwritten
      obtain rfl := Option.some.inj h
      simp only [settled, hwritten, List.length_cons, List.length_append, List.length_nil]
      omega
  | interrupt i =>
    obtain rfl := Option.some.inj h
    unfold callQueueTryAdd
    split
    · exact Nat.le_refl _
    · exact Nat.le_of_eq (settled_goto_core0 _ _)

/-! ### core0 on its way to the wait -/

def Shape (script : List Call) : Prop :=
  .waitOpcodesFinished ∉ script ∨
    (∃ entry, script = [.opcodeQueueAdd entry, .opcodeQueuePop, .waitOpcodesFinished]) ∨
      script = [.opcodeQueuePop, .waitOpcodesFinished] ∨ script = [.waitOpcodesFinished]

theorem Shape.tail {call : Call} {rest : List Call} (h : Shape (call :: rest)) : Shape rest := by
  rcases h with h | ⟨entry, h⟩ | h | h
  · exact .inl fun hmem => h (List.mem_cons_of_mem _ hmem)
  · obtain ⟨-, rfl⟩ := List.cons.inj h
    exact .inr (.inr (.inl rfl))
  · obtain ⟨-, rfl⟩ := List.cons.inj h
    exact .inr (.inr (.inr rfl))
  · obtain ⟨-, rfl⟩ := List.cons.inj h
    exact .inl List.not_mem_nil

theorem shape_routine (routine : Routine) : Shape routine.script := by
  cases routine <;> exact .inr (.inl ⟨_, rfl⟩)

theorem shape_max77958Init (ccStatus0 : Byte) : Shape (max77958Init ccStatus0) := by
  left
  unfold max77958Init ccStatCalls
  split
  · simp [vbusTurnOff]
  · split <;> simp [vbusTurnOff]

/-- core0 makes its calls in order and runs no jobs. -/
structure Direct (thread : Thread) : Prop where
  pc : thread.pc.direct = true
  chainless : Chainless thread.script
  shape : Shape thread.script

theorem threads_callQueueTryAdd_self (c : Core) (job : Job) :
    (s.callQueueTryAdd c job).threads c = s.threads c ∨
      (s.callQueueTryAdd c job).threads c =
        ⟨.halted (s.threads c).pc.held, (s.threads c).script⟩ := by
  unfold callQueueTryAdd
  split
  · exact .inl rfl
  · exact .inr (threads_goto_self c _ _)

theorem threads_tryRemove_self (c : Core) (chained : Bool) (script : List Call) :
    ∃ pc, (s.tryRemove c chained script).threads c = ⟨pc, script⟩ ∧
      (chained = false → pc = .next ∨ ∃ entry, pc = .holding false entry) := by
  unfold tryRemove
  split
  · exact ⟨_, threads_goto_self c _ _, fun h => .inl (by rw [h]; rfl)⟩
  · exact ⟨_, threads_goto_self c _ _, fun h => .inr ⟨_, by rw [h]⟩⟩

theorem threads_call_self {c : Core} {script : List Call} {call : Call}
    (hchain : call ≠ .onOpcodeCmdResponse) (h : s.call c script call = some t) :
    (t.threads c).script = script ∧ (t.threads c).pc.direct = true ∧
      ((∃ entry, call = .opcodeQueueAdd entry) → (t.threads c).pc.live = false) := by
  cases call with
  | opcodeQueueAdd entry =>
    obtain rfl := Option.some.inj h
    rw [threads_goto_self]
    exact ⟨rfl, rfl, fun _ => rfl⟩
  | opcodeQueuePop =>
    obtain rfl := Option.some.inj h
    obtain ⟨pc, hthread, hpc⟩ := threads_tryRemove_self (s := s) c false script
    rw [hthread]
    rcases hpc rfl with rfl | ⟨entry, rfl⟩
    · exact ⟨rfl, rfl, by simp⟩
    · exact ⟨rfl, rfl, by simp⟩
  | onOpcodeCmdResponse => exact absurd rfl hchain
  | callQueueTryAddPdMsg =>
    obtain rfl := Option.some.inj h
    have hself : (s.goto c .next script).threads c = ⟨.next, script⟩ := threads_goto_self c _ _
    rcases threads_callQueueTryAdd_self (s := s.goto c .next script) c .pdMsgResponse with
      hthread | hthread
    · rw [hthread, hself]
      exact ⟨rfl, rfl, by simp⟩
    · rw [hthread, hself]
      exact ⟨rfl, rfl, by simp⟩
  | waitOpcodesFinished =>
    simp only [call] at h
    split at h
    · obtain rfl := Option.some.inj h
      rw [threads_goto_self]
      exact ⟨rfl, rfl, by simp⟩
    · cases h

/-- Where core0 gets to: into its wait only from within, or by queueing its request. -/
theorem direct_stepCore (hd : Direct (s.threads .core0)) (h : s.stepCore .core0 = some t) :
    Direct (t.threads .core0) ∧
      (t.Awaiting → s.Awaiting ∨ ∃ entry, (s.threads .core0).pc = .adding entry) := by
  obtain ⟨hpc, hchain, hshape⟩ := hd
  have hkeep {pc : Pc} (hpc' : pc.direct = true) : Direct ⟨pc, (s.threads .core0).script⟩ :=
    ⟨hpc', hchain, hshape⟩
  unfold stepCore at h
  cases hpc0 : (s.threads .core0).pc with
  | next =>
    simp only [hpc0] at h
    split at h
    · cases h
    · rename_i call rest hscript
      rw [hscript] at hchain hshape
      have hcall : call ≠ .onOpcodeCmdResponse := fun heq => hchain (heq ▸ List.mem_cons_self)
      obtain ⟨hrest, hpc', hadd⟩ := threads_call_self hcall h
      refine ⟨⟨hpc', ?_, ?_⟩, fun ht => .inl ?_⟩
      · rw [hrest]
        exact fun hmem => hchain (List.mem_cons_of_mem _ hmem)
      · rw [hrest]
        exact hshape.tail
      · obtain ⟨hlive, hleft⟩ := ht
        rw [hrest] at hleft
        refine ⟨by rw [hpc0]; rfl, ?_⟩
        rw [hscript]
        rcases hshape with hnone | ⟨entry, heq⟩ | heq | heq
        · rcases hleft with rfl | rfl <;> simp at hnone
        · obtain ⟨rfl, -⟩ := List.cons.inj heq
          rw [hadd ⟨entry, rfl⟩] at hlive
          cases hlive
        · exact .inl heq
        · exact .inr heq
  | adding entry =>
    simp only [hpc0] at h
    refine ⟨?_, fun _ => .inr ⟨entry, rfl⟩⟩
    split at h
    · obtain rfl := Option.some.inj h
      rw [threads_goto_self]
      exact hkeep rfl
    · obtain rfl := Option.some.inj h
      rw [halt, threads_goto_self]
      exact hkeep rfl
  | holding chained entry =>
    have hdirect : chained = false := by
      rw [hpc0] at hpc
      cases chained
      · rfl
      · cases hpc
    subst hdirect
    have hthread : t.threads .core0 = ⟨.next, (s.threads .core0).script⟩ := by
      simp only [hpc0] at h
      split at h <;> obtain rfl := Option.some.inj h <;> exact threads_goto_self _ _ _
    refine ⟨by rw [hthread]; exact hkeep rfl, fun ht => .inl ⟨by rw [hpc0]; rfl, ?_⟩⟩
    have hleft := ht.2
    rwa [hthread] at hleft
  | responded | finishing | running _ => simp [hpc0, Pc.direct] at hpc
  | halted inHand => simp [hpc0] at h

theorem direct_step (hd : Direct (s.threads .core0)) {a : Action} (h : s.step a = some t) :
    Direct (t.threads .core0) ∧ (t.Awaiting → s.Awaiting ∨
      a = .core .core0 ∧ ∃ entry, (s.threads .core0).pc = .adding entry) := by
  have hsame (hthread : t.threads .core0 = s.threads .core0) :
      Direct (t.threads .core0) ∧ (t.Awaiting → s.Awaiting ∨
        a = .core .core0 ∧ ∃ entry, (s.threads .core0).pc = .adding entry) := by
    refine ⟨hthread ▸ hd, fun ht => .inl ?_⟩
    unfold Awaiting at ht ⊢
    rwa [hthread] at ht
  cases a with
  | core c =>
    cases c with
    | core0 =>
      obtain ⟨hdirect, hwait⟩ := direct_stepCore hd h
      exact ⟨hdirect, fun ht => (hwait ht).imp id fun hadd => ⟨rfl, hadd⟩⟩
    | core1 => exact hsame (threads_stepCore_of_ne (by decide) h)
  | callQueuePop r msg =>
    obtain ⟨job, rest, -, -, ⟨entry, -, rfl⟩ | ⟨-, bit, script, rfl⟩⟩ := takeJob_cases h
    · exact hsame (threads_goto_of_ne (by decide) _ _)
    · exact hsame (threads_goto_of_ne (by decide) _ _)
  | routine routine =>
    simp only [step] at h
    split at h
    · obtain rfl := Option.some.inj h
      rw [threads_goto_self]
      refine ⟨⟨rfl, chainless_routine routine, shape_routine routine⟩, ?_⟩
      intro ht
      have hleft := ht.2
      rw [threads_goto_self] at hleft
      cases routine <;> simp [Routine.script] at hleft
    · cases h
  | respond =>
    simp only [step] at h
    split at h
    · cases h
    · obtain rfl := Option.some.inj h
      exact hsame rfl
  | interrupt i =>
    obtain rfl := Option.some.inj h
    rcases threads_callQueueTryAdd_self (s := s) .core0 i.job with hthread | hthread
    · exact hsame hthread
    · rw [hthread]
      refine ⟨⟨rfl, hd.chainless, hd.shape⟩, ?_⟩
      intro ht
      have hlive := ht.1
      rw [hthread] at hlive
      cases hlive

theorem moveOf_ne_drop (hwait : s.Awaiting) {a : Action} (hok : s.FlagKept a) (c : Core)
    (entry : OpcodeEntry) : s.moveOf a ≠ .drop c entry := by
  have htake (d : Core) : s.takeMove d ≠ .drop c entry := by
    unfold takeMove
    split <;> simp
  cases a with
  | core d =>
    have hfits := hok.2.2
    unfold PoppedFits at hfits
    simp only [moveOf, coreMove]
    cases hpc : (s.threads d).pc with
    | next =>
      cases hscript : (s.threads d).script with
      | nil => simp
      | cons call rest =>
        cases call with
        | opcodeQueuePop => exact htake d
        | opcodeQueueAdd _ | onOpcodeCmdResponse | callQueueTryAddPdMsg | waitOpcodesFinished =>
          simp [callMove]
    | adding _ =>
      simp only
      split <;> simp
    | responded => exact htake d
    | holding chained e =>
      simp only [hpc] at hfits
      simp [hfits hwait]
    | finishing | running _ | halted _ => simp
  | callQueuePop r msg =>
    simp only [moveOf]
    cases s.callQueue.head?.bind Job.entry <;> simp
  | routine _ | respond | interrupt _ => simp [moveOf]

end System

namespace Watched

/-! ### The invariant -/

structure Waiting (w : Watched) : Prop where
  flag : w.system.Raised → w.system.Quiet
  own : ∃ entry place, w.own = some (entry, place) ∧ w.system.ledger.At entry place ∧
    ∀ n, place = .executed n → n < w.system.settled → n ∈ w.read

structure Inv (w : Watched) : Prop where
  sequential : w.system.Sequential
  core0 : System.Direct (w.system.threads .core0)
  waiting : w.system.Awaiting → w.Waiting

variable {w v : Watched}

theorem inv_boot (ccStatus0 : Byte) : (boot ccStatus0).Inv where
  sequential := System.sequential_boot ccStatus0
  core0 := ⟨rfl, System.chainless_max77958Init ccStatus0, System.shape_max77958Init ccStatus0⟩
  waiting := by
    rintro ⟨-, h | h⟩ <;> simp [boot, Max77958.boot, max77958Init] at h

theorem mem_readAfter {n : Nat} (h : n ∈ w.read) (a : Action) : n ∈ w.readAfter a := by
  unfold readAfter
  split
  · exact List.mem_append_left _ h
  · exact h

/-- What a step settles, it reads. -/
theorem settled_or_read {t : System} (hseq : w.system.Sequential) (hwait : w.system.Awaiting)
    {a : Action} (h : w.system.step a = some t) {n : Nat} (hn : n < t.settled) :
    n < w.system.settled ∨ n ∈ w.readAfter a := by
  by_cases hread : w.system.ReadsResponse a
  · obtain ⟨c, rfl⟩ : ∃ c, a = .core c := by
      cases a with
      | core c => exact ⟨c, rfl⟩
      | callQueuePop _ _ | routine _ | respond | interrupt _ => exact hread.elim
    obtain ⟨hpc, hhead⟩ := hread
    cases c with
    | core0 => rcases hwait.2 with hscript | hscript <;> simp [hscript] at hhead
    | core1 =>
      have hone := hseq.answered_le
      obtain ⟨rest, hscript⟩ : ∃ rest,
          (w.system.threads .core1).script = .onOpcodeCmdResponse :: rest :=
        List.head?_eq_some_iff.mp hhead
      simp only [System.step, System.stepCore, hpc, hscript, System.call] at h
      obtain rfl := Option.some.inj h
      rw [System.settled_goto_core1] at hn
      simp only [System.settled, readAfter, hpc]
      simp only [Pc.executing, Option.toList_none, List.length_nil, Nat.zero_add,
        Nat.add_zero] at hn ⊢
      by_cases hnone : w.system.device.answered = []
      · left
        simpa [hnone] using hn
      · have hpos := List.length_pos_iff.mpr hnone
        rw [if_pos ⟨⟨hpc, hhead⟩, hnone⟩]
        by_cases hlast : n = w.system.executed.length - w.system.device.written.length - 1
        · exact .inr (by simp [hlast])
        · left
          omega
  · exact .inl (Nat.lt_of_lt_of_le hn (System.settled_step_le hread h))

theorem own_of_accept {t : System} {entry : OpcodeEntry}
    (hmove : w.system.moveOf (.core .core0) = .accept entry)
    (h : w.system.step (.core .core0) = some t) :
    ∃ entry place, w.ownAfter (.core .core0) = some (entry, place) ∧ t.ledger.At entry place ∧
      ∀ n, place = .executed n → n < t.settled → n ∈ w.readAfter (.core .core0) := by
  obtain ⟨-, hledger⟩ := System.step_ledger h
  rw [hmove] at hledger
  refine ⟨entry, .waiting w.system.opcodeQueue.length, ?_, ?_, nofun⟩
  · simp only [ownAfter, hmove]
  · rw [hledger]
    simp [Ledger.At, Ledger.apply, System.ledger]

theorem own_step {t : System} (hseq : w.system.Sequential) (hw : w.Waiting)
    (hwait : w.system.Awaiting) {a : Action} (hok : w.system.FlagKept a)
    (h : w.system.step a = some t) :
    ∃ entry place, w.ownAfter a = some (entry, place) ∧ t.ledger.At entry place ∧
      ∀ n, place = .executed n → n < t.settled → n ∈ w.readAfter a := by
  obtain ⟨entry, place, hown, hat, hread⟩ := hw.own
  obtain ⟨happ, hledger⟩ := System.step_ledger h
  by_cases haccept : a = .core .core0 ∧ ∃ e, w.system.moveOf a = .accept e
  · obtain ⟨rfl, e, hmove⟩ := haccept
    exact own_of_accept hmove h
  · refine ⟨entry, w.system.ledger.follow (w.system.moveOf a) place, ?_, ?_, ?_⟩
    · unfold ownAfter
      split
      · exact absurd ⟨rfl, _, ‹_›⟩ haccept
      · rw [hown]
        rfl
    · rw [hledger]
      exact Ledger.at_follow hat happ (System.moveOf_ne_drop hwait hok)
    · intro n hn hlt
      rcases settled_or_read hseq hwait h hlt with hold | hnew
      · rcases Ledger.follow_eq_executed hn with hplace | hfresh
        · exact mem_readAfter (hread n hplace hold) a
        · have hle := w.system.settled_le
          have hlen : n = w.system.executed.length := hfresh
          omega
      · exact hnew

theorem waiting_of_adding {t : System} {entry : OpcodeEntry}
    (hpc : (w.system.threads .core0).pc = .adding entry)
    (hclear : w.system.RequestFindsClear (.core .core0))
    (h : w.system.step (.core .core0) = some t) (ht : t.Awaiting) :
    Waiting ⟨t, w.ownAfter (.core .core0), w.readAfter (.core .core0)⟩ := by
  have hstep := h
  simp only [System.step, System.stepCore, hpc] at hstep
  split at hstep
  · rename_i hroom
    have hmove : w.system.moveOf (.core .core0) = .accept entry := by
      simp only [System.moveOf, System.coreMove, hpc, if_pos hroom]
    refine ⟨?_, own_of_accept hmove h⟩
    intro hraised
    obtain rfl := Option.some.inj hstep
    have hleft := ht.2
    rw [System.threads_goto_self] at hleft
    have hcaller : .waitOpcodesFinished ∈ (w.system.threads .core0).script := by
      rcases hleft with heq | heq <;> simp only at heq <;> rw [heq] <;> simp
    unfold System.RequestFindsClear at hclear
    simp only [hpc] at hclear
    obtain ⟨hflag, hfinishing⟩ := hclear trivial hcaller
    rcases System.raised_goto_core0 hraised with hset | hset
    · exact absurd hset (by simp [hflag])
    · exact absurd hset hfinishing
  · obtain rfl := Option.some.inj hstep
    have hlive := ht.1
    rw [System.halt, System.threads_goto_self] at hlive
    cases hlive

theorem inv_step {a : Action} (hi : w.Inv) (hok : w.system.FlagKept a) (h : w.step a = some v) :
    v.Inv := by
  obtain ⟨t, ht, rfl⟩ := Option.map_eq_some_iff.mp h
  obtain ⟨hdirect, hwait⟩ := System.direct_step hi.core0 ht
  have hseq := hi.sequential
  refine ⟨hseq.step hok.1 ht, hdirect, ?_⟩
  intro hawait
  rcases hwait hawait with hwas | ⟨rfl, entry, hpc⟩
  · have hw := hi.waiting hwas
    exact ⟨System.quiet_step hseq hw.flag hwas hok ht, own_step hseq hw hwas hok ht⟩
  · exact waiting_of_adding hpc hok.2.1 ht hawait

theorem Inv.waitIsRight (hi : w.Inv) : w.WaitIsRight := by
  rintro ⟨hpc, hhead, hflag⟩
  have hscript : (w.system.threads .core0).script = [.waitOpcodesFinished] := by
    rcases hi.core0.shape with hnone | ⟨entry, heq⟩ | heq | heq
    · exact absurd (List.mem_of_mem_head? hhead) hnone
    · simp [heq] at hhead
    · simp [heq] at hhead
    · exact heq
  obtain ⟨hquiet, entry, place, hown, hat, hread⟩ :=
    hi.waiting ⟨by rw [hpc]; rfl, .inr hscript⟩
  have hq := hquiet (.inl hflag)
  obtain ⟨hcalled, hexec, hwritten, hanswered⟩ := hq.outstanding
  refine ⟨?_, hq.1⟩
  cases place with
  | executed n =>
    obtain ⟨hlt, -⟩ := List.getElem?_eq_some_iff.mp hat
    have hsettled : w.system.settled = w.system.executed.length := by
      simp [System.settled, hexec, hwritten, hanswered]
    simp only [OwnResponseRead, hown]
    exact ⟨hat, hread n rfl (hsettled.symm ▸ hlt)⟩
  | waiting n =>
    have hempty : w.system.opcodeQueue[n]? = some entry := hat
    simp [hq.opcodeQueue] at hempty
  | held c => cases (hq.pc_held c).symm.trans hat
  | called n =>
    have hempty : w.system.called[n]? = some entry := hat
    simp [hcalled] at hempty
  | dropped => exact hat.elim

/-- core1 takes the next command and writes it to the device. -/
def executes : List Action := [.callQueuePop ⟨0, 0, 0, 0, 0, 0, 0⟩ .other, .core .core1]

/-- The response job, with both branches of `on_opcode_cmd_response` three steps long. -/
def responds : List Action :=
  [.callQueuePop ⟨0x80, 0, 0, 0, 0, 0, 0⟩ .other, .core .core1, .core .core1, .core .core1]

def answers : List Action := [.respond, .interrupt .max77958]

end Watched

end SrFirmware.Max77958
