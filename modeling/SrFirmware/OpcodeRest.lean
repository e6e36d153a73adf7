import SrFirmware.OpcodeSequence

/-!
# Opcode requests at rest

An addition to `opcode_queue` is followed by a pop of the same routine, and a popped command is
answered, and its answer pops the next. A request is left in the queue only while one of these
is still to come.
-/

namespace SrFirmware.Max77958

open Lib
set_option autoImplicit false

/-- A pop is to come: one of its own, or that of a response. -/
def Reaches (script : List Call) : Prop :=
  .opcodeQueuePop ∈ script ∨ .onOpcodeCmdResponse ∈ script

def PopsAfterAdds : List Call → Prop
  | [] => True
  | call :: rest => (∀ entry, call = .opcodeQueueAdd entry → Reaches rest) ∧ PopsAfterAdds rest

/-- The pop is under way, or the entry that it took. A halted core counts: it rests no more. -/
def Pc.popping : Pc → Prop
  | .next | .adding _ | .finishing => False
  | .responded | .holding _ _ | .running _ | .halted _ => True

def Thread.Alive (th : Thread) : Prop := th.pc.popping ∨ Reaches th.script

structure Thread.Paired (th : Thread) : Prop where
  script : PopsAfterAdds th.script
  adding : ∀ entry, th.pc = .adding entry → Reaches th.script

namespace System

/-- Something is still to come that pops. -/
def Alive (s : System) : Prop :=
  (∃ c, (s.threads c).Alive) ∨ s.called ≠ [] ∨ s.device.written ≠ [] ∨
    s.device.apCmdResI = true

structure Chained (s : System) : Prop where
  paired : ∀ c, (s.threads c).Paired
  alive : s.opcodeQueue ≠ [] → s.Alive

/-- Both cores idle, no job queued, no command unanswered and the interrupt bit clear. -/
structure AtRest (s : System) : Prop where
  idle : ∀ c, s.threads c = ⟨.next, []⟩
  callQueue : s.callQueue = []
  written : s.device.written = []
  bit : s.device.apCmdResI = false

end System

/-! ### Scripts -/

theorem not_reaches_nil : ¬ Reaches [] := by simp [Reaches]

theorem Reaches.append_right {a : List Call} (b : List Call) (h : Reaches a) :
    Reaches (a ++ b) := by
  rcases h with h | h
  · exact .inl (List.mem_append_left b h)
  · exact .inr (List.mem_append_left b h)

theorem PopsAfterAdds.append {a b : List Call} (ha : PopsAfterAdds a) (hb : PopsAfterAdds b) :
    PopsAfterAdds (a ++ b) := by
  induction a with
  | nil => exact hb
  | cons call rest ih =>
    refine ⟨?_, ih ha.2⟩
    intro entry hentry
    exact (ha.1 entry hentry).append_right b

theorem popsAfterAdds_single {call : Call} (h : ∀ entry, call ≠ .opcodeQueueAdd entry) :
    PopsAfterAdds [call] := ⟨fun entry he => absurd he (h entry), trivial⟩

theorem popsAfterAdds_request (entry : OpcodeEntry) (rest : List Call)
    (h : PopsAfterAdds rest) : PopsAfterAdds (.opcodeQueueAdd entry :: .opcodeQueuePop :: rest) :=
  ⟨fun _ _ => .inl List.mem_cons_self, nofun, h⟩

theorem popsAfterAdds_ccStatCalls (ccStatus0 : Byte) : PopsAfterAdds (ccStatCalls ccStatus0) := by
  unfold ccStatCalls
  split
  · exact popsAfterAdds_request _ [] trivial
  · split
    · exact popsAfterAdds_request _ [] trivial
    · trivial

theorem popsAfterAdds_pdMsgResponse (msg : PdMsg) : PopsAfterAdds (pdMsgResponse msg) := by
  cases msg with
  | prswapSwapToSnk | prswapSwapToSrc => exact popsAfterAdds_request _ [] trivial
  | prswapSrcToSwap | prswapSnkToSwap | other => trivial

theorem popsAfterAdds_routine (routine : Routine) : PopsAfterAdds routine.script := by
  cases routine with
  | check | max77958Shutdown => exact popsAfterAdds_request _ _ (popsAfterAdds_single nofun)

theorem popsAfterAdds_max77958Init (ccStatus0 : Byte) :
    PopsAfterAdds (max77958Init ccStatus0) := by
  apply PopsAfterAdds.append
  · refine ⟨?_, ?_, ?_, popsAfterAdds_single nofun⟩ <;>
      exact fun _ _ => .inl (by simp)
  · exact popsAfterAdds_ccStatCalls ccStatus0

def KeepsPairs (f : Service → Service) : Prop :=
  ∀ s, PopsAfterAdds s.calls → PopsAfterAdds (f s).calls

theorem KeepsPairs.check {f : Service → Service} (hf : KeepsPairs f) (c : Cause) :
    KeepsPairs (check c f) := by
  intro s hs
  unfold Max77958.check
  split
  · exact hf { s with handled := s.handled ++ [c] } hs
  · exact hs

theorem popsAfterAdds_parseInterruptVals (r : Readings) :
    PopsAfterAdds (parseInterruptVals r).calls := by
  have hid : KeepsPairs id := fun _ hs => hs
  have hresponse : KeepsPairs onOpcodeCmdResponse :=
    fun _ hs => hs.append (popsAfterAdds_single nofun)
  have hpd : KeepsPairs onPdMsgReceived := fun _ hs => hs.append (popsAfterAdds_single nofun)
  have hchg : KeepsPairs (onChgTypeChange r) := fun _ hs => hs
  have hcc : KeepsPairs (onCcStatChange r) := fun _ hs => hs.append (popsAfterAdds_ccStatCalls _)
  unfold parseInterruptVals
  apply hid.check
  apply hid.check
  apply hid.check
  apply hcc.check
  apply hchg.check
  apply hpd.check
  apply hid.check
  apply hresponse.check
  trivial

theorem reaches_parseInterruptVals {r : Readings}
    (h : Cause.apCmdResI.raised r.snapshot = true) : Reaches (parseInterruptVals r).calls := by
  obtain ⟨rest, -, hcalls⟩ := System.parseInterruptVals_calls r
  rw [hcalls, if_pos h]
  exact .inr List.mem_cons_self

/-! ### Steps -/

namespace System
variable {s t : System} {c : Core}

theorem not_alive_of_atRest (h : s.AtRest) : ¬ s.Alive := by
  rintro (⟨c, hc | hc⟩ | hcalled | hwritten | hbit)
  · rw [h.idle c] at hc
    exact hc
  · rw [h.idle c] at hc
    exact not_reaches_nil hc
  · exact hcalled (by rw [called, h.callQueue]; rfl)
  · exact hwritten h.written
  · exact absurd (h.bit.symm.trans hbit) (by decide)

theorem chained_boot (ccStatus0 : Byte) : (boot ccStatus0).Chained where
  paired := by
    intro c
    cases c with
    | core0 => exact ⟨popsAfterAdds_max77958Init ccStatus0, nofun⟩
    | core1 => exact ⟨trivial, nofun⟩
  alive := nofun

theorem threads_goto (s : System) (c : Core) (pc : Pc) (script : List Call) :
    (s.goto c pc script).threads = Function.update s.threads c ⟨pc, script⟩ := rfl

theorem paired_goto {pc : Pc} {script : List Call} (h : ∀ d, (s.threads d).Paired)
    (hth : (⟨pc, script⟩ : Thread).Paired) : ∀ d, ((s.goto c pc script).threads d).Paired := by
  intro d
  rw [threads_goto]
  by_cases hd : d = c
  · subst hd
    rw [Function.update_self]
    exact hth
  · rw [Function.update_of_ne hd]
    exact h d

/-- A thread that pops goes on. -/
theorem alive_goto {pc : Pc} {script : List Call} (hth : (⟨pc, script⟩ : Thread).Alive) :
    (s.goto c pc script).Alive := by
  refine .inl ⟨c, ?_⟩
  rw [threads_goto, Function.update_self]
  exact hth

/-- Everything else stays alive while one thread moves. -/
theorem alive_goto_of (h : s.Alive) {pc : Pc} {script : List Call}
    (hth : (s.threads c).Alive → (⟨pc, script⟩ : Thread).Alive) :
    (s.goto c pc script).Alive := by
  rcases h with ⟨d, hd⟩ | hrest
  · by_cases hdc : d = c
    · subst hdc
      exact alive_goto (hth hd)
    · refine .inl ⟨d, ?_⟩
      rw [threads_goto, Function.update_of_ne hdc]
      exact hd
  · exact .inr hrest

theorem Alive.congr (h : s.Alive) (hthreads : t.threads = s.threads)
    (hcalled : t.called = s.called) (hdevice : t.device = s.device) : t.Alive := by
  unfold Alive at h ⊢
  rw [hthreads, hcalled, hdevice]
  exact h

namespace Chained

theorem goto (h : s.Chained) {u : System} (hthreads : u.threads = s.threads) {pc : Pc}
    {script : List Call} (hth : (⟨pc, script⟩ : Thread).Paired)
    (halive : u.opcodeQueue ≠ [] → (u.goto c pc script).Alive) :
    (u.goto c pc script).Chained := by
  refine ⟨?_, halive⟩
  apply paired_goto _ hth
  rw [hthreads]
  exact h.paired

/-- A step of one core that leaves the queues and the device as they are. -/
theorem goto_same (h : s.Chained) {u : System}
    (hsame : u.threads = s.threads ∧ u.called = s.called ∧ u.device = s.device ∧
      u.opcodeQueue = s.opcodeQueue) {pc : Pc} {script : List Call}
    (hth : (⟨pc, script⟩ : Thread).Paired)
    (halive : (s.threads c).Alive → (⟨pc, script⟩ : Thread).Alive) :
    (u.goto c pc script).Chained := by
  obtain ⟨hthreads, hcalled, hdevice, hqueue⟩ := hsame
  apply h.goto hthreads hth
  intro hq
  have hu : u.Alive := (h.alive (hqueue ▸ hq)).congr hthreads hcalled hdevice
  apply alive_goto_of hu
  rw [hthreads]
  exact halive

theorem halt (h : s.Chained) : (s.halt c).Chained :=
  h.goto rfl ⟨(h.paired c).script, nofun⟩ fun _ => alive_goto (.inl trivial)

theorem callQueueTryAdd (h : s.Chained) {job : Job} (hjob : job.entry = none) :
    (s.callQueueTryAdd c job).Chained := by
  unfold System.callQueueTryAdd
  split
  · refine ⟨h.paired, ?_⟩
    intro hq
    exact (h.alive hq).congr rfl (by simp [called, hjob]) rfl
  · exact h.halt

/-- A pop that finds an entry takes it. -/
theorem tryRemove (h : s.Chained) {chained : Bool} {script : List Call}
    (hscript : PopsAfterAdds script) : (s.tryRemove c chained script).Chained := by
  unfold System.tryRemove
  cases hq : s.opcodeQueue with
  | nil =>
    apply h.goto rfl
    · exact ⟨hscript, by cases chained <;> exact nofun⟩
    · exact fun hne => absurd hq hne
  | cons entry rest =>
    exact h.goto (u := { s with opcodeQueue := rest }) rfl ⟨hscript, nofun⟩
      fun _ => alive_goto (.inl trivial)

theorem call (h : s.Chained) (hpc : (s.threads c).pc = .next) {call : Call} {rest : List Call}
    (hscript : (s.threads c).script = call :: rest) (hstep : s.call c rest call = some t) :
    t.Chained := by
  have hpaired : PopsAfterAdds (call :: rest) := hscript ▸ (h.paired c).script
  -- a call that is no pop leaves the pops of the script to come
  have hkept : call ≠ .opcodeQueuePop → call ≠ .onOpcodeCmdResponse →
      (s.threads c).Alive → (⟨.next, rest⟩ : Thread).Alive := by
    intro hpop hresponse hth
    rcases hth with hth | hth
    · rw [hpc] at hth
      exact hth.elim
    · rw [hscript] at hth
      refine .inr ?_
      rcases hth with hmem | hmem
      · exact .inl ((List.mem_cons.mp hmem).resolve_left (Ne.symm hpop))
      · exact .inr ((List.mem_cons.mp hmem).resolve_left (Ne.symm hresponse))
  cases call with
  | opcodeQueueAdd entry =>
    obtain rfl := Option.some.inj hstep
    have hreaches := hpaired.1 entry rfl
    exact h.goto (u := { s with opcodesFinished := false }) rfl
      ⟨hpaired.2, fun _ _ => hreaches⟩ fun _ => alive_goto (.inr hreaches)
  | opcodeQueuePop =>
    obtain rfl := Option.some.inj hstep
    exact h.tryRemove hpaired.2
  | onOpcodeCmdResponse =>
    obtain rfl := Option.some.inj hstep
    exact h.goto (u := { s with device := { s.device with answered := [] } }) rfl
      ⟨hpaired.2, by simp⟩ fun _ => alive_goto (.inl trivial)
  | callQueueTryAddPdMsg =>
    obtain rfl := Option.some.inj hstep
    apply Chained.callQueueTryAdd _ rfl
    exact h.goto_same ⟨rfl, rfl, rfl, rfl⟩ ⟨hpaired.2, by simp⟩ (hkept (by simp) (by simp))
  | waitOpcodesFinished =>
    simp only [System.call] at hstep
    split at hstep
    · obtain rfl := Option.some.inj hstep
      exact h.goto_same ⟨rfl, rfl, rfl, rfl⟩ ⟨hpaired.2, by simp⟩ (hkept (by simp) (by simp))
    · cases hstep

theorem stepCore (h : s.Chained) (hok : s.PopsAlone (.core c)) (hstep : s.stepCore c = some t) :
    t.Chained := by
  have hth := h.paired c
  unfold System.stepCore at hstep
  cases hpc : (s.threads c).pc with
  | next =>
    cases hscript : (s.threads c).script with
    | nil => simp [hpc, hscript] at hstep
    | cons call rest =>
      simp only [hpc, hscript] at hstep
      exact h.call hpc hscript hstep
  | adding entry =>
    have hreaches := hth.adding entry hpc
    simp only [hpc] at hstep
    split at hstep
    · obtain rfl := Option.some.inj hstep
      exact h.goto (by rfl) ⟨hth.script, by nofun⟩ fun _ => alive_goto (.inr hreaches)
    · obtain rfl := Option.some.inj hstep
      exact h.halt
  | responded =>
    simp only [hpc] at hstep
    obtain rfl := Option.some.inj hstep
    exact h.tryRemove hth.script
  | holding chained entry =>
    have hroom := hok.2 ⟨chained, entry, hpc⟩
    simp only [hpc, if_pos hroom] at hstep
    obtain rfl := Option.some.inj hstep
    refine h.goto (by rfl) ⟨hth.script, by nofun⟩ ?_
    intro _
    refine .inr (.inl ?_)
    simp [System.goto, called, Job.entry]
  | finishing =>
    simp only [hpc] at hstep
    obtain rfl := Option.some.inj hstep
    refine h.goto_same (u := { s with opcodesFinished := true }) ⟨rfl, rfl, rfl, rfl⟩
      ⟨hth.script, nofun⟩ ?_
    rintro (hpop | hreaches)
    · rw [hpc] at hpop
      exact hpop.elim
    · exact .inr hreaches
  | running entry =>
    simp only [hpc] at hstep
    obtain rfl := Option.some.inj hstep
    refine h.goto (by rfl) ⟨hth.script, by nofun⟩ ?_
    intro _
    refine .inr (.inr (.inl ?_))
    simp [System.goto]
  | halted inHand => simp [hpc] at hstep

/-- An idle core1 takes a job that is no opcode function. -/
theorem goto_core1 (h : s.Chained) (hidle : s.threads .core1 = ⟨.next, []⟩) {u : System}
    (hthreads : u.threads = s.threads) (hqueue : u.opcodeQueue = s.opcodeQueue)
    {script : List Call} (hscript : PopsAfterAdds script)
    (halive : s.Alive → u.Alive ∨ Reaches script) : (u.goto .core1 .next script).Chained := by
  refine h.goto hthreads ⟨hscript, by nofun⟩ ?_
  intro hq
  rcases halive (h.alive (hqueue ▸ hq)) with hu | hreaches
  · apply alive_goto_of hu
    rw [hthreads, hidle]
    rintro (hpop | hnil)
    · exact hpop.elim
    · exact absurd hnil not_reaches_nil
  · exact alive_goto (.inr hreaches)

theorem takeJob (h : s.Chained) {r : Readings} {msg : PdMsg}
    (hstep : s.takeJob r msg = some t) : t.Chained := by
  unfold System.takeJob at hstep
  split at hstep
  · rename_i job rest hidle hqueue
    have hcalled (hjob : job.entry = none) : rest.filterMap Job.entry = s.called := by
      rw [called, hqueue, List.filterMap_cons, hjob]
    cases job with
    | opcode entry =>
      obtain rfl := Option.some.inj hstep
      exact h.goto (by rfl) ⟨trivial, by simp⟩ fun _ => alive_goto (.inl trivial)
    | parseInterruptVals =>
      simp only at hstep
      split at hstep
      · rename_i hseen
        obtain rfl := Option.some.inj hstep
        refine h.goto_core1 hidle (by rfl) (by rfl) (popsAfterAdds_parseInterruptVals r) ?_
        rintro (hth | hcall | hwritten | hbit)
        · exact .inl (.inl hth)
        · exact .inl (.inr (.inl (by rw [called, hcalled rfl]; exact hcall)))
        · exact .inl (.inr (.inr (.inl hwritten)))
        · exact .inr (reaches_parseInterruptVals (hseen.trans hbit))
      · cases hstep
    | pdMsgResponse =>
      obtain rfl := Option.some.inj hstep
      refine h.goto_core1 hidle (by rfl) (by rfl) (popsAfterAdds_pdMsgResponse msg) ?_
      exact fun halive => .inl (halive.congr (by rfl) (hcalled rfl) (by rfl))
    | max77958TestResponse | other =>
      obtain rfl := Option.some.inj hstep
      exact ⟨h.paired, fun hq => (h.alive hq).congr rfl (hcalled rfl) rfl⟩
  · cases hstep

theorem step (h : s.Chained) {a : Action} (hok : s.PopsAlone a) (hstep : s.step a = some t) :
    t.Chained := by
  cases a with
  | core c => exact h.stepCore hok hstep
  | callQueuePop r msg => exact h.takeJob hstep
  | routine routine =>
    simp only [System.step] at hstep
    split at hstep
    · rename_i hidle
      obtain rfl := Option.some.inj hstep
      refine h.goto_same ⟨rfl, rfl, rfl, rfl⟩ ⟨popsAfterAdds_routine routine, by simp⟩ ?_
      rw [hidle]
      rintro (hpop | hnil)
      · exact hpop.elim
      · exact absurd hnil not_reaches_nil
    · cases hstep
  | respond =>
    simp only [System.step] at hstep
    split at hstep
    · cases hstep
    · obtain rfl := Option.some.inj hstep
      exact ⟨h.paired, fun _ => .inr (.inr (.inr rfl))⟩
  | interrupt i =>
    obtain rfl := Option.some.inj hstep
    exact h.callQueueTryAdd (by cases i <;> rfl)

end Chained

theorem executed_eq_of_atRest (hs : s.Conserved) (hchained : s.Chained) (hrest : s.AtRest) :
    s.opcodeQueue = [] ∧ s.executed = s.accepted := by
  have hqueue : s.opcodeQueue = [] := by
    by_contra hne
    exact not_alive_of_atRest hrest (hchained.alive hne)
  have hheld : s.held = [] := by simp [held, hrest.idle, Pc.held]
  have hcalled : s.called = [] := by rw [called, hrest.callQueue]; rfl
  refine ⟨hqueue, ?_⟩
  simpa [hheld, hcalled, hqueue] using hs.1.symm

instance (pc : Pc) : Decidable (∃ chained entry, pc = .holding chained entry) :=
  match pc with
  | .holding chained entry => .isTrue ⟨chained, entry, rfl⟩
  | .next | .adding _ | .responded | .finishing | .running _ | .halted _ => .isFalse nofun

instance (s : System) (a : Action) : Decidable (s.PopsAlone a) :=
  match a with
  | .core c =>
    have : Decidable (s.Pops c) := inferInstanceAs (Decidable (_ ∨ _))
    inferInstanceAs (Decidable ((_ → _ → _) ∧ (_ → _)))
  | .callQueuePop _ _ | .routine _ | .respond | .interrupt _ => .isTrue trivial

/-- One command from `call_queue` to the pop that its response chains. -/
def commandRound : List Action :=
  [.callQueuePop ⟨0, 0, 0, 0, 0, 0, 0⟩ .other, .core .core1, .respond, .interrupt .max77958,
    .callQueuePop ⟨0x80, 0, 0, 0, 0, 0, 0⟩ .other, .core .core1, .core .core1, .core .core1]

end System

end SrFirmware.Max77958
