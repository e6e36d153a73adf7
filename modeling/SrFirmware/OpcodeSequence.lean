import SrFirmware.OpcodeOrder

/-!
# Opcode commands one after the other

The response to a command chains the next one, so one command is on its way at a time, as
long as nothing pops on its own while another command is on its way.
-/

namespace SrFirmware.Max77958

open Lib
set_option autoImplicit false

def Pc.executing : Pc → Option OpcodeEntry
  | .running entry => some entry
  | _ => none

/-- The commands a core has in its hands, or is about to take for a response it has read. -/
def Pc.load : Pc → Nat
  | .holding _ _ | .responded | .running _ | .halted (some _) => 1
  | _ => 0

def Pc.ofJob : Pc → Bool
  | .responded | .running _ => true
  | _ => false

namespace System

/-- Moved to `call_queue` or written to the device, and the response not read. -/
def outstanding (s : System) : List OpcodeEntry :=
  s.called ++ (s.threads .core1).pc.executing.toList ++ s.device.written ++ s.device.answered

def OneInFlight (s : System) : Prop := s.outstanding.length ≤ 1

/-- A pop that no response has chained takes an entry only when no command is outstanding and
the other core is neither in a pop nor between `opcode_read` and its pop. -/
def DirectPopsWait (s : System) : Action → Prop
  | .core c =>
    (s.threads c).pc = .next → (s.threads c).script.head? = some .opcodeQueuePop →
      s.opcodeQueue ≠ [] → s.outstanding = [] ∧ (s.threads c.other).pc.held = none ∧
        (s.threads c.other).pc ≠ .responded
  | _ => True

instance (s : System) (a : Action) : Decidable (s.DirectPopsWait a) :=
  match a with
  | .core _ => inferInstanceAs (Decidable (_ → _ → _ → _))
  | .callQueuePop _ _ | .routine _ | .respond | .interrupt _ => .isTrue trivial

/-! ### The invariant -/

def load (s : System) : Nat :=
  s.called.length + s.device.written.length + s.device.answered.length +
    (s.threads .core0).pc.load + (s.threads .core1).pc.load

def Chainless (script : List Call) : Prop := .onOpcodeCmdResponse ∉ script

structure Sequential (s : System) : Prop where
  load_le : s.load ≤ 1
  -- core0 runs no jobs
  core0_pc : (s.threads .core0).pc.ofJob = false
  core0_script : Chainless (s.threads .core0).script
  -- the interrupt bit stands for an answer to be read
  bit : s.device.apCmdResI = true → s.device.answered ≠ []
  -- so does a job that has seen the bit
  core1_script : Chainless (s.threads .core1).script ∨
    ∃ rest, (s.threads .core1).script = .onOpcodeCmdResponse :: rest ∧ Chainless rest ∧
      (s.threads .core1).pc = .next ∧ s.device.answered ≠ [] ∧ s.device.apCmdResI = false

theorem Pc.length_executing_le (pc : Pc) : pc.executing.toList.length ≤ pc.load := by
  cases pc <;> simp [Pc.executing, Pc.load]

theorem outstanding_length_le (s : System) : s.outstanding.length ≤ s.load := by
  have := Pc.length_executing_le (s.threads .core1).pc
  simp only [outstanding, load, List.length_append]
  omega

/-! ### Scripts -/

theorem chainless_vbusTurnOff : Chainless vbusTurnOff := by simp [Chainless, vbusTurnOff]
theorem chainless_vbusTurnOn : Chainless vbusTurnOn := by simp [Chainless, vbusTurnOn]

theorem chainless_routine (routine : Routine) : Chainless routine.script := by
  cases routine <;> simp [Chainless, Routine.script]

theorem chainless_pdMsgResponse (msg : PdMsg) : Chainless (pdMsgResponse msg) := by
  cases msg with
  | prswapSwapToSnk => exact chainless_vbusTurnOff
  | prswapSwapToSrc => exact chainless_vbusTurnOn
  | prswapSrcToSwap | prswapSnkToSwap | other => exact nofun

theorem chainless_ccStatCalls (ccStatus0 : Byte) : Chainless (ccStatCalls ccStatus0) := by
  unfold ccStatCalls
  split
  · exact chainless_vbusTurnOff
  · split
    · exact chainless_vbusTurnOff
    · exact nofun

theorem chainless_max77958Init (ccStatus0 : Byte) : Chainless (max77958Init ccStatus0) := by
  simpa [max77958Init, Chainless] using chainless_ccStatCalls ccStatus0

theorem sequential_boot (ccStatus0 : Byte) : (boot ccStatus0).Sequential where
  load_le := Nat.zero_le 1
  core0_pc := rfl
  core0_script := chainless_max77958Init ccStatus0
  bit := nofun
  core1_script := .inl nofun

def AddsChainless (f : Service → Service) : Prop :=
  ∀ s, ∃ calls, Chainless calls ∧ (f s).calls = s.calls ++ calls

theorem AddsChainless.check {f : Service → Service} (hf : AddsChainless f) (c : Cause) :
    AddsChainless (check c f) := by
  intro s
  unfold Max77958.check
  split
  · exact hf { s with handled := s.handled ++ [c] }
  · exact ⟨[], nofun, by simp⟩

theorem AddsChainless.comp {f g : Service → Service} (hf : AddsChainless f)
    (hg : AddsChainless g) : AddsChainless fun s => g (f s) := by
  intro s
  obtain ⟨cs, hcs, hfs⟩ := hf s
  obtain ⟨ds, hds, hgs⟩ := hg (f s)
  refine ⟨cs ++ ds, ?_, by rw [hgs, hfs, List.append_assoc]⟩
  intro h
  exact (List.mem_append.mp h).elim hcs hds

/-- A run of the job reads a response exactly when it has seen the bit, before anything else. -/
theorem parseInterruptVals_calls (r : Readings) :
    ∃ rest, Chainless rest ∧ (parseInterruptVals r).calls =
      (if Cause.apCmdResI.raised r.snapshot = true then [.onOpcodeCmdResponse] else []) ++
        rest := by
  have hid : AddsChainless id := fun s => ⟨[], nofun, by simp⟩
  have hpd : AddsChainless onPdMsgReceived :=
    fun s => ⟨[.callQueueTryAddPdMsg], by simp [Chainless], rfl⟩
  have hchg : AddsChainless (onChgTypeChange r) :=
    fun s => ⟨[], nofun, by simp [onChgTypeChange]⟩
  have hcc : AddsChainless (onCcStatChange r) :=
    fun s => ⟨ccStatCalls r.ccStatus0, chainless_ccStatCalls _, rfl⟩
  have hrest := (hid.check .psRdyI).comp <| (hpd.check .pdMsgI).comp <|
    (hchg.check .chgType).comp <| (hcc.check .ccStat).comp <| (hid.check .ccVcnStatI).comp <|
    (hid.check .ccIStatI).comp (hid.check .ccPinStatI)
  obtain ⟨rest, hchain, hcalls⟩ := hrest (check .apCmdResI onOpcodeCmdResponse
    ⟨r.snapshot, 0, [], []⟩)
  refine ⟨rest, hchain, hcalls.trans ?_⟩
  congr 1
  unfold check
  split <;> rfl

/-! ### Steps -/

theorem load_goto (s : System) (c : Core) (pc : Pc) (script : List Call) :
    (s.goto c pc script).load + (s.threads c).pc.load = s.load + pc.load := by
  cases c <;> simp [load, goto, called] <;> omega

theorem load_withDevice (s : System) (d : Device) :
    ({ s with device := d } : System).load + s.device.written.length + s.device.answered.length =
      s.load + d.written.length + d.answered.length := by
  simp only [load, called]
  omega

theorem load_dequeue {s : System} {job : Job} {rest : List Job} (h : s.callQueue = job :: rest) :
    ({ s with callQueue := rest } : System).load + job.entry.toList.length = s.load := by
  have hcalled : s.called = job.entry.toList ++ rest.filterMap Job.entry := by
    rw [called, h, List.filterMap_cons]
    cases job.entry <;> rfl
  have hlen := congrArg List.length hcalled
  rw [List.length_append] at hlen
  simp only [load, hlen]
  simp only [called]
  omega

theorem Sequential.goto_core1 {s u : System} (h : s.Sequential) (hthreads : u.threads = s.threads)
    (hbit : u.device.apCmdResI = true → u.device.answered ≠ []) {pc : Pc} {script : List Call}
    (hload : (u.goto .core1 pc script).load ≤ 1) (hscript : Chainless script) :
    (u.goto .core1 pc script).Sequential := by
  refine ⟨hload, ?_, ?_, hbit, .inl ?_⟩ <;> simp only [System.goto, hthreads]
  · simpa using h.core0_pc
  · simpa using h.core0_script
  · simpa using hscript

theorem Sequential.goto {s u : System} (h : s.Sequential) (hthreads : u.threads = s.threads)
    (hdevice : u.device = s.device) {c : Core} {pc : Pc} {script : List Call}
    (hload : (u.goto c pc script).load ≤ 1) (hpc : c = .core0 → pc.ofJob = false)
    (hscript : Chainless script) : (u.goto c pc script).Sequential := by
  cases c with
  | core0 =>
    refine ⟨hload, ?_, ?_, ?_, ?_⟩ <;> simp only [System.goto, hthreads, hdevice]
    · simpa using hpc rfl
    · simpa using hscript
    · exact h.bit
    · simpa using h.core1_script
  | core1 => exact h.goto_core1 hthreads (hdevice ▸ h.bit) hload hscript

theorem Pc.load_eq_zero {pc : Pc} (hheld : pc.held = none) (hexec : pc.executing = none)
    (hresp : pc ≠ .responded) : pc.load = 0 := by
  cases pc <;> simp_all [Pc.held, Pc.executing, Pc.load]

namespace Sequential
variable {s t : System} {c : Core}

theorem chainless_of_pc (h : s.Sequential) (hpc : (s.threads c).pc ≠ .next) :
    Chainless (s.threads c).script := by
  cases c with
  | core0 => exact h.core0_script
  | core1 => exact h.core1_script.resolve_right fun ⟨_, _, _, hnext, _⟩ => hpc hnext

theorem chainless_tail (h : s.Sequential) {call : Call} {rest : List Call}
    (hscript : (s.threads c).script = call :: rest) : Chainless rest := by
  have hsub {l : List Call} (hl : Chainless l) (heq : l = call :: rest) : Chainless rest := by
    intro hmem
    exact hl (heq ▸ List.mem_cons_of_mem call hmem)
  cases c with
  | core0 => exact hsub h.core0_script hscript
  | core1 =>
    rcases h.core1_script with hl | ⟨rest', heq, hl, -⟩
    · exact hsub hl hscript
    · obtain ⟨-, rfl⟩ := List.cons.inj (heq.symm.trans hscript)
      exact hl

theorem halt (h : s.Sequential) (hscript : Chainless (s.threads c).script) :
    (s.halt c).Sequential := by
  have hgoto := load_goto s c (.halted (s.threads c).pc.held) (s.threads c).script
  have hkept : (Pc.halted (s.threads c).pc.held).load ≤ (s.threads c).pc.load := by
    cases hpc : (s.threads c).pc with
    | halted inHand => exact Nat.le_refl _
    | next | adding _ | responded | holding _ _ | finishing | running _ => simp [Pc.held, Pc.load]
  have hle := h.load_le
  exact h.goto rfl rfl (by omega) (fun _ => rfl) hscript

theorem callQueueTryAdd (h : s.Sequential) (hscript : Chainless (s.threads c).script) {job : Job}
    (hjob : job.entry = none) : (s.callQueueTryAdd c job).Sequential := by
  unfold System.callQueueTryAdd
  split
  · have hcalled : (s.callQueue ++ [job]).filterMap Job.entry = s.called := by
      simp [called, hjob]
    refine ⟨?_, h.core0_pc, h.core0_script, h.bit, h.core1_script⟩
    change ((s.callQueue ++ [job]).filterMap Job.entry).length + _ + _ + _ + _ ≤ 1
    rw [hcalled]
    exact h.load_le
  · exact h.halt hscript

theorem goto_idle (h : s.Sequential) {u : System}
    (hsame : u.threads = s.threads ∧ u.device = s.device ∧ u.called = s.called) {pc : Pc}
    (hpc : pc.load = 0 ∧ pc.ofJob = false) {script : List Call} (hscript : Chainless script) :
    (u.goto c pc script).Sequential := by
  obtain ⟨hthreads, hdevice, hcalled⟩ := hsame
  have hgoto := load_goto u c pc script
  have hload : u.load = s.load := by simp only [load, hthreads, hdevice, hcalled]
  have hle := h.load_le
  exact h.goto hthreads hdevice (by omega) (fun _ => hpc.2) hscript

theorem tryRemove (h : s.Sequential) {chained : Bool} {script : List Call}
    (hscript : Chainless script) (hroom : s.opcodeQueue ≠ [] → s.load ≤ (s.threads c).pc.load) :
    (s.tryRemove c chained script).Sequential := by
  unfold System.tryRemove
  cases hq : s.opcodeQueue with
  | nil =>
    refine h.goto_idle ⟨rfl, rfl, rfl⟩ ?_ hscript
    cases chained <;> exact ⟨rfl, rfl⟩
  | cons entry rest =>
    have hgoto := load_goto { s with opcodeQueue := rest } c (.holding chained entry) script
    have hsame : { s with opcodeQueue := rest }.load = s.load := rfl
    have hone : (Pc.holding chained entry).load = 1 := rfl
    have hle := hroom (by simp [hq])
    rw [hsame, hone] at hgoto
    refine h.goto (by rfl) (by rfl) ?_ (fun _ => by rfl) hscript
    have hself : ({ s with opcodeQueue := rest }.threads c).pc.load = (s.threads c).pc.load := rfl
    omega

theorem load_eq_zero (h : s.Sequential) (hpc : (s.threads c).pc = .next)
    (hnone : s.outstanding = []) (hheld : (s.threads c.other).pc.held = none)
    (hresp : (s.threads c.other).pc ≠ .responded) : s.load = 0 := by
  simp only [outstanding, List.append_eq_nil_iff] at hnone
  obtain ⟨⟨⟨hcalled, hexec⟩, hwritten⟩, hanswered⟩ := hnone
  have hexec1 : (s.threads .core1).pc.executing = none := Option.toList_eq_nil_iff.mp hexec
  have hother : (s.threads c.other).pc.load = 0 := by
    refine Pc.load_eq_zero hheld ?_ hresp
    cases c with
    | core0 => exact hexec1
    | core1 =>
      have hjob := h.core0_pc
      cases hpc0 : (s.threads .core0).pc <;> simp_all [Pc.ofJob, Pc.executing, Core.other]
  have hself : (s.threads c).pc.load = 0 := by rw [hpc]; rfl
  cases c <;> simp_all [load, Core.other]

theorem call (h : s.Sequential) (hok : s.DirectPopsWait (.core c))
    (hpc : (s.threads c).pc = .next) {call : Call} {rest : List Call}
    (hscript : (s.threads c).script = call :: rest) (hstep : s.call c rest call = some t) :
    t.Sequential := by
  have hrest := h.chainless_tail hscript
  cases call with
  | opcodeQueueAdd entry =>
    obtain rfl := Option.some.inj hstep
    exact h.goto_idle (by exact ⟨rfl, rfl, rfl⟩) (by exact ⟨rfl, rfl⟩) hrest
  | opcodeQueuePop =>
    obtain rfl := Option.some.inj hstep
    apply h.tryRemove hrest
    intro hq
    obtain ⟨hnone, hheld, hresp⟩ := hok hpc (by rw [hscript]; rfl) hq
    rw [h.load_eq_zero hpc hnone hheld hresp]
    exact Nat.zero_le _
  | onOpcodeCmdResponse =>
    obtain rfl := Option.some.inj hstep
    cases c with
    | core0 => exact absurd (hscript ▸ List.mem_cons_self) h.core0_script
    | core1 =>
      rcases h.core1_script with hl | ⟨_, _, _, _, hanswer, hbit⟩
      · exact absurd (hscript ▸ List.mem_cons_self) hl
      · have hlen := List.length_pos_iff.mpr hanswer
        have hle := h.load_le
        let u : System := { s with device := { s.device with answered := [] } }
        have hdevice : u.load + s.device.written.length + s.device.answered.length =
            s.load + s.device.written.length + 0 := load_withDevice s _
        have hgoto : (u.goto .core1 .responded rest).load + (s.threads .core1).pc.load =
            u.load + 1 := load_goto u .core1 .responded rest
        have hclear : u.device.apCmdResI = false := hbit
        refine h.goto_core1 (u := u) rfl ?_ (by omega) hrest
        intro hb
        rw [hclear] at hb
        cases hb
  | callQueueTryAddPdMsg =>
    obtain rfl := Option.some.inj hstep
    refine Sequential.callQueueTryAdd ?_ (by simpa [System.goto] using hrest) rfl
    exact h.goto_idle (by exact ⟨rfl, rfl, rfl⟩) (by exact ⟨rfl, rfl⟩) hrest
  | waitOpcodesFinished =>
    simp only [System.call] at hstep
    split at hstep
    · obtain rfl := Option.some.inj hstep
      exact h.goto_idle (by exact ⟨rfl, rfl, rfl⟩) (by exact ⟨rfl, rfl⟩) hrest
    · cases hstep

theorem stepCore (h : s.Sequential) (hok : s.DirectPopsWait (.core c))
    (hstep : s.stepCore c = some t) : t.Sequential := by
  unfold System.stepCore at hstep
  cases hpc : (s.threads c).pc with
  | next =>
    cases hscript : (s.threads c).script with
    | nil => simp [hpc, hscript] at hstep
    | cons call rest =>
      simp only [hpc, hscript] at hstep
      exact h.call hok hpc hscript hstep
  | adding entry =>
    have hscript := h.chainless_of_pc (c := c) (by simp [hpc])
    simp only [hpc] at hstep
    split at hstep
    · obtain rfl := Option.some.inj hstep
      exact h.goto_idle (by exact ⟨rfl, rfl, rfl⟩) (by exact ⟨rfl, rfl⟩) hscript
    · obtain rfl := Option.some.inj hstep
      exact h.halt hscript
  | responded =>
    have hscript := h.chainless_of_pc (c := c) (by simp [hpc])
    simp only [hpc] at hstep
    obtain rfl := Option.some.inj hstep
    apply h.tryRemove hscript
    intro _
    rw [hpc]
    exact h.load_le
  | holding chained entry =>
    have hscript := h.chainless_of_pc (c := c) (by simp [hpc])
    have hself : (s.threads c).pc.load = 1 := by rw [hpc]; rfl
    have hle := h.load_le
    simp only [hpc] at hstep
    split at hstep
    · obtain rfl := Option.some.inj hstep
      refine h.goto (by rfl) (by rfl) ?_ (fun _ => by rfl) hscript
      have hgoto := load_goto { s with callQueue := s.callQueue ++ [Job.opcode entry] } c .next
        (s.threads c).script
      have hcalled :
          { s with callQueue := s.callQueue ++ [Job.opcode entry] }.load = s.load + 1 := by
        simp [load, called, Job.entry]
        omega
      have hnext : Pc.next.load = 0 := rfl
      have hsame : ({ s with callQueue := s.callQueue ++ [Job.opcode entry] }.threads c).pc.load =
          (s.threads c).pc.load := rfl
      omega
    · obtain rfl := Option.some.inj hstep
      refine h.goto_idle ⟨rfl, rfl, rfl⟩ ?_ hscript
      cases chained <;> exact ⟨rfl, rfl⟩
  | finishing =>
    have hscript := h.chainless_of_pc (c := c) (by simp [hpc])
    simp only [hpc] at hstep
    obtain rfl := Option.some.inj hstep
    exact h.goto_idle (by exact ⟨rfl, rfl, rfl⟩) (by exact ⟨rfl, rfl⟩) hscript
  | running entry =>
    have hscript := h.chainless_of_pc (c := c) (by simp [hpc])
    have hself : (s.threads c).pc.load = 1 := by rw [hpc]; rfl
    have hle := h.load_le
    simp only [hpc] at hstep
    obtain rfl := Option.some.inj hstep
    cases c with
    | core0 =>
      have hjob := h.core0_pc
      rw [hpc] at hjob
      cases hjob
    | core1 =>
      let u : System :=
        { s with device := { s.device with written := s.device.written ++ [entry] } }
      have hdevice : u.load + s.device.written.length + s.device.answered.length =
          s.load + (s.device.written ++ [entry]).length + s.device.answered.length :=
        load_withDevice s _
      have hgoto : (u.goto .core1 .next (s.threads .core1).script).load +
          (s.threads .core1).pc.load = u.load + 0 := load_goto u .core1 .next _
      rw [List.length_append, List.length_singleton] at hdevice
      exact h.goto_core1 (u := u) rfl h.bit (by omega) hscript
  | halted inHand => simp [hpc] at hstep

theorem takeJob (h : s.Sequential) {r : Readings} {msg : PdMsg}
    (hstep : s.takeJob r msg = some t) : t.Sequential := by
  unfold System.takeJob at hstep
  split at hstep
  · rename_i job rest hidle hqueue
    have hle := h.load_le
    cases job with
    | opcode entry =>
      obtain rfl := Option.some.inj hstep
      let u : System := { s with callQueue := rest, executed := s.executed ++ [entry] }
      have hcalled : u.load + 1 = s.load := load_dequeue hqueue
      have hgoto : (u.goto .core1 (.running entry) []).load + (s.threads .core1).pc.load =
          u.load + 1 := load_goto u .core1 (.running entry) []
      exact h.goto_core1 (u := u) rfl h.bit (by omega) List.not_mem_nil
    | parseInterruptVals =>
      simp only at hstep
      split at hstep
      · rename_i hseen
        obtain rfl := Option.some.inj hstep
        obtain ⟨tail, hchain, hcalls⟩ := parseInterruptVals_calls r
        let u : System :=
          { s with callQueue := rest, device := { s.device with apCmdResI := false } }
        have hcalled : u.load + 0 = s.load := load_dequeue hqueue
        have hgoto : (u.goto .core1 .next (parseInterruptVals r).calls).load +
            (s.threads .core1).pc.load = u.load + 0 := load_goto u .core1 .next _
        by_cases hbit : s.device.apCmdResI = true
        · rw [hseen, if_pos hbit] at hcalls
          have hload : (u.goto .core1 .next (parseInterruptVals r).calls).load ≤ 1 := by omega
          refine ⟨hload, h.core0_pc, h.core0_script, nofun, .inr ⟨tail, ?_, hchain, ?_⟩⟩
          · simpa [System.goto] using hcalls
          · exact ⟨by simp [System.goto], h.bit hbit, rfl⟩
        · rw [hseen, if_neg hbit, List.nil_append] at hcalls
          refine h.goto_core1 (u := u) rfl ?_ (by omega) (hcalls ▸ hchain)
          intro hb
          cases hb
      · cases hstep
    | pdMsgResponse =>
      obtain rfl := Option.some.inj hstep
      refine h.goto_idle ⟨by rfl, by rfl, ?_⟩ ⟨by rfl, by rfl⟩ (chainless_pdMsgResponse msg)
      change rest.filterMap Job.entry = s.callQueue.filterMap Job.entry
      rw [hqueue]
      rfl
    | max77958TestResponse | other =>
      obtain rfl := Option.some.inj hstep
      have hcalled := load_dequeue hqueue
      exact ⟨by omega, h.core0_pc, h.core0_script, h.bit, h.core1_script⟩
  · cases hstep

theorem step (h : s.Sequential) {a : Action} (hok : s.DirectPopsWait a)
    (hstep : s.step a = some t) : t.Sequential := by
  cases a with
  | core c => exact h.stepCore hok hstep
  | callQueuePop r msg => exact h.takeJob hstep
  | routine routine =>
    simp only [System.step] at hstep
    split at hstep
    · obtain rfl := Option.some.inj hstep
      exact h.goto_idle ⟨rfl, rfl, rfl⟩ ⟨rfl, rfl⟩ (chainless_routine routine)
    · cases hstep
  | respond =>
    simp only [System.step] at hstep
    split at hstep
    · cases hstep
    · rename_i entry rest hwritten
      obtain rfl := Option.some.inj hstep
      have hle := h.load_le
      have hdevice := load_withDevice s ⟨rest, s.device.answered ++ [entry], true⟩
      simp only [hwritten, List.length_cons, List.length_append, List.length_nil] at hdevice
      refine ⟨by omega, h.core0_pc, h.core0_script, fun _ => by simp, .inl ?_⟩
      apply h.core1_script.resolve_right
      rintro ⟨_, _, _, _, hanswer, _⟩
      have hpos := List.length_pos_iff.mpr hanswer
      simp only [load, hwritten, List.length_cons] at hle
      omega
  | interrupt i =>
    obtain rfl := Option.some.inj hstep
    exact h.callQueueTryAdd h.core0_script (by cases i <;> rfl)

end Sequential

end System

end SrFirmware.Max77958
