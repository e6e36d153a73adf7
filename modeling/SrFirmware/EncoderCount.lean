import SrFirmware.QuadratureEncoder

/-!
# Asking an encoder for its count

The state machine of one encoder and core0, which asks for the count and waits for it, in any
interleaving and with any signal on the pins. The state keeps a record of the run beside what
the two parties hold; nothing in the record is read by either.
-/

namespace SrFirmware.QuadratureEncoder

open Lib Lib.Quadrature
open Lib.Pio (Word Machine)
set_option autoImplicit false

/-- `quadrature_encoder_get_count` -/
inductive Core where
  | idle
  -- in the loop of `quadrature_encoder_fetch_count`
  | fetching
  deriving DecidableEq

structure Answer where
  asked : Nat
  pushed : Nat
  count : Word

structure State where
  sm : Machine
  core : Core
  -- the number of clocks so far
  now : Nat
  -- the clocks at which the pins were read, the latest first
  samples : List Nat
  -- the clocks of the last request and of the last PUSH
  asked : Nat
  pushed : Nat
  answers : List Answer

def start (sm : Machine) : State where
  sm := sm
  core := .idle
  now := 0
  samples := []
  asked := 0
  pushed := 0
  answers := []

inductive Action where
  | clock
  | requestCount
  | fetchCount

namespace State

/-- `pins t` is on the pins at clock `t`. -/
def step (pins : Nat → Word) (s : State) : Action → Option State
  | .clock =>
    (program.clock (pins s.now) s.sm).map fun sm =>
      { s with
        sm := sm
        now := s.now + 1
        samples := if s.sm.pc = 24 then s.now :: s.samples else s.samples
        pushed := if s.sm.pc = 21 then s.now else s.pushed }
  | .requestCount =>
    match s.core with
    | .idle => some { s with sm := s.sm.put 1, core := .fetching, asked := s.now }
    | .fetching => none
  | .fetchCount =>
    match s.core with
    | .idle => none
    | .fetching =>
      match s.sm.get with
      | none => some s
      | some (w, sm) =>
        some { s with sm := sm, core := .idle, answers := ⟨s.asked, s.pushed, w⟩ :: s.answers }

end State

def seen (pins : Nat → Word) (samples : List Nat) : List Phase :=
  samples.map fun t => channels (pins t)

/-- The count after the samples, as a decoder that starts in the 00 state has it. -/
def decoded (pins : Nat → Word) (y : Word) (samples : List Nat) : Word :=
  y + BitVec.ofInt 32 (travel 0 (seen pins samples))

/-- The samples taken before clock `t`. -/
def before (t : Nat) (samples : List Nat) : List Nat := samples.filter (· < t)

/-- The clocks up to the last read of the pins, that read included. -/
def lastRead (samples : List Nat) : Nat := (samples.map (· + 1)).headD 0

/-- What the program has to do with the signal: its count is the decoder's. -/
structure Counts (pins : Nat → Word) (y : Word) (s : State) : Prop where
  registers : Registers s.sm
  count : count s.sm = decoded pins y s.samples
  lastSeen : lastSeen s.sm = (seen pins s.samples).headD 0

/-- The pins are read often enough. -/
structure Paced (s : State) : Prop where
  past : ∀ t ∈ s.samples, t < s.now
  chain : s.samples.IsChain fun t u => u < t ∧ t ≤ u + 15
  first : ∀ t, s.samples.getLast? = some t → t ≤ 14
  recent : s.now ≤ lastRead s.samples + age s.sm.pc

/-- What is told by an answer. -/
structure Answer.Holds (pins : Nat → Word) (y : Word) (samples : List Nat) (a : Answer) :
    Prop where
  count : a.count = decoded pins y (before a.pushed samples)
  recent : a.pushed ≤ lastRead (before a.pushed samples) + 11
  notBefore : a.asked + 6 ≤ a.pushed + 1
  notAfter : a.pushed + 1 ≤ a.asked + 18

/-- How far the request of the core has got. -/
inductive Exchange (pins : Nat → Word) (y : Word) (s : State) : Prop where
  | idle (core : s.core = .idle) (serving : ¬ Serving s.sm) (tx : s.sm.tx = [])
      (rx : s.sm.rx = [])
  | asked (core : s.core = .fetching) (serving : ¬ Serving s.sm) (tx : s.sm.tx = [1])
      (rx : s.sm.rx = []) (since : s.asked ≤ s.now)
      (soon : s.now + wait s.sm.pc ≤ s.asked + 18)
  | served (core : s.core = .fetching) (serving : Serving s.sm) (tx : s.sm.tx = [])
      (rx : s.sm.rx = []) (notBefore : s.asked + 6 ≤ s.now + (22 - s.sm.pc))
      (soon : s.now + (22 - s.sm.pc) ≤ s.asked + 18)
  | answered (w : Word) (core : s.core = .fetching) (serving : ¬ Serving s.sm)
      (tx : s.sm.tx = []) (rx : s.sm.rx = [w]) (past : s.pushed < s.now)
      (holds : Answer.Holds pins y s.samples ⟨s.asked, s.pushed, w⟩)

structure Inv (pins : Nat → Word) (y : Word) (s : State) : Prop where
  counts : Counts pins y s
  paced : Paced s
  exchange : Exchange pins y s
  answers : ∀ a ∈ s.answers, a.pushed < s.now ∧ a.Holds pins y s.samples

section
variable {pins : Nat → Word} {y : Word} {s s' : State}

theorem inv_start (pins : Nat → Word) (x y osr : Word) :
    Inv pins y (start (programInit x y osr)) where
  counts := {
    registers := registers_programInit x y osr
    count := by simp [count, change, start, programInit, decoded, seen]
    lastSeen := by simp [lastSeen, channels, start, programInit, seen] }
  paced := {
    past := by simp [start]
    chain := by simp [start]
    first := by simp [start]
    recent := by simp [start] }
  exchange := .idle rfl (not_serving_of_pc (.inl (by decide : (0 : Nat) < 17))) rfl rfl
  answers := by simp [start]

theorem step_clock (h : s.step pins .clock = some s') :
    ∃ sm, Clock (pins s.now) s.sm sm ∧ s' = { s with
      sm := sm
      now := s.now + 1
      samples := if s.sm.pc = 24 then s.now :: s.samples else s.samples
      pushed := if s.sm.pc = 21 then s.now else s.pushed } := by
  simp only [State.step, Option.map_eq_some_iff] at h
  obtain ⟨sm, hsm, rfl⟩ := h
  exact ⟨sm, clock_cases hsm, rfl⟩

theorem Exchange.room (h : Exchange pins y s) : s.sm.rx.length < 4 := by
  cases h with
  | idle _ _ _ rx | asked _ _ _ rx | served _ _ _ rx | answered _ _ _ _ rx => simp [rx]

theorem before_cons {t u : Nat} (h : t ≤ u) (samples : List Nat) :
    before t (u :: samples) = before t samples := by
  simp [before, Nat.not_lt.mpr h]

theorem before_of_past {t : Nat} {samples : List Nat} (h : ∀ u ∈ samples, u < t) :
    before t samples = samples := by
  simpa [before] using h

theorem Answer.Holds.later {samples : List Nat} {a : Answer} {t : Nat} (c : Prop) [Decidable c]
    (h : a.Holds pins y samples) (ht : a.pushed < t) :
    a.Holds pins y (if c then t :: samples else samples) := by
  by_cases hc : c
  · have hb := before_cons (Nat.le_of_lt ht) samples
    rw [if_pos hc]
    exact ⟨by rw [hb]; exact h.count, by rw [hb]; exact h.recent, h.notBefore, h.notAfter⟩
  · rw [if_neg hc]
    exact h

theorem decoded_cons (pins : Nat → Word) (y : Word) (t : Nat) (samples : List Nat) :
    decoded pins y (t :: samples) = decoded pins y samples +
      BitVec.ofInt 32 (turn ((seen pins samples).headD 0) (channels (pins t))) := by
  simp only [decoded, seen, List.map_cons, travel_cons, BitVec.ofInt_add]
  exact (BitVec.add_assoc _ _ _).symm

theorem counts_clock (hs : Counts pins y s) (h : s.step pins .clock = some s') :
    Counts pins y s' := by
  obtain ⟨sm, hsm, rfl⟩ := step_clock h
  have hcount := count_clock hs.registers hsm
  have hseen := lastSeen_clock hs.registers hsm
  refine ⟨registers_clock hs.registers hsm, ?_, ?_⟩
  · by_cases hpc : s.sm.pc = 24
    · simp only [hpc, if_true] at hcount ⊢
      rw [hcount, decoded_cons, hs.count, hs.lastSeen]
    · simp only [hpc, if_false] at hcount ⊢
      rw [hcount, hs.count]
  · by_cases hpc : s.sm.pc = 24
    · simp only [hpc, if_true] at hseen ⊢
      rw [hseen]
      rfl
    · simp only [hpc, if_false] at hseen ⊢
      rw [hseen, hs.lastSeen]

theorem paced_sample (hs : Paced s) (hpc : s.sm.pc = 24) (sm : Machine) (pushed : Nat) :
    Paced { s with
      sm := sm, now := s.now + 1, samples := s.now :: s.samples, pushed := pushed } := by
  have hrecent := hs.recent
  have hpast := hs.past
  have hchain := hs.chain
  refine ⟨?_, ?_, ?_, ?_⟩
  · intro t ht
    obtain rfl | ht := List.mem_cons.mp ht
    · exact Nat.lt_succ_self _
    · exact Nat.lt_succ_of_lt (hpast t ht)
  · cases hsamples : s.samples with
    | nil => exact .singleton _
    | cons u samples =>
      rw [hsamples] at hchain
      rw [hsamples, hpc] at hrecent
      have hu := hpast u (by simp [hsamples])
      exact .cons_cons ⟨hu, hrecent⟩ hchain
  · cases hsamples : s.samples with
    | nil =>
      rw [hsamples, hpc] at hrecent
      intro t ht
      cases ht
      exact hrecent
    | cons u samples =>
      have hfirst := hs.first
      rw [hsamples] at hfirst
      simpa using hfirst
  · exact Nat.le_add_right _ _

theorem paced_clock (hs : Paced s) (hregs : Registers s.sm) (room : s.sm.rx.length < 4)
    (h : s.step pins .clock = some s') : Paced s' := by
  obtain ⟨sm, hsm, rfl⟩ := step_clock h
  by_cases hpc : s.sm.pc = 24
  · simpa only [hpc, if_true] using paced_sample hs hpc sm _
  · have hage := age_clock hregs hsm hpc room
    have hrecent := hs.recent
    refine ⟨?_, ?_, ?_, ?_⟩
    · intro t ht
      rw [if_neg hpc] at ht
      exact Nat.lt_succ_of_lt (hs.past t ht)
    · simpa [hpc] using hs.chain
    · simpa [hpc] using hs.first
    · simp only [hpc, if_false]
      omega

theorem exchange_clock (hs : Inv pins y s) (h : s.step pins .clock = some s') :
    Exchange pins y s' := by
  have hregs := hs.counts.registers
  obtain ⟨sm, hsm, rfl⟩ := step_clock h
  cases hs.exchange with
  | idle core serving tx rx =>
    obtain ⟨hserving, htx, hrx⟩ := unasked_clock hregs hsm serving fun _ => tx
    exact .idle core hserving (htx.trans tx) (hrx.trans rx)
  | asked core serving tx rx since soon =>
    by_cases hpc : s.sm.pc = 16
    · obtain ⟨hserving, hnext, htx, hrx⟩ := pull_clock hsm hpc (by decide) tx
      rw [hpc] at soon
      refine .served core hserving htx (hrx.trans rx) ?_ ?_
      · simp only [hnext]
        omega
      · have hwait : wait 16 = 6 := rfl
        simp only [hnext]
        omega
    · obtain ⟨hserving, htx, hrx⟩ := unasked_clock hregs hsm serving fun h => absurd h hpc
      have hwait := wait_clock hregs hsm hpc serving
      refine .asked core hserving (htx.trans tx) (hrx.trans rx) (Nat.le_succ_of_le since) ?_
      simp only
      omega
  | served core serving tx rx notBefore soon =>
    by_cases hpc : s.sm.pc = 21
    · obtain ⟨hserving, htx, hrx⟩ := push_clock hregs hsm hpc hs.exchange.room
      rw [rx, List.nil_append] at hrx
      have hbefore := before_of_past hs.paced.past
      have hrecent := hs.paced.recent
      have hage : age 21 = 11 := rfl
      rw [hpc] at notBefore soon hrecent
      refine .answered (count s.sm) core hserving (htx.trans tx) hrx ?_ ?_
      · simp [hpc]
      · simp only [hpc, if_true]
        rw [if_neg (by decide)]
        refine ⟨?_, ?_, notBefore, soon⟩
        · simp only [hbefore]
          exact hs.counts.count
        · simp only [hbefore]
          omega
    · have hbounds := pc_of_serving serving
      obtain ⟨hserving, hnext, htx, hrx⟩ := serving_clock hsm serving hpc
      refine .served core hserving (htx.trans tx) (hrx.trans rx) ?_ ?_
      · simp only [hnext]
        omega
      · simp only [hnext]
        omega
  | answered w core serving tx rx past holds =>
    obtain ⟨hserving, htx, hrx⟩ := unasked_clock hregs hsm serving fun _ => tx
    have hpc : s.sm.pc ≠ 21 := fun h => serving (.inr (.inr (.inr h)))
    refine .answered w core hserving (htx.trans tx) (hrx.trans rx) ?_ ?_
    · simp only [if_neg hpc]
      exact Nat.lt_succ_of_lt past
    · simp only [if_neg hpc]
      exact holds.later _ past

theorem inv_clock (hs : Inv pins y s) (h : s.step pins .clock = some s') : Inv pins y s' where
  counts := counts_clock hs.counts h
  paced := paced_clock hs.paced hs.counts.registers hs.exchange.room h
  exchange := exchange_clock hs h
  answers := by
    obtain ⟨sm, -, rfl⟩ := step_clock h
    intro a ha
    obtain ⟨hpast, hholds⟩ := hs.answers a ha
    exact ⟨Nat.lt_succ_of_lt hpast, hholds.later _ hpast⟩

/-- A machine that differs in its FIFOs only counts the same. -/
theorem Counts.of_fifos (hs : Counts pins y s) {tx rx : List Word}
    (hsm : s'.sm = { s.sm with tx := tx, rx := rx }) (hsamples : s'.samples = s.samples) :
    Counts pins y s' := by
  have hregs := hs.registers
  refine ⟨?_, ?_, ?_⟩
  · rw [hsm]
    exact ⟨hregs.pc_lt, hregs.cleared, hregs.copied, hregs.empty, hregs.shifted, hregs.computed,
      hregs.negated⟩
  · rw [hsm, hsamples]
    exact hs.count
  · rw [hsm, hsamples]
    exact hs.lastSeen

theorem inv_requestCount (hs : Inv pins y s) (h : s.step pins .requestCount = some s') :
    Inv pins y s' := by
  cases hs.exchange with
  | idle core serving tx rx =>
    have hput : s.sm.put 1 = { s.sm with tx := [1], rx := s.sm.rx } := by
      simp [Machine.put, tx, Pio.fifoDepth]
    simp only [State.step, core, Option.some.injEq] at h
    rw [hput] at h
    subst h
    exact {
      counts := hs.counts.of_fifos rfl rfl
      paced := ⟨hs.paced.past, hs.paced.chain, hs.paced.first, hs.paced.recent⟩
      exchange := .asked rfl serving rfl rx (Nat.le_refl _)
        (Nat.add_le_add_left (wait_le hs.counts.registers serving) _)
      answers := hs.answers }
  | asked core | served core | answered _ core => simp [State.step, core] at h

theorem inv_fetchCount (hs : Inv pins y s) (h : s.step pins .fetchCount = some s') :
    Inv pins y s' := by
  cases hs.exchange with
  | idle core => simp [State.step, core] at h
  | asked core _ _ rx | served core _ _ rx =>
    simp only [State.step, core, Machine.get, rx, Option.some.injEq] at h
    exact h ▸ hs
  | answered w core serving tx rx past holds =>
    simp only [State.step, core, Machine.get, rx, Option.some.injEq] at h
    subst h
    exact {
      counts := hs.counts.of_fifos rfl rfl
      paced := ⟨hs.paced.past, hs.paced.chain, hs.paced.first, hs.paced.recent⟩
      exchange := .idle rfl serving tx rfl
      answers := by
        intro a ha
        obtain rfl | ha := List.mem_cons.mp ha
        · exact ⟨past, holds⟩
        · exact hs.answers a ha }

theorem inv_step {a : Action} (hs : Inv pins y s) (h : s.step pins a = some s') :
    Inv pins y s' := by
  cases a with
  | clock => exact inv_clock hs h
  | requestCount => exact inv_requestCount hs h
  | fetchCount => exact inv_fetchCount hs h

end

/-- What holds in every state of every run. -/
theorem inv_throughout (pins : Nat → Word) (x y osr : Word) (actions : List Action) :
    Throughout (State.step pins) (Inv pins y) (start (programInit x y osr)) actions :=
  throughout_of_step (fun hs ht => inv_step hs ht) (inv_start pins x y osr)

/-! ### What the core is told -/

/-- Whatever the pins do and whenever the core asks, the program does not leave its code, and
the count it is about to answer is the decoder's over the phases read so far. -/
theorem program_counts_phases (pins : Nat → Word) (x y osr : Word) (actions : List Action) :
    Throughout (State.step pins)
      (fun s => (∃ s', s.step pins .clock = some s') ∧
        (s.sm.pc = 20 → s.sm.y = decoded pins y s.samples))
      (start (programInit x y osr)) actions := by
  refine (inv_throughout pins x y osr actions).mono ?_
  intro s hs
  have hcount := hs.counts.count
  refine ⟨?_, ?_⟩
  · obtain ⟨sm, hsm⟩ := clock_isSome hs.counts.registers (pins s.now)
    simp [State.step, hsm]
  · intro hpc
    simpa [count, hpc, change] using hcount

/-- Every request is answered once, with the count at a clock between the request and the
fetch: the PUSH is from six to eighteen clocks after the request, no answer is left over, and
neither FIFO ever fills up. -/
theorem get_count_is_answered (pins : Nat → Word) (x y osr : Word) (actions : List Action) :
    Throughout (State.step pins)
      (fun s =>
        (∀ a ∈ s.answers, a.pushed < s.now ∧ a.asked + 6 ≤ a.pushed + 1 ∧
          a.pushed + 1 ≤ a.asked + 18 ∧ a.count = decoded pins y (before a.pushed s.samples)) ∧
        (s.core = .idle → s.sm.tx = [] ∧ s.sm.rx = []) ∧
        (s.core = .fetching → s.sm.tx.length + s.sm.rx.length ≤ 1 ∧
          (s.asked + 18 ≤ s.now → s.sm.rx ≠ [])))
      (start (programInit x y osr)) actions := by
  refine (inv_throughout pins x y osr actions).mono ?_
  intro s hs
  refine ⟨?_, ?_, ?_⟩
  · intro a ha
    obtain ⟨hpast, hholds⟩ := hs.answers a ha
    exact ⟨hpast, hholds.notBefore, hholds.notAfter, hholds.count⟩
  · intro hidle
    cases hs.exchange with
    | idle _ _ tx rx => exact ⟨tx, rx⟩
    | asked core | served core | answered _ core => simp [core] at hidle
  · intro hfetching
    cases hs.exchange with
    | idle core => simp [core] at hfetching
    | asked _ _ tx rx _ soon =>
      have hwait := wait_pos hs.counts.registers.pc_lt
      exact ⟨by simp [tx, rx], by omega⟩
    | served _ serving tx rx _ soon =>
      have hbounds := pc_of_serving serving
      exact ⟨by simp [tx, rx], by omega⟩
    | answered w _ _ tx rx => exact ⟨by simp [tx, rx], by simp [rx]⟩

/-- The pins are read at least once in fifteen clocks. -/
theorem pins_are_read (pins : Nat → Word) (x y osr : Word) (actions : List Action) :
    Throughout (State.step pins)
      (fun s => (s.samples.IsChain fun t u => u < t ∧ t ≤ u + 15) ∧
        s.now ≤ lastRead s.samples + 14)
      (start (programInit x y osr)) actions := by
  refine (inv_throughout pins x y osr actions).mono ?_
  intro s hs
  have hrecent := hs.paced.recent
  have hage := age_le hs.counts.registers.pc_lt
  exact ⟨hs.paced.chain, by omega⟩

/-- Fifteen, not fourteen: a step up and an answered request in one round. -/
example : (run (State.step fun _ => 0b10) (start (programInit 0 0 0))
    (.replicate 9 .clock ++ .requestCount :: .replicate 15 .clock)).map State.samples =
      some [23, 8] := by decide

/-! ### The way of the shaft -/

section
variable {pins : Nat → Word} {y : Word} {s : State} {position : Nat → ℤ}

theorem before_suffix {samples : List Nat} (t : Nat)
    (h : samples.IsChain fun t u => u < t ∧ t ≤ u + 15) : before t samples <:+ samples := by
  induction samples with
  | nil => exact List.suffix_rfl
  | cons u samples ih =>
    by_cases hu : u < t
    · have hdown : (u :: samples).IsChain (· > ·) := h.imp fun _ _ hgap => hgap.1
      have hall : ∀ v ∈ u :: samples, v < t := by
        intro v hv
        obtain rfl | hv := List.mem_cons.mp hv
        · exact hu
        · exact (hdown.rel_cons hv).trans hu
      simp only [before_of_past hall, List.suffix_rfl]
    · rw [before_cons (Nat.not_lt.mp hu)]
      exact (ih h.tail).trans (List.suffix_cons _ _)

/-- The position that is counted as zero: where the shaft was at the first read, give or take
the step that the phase read then is taken for. -/
def origin (position : Nat → ℤ) (samples : List Nat) : ℤ :=
  match samples.getLast? with
  | none => 0
  | some first => position first - turn 0 (phase (position first))

theorem seen_eq (hpins : ∀ t, channels (pins t) = phase (position t)) (samples : List Nat) :
    seen pins samples = (samples.map position).map phase := by
  simp [seen, hpins]

theorem decoded_eq_position (hpins : ∀ t, channels (pins t) = phase (position t))
    (slow : ∀ t k, k ≤ 15 → |position (t + k) - position t| ≤ 1) {t : Nat} {samples : List Nat}
    (h : (t :: samples).IsChain fun t u => u < t ∧ t ≤ u + 15) :
    decoded pins y (t :: samples) =
      y + BitVec.ofInt 32 (position t - origin position (t :: samples)) := by
  have hnear : ((t :: samples).map position).IsChain fun q p => |q - p| ≤ 1 := by
    rw [List.isChain_map]
    refine h.imp ?_
    intro a b hgap
    have hslow := slow b (a - b) (by omega)
    rwa [Nat.add_sub_cancel' (Nat.le_of_lt hgap.1)] at hslow
  have hlast : (position t :: samples.map position).getLast (by simp) =
      position ((t :: samples).getLast (by simp)) :=
    List.getLast_map (f := position) (l := t :: samples) (by simp)
  have htravel := travel_phase 0 (position t) (samples.map position) hnear
  rw [hlast] at htravel
  rw [decoded, seen_eq hpins, List.map_cons, htravel, origin,
    List.getLast?_eq_some_getLast (List.cons_ne_nil t samples)]
  congr 2
  simp only
  omega

theorem toInt_ofInt_emod_two (z : ℤ) : (BitVec.ofInt 32 z).toInt % 2 = z % 2 := by
  have hmod : z.bmod (2 ^ 32) % (2 ^ 32 : ℕ) = z % (2 ^ 32 : ℕ) := Int.bmod_emod
  rw [BitVec.toInt_ofInt]
  omega

theorem origin_of_suffix {samples seen : List Nat} {t : Nat} (h : t :: seen <:+ samples) :
    origin position (t :: seen) = origin position samples := by
  obtain ⟨earlier, rfl⟩ := h
  simp [origin, List.getLast?_eq_some_getLast]

/-- The sample that an answer was counted up to. -/
theorem Inv.sampled (hs : Inv pins y s) {a : Answer} (ha : a ∈ s.answers)
    (hpushed : 12 ≤ a.pushed) :
    ∃ t earlier, t :: earlier <:+ s.samples ∧ t < a.pushed ∧ a.pushed ≤ t + 12 ∧
      a.count = decoded pins y (t :: earlier) := by
  obtain ⟨-, hholds⟩ := hs.answers a ha
  have hsuffix := before_suffix a.pushed hs.paced.chain
  have hrecent := hholds.recent
  have hcount := hholds.count
  cases hbefore : before a.pushed s.samples with
  | nil =>
    simp only [hbefore, lastRead, List.map_nil, List.headD_nil] at hrecent
    omega
  | cons t earlier =>
    have hmem : t ∈ before a.pushed s.samples := by simp [hbefore]
    have hlt : t < a.pushed := by simpa using (List.mem_filter.mp hmem).2
    simp only [hbefore, lastRead, List.map_cons, List.headD_cons] at hrecent
    rw [hbefore] at hsuffix hcount
    exact ⟨t, earlier, hsuffix, hlt, by omega, hcount⟩

theorem Inv.tracks (hs : Inv pins y s) (hpins : ∀ t, channels (pins t) = phase (position t))
    (slow : ∀ t k, k ≤ 15 → |position (t + k) - position t| ≤ 1) {a : Answer}
    (ha : a ∈ s.answers) (hpushed : 12 ≤ a.pushed) :
    ∃ t, t < a.pushed ∧ a.pushed ≤ t + 12 ∧
      a.count = y + BitVec.ofInt 32 (position t - origin position s.samples) := by
  obtain ⟨t, earlier, hsuffix, hlt, hle, hcount⟩ := hs.sampled ha hpushed
  have hchain := hs.paced.chain.suffix hsuffix
  rw [decoded_eq_position hpins slow hchain, origin_of_suffix hsuffix] at hcount
  exact ⟨t, hlt, hle, hcount⟩

theorem origin_near (slow : ∀ t k, k ≤ 15 → |position (t + k) - position t| ≤ 1) (hs : Paced s)
    (hne : s.samples ≠ []) : |origin position s.samples - position 0| ≤ 2 := by
  have hlast := List.getLast?_eq_some_getLast hne
  have hfirst := hs.first _ hlast
  have hslow := slow 0 (s.samples.getLast hne) (by omega)
  have hturn := abs_turn_le 0 (phase (position (s.samples.getLast hne)))
  rw [Nat.zero_add] at hslow
  simp only [origin, hlast]
  rw [abs_le] at *
  omega

end

/-- While the shaft makes one step at most in fifteen clocks no step is lost: all answers of a
run are positions counted from one zero, as of a clock at most twelve before the PUSH. -/
theorem answers_track_position (pins : Nat → Word) (position : Nat → ℤ)
    (hpins : ∀ t, channels (pins t) = phase (position t))
    (slow : ∀ t k, k ≤ 15 → |position (t + k) - position t| ≤ 1)
    (x y osr : Word) (actions : List Action) :
    Throughout (State.step pins)
      (fun s => ∃ zero : ℤ, |zero - position 0| ≤ 2 ∧
        ∀ a ∈ s.answers, 12 ≤ a.pushed → ∃ t, t < a.pushed ∧ a.pushed ≤ t + 12 ∧
          a.count = y + BitVec.ofInt 32 (position t - zero))
      (start (programInit x y osr)) actions := by
  refine (inv_throughout pins x y osr actions).mono ?_
  intro s hs
  by_cases hne : s.samples = []
  · refine ⟨position 0, by simp, ?_⟩
    intro a ha hpushed
    obtain ⟨t, earlier, hsuffix, -⟩ := hs.sampled ha hpushed
    simp [hne] at hsuffix
  · exact ⟨origin position s.samples, origin_near slow hs.paced hne,
      fun _ ha hpushed => hs.tracks hpins slow ha hpushed⟩

/-- A shaft that makes a step every fifteen clocks. -/
def steady (t : Nat) : ℤ := (t / 15 : ℕ)

def onPins (position : Nat → ℤ) (t : Nat) : Word := (phase (position t)).setWidth 32

theorem channels_onPins (position : Nat → ℤ) (t : Nat) :
    channels (onPins position t) = phase (position t) := by simp [channels, onPins]

theorem steady_slow (t k : Nat) (h : k ≤ 15) : |steady (t + k) - steady t| ≤ 1 := by
  unfold steady
  rw [abs_le]
  omega

/-- The count asked for twice on the way. -/
def twoRequests : List Action :=
  .replicate 30 .clock ++ .requestCount :: .replicate 18 .clock ++ .fetchCount ::
    .replicate 60 .clock ++ .requestCount :: .replicate 18 .clock ++ [.fetchCount]

theorem answers_track_steady_position :
    Throughout (State.step (onPins steady))
      (fun s => ∃ zero : ℤ, |zero - steady 0| ≤ 2 ∧
        ∀ a ∈ s.answers, 12 ≤ a.pushed → ∃ t, t < a.pushed ∧ a.pushed ≤ t + 12 ∧
          a.count = 0 + BitVec.ofInt 32 (steady t - zero))
      (start (programInit 0 0 0)) twoRequests :=
  answers_track_position (onPins steady) steady (channels_onPins steady) steady_slow 0 0 0
    twoRequests

/-- At any speed: the count is off by an even number of steps, so its last bit is right. -/
theorem answers_have_right_parity (pins : Nat → Word) (position : Nat → ℤ)
    (hpins : ∀ t, channels (pins t) = phase (position t))
    (x y osr : Word) (actions : List Action) :
    Throughout (State.step pins)
      (fun s => ∀ a ∈ s.answers, 12 ≤ a.pushed → ∃ t, t < a.pushed ∧ a.pushed ≤ t + 12 ∧
        (a.count - y).toInt % 2 = position t % 2)
      (start (programInit x y osr)) actions := by
  refine (inv_throughout pins x y osr actions).mono ?_
  intro s hs a ha hpushed
  obtain ⟨t, earlier, -, hlt, hle, hcount⟩ := hs.sampled ha hpushed
  refine ⟨t, hlt, hle, ?_⟩
  have hparity := travel_phase_emod_two 0 (position t) (earlier.map position)
  rw [← List.map_cons, ← seen_eq hpins] at hparity
  rw [hcount, decoded, BitVec.add_comm, BitVec.add_sub_cancel, toInt_ofInt_emod_two, hparity]
  simp [quarter]

theorem answers_have_right_parity_steady :
    Throughout (State.step (onPins steady))
      (fun s => ∀ a ∈ s.answers, 12 ≤ a.pushed → ∃ t, t < a.pushed ∧ a.pushed ≤ t + 12 ∧
        (a.count - 0).toInt % 2 = steady t % 2)
      (start (programInit 0 0 0)) twoRequests :=
  answers_have_right_parity (onPins steady) steady (channels_onPins steady) 0 0 0 twoRequests

/-! ### The driver -/

/-- One of the `encoders`; nothing sets the speeds. -/
structure Encoder where
  countCurrent : Word
  countPrevious : Word
  countDelta : Word

/-- `quad_encoder_update`, for one encoder. -/
def Encoder.update (e : Encoder) (count : Word) : Encoder where
  countCurrent := count
  countPrevious := count
  countDelta := count - e.countPrevious

/-- A delta between two answers is the way of the shaft between two reads of the pins, as long
as that fits in an `int32_t`; the wrap of the count in the meantime does not show. -/
theorem count_delta_tracks_position (pins : Nat → Word) (position : Nat → ℤ)
    (hpins : ∀ t, channels (pins t) = phase (position t))
    (slow : ∀ t k, k ≤ 15 → |position (t + k) - position t| ≤ 1)
    (x y osr : Word) (actions : List Action) :
    Throughout (State.step pins)
      (fun s => ∀ a ∈ s.answers, ∀ b ∈ s.answers, 12 ≤ a.pushed → 12 ≤ b.pushed → ∃ t u,
        (t < a.pushed ∧ a.pushed ≤ t + 12) ∧ (u < b.pushed ∧ b.pushed ≤ u + 12) ∧
          (|position u - position t| < 2 ^ 31 → ∀ e : Encoder,
            ((e.update a.count).update b.count).countDelta.toInt = position u - position t))
      (start (programInit x y osr)) actions := by
  refine (inv_throughout pins x y osr actions).mono ?_
  intro s hs a ha b hb hpa hpb
  obtain ⟨t, htlt, htle, hcountA⟩ := hs.tracks hpins slow ha hpa
  obtain ⟨u, hult, hule, hcountB⟩ := hs.tracks hpins slow hb hpb
  refine ⟨t, u, ⟨htlt, htle⟩, ⟨hult, hule⟩, ?_⟩
  intro hfits e
  have hdelta : ((e.update a.count).update b.count).countDelta =
      BitVec.ofInt 32 (position u - position t) := by
    have hway : position u - origin position s.samples =
        (position u - position t) + (position t - origin position s.samples) := by omega
    simp only [Encoder.update, hcountA, hcountB]
    rw [hway, BitVec.ofInt_add]
    bv_omega
  rw [abs_lt] at hfits
  rw [hdelta, BitVec.toInt_ofInt_eq_self (by decide) (by omega) (by omega)]

theorem count_delta_tracks_steady_position :
    Throughout (State.step (onPins steady))
      (fun s => ∀ a ∈ s.answers, ∀ b ∈ s.answers, 12 ≤ a.pushed → 12 ≤ b.pushed → ∃ t u,
        (t < a.pushed ∧ a.pushed ≤ t + 12) ∧ (u < b.pushed ∧ b.pushed ≤ u + 12) ∧
          (|steady u - steady t| < 2 ^ 31 → ∀ e : Encoder,
            ((e.update a.count).update b.count).countDelta.toInt = steady u - steady t))
      (start (programInit 0 0 0)) twoRequests :=
  count_delta_tracks_position (onPins steady) steady (channels_onPins steady) steady_slow 0 0 0
    twoRequests

end SrFirmware.QuadratureEncoder
