import SrFirmware.LogHistory
import Mathlib.Order.Bounds.Basic

/-!
# The counters of the log ring

What the five fields of the ring have to do with one another in every run, and why the loop
that makes room ends.
-/

namespace SrFirmware

open Lib
set_option autoImplicit false

structure RingInvariant (b : CircularBufferLog) : Prop where
  head_lt : b.head < logBufferLineCount
  tail_lt : b.tail < logBufferLineCount
  count_le : b.count ≤ logBufferLineCount
  tail_eq : b.tail = (b.head + b.count) % logBufferLineCount
  size_le : ∀ i ∈ slots logBufferLineCount b.head b.count,
    b.logArrayLineSize i ≤ logBufferCharLimit
  bytes : b.byteCount =
    ((slots logBufferLineCount b.head b.count).map fun i => b.logArrayLineSize i - 1).sum
  bytes_le : b.byteCount ≤ uint16Max - 1

/-- A drop that finds a line, does not saturate and wraps no counter. -/
structure DropsExactly (b : CircularBufferLog) : Prop where
  notSaturated : rp2040LogPayloadSize (b.logArrayLineSize b.head) ≤ b.byteCount
  bytes : (rp2040LogDropOldest b).byteCount +
    rp2040LogPayloadSize (b.logArrayLineSize b.head) = b.byteCount
  count : (rp2040LogDropOldest b).count + 1 = b.count

/-- The loop of `rp2040_log_make_room` for a payload of `n` bytes. -/
structure Evicts (n : Nat) (b : CircularBufferLog) (drops : Nat) : Prop where
  least : IsLeast {k | HasRoom n (rp2040LogDropOldest^[k] b)} drops
  stops : ∀ fuel, drops < fuel →
    rp2040LogMakeRoom fuel n b = some (rp2040LogDropOldest^[drops] b)
  exactly : ∀ k < drops, DropsExactly (rp2040LogDropOldest^[k] b)

/-- Storing a line of `n` bytes wraps no counter. -/
structure StoresExactly (n : Nat) (b : CircularBufferLog) (text : List Byte) : Prop where
  bytes : (rp2040LogStore (n + 1) text b).byteCount = b.byteCount + n
  bytes_le : b.byteCount + n ≤ uint16Max - 1
  count : (rp2040LogStore (n + 1) text b).count = b.count + 1

theorem Wf.ringInvariant {b : CircularBufferLog} (h : Wf b) : RingInvariant b where
  head_lt := h.head_lt
  tail_lt := h.tail_eq ▸ Nat.mod_lt _ (by decide)
  count_le := h.count_le
  tail_eq := h.tail_eq
  size_le := fun i hi => (h.stored i hi).bound
  bytes := by
    rw [h.bytes, payloadBytes, live, List.map_map]
    congr 1
    apply List.map_congr_left
    intro i hi
    exact (h.stored i hi).length_text
  bytes_le := h.bytes_le

/-! ### One turn -/

theorem Wf.dropsExactly {b : CircularBufferLog} (h : Wf b) (hc : b.count ≠ 0) :
    DropsExactly b := by
  have hlen : (lineText b b.head).length = rp2040LogPayloadSize (b.logArrayLineSize b.head) := by
    rw [rp2040LogPayloadSize_eq]
    exact (h.head_stored hc).length_text
  have hbytes := h.bytes
  rw [live_drop h hc, payloadBytes_cons, hlen, ← (wf_drop h hc).bytes] at hbytes
  constructor
  · omega
  · omega
  · rw [count_drop h hc]
    omega

theorem storesExactly {n : Nat} {b : CircularBufferLog} (hroom : HasRoom n b)
    (text : List Byte) : StoresExactly n b text := by
  constructor
  · rw [rp2040LogStore_eq hroom]
  · exact hroom.2
  · rw [rp2040LogStore_eq hroom]

/-! ### The loop -/

theorem evicts_zero {n : Nat} {b : CircularBufferLog} (hroom : HasRoom n b) : Evicts n b 0 where
  least := ⟨hroom, fun _ _ => Nat.zero_le _⟩
  stops := by
    intro fuel hfuel
    obtain ⟨hcount, hbytes⟩ := hroom
    cases fuel with
    | zero => cases hfuel
    | succ fuel =>
      rw [rp2040LogMakeRoom, if_neg (by omega)]
      rfl
  exactly := fun _ hk => absurd hk (Nat.not_lt_zero _)

theorem Evicts.succ {n drops : Nat} {b : CircularBufferLog} (hfull : ¬ HasRoom n b)
    (hle : b.count ≤ logBufferLineCount) (hdrop : DropsExactly b)
    (h : Evicts n (rp2040LogDropOldest b) drops) : Evicts n b (drops + 1) where
  least := by
    refine ⟨h.least.1, ?_⟩
    intro k hk
    cases k with
    | zero => exact absurd hk hfull
    | succ k => exact Nat.succ_le_succ (h.least.2 hk)
  stops := by
    intro fuel hfuel
    rw [HasRoom] at hfull
    cases fuel with
    | zero => cases hfuel
    | succ fuel =>
      rw [rp2040LogMakeRoom, if_pos (by omega)]
      exact h.stops fuel (Nat.lt_of_succ_lt_succ hfuel)
  exactly := by
    intro k hk
    cases k with
    | zero => exact hdrop
    | succ k => exact h.exactly k (Nat.lt_of_succ_lt_succ hk)

/-- Every turn takes a line off, so the loop ends. -/
theorem Wf.exists_evicts {b : CircularBufferLog} (h : Wf b) {n : Nat}
    (hn : n < logBufferCharLimit) : ∃ drops, Evicts n b drops := by
  generalize hcount : b.count = count
  induction count generalizing b with
  | zero =>
    have hroom : HasRoom n b := by
      by_contra hfull
      exact h.count_ne_zero hn hfull hcount
    exact ⟨0, evicts_zero hroom⟩
  | succ count ih =>
    by_cases hroom : HasRoom n b
    · exact ⟨0, evicts_zero hroom⟩
    · have hc : b.count ≠ 0 := h.count_ne_zero hn hroom
      obtain ⟨drops, hdrops⟩ := ih (wf_drop h hc) (by rw [count_drop h hc, hcount]; rfl)
      exact ⟨drops + 1, hdrops.succ hroom h.count_le (h.dropsExactly hc)⟩

/-! ### Every run -/

theorem wf_logStep {fuel : Nat} {logLevel : Int} {s t : LogSystem} {c : LogCall}
    (h : Wf s.ring) (hstep : logStep fuel logLevel s c = some t) : Wf t.ring := by
  cases c with
  | rp2040Log level text =>
    obtain ⟨ring, hring, rfl⟩ := Option.map_eq_some_iff.mp hstep
    by_cases hlevel : level < logLevel
    · rw [rp2040Log_rejected hlevel] at hring
      obtain rfl := Option.some.inj hring
      exact h
    · exact (rp2040Log_returns h (Int.not_lt.mp hlevel) hring).1
  | rp2040LogFlush =>
    obtain rfl := Option.some.inj hstep
    exact wf_flush h
  | sendLogPacket =>
    obtain rfl := Option.some.inj hstep
    exact wf_flush h

/-- Every sequence of calls returns. In every state on the way the fields of the ring agree,
and a call for any payload makes room with the fewest drops that do. -/
theorem log_ring_invariant_in_every_run (more : Nat) (logLevel : Int) (calls : List LogCall) :
    let step := logStep (logBufferLineCount + 1 + more) logLevel
    (∃ s, run step logSystemInit calls = some s) ∧
      Throughout step (fun s => RingInvariant s.ring ∧
        ∀ n < logBufferCharLimit, ∃ drops, Evicts n s.ring drops ∧
          ∀ text, StoresExactly n (rp2040LogDropOldest^[drops] s.ring) text)
        logSystemInit calls := by
  intro step
  constructor
  · obtain ⟨s, hs, -⟩ := refines_run (Nat.lt_add_right more (Nat.lt_succ_self logBufferLineCount))
      logLevel False (fun h => h.elim) (refines_init False)
    exact ⟨s, hs⟩
  · apply (throughout_of_step (fun hs hstep => wf_logStep hs hstep) wf_init).mono
    intro s hs
    refine ⟨hs.ringInvariant, ?_⟩
    intro n hn
    obtain ⟨drops, hdrops⟩ := hs.exists_evicts hn
    exact ⟨drops, hdrops, storesExactly hdrops.least.1⟩

end SrFirmware
