import SrFirmware.Frame
import SrFirmware.Lib.Steps

/-!
# The log ring refines a bounded history

The purpose of the ring, stated without a ring: remember the lines logged since the last
drain, and deliver the longest suffix of them that respects both limits.
-/

namespace SrFirmware

open Lib
set_option autoImplicit false

/-- What callers do to the log, each call under the mutex. -/
inductive LogCall where
  | rp2040Log (level : Int) (text : List Byte)
  | rp2040LogFlush
  | sendLogPacket

/-- The text of a call holds no NUL: no format in the repository prints one. -/
def LogCall.NulFree : LogCall → Prop
  | .rp2040Log _ text => SrFirmware.NulFree text
  | _ => True

structure LogSystem where
  ring : CircularBufferLog
  stdout : List Byte

def logSystemInit : LogSystem := ⟨rp2040LogInit, []⟩

def logStep (fuel : Nat) (logLevel : Int) (s : LogSystem) : LogCall → Option LogSystem
  | .rp2040Log level text =>
    (rp2040Log fuel logLevel level text s.ring).map fun ring => { s with ring := ring }
  | .rp2040LogFlush => some ⟨(rp2040LogFlush s.ring).2, s.stdout ++ (rp2040LogFlush s.ring).1⟩
  | .sendLogPacket => some ⟨(sendLogPacket s.ring).2, s.stdout ++ (sendLogPacket s.ring).1⟩

/-- The abstract log: every line since the last drain, and everything delivered so far. -/
structure History where
  lines : List (List Byte)
  sent : List Byte

def History.kept (h : History) : List (List Byte) := longestSuffix Fits h.lines

def History.step (logLevel : Int) (h : History) : LogCall → History
  | .rp2040Log level text =>
    if level < logLevel then h else { h with lines := h.lines ++ [truncateText text] }
  | .rp2040LogFlush => ⟨[], h.sent ++ h.kept.flatten⟩
  | .sendLogPacket => ⟨[], h.sent ++ frame Command.getLog h.kept.flatten⟩

def History.after (logLevel : Int) (calls : List LogCall) : History :=
  calls.foldl (History.step logLevel) ⟨[], []⟩

theorem fits_nil : Fits [] := ⟨by simp, by simp⟩

theorem History.kept_spec (h : History) : IsLongestSuffix Fits h.lines h.kept :=
  longestSuffix_spec fits_nil h.lines

theorem nulFree_truncateText {text : List Byte} (h : NulFree text) : NulFree (truncateText text) :=
  fun c hc => h c (List.mem_of_mem_take hc)

/-- The simulation relation. Delivered bytes agree as long as no text held a NUL, where the
terminator ends a line early. -/
structure Refines (nulFree : Prop) (s : LogSystem) (h : History) : Prop where
  wf : Wf s.ring
  live : IsLongestSuffix Fits h.lines (live s.ring)
  nul : nulFree → ∀ line ∈ h.lines, NulFree line
  sent : nulFree → s.stdout = h.sent

namespace Refines
variable {nf : Prop} {s : LogSystem} {h : History}

theorem live_eq (hr : Refines nf s h) : SrFirmware.live s.ring = h.kept :=
  hr.live.unique h.kept_spec

theorem live_nulFree (hr : Refines nf s h) (hnf : nf) :
    ∀ line ∈ SrFirmware.live s.ring, NulFree line :=
  fun line hl => hr.nul hnf line (hr.live.suffix.subset hl)

theorem flush_printed (hr : Refines nf s h) (hnf : nf) :
    (rp2040LogFlush s.ring).1 = (SrFirmware.live s.ring).flatten := by
  rw [rp2040LogFlush_printed hr.wf, flatMap_printed_of_nulFree (hr.live_nulFree hnf)]

theorem drained (hr : Refines nf s h) {out sent : List Byte}
    (hout : nf → s.stdout ++ out = h.sent ++ sent) :
    Refines nf ⟨(rp2040LogFlush s.ring).2, s.stdout ++ out⟩ ⟨[], h.sent ++ sent⟩ := by
  refine ⟨wf_flush hr.wf, ?_, fun _ line hl => absurd hl List.not_mem_nil, hout⟩
  rw [live_flush]
  exact .self fits_nil

theorem step (hr : Refines nf s h) {fuel : Nat} (hfuel : logBufferLineCount < fuel)
    (logLevel : Int) (c : LogCall) (hc : nf → c.NulFree) :
    ∃ t, logStep fuel logLevel s c = some t ∧ Refines nf t (h.step logLevel c) := by
  cases c with
  | rp2040Log level text =>
    by_cases hlevel : level < logLevel
    · refine ⟨s, by simp [logStep, rp2040Log_rejected hlevel], ?_⟩
      simpa only [History.step, hlevel, if_true] using hr
    · obtain ⟨ring, hring, hwf, hlong⟩ :=
        rp2040Log_spec hr.wf hfuel (Int.not_lt.mp hlevel) text
      refine ⟨{ s with ring := ring }, by simp [logStep, hring], ?_⟩
      simp only [History.step, hlevel, if_false]
      refine ⟨hwf, hr.live.append_singleton (fun _ _ hf => hf.init) hlong, ?_, hr.sent⟩
      intro hnf line hl
      rcases List.mem_append.mp hl with hl | hl
      · exact hr.nul hnf line hl
      · rw [List.mem_singleton.mp hl]
        exact nulFree_truncateText (hc hnf)
  | rp2040LogFlush =>
    refine ⟨⟨_, s.stdout ++ (rp2040LogFlush s.ring).1⟩, rfl, hr.drained ?_⟩
    intro hnf
    rw [hr.sent hnf, hr.flush_printed hnf, hr.live_eq]
  | sendLogPacket =>
    refine ⟨⟨_, s.stdout ++ (sendLogPacket s.ring).1⟩, rfl, hr.drained ?_⟩
    intro hnf
    rw [hr.sent hnf, sendLogPacket_eq hr.wf (hr.live_nulFree hnf), hr.live_eq]

end Refines

theorem refines_init (nf : Prop) : Refines nf logSystemInit ⟨[], []⟩ :=
  ⟨wf_init, .self fits_nil, fun _ _ hl => absurd hl List.not_mem_nil, fun _ => rfl⟩

/-- The run lemma: every sequence of calls returns and ends in related states. -/
theorem refines_run {fuel : Nat} (hfuel : logBufferLineCount < fuel) (logLevel : Int) (nf : Prop)
    {calls : List LogCall} (hnf : nf → ∀ c ∈ calls, c.NulFree) {s : LogSystem} {h : History}
    (hr : Refines nf s h) :
    ∃ t, run (logStep fuel logLevel) s calls = some t ∧
      Refines nf t (calls.foldl (History.step logLevel) h) := by
  induction calls generalizing s h with
  | nil => exact ⟨s, rfl, hr⟩
  | cons c calls ih =>
    obtain ⟨t, ht, htr⟩ := hr.step hfuel logLevel c fun h => hnf h c List.mem_cons_self
    obtain ⟨u, hu, hur⟩ := ih (fun h d hd => hnf h d (List.mem_cons_of_mem c hd)) htr
    exact ⟨u, by rw [run_cons, ht, Option.bind_some, hu], hur⟩

/-- Over any run from `rp2040_log_init`, the live segment is the longest suffix of the lines
logged since the last drain that respects both limits. A drain at that point leaves an empty
ring and prints the live lines in order, each up to its terminator. No caller formats a NUL, so
it delivers exactly the live segment, and what the run has put on the wire is what the abstract
log has delivered. -/
theorem log_ring_keeps_longest_suffix {fuel : Nat} (hfuel : logBufferLineCount < fuel)
    (logLevel : Int) (calls : List LogCall) :
    ∃ s, run (logStep fuel logLevel) logSystemInit calls = some s ∧
      IsLongestSuffix Fits (History.after logLevel calls).lines (live s.ring) ∧
      live (rp2040LogFlush s.ring).2 = [] ∧ live (sendLogPacket s.ring).2 = [] ∧
      (rp2040LogFlush s.ring).1 = ((live s.ring).flatMap fun line => line.takeWhile (· ≠ 0)) ∧
      ((∀ c ∈ calls, c.NulFree) →
        (rp2040LogFlush s.ring).1 = (live s.ring).flatten ∧
        (sendLogPacket s.ring).1 = frame Command.getLog (live s.ring).flatten ∧
        s.stdout = (History.after logLevel calls).sent) := by
  obtain ⟨s, hs, hr⟩ := refines_run hfuel logLevel (∀ c ∈ calls, c.NulFree) (fun h => h)
    (refines_init _)
  exact ⟨s, hs, hr.live, live_flush _, live_flush _, rp2040LogFlush_printed hr.wf, fun hnf =>
    ⟨hr.flush_printed hnf, sendLogPacket_eq hr.wf (hr.live_nulFree hnf), hr.sent hnf⟩⟩

/-- Two lines, one of them rejected by its level, and a drain. -/
theorem log_ring_keeps_longest_suffix_three :
    ∃ s, run (logStep 1029 1) logSystemInit
        [.rp2040Log 1 [0x61, 0x0A], .rp2040Log 0 [0x62], .sendLogPacket] = some s ∧
      s.stdout = frame Command.getLog [0x61, 0x0A] := by
  have hfuel : logBufferLineCount < 1029 := by decide
  obtain ⟨s, hs, _, _, _, _, hnul⟩ := log_ring_keeps_longest_suffix hfuel 1
    [.rp2040Log 1 [0x61, 0x0A], .rp2040Log 0 [0x62], .sendLogPacket]
  refine ⟨s, hs, ?_⟩
  have hfree : ∀ c ∈ ([.rp2040Log 1 [0x61, 0x0A], .rp2040Log 0 [0x62], .sendLogPacket] :
      List LogCall), c.NulFree := by
    simp [LogCall.NulFree, NulFree]
  have hkept : History.kept ⟨[[0x61, 0x0A]], []⟩ = [[0x61, 0x0A]] :=
    (History.kept_spec _).unique (.self ⟨by simp, by simp⟩)
  rw [(hnul hfree).2.2]
  change frame Command.getLog (History.kept ⟨[[0x61, 0x0A]], []⟩).flatten = _
  rw [hkept]
  rfl

end SrFirmware
