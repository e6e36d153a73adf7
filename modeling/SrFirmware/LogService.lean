import SrFirmware.CommandLoop
import SrFirmware.LogHistory
import Mathlib.Data.List.Induction

/-!
# The log as the host collects it

The firmware logs between the calls of `get_block` and, in `get_state`, during them; the host
keeps the payloads of the GET_LOG answers. Together they are the abstract log.
-/

namespace SrFirmware.LogService

open Lib
set_option autoImplicit false

structure Message where
  level : Int
  text : List Byte
  -- no format in the repository prints a NUL
  nulFree : NulFree text

def Message.call (m : Message) : LogCall := .rp2040Log m.level m.text

section
variable (logLevel : Int)

/-- Calls of `rp2040_log`, whose loop has turns enough. -/
def rp2040LogEach (log : CircularBufferLog) (messages : List Message) : CircularBufferLog :=
  messages.foldl
    (fun log m => (rp2040Log (logBufferLineCount + 1) logLevel m.level m.text log).getD log) log

theorem rp2040LogEach_cons (log : CircularBufferLog) (m : Message) (messages : List Message) :
    rp2040LogEach logLevel log (m :: messages) = rp2040LogEach logLevel
      ((rp2040Log (logBufferLineCount + 1) logLevel m.level m.text log).getD log) messages := rfl

theorem logReach_rp2040LogEach (log : CircularBufferLog) (messages : List Message) :
    LogReach logLevel log (rp2040LogEach logLevel log messages) := by
  induction messages generalizing log with
  | nil => exact .refl log
  | cons m messages ih =>
    cases hlog : rp2040Log (logBufferLineCount + 1) logLevel m.level m.text log with
    | none =>
      rw [rp2040LogEach_cons, hlog]
      exact ih log
    | some ring =>
      rw [rp2040LogEach_cons, hlog]
      exact .log m.nulFree hlog (ih ring)

/-- What `get_state` does if a call comes to it, and the clock. -/
structure Getter where
  t4 : BitVec 64
  t5 : BitVec 64
  fill : RP2040State → RP2040State
  messages : List Message

def Getter.platform (g : Getter) : Platform logLevel where
  t4 := g.t4
  t5 := g.t5
  getState := fun log state => (rp2040LogEach logLevel log g.messages, g.fill state)
  logsOnly := fun log _ => logReach_rp2040LogEach logLevel log g.messages

inductive Event where
  | rp2040Log (m : Message)
  | getBlock (getter : Getter) (input : List Input)

/-- The payload that the host keeps of an answer. -/
def logPayload (out : List Byte) : List Byte :=
  if out.getD 3 0 = Command.getLog then (out.drop 4).take (out.length - 6) else []

structure Session where
  comm : SerialComm
  collected : List Byte

def start (rp2040State : RP2040State) : Session := ⟨serialCommManagerInit rp2040State, []⟩

def Session.step (build : Build) (s : Session) : Event → Session
  | .rp2040Log m => { s with comm := { s.comm with log := rp2040LogEach logLevel s.comm.log [m] } }
  | .getBlock getter input =>
    let r := SrFirmware.getBlock build (getter.platform logLevel) s.comm input
    ⟨r.comm, s.collected ++ logPayload r.out⟩

def session (build : Build) (rp2040State : RP2040State) (events : List Event) : Session :=
  events.foldl (Session.step logLevel build) (start rp2040State)

end

/-! ### The abstract log -/

/-- What a request is for the log: GET_LOG delivers and empties it. -/
def Getter.calls (g : Getter) : Request → List LogCall
  | .getLog => [.rp2040LogFlush]
  | .getState | .setMotorLevel _ _ => g.messages.map Message.call
  | .getVersion | .resetState | .unsupported => []

def Event.calls : Event → List LogCall
  | .rp2040Log m => [m.call]
  | .getBlock getter input =>
    ((scan input).1.request.map Request.ofPacket).toList.flatMap getter.calls

def history (logLevel : Int) (events : List Event) : History :=
  History.after logLevel (events.flatMap Event.calls)

/-- The line of a call that passes the level check, as it is kept. -/
def loggedLine (logLevel : Int) : LogCall → Option (List Byte)
  | .rp2040Log level text => if level < logLevel then none else some (truncateText text)
  | .rp2040LogFlush | .sendLogPacket => none

def loggedLines (logLevel : Int) (events : List Event) : List (List Byte) :=
  (events.flatMap Event.calls).filterMap (loggedLine logLevel)

/-! ### The session refines it -/

section
variable {logLevel : Int} {build : Build} {h : History}

theorem refines_rp2040LogEach {log : CircularBufferLog} {collected : List Byte}
    (messages : List Message) (hr : Refines True ⟨log, collected⟩ h) :
    Refines True ⟨rp2040LogEach logLevel log messages, collected⟩
      ((messages.map Message.call).foldl (History.step logLevel) h) := by
  induction messages generalizing log h with
  | nil => exact hr
  | cons m messages ih =>
    obtain ⟨t, ht, hrt⟩ :=
      hr.step (Nat.lt_succ_self logBufferLineCount) logLevel m.call fun _ => m.nulFree
    simp only [Message.call, logStep, Option.map_eq_some_iff] at ht
    obtain ⟨ring, hring, rfl⟩ := ht
    rw [rp2040LogEach_cons, hring]
    exact ih hrt

theorem logPayload_frame_getLog (payload : List Byte) :
    logPayload (frame Command.getLog payload) = payload := by
  simp [logPayload, frame]

theorem logPayload_frame_of_ne {cmd : Byte} (h : cmd ≠ Command.getLog) (payload : List Byte) :
    logPayload (frame cmd payload) = [] := by
  simp [logPayload, frame, h]

/-- What the answer to a request leaves of the log, and what the host keeps of it. -/
theorem refines_respond {s : SerialComm} {collected : List Byte} (getter : Getter)
    (request : Request) (hr : Refines True ⟨s.log, collected⟩ h) :
    let r := respond build (getter.platform logLevel) s request
    Refines True ⟨r.comm.log, collected ++ logPayload r.out⟩
      ((getter.calls request).foldl (History.step logLevel) h) := by
  cases request with
  | getLog =>
    have hpayload : logPayload (sendLogPacket s.log).1 = h.kept.flatten := by
      rw [sendLogPacket_eq hr.wf (hr.live_nulFree trivial), logPayload_frame_getLog, hr.live_eq]
    simp only [respond, hpayload, sendLogPacket_ring]
    exact hr.drained fun _ => by rw [hr.sent trivial]
  | getState | setMotorLevel left right =>
    simp only [respond]
    rw [logPayload_frame_of_ne (by decide), List.append_nil]
    exact refines_rp2040LogEach getter.messages hr
  | getVersion | resetState | unsupported =>
    simp only [respond]
    rw [logPayload_frame_of_ne (by decide), List.append_nil]
    exact hr

theorem refines_getBlock {s : SerialComm} {collected : List Byte} (getter : Getter)
    (input : List Input) (hr : Refines True ⟨s.log, collected⟩ h) :
    let r := SrFirmware.getBlock build (getter.platform logLevel) s input
    Refines True ⟨r.comm.log, collected ++ logPayload r.out⟩
      ((Event.getBlock getter input).calls.foldl (History.step logLevel) h) := by
  obtain ⟨v, hv⟩ := getBlock_serve build (getter.platform logLevel) s input
  simp only [hv, Event.calls, CallResult.withBuffer, SerialComm.withBuffer]
  obtain ⟨hitem, hserve⟩ | ⟨-, hreq, hserve⟩ | ⟨q, hreq, hserve⟩ :=
    serve_cases build (getter.platform logLevel) s (scan input).1 (scan input).2
  · rw [hserve, hitem]
    simpa [Item.request, logPayload] using hr
  · rw [hserve, hreq, SerialComm.nackResult_eq]
    simpa [logPayload_frame_of_ne (show Command.nack ≠ Command.getLog by decide)] using hr
  · rw [hserve, hreq]
    have hstamped : Refines True
        ⟨(s.stampT4 build (getter.platform logLevel)).log, collected⟩ h := by simpa using hr
    simpa using refines_respond getter (.ofPacket q) hstamped

theorem refines_session (rp2040State : RP2040State) (events : List Event) :
    let s := session logLevel build rp2040State events
    Refines True ⟨s.comm.log, s.collected⟩ (history logLevel events) := by
  induction events using List.reverseRecOn with
  | nil => exact refines_init True
  | append_singleton events e ih =>
    have hhistory : history logLevel (events ++ [e]) =
        e.calls.foldl (History.step logLevel) (history logLevel events) := by
      simp [history, History.after, List.foldl_append]
    simp only [session, List.foldl_append, List.foldl_cons, List.foldl_nil] at ih ⊢
    rw [hhistory]
    cases e with
    | rp2040Log m => exact refines_rp2040LogEach [m] ih
    | getBlock getter input => exact refines_getBlock getter input ih

/-! ### What has become of every line -/

theorem Event.calls_cases (e : Event) :
    e.calls = [.rp2040LogFlush] ∨
      ∃ messages : List Message, e.calls = messages.map Message.call := by
  cases e with
  | rp2040Log m => exact Or.inr ⟨[m], rfl⟩
  | getBlock getter input =>
    rw [Event.calls]
    cases (scan input).1.request.map Request.ofPacket with
    | none => exact Or.inr ⟨[], rfl⟩
    | some request =>
      cases request with
      | getLog => exact Or.inl rfl
      | getState | setMotorLevel left right =>
        exact Or.inr ⟨getter.messages, by simp [Getter.calls]⟩
      | getVersion | resetState | unsupported => exact Or.inr ⟨[], rfl⟩

theorem foldl_messages (messages : List Message) (h : History) :
    (messages.map Message.call).foldl (History.step logLevel) h =
      { h with lines :=
          h.lines ++ (messages.map Message.call).filterMap (loggedLine logLevel) } := by
  induction messages generalizing h with
  | nil => simp
  | cons m messages ih =>
    rw [List.map_cons, List.foldl_cons, ih, List.filterMap_cons]
    by_cases hlevel : m.level < logLevel <;>
      simp [Message.call, History.step, loggedLine, hlevel]

theorem History.kept_eq_lines {h : History} (hfits : Fits h.lines) : h.kept = h.lines :=
  h.kept_spec.unique (.self hfits)

/-- Every line is delivered, still to be delivered, or dropped for want of room. -/
structure Accounts (logLevel : Int) (events : List Event) (delivered : List (List Byte)) :
    Prop where
  sent : (history logLevel events).sent = delivered.flatten
  order : (delivered ++ (history logLevel events).lines).Sublist (loggedLines logLevel events)
  lossless : (∀ before, before <+: events → Fits (history logLevel before).lines) →
    delivered ++ (history logLevel events).lines = loggedLines logLevel events

theorem exists_accounts (logLevel : Int) (events : List Event) :
    ∃ delivered, Accounts logLevel events delivered := by
  induction events using List.reverseRecOn with
  | nil => exact ⟨[], rfl, List.Sublist.refl _, fun _ => rfl⟩
  | append_singleton events e ih =>
    obtain ⟨delivered, hsent, horder, hlossless⟩ := ih
    have hhistory : history logLevel (events ++ [e]) =
        e.calls.foldl (History.step logLevel) (history logLevel events) := by
      simp [history, History.after, List.foldl_append]
    have hlogged : loggedLines logLevel (events ++ [e]) =
        loggedLines logLevel events ++ e.calls.filterMap (loggedLine logLevel) := by
      simp [loggedLines]
    have hshorter :
        (∀ before, before <+: events ++ [e] → Fits (history logLevel before).lines) →
          ∀ before, before <+: events → Fits (history logLevel before).lines :=
      fun hfits before hbefore => hfits before (hbefore.trans (List.prefix_append _ _))
    rcases e.calls_cases with hcalls | ⟨messages, hcalls⟩
    · have hflush : history logLevel (events ++ [e]) = ⟨[], (history logLevel events).sent ++
          (history logLevel events).kept.flatten⟩ := by
        rw [hhistory, hcalls]
        rfl
      have hsame : loggedLines logLevel (events ++ [e]) = loggedLines logLevel events := by
        rw [hlogged, hcalls]
        exact List.append_nil _
      refine ⟨delivered ++ (history logLevel events).kept, ?_, ?_, ?_⟩
      · rw [hflush, hsent, List.flatten_append]
      · rw [hflush, hsame, List.append_nil]
        have hkept := (history logLevel events).kept_spec.suffix.sublist
        exact ((List.Sublist.refl _).append hkept).trans horder
      · intro hfits
        rw [hflush, hsame, List.append_nil,
          History.kept_eq_lines (hfits events (List.prefix_append _ _))]
        exact hlossless (hshorter hfits)
    · rw [hcalls] at hhistory hlogged
      rw [foldl_messages] at hhistory
      refine ⟨delivered, ?_, ?_, ?_⟩
      · rw [hhistory, hsent]
      · rw [hhistory, hlogged, ← List.append_assoc]
        exact horder.append (List.Sublist.refl _)
      · intro hfits
        rw [hhistory, hlogged, ← List.append_assoc, hlossless (hshorter hfits)]

/-- The payloads that the host collects are the lines of the log in order, none of them twice:
what the ring holds is the longest suffix that fits of the lines since the last answered
GET_LOG request, and the lines collected and held are among those logged. If the lines between
two such requests always fit, they are all of them. -/
theorem host_collects_the_log (logLevel : Int) (build : Build) (rp2040State : RP2040State)
    (events : List Event) :
    let s := session logLevel build rp2040State events
    IsLongestSuffix Fits (history logLevel events).lines (live s.comm.log) ∧
      ∃ delivered : List (List Byte), s.collected = delivered.flatten ∧
        (delivered ++ live s.comm.log).Sublist (loggedLines logLevel events) ∧
        ((∀ before, before <+: events → Fits (history logLevel before).lines) →
          delivered ++ live s.comm.log = loggedLines logLevel events) := by
  have hr := @refines_session logLevel build rp2040State events
  obtain ⟨delivered, hsent, horder, hlossless⟩ := exists_accounts logLevel events
  refine ⟨hr.live, delivered, (hr.sent trivial).trans hsent, ?_, ?_⟩
  · have hsuffix := ((List.Sublist.refl delivered).append hr.live.suffix.sublist)
    exact hsuffix.trans horder
  · intro hfits
    have hall := History.kept_eq_lines (hfits events (List.prefix_refl _))
    have hlive := hr.live_eq
    simp only at hlive
    rw [hlive, hall]
    exact hlossless hfits

end

end SrFirmware.LogService
