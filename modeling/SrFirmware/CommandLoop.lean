import SrFirmware.Requests

/-!
# What the command loop guarantees

Acceptance, synchronisation, effects and answers of `get_block`, each read off `serve`.
-/

namespace SrFirmware

open Lib
set_option autoImplicit false

section
variable {logLevel : Int} (build : Build) (p : Platform logLevel)

/-! ### Acceptance -/

theorem serve_cases (s : SerialComm) (item : Item) (rest : List Input) :
    (item = .quiet ∧ serve build p s item rest = ⟨s, rest, [], [], []⟩) ∨
      (item ≠ .quiet ∧ item.request = none ∧
        serve build p s item rest = (s.stampT4 build p).nackResult rest) ∨
      ∃ q, item.request = some q ∧ serve build p s item rest =
        let h := respond build p (s.stampT4 build p) (.ofPacket q)
        ⟨h.comm, rest, h.out, [q], h.effects⟩ := by
  cases item with
  | quiet => exact .inl ⟨rfl, rfl⟩
  | truncated => exact .inr (.inl ⟨nofun, rfl, rfl⟩)
  | frame d =>
    cases hreq : d.request with
    | none => exact .inr (.inl ⟨nofun, hreq, by simp [serve, hreq]⟩)
    | some q =>
      refine .inr (.inr ⟨q, hreq, ?_⟩)
      simp only [serve, hreq, handlePacket_eq_respond]

theorem serve_handled (s : SerialComm) (item : Item) (rest : List Input) :
    (serve build p s item rest).handled = item.request.toList := by
  obtain ⟨rfl, h⟩ | ⟨-, hreq, h⟩ | ⟨q, hreq, h⟩ := serve_cases build p s item rest
  · rfl
  · rw [h, hreq]
    rfl
  · rw [h, hreq]
    rfl

theorem serve_input (s : SerialComm) (item : Item) (rest : List Input) :
    (serve build p s item rest).input = rest := by
  obtain ⟨rfl, h⟩ | ⟨-, -, h⟩ | ⟨q, -, h⟩ := serve_cases build p s item rest <;> rw [h]
  rfl

theorem serve_effects (s : SerialComm) (item : Item) (rest : List Input) :
    (serve build p s item rest).effects =
      (item.request.map Request.ofPacket).toList.flatMap Request.effects := by
  obtain ⟨rfl, h⟩ | ⟨-, hreq, h⟩ | ⟨q, hreq, h⟩ := serve_cases build p s item rest
  · rfl
  · rw [h, hreq]
    rfl
  · rw [h, hreq]
    simp [respond_effects]

theorem getBlock_handled (s : SerialComm) (input : List Input) :
    (getBlock build p s input).handled = (scan input).1.request.toList := by
  obtain ⟨v, hv⟩ := getBlock_serve build p s input
  rw [hv, ← serve_handled build p s _ (scan input).2]
  rfl

theorem getBlock_input (s : SerialComm) (input : List Input) :
    (getBlock build p s input).input = (scan input).2 := by
  obtain ⟨v, hv⟩ := getBlock_serve build p s input
  rw [hv]
  exact serve_input build p s _ _

theorem frame_delimited (cmd : Byte) {payload : List Byte} (h : payload.length < 65535) :
    ∃ d : Delimited, d.bytes = frame cmd payload := by
  have hframe : WellFormed (frame cmd payload) cmd payload := frame_wellFormed h
  obtain ⟨l1, l2, c1, c2, hbytes, hlen, _⟩ := hframe
  refine ⟨⟨l1, l2, cmd :: payload, c1, c2, by rw [List.length_cons, hlen]⟩, ?_⟩
  rw [hbytes]
  simp [Delimited.bytes]

/-- A stream holds a request at its head exactly when it starts with its frame. -/
theorem scan_request_iff (input : List Input) (cmd : Byte) (payload : List Byte) :
    (scan input).1.request = some (cmd, payload) ↔
      payload.length ≤ 1023 ∧ (frame cmd payload).map .byte <+: input := by
  constructor
  · intro h
    cases hitem : (scan input).1 with
    | quiet => rw [hitem] at h; cases h
    | truncated => rw [hitem] at h; cases h
    | frame d =>
      rw [hitem] at h
      obtain ⟨hlen, hbytes⟩ := (d.request_iff cmd payload).mp h
      exact ⟨hlen, hbytes ▸ (scan_frame_iff input d).mp hitem⟩
  · rintro ⟨hlen, hpre⟩
    obtain ⟨d, hd⟩ := frame_delimited cmd (show payload.length < 65535 by omega)
    rw [(scan_frame_iff input d).mpr (hd ▸ hpre)]
    exact (d.request_iff cmd payload).mpr ⟨hlen, hd⟩

/-- `handle_packet` is called exactly on the encoder's image, once, and the call consumes
exactly that image. The benchmark host encodes the same image. -/
theorem get_block_accepts_encoder_image (s : SerialComm) (input : List Input) (cmd : Byte)
    (payload : List Byte) :
    let sent := sendFramedPacket cmd (some payload) payload.length
    let r := getBlock build p s input
    ((cmd, payload) ∈ r.handled ↔ payload.length ≤ 1023 ∧ sent.map .byte <+: input) ∧
      ((cmd, payload) ∈ r.handled →
        r.handled = [(cmd, payload)] ∧ input = sent.map .byte ++ r.input) ∧
      (payload.length ≤ 1023 → Benchmark.wrapPacket cmd payload = sent) := by
  simp only [sendFramedPacket_eq, getBlock_handled, getBlock_input, wrapPacket_eq]
  have hmem : (cmd, payload) ∈ (scan input).1.request.toList ↔
      (scan input).1.request = some (cmd, payload) := by simp [eq_comm]
  refine ⟨hmem.trans (scan_request_iff input cmd payload), ?_, fun _ => trivial⟩
  intro h
  have hreq := hmem.mp h
  refine ⟨by rw [hreq]; rfl, ?_⟩
  obtain ⟨hlen, tail, rfl⟩ := (scan_request_iff input cmd payload).mp hreq
  obtain ⟨d, hd⟩ := frame_delimited cmd (show payload.length < 65535 by omega)
  rw [← hd, scan_append]

/-! ### The ring during a call -/

theorem LogReach.wf_nulFree {a b : CircularBufferLog} (h : LogReach logLevel a b) (ha : Wf a)
    (hnul : ∀ line ∈ live a, NulFree line) : Wf b ∧ ∀ line ∈ live b, NulFree line := by
  induction h with
  | refl => exact ⟨ha, hnul⟩
  | @log a b c fuel level text htext hlog _ ih =>
    by_cases hlevel : level < logLevel
    · rw [rp2040Log_rejected hlevel] at hlog
      obtain rfl := Option.some.inj hlog
      exact ih ha hnul
    · obtain ⟨hwf, hlong⟩ := rp2040Log_returns ha (Int.not_lt.mp hlevel) hlog
      apply ih hwf
      intro line hl
      rcases List.mem_append.mp (hlong.suffix.subset hl) with hl | hl
      · exact hnul line hl
      · rw [List.mem_singleton.mp hl]
        exact nulFree_truncateText htext

theorem ReachableRing.wf_nulFree {b : CircularBufferLog} (h : ReachableRing logLevel b) :
    Wf b ∧ ∀ line ∈ live b, NulFree line := by
  induction h with
  | init => exact ⟨wf_init, by simp [live_init]⟩
  | log _ hreach ih => exact hreach.wf_nulFree ih.1 ih.2
  | drain _ ih => exact ⟨wf_flush ih.1, by simp⟩

/-! ### Answers -/

@[simp] theorem SerialComm.stampT4_log (s : SerialComm) : (s.stampT4 build p).log = s.log := by
  unfold SerialComm.stampT4
  split <;> rfl

@[simp] theorem SerialComm.stampT4_motors (s : SerialComm) :
    (s.stampT4 build p).motors = s.motors := by
  unfold SerialComm.stampT4
  split <;> rfl

@[simp] theorem SerialComm.stampT4_state (s : SerialComm) :
    (s.stampT4 build p).outgoing.state = s.outgoing.state := by
  unfold SerialComm.stampT4
  split <;> rfl

theorem SerialComm.nackResult_eq (s : SerialComm) (input : List Input) :
    s.nackResult input = ⟨s, input, frame Command.nack [], [], []⟩ := by
  rw [SerialComm.nackResult, sendFramedPacket_null]

def Item.answer (item : Item) : Byte :=
  match item.request with
  | some q => (Request.ofPacket q).answer
  | none => Command.nack

theorem scan_quiet_iff (input : List Input) :
    (scan input).1 = .quiet ↔ input.head? ≠ some (.byte startMarker) := by
  cases input with
  | nil => simp [scan]
  | cons e rest =>
    cases e with
    | timeout => simp [scan]
    | byte b =>
      by_cases hb : b = startMarker
      · subst hb
        simp only [scan, leadingBytes_byte, ne_eq, not_true_eq_false, if_false, List.head?_cons,
          iff_false]
        split
        · split <;> nofun
        · nofun
      · simp [scan, hb]

theorem serve_answer (s : SerialComm) {item : Item} (hne : item ≠ .quiet) (rest : List Input)
    (hwf : Wf s.log) (hnul : ∀ line ∈ live s.log, NulFree line) :
    ∃ payload, WellFormed (serve build p s item rest).out item.answer payload := by
  unfold Item.answer
  obtain ⟨rfl, -⟩ | ⟨-, hreq, h⟩ | ⟨q, hreq, h⟩ := serve_cases build p s item rest
  · exact absurd rfl hne
  · rw [h, hreq, SerialComm.nackResult_eq]
    exact ⟨[], frame_wellFormed (by decide)⟩
  · rw [h, hreq]
    exact respond_wellFormed build p _ _ (by simpa using hwf) (by simpa using hnul)

theorem getBlock_out (s : SerialComm) (input : List Input) :
    (getBlock build p s input).out = (serve build p s (scan input).1 (scan input).2).out := by
  obtain ⟨v, hv⟩ := getBlock_serve build p s input
  rw [hv]
  rfl

/-- One call answers a started frame with one documented frame, and nothing else with any. -/
theorem get_block_answers_each_started_frame (s : SerialComm) (input : List Input)
    (hring : ReachableRing logLevel s.log) :
    let r := getBlock build p s input
    (input.head? ≠ some (.byte startMarker) → r.out = []) ∧
      (input.head? = some (.byte startMarker) →
        ∃ payload, WellFormed r.out (scan input).1.answer payload) := by
  obtain ⟨hwf, hnul⟩ := hring.wf_nulFree
  simp only [getBlock_out]
  constructor
  · intro hhead
    rw [(scan_quiet_iff input).mpr hhead]
    rfl
  · intro hhead
    refine serve_answer build p s ?_ _ hwf hnul
    intro hq
    exact (scan_quiet_iff input).mp hq hhead

/-- The ring after `n` empty lines. -/
def emptyLines (n : Nat) : CircularBufferLog :=
  { rp2040LogInit with
    logArrayLineSize := fun i => if i < n then 1 else 0
    count := n
    tail := n % logBufferLineCount }

theorem rp2040Log_emptyLines {n : Nat} (h : n < logBufferLineCount) :
    rp2040Log 1 0 0 [] (emptyLines n) = some (emptyLines (n + 1)) := by
  have htail : n % logBufferLineCount = n := Nat.mod_eq_of_lt h
  have hslots : Function.update rp2040LogInit.logArray n
      (vsnprintf (rp2040LogInit.logArray n) 1 []) = rp2040LogInit.logArray :=
    Function.update_eq_self n rp2040LogInit.logArray
  have hsizes : Function.update (fun i => if i < n then 1 else 0) n 1 =
      fun i => if i < n + 1 then 1 else 0 := by
    funext i
    by_cases hi : i = n
    · simp [hi]
    · rw [Function.update_of_ne hi]
      exact if_congr (by omega) rfl rfl
  have hcount : (n + 1) % 65536 = n + 1 := Nat.mod_eq_of_lt (by simp at h; omega)
  have hfits : ¬ (n = logBufferLineCount ∨
      rp2040LogInit.byteCount + rp2040LogPayloadSize 1 > uint16Max - 1) := by
    rw [not_or]
    exact ⟨h.ne, by decide⟩
  have hroom : rp2040LogMakeRoom 1 (rp2040LogPayloadSize 1) (emptyLines n) =
      some (emptyLines n) := if_neg hfits
  have hstore : rp2040LogStore 1 [] (emptyLines n) = emptyLines (n + 1) := by
    simp only [rp2040LogStore, emptyLines, htail, hslots, hsizes, hcount]
    rfl
  rw [← hstore]
  exact congrArg (Option.map (rp2040LogStore 1 [])) hroom

theorem reachable_emptyLines {n : Nat} (h : n ≤ logBufferLineCount) :
    ReachableRing 0 (emptyLines n) := by
  induction n with
  | zero => exact .init
  | succ n ih =>
    exact .log (ih (Nat.le_of_succ_le h))
      (.log (by simp [NulFree]) (rp2040Log_emptyLines h) (.refl _))

/-- The log is asked for with the ring full and `"OK"` behind its end. -/
theorem get_block_answers_each_started_frame_wrapped :
    ∃ log, ReachableRing 0 log ∧ log.head = 1 ∧ log.count = 1028 ∧
      (live log).getLast? = some [0x4F, 0x4B] ∧
      ∃ payload, WellFormed (getBlock ⟨false, true⟩ (.idle 0)
        { serialCommManagerInit RP2040State.zero with log := log }
        ((frame Command.getLog []).map .byte)).out Command.getLog payload := by
  let dropped := rp2040LogDropOldest (emptyLines 1028)
  let log := rp2040LogStore 3 [0x4F, 0x4B] dropped
  have hfull : ReachableRing 0 (emptyLines 1028) := reachable_emptyLines (Nat.le_refl 1028)
  have hline : rp2040Log 2 0 0 [0x4F, 0x4B] (emptyLines 1028) = some log := rfl
  have hring : ReachableRing 0 log :=
    .log hfull (.log (by simp [NulFree]) hline (.refl log))
  have hroom : HasRoom 2 dropped := ⟨by decide, by decide⟩
  have hwf : Wf dropped := wf_drop hfull.wf_nulFree.1 (by decide)
  have hlive : live log = live dropped ++ [[0x4F, 0x4B]] :=
    live_store hwf hroom (by decide)
  have hanswer : (scan ((frame Command.getLog []).map .byte)).1.answer = Command.getLog := by
    decide +kernel
  have h := (get_block_answers_each_started_frame ⟨false, true⟩ (.idle 0)
    { serialCommManagerInit RP2040State.zero with log := log }
    ((frame Command.getLog []).map .byte) hring).2 rfl
  rw [hanswer] at h
  exact ⟨log, hring, by decide, by decide, by rw [hlive, List.getLast?_concat], h⟩

/-! ### Effects -/

theorem getBlock_effects (s : SerialComm) (input : List Input) :
    (getBlock build p s input).effects =
      ((scan input).1.request.map Request.ofPacket).toList.flatMap Request.effects := by
  obtain ⟨v, hv⟩ := getBlock_serve build p s input
  rw [hv, ← serve_effects build p s _ (scan input).2]
  rfl

theorem getBlock_frame (s : SerialComm) (input : List Input) :
    let r := getBlock build p s input
    (r.out = [] ∨ r.out[3]? = some Command.nack ∨ r.out[3]? = some Command.ack ∨
        r.out[3]? = some Command.getVersion →
      r.comm.log = s.log ∧ r.comm.motors = s.motors ∧
        r.comm.outgoing.state = s.outgoing.state) ∧
      (if .sendLogPacket ∈ r.effects then r.comm.log = (rp2040LogFlush s.log).2
        else LogReach logLevel s.log r.comm.log) ∧
      (r.effects.filterMap Effect.motorPair = [] → r.comm.motors = s.motors) := by
  obtain ⟨v, hv⟩ := getBlock_serve build p s input
  rw [hv]
  obtain ⟨-, h⟩ | ⟨-, -, h⟩ | ⟨q, -, h⟩ := serve_cases build p s (scan input).1 (scan input).2
  · rw [h]
    exact ⟨fun _ => ⟨rfl, rfl, rfl⟩, .refl _, fun _ => rfl⟩
  · rw [h, SerialComm.nackResult_eq]
    simp [CallResult.withBuffer, SerialComm.withBuffer, LogReach.refl]
  · obtain ⟨hout, hcomm⟩ := respond_out build p (s.stampT4 build p) (.ofPacket q)
    have hlog := respond_log build p (s.stampT4 build p) (.ofPacket q)
    have hmotors := respond_motors build p (s.stampT4 build p) (.ofPacket q)
    rw [SerialComm.stampT4_log] at hlog
    rw [SerialComm.stampT4_motors] at hmotors
    rw [h]
    simp only [CallResult.withBuffer, SerialComm.withBuffer, hout, respond_effects]
    refine ⟨?_, hlog, fun hpair => hmotors ?_⟩
    · intro hquiet
      rw [hcomm ?_]
      · simp
      · rcases hquiet with hnil | hsome
        · simp [hnil] at hout
        · simpa using hsome
    · rw [Request.effects_motorPair] at hpair
      exact Option.toList_eq_nil_iff.mp hpair

/-- The run lemma: the calls have the effects of the accepted requests, in their order. -/
theorem getBlocks_effects (ps : List (Platform logLevel)) (s : SerialComm) (input : List Input) :
    (getBlocks build ps s input).flatMap CallResult.effects =
      ((scanMany ps.length input).filterMap fun i => i.request.map Request.ofPacket).flatMap
        Request.effects := by
  induction ps generalizing s input with
  | nil => rfl
  | cons p ps ih =>
    simp only [getBlocks, List.flatMap_cons, List.length_cons, scanMany, ih, getBlock_effects,
      getBlock_input]
    cases hreq : (scan input).1.request <;> simp [hreq]

/-- Over a run, motors are set, states gathered and logs drained by the accepted requests
that ask for it, and by nothing else. -/
theorem only_accepted_requests_have_effects (ps : List (Platform logLevel)) (s : SerialComm)
    (input : List Input) :
    let effects := (getBlocks build ps s input).flatMap CallResult.effects
    let requests := (scanMany ps.length input).filterMap fun i => i.request.map Request.ofPacket
    effects.filterMap Effect.motorPair = requests.filterMap Request.motorPair ∧
      effects.count .getState =
        requests.countP (fun r => r = .getState ∨ r.motorPair.isSome) ∧
      effects.count .sendLogPacket = requests.count .getLog ∧
      ∀ (p : Platform logLevel) (s : SerialComm) (input : List Input),
        let r := getBlock build p s input
        (r.out = [] ∨ r.out[3]? = some Command.nack ∨ r.out[3]? = some Command.ack ∨
            r.out[3]? = some Command.getVersion →
          r.comm.log = s.log ∧ r.comm.motors = s.motors ∧
            r.comm.outgoing.state = s.outgoing.state) ∧
          (if .sendLogPacket ∈ r.effects then r.comm.log = (rp2040LogFlush s.log).2
            else LogReach logLevel s.log r.comm.log) ∧
          (r.effects.filterMap Effect.motorPair = [] → r.comm.motors = s.motors) := by
  simp only [getBlocks_effects]
  generalize (scanMany ps.length input).filterMap
    (fun i => i.request.map Request.ofPacket) = requests
  refine ⟨?_, ?_, ?_, getBlock_frame build⟩
  · induction requests with
    | nil => rfl
    | cons r rs ih =>
      rw [List.flatMap_cons, List.filterMap_append, ih, Request.effects_motorPair]
      cases hr : r.motorPair <;> simp [hr]
  · induction requests with
    | nil => rfl
    | cons r rs ih =>
      rw [List.flatMap_cons, List.count_append, ih, List.countP_cons, Nat.add_comm]
      congr 1
      cases r <;> rfl
  · induction requests with
    | nil => rfl
    | cons r rs ih =>
      rw [List.flatMap_cons, List.count_append, ih, List.count_cons, Nat.add_comm]
      congr 1
      cases r <;> rfl

/-! ### Synchronisation -/

/-- What a stall-free sender puts on the line. -/
inductive StreamItem where
  | noise (b : Byte) (h : b ≠ startMarker)
  | frame (d : Delimited)

def StreamItem.bytes : StreamItem → List Byte
  | .noise b _ => [b]
  | .frame d => d.bytes

def StreamItem.item : StreamItem → Item
  | .noise _ _ => .quiet
  | .frame d => .frame d

theorem scan_item_append (i : StreamItem) (rest : List Input) :
    scan (i.bytes.map .byte ++ rest) = (i.item, rest) := by
  cases i with
  | noise b h => simp [StreamItem.bytes, StreamItem.item, scan, h]
  | frame d => exact scan_append d rest

def onLine (calls : List (StreamItem × Platform logLevel)) (rest : List Input) : List Input :=
  (calls.flatMap fun c => c.1.bytes).map .byte ++ rest

theorem onLine_cons (c : StreamItem × Platform logLevel)
    (calls : List (StreamItem × Platform logLevel)) (rest : List Input) :
    onLine (c :: calls) rest = c.1.bytes.map .byte ++ onLine calls rest := by
  simp [onLine]

/-- What the host and the rest of the firmware can see of a call. -/
structure Response where
  out : List Byte
  handled : List (Byte × List Byte)
  effects : List Effect
  state : RP2040State
  log : CircularBufferLog
  motors : MotorControl

def CallResult.response (r : CallResult) : Response :=
  ⟨r.out, r.handled, r.effects, r.comm.outgoing.state, r.comm.log, r.comm.motors⟩

/-- The answers owed to a list of items: each is a function of its own item and of the state
that the accepted ones before it have left. -/
def answers : List (StreamItem × Platform logLevel) → SerialComm → List Response
  | [], _ => []
  | (i, q) :: rest, s =>
    let r := serve build q s i.item []
    r.response :: answers rest (if i.item.request.isSome then r.comm else s)

end

/-- `s'` has answered rejected items that `s` has not: the receive buffer and, where it is
taken at all, the first timestamp may differ. -/
structure Stale (build : Build) (s s' : SerialComm) : Prop where
  state : s'.outgoing.state = s.outgoing.state
  t5 : s'.outgoing.telemetry.t5TimestampUs = s.outgoing.telemetry.t5TimestampUs
  t4 : build.enableLatencyBenchmark = false →
    s'.outgoing.telemetry.t4TimestampUs = s.outgoing.telemetry.t4TimestampUs
  log : s'.log = s.log
  motors : s'.motors = s.motors

section
variable {logLevel : Int} {build : Build} (p : Platform logLevel) {s s' : SerialComm}

namespace Stale

theorem refl (build : Build) (s : SerialComm) : Stale build s s :=
  ⟨rfl, rfl, fun _ => rfl, rfl, rfl⟩

theorem withBuffer (h : Stale build s s') (v : Vector Byte maxPayloadSize) :
    Stale build s (s'.withBuffer v) :=
  ⟨h.state, h.t5, h.t4, h.log, h.motors⟩

theorem stamped (h : Stale build s s') : Stale build s (s'.stampT4 build p) := by
  unfold SerialComm.stampT4
  split
  · exact ⟨h.state, h.t5, fun hoff => by simp_all, h.log, h.motors⟩
  · exact h

theorem stampT4_eq (h : Stale build s s') :
    s'.stampT4 build p = (s.stampT4 build p).withBuffer s'.rxBuffer := by
  obtain ⟨⟨state, ⟨t4, t5⟩⟩, buffer, log, motors⟩ := s
  obtain ⟨⟨state', ⟨t4', t5'⟩⟩, buffer', log', motors'⟩ := s'
  obtain ⟨rfl, rfl, h4, rfl, rfl⟩ := h
  cases hb : build.enableLatencyBenchmark with
  | true => simp [SerialComm.stampT4, SerialComm.withBuffer, hb]
  | false =>
    obtain rfl := h4 hb
    simp [SerialComm.stampT4, SerialComm.withBuffer, hb]

theorem nack_response (h : Stale build s s') (rest : List Input) :
    ((s'.stampT4 build p).nackResult rest).response =
      ((s.stampT4 build p).nackResult []).response := by
  simp [CallResult.response, SerialComm.nackResult_eq, h.state, h.log, h.motors]

/-- The next answer, and what it leaves, do not depend on the rejected items. -/
theorem serve_response (h : Stale build s s') (item : Item) (rest : List Input) :
    (serve build p s' item rest).response = (serve build p s item []).response ∧
      Stale build (if item.request.isSome then (serve build p s item []).comm else s)
        (serve build p s' item rest).comm := by
  cases item with
  | quiet => exact ⟨by simp [serve, CallResult.response, h.state, h.log, h.motors], h⟩
  | truncated => exact ⟨h.nack_response p rest, h.stamped p⟩
  | frame d =>
    cases hreq : d.request with
    | none =>
      simp only [serve, Item.request, hreq]
      exact ⟨h.nack_response p rest, h.stamped p⟩
    | some q =>
      simp only [serve, Item.request, hreq, h.stampT4_eq p, handlePacket_withBuffer]
      exact ⟨rfl, (Stale.refl build _).withBuffer _⟩

end Stale

theorem getBlocks_onLine (h : Stale build s s') (calls : List (StreamItem × Platform logLevel))
    (rest : List Input) :
    let rs := getBlocks build (calls.map Prod.snd) s' (onLine calls rest)
    rs.map CallResult.input = calls.tails.tail.map (onLine · rest) ∧
      rs.map CallResult.response = answers build calls s := by
  induction calls generalizing s s' with
  | nil => exact ⟨rfl, rfl⟩
  | cons c calls ih =>
    obtain ⟨i, p⟩ := c
    obtain ⟨v, hv⟩ := getBlock_serve build p s' (onLine ((i, p) :: calls) rest)
    rw [onLine_cons, scan_item_append] at hv
    obtain ⟨hresponse, hstale⟩ := h.serve_response p i.item (onLine calls rest)
    obtain ⟨ihinput, ihresponse⟩ := ih (hstale.withBuffer v)
    simp only [List.map_cons, getBlocks, onLine_cons, hv]
    simp only [CallResult.withBuffer, serve_input]
    constructor
    · rw [ihinput]
      cases calls <;> simp
    · rw [ihresponse]
      simp only [answers, ← hresponse]
      rfl

theorem getBlock_reachable (build : Build) (input : List Input)
    (h : ReachableRing logLevel s.log) :
    ReachableRing logLevel (getBlock build p s input).comm.log := by
  have hlog := (getBlock_frame build p s input).2.1
  split at hlog
  · rw [hlog]
    exact .drain h
  · exact .log h hlog

theorem getBlocks_answered (build : Build) (calls : List (StreamItem × Platform logLevel))
    (rest : List Input) (h : ReachableRing logLevel s.log) :
    List.Forall₂ (fun c r => match c.1 with
        | .noise _ _ => r.out = []
        | .frame _ => ∃ cmd payload, WellFormed r.out cmd payload)
      calls (getBlocks build (calls.map Prod.snd) s (onLine calls rest)) := by
  induction calls generalizing s with
  | nil => exact .nil
  | cons c calls ih =>
    obtain ⟨i, p⟩ := c
    have hscan : scan (onLine ((i, p) :: calls) rest) = (i.item, onLine calls rest) := by
      rw [onLine_cons, scan_item_append]
    have hout := getBlock_out build p s (onLine ((i, p) :: calls) rest)
    have hinput := getBlock_input build p s (onLine ((i, p) :: calls) rest)
    rw [hscan] at hout hinput
    simp only [List.map_cons, getBlocks]
    constructor
    · rw [hout]
      cases i with
      | noise b hb => rfl
      | frame d =>
        obtain ⟨hwf, hnul⟩ := h.wf_nulFree
        have hne : (StreamItem.frame d).item ≠ .quiet := nofun
        exact ⟨_, serve_answer build p s hne _ hwf hnul⟩
    · rw [hinput]
      exact ih (getBlock_reachable p build _ h)

/-- A stall-free stream of frames and noise is cut exactly where the sender cut it: each call
consumes one noise byte in silence or one whole frame, which it answers once, by its own
content and by what the accepted frames before it have left. -/
theorem stall_free_stream_stays_synchronised (build : Build) (s : SerialComm)
    (calls : List (StreamItem × Platform logLevel)) (rest : List Input) :
    let rs := getBlocks build (calls.map Prod.snd) s (onLine calls rest)
    rs.map CallResult.input = calls.tails.tail.map (onLine · rest) ∧
      rs.map CallResult.response = answers build calls s ∧
      (ReachableRing logLevel s.log → List.Forall₂
        (fun c r => match c.1 with
          | .noise _ _ => r.out = []
          | .frame _ => ∃ cmd payload, WellFormed r.out cmd payload) calls rs) := by
  obtain ⟨hinput, hresponse⟩ := getBlocks_onLine (Stale.refl build s) calls rest
  exact ⟨hinput, hresponse, getBlocks_answered build calls rest⟩

end

end SrFirmware
