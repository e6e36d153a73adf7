import SrFirmware.StateHistory
import Mathlib.Data.List.Forall2
import Mathlib.Data.List.ReduceOption

/-!
# The benchmark host, `tools/benchmark/main.cpp`

The loop of `main` that sends a motor command and waits for the answer. A list of reads is
what `read` returns within the 200 ms of one iteration, byte by byte; the clock is left out.
-/

namespace SrFirmware.Benchmark

open Telemetry (StateRequest)
set_option autoImplicit false

/-- `EXPECTED_RESPONSE_SIZE`, by `LATENCY_BENCHMARK` -/
def expectedResponseSize (latencyBenchmark : Bool) : Nat := if latencyBenchmark then 51 else 35

def txPacket : List Byte := wrapPacket Command.setMotorLevel [0x00, 0x00]

/-- The four checks, once `rx` has the expected size. -/
def validate (size : Nat) (rx : List Byte) : Bool :=
  let rxLen := word (rx.getD 1 0) (rx.getD 2 0)
  let receivedCrc := word (rx.getD (size - 2) 0) (rx.getD (size - 1) 0)
  let calculatedCrc := crc16Ccitt ((rx.drop 1).take (size - 3)) 0xFFFF
  if rx.getD 0 0 ≠ startMarker then false
  else if rxLen.toNat ≠ size - 6 + 1 then false
  else if rx.getD 3 0 ≠ Command.setMotorLevel then false
  else calculatedCrc = receivedCrc

/-- The receive loop: the `status` it ends with. -/
def receive (size : Nat) : List Byte → List (Option Byte) → Bool
  | _, [] => false
  | rx, none :: reads => receive size rx reads
  | rx, some c :: reads =>
    let rx := rx ++ [c]
    if rx.length = size then validate size rx else receive size rx reads

/-- `Stats::lost`, over the iterations. -/
def lost (latencyBenchmark : Bool) (iterations : List (List (Option Byte))) : Nat :=
  iterations.length -
    (iterations.filter fun reads => receive (expectedResponseSize latencyBenchmark) [] reads).length

/-! ### What is accepted -/

theorem exists_fields {rx : List Byte} (h : 6 ≤ rx.length) :
    ∃ m l1 l2 cmd payload c1 c2, rx = [m, l1, l2, cmd] ++ payload ++ [c1, c2] := by
  match rx, h with
  | m :: l1 :: l2 :: cmd :: rest, h =>
    have hrest : rest.length - 2 + 2 = rest.length := by
      simp only [List.length_cons] at h
      omega
    have htail : (rest.drop (rest.length - 2)).length = 2 := by simp; omega
    obtain ⟨c1, c2, htail⟩ := List.length_eq_two.mp htail
    exact ⟨m, l1, l2, cmd, rest.take (rest.length - 2), c1, c2, by simp [← htail]⟩

theorem getD_trailer (front : List Byte) (c1 c2 : Byte) :
    (front ++ [c1, c2]).getD front.length 0 = c1 ∧
      (front ++ [c1, c2]).getD (front.length + 1) 0 = c2 := by
  constructor <;> simp [List.getD_eq_getElem?_getD]

theorem validate_fields (m l1 l2 cmd c1 c2 : Byte) (payload : List Byte) :
    validate (payload.length + 6) ([m, l1, l2, cmd] ++ payload ++ [c1, c2]) = true ↔
      m = startMarker ∧ (word l1 l2).toNat = payload.length + 1 ∧
        cmd = Command.setMotorLevel ∧
        crc16Ccitt (l1 :: l2 :: cmd :: payload) 0xFFFF = word c1 c2 := by
  obtain ⟨hc1, hc2⟩ := getD_trailer ([m, l1, l2, cmd] ++ payload) c1 c2
  have hfront : ([m, l1, l2, cmd] ++ payload).length = payload.length + 4 := by simp
  have hbody : (([m, l1, l2, cmd] ++ payload ++ [c1, c2]).drop 1).take (payload.length + 3) =
      l1 :: l2 :: cmd :: payload := by simp
  rw [hfront] at hc1 hc2
  simp only [validate, Nat.add_sub_cancel, Nat.reduceSubDiff, hbody, hc1, hc2]
  simp

/-- Accepted are the frames of a motor command's answer with a payload of one length. -/
theorem validate_iff {size : Nat} {rx : List Byte} (hlen : rx.length = size) (h : 6 ≤ size)
    (hmax : size ≤ 65540) :
    validate size rx = true ↔
      ∃ payload, payload.length = size - 6 ∧ rx = frame Command.setMotorLevel payload := by
  constructor
  · intro hvalid
    obtain ⟨m, l1, l2, cmd, payload, c1, c2, rfl⟩ := exists_fields (hlen ▸ h)
    have hpayload : payload.length + 6 = size := by simpa using hlen
    rw [← hpayload, validate_fields] at hvalid
    obtain ⟨rfl, hword, rfl, hcrc⟩ := hvalid
    have hwf : WellFormed ([startMarker, l1, l2, Command.setMotorLevel] ++ payload ++ [c1, c2])
        Command.setMotorLevel payload := ⟨l1, l2, c1, c2, rfl, hword, hcrc.symm⟩
    exact ⟨payload, by omega, hwf.eq_frame⟩
  · rintro ⟨payload, hpayload, rfl⟩
    obtain ⟨l1, l2, c1, c2, hbytes, hword, hcrc⟩ :=
      @frame_wellFormed Command.setMotorLevel payload (by omega)
    have hsize : size = payload.length + 6 := by omega
    rw [hbytes, hsize, validate_fields]
    exact ⟨rfl, hword, rfl, hcrc.symm⟩

theorem receive_iff {size : Nat} (rx : List Byte) (reads : List (Option Byte))
    (h : rx.length < size) :
    receive size rx reads = true ↔
      size ≤ (rx ++ reads.reduceOption).length ∧
        validate size ((rx ++ reads.reduceOption).take size) = true := by
  induction reads generalizing rx with
  | nil =>
    have hshort : ¬ size ≤ (rx ++ ([] : List (Option Byte)).reduceOption).length := by
      simpa using h
    simp only [receive, hshort, false_and, Bool.false_eq_true]
  | cons r reads ih =>
    cases r with
    | none =>
      rw [List.reduceOption_cons_of_none]
      exact ih rx h
    | some c =>
      have hcat : rx ++ c :: reads.reduceOption = (rx ++ [c]) ++ reads.reduceOption := by simp
      have hrx : (rx ++ [c]).length = rx.length + 1 := by simp
      rw [List.reduceOption_cons_of_some, hcat]
      by_cases hfull : (rx ++ [c]).length = size
      · have hle : size ≤ ((rx ++ [c]) ++ reads.reduceOption).length := by
          rw [List.length_append]
          omega
        rw [receive, if_pos hfull, List.take_append_of_le_length hfull.ge,
          List.take_of_length_le hfull.le]
        simp only [hle, true_and]
      · rw [receive, if_neg hfull]
        exact ih (rx ++ [c]) (by omega)

theorem expectedResponseSize_bounds (latencyBenchmark : Bool) :
    6 ≤ expectedResponseSize latencyBenchmark ∧
      expectedResponseSize latencyBenchmark ≤ 65540 := by
  cases latencyBenchmark <;> decide

theorem frame_of_receive {latencyBenchmark : Bool} {reads : List (Option Byte)}
    (h : receive (expectedResponseSize latencyBenchmark) [] reads = true) :
    ∃ payload, payload.length = expectedResponseSize latencyBenchmark - 6 ∧
      frame Command.setMotorLevel payload <+: reads.reduceOption := by
  obtain ⟨hmin, hmax⟩ := expectedResponseSize_bounds latencyBenchmark
  rw [receive_iff [] reads (show 0 < expectedResponseSize latencyBenchmark by omega),
    List.nil_append] at h
  obtain ⟨hle, hvalid⟩ := h
  have htake := List.length_take_of_le hle
  obtain ⟨payload, hpayload, hframe⟩ := (validate_iff htake hmin hmax).mp hvalid
  exact ⟨payload, hpayload, hframe ▸ List.take_prefix _ _⟩

theorem receive_of_frame {latencyBenchmark : Bool} {reads : List (Option Byte)}
    {payload : List Byte} (hpayload : payload.length = expectedResponseSize latencyBenchmark - 6)
    (h : frame Command.setMotorLevel payload <+: reads.reduceOption) :
    receive (expectedResponseSize latencyBenchmark) [] reads = true := by
  obtain ⟨hmin, hmax⟩ := expectedResponseSize_bounds latencyBenchmark
  obtain ⟨more, hmore⟩ := h
  have hframe : (frame Command.setMotorLevel payload).length =
      expectedResponseSize latencyBenchmark := by
    simp [frame]
    omega
  rw [receive_iff [] reads (show 0 < expectedResponseSize latencyBenchmark by omega),
    List.nil_append, ← hmore]
  refine ⟨by rw [List.length_append]; omega, ?_⟩
  rw [List.take_append_of_le_length hframe.ge, List.take_of_length_le hframe.le]
  exact (validate_iff hframe hmin hmax).mpr ⟨payload, hpayload, rfl⟩

/-- An iteration counts as answered exactly if the bytes of its 200 ms begin with the documented
frame of a motor command's answer with the payload length of the build, however the reads cut
them and whatever follows. -/
theorem iteration_succeeds_iff (latencyBenchmark : Bool) (reads : List (Option Byte)) :
    receive (expectedResponseSize latencyBenchmark) [] reads = true ↔
      ∃ payload, payload.length = expectedResponseSize latencyBenchmark - 6 ∧
        frame Command.setMotorLevel payload <+: reads.reduceOption :=
  ⟨frame_of_receive, fun ⟨_, hlen, h⟩ => receive_of_frame hlen h⟩

/-! ### Against the firmware -/

/-- What the firmware finds on the line over `n` iterations. -/
def sent (n : Nat) : List Input := (List.replicate n txPacket).flatten.map .byte

theorem txPacket_eq : txPacket = frame Command.setMotorLevel [0, 0] := wrapPacket_eq _ _

theorem sent_succ (n : Nat) : sent (n + 1) = requestInput (.setMotorLevel 0 0) ++ sent n := by
  simp only [sent, List.replicate_succ, List.flatten_cons, List.map_append, txPacket_eq,
    requestInput, sendFramedPacket_eq]
  rfl

theorem length_toBytes (build : Build) (o : OutgoingPacketToAndroid) :
    (o.toBytes build).length = expectedResponseSize build.enableLatencyBenchmark - 6 := by
  cases hb : build.enableLatencyBenchmark <;>
    simp [OutgoingPacketToAndroid.toBytes, RP2040State.length_toBytes, hb, expectedResponseSize]

section
variable {logLevel : Int} (build : Build)

theorem getBlock_sent (p : Platform logLevel) (s : SerialComm) (n : Nat) :
    (getBlock build p s (sent (n + 1))).input = sent n ∧
      ∃ payload, payload.length = expectedResponseSize build.enableLatencyBenchmark - 6 ∧
        (getBlock build p s (sent (n + 1))).out = frame Command.setMotorLevel payload := by
  rw [sent_succ]
  constructor
  · obtain ⟨d, hd⟩ := @frame_delimited Command.setMotorLevel [0, 0] (by decide)
    have hrequest : requestInput (.setMotorLevel 0 0) = d.bytes.map .byte := by
      rw [hd, requestInput, sendFramedPacket_eq]
      rfl
    rw [getBlock_input, hrequest, scan_append]
  · rw [getBlock_requestInput, respond_stateRequest]
    exact ⟨_, length_toBytes build _, rfl⟩

theorem getBlocks_sent (ps : List (Platform logLevel)) (s : SerialComm) :
    ∀ r ∈ getBlocks build ps s (sent ps.length), ∃ payload,
      payload.length = expectedResponseSize build.enableLatencyBenchmark - 6 ∧
        r.out = frame Command.setMotorLevel payload := by
  induction ps generalizing s with
  | nil => simp [getBlocks]
  | cons p ps ih =>
    obtain ⟨hinput, hout⟩ := getBlock_sent build p s ps.length
    intro r hr
    simp only [getBlocks, List.length_cons, List.mem_cons, hinput] at hr
    obtain rfl | hr := hr
    · exact hout
    · exact ih _ r hr

end

theorem length_eq_of_frames {cmd : Byte} {a b bytes : List Byte} (ha : a.length < 65535)
    (hb : b.length < 65535) (h : frame cmd a <+: bytes) (h' : frame cmd b <+: bytes) :
    a.length = b.length := by
  obtain ⟨x, hx⟩ := h
  obtain ⟨y, hy⟩ := h'
  have hbytes := hx.trans hy.symm
  simp only [frame, List.cons_append, List.cons.injEq, true_and] at hbytes
  obtain ⟨hlow, hhigh, -⟩ := hbytes
  have hlen : BitVec.ofNat 16 (a.length + 1) = BitVec.ofNat 16 (b.length + 1) := by
    rw [← word_low_high (BitVec.ofNat 16 (a.length + 1)), hlow, hhigh, word_low_high]
  have hnat := congrArg BitVec.toNat hlen
  simp only [BitVec.toNat_ofNat] at hnat
  omega

/-- The answer of one build, read in full by the host of another. -/
theorem receive_answer_iff {build : Build} {latencyBenchmark : Bool} {payload : List Byte}
    {reads : List (Option Byte)}
    (hlen : payload.length = expectedResponseSize build.enableLatencyBenchmark - 6)
    (h : frame Command.setMotorLevel payload <+: reads.reduceOption) :
    receive (expectedResponseSize latencyBenchmark) [] reads = true ↔
      latencyBenchmark = build.enableLatencyBenchmark := by
  have hbound := expectedResponseSize_bounds build.enableLatencyBenchmark
  have hbound' := expectedResponseSize_bounds latencyBenchmark
  constructor
  · intro hreceive
    obtain ⟨payload', hlen', h'⟩ := frame_of_receive hreceive
    have hsame := length_eq_of_frames (by omega) (by omega) h' h
    revert hlen hlen' hsame
    cases latencyBenchmark <;> cases build.enableLatencyBenchmark <;>
      simp [expectedResponseSize] <;> omega
  · rintro rfl
    exact receive_of_frame hlen h

/-- The host loses no iteration of a firmware built with the same latency switch, and all of
one built without it, whatever state the firmware is in and however its answers are cut. -/
theorem benchmark_loses_none_or_all {logLevel : Int} (build : Build) (latencyBenchmark : Bool)
    (ps : List (Platform logLevel)) (s : SerialComm) (iterations : List (List (Option Byte)))
    (h : List.Forall₂ (fun (r : CallResult) reads => r.out <+: reads.reduceOption)
      (getBlocks build ps s (sent ps.length)) iterations) :
    lost latencyBenchmark iterations =
      if latencyBenchmark = build.enableLatencyBenchmark then 0 else iterations.length := by
  have hanswers := getBlocks_sent build ps s
  have hreceive : ∀ reads ∈ iterations,
      (receive (expectedResponseSize latencyBenchmark) [] reads = true ↔
        latencyBenchmark = build.enableLatencyBenchmark) := by
    generalize getBlocks build ps s (sent ps.length) = results at h hanswers
    induction h with
    | nil => simp
    | @cons r _ _ _ hr _ ih =>
      obtain ⟨payload, hlen, hout⟩ := hanswers r (by simp)
      intro reads hreads
      obtain rfl | hreads := List.mem_cons.mp hreads
      · exact receive_answer_iff hlen (hout ▸ hr)
      · exact ih (fun r hmem => hanswers r (by simp [hmem])) reads hreads
  unfold lost
  split_ifs with hsame
  · rw [List.filter_eq_self.mpr fun reads hmem => (hreceive reads hmem).mpr hsame, Nat.sub_self]
  · rw [List.filter_eq_nil_iff.mpr fun reads hmem => fun hr => hsame ((hreceive reads hmem).mp hr)]
    simp

/-- Two iterations, each answered after a time-out, by a host that was built alike and by one
that was not. -/
theorem benchmark_loses_none_or_both :
    let build : Build := ⟨true, true⟩
    let state : RP2040State := { RP2040State.zero with controlValuesLeft := 0x40 }
    let answers := getBlocks build [.idle 0, .idle 0] (serialCommManagerInit state) (sent 2)
    let iterations := answers.map fun r => none :: r.out.map some
    lost true iterations = 0 ∧ lost false iterations = 2 := by
  intro build state answers iterations
  have hreads : List.Forall₂ (fun (r : CallResult) reads => r.out <+: reads.reduceOption)
      answers iterations := by
    rw [List.forall₂_map_right_iff, List.forall₂_same]
    intro r _
    simp [List.reduceOption, List.filterMap_map]
  have hlength : iterations.length = 2 := rfl
  constructor
  · exact benchmark_loses_none_or_all build true [.idle 0, .idle 0] (serialCommManagerInit state)
      iterations hreads
  · have hlost := benchmark_loses_none_or_all build false [.idle 0, .idle 0]
      (serialCommManagerInit state) iterations hreads
    rwa [if_neg (by decide), hlength] at hlost

end SrFirmware.Benchmark
