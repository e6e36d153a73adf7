import SrFirmware.Wire

/-!
# The command loop against the grammar

`serve` answers an item of the stream without reading it byte by byte. One `getBlock`
call is `serve` on the first item, whatever earlier frames have left in `rx_buffer`.
-/

namespace SrFirmware

set_option autoImplicit false

def SerialComm.withBuffer (s : SerialComm) (v : Vector Byte maxPayloadSize) : SerialComm :=
  { s with rxBuffer := v }

def CallResult.withBuffer (r : CallResult) (v : Vector Byte maxPayloadSize) : CallResult :=
  { r with comm := r.comm.withBuffer v }

section
variable {logLevel : Int} (build : Build) (p : Platform logLevel)

/-- What a call must do with an item, once `rest` is left of the stream. -/
def serve (s : SerialComm) (item : Item) (rest : List Input) : CallResult :=
  match item with
  | .quiet => ⟨s, rest, [], [], []⟩
  | .truncated => (s.stampT4 build p).nackResult rest
  | .frame d =>
    match d.request with
    | none => (s.stampT4 build p).nackResult rest
    | some (cmd, payload) =>
      let handled := handlePacket build p (s.stampT4 build p) cmd payload
      ⟨handled.comm, rest, handled.out, [(cmd, payload)], handled.effects⟩

/-! ### The buffer is only read back -/

theorem handlePacket_withBuffer (s : SerialComm) (v : Vector Byte maxPayloadSize) (cmd : Byte)
    (payload : List Byte) :
    handlePacket build p (s.withBuffer v) cmd payload =
      ⟨(handlePacket build p s cmd payload).comm.withBuffer v,
        (handlePacket build p s cmd payload).out,
        (handlePacket build p s cmd payload).effects⟩ := by
  unfold handlePacket
  simp only [SerialComm.withBuffer]
  split_ifs <;> rfl

end

/-! ### Reading -/

theorem readByte_eq (input : List Input) :
    readByte input = ((leadingBytes input).head?, input.drop 1) := by
  cases input with
  | nil => rfl
  | cons e rest => cases e <;> rfl

theorem leadingBytes_drop {n : Nat} {input : List Input} (h : n ≤ (leadingBytes input).length) :
    leadingBytes (input.drop n) = (leadingBytes input).drop n := by
  induction n generalizing input with
  | zero => rfl
  | succ n ih =>
    cases input with
    | nil => cases h
    | cons e rest =>
      cases e with
      | timeout => cases h
      | byte b => exact ih (Nat.le_of_succ_le_succ h)

theorem discardBytes_of_le {n : Nat} {input : List Input}
    (h : n ≤ (leadingBytes input).length) : discardBytes n input = input.drop n := by
  induction n generalizing input with
  | zero => rfl
  | succ n ih =>
    cases input with
    | nil => cases h
    | cons e rest =>
      cases e with
      | timeout => cases h
      | byte b => exact ih (Nat.le_of_succ_le_succ h)

theorem discardBytes_of_lt {n : Nat} {input : List Input}
    (h : (leadingBytes input).length < n) :
    discardBytes n input = input.drop ((leadingBytes input).length + 1) := by
  induction n generalizing input with
  | zero => cases h
  | succ n ih =>
    cases input with
    | nil => rfl
    | cons e rest =>
      cases e with
      | timeout => rfl
      | byte b => exact ih (Nat.lt_of_succ_lt_succ h)

theorem readPayload_of_le {n i : Nat} (buffer : Vector Byte maxPayloadSize)
    {input : List Input} (h : n ≤ (leadingBytes input).length) (hi : i + n ≤ maxPayloadSize) :
    ∃ buffer', readPayload i n buffer input = (true, buffer', input.drop n) ∧
      buffer'.toList.take (i + n) = buffer.toList.take i ++ (leadingBytes input).take n := by
  induction n generalizing i buffer input with
  | zero => exact ⟨buffer, rfl, by simp⟩
  | succ n ih =>
    cases input with
    | nil => cases h
    | cons e rest =>
      cases e with
      | timeout => cases h
      | byte b =>
        obtain ⟨buffer', hread, htake⟩ := ih (i := i + 1) (buffer.setIfInBounds i b)
          (Nat.le_of_succ_le_succ h) (by omega)
        refine ⟨buffer', hread, ?_⟩
        have hset : (buffer.setIfInBounds i b).toList.take (i + 1) =
            buffer.toList.take i ++ [b] := by
          have hlen : i < buffer.toList.length := by
            rw [Vector.length_toList]
            omega
          rw [Vector.toList_setIfInBounds, List.take_add_one, List.take_set_of_le (Nat.le_refl i),
            List.getElem?_set_self hlen]
          rfl
        have hnext : i + (n + 1) = i + 1 + n := by omega
        rw [hnext, htake, hset]
        simp

theorem readPayload_of_lt {n : Nat} (i : Nat) (buffer : Vector Byte maxPayloadSize)
    {input : List Input} (h : (leadingBytes input).length < n) :
    ∃ buffer', readPayload i n buffer input =
      (false, buffer', input.drop ((leadingBytes input).length + 1)) := by
  induction n generalizing i buffer input with
  | zero => cases h
  | succ n ih =>
    cases input with
    | nil => exact ⟨buffer, rfl⟩
    | cons e rest =>
      cases e with
      | timeout => exact ⟨buffer, rfl⟩
      | byte b => exact ih (i + 1) (buffer.setIfInBounds i b) (Nat.lt_of_succ_lt_succ h)

section
variable {logLevel : Int} (build : Build) (p : Platform logLevel)

theorem processFrame_serve (s : SerialComm) (d : Delimited) (rest : List Input)
    (hd : d.body ≠ []) (hmax : d.body.length ≤ maxPayloadSize)
    (hbuffer : s.rxBuffer.toList.take d.body.length = d.body) :
    processFrame build p s rest d.l1 d.l2 d.c1 d.c2 d.body.length =
      match d.request with
      | none => s.nackResult rest
      | some (cmd, payload) =>
        let handled := handlePacket build p s cmd payload
        ⟨handled.comm, rest, handled.out, [(cmd, payload)], handled.effects⟩ := by
  have hcrc : crc16Ccitt d.body (crc16Ccitt [d.l1, d.l2] 0xFFFF) =
      crc16Ccitt (d.l1 :: d.l2 :: d.body) 0xFFFF := by
    rw [← crc16Ccitt_append]
    rfl
  simp only [processFrame, hbuffer, hcrc]
  cases hb : d.body with
  | nil => exact absurd hb hd
  | cons cmd payload =>
    by_cases hv : d.Valid
    · rw [Delimited.request_of_valid hb hv, ← hb, if_neg (not_not.mpr hv.2.2)]
      simp [hb]
    · have hne : crc16Ccitt (d.l1 :: d.l2 :: d.body) 0xFFFF ≠ word d.c1 d.c2 :=
        fun heq => hv ⟨hd, hmax, heq⟩
      have hreq : d.request = none := by simp [Delimited.request, hb, hv]
      rw [hreq, ← hb, if_pos hne]

theorem request_of_unstorable (d : Delimited)
    (h : (word d.l1 d.l2).toNat = 0 ∨ (word d.l1 d.l2).toNat > maxPayloadSize) :
    d.request = none := by
  have hv : ¬ d.Valid := by
    rintro ⟨hne, hmax, _⟩
    have hpos := List.length_pos_iff.mpr hne
    have := d.size
    omega
  unfold Delimited.request
  split
  · rfl
  · rw [if_neg hv]

theorem readFrame_of_delimit_none (s : SerialComm) {input : List Input} {l1 l2 : Byte}
    (hcut : delimit l1 l2 (leadingBytes input) = none) :
    ∃ v, readFrame build p s input l1 l2 =
      (s.nackResult (input.drop ((leadingBytes input).length + 1))).withBuffer v := by
  have hshort := delimit_none hcut
  unfold readFrame
  by_cases hbad : (word l1 l2).toNat = 0 ∨ (word l1 l2).toNat > maxPayloadSize
  · simp only [if_pos hbad]
    rw [discardBytes_of_lt hshort]
    exact ⟨s.rxBuffer, rfl⟩
  · simp only [if_neg hbad]
    by_cases hlt : (leadingBytes input).length < (word l1 l2).toNat
    · obtain ⟨v, hv⟩ := readPayload_of_lt 0 s.rxBuffer hlt
      rw [hv]
      exact ⟨v, rfl⟩
    · obtain ⟨v, hv, _⟩ := readPayload_of_le (i := 0) s.rxBuffer
        (Nat.le_of_not_lt hlt) (by omega)
      have htail := leadingBytes_drop (Nat.le_of_not_lt hlt)
      refine ⟨v, ?_⟩
      rw [hv]
      simp only [readByte_eq, htail]
      match hend : (leadingBytes input).drop (word l1 l2).toNat with
      | [] =>
        have hlen := congrArg List.length hend
        rw [List.length_drop, List.length_nil] at hlen
        simp only [List.head?_nil, List.drop_drop]
        have hcut : (word l1 l2).toNat + 1 = (leadingBytes input).length + 1 := by omega
        rw [hcut]
        rfl
      | c1 :: rest =>
        have hlen := congrArg List.length hend
        rw [List.length_drop, List.length_cons] at hlen
        have htail1 : leadingBytes (input.drop ((word l1 l2).toNat + 1)) = [] := by
          rw [leadingBytes_drop (by omega), List.drop_eq_nil_iff]
          omega
        simp only [List.head?_cons, List.drop_drop, htail1, List.head?_nil]
        have hcut : (word l1 l2).toNat + (1 + 1) = (leadingBytes input).length + 1 := by omega
        rw [hcut]
        rfl

theorem readFrame_of_delimit_some (s : SerialComm) {input : List Input} {l1 l2 : Byte}
    {d : Delimited} (hcut : delimit l1 l2 (leadingBytes input) = some d) :
    ∃ v, readFrame build p s input l1 l2 =
      (match d.request with
      | none => s.nackResult (input.drop (d.body.length + 2))
      | some (cmd, payload) =>
        let handled := handlePacket build p s cmd payload
        ⟨handled.comm, input.drop (d.body.length + 2), handled.out, [(cmd, payload)],
          handled.effects⟩ : CallResult).withBuffer v := by
  obtain ⟨rfl, rfl, tail, hbytes⟩ := delimit_some hcut
  have hsize := d.size
  have hlen : (word d.l1 d.l2).toNat + 2 ≤ (leadingBytes input).length := by
    rw [← hbytes, ← hsize]
    simp
  unfold readFrame
  by_cases hbad : (word d.l1 d.l2).toNat = 0 ∨ (word d.l1 d.l2).toNat > maxPayloadSize
  · simp only [if_pos hbad, request_of_unstorable d hbad]
    rw [discardBytes_of_le hlen, hsize]
    exact ⟨s.rxBuffer, rfl⟩
  · simp only [if_neg hbad]
    have hbody : (word d.l1 d.l2).toNat ≤ (leadingBytes input).length := by omega
    obtain ⟨v, hv, htake⟩ := readPayload_of_le (i := 0) s.rxBuffer hbody (by omega)
    have hend : leadingBytes (input.drop (word d.l1 d.l2).toNat) = d.c1 :: d.c2 :: tail := by
      rw [leadingBytes_drop (by omega), ← hbytes, ← hsize]
      simp
    have hend1 : leadingBytes (input.drop ((word d.l1 d.l2).toNat + 1)) = d.c2 :: tail := by
      rw [leadingBytes_drop (by omega), ← hbytes, ← hsize]
      simp [← List.drop_drop]
    have hbuffer : v.toList.take d.body.length = d.body := by
      rw [Nat.zero_add, List.take_zero, List.nil_append, ← hbytes, ← hsize] at htake
      rw [htake]
      simp
    refine ⟨v, ?_⟩
    rw [hv]
    simp only [readByte_eq, hend, List.head?_cons, List.drop_drop, hend1]
    have hd : d.body ≠ [] := fun h => hbad (.inl (by rw [← hsize, h]; rfl))
    rw [← hsize]
    refine (processFrame_serve build p (s.withBuffer v) d _ hd (by omega) hbuffer).trans ?_
    cases d.request with
    | none => rfl
    | some r =>
      simp only [handlePacket_withBuffer]
      rfl

/-- One call is the grammar's answer to the first item, up to the receive buffer. -/
theorem getBlock_serve (s : SerialComm) (input : List Input) :
    ∃ v, getBlock build p s input =
      (serve build p s (scan input).1 (scan input).2).withBuffer v := by
  unfold getBlock scan
  rw [readByte_eq]
  cases hlead : leadingBytes input with
  | nil => exact ⟨s.rxBuffer, rfl⟩
  | cons m run =>
    by_cases hm : m = startMarker
    case neg => exact ⟨s.rxBuffer, by simp [hm]; rfl⟩
    subst hm
    have hrun : leadingBytes (input.drop 1) = run := by
      rw [leadingBytes_drop (by simp [hlead]), hlead]
      rfl
    simp only [List.head?_cons, ne_eq, not_true_eq_false, if_false, readByte_eq, hrun]
    match run, hrun with
    | [], _ => exact ⟨(s.stampT4 build p).rxBuffer, by simp; rfl⟩
    | [l1], _ =>
      have hend : leadingBytes (input.drop 2) = [] := by
        rw [leadingBytes_drop (by simp [hlead]), hlead]
        rfl
      refine ⟨(s.stampT4 build p).rxBuffer, ?_⟩
      simp only [List.head?_cons, List.drop_drop, hend, List.head?_nil]
      rfl
    | l1 :: l2 :: rest, _ =>
      have hl2 : leadingBytes (input.drop 2) = l2 :: rest := by
        rw [leadingBytes_drop (by simp [hlead]), hlead]
        rfl
      have hrest : leadingBytes (input.drop 3) = rest := by
        rw [leadingBytes_drop (by simp [hlead]), hlead]
        rfl
      simp only [List.head?_cons, List.drop_drop, hl2, Nat.reduceAdd]
      cases hcut : delimit l1 l2 rest with
      | none =>
        rw [← hrest] at hcut
        obtain ⟨v, hv⟩ := readFrame_of_delimit_none build p (s.stampT4 build p) hcut
        refine ⟨v, hv.trans ?_⟩
        have hcount : 3 + (rest.length + 1) = rest.length + 4 := by omega
        rw [hrest, List.drop_drop, hcount]
        rfl
      | some d =>
        rw [← hrest] at hcut
        obtain ⟨v, hv⟩ := readFrame_of_delimit_some build p (s.stampT4 build p) hcut
        refine ⟨v, hv.trans ?_⟩
        simp only [serve, List.drop_drop, Delimited.length_bytes]
        have hcount : 3 + (d.body.length + 2) = d.body.length + 5 := by omega
        rw [hcount]

end

end SrFirmware
