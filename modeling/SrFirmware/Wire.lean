import SrFirmware.Serial

/-!
# The input stream, cut by the grammar alone

How a stream divides into frames, noise and broken frames, without buffers and without
reading byte by byte: a frame is as long as its own length field says, and a timeout ends
whatever it interrupts. The command loop is compared with this cutting afterwards.
-/

namespace SrFirmware

set_option autoImplicit false

/-- A frame as delimited by its length field; nothing is asked of the rest. -/
structure Delimited where
  l1 : Byte
  l2 : Byte
  body : List Byte
  c1 : Byte
  c2 : Byte
  size : body.length = (word l1 l2).toNat

namespace Delimited

def bytes (d : Delimited) : List Byte := [startMarker, d.l1, d.l2] ++ d.body ++ [d.c1, d.c2]

theorem length_bytes (d : Delimited) : d.bytes.length = d.body.length + 5 := by
  simp [bytes]

/-- Fits the receive buffer, has a command, and the checksum is right. -/
def Valid (d : Delimited) : Prop :=
  d.body ≠ [] ∧ d.body.length ≤ maxPayloadSize ∧
    crc16Ccitt (d.l1 :: d.l2 :: d.body) 0xFFFF = word d.c1 d.c2

instance (d : Delimited) : Decidable d.Valid := inferInstanceAs (Decidable (_ ∧ _ ∧ _))

def request (d : Delimited) : Option (Byte × List Byte) :=
  match d.body with
  | [] => none
  | cmd :: payload => if d.Valid then some (cmd, payload) else none

end Delimited

inductive Item where
  -- Nothing, a timeout, or one byte that starts no frame
  | quiet
  -- a start marker whose frame is cut short by a timeout
  | truncated
  | frame (d : Delimited)

def Item.request : Item → Option (Byte × List Byte)
  | .frame d => d.request
  | _ => none

/-- The bytes that arrive before the next timeout. -/
def leadingBytes : List Input → List Byte
  | .byte b :: rest => b :: leadingBytes rest
  | _ => []

/-- The frame that follows a start marker and two length bytes, if all of it is there. -/
def delimit (l1 l2 : Byte) (rest : List Byte) : Option Delimited :=
  if h : (word l1 l2).toNat + 2 ≤ rest.length then some
    { l1, l2
      body := rest.take (word l1 l2).toNat
      c1 := rest[(word l1 l2).toNat]
      c2 := rest[(word l1 l2).toNat + 1]
      size := List.length_take_of_le (by omega) }
  else none

/-- The first item of a stream, and what is left of it. -/
def scan (input : List Input) : Item × List Input :=
  match leadingBytes input with
  | [] => (.quiet, input.drop 1)
  | m :: run =>
    if m ≠ startMarker then (.quiet, input.drop 1)
    else
      match run with
      | l1 :: l2 :: rest =>
        match delimit l1 l2 rest with
        | some d => (.frame d, input.drop d.bytes.length)
        | none => (.truncated, input.drop (rest.length + 4))
      | _ => (.truncated, input.drop (run.length + 2))

def scanMany : Nat → List Input → List Item
  | 0, _ => []
  | n + 1, input => (scan input).1 :: scanMany n (scan input).2

/-! ### Leading bytes -/

@[simp] theorem leadingBytes_nil : leadingBytes [] = [] := rfl

@[simp] theorem leadingBytes_timeout (rest : List Input) :
    leadingBytes (.timeout :: rest) = [] := rfl

@[simp] theorem leadingBytes_byte (b : Byte) (rest : List Input) :
    leadingBytes (.byte b :: rest) = b :: leadingBytes rest := rfl

theorem leadingBytes_append (bs : List Byte) (rest : List Input) :
    leadingBytes (bs.map .byte ++ rest) = bs ++ leadingBytes rest := by
  induction bs with
  | nil => rfl
  | cons b bs ih => simp [ih]

theorem prefix_leadingBytes_iff (bs : List Byte) (input : List Input) :
    bs.map .byte <+: input ↔ bs <+: leadingBytes input := by
  induction bs generalizing input with
  | nil => simp
  | cons b bs ih =>
    cases input with
    | nil => simp
    | cons e rest =>
      cases e with
      | timeout => simp
      | byte c => simp [List.cons_prefix_cons, ih]

/-! ### Delimited frames -/

theorem delimit_some {l1 l2 : Byte} {rest : List Byte} {d : Delimited}
    (h : delimit l1 l2 rest = some d) :
    d.l1 = l1 ∧ d.l2 = l2 ∧ d.body ++ [d.c1, d.c2] <+: rest := by
  unfold delimit at h
  split at h
  · rename_i hlen
    obtain rfl := Option.some.inj h
    refine ⟨rfl, rfl, rest.drop ((word l1 l2).toNat + 2), ?_⟩
    simp
  · cases h

theorem delimit_none {l1 l2 : Byte} {rest : List Byte} (h : delimit l1 l2 rest = none) :
    rest.length < (word l1 l2).toNat + 2 := by
  unfold delimit at h
  split at h
  · cases h
  · omega

theorem delimit_append (d : Delimited) (tail : List Byte) :
    delimit d.l1 d.l2 (d.body ++ [d.c1, d.c2] ++ tail) = some d := by
  obtain ⟨l1, l2, body, c1, c2, size⟩ := d
  have hlen : (word l1 l2).toNat + 2 ≤ (body ++ [c1, c2] ++ tail).length := by
    simp only [List.length_append, List.length_cons, List.length_nil]
    omega
  simp only [delimit, hlen, dif_pos]
  simp [← size]

namespace Delimited

theorem request_eq_some {d : Delimited} {cmd : Byte} {payload : List Byte}
    (h : d.request = some (cmd, payload)) : d.body = cmd :: payload ∧ d.Valid := by
  unfold request at h
  split at h
  · cases h
  · rename_i hb
    split at h
    · obtain ⟨rfl, rfl⟩ := Prod.mk.inj (Option.some.inj h)
      exact ⟨hb, ‹_›⟩
    · cases h

theorem request_of_valid {d : Delimited} {cmd : Byte} {payload : List Byte}
    (hb : d.body = cmd :: payload) (hv : d.Valid) : d.request = some (cmd, payload) := by
  unfold request
  split
  · rename_i hnil
    rw [hnil] at hb
    cases hb
  · rename_i hb'
    rw [hb'] at hb
    obtain ⟨rfl, rfl⟩ := List.cons.inj hb
    rw [if_pos hv]

/-- The receiver's validity test accepts the encoder's image and nothing else. -/
theorem request_iff (d : Delimited) (cmd : Byte) (payload : List Byte) :
    d.request = some (cmd, payload) ↔ payload.length ≤ 1023 ∧ d.bytes = frame cmd payload := by
  constructor
  · intro h
    obtain ⟨hb, _, hmax, hcrc⟩ := request_eq_some h
    have hsize := d.size
    rw [hb, List.length_cons] at hsize hmax
    simp only [maxPayloadSize_eq] at hmax
    refine ⟨by omega, WellFormed.eq_frame ⟨d.l1, d.l2, d.c1, d.c2, ?_, hsize.symm, ?_⟩⟩
    · simp [bytes, hb]
    · rw [← hcrc, hb]
  · rintro ⟨hlen, hbytes⟩
    have hcut : d.l1 :: d.l2 :: (d.body ++ [d.c1, d.c2]) =
        lowByte (BitVec.ofNat 16 (payload.length + 1)) ::
        highByte (BitVec.ofNat 16 (payload.length + 1)) :: ((cmd :: payload) ++
          [lowByte (frameCrc (BitVec.ofNat 16 (payload.length + 1)) cmd payload),
           highByte (frameCrc (BitVec.ofNat 16 (payload.length + 1)) cmd payload)]) := by
      simpa [bytes, frame] using hbytes
    obtain ⟨h1, h2, hrest⟩ : _ ∧ _ ∧ _ := by simpa only [List.cons.injEq] using hcut
    obtain ⟨hb, hc⟩ := List.append_inj' hrest rfl
    obtain ⟨hc1, hc2, _⟩ : _ ∧ _ ∧ _ := by simpa only [List.cons.injEq] using hc
    apply request_of_valid hb
    refine ⟨by simp [hb], by simp [hb]; omega, ?_⟩
    rw [hc1, hc2, word_low_high, h1, h2, hb]
    rfl

end Delimited

/-! ### Scanning -/

theorem scan_frame_bytes {input : List Input} {d : Delimited} {rest : List Input}
    (h : scan input = (.frame d, rest)) :
    d.bytes.map .byte <+: input ∧ rest = input.drop d.bytes.length := by
  rw [prefix_leadingBytes_iff]
  unfold scan at h
  split at h
  · cases h
  · rename_i m run hrun
    split at h
    · cases h
    · rename_i hm
      split at h
      · rename_i l1 l2 tail
        split at h
        · rename_i e he
          obtain ⟨h1, h2⟩ := Prod.mk.inj h
          obtain rfl := Item.frame.inj h1
          obtain ⟨rfl, rfl, hpre⟩ := delimit_some he
          refine ⟨?_, h2.symm⟩
          rw [hrun, Delimited.bytes, not_not.mp hm]
          simpa [List.cons_prefix_cons] using hpre
        · cases h
      · cases h

theorem scan_append (d : Delimited) (rest : List Input) :
    scan (d.bytes.map .byte ++ rest) = (.frame d, rest) := by
  have hlead : leadingBytes (d.bytes.map .byte ++ rest) =
      startMarker :: d.l1 :: d.l2 :: (d.body ++ [d.c1, d.c2] ++ leadingBytes rest) := by
    rw [leadingBytes_append]
    simp [Delimited.bytes]
  unfold scan
  rw [hlead]
  simp only [ne_eq, not_true_eq_false, if_false, delimit_append]
  rw [List.drop_append_of_le_length (by simp), List.drop_of_length_le (by simp), List.nil_append]

/-- A frame is found at the head of a stream exactly when its bytes are there. -/
theorem scan_frame_iff (input : List Input) (d : Delimited) :
    (scan input).1 = .frame d ↔ d.bytes.map .byte <+: input := by
  constructor
  · intro h
    have hscan : scan input = (.frame d, (scan input).2) := by rw [← h]
    exact (scan_frame_bytes hscan).1
  · rintro ⟨rest, rfl⟩
    rw [scan_append]

end SrFirmware
