import SrFirmware.Log
import SrFirmware.Lib.Suffix
import Mathlib.Data.List.TakeWhile
import Mathlib.Algebra.GroupWithZero.Nat

/-!
# The log ring, operation by operation

`Wf` links the five fields of the ring. Every operation keeps it, and each has one lemma
that says what it does to the live lines; nothing above this module unfolds the ring.
-/

namespace SrFirmware

open Lib
set_option autoImplicit false

def lineText (b : CircularBufferLog) (i : Nat) : List Byte :=
  (b.logArray i).take (b.logArrayLineSize i - 1)

/-- The live segment, oldest first: `count` entries read from `head`. -/
def live (b : CircularBufferLog) : List (List Byte) :=
  (slots logBufferLineCount b.head b.count).map (lineText b)

def payloadBytes (ls : List (List Byte)) : Nat := (ls.map List.length).sum

def Fits (ls : List (List Byte)) : Prop :=
  ls.length ≤ logBufferLineCount ∧ payloadBytes ls ≤ uint16Max - 1

instance (ls : List (List Byte)) : Decidable (Fits ls) := inferInstanceAs (Decidable (_ ∧ _))

/-- A slot as `vsnprintf` leaves it; a cleared slot has size zero. -/
structure Stored (slot : List Byte) (size : Nat) : Prop where
  bound : size ≤ logBufferCharLimit
  terminated : 0 < size → slot[size - 1]? = some 0

structure Wf (b : CircularBufferLog) : Prop where
  head_lt : b.head < logBufferLineCount
  count_le : b.count ≤ logBufferLineCount
  tail_eq : b.tail = (b.head + b.count) % logBufferLineCount
  stored : ∀ i ∈ slots logBufferLineCount b.head b.count,
    Stored (b.logArray i) (b.logArrayLineSize i)
  bytes : b.byteCount = payloadBytes (live b)
  bytes_le : b.byteCount ≤ uint16Max - 1

@[simp] theorem payloadBytes_nil : payloadBytes [] = 0 := rfl

@[simp] theorem payloadBytes_cons (l : List Byte) (ls : List (List Byte)) :
    payloadBytes (l :: ls) = l.length + payloadBytes ls := by simp [payloadBytes]

@[simp] theorem payloadBytes_append (ls ms : List (List Byte)) :
    payloadBytes (ls ++ ms) = payloadBytes ls + payloadBytes ms := by simp [payloadBytes]

theorem payloadBytes_eq_length_flatten (ls : List (List Byte)) :
    payloadBytes ls = ls.flatten.length := by simp [payloadBytes]

theorem Fits.init {ls : List (List Byte)} {l : List Byte} (h : Fits (ls ++ [l])) : Fits ls := by
  obtain ⟨hl, hb⟩ := h
  simp only [List.length_append, payloadBytes_append] at hl hb
  exact ⟨by omega, by omega⟩

@[simp] theorem length_live (b : CircularBufferLog) : (live b).length = b.count := by simp [live]

@[simp] theorem rp2040LogPayloadSize_eq (size : Nat) : rp2040LogPayloadSize size = size - 1 := by
  unfold rp2040LogPayloadSize
  split <;> omega

theorem Stored.length_text {slot : List Byte} {size : Nat} (h : Stored slot size) :
    (slot.take (size - 1)).length = size - 1 := by
  by_cases hs : 0 < size
  · obtain ⟨hlt, _⟩ := List.getElem?_eq_some_iff.mp (h.terminated hs)
    simp only [List.length_take]
    omega
  · simp [show size - 1 = 0 by omega]

def NulFree (text : List Byte) : Prop := ∀ c ∈ text, c ≠ 0

theorem NulFree.takeWhile_eq {text : List Byte} (h : NulFree text) :
    text.takeWhile (· ≠ 0) = text :=
  List.takeWhile_eq_self_iff.mpr fun c hc => by simpa using h c hc

theorem takeWhile_concat_nul (text : List Byte) :
    (text ++ [0]).takeWhile (· ≠ 0) = text.takeWhile (· ≠ 0) := by
  induction text with
  | nil => rfl
  | cons c text ih =>
    simp only [List.cons_append, List.takeWhile_cons]
    split
    · rw [ih]
    · rfl

theorem Stored.printed {slot : List Byte} {size : Nat} (h : Stored slot size) (hs : 0 < size) :
    printfPrecision size slot = (slot.take (size - 1)).takeWhile (· ≠ 0) := by
  have hterm : slot.take size = slot.take (size - 1) ++ [0] := by
    obtain ⟨hlt, hval⟩ := List.getElem?_eq_some_iff.mp (h.terminated hs)
    have hsucc : size = size - 1 + 1 := by omega
    rw [hsucc, List.take_succ_eq_append_getElem hlt, hval]
    rfl
  rw [printfPrecision, hterm, takeWhile_concat_nul]

theorem wf_init : Wf rp2040LogInit := by
  constructor <;> simp [rp2040LogInit, live]

theorem live_init : live rp2040LogInit = [] := rfl

/-! ### Dropping the oldest line -/

theorem live_eq_cons {b : CircularBufferLog} (hc : b.count ≠ 0) :
    live b = lineText b b.head ::
      (slots logBufferLineCount ((b.head + 1) % logBufferLineCount) (b.count - 1)).map
        (lineText b) := by
  obtain ⟨n, hn⟩ := Nat.exists_eq_succ_of_ne_zero hc
  simp [live, hn, slots_succ]

theorem Wf.head_stored {b : CircularBufferLog} (h : Wf b) (hc : b.count ≠ 0) :
    Stored (b.logArray b.head) (b.logArrayLineSize b.head) := by
  apply h.stored
  obtain ⟨n, hn⟩ := Nat.exists_eq_succ_of_ne_zero hc
  rw [hn]
  exact List.mem_cons_self

/-- On a well-formed ring the saturating branch is dead and re-anchoring the tail changes
nothing. -/
theorem rp2040LogDropOldest_eq {b : CircularBufferLog} (h : Wf b) (hc : b.count ≠ 0) :
    rp2040LogDropOldest b =
      { b with
        byteCount := b.byteCount - (lineText b b.head).length
        logArrayLineSize := Function.update b.logArrayLineSize b.head 0
        head := (b.head + 1) % logBufferLineCount
        count := b.count - 1 } := by
  have hle := h.count_le
  have hlen : (lineText b b.head).length = b.logArrayLineSize b.head - 1 :=
    (h.head_stored hc).length_text
  have hbytes := h.bytes
  rw [live_eq_cons hc, payloadBytes_cons, hlen] at hbytes
  have hcount : (b.count + 65535) % 65536 = b.count - 1 := by
    simp only [logBufferLineCount_eq] at hle
    omega
  have htail : (if b.count - 1 = 0 then (b.head + 1) % logBufferLineCount else b.tail) =
      b.tail := by
    split
    · rw [h.tail_eq, show b.count = 1 by omega]
    · rfl
  have hsat : ¬ b.logArrayLineSize b.head - 1 > b.byteCount := by omega
  simp only [rp2040LogDropOldest, rp2040LogBufferIsEmpty, beq_iff_eq, hc, if_false,
    rp2040LogPayloadSize_eq, hcount, htail, hlen, hsat]

theorem live_drop {b : CircularBufferLog} (h : Wf b) (hc : b.count ≠ 0) :
    live b = lineText b b.head :: live (rp2040LogDropOldest b) := by
  have hout : b.head ∉ slots logBufferLineCount ((b.head + 1) % logBufferLineCount)
      (b.count - 1) := by
    have := h.count_le
    exact head_not_mem_slots h.head_lt (by omega)
  rw [live_eq_cons hc, rp2040LogDropOldest_eq h hc]
  congr 1
  apply List.map_congr_left
  intro i hi
  have hne : i ≠ b.head := fun he => hout (he ▸ hi)
  simp [lineText, Function.update_of_ne hne]

theorem wf_drop {b : CircularBufferLog} (h : Wf b) (hc : b.count ≠ 0) :
    Wf (rp2040LogDropOldest b) := by
  have hhead := h.head_lt
  have hle := h.count_le
  have hbytes := h.bytes
  have hmax := h.bytes_le
  rw [live_drop h hc, payloadBytes_cons] at hbytes
  have heq := rp2040LogDropOldest_eq h hc
  constructor
  · rw [heq]
    exact Nat.mod_lt _ (by decide)
  · rw [heq]
    exact Nat.le_trans (Nat.sub_le _ _) hle
  · rw [heq]
    change b.tail = _
    obtain ⟨n, hn⟩ := Nat.exists_eq_succ_of_ne_zero hc
    rw [h.tail_eq, hn]
    exact wrap_add_one.symm
  · intro i hi
    rw [heq] at hi ⊢
    have hi' : i ∈ slots logBufferLineCount b.head b.count := by
      obtain ⟨n, hn⟩ := Nat.exists_eq_succ_of_ne_zero hc
      rw [hn] at hi ⊢
      exact List.mem_cons_of_mem _ hi
    by_cases he : i = b.head
    · subst he
      exact ⟨by simp, by simp⟩
    · simpa [Function.update_of_ne he] using h.stored i hi'
  · rw [heq] at hbytes ⊢
    change b.byteCount - (lineText b b.head).length = _
    omega
  · rw [heq]
    change b.byteCount - (lineText b b.head).length ≤ _
    omega

theorem count_drop {b : CircularBufferLog} (h : Wf b) (hc : b.count ≠ 0) :
    (rp2040LogDropOldest b).count = b.count - 1 := by
  rw [rp2040LogDropOldest_eq h hc]

/-! ### Making room -/

def HasRoom (n : Nat) (b : CircularBufferLog) : Prop :=
  b.count < logBufferLineCount ∧ b.byteCount + n ≤ uint16Max - 1

theorem fits_append_iff {b : CircularBufferLog} (h : Wf b) (text : List Byte) :
    Fits (live b ++ [text]) ↔ HasRoom text.length b := by
  simp only [Fits, HasRoom, List.length_append, length_live, List.length_singleton,
    payloadBytes_append, payloadBytes_cons, payloadBytes_nil, h.bytes]
  omega

/-- Only lines can be in the way of a line. -/
theorem Wf.count_ne_zero {b : CircularBufferLog} (h : Wf b) {n : Nat}
    (hn : n < logBufferCharLimit) (hfull : ¬ HasRoom n b) : b.count ≠ 0 := by
  intro hz
  have hlive : live b = [] := List.length_eq_zero_iff.mp (by rw [length_live, hz])
  have hbytes := h.bytes
  rw [hlive, payloadBytes_nil] at hbytes
  simp only [HasRoom, logBufferLineCount_eq, logBufferCharLimit_eq, uint16Max_eq] at hfull hn
  omega

/-- The eviction loop stops within one turn per live line, drops no more than it must, and
what it leaves is the longest suffix that the new line fits after. -/
theorem rp2040LogMakeRoom_spec {text : List Byte} (hn : text.length < logBufferCharLimit)
    {fuel : Nat} {b : CircularBufferLog} (h : Wf b) (hfuel : b.count < fuel) :
    ∃ r, rp2040LogMakeRoom fuel text.length b = some r ∧ Wf r ∧ HasRoom text.length r ∧
      IsLongestSuffix Fits (live b ++ [text]) (live r ++ [text]) := by
  induction fuel generalizing b with
  | zero => omega
  | succ fuel ih =>
    rw [rp2040LogMakeRoom]
    split
    · rename_i hfull
      have hroom : ¬ HasRoom text.length b := by
        rw [HasRoom]
        omega
      have hover : ¬ Fits (live b ++ [text]) := by
        rwa [fits_append_iff h]
      have hc : b.count ≠ 0 := h.count_ne_zero hn hroom
      obtain ⟨r, hr, hwf, hroom, hlong⟩ := ih (wf_drop h hc) (by rw [count_drop h hc]; omega)
      refine ⟨r, hr, hwf, hroom, ?_⟩
      rw [live_drop h hc] at hover ⊢
      exact hlong.cons_of_not hover
    · rename_i hroom
      have hle := h.count_le
      have hroom' : HasRoom text.length b := ⟨by omega, by omega⟩
      exact ⟨b, rfl, h, hroom', .self ((fits_append_iff h text).mpr hroom')⟩

/-! ### Storing a line -/

/-- A logged text is cut to what a slot holds besides the terminator. -/
def truncateText (text : List Byte) : List Byte := text.take (logBufferCharLimit - 1)

theorem vsnprintf_take (buf text : List Byte) {n : Nat} (hn : n ≤ text.length) :
    (vsnprintf buf (n + 1) text).take n = text.take n := by
  simp [vsnprintf, Nat.min_eq_left hn]

theorem vsnprintf_stored (buf text : List Byte) {n : Nat} (hn : n ≤ text.length)
    (hlim : n < logBufferCharLimit) : Stored (vsnprintf buf (n + 1) text) (n + 1) := by
  refine ⟨hlim, ?_⟩
  intro _
  simp [vsnprintf, Nat.min_eq_left hn]

/-- With room for the line neither sixteen-bit counter wraps. -/
theorem rp2040LogStore_eq {b : CircularBufferLog} {n : Nat} (hroom : HasRoom n b)
    (text : List Byte) :
    rp2040LogStore (n + 1) text b =
      { b with
        logArray := Function.update b.logArray b.tail (vsnprintf (b.logArray b.tail) (n + 1) text)
        logArrayLineSize := Function.update b.logArrayLineSize b.tail (n + 1)
        byteCount := b.byteCount + n
        count := b.count + 1
        tail := (b.tail + 1) % logBufferLineCount } := by
  obtain ⟨hcount, hbytes⟩ := hroom
  simp only [logBufferLineCount_eq, uint16Max_eq] at hcount hbytes
  have hc : (b.count + 1) % 65536 = b.count + 1 := Nat.mod_eq_of_lt (by omega)
  have hb : (b.byteCount + n) % 65536 = b.byteCount + n := Nat.mod_eq_of_lt (by omega)
  simp only [rp2040LogStore, rp2040LogPayloadSize_eq, Nat.add_sub_cancel, hc, hb]

theorem live_store {b : CircularBufferLog} (h : Wf b) {n : Nat} (hroom : HasRoom n b)
    {text : List Byte} (hn : n ≤ text.length) :
    live (rp2040LogStore (n + 1) text b) = live b ++ [text.take n] := by
  have hout : b.tail ∉ slots logBufferLineCount b.head b.count := by
    rw [h.tail_eq]
    exact next_not_mem_slots h.head_lt hroom.1
  rw [rp2040LogStore_eq hroom, live, slots_concat h.head_lt, List.map_append, ← h.tail_eq]
  congr 1
  · apply List.map_congr_left
    intro i hi
    have hne : i ≠ b.tail := fun he => hout (he ▸ hi)
    simp [lineText, Function.update_of_ne hne]
  · simp [lineText, vsnprintf_take _ _ hn]

theorem wf_store {b : CircularBufferLog} (h : Wf b) {n : Nat} (hroom : HasRoom n b)
    {text : List Byte} (hn : n ≤ text.length) (hlim : n < logBufferCharLimit) :
    Wf (rp2040LogStore (n + 1) text b) := by
  have heq := rp2040LogStore_eq hroom text
  have hlive := live_store h hroom hn
  constructor
  · rw [heq]
    exact h.head_lt
  · rw [heq]
    exact hroom.1
  · rw [heq]
    change (b.tail + 1) % logBufferLineCount = (b.head + (b.count + 1)) % logBufferLineCount
    rw [h.tail_eq, Nat.mod_add_mod, Nat.add_assoc]
  · intro i hi
    rw [heq] at hi ⊢
    by_cases he : i = b.tail
    · subst he
      simpa using vsnprintf_stored _ _ hn hlim
    · have hi' : i ∈ slots logBufferLineCount b.head b.count := by
        rw [slots_concat h.head_lt, ← h.tail_eq] at hi
        rcases List.mem_append.mp hi with hi | hi
        · exact hi
        · exact absurd (List.mem_singleton.mp hi) he
      simpa [Function.update_of_ne he] using h.stored i hi'
  · rw [hlive, payloadBytes_append, heq]
    simp [h.bytes, Nat.min_eq_left hn]
  · rw [heq]
    exact hroom.2

/-! ### The exported operations -/

/-- An accepted call returns, given fuel for one turn of the loop per line of the ring, and
leaves the longest suffix of the live lines and the new one. -/
theorem rp2040Log_spec {b : CircularBufferLog} (h : Wf b) {fuel : Nat}
    (hfuel : logBufferLineCount < fuel) {logLevel level : Int} (hlevel : logLevel ≤ level)
    (text : List Byte) :
    ∃ r, rp2040Log fuel logLevel level text b = some r ∧ Wf r ∧
      IsLongestSuffix Fits (live b ++ [truncateText text]) (live r) := by
  let n := (truncateText text).length
  have hn : n = min (logBufferCharLimit - 1) text.length := by simp [n, truncateText]
  have hlim : n < logBufferCharLimit := by
    simp only [logBufferCharLimit_eq] at hn ⊢
    omega
  have hlen : (if text.length + 1 > logBufferCharLimit then logBufferCharLimit
      else text.length + 1) = n + 1 := by
    split <;> simp only [logBufferCharLimit_eq] at * <;> omega
  have htake : text.take n = truncateText text := by
    rw [hn, truncateText, List.take_eq_take_iff]
    omega
  have hline : (truncateText text).length < logBufferCharLimit := hlim
  have hcount := h.count_le
  obtain ⟨r, hr, hwf, hroom, hlong⟩ :=
    rp2040LogMakeRoom_spec hline h (Nat.lt_of_le_of_lt hcount hfuel)
  have hntext : n ≤ text.length := by omega
  refine ⟨rp2040LogStore (n + 1) text r, ?_, wf_store hwf hroom hntext hlim, ?_⟩
  · have hnot : ¬ level < logLevel := by omega
    simp only [rp2040Log, hnot, if_false, hlen, rp2040LogPayloadSize_eq, Nat.add_sub_cancel]
    rw [hr]
    rfl
  · rw [live_store hwf hroom hntext, htake]
    exact hlong

theorem rp2040LogMakeRoom_mono {fuel n : Nat} {b r : CircularBufferLog}
    (h : rp2040LogMakeRoom fuel n b = some r) (more : Nat) :
    rp2040LogMakeRoom (fuel + more) n b = some r := by
  induction fuel generalizing b with
  | zero => simp [rp2040LogMakeRoom] at h
  | succ fuel ih =>
    rw [Nat.add_right_comm, rp2040LogMakeRoom]
    rw [rp2040LogMakeRoom] at h
    split at h
    · rw [if_pos ‹_›]
      exact ih h
    · rw [if_neg ‹_›]
      exact h

theorem rp2040Log_mono {fuel : Nat} {logLevel level : Int} {text : List Byte}
    {b r : CircularBufferLog} (h : rp2040Log fuel logLevel level text b = some r) (more : Nat) :
    rp2040Log (fuel + more) logLevel level text b = some r := by
  unfold rp2040Log at h ⊢
  split at h
  · rw [if_pos ‹_›]
    exact h
  · rw [if_neg ‹_›]
    obtain ⟨m, hm, rfl⟩ := Option.map_eq_some_iff.mp h
    exact Option.map_eq_some_iff.mpr ⟨m, rp2040LogMakeRoom_mono hm more, rfl⟩

/-- A call that returns has done what it does with fuel to spare. -/
theorem rp2040Log_returns {b r : CircularBufferLog} (h : Wf b) {fuel : Nat}
    {logLevel level : Int} (hlevel : logLevel ≤ level) {text : List Byte}
    (hr : rp2040Log fuel logLevel level text b = some r) :
    Wf r ∧ IsLongestSuffix Fits (live b ++ [truncateText text]) (live r) := by
  obtain ⟨r', hr', hwf, hlong⟩ := rp2040Log_spec h
    (show logBufferLineCount < logBufferLineCount + 1 by omega) hlevel text
  have hmore := rp2040Log_mono hr' fuel
  rw [Nat.add_comm, rp2040Log_mono hr] at hmore
  obtain rfl := Option.some.inj hmore
  exact ⟨hwf, hlong⟩

theorem rp2040Log_rejected {logLevel level : Int} (hlevel : level < logLevel) (fuel : Nat)
    (text : List Byte) (b : CircularBufferLog) :
    rp2040Log fuel logLevel level text b = some b := by
  simp [rp2040Log, hlevel]

theorem live_of_isEmpty {b : CircularBufferLog} (h : rp2040LogBufferIsEmpty b = true) :
    live b = [] := by
  have hcount : b.count = 0 := by simpa [rp2040LogBufferIsEmpty] using h
  simp [live, hcount]

@[simp] theorem live_flush (b : CircularBufferLog) : live (rp2040LogFlush b).2 = [] := by
  unfold rp2040LogFlush
  split
  · rename_i hempty
    exact live_of_isEmpty hempty
  · rfl

theorem wf_flush {b : CircularBufferLog} (h : Wf b) : Wf (rp2040LogFlush b).2 := by
  unfold rp2040LogFlush
  split
  · exact h
  · constructor <;> simp [live]

/-- The flush prints the live lines in order, each up to its first NUL. -/
theorem rp2040LogFlush_printed {b : CircularBufferLog} (h : Wf b) :
    (rp2040LogFlush b).1 = (live b).flatMap fun line => line.takeWhile (· ≠ 0) := by
  have hprinted : rp2040LogPrinted b = (live b).flatMap fun line => line.takeWhile (· ≠ 0) := by
    rw [rp2040LogPrinted, live, List.flatMap_map]
    apply List.flatMap_congr
    intro i hi
    by_cases hs : 0 < b.logArrayLineSize i
    · simp only [hs, if_true, (h.stored i hi).printed hs, lineText]
    · simp [hs, lineText, show b.logArrayLineSize i - 1 = 0 by omega]
  unfold rp2040LogFlush
  split
  · rename_i hempty
    rw [live_of_isEmpty hempty]
    rfl
  · exact hprinted

theorem flatMap_printed_of_nulFree {ls : List (List Byte)} (h : ∀ line ∈ ls, NulFree line) :
    (ls.flatMap fun line => line.takeWhile (· ≠ 0)) = ls.flatten := by
  rw [← List.flatMap_id, List.flatMap_congr fun line hl => (h line hl).takeWhile_eq]
  rfl

theorem rp2040GetCrc_eq (b : CircularBufferLog) (c : U16) :
    rp2040GetCrc c b = crc16Ccitt (live b).flatten c := by
  unfold rp2040GetCrc live
  generalize slots logBufferLineCount b.head b.count = is
  induction is generalizing c with
  | nil => rfl
  | cons i is ih =>
    simp only [List.foldl_cons, List.map_cons, List.flatten_cons, crc16Ccitt_append, lineText]
    rw [ih]
    split
    · rfl
    · rw [show b.logArrayLineSize i - 1 = 0 by omega]
      rfl

end SrFirmware
