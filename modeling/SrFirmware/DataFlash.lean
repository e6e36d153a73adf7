import SrFirmware.Frame
import SrFirmware.Lib.Registers

/-!
# The gauge's data flash, `bq27742_g1_configure_host_interrupts`

The gauge holds the 32 bytes of the registers block. Selecting the block copies it to the
block data registers, and storing the right checksum there commits them. Reads go over a
line that may disturb them. The firmware guesses the byte order of the pack configuration by
comparing the block with a command read.
-/

namespace SrFirmware.DataFlash

open Lib
set_option autoImplicit false

abbrev Block := Vector Byte 32

inductive ByteOrder where
  | highFirst
  | lowFirst
  deriving DecidableEq

def regPackConfiguration : Nat := 0x3A
def regDataFlashClass : Nat := 0x3E
def regDataFlashBlock : Nat := 0x3F
def regBlockData : Nat := 0x40
def regBlockDataChecksum : Nat := 0x60
def regBlockDataControl : Nat := 0x61

def dfSubclassRegisters : Byte := 64
def dfBlockRegisters : Byte := 0
def dfBlockLen : Nat := 32

def packConfigHostipuMask : U16 := 1 <<< 14
def packConfigHostipolMask : U16 := 1 <<< 13
def packConfigHostieMask : U16 := 1 <<< 12
def packConfigCBtpEnMask : Byte := 1 <<< 0

def dataFlashChecksum (blockData : Block) : Byte :=
  0xFF - blockData.toList.foldl (· + ·) 0

/-! ### The device -/

structure Gauge where
  order : ByteOrder
  flash : Block
  blockData : Block
  dataFlashClass : Byte
  dataFlashBlock : Byte
  -- how often the block data or the checksum have been stored to
  blockStores : Nat

namespace Gauge

/-- What command 0x3A reports. -/
def packConfiguration (g : Gauge) : U16 :=
  match g.order with
  | .highFirst => word g.flash[1] g.flash[0]
  | .lowFirst => word g.flash[0] g.flash[1]

def selected (g : Gauge) : Bool :=
  g.dataFlashClass == dfSubclassRegisters && g.dataFlashBlock == dfBlockRegisters

def load (g : Gauge) (r : Nat) : Byte :=
  if r = regPackConfiguration then lowByte g.packConfiguration
  else if r = regPackConfiguration + 1 then highByte g.packConfiguration
  else if r = regBlockDataChecksum then dataFlashChecksum g.blockData
  else g.blockData.toList.getD (r - regBlockData) 0

def store (g : Gauge) (r : Nat) (v : Byte) : Gauge :=
  if r = regDataFlashClass then { g with dataFlashClass := v }
  else if r = regDataFlashBlock then
    let g := { g with dataFlashBlock := v }
    if g.selected then { g with blockData := g.flash } else g
  else if r = regBlockDataChecksum then
    let g := { g with blockStores := g.blockStores + 1 }
    if g.selected ∧ v = dataFlashChecksum g.blockData then { g with flash := g.blockData } else g
  else if regBlockData ≤ r ∧ r < regBlockDataChecksum then
    { g with
      blockData := g.blockData.setIfInBounds (r - regBlockData) v
      blockStores := g.blockStores + 1 }
  else g

def peripheral : Peripheral Gauge Byte := ⟨load, store⟩

end Gauge

/-- The gauge on its bus. The `n`-th read since power-up delivers what `line n` makes of the
bytes the gauge sends. -/
structure Bus where
  line : Nat → List Byte → List Byte
  reads : Nat
  gauge : Addressed Gauge

def quiet : Nat → List Byte → List Byte := fun _ bytes => bytes

/-! ### The firmware -/

def writeByte (command : Nat) (value : Byte) (b : Bus) : Bus :=
  { b with gauge := Gauge.peripheral.write command [value] b.gauge }

/-- `buf` is filled to `len` bytes whatever the line delivers. -/
def readBytes (command len : Nat) (b : Bus) : List Byte × Bus :=
  let sent := Gauge.peripheral.read len (Gauge.peripheral.write command [] b.gauge)
  let delivered := b.line b.reads sent.1
  ((List.range len).map fun i => delivered.getD i 0,
    { b with reads := b.reads + 1, gauge := sent.2 })

def getPackConfiguration (b : Bus) : U16 × Bus :=
  let (buf, b) := readBytes regPackConfiguration 2 b
  (word (buf.getD 0 0) (buf.getD 1 0), b)

/-- `none` is the checksum mismatch. -/
def readDataFlashBlock (subclass block : Byte) (b : Bus) : Option Block × Bus :=
  let b := writeByte regBlockDataControl 0x00 b
  let b := writeByte regDataFlashClass subclass b
  let b := writeByte regDataFlashBlock block b
  let (bytes, b) := readBytes regBlockData dfBlockLen b
  let blockData : Block := Vector.ofFn fun i => bytes.getD i 0
  let (sum, b) := readBytes regBlockDataChecksum 1 b
  let calculatedChecksum := dataFlashChecksum blockData
  if sum.getD 0 0 ≠ calculatedChecksum then (none, b) else (some blockData, b)

def writeDataFlashBlock (subclass block : Byte) (blockData : Block) (b : Bus) : Bus :=
  let b := writeByte regBlockDataControl 0x00 b
  let b := writeByte regDataFlashClass subclass b
  let b := writeByte regDataFlashBlock block b
  let b := { b with gauge := Gauge.peripheral.write regBlockData blockData.toList b.gauge }
  writeByte regBlockDataChecksum (dataFlashChecksum blockData) b

/-- The `return` that a call takes, with the values its message prints. -/
inductive Outcome where
  | couldNotReadDataFlash
  | alreadyConfigured
  | couldNotVerify
  | didNotVerify (packConfig expected : U16) (packConfigC expectedC : Byte)
  | configured (oldConfig newConfig : U16) (oldConfigC newConfigC : Byte)
  deriving DecidableEq

/-- The guessed byte order. Neither reading fits a disturbed command read, and both fit two
equal bytes; the order of the reference manual is then assumed. -/
def guessOrder (blockData : Block) (packConfig : U16) : ByteOrder :=
  let be := word blockData[1] blockData[0]
  let le := word blockData[0] blockData[1]
  if le = packConfig ∧ be ≠ packConfig then .lowFirst else .highFirst

def packConfigOf (order : ByteOrder) (blockData : Block) : U16 :=
  match order with
  | .highFirst => word blockData[1] blockData[0]
  | .lowFirst => word blockData[0] blockData[1]

def withPackConfig (order : ByteOrder) (blockData : Block) (packConfig : U16) : Block :=
  match order with
  | .highFirst => (blockData.set 0 (highByte packConfig)).set 1 (lowByte packConfig)
  | .lowFirst => (blockData.set 1 (highByte packConfig)).set 0 (lowByte packConfig)

def newPackConfigOf (oldPackConfig : U16) : U16 :=
  (oldPackConfig ||| packConfigHostieMask) &&& ~~~packConfigHostipuMask &&&
    ~~~packConfigHostipolMask

def configureHostInterrupts (b : Bus) : Outcome × Bus :=
  let (packConfig, b) := getPackConfiguration b
  match readDataFlashBlock dfSubclassRegisters dfBlockRegisters b with
  | (none, b) => (.couldNotReadDataFlash, b)
  | (some blockData, b) =>
    let order := guessOrder blockData packConfig
    let oldPackConfig := packConfigOf order blockData
    let newPackConfig := newPackConfigOf oldPackConfig
    let oldPackConfigC := blockData[3]
    let newPackConfigC := oldPackConfigC &&& ~~~packConfigCBtpEnMask
    if oldPackConfig = newPackConfig ∧ oldPackConfigC = newPackConfigC then
      (.alreadyConfigured, b)
    else
      let blockData := (withPackConfig order blockData newPackConfig).set 3 newPackConfigC
      let b := writeDataFlashBlock dfSubclassRegisters dfBlockRegisters blockData b
      match readDataFlashBlock dfSubclassRegisters dfBlockRegisters b with
      | (none, b) => (.couldNotVerify, b)
      | (some verifyBlock, b) =>
        let verifyPackConfig := packConfigOf order verifyBlock
        let verifyPackConfigC := verifyBlock[3]
        if verifyPackConfig ≠ newPackConfig ∨ verifyPackConfigC ≠ newPackConfigC then
          (.didNotVerify verifyPackConfig newPackConfig verifyPackConfigC newPackConfigC, b)
        else
          (.configured oldPackConfig newPackConfig oldPackConfigC newPackConfigC, b)

/-! ### The transfers -/

namespace Gauge

def select (g : Gauge) : Gauge :=
  { g with
    blockData := g.flash
    dataFlashClass := dfSubclassRegisters
    dataFlashBlock := dfBlockRegisters }

def fill : Nat → List Byte → Block → Block
  | _, [], v => v
  | k, x :: xs, v => fill (k + 1) xs (v.setIfInBounds k x)

theorem fill_get {k : Nat} {xs : List Byte} (v : Block) (hk : k + xs.length ≤ 32) {i : Nat}
    (hi : i < 32) : (fill k xs v)[i] =
      if h : k ≤ i ∧ i < k + xs.length then xs[i - k] else v[i] := by
  induction xs generalizing k v with
  | nil =>
    rw [dif_neg (by simp only [List.length_nil]; omega)]
    rfl
  | cons x xs ih =>
    rw [List.length_cons] at hk
    rw [fill, ih (v.setIfInBounds k x) (by omega)]
    by_cases heq : i = k
    · subst heq
      rw [dif_neg (by omega), dif_pos (by simp)]
      simp
    · have hkeep : (v.setIfInBounds k x)[i] = v[i] := by
        rw [Vector.getElem_setIfInBounds_ne]
        exact Ne.symm heq
      by_cases hin : k + 1 ≤ i ∧ i < k + 1 + xs.length
      · rw [dif_pos hin, dif_pos (by simp only [List.length_cons]; omega)]
        have hpred : i - k = i - (k + 1) + 1 := by omega
        simp [hpred]
      · rw [dif_neg hin, dif_neg (by simp only [List.length_cons]; omega), hkeep]

theorem fill_all (data v : Block) : fill 0 data.toList v = data := by
  apply Vector.ext
  intro i hi
  rw [fill_get v (by simp) hi, dif_pos (by simpa using hi)]
  simp

theorem storeFrom_blockData {k : Nat} {xs : List Byte} (g : Gauge) (hk : k + xs.length ≤ 32) :
    peripheral.storeFrom (regBlockData + k) xs g =
      { g with
        blockData := fill k xs g.blockData
        blockStores := g.blockStores + xs.length } := by
  induction xs generalizing k g with
  | nil => rfl
  | cons x xs ih =>
    rw [List.length_cons] at hk
    have hstore : peripheral.store g (regBlockData + k) x =
        { g with
          blockData := g.blockData.setIfInBounds k x
          blockStores := g.blockStores + 1 } := by
      have hrange : regBlockData ≤ regBlockData + k ∧ regBlockData + k < regBlockDataChecksum := by
        simp only [regBlockData, regBlockDataChecksum]
        omega
      have hclass : ¬ regBlockData + k = regDataFlashClass := by
        simp only [regBlockData, regDataFlashClass]
        omega
      have hblock : ¬ regBlockData + k = regDataFlashBlock := by
        simp only [regBlockData, regDataFlashBlock]
        omega
      have hsum : ¬ regBlockData + k = regBlockDataChecksum := by omega
      simp only [peripheral, store, if_neg hclass, if_neg hblock, if_neg hsum, if_pos hrange,
        Nat.add_sub_cancel_left]
    rw [Peripheral.storeFrom_cons, hstore, Nat.add_assoc, ih _ (by omega)]
    simp only [fill, List.length_cons, Gauge.mk.injEq, true_and]
    omega

theorem loadFrom_blockData (g : Gauge) :
    peripheral.loadFrom regBlockData dfBlockLen g = g.blockData.toList := by
  apply List.ext_getElem
  · simp [dfBlockLen]
  · intro i h1 h2
    rw [Peripheral.length_loadFrom, dfBlockLen] at h1
    have hpack : ¬ regBlockData + i = regPackConfiguration := by
      simp only [regBlockData, regPackConfiguration]
      omega
    have hpack1 : ¬ regBlockData + i = regPackConfiguration + 1 := by
      simp only [regBlockData, regPackConfiguration]
      omega
    have hsum : ¬ regBlockData + i = regBlockDataChecksum := by
      simp only [regBlockData, regBlockDataChecksum]
      omega
    simp [Peripheral.loadFrom, peripheral, load, hpack, hpack1, hsum, h1]

end Gauge

namespace Bus

abbrev device (b : Bus) : Gauge := b.gauge.device

end Bus

theorem readBytes_quiet {b : Bus} (hline : b.line = quiet) (command len : Nat) :
    (readBytes command len b).1 = Gauge.peripheral.loadFrom command len b.device := by
  have hlen : (Gauge.peripheral.loadFrom command len b.device).length = len := by simp
  simp only [readBytes, Peripheral.read_write, hline, quiet]
  apply List.ext_getElem
  · simp
  · intro i h1 h2
    rw [List.getElem_map, List.getElem_range]
    exact List.getElem_eq_getD 0 |>.symm

/-- Whatever is read, selecting the block for it changes no data flash. -/
theorem readDataFlashBlock_device (b : Bus) :
    (readDataFlashBlock dfSubclassRegisters dfBlockRegisters b).2.device = b.device.select := by
  unfold readDataFlashBlock
  dsimp only
  split <;> rfl

theorem readDataFlashBlock_line (b : Bus) :
    (readDataFlashBlock dfSubclassRegisters dfBlockRegisters b).2.line = b.line := by
  unfold readDataFlashBlock
  dsimp only
  split <;> rfl

theorem readDataFlashBlock_quiet {b : Bus} (hline : b.line = quiet) :
    (readDataFlashBlock dfSubclassRegisters dfBlockRegisters b).1 = some b.device.flash := by
  let b1 := writeByte regDataFlashBlock dfBlockRegisters (writeByte regDataFlashClass
    dfSubclassRegisters (writeByte regBlockDataControl 0x00 b))
  let b2 := (readBytes regBlockData dfBlockLen b1).2
  have hbytes : (readBytes regBlockData dfBlockLen b1).1 = b.device.flash.toList := by
    rw [readBytes_quiet (b := b1) hline, Gauge.loadFrom_blockData]
    rfl
  have hsum : (readBytes regBlockDataChecksum 1 b2).1 = [dataFlashChecksum b.device.flash] := by
    rw [readBytes_quiet (b := b2) hline]
    rfl
  have hblock : (Vector.ofFn fun i : Fin 32 => b.device.flash.toList.getD i 0) =
      b.device.flash := by
    apply Vector.ext
    intro i hi
    simp
  have hread : readDataFlashBlock dfSubclassRegisters dfBlockRegisters b =
      if (readBytes regBlockDataChecksum 1 b2).1.getD 0 0 ≠ dataFlashChecksum
          (Vector.ofFn fun i => (readBytes regBlockData dfBlockLen b1).1.getD i 0)
      then (none, (readBytes regBlockDataChecksum 1 b2).2)
      else (some (Vector.ofFn fun i => (readBytes regBlockData dfBlockLen b1).1.getD i 0),
        (readBytes regBlockDataChecksum 1 b2).2) := rfl
  rw [hread, hbytes, hsum, hblock]
  simp

theorem getPackConfiguration_quiet {b : Bus} (hline : b.line = quiet) :
    (getPackConfiguration b).1 = b.device.packConfiguration := by
  have hread := readBytes_quiet hline regPackConfiguration 2
  have hword : (getPackConfiguration b).1 =
      word ((readBytes regPackConfiguration 2 b).1.getD 0 0)
        ((readBytes regPackConfiguration 2 b).1.getD 1 0) := rfl
  rw [hword, hread]
  exact word_low_high b.device.packConfiguration

/-- A staged block with its own checksum is committed. -/
theorem writeDataFlashBlock_device (data : Block) (b : Bus) :
    (writeDataFlashBlock dfSubclassRegisters dfBlockRegisters data b).device =
      { b.device.select with
        flash := data
        blockData := data
        blockStores := b.device.blockStores + 33 } := by
  let staged : Gauge := { b.device.select with
    blockData := data
    blockStores := b.device.blockStores + 32 }
  have hstaged : Gauge.peripheral.storeFrom regBlockData data.toList b.device.select = staged := by
    have h := Gauge.storeFrom_blockData (k := 0) b.device.select
      (show 0 + data.toList.length ≤ 32 by simp)
    rw [Gauge.fill_all, Vector.length_toList] at h
    exact h
  have hdevice : (writeDataFlashBlock dfSubclassRegisters dfBlockRegisters data b).device =
      Gauge.store (Gauge.peripheral.storeFrom regBlockData data.toList b.device.select)
        regBlockDataChecksum (dataFlashChecksum data) := rfl
  rw [hdevice, hstaged]
  simp [Gauge.store, staged, regBlockDataChecksum, regDataFlashClass, regDataFlashBlock,
    Gauge.selected, Gauge.select]

/-! ### What a call does -/

/-- The block as a call under the guessed order wants it. -/
def newBlock (order : ByteOrder) (blockData : Block) : Block :=
  (withPackConfig order blockData (newPackConfigOf (packConfigOf order blockData))).set 3
    (blockData[3] &&& ~~~packConfigCBtpEnMask)

def Configured (order : ByteOrder) (blockData : Block) : Prop :=
  packConfigOf order blockData = newPackConfigOf (packConfigOf order blockData) ∧
    blockData[3] = blockData[3] &&& ~~~packConfigCBtpEnMask

instance (order : ByteOrder) (blockData : Block) : Decidable (Configured order blockData) :=
  inferInstanceAs (Decidable (_ ∧ _))

theorem packConfiguration_eq (g : Gauge) : g.packConfiguration = packConfigOf g.order g.flash := by
  unfold Gauge.packConfiguration packConfigOf
  cases g.order <;> rfl

def firstRead (b : Bus) : Option Block × Bus :=
  readDataFlashBlock dfSubclassRegisters dfBlockRegisters (getPackConfiguration b).2

theorem firstRead_device (b : Bus) : (firstRead b).2.device = b.device.select :=
  readDataFlashBlock_device (getPackConfiguration b).2

theorem configureHostInterrupts_of_none {b : Bus} (h : (firstRead b).1 = none) :
    configureHostInterrupts b = (.couldNotReadDataFlash, (firstRead b).2) := by
  have hread : readDataFlashBlock dfSubclassRegisters dfBlockRegisters (getPackConfiguration b).2 =
      (none, (firstRead b).2) := Prod.ext h rfl
  simp only [configureHostInterrupts, hread]

section
variable {b : Bus} {blockData : Block} (h : (firstRead b).1 = some blockData)
include h

theorem configureHostInterrupts_of_configured
    (hconf : Configured (guessOrder blockData (getPackConfiguration b).1) blockData) :
    configureHostInterrupts b = (.alreadyConfigured, (firstRead b).2) := by
  have hread : readDataFlashBlock dfSubclassRegisters dfBlockRegisters (getPackConfiguration b).2 =
      (some blockData, (firstRead b).2) := Prod.ext h rfl
  simp only [configureHostInterrupts, hread]
  exact if_pos hconf

theorem configureHostInterrupts_of_not_configured
    (hconf : ¬ Configured (guessOrder blockData (getPackConfiguration b).1) blockData) :
    (configureHostInterrupts b).2 =
      (readDataFlashBlock dfSubclassRegisters dfBlockRegisters
        (writeDataFlashBlock dfSubclassRegisters dfBlockRegisters
          (newBlock (guessOrder blockData (getPackConfiguration b).1) blockData)
          (firstRead b).2)).2 := by
  have hread : readDataFlashBlock dfSubclassRegisters dfBlockRegisters (getPackConfiguration b).2 =
      (some blockData, (firstRead b).2) := Prod.ext h rfl
  unfold Configured at hconf
  simp only [configureHostInterrupts, hread, if_neg hconf]
  split
  · rename_i b' hverify
    exact (congrArg Prod.snd hverify).symm
  · rename_i verifyBlock b' hverify
    split <;> exact (congrArg Prod.snd hverify).symm

end

theorem withPackConfig_get (order : ByteOrder) (blockData : Block) (packConfig : U16) {i : Nat}
    (hi : i < 32) (h0 : i ≠ 0) (h1 : i ≠ 1) :
    (withPackConfig order blockData packConfig)[i] = blockData[i] := by
  cases order <;> simp [withPackConfig, h0.symm, h1.symm]

theorem packConfigOf_newBlock (order : ByteOrder) (blockData : Block) :
    packConfigOf order (newBlock order blockData) =
      newPackConfigOf (packConfigOf order blockData) := by
  cases order <;> simp [newBlock, packConfigOf, withPackConfig]

theorem newBlock_get (order : ByteOrder) (blockData : Block) {i : Nat} (hi : i < 32)
    (h0 : i ≠ 0) (h1 : i ≠ 1) (h3 : i ≠ 3) : (newBlock order blockData)[i] = blockData[i] := by
  simp only [newBlock, Vector.getElem_set, if_neg h3.symm]
  exact withPackConfig_get order blockData _ hi h0 h1

theorem newBlock_get_three (order : ByteOrder) (blockData : Block) :
    (newBlock order blockData)[3] = blockData[3] &&& ~~~packConfigCBtpEnMask := by
  simp [newBlock]

theorem withPackConfig_self (order : ByteOrder) (blockData : Block) :
    withPackConfig order blockData (packConfigOf order blockData) = blockData := by
  apply Vector.ext
  intro i hi
  cases order <;> simp [withPackConfig, packConfigOf]

theorem newBlock_of_configured {order : ByteOrder} {blockData : Block}
    (h : Configured order blockData) : newBlock order blockData = blockData := by
  obtain ⟨hpack, hc⟩ := h
  rw [newBlock, ← hpack, withPackConfig_self, ← hc]
  exact Vector.set_getElem_self _

theorem newPackConfigOf_bit (packConfig : U16) (i : Nat) (hi : i < 16) :
    (newPackConfigOf packConfig).getLsbD i =
      if i = 12 then true else if i = 13 ∨ i = 14 then false else packConfig.getLsbD i := by
  have hie : packConfigHostieMask.getLsbD i = decide (i = 12) := by
    revert i
    decide
  have hipol : packConfigHostipolMask.getLsbD i = decide (i = 13) := by
    revert i
    decide
  have hipu : packConfigHostipuMask.getLsbD i = decide (i = 14) := by
    revert i
    decide
  simp only [newPackConfigOf, BitVec.getLsbD_and, BitVec.getLsbD_or, BitVec.getLsbD_not, hie,
    hipol, hipu, hi, decide_true, Bool.true_and]
  by_cases h12 : i = 12
  · simp [h12]
  · by_cases h13 : i = 13
    · simp [h13]
    · by_cases h14 : i = 14 <;> simp [h12, h13, h14]

theorem newPackConfigOf_idem (packConfig : U16) :
    newPackConfigOf (newPackConfigOf packConfig) = newPackConfigOf packConfig := by
  apply BitVec.eq_of_getLsbD_eq
  intro i hi
  rw [newPackConfigOf_bit _ i hi, newPackConfigOf_bit _ i hi]
  split_ifs <;> rfl

theorem configured_newBlock (order : ByteOrder) (blockData : Block) :
    Configured order (newBlock order blockData) := by
  constructor
  · rw [packConfigOf_newBlock, newPackConfigOf_idem]
  · rw [newBlock_get_three, BitVec.and_assoc, BitVec.and_self]

theorem writeDataFlashBlock_line (subclass block : Byte) (blockData : Block) (b : Bus) :
    (writeDataFlashBlock subclass block blockData b).line = b.line := rfl

theorem configureHostInterrupts_line (b : Bus) : (configureHostInterrupts b).2.line = b.line := by
  have hfirst : (firstRead b).2.line = b.line := readDataFlashBlock_line _
  cases hread : (firstRead b).1 with
  | none =>
    rw [configureHostInterrupts_of_none hread]
    exact hfirst
  | some blockData =>
    by_cases hconf : Configured (guessOrder blockData (getPackConfiguration b).1) blockData
    · rw [configureHostInterrupts_of_configured hread hconf]
      exact hfirst
    · rw [configureHostInterrupts_of_not_configured hread hconf, readDataFlashBlock_line,
        writeDataFlashBlock_line]
      exact hfirst

/-- Over a quiet line a call leaves the new block under the guessed order, and stores to the
gauge only when that differs from the old one. -/
theorem configureHostInterrupts_quiet {b : Bus} (hline : b.line = quiet) :
    let order := guessOrder b.device.flash b.device.packConfiguration
    (configureHostInterrupts b).2.device =
      { b.device.select with
        flash := newBlock order b.device.flash
        blockData := newBlock order b.device.flash
        blockStores := b.device.blockStores +
          if Configured order b.device.flash then 0 else 33 } := by
  intro order
  have hread : (firstRead b).1 = some b.device.flash := readDataFlashBlock_quiet hline
  have hpack := getPackConfiguration_quiet hline
  by_cases hconf : Configured order b.device.flash
  · rw [configureHostInterrupts_of_configured hread (hpack ▸ hconf), firstRead_device,
      newBlock_of_configured hconf, if_pos hconf]
    rfl
  · rw [configureHostInterrupts_of_not_configured hread (hpack ▸ hconf),
      readDataFlashBlock_device, writeDataFlashBlock_device, firstRead_device, hpack,
      if_neg hconf]
    rfl

/-! ### The guess -/

theorem packConfigOf_of_equal {blockData : Block} (h : blockData[0] = blockData[1])
    (order order' : ByteOrder) : packConfigOf order blockData = packConfigOf order' blockData := by
  cases order <;> cases order' <;> simp [packConfigOf, h]

theorem configured_of_equal {blockData : Block} (h : blockData[0] = blockData[1])
    {order : ByteOrder} (hconf : Configured order blockData) (order' : ByteOrder) :
    Configured order' blockData := by
  rw [Configured, packConfigOf_of_equal h order' order]
  exact hconf

/-- The guess from an undisturbed command read: right, unless the two bytes are equal. -/
theorem guessOrder_packConfigOf (order : ByteOrder) (blockData : Block) :
    guessOrder blockData (packConfigOf order blockData) =
      if blockData[0] = blockData[1] then .highFirst else order := by
  have hswap : word blockData[0] blockData[1] = word blockData[1] blockData[0] ↔
      blockData[0] = blockData[1] := by
    constructor
    · intro h
      have hlow := congrArg lowByte h
      rwa [lowByte_word, lowByte_word] at hlow
    · intro h
      rw [h]
  cases order with
  | highFirst => simp [guessOrder, packConfigOf]
  | lowFirst =>
    by_cases heq : blockData[0] = blockData[1]
    · simp [guessOrder, packConfigOf, heq]
    · have hne : word blockData[1] blockData[0] ≠ word blockData[0] blockData[1] :=
        fun h => heq (hswap.mp h.symm)
      simp [guessOrder, packConfigOf, heq, hne]

/-- Where the two readings agree and a call would change them, so that the reference
manual's order decides; that order is not the gauge's. -/
def Ambiguous (g : Gauge) : Prop :=
  g.order = .lowFirst ∧ g.flash[0] = g.flash[1] ∧
    newPackConfigOf g.packConfiguration ≠ g.packConfiguration

instance (g : Gauge) : Decidable (Ambiguous g) := inferInstanceAs (Decidable (_ ∧ _ ∧ _))

theorem newBlock_guessOrder {g : Gauge} (h : ¬ Ambiguous g) :
    newBlock (guessOrder g.flash g.packConfiguration) g.flash = newBlock g.order g.flash := by
  rw [packConfiguration_eq, guessOrder_packConfigOf]
  by_cases heq : g.flash[0] = g.flash[1]
  · rw [if_pos heq]
    cases horder : g.order with
    | highFirst => rfl
    | lowFirst =>
      have hpack : newPackConfigOf g.packConfiguration = g.packConfiguration :=
        not_not.mp fun hne => h ⟨horder, heq, hne⟩
      have hboth : ∀ order, packConfigOf order g.flash = g.packConfiguration := by
        intro order
        rw [packConfiguration_eq]
        exact packConfigOf_of_equal heq order g.order
      have hsame : ∀ order, withPackConfig order g.flash g.packConfiguration = g.flash := by
        intro order
        rw [← hboth order]
        exact withPackConfig_self order g.flash
      simp only [newBlock, hboth, hpack, hsame]
  · rw [if_neg heq]

theorem configured_guessOrder {order : ByteOrder} {blockData : Block}
    (h : Configured order blockData) :
    Configured (guessOrder blockData (packConfigOf order blockData)) blockData := by
  rw [guessOrder_packConfigOf]
  split
  · rename_i heq
    exact configured_of_equal heq h .highFirst
  · exact h

/-! ### Reconfiguration -/

/-- HOSTIE set, HOSTIPOL and HOSTIPU cleared in what the gauge reports, BTP_EN cleared in
byte 3, everything else kept. -/
structure Reconfigured (old new : Gauge) : Prop where
  pack : ∀ i < 16, new.packConfiguration.getLsbD i =
    if i = 12 then true else if i = 13 ∨ i = 14 then false
    else old.packConfiguration.getLsbD i
  packC : ∀ i < 8, new.flash[3].getLsbD i = if i = 0 then false else old.flash[3].getLsbD i
  rest : ∀ i : Fin 32, i ≠ 0 → i ≠ 1 → i ≠ 3 → new.flash[i] = old.flash[i]

theorem reconfigured_newBlock {old new : Gauge} (horder : new.order = old.order)
    (hflash : new.flash = newBlock old.order old.flash) : Reconfigured old new := by
  refine ⟨?_, ?_, ?_⟩
  · intro i hi
    rw [packConfiguration_eq new, horder, hflash, packConfigOf_newBlock,
      newPackConfigOf_bit _ i hi, packConfiguration_eq old]
  · intro i hi
    have hmask : packConfigCBtpEnMask.getLsbD i = decide (i = 0) := by
      revert i
      decide
    simp only [hflash, newBlock_get_three, BitVec.getLsbD_and, BitVec.getLsbD_not, hmask, hi]
    by_cases h0 : i = 0 <;> simp [h0]
  · intro i h0 h1 h3
    rw [hflash]
    exact newBlock_get _ _ i.isLt (fun h => h0 (Fin.ext h)) (fun h => h1 (Fin.ext h))
      fun h => h3 (Fin.ext h)

theorem lowByte_newPackConfigOf (packConfig : U16) :
    lowByte (newPackConfigOf packConfig) = lowByte packConfig := by
  have htrunc : ∀ x : U16, lowByte x = x.setWidth 8 := by
    intro x
    apply BitVec.eq_of_toNat_eq
    rw [toNat_lowByte, BitVec.toNat_setWidth]
  rw [htrunc, htrunc]
  apply BitVec.eq_of_getLsbD_eq
  intro i hi
  rw [BitVec.getLsbD_setWidth, BitVec.getLsbD_setWidth, newPackConfigOf_bit _ i (by omega),
    if_neg (by omega), if_neg (by omega)]

theorem not_reconfigured_of_ambiguous {old new : Gauge} (h : Ambiguous old)
    (horder : new.order = old.order) (hflash : new.flash = newBlock .highFirst old.flash) :
    ¬ Reconfigured old new := by
  intro hrec
  obtain ⟨hlow, heq, hne⟩ := h
  have hold : old.packConfiguration = word old.flash[1] old.flash[0] := by
    rw [packConfiguration_eq, packConfigOf_of_equal heq _ .highFirst]
    rfl
  have hnew : new.packConfiguration =
      word (highByte (newPackConfigOf old.packConfiguration)) (lowByte old.packConfiguration) := by
    rw [packConfiguration_eq, horder, hlow, hflash, hold,
      ← lowByte_newPackConfigOf (word old.flash[1] old.flash[0])]
    simp [newBlock, packConfigOf, withPackConfig]
  have hbits : new.packConfiguration = newPackConfigOf old.packConfiguration := by
    apply BitVec.eq_of_getLsbD_eq
    intro i hi
    rw [newPackConfigOf_bit _ i hi]
    exact hrec.pack i hi
  have hlowbyte := congrArg lowByte (hnew.symm.trans hbits)
  have hhighbyte := congrArg highByte (hnew.symm.trans hbits)
  rw [lowByte_word, lowByte_newPackConfigOf] at hlowbyte
  rw [highByte_word] at hhighbyte
  have hsame : lowByte old.packConfiguration = highByte old.packConfiguration := by
    rw [hold, lowByte_word, highByte_word, heq]
  apply hne
  calc newPackConfigOf old.packConfiguration
      = word (lowByte (newPackConfigOf old.packConfiguration))
          (highByte (newPackConfigOf old.packConfiguration)) := (word_low_high _).symm
    _ = word (lowByte old.packConfiguration) (lowByte old.packConfiguration) := by
        rw [lowByte_newPackConfigOf, ← hhighbyte]
    _ = old.packConfiguration := by
        rw [hsame]
        nth_rewrite 1 [← hsame]
        exact word_low_high _

/-- A call over a quiet line changes the intended bits and no others, leaves a block that
reads back with its checksum, and makes the next call store nothing, exactly when the two
bytes of the pack configuration do not leave its byte order open. A call whose block read
fails stores nothing, whatever the line does. -/
theorem configure_host_interrupts_changes_intended_bits (b : Bus) :
    let after := (configureHostInterrupts b).2
    (b.line = quiet →
      (Reconfigured b.device after.device ∧
          (readDataFlashBlock dfSubclassRegisters dfBlockRegisters after).1 =
            some after.device.flash ∧
          (configureHostInterrupts after).2.device.flash = after.device.flash ∧
          (configureHostInterrupts after).2.device.blockStores = after.device.blockStores ↔
        ¬ Ambiguous b.device)) ∧
      ((firstRead b).1 = none →
        after.device.flash = b.device.flash ∧
          after.device.blockStores = b.device.blockStores) := by
  intro after
  constructor
  · intro hline
    have hafter := configureHostInterrupts_quiet hline
    have hline' : after.line = quiet := (configureHostInterrupts_line b).trans hline
    have horder : after.device.order = b.device.order := by rw [hafter]; rfl
    constructor
    · rintro ⟨hrec, -⟩ hamb
      refine not_reconfigured_of_ambiguous hamb horder ?_ hrec
      rw [hafter, packConfiguration_eq, guessOrder_packConfigOf, if_pos hamb.2.1]
    · intro hamb
      have hflash : after.device.flash = newBlock b.device.order b.device.flash := by
        rw [hafter, newBlock_guessOrder hamb]
      have hconf : Configured (guessOrder after.device.flash after.device.packConfiguration)
          after.device.flash := by
        rw [packConfiguration_eq, horder, hflash]
        exact configured_guessOrder (configured_newBlock _ _)
      have hagain := configureHostInterrupts_quiet hline'
      refine ⟨reconfigured_newBlock horder hflash, readDataFlashBlock_quiet hline', ?_, ?_⟩
      · rw [hagain, newBlock_of_configured hconf]
      · rw [hagain, if_pos hconf]
        rfl
  · intro hnone
    have hdevice : after.device = b.device.select := by
      change (configureHostInterrupts b).2.device = _
      rw [configureHostInterrupts_of_none hnone, firstRead_device]
    rw [hdevice]
    exact ⟨rfl, rfl⟩

-- Bytes that differ tell the order: HOSTIE is set, HOSTIPU and HOSTIPOL go, and the next call
-- stores nothing.
example :
    let b : Bus := ⟨quiet, 0, ⟨0, ⟨.lowFirst, (Vector.replicate 32 0).set 1 0x60,
      Vector.replicate 32 0, 0, 0, 0⟩⟩⟩
    let after := (configureHostInterrupts b).2
    ¬ Ambiguous b.device ∧ b.device.packConfiguration = 0x6000 ∧
      after.device.packConfiguration = 0x1000 ∧
      (configureHostInterrupts after).2.device.blockStores = after.device.blockStores := by
  decide +kernel

-- A disturbed byte fails the checksum of the first block read.
example :
    let b : Bus := ⟨fun n bytes => if n = 1 then bytes.set 7 0xFF else bytes, 0,
      ⟨0, ⟨.lowFirst, Vector.replicate 32 0, Vector.replicate 32 0, 0, 0, 0⟩⟩⟩
    (firstRead b).1 = none ∧ (configureHostInterrupts b).2.device.blockStores = 0 := by
  decide +kernel

/-- An erased pack configuration in a gauge that reports low byte first: the call sets bit 4
of the reported word in place of HOSTIE, and the next call writes again. -/
theorem configure_host_interrupts_sets_the_wrong_byte :
    let b : Bus := ⟨quiet, 0, ⟨0, ⟨.lowFirst, Vector.replicate 32 0, Vector.replicate 32 0,
      0, 0, 0⟩⟩⟩
    let after := (configureHostInterrupts b).2
    b.device.packConfiguration = 0 ∧ after.device.packConfiguration = 0x0010 ∧
      ¬ Reconfigured b.device after.device ∧
      (configureHostInterrupts after).2.device.blockStores ≠ after.device.blockStores := by
  intro b after
  have hpack : after.device.packConfiguration = 0x0010 := by decide +kernel
  refine ⟨by decide +kernel, hpack, ?_, by decide +kernel⟩
  intro h
  have hostie := h.pack 12 (by decide)
  rw [hpack] at hostie
  cases hostie

end SrFirmware.DataFlash
