import SrFirmware.Telemetry

/-!
# The retries of the I2C transfers

Every transfer of a driver goes through `i2c_write_error_handling` or `i2c_read_error_handling`
of `robot.c`. An attempt may fail with some of its bytes over the bus already; the next one
begins with the first byte again, on a device that has moved on.
-/

namespace SrFirmware.I2c

open Lib
open GaugeBus (Registers)
set_option autoImplicit false

universe u v

def maxRetries : Nat := 3

/-- What the SDK's transfer returns, and for how many bytes the device has taken part. -/
structure Attempt where
  result : Int
  bytes : Nat

def Attempt.accepted (a : Attempt) : Bool := 0 ≤ a.result

/-- The loop of both functions; `false` is the `Throw`. -/
def attemptLoop {S : Type u} (transfer : Nat → S → S) : List Attempt → S → Bool × S
  | [], s => (false, s)
  | a :: rest, s =>
    let s := transfer a.bytes s
    if a.accepted then (true, s) else attemptLoop transfer rest s

section
variable {D : Type u} {V : Type v} (p : Peripheral D V)

/-- The first byte of a write is the register. -/
def writeSome (r : Nat) (data : List V) : Nat → Addressed D → Addressed D
  | 0, s => s
  | k + 1, s => p.write r (data.take k) s

/-- The buffer keeps what it holds behind the bytes read. -/
def readSome (k : Nat) (s : List V × Addressed D) : List V × Addressed D :=
  let (bytes, device) := p.read k s.2
  (bytes ++ s.1.drop k, device)

-- what becomes of the attempts, by their number
variable (attempts : Nat → Attempt)

def i2cWriteErrorHandling (r : Nat) (data : List V) (s : Addressed D) : Bool × Addressed D :=
  attemptLoop (writeSome p r data) ((List.range maxRetries).map attempts) s

def i2cReadErrorHandling (dst : List V) (s : Addressed D) : Bool × List V × Addressed D :=
  attemptLoop (readSome p) ((List.range maxRetries).map attempts) (dst, s)

end

/-! ### Drivers -/

inductive Transfer (V : Type v) where
  | write (r : Nat) (data : List V)
  -- `dst` as it is before the transfer
  | read (dst : List V)

def Transfer.size {V : Type v} : Transfer V → Nat
  | .write _ data => data.length + 1
  | .read dst => dst.length

structure Outcome (D : Type u) (V : Type v) where
  -- no `assert (false)`
  returned : Bool
  buffers : List (List V)
  device : Addressed D

section
variable {D : Type u} {V : Type v} (p : Peripheral D V)

/-- The transfers of a core, up to the first one that stops it. -/
def run : List (Transfer V × (Nat → Attempt)) → Addressed D → Outcome D V
  | [], s => ⟨true, [], s⟩
  | (.write r data, attempts) :: rest, s =>
    let (returned, s) := i2cWriteErrorHandling p attempts r data s
    if returned then run rest s else ⟨false, [], s⟩
  | (.read dst, attempts) :: rest, s =>
    let (returned, dst, s) := i2cReadErrorHandling p attempts dst s
    if returned then
      let o := run rest s
      { o with buffers := dst :: o.buffers }
    else ⟨false, [], s⟩

/-- The same on a bus without faults. -/
def faultless : List (Transfer V) → Addressed D → List (List V) × Addressed D
  | [], s => ([], s)
  | .write r data :: rest, s => faultless rest (p.write r data s)
  | .read dst :: rest, s =>
    let (bytes, s) := p.read dst.length s
    let (buffers, s) := faultless rest s
    (bytes :: buffers, s)

end

/-- What most functions of the drivers do: the register, then the read. -/
def readRegister (command : Nat) (dst : List Byte) : List (Transfer Byte) :=
  [.write command [], .read dst]

theorem faultless_readRegister (command : Nat) (dst : List Byte) (s : Addressed Registers) :
    faultless GaugeBus.peripheral (readRegister command dst) s =
      ([(Telemetry.readRegisters command dst.length s).1],
        (Telemetry.readRegisters command dst.length s).2) := rfl

/-! ### The attempts that are made -/

/-- Up to the first one that is accepted. -/
def made : List Attempt → List Attempt
  | [] => []
  | a :: rest => if a.accepted then [a] else a :: made rest

def tried (attempts : Nat → Attempt) : List Attempt := made ((List.range maxRetries).map attempts)

/-- One of the attempts is accepted. -/
def succeeds (attempts : Nat → Attempt) : Bool := (tried attempts).any Attempt.accepted

/-- What the device has given away in attempts that came to nothing. -/
def shift (as : List Attempt) : Nat :=
  ((made as).map fun a => if a.accepted then 0 else a.bytes).sum

theorem attemptLoop_eq {S : Type u} (transfer : Nat → S → S) (as : List Attempt) (s : S) :
    attemptLoop transfer as s =
      ((made as).any Attempt.accepted, (made as).foldl (fun s a => transfer a.bytes s) s) := by
  induction as generalizing s with
  | nil => rfl
  | cons a rest ih =>
    simp only [attemptLoop, made]
    split
    · rename_i ha
      simp [ha]
    · rename_i ha
      rw [ih]
      simp [ha]

theorem shift_cons (a : Attempt) (rest : List Attempt) :
    shift (a :: rest) = if a.accepted then 0 else a.bytes + shift rest := by
  simp only [shift, made]
  split
  · rename_i ha
    simp [ha]
  · rename_i ha
    simp [ha]

section
variable {D : Type u} {V : Type v} {p : Peripheral D V}

/-- What an attempt may do without being noticed. -/
def Transfer.Allows : Transfer V → Attempt → Prop
  | .write _ data, a => a.accepted = true → a.bytes = data.length + 1
  | .read dst, a => a.bytes = if a.accepted then dst.length else 0

theorem write_writeSome (hp : p.Overwrites) (r k : Nat) (data : List V) (s : Addressed D) :
    p.write r data (writeSome p r data k s) = p.write r data s := by
  cases k with
  | zero => rfl
  | succ k => exact hp.write_take r k data s

/-- However often a write has been broken off, it ends as if it had been made once. -/
theorem foldl_writeSome (hp : p.Overwrites) {r : Nat} {data : List V} {as : List Attempt}
    (hallowed : ∀ a ∈ made as, (Transfer.write r data).Allows a)
    (hany : (made as).any Attempt.accepted = true) (s : Addressed D) :
    (made as).foldl (fun s a => writeSome p r data a.bytes s) s = p.write r data s := by
  induction as generalizing s with
  | nil => cases hany
  | cons a rest ih =>
    simp only [made] at hallowed hany ⊢
    split at hallowed
    · rename_i ha
      have hbytes : a.bytes = data.length + 1 := hallowed a (by simp) ha
      simp [ha, hbytes, writeSome]
    · rename_i ha
      simp only [ha, if_false, Bool.false_eq_true] at hany ⊢
      rw [List.foldl_cons, ih (fun b hb => hallowed b (by simp [hb])) (by simpa [ha] using hany)]
      exact write_writeSome hp r a.bytes data s

/-- A read that has been broken off goes on where the device is. -/
theorem foldl_readSome {len : Nat} {as : List Attempt}
    (hwhole : ∀ a ∈ made as, a.accepted = true → a.bytes = len)
    (hle : ∀ a ∈ made as, a.bytes ≤ len)
    (hany : (made as).any Attempt.accepted = true) {dst : List V} (hdst : dst.length = len)
    (s : Addressed D) :
    (made as).foldl (fun s a => readSome p a.bytes s) (dst, s) =
      p.read len ⟨s.pointer + shift as, s.device⟩ := by
  induction as generalizing dst s with
  | nil => cases hany
  | cons a rest ih =>
    rw [shift_cons]
    simp only [made] at hwhole hle hany ⊢
    split at hwhole
    · rename_i ha
      have hbytes : a.bytes = len := hwhole a (by simp) ha
      simp [ha, hbytes, readSome, ← hdst]
    · rename_i ha
      simp only [ha, if_false, Bool.false_eq_true] at hle hany ⊢
      have hbytes : a.bytes ≤ len := hle a (by simp)
      have hlength : ((p.read a.bytes s).1 ++ dst.drop a.bytes).length = len := by
        simp only [Peripheral.read, List.length_append, Peripheral.length_loadFrom,
          List.length_drop]
        omega
      rw [List.foldl_cons]
      have hrest := ih (fun b hb => hwhole b (by simp [hb])) (fun b hb => hle b (by simp [hb]))
        (by simpa [ha] using hany) hlength (p.read a.bytes s).2
      simpa [readSome, Peripheral.read, Nat.add_assoc] using hrest

theorem i2cWrite_fst (attempts : Nat → Attempt) (r : Nat) (data : List V) (s : Addressed D) :
    (i2cWriteErrorHandling p attempts r data s).1 = succeeds attempts := by
  rw [i2cWriteErrorHandling, attemptLoop_eq]
  rfl

theorem i2cRead_fst (attempts : Nat → Attempt) (dst : List V) (s : Addressed D) :
    (i2cReadErrorHandling p attempts dst s).1 = succeeds attempts := by
  rw [i2cReadErrorHandling, attemptLoop_eq]
  rfl

theorem i2cWrite_eq (hp : p.Overwrites) {attempts : Nat → Attempt} {r : Nat} {data : List V}
    (hallowed : ∀ a ∈ tried attempts, (Transfer.write r data).Allows a)
    (hsucceeds : succeeds attempts = true) (s : Addressed D) :
    i2cWriteErrorHandling p attempts r data s = (true, p.write r data s) := by
  rw [i2cWriteErrorHandling, attemptLoop_eq, foldl_writeSome hp hallowed hsucceeds]
  exact congrArg (·, _) hsucceeds

theorem shift_eq_zero {dst : List V} {as : List Attempt}
    (hallowed : ∀ a ∈ made as, (Transfer.read dst).Allows a) : shift as = 0 := by
  rw [shift, List.sum_eq_zero_iff_forall_eq_nat]
  intro n hn
  obtain ⟨a, ha, rfl⟩ := List.mem_map.mp hn
  have hbytes : a.bytes = if a.accepted then dst.length else 0 := hallowed a ha
  cases haccepted : a.accepted
  · simpa [haccepted] using hbytes
  · rfl

theorem i2cRead_eq {attempts : Nat → Attempt} {dst : List V}
    (hallowed : ∀ a ∈ tried attempts, (Transfer.read dst).Allows a)
    (hsucceeds : succeeds attempts = true) (s : Addressed D) :
    i2cReadErrorHandling p attempts dst s = (true, p.read dst.length s) := by
  have hbytes : ∀ a ∈ tried attempts, a.bytes = if a.accepted then dst.length else 0 := hallowed
  have hwhole : ∀ a ∈ tried attempts, a.accepted = true → a.bytes = dst.length := by
    intro a ha haccepted
    rw [hbytes a ha, if_pos haccepted]
  have hle : ∀ a ∈ tried attempts, a.bytes ≤ dst.length := by
    intro a ha
    rw [hbytes a ha]
    split
    · exact Nat.le_refl _
    · exact Nat.zero_le _
  rw [i2cReadErrorHandling, attemptLoop_eq, foldl_readSome hwhole hle hsucceeds rfl,
    shift_eq_zero hallowed]
  exact congrArg (·, _) hsucceeds

/-! ### Faults that nobody notices -/

/-- A core's transfers to registers that keep what is stored last, where an accepted attempt is a
whole transfer and a read that fails has got no byte. Whatever else the bus does, the core gets
what it would without faults, up to the first transfer that fails in all its attempts; there it
stops. -/
theorem faults_masked (hp : p.Overwrites) (program : List (Transfer V × (Nat → Attempt)))
    (hallowed : ∀ t ∈ program, ∀ a ∈ tried t.2, t.1.Allows a) (s : Addressed D) :
    let o := run p program s
    let done := (program.takeWhile fun t => succeeds t.2).map Prod.fst
    o.returned = program.all (fun t => succeeds t.2) ∧ o.buffers = (faultless p done s).1 ∧
      (o.returned = true → o.device = (faultless p (program.map Prod.fst) s).2) := by
  induction program generalizing s with
  | nil => exact ⟨rfl, rfl, fun _ => rfl⟩
  | cons t rest ih =>
    obtain ⟨transfer, attempts⟩ := t
    have hrest := ih fun t ht => hallowed t (by simp [ht])
    have htransfer := hallowed (transfer, attempts) (by simp)
    cases hsucceeds : succeeds attempts with
    | false =>
      cases transfer with
      | write r data =>
        have hreturned := (i2cWrite_fst (p := p) attempts r data s).trans hsucceeds
        simp [run, hreturned, hsucceeds, faultless]
      | read dst =>
        have hreturned := (i2cRead_fst (p := p) attempts dst s).trans hsucceeds
        simp [run, hreturned, hsucceeds, faultless]
    | true =>
      cases transfer with
      | write r data =>
        obtain ⟨hreturned, hbuffers, hdevice⟩ := hrest (p.write r data s)
        simp only [run, i2cWrite_eq hp htransfer hsucceeds, if_true, List.all_cons, hsucceeds,
          List.takeWhile_cons, List.map_cons, faultless, Bool.true_and]
        exact ⟨hreturned, hbuffers, hdevice⟩
      | read dst =>
        obtain ⟨hreturned, hbuffers, hdevice⟩ := hrest (p.read dst.length s).2
        simp only [run, i2cRead_eq htransfer hsucceeds, if_true, List.all_cons, hsucceeds,
          List.takeWhile_cons, List.map_cons, faultless, Bool.true_and]
        exact ⟨hreturned, congrArg _ hbuffers, hdevice⟩

end

theorem overwrites_peripheral : GaugeBus.peripheral.Overwrites where
  again d _ v w := Function.update_idem (β := fun _ => Byte) v w d
  comm d _ _ v w h := Function.update_comm (β := fun _ => Byte) h v w d

/-- The register byte of a read is acknowledged at the third attempt only, the read at the second,
and a write is broken off behind its first data byte. -/
theorem faults_masked_voltage :
    let attempts (as : List Attempt) (n : Nat) : Attempt := as.getD n ⟨-1, 0⟩
    let program : List (Transfer Byte × (Nat → Attempt)) :=
      [(.write GaugeBus.regVoltage [], attempts [⟨-1, 0⟩, ⟨-2, 1⟩, ⟨1, 1⟩]),
        (.read [0, 0], attempts [⟨-1, 0⟩, ⟨2, 2⟩]),
        (.write GaugeBus.regControl [0x23, 0x00], attempts [⟨-2, 2⟩, ⟨3, 3⟩])]
    let s : Addressed Registers := ⟨0, fun _ => 7⟩
    let o := run GaugeBus.peripheral program s
    let done := (program.takeWhile fun t => succeeds t.2).map Prod.fst
    o.returned = program.all (fun t => succeeds t.2) ∧
      o.buffers = (faultless GaugeBus.peripheral done s).1 ∧
      (o.returned = true →
        o.device = (faultless GaugeBus.peripheral (program.map Prod.fst) s).2) :=
  faults_masked overwrites_peripheral _
    (by simp [tried, made, maxRetries, List.range_succ, Attempt.accepted, Transfer.Allows]) _

/-! ### Faults that change what is read -/

theorem foldl_writeSome_nil {D : Type u} {V : Type v} (p : Peripheral D V) (r : Nat)
    (as : List Attempt) (s : Addressed D) :
    as.foldl (fun s a => writeSome p r [] a.bytes s) s =
      ⟨if ∃ a ∈ as, a.bytes ≠ 0 then r else s.pointer, s.device⟩ := by
  induction as generalizing s with
  | nil => simp
  | cons a rest ih =>
    rw [List.foldl_cons, ih]
    cases hbytes : a.bytes with
    | zero => simp [writeSome, hbytes]
    | succ k => simp [writeSome, hbytes, Peripheral.write]

/-- What a register read delivers: the register it asks for if any attempt has set the pointer,
moved by the bytes that came and went in attempts to read. -/
theorem run_readRegister {D : Type u} {V : Type v} (p : Peripheral D V) (command : Nat)
    {dst : List V} {w r : Nat → Attempt} (hw : succeeds w = true) (hr : succeeds r = true)
    (hwhole : ∀ a ∈ tried r, a.accepted = true → a.bytes = dst.length)
    (hle : ∀ a ∈ tried r, a.bytes ≤ dst.length) (s : Addressed D) :
    (run p [(.write command [], w), (.read dst, r)] s).buffers =
      [p.loadFrom ((if ∃ a ∈ tried w, a.bytes ≠ 0 then command else s.pointer) +
        shift ((List.range maxRetries).map r)) dst.length s.device] := by
  have hwrite : i2cWriteErrorHandling p w command [] s =
      (true, ⟨if ∃ a ∈ tried w, a.bytes ≠ 0 then command else s.pointer, s.device⟩) := by
    rw [i2cWriteErrorHandling, attemptLoop_eq, foldl_writeSome_nil]
    exact congrArg (·, _) hw
  have hread : ∀ s : Addressed D, i2cReadErrorHandling p r dst s =
      (true, p.read dst.length ⟨s.pointer + shift ((List.range maxRetries).map r), s.device⟩) := by
    intro s
    rw [i2cReadErrorHandling, attemptLoop_eq, foldl_readSome hwhole hle hr rfl]
    exact congrArg (·, _) hr
  simp only [run, hwrite, hread, if_true, Peripheral.read]

theorem returned_readRegister {D : Type u} {V : Type v} (p : Peripheral D V) (command : Nat)
    (dst : List V) (w r : Nat → Attempt) (s : Addressed D) :
    (run p [(.write command [], w), (.read dst, r)] s).returned = (succeeds w && succeeds r) := by
  have hwrite := i2cWrite_fst (p := p) w command [] s
  cases hw : succeeds w with
  | false => simp [run, hwrite, hw]
  | true =>
    have hread := i2cRead_fst (p := p) r dst (i2cWriteErrorHandling p w command [] s).2
    cases hr : succeeds r <;> simp [run, hwrite, hw, hread, hr]

theorem shift_eq_zero_iff (as : List Attempt) :
    shift as = 0 ↔ ∀ a ∈ made as, a.accepted = true ∨ a.bytes = 0 := by
  rw [shift, List.sum_eq_zero_iff_forall_eq_nat]
  simp only [List.forall_mem_map]
  refine forall₂_congr fun a _ => ?_
  cases a.accepted <;> simp

/-- The registers that tell one of them from all others. -/
def only (command : Nat) : Registers := Function.update (fun _ => 0) command 1

theorem loadFrom_only {command other n : Nat} (hn : 0 < n)
    (h : GaugeBus.peripheral.loadFrom other n (only command) =
      GaugeBus.peripheral.loadFrom command n (only command)) : other = command := by
  have hfirst := congrArg (fun bytes => bytes[0]?) h
  have hzero : (List.range n)[0]? = some 0 := by simp [hn]
  simp only [Peripheral.loadFrom, List.getElem?_map, hzero, Option.map_some, Nat.add_zero,
    Option.some.injEq] at hfirst
  by_contra hne
  have hother : only command other = 0 := Function.update_of_ne hne _ _
  have hself : only command command = 1 := Function.update_self _ _ _
  have hone : (0 : Byte) = 1 := hother.symm.trans (hfirst.trans hself)
  exact absurd hone (by decide)

/-- The retry of a read does not set the register again. A register read delivers the register
whatever the device holds and wherever its pointer was exactly if it stops the core, or an
attempt has brought the register over and no attempt to read has failed behind its first byte. -/
theorem register_read_right_iff (command : Nat) {dst : List Byte} (hdst : dst ≠ [])
    (w r : Nat → Attempt) (hle : ∀ a ∈ tried r, a.bytes ≤ dst.length)
    (hwhole : ∀ a ∈ tried r, a.accepted = true → a.bytes = dst.length) :
    (∀ s : Addressed Registers,
      let o := run GaugeBus.peripheral [(.write command [], w), (.read dst, r)] s
      o.returned = true → o.buffers = [(Telemetry.readRegisters command dst.length s).1]) ↔
      (succeeds w = true → succeeds r = true →
        (∃ a ∈ tried w, a.bytes ≠ 0) ∧ ∀ a ∈ tried r, a.accepted = true ∨ a.bytes = 0) := by
  have hnone : (∀ a ∈ tried r, a.accepted = true ∨ a.bytes = 0) ↔
      shift ((List.range maxRetries).map r) = 0 := (shift_eq_zero_iff _).symm
  rw [hnone]
  constructor
  · intro hright hw hr
    have hbuffers := hright ⟨command + 1, only command⟩
      (by rw [returned_readRegister, hw, hr]; rfl)
    rw [run_readRegister _ command hw hr hwhole hle, List.cons.injEq] at hbuffers
    have hpointer := loadFrom_only (List.length_pos_of_ne_nil hdst) hbuffers.1
    dsimp only at hpointer
    split at hpointer
    · rename_i haimed
      exact ⟨haimed, by omega⟩
    · omega
  · intro hfaults s o hreturned
    rw [returned_readRegister, Bool.and_eq_true] at hreturned
    obtain ⟨hw, hr⟩ := hreturned
    obtain ⟨haimed, hshift⟩ := hfaults hw hr
    rw [run_readRegister _ command hw hr hwhole hle, if_pos haimed, hshift]
    rfl

/-- A read that fails behind its first byte and is accepted when made again. -/
theorem register_read_right_iff_broken_off :
    let w (_ : Nat) : Attempt := ⟨1, 1⟩
    let r (n : Nat) : Attempt := [⟨-2, 1⟩, ⟨2, 2⟩].getD n ⟨-1, 0⟩
    (∀ s : Addressed Registers,
      let o := run GaugeBus.peripheral [(.write GaugeBus.regVoltage [], w), (.read [0, 0], r)] s
      o.returned = true →
        o.buffers = [(Telemetry.readRegisters GaugeBus.regVoltage 2 s).1]) ↔
      (succeeds w = true → succeeds r = true →
        (∃ a ∈ tried w, a.bytes ≠ 0) ∧ ∀ a ∈ tried r, a.accepted = true ∨ a.bytes = 0) :=
  register_read_right_iff GaugeBus.regVoltage (by simp) _ _
    (by simp [tried, made, maxRetries, List.range_succ, Attempt.accepted])
    (by simp [tried, made, maxRetries, List.range_succ, Attempt.accepted])

/-- It delivers the registers from the next one on. -/
example :
    let w (_ : Nat) : Attempt := ⟨1, 1⟩
    let r (n : Nat) : Attempt := [⟨-2, 1⟩, ⟨2, 2⟩].getD n ⟨-1, 0⟩
    let s : Addressed Registers := ⟨0, fun q => BitVec.ofNat 8 q⟩
    (run GaugeBus.peripheral [(.write 0x08 [], w), (.read [0, 0], r)] s).buffers =
      [[0x09, 0x0A]] := by decide

end SrFirmware.I2c
