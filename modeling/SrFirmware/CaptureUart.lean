import SrFirmware.Crc
import SrFirmware.Lib.Lines

/-!
# The UART capture tool, `tools/capture_uart_log.py`

The line reader and the waits that are built on it. A chunk is what one `os.read` returns, and
a stage ends without success when there is no chunk left. Text is a list of anything that shows
a character: the statements number the bytes of the stream, the tool does not.
-/

namespace SrFirmware.CaptureUart

open Lib.Lines
set_option autoImplicit false

/-- What `str.splitlines` and `str.strip` make of a character. -/
def charKind (c : Char) : Kind :=
  if c = '\r' then .cr
  else if c = '\n' then .lf
  else if c.toNat ∈ [0x0B, 0x0C, 0x1C, 0x1D, 0x1E, 0x85, 0x2028, 0x2029] then .lineBreak
  else if c.toNat ∈ [0x09, 0x1F, 0x20, 0xA0, 0x1680, 0x202F, 0x205F, 0x3000] ∨
      0x2000 ≤ c.toNat ∧ c.toNat ≤ 0x200A then .blank
  else .ink

def contains (token : String) (line : List Char) : Bool := decide (token.toList <:+: line)

/-! ### The reader -/

/-- A call of `consume_uart_lines`: what its callback remembers, and what it does with a line. -/
structure Stage where
  Status : Type
  start : Status
  callback : Status → List Char → Status × Bool

structure LoopResult (Status α : Type) where
  status : Status
  handed : List (List α)
  ended : Bool
  -- only for the statements
  left : List (List α)

structure Consumed (Status α : Type) where
  status : Status
  ok : Bool
  text : List α
  handed : List (List α)
  -- only for the statements: what the return leaves behind of its last chunk
  dropped : List α
  unread : List (List α)

section
variable {α : Type} (char : α → Char) (stage : Stage)

/-- The loop over the raw lines of a chunk. -/
def lineLoop (status : stage.Status) : List (List α) → LoopResult stage.Status α
  | [] => ⟨status, [], false, []⟩
  | rawLine :: rest =>
    let line := strip (charKind ∘ char) rawLine
    if line.isEmpty then lineLoop status rest
    else
      let (status, stop) := stage.callback status (line.map char)
      if stop then ⟨status, [line], true, rest⟩
      else
        let r := lineLoop status rest
        { r with handed := line :: r.handed }

def consumeFrom (pending : List α) (status : stage.Status) :
    List (List α) → Consumed stage.Status α
  | [] => ⟨status, false, [], [], [], []⟩
  | chunk :: chunks =>
    let (lines, pending) := cut (charKind ∘ char) (pending ++ chunk)
    let r := lineLoop char stage status lines
    if r.ended then ⟨r.status, true, chunk, r.handed, r.left.flatten ++ pending, chunks⟩
    else
      let c := consumeFrom pending r.status chunks
      { c with text := chunk ++ c.text, handed := r.handed ++ c.handed }

def consumeUartLines (chunks : List (List α)) : Consumed stage.Status α :=
  consumeFrom char stage [] stage.start chunks

end

/-! ### The waits -/

structure Role where
  state : Option Nat
  pcbPower : Option (List Char)
  pcbData : Option (List Char)
  pdReady : Option Nat

/-- `re.search` for a key and what it captures: the longest run of the class behind the first
key that has one. -/
def searchRun (key : String) (accepts : Char → Bool) : List Char → Option (List Char)
  | [] => none
  | c :: rest =>
    let value := ((c :: rest).drop key.length).takeWhile accepts
    if key.toList.isPrefixOf (c :: rest) ∧ value ≠ [] then some value
    else searchRun key accepts rest

def upperOrUnderscore (c : Char) : Bool := ('A' ≤ c ∧ c ≤ 'Z') ∨ c = '_'

structure DetachStatus where
  vbusOff : Bool
  detached : Bool
  lastRole : Option (List Char)

structure AttachStatus where
  vbusOn : Bool
  desired : Bool
  lastRole : Option (List Char)

/-- The digits that the firmware prints. -/
def asciiDigit (c : Char) : Option Nat := if c.isDigit then some (c.toNat - '0'.toNat) else none

def waitForStartup : Stage := ⟨Unit, (), fun _ line => ((), contains "on_start complete" line)⟩

section
-- the decimal digits of the interpreter's Unicode tables, with their values
variable (digitValue : Char → Option Nat)

def toInt (digits : List Char) : Nat :=
  digits.foldl (fun n c => 10 * n + (digitValue c).getD 0) 0

def parseRoleLine (line : List Char) : Role :=
  let digits (key : String) := (searchRun key (fun c => (digitValue c).isSome) line).map
    (toInt digitValue)
  { state := digits "state="
    pcbPower := searchRun "pcb_power=" upperOrUnderscore line
    pcbData := searchRun "pcb_data=" upperOrUnderscore line
    pdReady := digits "pd_ready=" }

/-- The comparison that `wait_for_reattach` and `desired_baseline_from_text` both make. -/
def Role.isDesired (role : Role) : Bool :=
  role.state = some 2 ∧ role.pcbPower = some "SOURCE".toList ∧
    role.pcbData = some "UFP_DEVICE".toList ∧ role.pdReady = some 1

def sawDetach (status : DetachStatus) (line : List Char) : DetachStatus × Bool :=
  let status := if contains "MAX77958_DIAG: setting VBUS GPIO4/GPIO5 off" line then
      { status with vbusOff := true }
    else status
  let status := if contains " pcb_power=" line || contains "state=" line then
      let role := parseRoleLine digitValue line
      { status with
        lastRole := some line
        detached := if role.state = some 0 ∨ role.pcbPower = some "UNKNOWN".toList then true
          else status.detached }
    else status
  (status, status.detached && status.vbusOff)

def waitForDetach : Stage := ⟨DetachStatus, ⟨false, false, none⟩, sawDetach digitValue⟩

def sawDesired (status : AttachStatus) (line : List Char) : AttachStatus × Bool :=
  let status := if contains "MAX77958_DIAG: setting VBUS GPIO4/GPIO5 on" line then
      { status with vbusOn := true }
    else status
  let status := if contains " pcb_power=" line then
      { status with lastRole := some line, desired := (parseRoleLine digitValue line).isDesired }
    else status
  (status, status.desired && status.vbusOn)

def waitForReattach : Stage := ⟨AttachStatus, ⟨false, false, none⟩, sawDesired digitValue⟩

/-! ### The batch check -/

structure Baseline where
  status : AttachStatus
  lastOnIndex : Int
  lastOffIndex : Int

/-- `str.splitlines` without the line endings. -/
def splitlines (text : List Char) : List (List Char) :=
  (splitLines charKind text).map fun line => line.rdropWhile fun c => (charKind c).breaks

def baselineLine (b : Baseline) : List Char × Nat → Baseline
  | (line, index) =>
    let b := if contains "MAX77958_DIAG: setting VBUS GPIO4/GPIO5 on" line then
        { b with lastOnIndex := index }
      else b
    let b := if contains "MAX77958_DIAG: setting VBUS GPIO4/GPIO5 off" line then
        { b with lastOffIndex := index }
      else b
    if contains " pcb_power=" line then
      { b with status := { b.status with
          lastRole := some line
          desired := (parseRoleLine digitValue line).isDesired } }
    else b

def desiredBaselineFromText (text : List Char) : Bool × AttachStatus :=
  let b := (splitlines text).zipIdx.foldl (baselineLine digitValue)
    ⟨⟨false, false, none⟩, -1, -1⟩
  let status := { b.status with vbusOn := b.lastOnIndex > b.lastOffIndex }
  (status.desired && status.vbusOn, status)

/-! ### The interactive session -/

structure Session (α : Type) where
  text : List α
  exitCode : Nat
  -- only for the statements
  handed : List (List α)

section
variable {α : Type} (char : α → Char)

/-- The loop over the cycles. -/
def interactiveCycles : Nat → List (List α) → Session α
  | 0, _ => ⟨[], 0, []⟩
  | cycles + 1, chunks =>
    let detach := consumeUartLines char (waitForDetach digitValue) chunks
    if ¬ detach.ok then ⟨detach.text, 1, detach.handed⟩
    else
      let attach := consumeUartLines char (waitForReattach digitValue) detach.unread
      if ¬ attach.ok then ⟨detach.text ++ attach.text, 1, detach.handed ++ attach.handed⟩
      else
        let s := interactiveCycles cycles attach.unread
        ⟨detach.text ++ attach.text ++ s.text, s.exitCode,
          detach.handed ++ attach.handed ++ s.handed⟩

def runInteractiveCycles (cycles : Nat) (chunks : List (List α)) : Session α :=
  let startup := consumeUartLines char waitForStartup chunks
  if ¬ startup.ok then ⟨startup.text, 1, startup.handed⟩
  else if (desiredBaselineFromText digitValue (startup.text.map char)).1 then
    let s := interactiveCycles digitValue char cycles startup.unread
    ⟨startup.text ++ s.text, s.exitCode, startup.handed ++ s.handed⟩
  else
    let baseline := consumeUartLines char (waitForReattach digitValue) startup.unread
    if ¬ baseline.ok then
      ⟨startup.text ++ baseline.text, 1, startup.handed ++ baseline.handed⟩
    else
      let s := interactiveCycles digitValue char cycles baseline.unread
      ⟨startup.text ++ baseline.text ++ s.text, s.exitCode,
        startup.handed ++ baseline.handed ++ s.handed⟩

end

end

end SrFirmware.CaptureUart
