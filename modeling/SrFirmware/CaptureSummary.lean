import SrFirmware.CaptureReattach

/-!
# The verdict of the capture tool, the end of `summarize`

`summarize` looks for the last lines of each kind in the whole text and says whether they show
the desired phone-control state. It is the third check of that state in the tool.
-/

namespace SrFirmware.CaptureUart

open Lib.Lines
set_option autoImplicit false

/-! ### The lines that are looked at -/

def isPdLine (line : List Char) : Bool := contains "MAX77958_DIAG" line && contains " PD0=" line

def isStateEvalLine (line : List Char) : Bool := contains "MAX77958_DIAG: state eval" line

def isRoleLine (line : List Char) : Bool :=
  contains "MAX77958_DIAG:" line && contains " pcb_power=" line && contains " pcb_data=" line &&
    contains " pd_ready=" line

def isGpioLine (line : List Char) : Bool :=
  contains "MAX77958_DIAG" line && contains " GPIO53=" line

/-- `last_match`, with what the regular expression captures. -/
def lastMatch {β : Type} (search : List Char → Option β) (lines : List (List Char)) : Option β :=
  lines.reverse.findSome? search

/-- The last index at which one of the selected lines stands. -/
def lastIndex (selected lines : List (List Char)) : Int :=
  (lines.zipIdx.filter fun l => l.1 ∈ selected).foldl (fun last l => max last (l.2 : Int)) (-1)

structure Gpio where
  g4Dir : Nat
  g4Out : Nat
  g5Dir : Nat
  g5Out : Nat

def Gpio.vbusEnabled (g : Gpio) : Bool :=
  g.g4Dir = 1 ∧ g.g4Out = 1 ∧ g.g5Dir = 1 ∧ g.g5Out = 1

structure FinalRole where
  ccState : Option Nat
  pcbPower : Option (List Char)
  pcbData : Option (List Char)
  pdReady : Bool
  vbusEnabled : Option Bool
  desired : Bool

section
variable (digitValue : Char → Option Nat)

def isDigit (c : Char) : Bool := (digitValue c).isSome

def parseLastInt (lines : List (List Char)) (key : String) : Option Nat :=
  lastMatch (fun line => (searchRun key (isDigit digitValue) line).map (toInt digitValue)) lines

def parseLastStr (lines : List (List Char)) (key : String) : Option (List Char) :=
  lastMatch (searchRun key upperOrUnderscore) lines

/-- A key and the number behind it, at the beginning of a text. -/
def field (key : String) (text : List Char) : Option (Nat × List Char) :=
  let digits := (text.drop key.length).takeWhile (isDigit digitValue)
  if key.toList.isPrefixOf text ∧ digits ≠ [] then
    some (toInt digitValue digits, text.drop (key.length + digits.length))
  else none

/-- `MAX77958_DIAG t=\d+ms CC0=` -/
def isCc0Line : List Char → Bool
  | [] => false
  | c :: rest =>
    (match field digitValue "MAX77958_DIAG t=" (c :: rest) with
      | some (_, behind) => "ms CC0=".toList.isPrefixOf behind
      | none => false) || isCc0Line rest

def gpioAt (text : List Char) : Option Gpio := do
  let (g4Dir, text) ← field digitValue "g4=" text
  let (g4Out, text) ← field digitValue "/" text
  let (g5Dir, text) ← field digitValue " g5=" text
  let (g5Out, _) ← field digitValue "/" text
  some ⟨g4Dir, g4Out, g5Dir, g5Out⟩

/-- `g4=(\d+)/(\d+) g5=(\d+)/(\d+)` -/
def searchGpio : List Char → Option Gpio
  | [] => none
  | c :: rest => (gpioAt digitValue (c :: rest)).orElse fun _ => searchGpio rest

/-- What `summarize` says of the final role, if anything. -/
def finalRole (text : List Char) : Option FinalRole :=
  let lines := splitlines text
  let cc0Lines := lines.filter (isCc0Line digitValue)
  let pdLines := lines.filter isPdLine
  let stateEvalLines := lines.filter isStateEvalLine
  let roleLines := lines.filter isRoleLine
  let vbusOnLines := lines.filter setsVbusOn
  let vbusOffLines := lines.filter setsVbusOff
  let gpioLines := lines.filter isGpioLine
  let finalState := (parseLastInt digitValue cc0Lines "state=").or
    (parseLastInt digitValue roleLines "state=")
  let finalData := (parseLastInt digitValue pdLines "data=").or
    (parseLastInt digitValue stateEvalLines "data=")
  let finalPsrdy := (parseLastInt digitValue pdLines "psrdy=").or
    (parseLastInt digitValue stateEvalLines "psrdy=")
  let finalPcbPower := parseLastStr roleLines "pcb_power="
  let finalPcbData := parseLastStr roleLines "pcb_data="
  let finalPdReady := parseLastInt digitValue roleLines "pd_ready="
  let finalGpioMatch := lastMatch (searchGpio digitValue) gpioLines
  if finalState.isSome ∨ finalData.isSome ∨ finalPsrdy.isSome ∨ finalGpioMatch.isSome ∨
      vbusOnLines ≠ [] ∨ vbusOffLines ≠ [] ∨ finalPcbPower.isSome then
    let sourceAttached : Bool := finalState = some 2
    let pcbSource : Bool := match finalPcbPower with
      | some power => power = "SOURCE".toList
      | none => sourceAttached
    let pcbUfp : Bool := match finalPcbData with
      | some data => data = "UFP_DEVICE".toList
      | none => finalData = some 0
    let pdReady : Bool := match finalPdReady with
      | some ready => ready = 1
      | none => finalPsrdy = some 1
    let vbusEnabled : Option Bool := match finalGpioMatch with
      | some gpio => some gpio.vbusEnabled
      | none =>
        if vbusOnLines ≠ [] ∨ vbusOffLines ≠ [] then
          some (lastIndex vbusOnLines lines > lastIndex vbusOffLines lines)
        else none
    some {
      ccState := finalState
      pcbPower := finalPcbPower
      pcbData := finalPcbData
      pdReady := pdReady
      vbusEnabled := vbusEnabled
      desired := pcbSource && pdReady && pcbUfp && vbusEnabled.getD false }
  else none

/-- What is printed as the desired phone-control state is `yes`. -/
def desiredInSummary (text : List Char) : Bool := (finalRole digitValue text).any FinalRole.desired

end

section
variable (digitValue : Char → Option Nat)

/-- Every line with a role is one that `summarize` takes for such, and shows all of it. -/
def RolesComplete (lines : List (List Char)) : Prop :=
  ∀ line ∈ lines, showsRole line = true → isRoleLine line = true ∧
    ((parseRoleLine digitValue line).state.isSome = true ∧
      (parseRoleLine digitValue line).pcbPower.isSome = true ∧
      (parseRoleLine digitValue line).pcbData.isSome = true ∧
      (parseRoleLine digitValue line).pdReady.isSome = true)

/-- No line shows how the pins that switch VBUS are set. -/
def NoGpioReadback (lines : List (List Char)) : Prop :=
  ∀ line ∈ lines, isGpioLine line = true → searchGpio digitValue line = none

instance (lines : List (List Char)) : Decidable (RolesComplete digitValue lines) :=
  inferInstanceAs (Decidable (∀ line ∈ lines, _ → _ ∧ _ ∧ _ ∧ _ ∧ _))

instance (lines : List (List Char)) : Decidable (NoGpioReadback digitValue lines) :=
  inferInstanceAs (Decidable (∀ line ∈ lines, _ → _ = none))

def lastRole (lines : List (List Char)) : Option (List Char) := (lines.filter showsRole).getLast?

end

section
variable {digitValue : Char → Option Nat} {lines : List (List Char)}

/-! ### Last lines -/

theorem lastMatch_of_all {β : Type} {search : List Char → Option β}
    (h : ∀ line ∈ lines, (search line).isSome = true) :
    lastMatch search lines = lines.getLast?.bind search := by
  induction lines using List.reverseRecOn with
  | nil => rfl
  | append_singleton lines line ih =>
    obtain ⟨found, hfound⟩ := Option.isSome_iff_exists.mp (h line (by simp))
    simp [lastMatch, hfound]

theorem lastMatch_eq_none {β : Type} {search : List Char → Option β}
    (h : ∀ line ∈ lines, search line = none) : lastMatch search lines = none := by
  rw [lastMatch, List.findSome?_eq_none_iff]
  exact fun line hline => h line (List.mem_reverse.mp hline)

theorem foldl_max_lt {n : Nat} {indexed : List (List Char × Nat)}
    (h : ∀ l ∈ indexed, l.2 < n) {last : Int} (hlast : last < n) :
    indexed.foldl (fun last l => max last (l.2 : Int)) last < n := by
  induction indexed generalizing last with
  | nil => exact hlast
  | cons l rest ih =>
    apply ih (fun l hl => h l (by simp [hl]))
    exact max_lt hlast (Int.ofNat_lt.mpr (h l (by simp)))

theorem lastIndex_lt (selected lines : List (List Char)) :
    lastIndex selected lines < lines.length := by
  refine foldl_max_lt ?_ (by omega)
  intro l hl
  have hmem := (List.mem_filter.mp hl).1
  exact (List.mem_zipIdx' hmem).1

theorem lastIndex_concat (selected lines : List (List Char)) (line : List Char) :
    lastIndex selected (lines ++ [line]) =
      if line ∈ selected then (lines.length : Int) else lastIndex selected lines := by
  have hlt := lastIndex_lt selected lines
  rw [lastIndex, List.zipIdx_append, List.filter_append, List.foldl_append]
  split
  · rename_i hmem
    simpa [hmem, lastIndex] using hlt.le
  · rename_i hmem
    simp [hmem, lastIndex]

/-- Lines that are selected by what they contain. -/
theorem lastIndex_filter_append (p : List Char → Bool) (lines more : List (List Char)) :
    lastIndex ((lines ++ more).filter p) lines = lastIndex (lines.filter p) lines := by
  simp only [lastIndex]
  congr 1
  apply List.filter_congr
  intro l hl
  have hmem : l.1 ∈ lines := List.fst_mem_of_mem_zipIdx hl
  simp [hmem]

theorem lastIndex_filter_concat (p : List Char → Bool) (lines : List (List Char))
    (line : List Char) :
    lastIndex ((lines ++ [line]).filter p) (lines ++ [line]) =
      if p line then (lines.length : Int) else lastIndex (lines.filter p) lines := by
  rw [lastIndex_concat, lastIndex_filter_append]
  cases hline : p line <;> simp [hline]

theorem lastIndex_gt_iff (lines : List (List Char)) :
    lastIndex (lines.filter setsVbusOn) lines > lastIndex (lines.filter setsVbusOff) lines ↔
      lastVbusOn lines = true := by
  induction lines using List.reverseRecOn with
  | nil => decide
  | append_singleton lines line ih =>
    have hon := lastIndex_lt (lines.filter setsVbusOn) lines
    have hoff := lastIndex_lt (lines.filter setsVbusOff) lines
    rw [lastIndex_filter_concat, lastIndex_filter_concat, lastVbusOn_concat]
    cases setsVbusOn line <;> cases setsVbusOff line <;> simp <;> omega

/-! ### The verdict -/

theorem showsRole_of_isRoleLine {line : List Char} (h : isRoleLine line = true) :
    showsRole line = true := by
  simp only [isRoleLine, Bool.and_eq_true] at h
  exact h.1.1.2

theorem RolesComplete.filter_isRoleLine (h : RolesComplete digitValue lines) :
    lines.filter isRoleLine = lines.filter showsRole := by
  apply List.filter_congr
  intro line hline
  rw [Bool.eq_iff_iff]
  exact ⟨showsRole_of_isRoleLine, fun hrole => (h line hline hrole).1⟩

theorem RolesComplete.lastMatch (h : RolesComplete digitValue lines) {β : Type}
    {search : List Char → Option β}
    (hsearch : ∀ line ∈ lines, showsRole line = true → (search line).isSome = true) :
    CaptureUart.lastMatch search (lines.filter isRoleLine) = (lastRole lines).bind search := by
  rw [h.filter_isRoleLine, lastMatch_of_all, lastRole]
  intro line hline
  obtain ⟨hmem, hrole⟩ := List.mem_filter.mp hline
  exact hsearch line hmem hrole

theorem NoGpioReadback.lastMatch (h : NoGpioReadback digitValue lines) :
    CaptureUart.lastMatch (searchGpio digitValue) (lines.filter isGpioLine) = none := by
  apply lastMatch_eq_none
  intro line hline
  obtain ⟨hmem, hgpio⟩ := List.mem_filter.mp hline
  exact h line hmem hgpio

theorem vbusEnabled_getD (lines : List (List Char)) :
    (if lines.filter setsVbusOn ≠ [] ∨ lines.filter setsVbusOff ≠ [] then
        some (decide (lastIndex (lines.filter setsVbusOn) lines >
          lastIndex (lines.filter setsVbusOff) lines))
      else none).getD false = lastVbusOn lines := by
  have horder := lastIndex_gt_iff lines
  split
  · rw [Option.getD_some, Bool.eq_iff_iff, decide_eq_true_iff]
    exact horder
  · rename_i hnone
    simp only [not_or, not_not] at hnone
    rw [hnone.1, hnone.2] at horder
    rw [Option.getD_none, eq_comm, ← Bool.not_eq_true, ← horder]
    exact lt_irrefl _

theorem mem_of_lastRole {line : List Char} (h : lastRole lines = some line) :
    line ∈ lines ∧ showsRole line = true :=
  List.mem_filter.mp (List.mem_of_getLast? h)

/-- Behind a last role only that role and the last command of VBUS count. -/
theorem desiredInSummary_eq {text : List Char} (hroles : RolesComplete digitValue (splitlines text))
    (hgpio : NoGpioReadback digitValue (splitlines text)) {line : List Char}
    (hlast : lastRole (splitlines text) = some line) :
    desiredInSummary digitValue text =
      (decide ((parseRoleLine digitValue line).pcbPower = some "SOURCE".toList) &&
        decide ((parseRoleLine digitValue line).pdReady = some 1) &&
        decide ((parseRoleLine digitValue line).pcbData = some "UFP_DEVICE".toList) &&
        lastVbusOn (splitlines text)) := by
  have hpower : parseLastStr ((splitlines text).filter isRoleLine) "pcb_power=" =
      (parseRoleLine digitValue line).pcbPower := by
    have hsearch := hroles.lastMatch fun l hl hrole => (hroles l hl hrole).2.2.1
    rwa [hlast] at hsearch
  have hdata : parseLastStr ((splitlines text).filter isRoleLine) "pcb_data=" =
      (parseRoleLine digitValue line).pcbData := by
    have hsearch := hroles.lastMatch fun l hl hrole => (hroles l hl hrole).2.2.2.1
    rwa [hlast] at hsearch
  have hready : parseLastInt digitValue ((splitlines text).filter isRoleLine) "pd_ready=" =
      (parseRoleLine digitValue line).pdReady := by
    have hsearch := hroles.lastMatch fun l hl hrole => (hroles l hl hrole).2.2.2.2
    rwa [hlast] at hsearch
  obtain ⟨hmem, hrole⟩ := mem_of_lastRole hlast
  obtain ⟨-, -, hsomePower, hsomeData, hsomeReady⟩ := hroles line hmem hrole
  obtain ⟨power, hpower'⟩ := Option.isSome_iff_exists.mp hsomePower
  obtain ⟨data, hdata'⟩ := Option.isSome_iff_exists.mp hsomeData
  obtain ⟨ready, hready'⟩ := Option.isSome_iff_exists.mp hsomeReady
  rw [hpower'] at hpower
  rw [hdata'] at hdata
  rw [hready'] at hready
  have hvbus := vbusEnabled_getD (splitlines text)
  simp only [desiredInSummary, finalRole, hpower, hdata, hready, hgpio.lastMatch, hvbus,
    Option.isSome_some, or_true, if_true, Option.any_some, hpower', hdata', hready',
    Option.some.injEq]

/-! ### Against the other checks -/

theorem lastRoleDesired_iff : lastRoleDesired digitValue lines = true ↔
    ∃ line, lastRole lines = some line ∧ (parseRoleLine digitValue line).isDesired = true := by
  rw [lastRoleDesired, ← lastRole, Option.any_eq_true]

theorem desiredBaselineFromText_fst (text : List Char) :
    (desiredBaselineFromText digitValue text).1 =
      (lastRoleDesired digitValue (splitlines text) && lastVbusOn (splitlines text)) := by
  obtain ⟨hrole, -, -, horder⟩ := finds_foldl digitValue (splitlines text)
  simp only [desiredBaselineFromText, hrole, horder]
  rw [Bool.decide_eq_true]

/-- On a text whose role lines are complete and that shows no pins, `summarize` and
`desired_baseline_from_text` differ in one thing: `summarize` does not look at the state in the
last role. -/
theorem baseline_iff_desiredInSummary (text : List Char)
    (hroles : RolesComplete digitValue (splitlines text))
    (hgpio : NoGpioReadback digitValue (splitlines text)) :
    (desiredBaselineFromText digitValue text).1 = true ↔
      desiredInSummary digitValue text = true ∧
        ∃ line, lastRole (splitlines text) = some line ∧
          (parseRoleLine digitValue line).state = some 2 := by
  rw [desiredBaselineFromText_fst, Bool.and_eq_true, lastRoleDesired_iff]
  constructor
  · rintro ⟨⟨line, hlast, hdesired⟩, hvbus⟩
    simp only [Role.isDesired, decide_eq_true_eq] at hdesired
    obtain ⟨hstate, hpower, hdata, hready⟩ := hdesired
    refine ⟨?_, line, hlast, hstate⟩
    rw [desiredInSummary_eq hroles hgpio hlast, hpower, hdata, hready, hvbus]
    decide
  · rintro ⟨hsummary, line, hlast, hstate⟩
    rw [desiredInSummary_eq hroles hgpio hlast] at hsummary
    simp only [Bool.and_eq_true, decide_eq_true_eq] at hsummary
    obtain ⟨⟨⟨hpower, hready⟩, hdata⟩, hvbus⟩ := hsummary
    refine ⟨⟨line, hlast, ?_⟩, hvbus⟩
    simp only [Role.isDesired, decide_eq_true_eq]
    exact ⟨hstate, hpower, hdata, hready⟩

theorem baseline_iff_desiredInSummary_attached :
    let text := ("MAX77958_DIAG: setting VBUS GPIO4/GPIO5 on\n" ++
      "MAX77958_DIAG: state=2 pcb_power=SOURCE pcb_data=UFP_DEVICE pd_ready=1\n").toList
    (desiredBaselineFromText asciiDigit text).1 = true ↔
      desiredInSummary asciiDigit text = true ∧
        ∃ line, lastRole (splitlines text) = some line ∧
          (parseRoleLine asciiDigit line).state = some 2 :=
  baseline_iff_desiredInSummary _ (by decide +kernel) (by decide +kernel)

/-! ### After a session -/

/-- Of lines that come one by one a stage takes some and leaves the others. -/
theorem consumeFrom_takes (stage : Stage) (status : stage.Status) (lines : List LogLine) :
    let c := consumeFrom id stage [] status (lines.map LogLine.chunk)
    ∃ k, k ≤ lines.length ∧ c.text = joined (lines.take k) ∧
      c.unread = (lines.drop k).map LogLine.chunk := by
  induction lines generalizing status with
  | nil => exact ⟨0, Nat.le_refl 0, rfl, rfl⟩
  | cons line lines ih =>
    have hend : ∀ status', ∃ k, k ≤ (line :: lines).length ∧
        line.chunk ++ (consumeFrom id stage [] status' (lines.map LogLine.chunk)).text =
          joined ((line :: lines).take k) ∧
        (consumeFrom id stage [] status' (lines.map LogLine.chunk)).unread =
          ((line :: lines).drop k).map LogLine.chunk := by
      intro status'
      obtain ⟨k, hk, htext, hunread⟩ := ih status'
      refine ⟨k + 1, Nat.succ_le_succ hk, ?_, hunread⟩
      rw [htext]
      rfl
    by_cases hblank : line.text = []
    · simpa [consumeFrom, lineLoop, cut_chunk, strip_chunk, hblank] using hend status
    · cases hcall : stage.callback status line.text with
      | mk status' stop =>
        cases stop with
        | false =>
          simpa [consumeFrom, lineLoop, cut_chunk, strip_chunk, hblank, hcall] using hend status'
        | true =>
          refine ⟨1, by simp, ?_, ?_⟩ <;>
            simp [consumeFrom, lineLoop, cut_chunk, strip_chunk, hblank, hcall, joined]

theorem lastRoleDesired_append {before : List (List Char)}
    (h : lastRoleDesired digitValue lines = true) :
    lastRoleDesired digitValue (before ++ lines) = true := by
  obtain ⟨line, hlast, hdesired⟩ := lastRoleDesired_iff.mp h
  refine lastRoleDesired_iff.mpr ⟨line, ?_, hdesired⟩
  rw [lastRole] at hlast ⊢
  rw [List.filter_append, List.getLast?_append, hlast]
  rfl

/-- A wait for the reattach that succeeds ends behind the desired role. -/
theorem reattach_lines {lines : List LogLine}
    (hok : (consumeUartLines id (waitForReattach digitValue) (lines.map LogLine.chunk)).ok = true) :
    ∃ k, k ≤ lines.length ∧
      (consumeUartLines id (waitForReattach digitValue) (lines.map LogLine.chunk)).text =
        joined (lines.take k) ∧
      (consumeUartLines id (waitForReattach digitValue) (lines.map LogLine.chunk)).unread =
        (lines.drop k).map LogLine.chunk ∧
      lastRoleDesired digitValue ((lines.take k).map LogLine.text) = true := by
  have hstart : Remembers digitValue ⟨false, false, none⟩ [] := ⟨rfl, rfl⟩
  obtain ⟨n, hlength, hseen, -⟩ := (reattach_run hstart not_attachSeen_nil lines).1 hok
  obtain ⟨k, hk, htext, hunread⟩ :=
    consumeFrom_takes (waitForReattach digitValue) ⟨false, false, none⟩ lines
  have hkn : k = n + 1 := by
    rw [hunread, List.length_map, List.length_drop] at hlength
    omega
  subst hkn
  exact ⟨n + 1, hk, htext, hunread, hseen.1⟩

theorem joined_take_add (lines : List LogLine) (m n : Nat) :
    joined (lines.take (m + n)) = joined (lines.take m) ++ joined ((lines.drop m).take n) := by
  rw [List.take_add, joined, List.flatMap_append]
  rfl

/-- What a part of the session leaves in the text, if it ends well. -/
def EndsDesired (digitValue : Char → Option Nat) (lines : List LogLine) (text : List Char) : Prop :=
  ∃ k, k ≤ lines.length ∧ text = joined (lines.take k) ∧
    lastRoleDesired digitValue ((lines.take k).map LogLine.text) = true

theorem EndsDesired.behind {lines : List LogLine} {k : Nat} {text : List Char}
    (hk : k ≤ lines.length) (h : EndsDesired digitValue (lines.drop k) text) :
    EndsDesired digitValue lines (joined (lines.take k) ++ text) := by
  obtain ⟨n, hn, rfl, hdesired⟩ := h
  rw [List.length_drop] at hn
  refine ⟨k + n, by omega, (joined_take_add lines k n).symm, ?_⟩
  rw [List.take_add, List.map_append]
  exact lastRoleDesired_append hdesired

theorem interactiveCycles_lines {cycles : Nat} {lines : List LogLine}
    (hexit : (interactiveCycles digitValue id cycles (lines.map LogLine.chunk)).exitCode = 0) :
    (interactiveCycles digitValue id cycles (lines.map LogLine.chunk)).text = [] ∨
      EndsDesired digitValue lines
        (interactiveCycles digitValue id cycles (lines.map LogLine.chunk)).text := by
  induction cycles generalizing lines with
  | zero => exact Or.inl rfl
  | succ cycles ih =>
    right
    obtain ⟨k, hk, hdetach, hunread⟩ := consumeFrom_takes (waitForDetach digitValue)
      (waitForDetach digitValue).start lines
    simp only [interactiveCycles, consumeUartLines, hdetach, hunread] at hexit ⊢
    split at hexit
    · cases hexit
    · split at hexit
      · cases hexit
      · rename_i hok hreattach
        rw [if_neg hok, if_neg hreattach, List.append_assoc]
        apply EndsDesired.behind hk
        obtain ⟨n, hn, hattach, hrest, hdesired⟩ := reattach_lines (not_not.mp hreattach)
        simp only [consumeUartLines] at hattach hrest
        rw [hrest] at hexit ⊢
        rw [hattach]
        rcases ih hexit with hnone | hends
        · rw [hnone, List.append_nil]
          exact ⟨n, hn, rfl, hdesired⟩
        · exact EndsDesired.behind hn hends

theorem runInteractiveCycles_lines {cycles : Nat} {lines : List LogLine}
    (hexit : (runInteractiveCycles digitValue id cycles (lines.map LogLine.chunk)).exitCode = 0) :
    EndsDesired digitValue lines
      (runInteractiveCycles digitValue id cycles (lines.map LogLine.chunk)).text := by
  obtain ⟨k, hk, hstartup, hunread⟩ := consumeFrom_takes waitForStartup waitForStartup.start lines
  simp only [runInteractiveCycles, consumeUartLines, hstartup, hunread, List.map_id] at hexit ⊢
  split at hexit
  · cases hexit
  · rename_i hok
    rw [if_neg hok]
    split at hexit
    · rename_i hbaseline
      rw [if_pos hbaseline]
      rw [desiredBaselineFromText_fst, splitlines_joined, Bool.and_eq_true] at hbaseline
      rcases interactiveCycles_lines hexit with hnone | hends
      · rw [hnone, List.append_nil]
        exact ⟨k, hk, rfl, hbaseline.1⟩
      · exact EndsDesired.behind hk hends
    · rename_i hbaseline
      split at hexit
      · cases hexit
      · rename_i hreattach
        rw [if_neg hbaseline, if_neg hreattach, List.append_assoc]
        apply EndsDesired.behind hk
        obtain ⟨n, hn, hattach, hrest, hdesired⟩ := reattach_lines (not_not.mp hreattach)
        simp only [consumeUartLines] at hattach hrest
        rw [hrest] at hexit ⊢
        rw [hattach]
        rcases interactiveCycles_lines hexit with hnone | hends
        · rw [hnone, List.append_nil]
          exact ⟨n, hn, rfl, hdesired⟩
        · exact EndsDesired.behind hn hends

/-- A session that succeeds on lines that come one by one has ended behind the desired role. What
`summarize` then says is the last command of VBUS in the text: it is `no` where the command
came before an `off` in the last wait. -/
theorem session_shows_last_command {cycles : Nat} {lines : List LogLine}
    (hroles : RolesComplete digitValue (lines.map LogLine.text))
    (hgpio : NoGpioReadback digitValue (lines.map LogLine.text))
    (hexit : (runInteractiveCycles digitValue id cycles (lines.map LogLine.chunk)).exitCode = 0) :
    let text := (runInteractiveCycles digitValue id cycles (lines.map LogLine.chunk)).text
    desiredInSummary digitValue text = lastVbusOn (splitlines text) := by
  obtain ⟨k, -, htext, hdesired⟩ := runInteractiveCycles_lines hexit
  have hsplit : splitlines (joined (lines.take k)) = (lines.map LogLine.text).take k := by
    rw [splitlines_joined, List.map_take]
  obtain ⟨line, hlast, hrole⟩ := lastRoleDesired_iff.mp hdesired
  rw [List.map_take, ← hsplit] at hlast
  intro text
  have htaken : text = joined (lines.take k) := htext
  rw [htaken, desiredInSummary_eq _ _ hlast]
  · simp only [Role.isDesired, decide_eq_true_eq] at hrole
    obtain ⟨-, hpower, hdata, hready⟩ := hrole
    simp [hpower, hdata, hready]
  · intro l hl
    rw [hsplit] at hl
    exact hroles l (List.mem_of_mem_take hl)
  · intro l hl
    rw [hsplit] at hl
    exact hgpio l (List.mem_of_mem_take hl)

/-- The log of one cycle. -/
def cycleLog : List LogLine :=
  [⟨"on_start complete".toList, unbroken_of_all (by decide +kernel), by decide +kernel⟩,
    ⟨"MAX77958_DIAG: setting VBUS GPIO4/GPIO5 on".toList, unbroken_of_all (by decide +kernel),
      by decide +kernel⟩,
    ⟨"MAX77958_DIAG: state=2 pcb_power=SOURCE pcb_data=UFP_DEVICE pd_ready=1".toList,
      unbroken_of_all (by decide +kernel), by decide +kernel⟩,
    ⟨"MAX77958_DIAG: setting VBUS GPIO4/GPIO5 off".toList, unbroken_of_all (by decide +kernel),
      by decide +kernel⟩,
    ⟨"MAX77958_DIAG: state=0 pcb_power=UNKNOWN pcb_data=UNKNOWN pd_ready=0".toList,
      unbroken_of_all (by decide +kernel), by decide +kernel⟩,
    ⟨"MAX77958_DIAG: setting VBUS GPIO4/GPIO5 on".toList, unbroken_of_all (by decide +kernel),
      by decide +kernel⟩,
    ⟨"MAX77958_DIAG: state=2 pcb_power=SOURCE pcb_data=UFP_DEVICE pd_ready=1".toList,
      unbroken_of_all (by decide +kernel), by decide +kernel⟩]

theorem session_shows_last_command_cycle :
    let text := (runInteractiveCycles asciiDigit id 1 (cycleLog.map LogLine.chunk)).text
    desiredInSummary asciiDigit text = lastVbusOn (splitlines text) :=
  session_shows_last_command (by decide +kernel) (by decide +kernel) (by decide +kernel)

end

end SrFirmware.CaptureUart
