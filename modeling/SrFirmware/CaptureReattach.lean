import Mathlib.Order.Bounds.Basic
import Mathlib.Order.Nat
import SrFirmware.CaptureStages

/-!
# The two attach checks of the capture tool

`wait_for_reattach` remembers one line after the other, `desired_baseline_from_text` looks for
the last ones in a whole text. Both agree on the role and not on VBUS.
-/

namespace SrFirmware.CaptureUart

open Lib.Lines
set_option autoImplicit false

/-- A line of the log, complete and stripped. -/
structure LogLine where
  text : List Char
  unbroken : ∀ c ∈ text, (charKind c).breaks = false
  stripped : strip charKind text = text

def LogLine.chunk (line : LogLine) : List Char := line.text ++ ['\n']

def joined (lines : List LogLine) : List Char := lines.flatMap LogLine.chunk

def setsVbusOn (line : List Char) : Bool :=
  contains "MAX77958_DIAG: setting VBUS GPIO4/GPIO5 on" line

def setsVbusOff (line : List Char) : Bool :=
  contains "MAX77958_DIAG: setting VBUS GPIO4/GPIO5 off" line

def showsRole (line : List Char) : Bool := contains " pcb_power=" line

section
variable (digitValue : Char → Option Nat)

/-- The line with which `wait_for_reattach` reports success, if each line comes by itself. -/
def reattachedAt (lines : List LogLine) : Option Nat :=
  let c := consumeUartLines id (waitForReattach digitValue) (lines.map LogLine.chunk)
  if c.ok then some (lines.length - 1 - c.unread.length) else none

/-- What `desired_baseline_from_text` says of the first lines. -/
def baselineOf (lines : List LogLine) : Bool :=
  (desiredBaselineFromText digitValue (joined lines)).1

/-! ### What a log shows -/

def lastRoleDesired (lines : List (List Char)) : Bool :=
  (lines.filter showsRole).getLast?.any fun line => (parseRoleLine digitValue line).isDesired

def vbusOnSeen (lines : List (List Char)) : Bool := lines.any setsVbusOn

/-- The last command is on. A line with both commands switches off. -/
def lastVbusOn (lines : List (List Char)) : Bool :=
  (lines.filter fun line => setsVbusOn line || setsVbusOff line).getLast?.any fun line =>
    !setsVbusOff line

/-- The last role is the desired one, and VBUS has been switched on. -/
def AttachSeen (lines : List LogLine) : Prop :=
  lastRoleDesired digitValue (lines.map LogLine.text) = true ∧
    vbusOnSeen (lines.map LogLine.text) = true

end

section
variable {digitValue : Char → Option Nat}

theorem lastRoleDesired_concat (lines : List (List Char)) (line : List Char) :
    lastRoleDesired digitValue (lines ++ [line]) =
      if showsRole line then (parseRoleLine digitValue line).isDesired
      else lastRoleDesired digitValue lines := by
  simp only [lastRoleDesired, List.filter_append, List.filter_singleton]
  cases showsRole line <;> simp

theorem vbusOnSeen_concat (lines : List (List Char)) (line : List Char) :
    vbusOnSeen (lines ++ [line]) = (vbusOnSeen lines || setsVbusOn line) := by
  simp [vbusOnSeen]

theorem lastVbusOn_concat (lines : List (List Char)) (line : List Char) :
    lastVbusOn (lines ++ [line]) =
      if setsVbusOff line then false else if setsVbusOn line then true else lastVbusOn lines := by
  simp only [lastVbusOn, List.filter_append, List.filter_singleton]
  cases hon : setsVbusOn line <;> cases hoff : setsVbusOff line <;> simp [hoff]

theorem vbusOnSeen_of_lastVbusOn {lines : List (List Char)} (h : lastVbusOn lines = true) :
    vbusOnSeen lines = true := by
  induction lines using List.reverseRecOn with
  | nil => cases h
  | append_singleton lines line ih =>
    rw [lastVbusOn_concat] at h
    rw [vbusOnSeen_concat, Bool.or_eq_true]
    split at h
    · cases h
    · split at h
      · rename_i hon
        exact Or.inr hon
      · exact Or.inl (ih h)

/-! ### Line by line -/

/-- What the callback remembers after some lines. -/
structure Remembers (digitValue : Char → Option Nat) (status : AttachStatus)
    (lines : List LogLine) : Prop where
  on : status.vbusOn = vbusOnSeen (lines.map LogLine.text)
  role : status.desired = lastRoleDesired digitValue (lines.map LogLine.text)

theorem sawDesired_vbusOn (status : AttachStatus) (line : List Char) :
    (sawDesired digitValue status line).1.vbusOn = (status.vbusOn || setsVbusOn line) := by
  unfold sawDesired setsVbusOn
  cases contains "MAX77958_DIAG: setting VBUS GPIO4/GPIO5 on" line <;>
    cases contains " pcb_power=" line <;> simp

theorem sawDesired_desired (status : AttachStatus) (line : List Char) :
    (sawDesired digitValue status line).1.desired =
      if showsRole line then (parseRoleLine digitValue line).isDesired else status.desired := by
  unfold sawDesired showsRole
  cases contains "MAX77958_DIAG: setting VBUS GPIO4/GPIO5 on" line <;>
    cases contains " pcb_power=" line <;> simp

theorem Remembers.sawDesired {status : AttachStatus} {lines : List LogLine}
    (h : Remembers digitValue status lines) (line : LogLine) :
    Remembers digitValue (CaptureUart.sawDesired digitValue status line.text).1
      (lines ++ [line]) := by
  constructor
  · rw [List.map_append, List.map_singleton, vbusOnSeen_concat, ← h.on, sawDesired_vbusOn]
  · rw [List.map_append, List.map_singleton, lastRoleDesired_concat, ← h.role,
      sawDesired_desired]

theorem Remembers.attachSeen_iff {status : AttachStatus} {lines : List LogLine}
    (h : Remembers digitValue status lines) :
    AttachSeen digitValue lines ↔ (status.desired && status.vbusOn) = true := by
  rw [AttachSeen, ← h.on, ← h.role, Bool.and_eq_true]

theorem cut_chunk (line : LogLine) : cut charKind line.chunk = ([line.chunk], []) := by
  have hone : splitLines charKind ([line.text].flatMap (· ++ ['\n'])) =
      [line.text].map (· ++ ['\n']) := splitLines_flatMap (by simpa using line.unbroken) rfl
  have hsplit : splitLines charKind line.chunk = [] ++ [line.text ++ ['\n']] := by
    simpa [LogLine.chunk] using hone
  rw [cut_concat hsplit, terminated_concat]
  rfl

theorem strip_chunk (line : LogLine) : strip charKind line.chunk = line.text := by
  rw [LogLine.chunk, strip_concat_blank _ (by decide), line.stripped]

/-- A line by itself is handed on unless it is blank. -/
theorem consumeFrom_chunk (stage : Stage) (status : stage.Status) (line : LogLine)
    (chunks : List (List Char)) :
    let c := consumeFrom id stage [] status (line.chunk :: chunks)
    let next := if line.text = [] then (status, false) else stage.callback status line.text
    let rest := consumeFrom id stage [] next.1 chunks
    (next.2 = true → c.ok = true ∧ c.unread = chunks) ∧
      (next.2 = false → c.ok = rest.ok ∧ c.unread = rest.unread) := by
  by_cases hblank : line.text = []
  · simp [consumeFrom, lineLoop, cut_chunk, strip_chunk, hblank]
  · cases hcall : stage.callback status line.text with
    | mk status' stop =>
      cases stop <;>
        simp [consumeFrom, lineLoop, cut_chunk, strip_chunk, hblank, hcall]

theorem remembers_blank {status : AttachStatus} {lines : List LogLine}
    (h : Remembers digitValue status lines) {line : LogLine} (hblank : line.text = []) :
    Remembers digitValue status (lines ++ [line]) := by
  have hon : setsVbusOn [] = false := by decide +kernel
  have hrole : showsRole [] = false := by decide +kernel
  constructor
  · rw [List.map_append, List.map_singleton, vbusOnSeen_concat, ← h.on, hblank, hon,
      Bool.or_false]
  · rw [List.map_append, List.map_singleton, lastRoleDesired_concat, ← h.role, hblank, hrole]
    rfl

/-- One more line: either it is the one that the stage waits for, or the stage goes on. -/
theorem reattach_step {before : List LogLine} {status : AttachStatus}
    (h : Remembers digitValue status before) (hbefore : ¬ AttachSeen digitValue before)
    (line : LogLine) (chunks : List (List Char)) :
    let c := consumeFrom id (waitForReattach digitValue) [] status (line.chunk :: chunks)
    (AttachSeen digitValue (before ++ [line]) ∧ c.ok = true ∧ c.unread = chunks) ∨
      ¬ AttachSeen digitValue (before ++ [line]) ∧
        ∃ status', Remembers digitValue status' (before ++ [line]) ∧
          c.ok = (consumeFrom id (waitForReattach digitValue) [] status' chunks).ok ∧
          c.unread = (consumeFrom id (waitForReattach digitValue) [] status' chunks).unread := by
  obtain ⟨hstop, hgo⟩ := consumeFrom_chunk (waitForReattach digitValue) status line chunks
  by_cases hblank : line.text = []
  · have hnext := remembers_blank h hblank
    rw [if_pos hblank] at hgo
    right
    rw [hnext.attachSeen_iff, ← h.attachSeen_iff]
    exact ⟨hbefore, status, hnext, hgo rfl⟩
  · have hnext := h.sawDesired line
    rw [if_neg hblank] at hstop hgo
    rw [hnext.attachSeen_iff]
    cases hsaw : (sawDesired digitValue status line.text).2 with
    | true => exact Or.inl ⟨hsaw, hstop hsaw⟩
    | false => exact Or.inr ⟨Bool.not_eq_true _ |>.mpr hsaw, _, hnext, hgo hsaw⟩

/-- The stage ends with the first line that it waits for. -/
theorem reattach_run {before : List LogLine} {status : AttachStatus}
    (h : Remembers digitValue status before) (hbefore : ¬ AttachSeen digitValue before)
    (lines : List LogLine) :
    let c := consumeFrom id (waitForReattach digitValue) [] status (lines.map LogLine.chunk)
    (c.ok = true → ∃ n, lines.length = n + 1 + c.unread.length ∧
        AttachSeen digitValue (before ++ lines.take (n + 1)) ∧
        ∀ m ≤ n, ¬ AttachSeen digitValue (before ++ lines.take m)) ∧
      (c.ok = false → ∀ m, ¬ AttachSeen digitValue (before ++ lines.take m)) := by
  induction lines generalizing before status with
  | nil =>
    refine ⟨fun hok => (by cases hok), fun _ m => ?_⟩
    rwa [List.take_nil, List.append_nil]
  | cons line lines ih =>
    rcases reattach_step h hbefore line (lines.map LogLine.chunk) with
      ⟨hseen, hok, hunread⟩ | ⟨hnot, status', hnext, hok, hunread⟩
    · refine ⟨fun _ => ⟨0, ?_, hseen, ?_⟩, fun hfail => ?_⟩
      · rw [List.map_cons, hunread, List.length_map, List.length_cons]
        omega
      · intro m hm
        rw [Nat.le_zero.mp hm, List.take_zero, List.append_nil]
        exact hbefore
      · rw [List.map_cons, hok] at hfail
        cases hfail
    · obtain ⟨ihok, ihfail⟩ := ih hnext hnot
      simp only [List.append_assoc, List.singleton_append] at ihok ihfail
      have hshift : ∀ n, (∀ m ≤ n, ¬ AttachSeen digitValue (before ++ line :: lines.take m)) →
          ∀ m ≤ n + 1, ¬ AttachSeen digitValue (before ++ (line :: lines).take m) := by
        intro n hn m hm
        cases m with
        | zero => rwa [List.take_zero, List.append_nil]
        | succ m => exact hn m (Nat.le_of_succ_le_succ hm)
      rw [List.map_cons]
      dsimp only
      rw [hok, hunread]
      refine ⟨fun hend => ?_, fun hfail m => ?_⟩
      · obtain ⟨n, hlength, hseen, hfirst⟩ := ihok hend
        refine ⟨n + 1, ?_, hseen, hshift n hfirst⟩
        rw [List.length_cons, hlength]
        omega
      · exact hshift m (fun m _ => ihfail hfail m) m (Nat.le_succ m)

theorem not_attachSeen_nil : ¬ AttachSeen digitValue [] := fun h => by cases h.1

theorem reattachedAt_iff (lines : List LogLine) (k : Nat) :
    reattachedAt digitValue lines = some k ↔
      IsLeast { k | k < lines.length ∧ AttachSeen digitValue (lines.take (k + 1)) } k := by
  have hstart : Remembers digitValue ⟨false, false, none⟩ [] := ⟨rfl, rfl⟩
  obtain ⟨hok, hfail⟩ := reattach_run hstart not_attachSeen_nil lines
  cases hcase : (consumeUartLines id (waitForReattach digitValue)
      (lines.map LogLine.chunk)).ok with
  | false =>
    rw [reattachedAt, hcase]
    constructor
    · intro h
      cases h
    · rintro ⟨⟨-, hseen⟩, -⟩
      exact absurd hseen (hfail hcase (k + 1))
  | true =>
    obtain ⟨n, hlength, hseen, hfirst⟩ := hok hcase
    have hat : reattachedAt digitValue lines = some n := by
      simp only [reattachedAt, hcase, if_true, Option.some.injEq]
      simp only [consumeUartLines, waitForReattach] at hlength ⊢
      omega
    have hleast : IsLeast
        { k | k < lines.length ∧ AttachSeen digitValue (lines.take (k + 1)) } n := by
      refine ⟨⟨by omega, hseen⟩, fun m hm => ?_⟩
      by_contra hlt
      exact hfirst (m + 1) (by omega) hm.2
    rw [hat, Option.some.injEq]
    constructor
    · rintro rfl
      exact hleast
    · exact hleast.unique

/-! ### The whole text -/

/-- What the loop over the whole text knows after some lines. -/
structure Finds (digitValue : Char → Option Nat) (b : Baseline)
    (lines : List (List Char)) : Prop where
  role : b.status.desired = lastRoleDesired digitValue lines
  onBound : b.lastOnIndex < lines.length
  offBound : b.lastOffIndex < lines.length
  order : b.lastOnIndex > b.lastOffIndex ↔ lastVbusOn lines = true

theorem baselineLine_eq (b : Baseline) (line : List Char) (index : Nat) :
    baselineLine digitValue b (line, index) =
      { lastOnIndex := if setsVbusOn line then index else b.lastOnIndex
        lastOffIndex := if setsVbusOff line then index else b.lastOffIndex
        status := { b.status with
          lastRole := if showsRole line then some line else b.status.lastRole
          desired := if showsRole line then (parseRoleLine digitValue line).isDesired
            else b.status.desired } } := by
  simp only [baselineLine, setsVbusOn, setsVbusOff, showsRole]
  split_ifs with hrole hoff hon <;> simp [*]

theorem Finds.baselineLine {b : Baseline} {lines : List (List Char)}
    (h : Finds digitValue b lines) (line : List Char) :
    Finds digitValue (CaptureUart.baselineLine digitValue b (line, lines.length))
      (lines ++ [line]) := by
  obtain ⟨hrole, hon, hoff, horder⟩ := h
  rw [baselineLine_eq]
  constructor
  · rw [lastRoleDesired_concat, ← hrole]
  · simp only [List.length_append, List.length_singleton]
    split <;> omega
  · simp only [List.length_append, List.length_singleton]
    split <;> omega
  · rw [lastVbusOn_concat]
    cases setsVbusOn line <;> cases setsVbusOff line <;> simp <;> omega

variable (digitValue) in
theorem finds_foldl (lines : List (List Char)) :
    Finds digitValue (lines.zipIdx.foldl (baselineLine digitValue) ⟨⟨false, false, none⟩, -1, -1⟩)
      lines := by
  induction lines using List.reverseRecOn with
  | nil =>
    have hless : (-1 : Int) < 0 := by decide
    exact ⟨rfl, hless, hless, iff_of_false (Int.lt_irrefl _) Bool.false_ne_true⟩
  | append_singleton lines line ih =>
    rw [List.zipIdx_append, List.foldl_append]
    simpa using ih.baselineLine line

theorem splitlines_joined (lines : List LogLine) :
    splitlines (joined lines) = lines.map LogLine.text := by
  have hsplit : splitLines charKind ((lines.map LogLine.text).flatMap (· ++ ['\n'])) =
      (lines.map LogLine.text).map (· ++ ['\n']) :=
    splitLines_flatMap (by simpa using fun line _ => line.unbroken) rfl
  have htext : joined lines = (lines.map LogLine.text).flatMap (· ++ ['\n']) := by
    rw [List.flatMap_map]
    rfl
  rw [splitlines, htext, hsplit, List.map_map, List.map_map]
  refine List.map_congr_left fun line _ => ?_
  rw [Function.comp_apply, Function.comp_apply, List.rdropWhile_concat_pos _ _ _ (by decide),
    List.rdropWhile_eq_self_iff]
  intro hne
  rw [line.unbroken _ (List.getLast_mem hne)]
  exact Bool.false_ne_true

theorem baselineOf_eq (lines : List LogLine) :
    baselineOf digitValue lines = (lastRoleDesired digitValue (lines.map LogLine.text) &&
      lastVbusOn (lines.map LogLine.text)) := by
  obtain ⟨hrole, -, -, horder⟩ := finds_foldl digitValue (lines.map LogLine.text)
  rw [← splitlines_joined] at hrole horder
  simp only [baselineOf, desiredBaselineFromText, hrole, horder]
  rw [splitlines_joined, Bool.decide_eq_true]

/-- How the lines come makes no difference to the stage. -/
theorem reattach_of_reads (lines : List LogLine) {chunks : List (List Char)}
    (h : chunks.flatten = joined lines) :
    (consumeUartLines id (waitForReattach digitValue) chunks).ok =
      (reattachedAt digitValue lines).isSome := by
  have hsame : chunks.flatten = (lines.map LogLine.chunk).flatten := h
  rw [(consumeUartLines_congr id (waitForReattach digitValue) hsame).2, reattachedAt]
  split
  · rename_i hok
    exact hok
  · rename_i hok
    exact Bool.not_eq_true _ |>.mp hok

/-- The two checks agree if and only if VBUS is on at the first line at which the last role is
the desired one and VBUS has been switched on. -/
theorem reattach_agrees_iff_last_command_on (lines : List LogLine) :
    (∀ k, reattachedAt digitValue lines = some k ↔
        IsLeast { k | k < lines.length ∧ baselineOf digitValue (lines.take (k + 1)) = true } k) ↔
      ∀ k, IsLeast { k | k < lines.length ∧ AttachSeen digitValue (lines.take (k + 1)) } k →
        lastVbusOn ((lines.take (k + 1)).map LogLine.text) = true := by
  have hseen : ∀ taken, baselineOf digitValue taken = true ↔
      AttachSeen digitValue taken ∧ lastVbusOn (taken.map LogLine.text) = true := by
    intro taken
    rw [baselineOf_eq, Bool.and_eq_true, AttachSeen]
    constructor
    · exact fun h => ⟨⟨h.1, vbusOnSeen_of_lastVbusOn h.2⟩, h.2⟩
    · exact fun h => ⟨h.1.1, h.2⟩
  simp only [reattachedAt_iff, hseen]
  constructor
  · exact fun h k hk => ((h k).mp hk).1.2.2
  · intro h k
    constructor
    · intro hk
      exact ⟨⟨hk.1.1, hk.1.2, h k hk⟩, fun m hm => hk.2 ⟨hm.1, hm.2.1⟩⟩
    · -- the least line of the first kind is one of the second
      intro hk
      obtain ⟨n, hn⟩ : ∃ n, IsLeast
          { k | k < lines.length ∧ AttachSeen digitValue (lines.take (k + 1)) } n := by
        classical
        exact ⟨_, Nat.isLeast_find ⟨k, hk.1.1, hk.1.2.1⟩⟩
      have hkn : k ≤ n := hk.2 ⟨hn.1.1, hn.1.2, h n hn⟩
      have hnk : n ≤ k := hn.2 ⟨hk.1.1, hk.1.2.1⟩
      rwa [Nat.le_antisymm hkn hnk]

theorem unbroken_of_all {text : List Char}
    (h : text.all (fun c => (charKind c).breaks = false) = true) :
    ∀ c ∈ text, (charKind c).breaks = false := by simpa using h

/-- VBUS is switched on, then off, and the desired role comes last. -/
theorem reattach_forgets_vbus_off :
    ∃ lines : List LogLine,
      lines.map LogLine.text =
        ["MAX77958_DIAG: setting VBUS GPIO4/GPIO5 on".toList,
          "MAX77958_DIAG: setting VBUS GPIO4/GPIO5 off".toList,
          "state=2 pcb_power=SOURCE pcb_data=UFP_DEVICE pd_ready=1".toList] ∧
      reattachedAt asciiDigit lines = some 2 ∧ baselineOf asciiDigit lines = false :=
  ⟨[⟨_, unbroken_of_all (by decide +kernel), by decide +kernel⟩,
      ⟨_, unbroken_of_all (by decide +kernel), by decide +kernel⟩,
      ⟨_, unbroken_of_all (by decide +kernel), by decide +kernel⟩],
    rfl, by decide +kernel, by decide +kernel⟩

end

end SrFirmware.CaptureUart
