import Mathlib.Data.List.Sigma
import SrFirmware.CaptureUart

/-!
# Stages of the capture tool on one stream

A stage returns from the middle of a chunk, and the next one begins with the next chunk. What
lies between is lost.
-/

namespace SrFirmware.CaptureUart

open Lib.Lines
set_option autoImplicit false

section
variable {α : Type} (char : α → Char)

/-- The lines that a stage takes from a list of lines, and those it leaves. -/
def Stage.offer (stage : Stage) (status : stage.Status) :
    List (List α) → LoopResult stage.Status α
  | [] => ⟨status, [], false, []⟩
  | line :: rest =>
    let (status, stop) := stage.callback status (line.map char)
    if stop then ⟨status, [line], true, rest⟩
    else
      let r := stage.offer status rest
      { r with handed := line :: r.handed }

/-- What a succession of stages hands to its callbacks. -/
def runStages : List Stage → List (List α) → List (List α)
  | [], _ => []
  | stage :: stages, chunks =>
    let c := consumeUartLines char stage chunks
    c.handed ++ runStages stages c.unread

/-- What it should hand to them: the lines one after the other. -/
def offerStages : List Stage → List (List α) → List (List α)
  | [], _ => []
  | stage :: stages, lines =>
    let r := stage.offer char stage.start lines
    r.handed ++ offerStages stages r.left

/-- With how many lines the stages end that are followed by another. -/
def stageEnds : List Stage → List (List α) → List Nat
  | stage :: next :: stages, lines =>
    let r := stage.offer char stage.start lines
    if r.ended then
      r.handed.length :: (stageEnds (next :: stages) r.left).map (r.handed.length + ·)
    else []
  | _, _ => []

/-- One of the reads ends behind the first `n` lines and in front of the next one. -/
def ReadEndsBehind (chunks : List (List α)) (n : Nat) : Prop :=
  ∃ read, read <+: chunks ∧ n ≤ (lines (charKind ∘ char) read.flatten).length ∧
    ∀ c ∈ (lines (charKind ∘ char) chunks.flatten).getD n [], c ∉ read.flatten

end

section
variable {α : Type} {char : α → Char} {stage : Stage}

/-! ### One chunk -/

theorem offer_append_of_ended {status : stage.Status} {a : List (List α)}
    (h : (stage.offer char status a).ended = true) (b : List (List α)) :
    stage.offer char status (a ++ b) =
      { stage.offer char status a with left := (stage.offer char status a).left ++ b } := by
  induction a generalizing status with
  | nil => cases h
  | cons line a ih =>
    rw [List.cons_append]
    cases hcall : stage.callback status (line.map char) with
    | mk status' stop =>
      cases stop with
      | true => simp [Stage.offer, hcall]
      | false =>
        have hrest : (stage.offer char status' a).ended = true := by
          simpa [Stage.offer, hcall] using h
        simp [Stage.offer, hcall, ih hrest]

theorem offer_append_of_not_ended {status : stage.Status} {a : List (List α)}
    (h : (stage.offer char status a).ended = false) (b : List (List α)) :
    stage.offer char status (a ++ b) =
      let r := stage.offer char (stage.offer char status a).status b
      { r with handed := (stage.offer char status a).handed ++ r.handed } := by
  induction a generalizing status with
  | nil => rfl
  | cons line a ih =>
    rw [List.cons_append]
    cases hcall : stage.callback status (line.map char) with
    | mk status' stop =>
      cases stop with
      | true => simp [Stage.offer, hcall] at h
      | false =>
        have hrest : (stage.offer char status' a).ended = false := by
          simpa [Stage.offer, hcall] using h
        simp [Stage.offer, hcall, ih hrest]

theorem offer_left_of_not_ended (status : stage.Status) (lines : List (List α))
    (h : (stage.offer char status lines).ended = false) :
    (stage.offer char status lines).left = [] := by
  induction lines generalizing status with
  | nil => rfl
  | cons line lines ih =>
    rw [Stage.offer] at h ⊢
    cases hcall : stage.callback status (line.map char) with
    | mk status' stop =>
      rw [hcall] at h
      cases stop with
      | true => cases h
      | false => exact ih status' h

variable (char) in
theorem offer_handed_append_left (status : stage.Status) (lines : List (List α)) :
    (stage.offer char status lines).handed ++ (stage.offer char status lines).left = lines := by
  induction lines generalizing status with
  | nil => rfl
  | cons line lines ih =>
    rw [Stage.offer]
    cases stage.callback status (line.map char) with
    | mk status' stop =>
      cases stop with
      | true => rfl
      | false => exact congrArg _ (ih status')

/-- The first line is taken in any case. -/
theorem mem_offer_cons (status : stage.Status) (line : List α) (rest : List (List α)) :
    line ∈ (stage.offer char status (line :: rest)).handed := by
  rw [Stage.offer]
  cases stage.callback status (line.map char) with
  | mk status' stop => cases stop <;> exact List.mem_cons_self

theorem offer_handed_ne_nil {status : stage.Status} {lines : List (List α)}
    (h : (stage.offer char status lines).ended = true) :
    (stage.offer char status lines).handed ≠ [] := by
  cases lines with
  | nil => cases h
  | cons line lines => exact List.ne_nil_of_mem (mem_offer_cons status line lines)

variable (char) in
/-- The loop over raw lines hands on the stripped ones that are not blank. -/
theorem lineLoop_eq_offer (status : stage.Status) (rawLines : List (List α)) :
    let r := lineLoop char stage status rawLines
    let o := stage.offer char status (inked (charKind ∘ char) rawLines)
    r.status = o.status ∧ r.handed = o.handed ∧ r.ended = o.ended ∧
      inked (charKind ∘ char) r.left = o.left := by
  induction rawLines generalizing status with
  | nil => exact ⟨rfl, rfl, rfl, rfl⟩
  | cons rawLine rest ih =>
    by_cases hblank : Blank (charKind ∘ char) rawLine
    · have hempty : (strip (charKind ∘ char) rawLine).isEmpty = true := by
        rw [strip_eq_nil_iff.mpr hblank]
        rfl
      simp only [lineLoop, hempty, if_true, inked_cons_of_blank hblank]
      exact ih status
    · have hempty : (strip (charKind ∘ char) rawLine).isEmpty = false := by
        rw [List.isEmpty_eq_false_iff]
        exact fun h => hblank (strip_eq_nil_iff.mp h)
      rw [inked_cons_of_not_blank hblank]
      cases hcall : stage.callback status ((strip (charKind ∘ char) rawLine).map char) with
      | mk status' stop =>
        cases stop with
        | true => simp [lineLoop, Stage.offer, hempty, hcall]
        | false =>
          obtain ⟨hstatus, hhanded, hended, hleft⟩ := ih status'
          simp [lineLoop, Stage.offer, hempty, hcall, hstatus, hhanded, hended, hleft]

variable (char) in
theorem lineLoop_handed (status : stage.Status) (rawLines : List (List α)) :
    inked (charKind ∘ char) rawLines = (lineLoop char stage status rawLines).handed ++
      inked (charKind ∘ char) (lineLoop char stage status rawLines).left := by
  obtain ⟨-, hhanded, -, hleft⟩ := lineLoop_eq_offer char status rawLines
  rw [hhanded, hleft, offer_handed_append_left]

variable (char) in
theorem lineLoop_handed_of_not_ended (status : stage.Status) (rawLines : List (List α))
    (h : (lineLoop char stage status rawLines).ended = false) :
    inked (charKind ∘ char) rawLines = (lineLoop char stage status rawLines).handed := by
  obtain ⟨-, hhanded, hended, -⟩ := lineLoop_eq_offer char status rawLines
  have htaken := offer_handed_append_left char status (inked (charKind ∘ char) rawLines)
  rw [offer_left_of_not_ended _ _ (hended.symm.trans h), List.append_nil] at htaken
  rw [hhanded, htaken]

variable (char) in
theorem lineLoop_suffix (status : stage.Status) (rawLines : List (List α)) :
    ∃ before, rawLines = before ++ (lineLoop char stage status rawLines).left := by
  induction rawLines generalizing status with
  | nil => exact ⟨[], rfl⟩
  | cons rawLine rest ih =>
    rw [lineLoop]
    split
    · obtain ⟨before, h⟩ := ih status
      exact ⟨rawLine :: before, congrArg _ h⟩
    · cases stage.callback status ((strip (charKind ∘ char) rawLine).map char) with
      | mk status' stop =>
        cases stop with
        | true => exact ⟨[rawLine], rfl⟩
        | false =>
          obtain ⟨before, h⟩ := ih status'
          exact ⟨rawLine :: before, congrArg _ h⟩

theorem consumeFrom_ended {p : List α} {status : stage.Status} {chunk : List α}
    (h : (lineLoop char stage status (cut (charKind ∘ char) (p ++ chunk)).1).ended = true)
    (chunks : List (List α)) :
    consumeFrom char stage p status (chunk :: chunks) =
      let r := lineLoop char stage status (cut (charKind ∘ char) (p ++ chunk)).1
      ⟨r.status, true, chunk, r.handed,
        r.left.flatten ++ pending (charKind ∘ char) (p ++ chunk), chunks⟩ := by
  simp [consumeFrom, h, pending]

theorem consumeFrom_not_ended {p : List α} {status : stage.Status} {chunk : List α}
    (h : (lineLoop char stage status (cut (charKind ∘ char) (p ++ chunk)).1).ended = false)
    (chunks : List (List α)) :
    consumeFrom char stage p status (chunk :: chunks) =
      let r := lineLoop char stage status (cut (charKind ∘ char) (p ++ chunk)).1
      let c := consumeFrom char stage (pending (charKind ∘ char) (p ++ chunk)) r.status chunks
      { c with text := chunk ++ c.text, handed := r.handed ++ c.handed } := by
  simp [consumeFrom, h, pending]

/-! ### One stage -/

variable (char) in
/-- A stage is offered the lines of the stream, however it is cut. -/
theorem consumeFrom_offer {p : List α} (hlines : lines (charKind ∘ char) p = [])
    (hpending : pending (charKind ∘ char) p = p) (status : stage.Status)
    (chunks : List (List α)) :
    let c := consumeFrom char stage p status chunks
    let o := stage.offer char status (lines (charKind ∘ char) (p ++ chunks.flatten))
    c.handed = o.handed ∧ c.ok = o.ended := by
  induction chunks generalizing p status with
  | nil =>
    simp only [List.flatten_nil, List.append_nil, hlines]
    exact ⟨rfl, rfl⟩
  | cons chunk chunks ih =>
    have hsplit : p ++ (chunk :: chunks).flatten = (p ++ chunk) ++ chunks.flatten := by simp
    obtain ⟨hstatus, hhanded, hended, -⟩ := lineLoop_eq_offer char status
      (cut (charKind ∘ char) (p ++ chunk)).1
    rw [hsplit, (lines_append (charKind ∘ char) (p ++ chunk) chunks.flatten).1]
    cases hcase : (lineLoop char stage status (cut (charKind ∘ char) (p ++ chunk)).1).ended with
    | true =>
      rw [consumeFrom_ended hcase, offer_append_of_ended (hended ▸ hcase)]
      exact ⟨hhanded, hcase.symm.trans hended⟩
    | false =>
      obtain ⟨hnone, hsame⟩ := lines_pending (charKind ∘ char) (p ++ chunk)
      obtain ⟨ihhanded, ihok⟩ := ih hnone hsame
        (lineLoop char stage status (cut (charKind ∘ char) (p ++ chunk)).1).status
      rw [consumeFrom_not_ended hcase, offer_append_of_not_ended (hended ▸ hcase)]
      simp only [hstatus, hhanded] at ihhanded ihok ⊢
      exact ⟨congrArg _ ihhanded, ihok⟩

theorem consumeFrom_unread_of_not_ok {p : List α} {status : stage.Status}
    {chunks : List (List α)} (h : (consumeFrom char stage p status chunks).ok = false) :
    (consumeFrom char stage p status chunks).unread = [] := by
  induction chunks generalizing p status with
  | nil => rfl
  | cons chunk chunks ih =>
    cases hcase : (lineLoop char stage status (cut (charKind ∘ char) (p ++ chunk)).1).ended with
    | true =>
      rw [consumeFrom_ended hcase] at h
      cases h
    | false =>
      rw [consumeFrom_not_ended hcase] at h ⊢
      exact ih h

variable (char) in
theorem consumeFrom_text (p : List α) (status : stage.Status) (chunks : List (List α)) :
    chunks.flatten = (consumeFrom char stage p status chunks).text ++
      (consumeFrom char stage p status chunks).unread.flatten := by
  induction chunks generalizing p status with
  | nil => rfl
  | cons chunk chunks ih =>
    cases hcase : (lineLoop char stage status (cut (charKind ∘ char) (p ++ chunk)).1).ended with
    | true => rw [consumeFrom_ended hcase, List.flatten_cons]
    | false =>
      rw [consumeFrom_not_ended hcase, List.flatten_cons, List.append_assoc, ← ih]

/-- What a stage drops is the end of what it has read. -/
theorem consumeFrom_dropped (p : List α) (status : stage.Status) (chunks : List (List α))
    (h : (consumeFrom char stage p status chunks).ok = true) :
    (consumeFrom char stage p status chunks).dropped <:+
      p ++ (consumeFrom char stage p status chunks).text := by
  induction chunks generalizing p status with
  | nil => cases h
  | cons chunk chunks ih =>
    have htext := cut_flatten (charKind ∘ char) (p ++ chunk)
    cases hcase : (lineLoop char stage status (cut (charKind ∘ char) (p ++ chunk)).1).ended with
    | true =>
      obtain ⟨before, hsuffix⟩ := lineLoop_suffix char status
        (cut (charKind ∘ char) (p ++ chunk)).1
      rw [consumeFrom_ended hcase]
      refine ⟨before.flatten, ?_⟩
      rw [← List.append_assoc, ← List.flatten_append, ← hsuffix]
      exact htext
    | false =>
      rw [consumeFrom_not_ended hcase] at h ⊢
      obtain ⟨before, hbefore⟩ := ih _ _ h
      refine ⟨(cut (charKind ∘ char) (p ++ chunk)).1.flatten ++ before, ?_⟩
      rw [List.append_assoc, hbefore, ← List.append_assoc p, ← List.append_assoc]
      exact congrArg (· ++ _) htext

/-- Behind the lines that a stage has handed on, those of what it drops go on. -/
theorem consumeFrom_lines (p : List α) (status : stage.Status) (chunks : List (List α))
    (h : (consumeFrom char stage p status chunks).ok = true) (more : List α) :
    lines (charKind ∘ char) (p ++ (consumeFrom char stage p status chunks).text ++ more) =
      (consumeFrom char stage p status chunks).handed ++
        lines (charKind ∘ char) ((consumeFrom char stage p status chunks).dropped ++ more) := by
  induction chunks generalizing p status with
  | nil => cases h
  | cons chunk chunks ih =>
    cases hcase : (lineLoop char stage status (cut (charKind ∘ char) (p ++ chunk)).1).ended with
    | true =>
      have hloop : lines (charKind ∘ char) (p ++ chunk) = _ :=
        lineLoop_handed char status (cut (charKind ∘ char) (p ++ chunk)).1
      obtain ⟨before, hsuffix⟩ := lineLoop_suffix char status
        (cut (charKind ∘ char) (p ++ chunk)).1
      obtain ⟨hdropped, hrest⟩ := lines_of_cut_suffix hsuffix
      rw [consumeFrom_ended hcase, (lines_append _ (p ++ chunk) more).1, hloop,
        (lines_append _ (_ ++ pending _ _) more).1, hdropped, hrest, List.append_assoc]
    | false =>
      have hloop : lines (charKind ∘ char) (p ++ chunk) = _ :=
        lineLoop_handed_of_not_ended char status _ hcase
      rw [consumeFrom_not_ended hcase] at h ⊢
      rw [← List.append_assoc, List.append_assoc (p ++ chunk), (lines_append _ (p ++ chunk) _).1,
        ← List.append_assoc, ih _ _ h, hloop, List.append_assoc]

/-- Reads that end before the chunk a stage ends in do not hold all its lines. -/
theorem consumeFrom_read {p : List α} (hlines : lines (charKind ∘ char) p = [])
    (hpending : pending (charKind ∘ char) p = p) (status : stage.Status)
    {chunks read : List (List α)} (h : (consumeFrom char stage p status chunks).ok = true)
    (hread : read <+: chunks) :
    (lines (charKind ∘ char) (p ++ read.flatten)).length <
        (consumeFrom char stage p status chunks).handed.length ∨
      ∃ more, more <+: (consumeFrom char stage p status chunks).unread ∧
        read.flatten = (consumeFrom char stage p status chunks).text ++ more.flatten := by
  induction chunks generalizing p status read with
  | nil => cases h
  | cons chunk chunks ih =>
    rcases List.prefix_cons_iff.mp hread with rfl | ⟨read, rfl, hrest⟩
    · left
      obtain ⟨hhanded, hok⟩ := consumeFrom_offer char hlines hpending status
        (chunk :: chunks)
      rw [List.flatten_nil, List.append_nil, hlines, hhanded]
      exact List.length_pos_of_ne_nil (offer_handed_ne_nil (hok.symm.trans h))
    · cases hcase : (lineLoop char stage status (cut (charKind ∘ char) (p ++ chunk)).1).ended with
      | true =>
        right
        rw [consumeFrom_ended hcase]
        exact ⟨read, hrest, List.flatten_cons⟩
      | false =>
        obtain ⟨hnone, hsame⟩ := lines_pending (charKind ∘ char) (p ++ chunk)
        have hloop : lines (charKind ∘ char) (p ++ chunk) = _ :=
          lineLoop_handed_of_not_ended char status _ hcase
        rw [consumeFrom_not_ended hcase] at h ⊢
        rw [List.flatten_cons, ← List.append_assoc, (lines_append _ (p ++ chunk) _).1, hloop]
        rcases ih hnone hsame _ h hrest with hshort | ⟨more, hmore, hflat⟩
        · left
          simpa using hshort
        · right
          exact ⟨more, hmore, by rw [hflat, List.append_assoc]⟩

theorem exists_read {p : List α} {status : stage.Status} {chunks more : List (List α)}
    (h : (consumeFrom char stage p status chunks).ok = true)
    (hmore : more <+: (consumeFrom char stage p status chunks).unread) :
    ∃ read, read <+: chunks ∧
      read.flatten = (consumeFrom char stage p status chunks).text ++ more.flatten := by
  induction chunks generalizing p status with
  | nil => cases h
  | cons chunk chunks ih =>
    cases hcase : (lineLoop char stage status (cut (charKind ∘ char) (p ++ chunk)).1).ended with
    | true =>
      rw [consumeFrom_ended hcase] at hmore ⊢
      exact ⟨chunk :: more, List.prefix_cons_inj chunk |>.mpr hmore, List.flatten_cons⟩
    | false =>
      rw [consumeFrom_not_ended hcase] at h hmore ⊢
      obtain ⟨read, hread, hflat⟩ := ih h hmore
      refine ⟨chunk :: read, List.prefix_cons_inj chunk |>.mpr hread, ?_⟩
      rw [List.flatten_cons, hflat, List.append_assoc]

/-! ### Where a stage ends -/

section
variable {chunks : List (List α)} (hnodup : chunks.flatten.Nodup)

include hnodup in
theorem not_mem_text_of_mem_unread {c : α}
    (hunread : c ∈ (consumeUartLines char stage chunks).unread.flatten) :
    c ∉ (consumeUartLines char stage chunks).text := by
  have htext := consumeFrom_text char [] stage.start chunks
  rw [htext] at hnodup
  exact fun hread => (List.nodup_append.mp hnodup).2.2 c hread c hunread rfl

variable (hok : (consumeUartLines char stage chunks).ok = true)
include hok

theorem lines_of_ok (more : List α) :
    lines (charKind ∘ char) ((consumeUartLines char stage chunks).text ++ more) =
      (consumeUartLines char stage chunks).handed ++
        lines (charKind ∘ char) ((consumeUartLines char stage chunks).dropped ++ more) :=
  consumeFrom_lines [] stage.start chunks hok more

theorem lines_flatten_of_ok :
    lines (charKind ∘ char) chunks.flatten =
      (consumeUartLines char stage chunks).handed ++
        lines (charKind ∘ char) ((consumeUartLines char stage chunks).dropped ++
          (consumeUartLines char stage chunks).unread.flatten) := by
  rw [← lines_of_ok hok]
  exact congrArg _ (consumeFrom_text char [] stage.start chunks)

theorem mem_text_of_mem_dropped {c : α}
    (h : c ∈ (consumeUartLines char stage chunks).dropped) :
    c ∈ (consumeUartLines char stage chunks).text :=
  (consumeFrom_dropped [] stage.start chunks hok).subset h

theorem read_of_ok {read : List (List α)} (hread : read <+: chunks) :
    (lines (charKind ∘ char) read.flatten).length <
        (consumeUartLines char stage chunks).handed.length ∨
      ∃ more, more <+: (consumeUartLines char stage chunks).unread ∧
        read.flatten = (consumeUartLines char stage chunks).text ++ more.flatten :=
  consumeFrom_read rfl rfl stage.start hok hread

theorem exists_read_of_ok {more : List (List α)}
    (hmore : more <+: (consumeUartLines char stage chunks).unread) :
    ∃ read, read <+: chunks ∧
      read.flatten = (consumeUartLines char stage chunks).text ++ more.flatten :=
  exists_read hok hmore

theorem getD_lines_of_ok (n : Nat) :
    (lines (charKind ∘ char) chunks.flatten).getD
        ((consumeUartLines char stage chunks).handed.length + n) [] =
      (lines (charKind ∘ char) ((consumeUartLines char stage chunks).dropped ++
        (consumeUartLines char stage chunks).unread.flatten)).getD n [] := by
  rw [lines_flatten_of_ok hok, List.getD_append_right _ _ _ _ (Nat.le_add_right _ _),
    Nat.add_sub_cancel_left]

include hnodup in
/-- A read ends behind the last line of a stage if the next line begins behind what it drops. -/
theorem readEndsBehind_handed_iff :
    ReadEndsBehind char chunks (consumeUartLines char stage chunks).handed.length ↔
      BeginsAfter (charKind ∘ char) (consumeUartLines char stage chunks).dropped
        (consumeUartLines char stage chunks).unread.flatten := by
  rw [ReadEndsBehind, BeginsAfter, ← getD_lines_of_ok hok, Nat.add_zero]
  constructor
  · rintro ⟨read, hread, hlength, hnext⟩ c hc hdropped
    rcases read_of_ok hok hread with hshort | ⟨more, -, hflat⟩
    · exact absurd hshort (Nat.not_lt.mpr hlength)
    · refine hnext c hc ?_
      rw [hflat]
      exact List.mem_append_left _ (mem_text_of_mem_dropped hok hdropped)
  · intro hbegins
    obtain ⟨read, hread, hflat⟩ := exists_read_of_ok hok List.nil_prefix
    rw [List.flatten_nil] at hflat
    refine ⟨read, hread, ?_, ?_⟩
    · rw [hflat, lines_of_ok hok, List.length_append]
      exact Nat.le_add_right _ _
    · intro c hc
      have hnew := hbegins c hc
      rw [← Nat.add_zero (List.length _), getD_lines_of_ok hok] at hc
      have hunread := (List.mem_append.mp (mem_of_mem_getD_lines hc)).resolve_left hnew
      rw [hflat, List.append_nil]
      exact not_mem_text_of_mem_unread hnodup hunread

variable (hbegins : BeginsAfter (charKind ∘ char) (consumeUartLines char stage chunks).dropped
  (consumeUartLines char stage chunks).unread.flatten)
include hbegins

theorem lines_text_append {more : List (List α)}
    (hmore : more <+: (consumeUartLines char stage chunks).unread) :
    lines (charKind ∘ char) ((consumeUartLines char stage chunks).text ++ more.flatten) =
      (consumeUartLines char stage chunks).handed ++ lines (charKind ∘ char) more.flatten := by
  obtain ⟨later, hlater⟩ := hmore
  rw [← hlater, List.flatten_append] at hbegins
  rw [lines_of_ok hok, lines_of_beginsAfter hbegins.of_append]

include hnodup in
theorem readEndsBehind_add_iff (n : Nat) :
    ReadEndsBehind char chunks ((consumeUartLines char stage chunks).handed.length + n) ↔
      ReadEndsBehind char (consumeUartLines char stage chunks).unread n := by
  rw [ReadEndsBehind, ReadEndsBehind, getD_lines_of_ok hok, lines_of_beginsAfter hbegins]
  constructor
  · rintro ⟨read, hread, hlength, hnext⟩
    rcases read_of_ok hok hread with hshort | ⟨more, hmore, hflat⟩
    · omega
    · rw [hflat] at hlength hnext
      rw [lines_text_append hok hbegins hmore, List.length_append] at hlength
      refine ⟨more, hmore, Nat.le_of_add_le_add_left hlength, fun c hc hread => hnext c hc ?_⟩
      exact List.mem_append_right _ hread
  · rintro ⟨more, hmore, hlength, hnext⟩
    obtain ⟨read, hread, hflat⟩ := exists_read_of_ok hok hmore
    refine ⟨read, hread, ?_, ?_⟩ <;> rw [hflat]
    · rw [lines_text_append hok hbegins hmore, List.length_append]
      exact Nat.add_le_add_left hlength _
    · intro c hc hmem
      rcases List.mem_append.mp hmem with htext | hread
      · exact not_mem_text_of_mem_unread hnodup (mem_of_mem_getD_lines hc) htext
      · exact hnext c hc hread

end

/-! ### A succession of stages -/

variable (char) in
theorem consumeUartLines_offer (stage : Stage) (chunks : List (List α)) :
    (consumeUartLines char stage chunks).handed =
        (stage.offer char stage.start (lines (charKind ∘ char) chunks.flatten)).handed ∧
      (consumeUartLines char stage chunks).ok =
        (stage.offer char stage.start (lines (charKind ∘ char) chunks.flatten)).ended :=
  consumeFrom_offer char rfl rfl stage.start chunks

variable (char) in
/-- By itself a stage hands on the same lines, however the stream is cut. -/
theorem consumeUartLines_congr (stage : Stage) {chunks chunks' : List (List α)}
    (h : chunks.flatten = chunks'.flatten) :
    (consumeUartLines char stage chunks).handed = (consumeUartLines char stage chunks').handed ∧
      (consumeUartLines char stage chunks).ok = (consumeUartLines char stage chunks').ok := by
  obtain ⟨hhanded, hok⟩ := consumeUartLines_offer char stage chunks
  obtain ⟨hhanded', hok'⟩ := consumeUartLines_offer char stage chunks'
  rw [hhanded, hok, hhanded', hok', h]
  exact ⟨rfl, rfl⟩

theorem runStages_nil (stages : List Stage) : runStages char stages [] = [] := by
  induction stages with
  | nil => rfl
  | cons stage stages ih => exact ih

theorem offerStages_nil (stages : List Stage) : offerStages char stages [] = [] := by
  induction stages with
  | nil => rfl
  | cons stage stages ih => exact ih

theorem offerStages_prefix_lines (stages : List Stage) (ls : List (List α)) :
    offerStages char stages ls <+: ls := by
  induction stages generalizing ls with
  | nil => exact List.nil_prefix
  | cons stage stages ih =>
    obtain ⟨rest, hrest⟩ := ih (stage.offer char stage.start ls).left
    refine ⟨rest, ?_⟩
    rw [offerStages, List.append_assoc, hrest, offer_handed_append_left]

theorem mem_of_mem_runStages {stages : List Stage} {chunks : List (List α)} {line : List α}
    (h : line ∈ runStages char stages chunks) {c : α} (hc : c ∈ line) : c ∈ chunks.flatten := by
  induction stages generalizing chunks with
  | nil => cases h
  | cons stage stages ih =>
    have htext := consumeFrom_text char [] stage.start chunks
    rcases List.mem_append.mp h with hhanded | hrest
    · obtain ⟨hoffer, -⟩ := consumeUartLines_offer char stage chunks
      rw [hoffer] at hhanded
      have hmem : line ∈ lines (charKind ∘ char) chunks.flatten := by
        rw [← offer_handed_append_left char stage.start (lines (charKind ∘ char) chunks.flatten)]
        exact List.mem_append_left _ hhanded
      exact mem_of_mem_lines hmem hc
    · rw [htext]
      exact List.mem_append_right _ (ih hrest)

/-- A next line that begins in what a stage drops is lost. -/
theorem runStages_ne {stage next : Stage} {stages : List Stage} {chunks : List (List α)}
    (hnodup : chunks.flatten.Nodup)
    (hok : (consumeUartLines char stage chunks).ok = true)
    (hbegins : ¬ BeginsAfter (charKind ∘ char) (consumeUartLines char stage chunks).dropped
      (consumeUartLines char stage chunks).unread.flatten) :
    runStages char (next :: stages) (consumeUartLines char stage chunks).unread ≠
      offerStages char (next :: stages) (lines (charKind ∘ char)
        ((consumeUartLines char stage chunks).dropped ++
          (consumeUartLines char stage chunks).unread.flatten)) := by
  intro heq
  obtain ⟨c, hc, hdropped⟩ : ∃ c ∈ (lines (charKind ∘ char)
      ((consumeUartLines char stage chunks).dropped ++
        (consumeUartLines char stage chunks).unread.flatten)).getD 0 [],
      c ∈ (consumeUartLines char stage chunks).dropped := by
    simpa [BeginsAfter] using hbegins
  cases hleft : lines (charKind ∘ char) ((consumeUartLines char stage chunks).dropped ++
      (consumeUartLines char stage chunks).unread.flatten) with
  | nil =>
    rw [hleft] at hc
    cases hc
  | cons line rest =>
    rw [hleft] at hc heq
    have hfirst : line ∈ offerStages char (next :: stages) (line :: rest) :=
      List.mem_append_left _ (mem_offer_cons next.start line rest)
    rw [← heq] at hfirst
    exact not_mem_text_of_mem_unread hnodup (mem_of_mem_runStages hfirst hc)
      (mem_text_of_mem_dropped hok hdropped)

variable (char) in
/-- The stages are handed the lines one after the other if and only if each ends with a read. -/
theorem runStages_eq_iff (stages : List Stage) {chunks : List (List α)}
    (hnodup : chunks.flatten.Nodup) :
    runStages char stages chunks =
        offerStages char stages (lines (charKind ∘ char) chunks.flatten) ↔
      ∀ n ∈ stageEnds char stages (lines (charKind ∘ char) chunks.flatten),
        ReadEndsBehind char chunks n := by
  induction stages generalizing chunks with
  | nil => simp [runStages, offerStages, stageEnds]
  | cons stage stages ih =>
    obtain ⟨hhanded, hended⟩ := consumeUartLines_offer char stage chunks
    cases stages with
    | nil => simp [runStages, offerStages, stageEnds, hhanded]
    | cons next stages =>
      rw [runStages, offerStages, stageEnds, hhanded, List.append_cancel_left_eq]
      cases hok : (consumeUartLines char stage chunks).ok with
      | false =>
        have hunread : (consumeUartLines char stage chunks).unread = [] :=
          consumeFrom_unread_of_not_ok hok
        rw [← hended, hok, offer_left_of_not_ended _ _ (hended.symm.trans hok), hunread,
          runStages_nil, offerStages_nil]
        simp
      | true =>
        have hleft : (stage.offer char stage.start
            (lines (charKind ∘ char) chunks.flatten)).left =
            lines (charKind ∘ char) ((consumeUartLines char stage chunks).dropped ++
              (consumeUartLines char stage chunks).unread.flatten) := by
          have htaken := offer_handed_append_left char stage.start
            (lines (charKind ∘ char) chunks.flatten)
          rw [← hhanded, lines_flatten_of_ok hok] at htaken
          rw [lines_flatten_of_ok hok]
          exact List.append_cancel_left htaken
        rw [← hended, hok, if_pos rfl, List.forall_mem_cons, List.forall_mem_map, hleft, ← hhanded,
          readEndsBehind_handed_iff hnodup hok]
        by_cases hbegins : BeginsAfter (charKind ∘ char)
            (consumeUartLines char stage chunks).dropped
            (consumeUartLines char stage chunks).unread.flatten
        · have hunread : (consumeUartLines char stage chunks).unread.flatten.Nodup := by
            rw [consumeFrom_text char [] stage.start chunks] at hnodup
            exact (List.nodup_append.mp hnodup).2.1
          simp only [lines_of_beginsAfter hbegins, ih hunread,
            readEndsBehind_add_iff hnodup hok hbegins, hbegins, true_and]
        · exact iff_of_false (runStages_ne hnodup hok hbegins) fun h => hbegins h.1

end

/-! ### The session -/

section
variable {α : Type} {char : α → Char} {digitValue : Char → Option Nat}

variable (char digitValue) in
/-- The stages of a session. Whether it waits for the baseline hangs on what the first one has
read. -/
def sessionStages (cycles : Nat) (chunks : List (List α)) : List Stage :=
  let startup := consumeUartLines char waitForStartup chunks
  let baseline :=
    if (desiredBaselineFromText digitValue (startup.text.map char)).1 then []
    else [waitForReattach digitValue]
  waitForStartup :: baseline ++
    (List.replicate cycles [waitForDetach digitValue, waitForReattach digitValue]).flatten

theorem runStages_cons_of_not_ok {stage : Stage} {chunks : List (List α)}
    (h : (consumeUartLines char stage chunks).ok = false) (stages : List Stage) :
    runStages char (stage :: stages) chunks = (consumeUartLines char stage chunks).handed := by
  have hunread : (consumeUartLines char stage chunks).unread = [] :=
    consumeFrom_unread_of_not_ok h
  rw [runStages, hunread, runStages_nil, List.append_nil]

theorem interactiveCycles_handed (cycles : Nat) (chunks : List (List α)) :
    (interactiveCycles digitValue char cycles chunks).handed =
      runStages char (List.replicate cycles
        [waitForDetach digitValue, waitForReattach digitValue]).flatten chunks := by
  induction cycles generalizing chunks with
  | zero => rfl
  | succ cycles ih =>
    rw [List.replicate_succ, List.flatten_cons, List.cons_append, List.cons_append,
      interactiveCycles]
    cases hdetach : (consumeUartLines char (waitForDetach digitValue) chunks).ok with
    | false =>
      rw [runStages_cons_of_not_ok hdetach]
      rfl
    | true =>
      rw [runStages]
      cases hattach : (consumeUartLines char (waitForReattach digitValue)
          (consumeUartLines char (waitForDetach digitValue) chunks).unread).ok with
      | false =>
        rw [runStages_cons_of_not_ok hattach]
        simp [hattach]
      | true => simp [hattach, runStages, ih]

/-- A session hands on what its stages hand on. -/
theorem runInteractiveCycles_handed (cycles : Nat) (chunks : List (List α)) :
    (runInteractiveCycles digitValue char cycles chunks).handed =
      runStages char (sessionStages char digitValue cycles chunks) chunks := by
  rw [runInteractiveCycles, sessionStages, List.cons_append]
  cases hstartup : (consumeUartLines char waitForStartup chunks).ok with
  | false =>
    rw [runStages_cons_of_not_ok hstartup]
    rfl
  | true =>
    rw [runStages]
    by_cases hbase : (desiredBaselineFromText digitValue
        ((consumeUartLines char waitForStartup chunks).text.map char)).1 = true
    · simp [hbase, interactiveCycles_handed]
    · rw [if_neg hbase, if_neg hbase, List.singleton_append]
      cases hbaseline : (consumeUartLines char (waitForReattach digitValue)
          (consumeUartLines char waitForStartup chunks).unread).ok with
      | false =>
        rw [runStages_cons_of_not_ok hbaseline]
        simp [hbaseline]
      | true => simp [hbaseline, runStages, interactiveCycles_handed]

end

/-! ### Reads of a stream -/

abbrev AsciiByte := { b : Byte // b.toNat < 128 }

/-- What decoding makes of a byte of the stream, which is numbered to tell it from its like. -/
def decoded (b : AsciiByte × Nat) : Char := Char.ofNat b.1.val.toNat

/-- The chunks that `os.read` makes of a stream. -/
structure Reads (stream : List AsciiByte) where
  chunks : List (List (AsciiByte × Nat))
  nonempty : ∀ chunk ∈ chunks, chunk ≠ []
  joined : chunks.flatten = stream.zipIdx

theorem Reads.nodup {stream : List AsciiByte} (r : Reads stream) : r.chunks.flatten.Nodup := by
  rw [r.joined]
  exact (List.nodup_zipIdx_map_snd stream).of_map _

def asciiBytes (text : String) : List AsciiByte :=
  text.toList.filterMap fun c =>
    if h : (BitVec.ofNat 8 c.toNat).toNat < 128 then some ⟨BitVec.ofNat 8 c.toNat, h⟩ else none

def wholeRead (stream : List AsciiByte) (h : stream ≠ []) : Reads stream where
  chunks := [stream.zipIdx]
  nonempty := by simpa using h
  joined := by simp

def twoReads (stream : List AsciiByte) (n : Nat) (hfirst : 0 < n) (hlast : n < stream.length) :
    Reads stream where
  chunks := [stream.zipIdx.take n, stream.zipIdx.drop n]
  nonempty := by
    have hne : stream ≠ [] := List.ne_nil_of_length_pos (Nat.zero_lt_of_lt hlast)
    simp [List.drop_eq_nil_iff, Nat.ne_of_gt hfirst, hne, hlast]
  joined := by simp

theorem Reads.runStages_eq_iff {stream : List AsciiByte} (r : Reads stream)
    (stages : List Stage) :
    runStages decoded stages r.chunks =
        offerStages decoded stages (lines (charKind ∘ decoded) stream.zipIdx) ↔
      ∀ n ∈ stageEnds decoded stages (lines (charKind ∘ decoded) stream.zipIdx),
        ReadEndsBehind decoded r.chunks n := by
  have h := CaptureUart.runStages_eq_iff decoded stages r.nodup
  rwa [r.joined] at h

/-- The lines that are handed on are those of the stream in order, however it is read, if and
only if each stage but the last ends where a read does. -/
theorem handed_lines_iff_reads_end_with_stages (stream : List AsciiByte) (stages : List Stage)
    (r r' : Reads stream) :
    offerStages decoded stages (lines (charKind ∘ decoded) stream.zipIdx) <+:
        lines (charKind ∘ decoded) stream.zipIdx ∧
      (runStages decoded stages r.chunks = runStages decoded stages r'.chunks ∧
          runStages decoded stages r.chunks =
            offerStages decoded stages (lines (charKind ∘ decoded) stream.zipIdx) ↔
        ∀ n ∈ stageEnds decoded stages (lines (charKind ∘ decoded) stream.zipIdx),
          ReadEndsBehind decoded r.chunks n ∧ ReadEndsBehind decoded r'.chunks n) := by
  refine ⟨offerStages_prefix_lines _ _, ?_⟩
  rw [forall₂_and, ← r.runStages_eq_iff, ← r'.runStages_eq_iff]
  constructor
  · rintro ⟨hsame, hall⟩
    exact ⟨hall, hsame.symm.trans hall⟩
  · rintro ⟨hall, hall'⟩
    exact ⟨hall.trans hall'.symm, hall⟩

/-- A line that comes in one read with the one that ends the wait for the startup is lost. -/
theorem line_read_with_startup_is_lost :
    let stream := asciiBytes "on_start complete\nab\n"
    let stages := [waitForStartup, waitForReattach asciiDigit]
    ∃ r r' : Reads stream, r.chunks = [stream.zipIdx] ∧
      r'.chunks = [stream.zipIdx.take 18, stream.zipIdx.drop 18] ∧
      (runStages decoded stages r.chunks).map (·.map decoded) = ["on_start complete".toList] ∧
      (runStages decoded stages r'.chunks).map (·.map decoded) =
        ["on_start complete".toList, "ab".toList] :=
  ⟨wholeRead _ (by decide +kernel), twoReads _ 18 (by decide) (by decide +kernel), rfl, rfl,
    by decide +kernel, by decide +kernel⟩

end SrFirmware.CaptureUart
