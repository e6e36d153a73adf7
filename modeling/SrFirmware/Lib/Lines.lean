import Mathlib.Data.List.DropRight
import Mathlib.Data.List.GetD
import Mathlib.Data.List.Infix

/-!
# Cutting a text into lines

Characters of any type, known only by their kind. A carriage return and the line feed behind
it end one line; every other break ends one by itself. A text that comes in pieces is cut by
keeping the last line back until it is terminated.
-/

namespace SrFirmware.Lib.Lines

set_option autoImplicit false

universe u

/-- `lineBreak` ends a line without being one of the two newline characters. -/
inductive Kind where
  | cr
  | lf
  | lineBreak
  | blank
  | ink
  deriving DecidableEq

def Kind.newline : Kind → Bool
  | .cr | .lf => true
  | .lineBreak | .blank | .ink => false

def Kind.breaks : Kind → Bool
  | .cr | .lf | .lineBreak => true
  | .blank | .ink => false

variable {α : Type u} (kind : α → Kind)

/-! ### Splitting -/

def closed (l : List α) : Bool := l.getLast?.any fun c => (kind c).breaks

def terminated (l : List α) : Bool := l.getLast?.any fun c => (kind c).newline

/-- A character joins an open line, and a line feed a line that ends with a carriage return. -/
def joins (l : List α) (x : α) : Bool :=
  !closed kind l || (l.getLast?.any fun c => kind c = .cr) && kind x = .lf

def addChar (ls : List (List α)) (x : α) : List (List α) :=
  match ls.getLast? with
  | some l => if joins kind l x then ls.dropLast ++ [l ++ [x]] else ls ++ [[x]]
  | none => [[x]]

/-- The lines of a text, each with its own ending. -/
def splitLines (text : List α) : List (List α) := text.foldl (addChar kind) []

/-- The lines, but for a last one that is not terminated, and that one. -/
def cut (text : List α) : List (List α) × List α :=
  let ls := splitLines kind text
  match ls.getLast? with
  | some l => if terminated kind l then (ls, []) else (ls.dropLast, l)
  | none => ([], [])

def strip (l : List α) : List α :=
  (l.dropWhile fun c => kind c ≠ .ink).rdropWhile fun c => kind c ≠ .ink

/-- The lines that are not blank, stripped. -/
def inked (ls : List (List α)) : List (List α) := (ls.map (strip kind)).filter (· ≠ [])

/-- The terminated lines of a text that are not blank, stripped. -/
def lines (text : List α) : List (List α) := inked kind (cut kind text).1

def pending (text : List α) : List α := (cut kind text).2

/-! ### One character after the other -/

/-- The next character behind an unfinished line: what it completes, and what is unfinished. -/
def feed (p : List α) (x : α) : List (List α) × List α :=
  let out := if closed kind p then [p] else []
  let p := if closed kind p then [] else p
  if (kind x).newline then (out ++ [p ++ [x]], []) else (out, p ++ [x])

def fed (p : List α) : List α → List (List α) × List α
  | [] => ([], p)
  | x :: text =>
    let r := feed kind p x
    let s := fed r.2 text
    (r.1 ++ s.1, s.2)

variable {kind}

@[simp] theorem closed_nil : closed kind [] = false := rfl

@[simp] theorem closed_concat (l : List α) (x : α) :
    closed kind (l ++ [x]) = (kind x).breaks := by simp [closed]

@[simp] theorem terminated_concat (l : List α) (x : α) :
    terminated kind (l ++ [x]) = (kind x).newline := by simp [terminated]

theorem breaks_of_newline {k : Kind} (h : k.newline = true) : k.breaks = true := by
  cases k <;> simp_all [Kind.newline, Kind.breaks]

theorem addChar_concat (ls : List (List α)) (l : List α) (x : α) :
    addChar kind (ls ++ [l]) x =
      if joins kind l x then ls ++ [l ++ [x]] else ls ++ [l] ++ [[x]] := by
  simp [addChar]

variable (kind) in
theorem splitLines_concat (text : List α) (x : α) :
    splitLines kind (text ++ [x]) = addChar kind (splitLines kind text) x := by
  simp [splitLines]

theorem cut_concat {text : List α} {ls : List (List α)} {l : List α}
    (h : splitLines kind text = ls ++ [l]) :
    cut kind text = if terminated kind l then (ls ++ [l], []) else (ls, l) := by
  simp [cut, h]

variable (kind) in
theorem splitLines_concat_shape (text : List α) (x : α) :
    ∃ ls l, splitLines kind (text ++ [x]) = ls ++ [l ++ [x]] := by
  rw [splitLines_concat]
  rcases List.eq_nil_or_concat (splitLines kind text) with h | ⟨ls, l, h⟩
  · rw [h]
    exact ⟨[], [], rfl⟩
  · rw [h, List.concat_eq_append, addChar_concat]
    split
    · exact ⟨ls, l, rfl⟩
    · exact ⟨ls ++ [l], [], rfl⟩

/-- The last lines of a text are the lines of the last part of it. -/
theorem splitLines_suffix {text : List α} {a b : List (List α)}
    (h : splitLines kind text = a ++ b) : splitLines kind b.flatten = b := by
  induction text using List.reverseRecOn generalizing a b with
  | nil =>
    obtain ⟨-, rfl⟩ := List.append_eq_nil_iff.mp h.symm
    rfl
  | append_singleton text x ih =>
    rcases List.eq_nil_or_concat b with rfl | ⟨b, m, rfl⟩
    · rfl
    rw [List.concat_eq_append] at h ⊢
    rw [splitLines_concat, ← List.append_assoc] at h
    rcases List.eq_nil_or_concat (splitLines kind text) with hnil | ⟨ls, l, hls⟩
    · rw [hnil] at h
      have hone : [] ++ [[x]] = a ++ b ++ [m] := h
      obtain ⟨hprev, hm⟩ := List.append_inj' hone rfl
      obtain rfl := List.singleton_inj.mp hm
      obtain ⟨-, rfl⟩ := List.append_eq_nil_iff.mp hprev.symm
      rfl
    · rw [List.concat_eq_append] at hls
      rw [hls, addChar_concat] at h
      split at h
      · rename_i hjoins
        obtain ⟨rfl, hm⟩ := List.append_inj' h rfl
        obtain rfl := List.singleton_inj.mp hm
        have hprev := ih (b := b ++ [l]) (by rw [hls, List.append_assoc])
        have hflat : (b ++ [l ++ [x]]).flatten = (b ++ [l]).flatten ++ [x] := by simp
        rw [hflat, splitLines_concat, hprev, addChar_concat, if_pos hjoins]
      · rename_i hjoins
        obtain ⟨hprev, hm⟩ := List.append_inj' h rfl
        obtain rfl := List.singleton_inj.mp hm
        have hflat : (b ++ [[x]]).flatten = b.flatten ++ [x] := by simp
        rw [hflat, splitLines_concat, ih (hls.trans hprev)]
        rcases List.eq_nil_or_concat b with rfl | ⟨b, l', rfl⟩
        · rfl
        · rw [List.concat_eq_append, ← List.append_assoc] at hprev
          obtain ⟨-, hl⟩ := List.append_inj' hprev rfl
          obtain rfl := List.singleton_inj.mp hl
          rw [List.concat_eq_append, addChar_concat, if_neg hjoins]

/-! ### Stripping -/

variable (kind) in
def Blank (l : List α) : Prop := ∀ c ∈ l, kind c ≠ .ink

theorem mem_of_mem_strip {l : List α} {c : α} (h : c ∈ strip kind l) : c ∈ l :=
  (List.dropWhile_sublist _).subset ((List.rdropWhile_prefix _ _).subset h)

theorem mem_strip {l : List α} {c : α} (h : c ∈ l) (hink : kind c = .ink) :
    c ∈ strip kind l := by
  have hdrop : c ∈ l.dropWhile fun c => kind c ≠ .ink := by
    rw [← List.takeWhile_append_dropWhile (p := fun c => decide (kind c ≠ .ink)) (l := l)] at h
    rcases List.mem_append.mp h with htake | hdrop
    · simpa [hink] using List.mem_takeWhile_imp htake
    · exact hdrop
  rw [← List.rdropWhile_append_rtakeWhile (p := fun c => decide (kind c ≠ .ink))
    (l := l.dropWhile fun c => kind c ≠ .ink)] at hdrop
  rcases List.mem_append.mp hdrop with hstrip | htake
  · exact hstrip
  · simpa [hink] using List.mem_rtakeWhile_imp htake

theorem strip_eq_nil_iff {l : List α} : strip kind l = [] ↔ Blank kind l := by
  constructor
  · intro h c hc hink
    have hmem := mem_strip hc hink
    rw [h] at hmem
    cases hmem
  · intro h
    rw [List.eq_nil_iff_forall_not_mem]
    intro c hc
    have hdrop : (l.dropWhile fun c => kind c ≠ .ink) = [] := by
      rw [List.dropWhile_eq_nil_iff]
      simpa [Blank] using h
    rw [strip, hdrop] at hc
    cases hc

theorem strip_blank_append {b : List α} (hb : Blank kind b) (l : List α) :
    strip kind (b ++ l) = strip kind l := by
  rw [strip, List.dropWhile_append_of_pos (by simpa [Blank] using hb), strip]

theorem strip_concat_blank (l : List α) {x : α} (hx : kind x ≠ .ink) :
    strip kind (l ++ [x]) = strip kind l := by
  rw [strip, List.dropWhile_append, strip]
  split
  · rename_i hempty
    rw [List.isEmpty_iff.mp hempty]
    simp [hx]
  · rw [List.rdropWhile_concat_pos _ _ _ (by simpa using hx)]

theorem inked_append (ls ms : List (List α)) :
    inked kind (ls ++ ms) = inked kind ls ++ inked kind ms := by simp [inked]

theorem inked_cons_of_blank {l : List α} (hl : Blank kind l) (ls : List (List α)) :
    inked kind (l :: ls) = inked kind ls := by
  simp [inked, strip_eq_nil_iff.mpr hl]

theorem inked_cons_of_not_blank {l : List α} (hl : ¬ Blank kind l) (ls : List (List α)) :
    inked kind (l :: ls) = strip kind l :: inked kind ls := by
  have hne : strip kind l ≠ [] := fun h => hl (strip_eq_nil_iff.mp h)
  simp [inked, hne]

theorem exists_of_mem_inked {ls : List (List α)} {line : List α} (h : line ∈ inked kind ls) :
    line ≠ [] ∧ ∃ l ∈ ls, strip kind l = line := by
  obtain ⟨hmem, hne⟩ := List.mem_filter.mp h
  exact ⟨by simpa using hne, List.mem_map.mp hmem⟩

/-! ### Pieces -/

theorem not_ink_of_newline {x : α} (hx : (kind x).newline = true) : kind x ≠ .ink := by
  intro h
  rw [h] at hx
  cases hx

theorem feed_of_open {p : List α} (hp : closed kind p = false) (x : α) :
    feed kind p x = if (kind x).newline then ([p ++ [x]], []) else ([], p ++ [x]) := by
  simp [feed, hp]

theorem feed_of_closed {p : List α} (hp : closed kind p = true) (x : α) :
    feed kind p x = if (kind x).newline then ([p, [x]], []) else ([p], [x]) := by
  simp [feed, hp]

theorem joins_of_open {l : List α} (hl : closed kind l = false) (x : α) :
    joins kind l x = true := by simp [joins, hl]

theorem joins_concat (l : List α) (y x : α) :
    joins kind (l ++ [y]) x = true ↔
      (kind y).breaks = false ∨ kind y = .cr ∧ kind x = .lf := by
  simp [joins]

theorem cut_of_joins {text : List α} {ls : List (List α)} {l : List α} {x : α}
    (h : splitLines kind text = ls ++ [l]) (hjoins : joins kind l x = true) :
    cut kind (text ++ [x]) =
      if (kind x).newline then (ls ++ [l ++ [x]], []) else (ls, l ++ [x]) := by
  have hnext := splitLines_concat kind text x
  rw [h, addChar_concat, if_pos hjoins] at hnext
  rw [cut_concat hnext, terminated_concat]

theorem cut_of_not_joins {text : List α} {ls : List (List α)} {l : List α} {x : α}
    (h : splitLines kind text = ls ++ [l]) (hjoins : ¬ joins kind l x = true) :
    cut kind (text ++ [x]) =
      if (kind x).newline then (ls ++ [l] ++ [[x]], []) else (ls ++ [l], [x]) := by
  have hnext := splitLines_concat kind text x
  rw [h, addChar_concat, if_neg hjoins] at hnext
  rw [cut_concat hnext]
  rfl

/-- The line feed behind a carriage return changes the ending of a line and nothing else. -/
theorem inked_joined_newline (ls : List (List α)) (l : List α) {x : α}
    (hx : (kind x).newline = true) :
    inked kind (ls ++ [l ++ [x]]) = inked kind (ls ++ [l]) ++ inked kind [[x]] := by
  have hblank : Blank kind [x] := by simpa [Blank] using not_ink_of_newline hx
  have hstrip : inked kind [l ++ [x]] = inked kind [l] := by
    simp only [inked, List.map_cons, strip_concat_blank _ (not_ink_of_newline hx), List.map_nil]
  rw [inked_append, hstrip, ← inked_append, inked_cons_of_blank hblank]
  exact (List.append_nil _).symm

variable (kind) in
/-- The next character completes the lines that it completes behind the unfinished line alone. -/
theorem lines_concat (text : List α) (x : α) :
    lines kind (text ++ [x]) =
        lines kind text ++ inked kind (feed kind (pending kind text) x).1 ∧
      pending kind (text ++ [x]) = (feed kind (pending kind text) x).2 := by
  have hfresh := feed_of_open (show closed kind [] = false from rfl) x
  rcases List.eq_nil_or_concat text with rfl | ⟨text, y, rfl⟩
  · have hcut : cut kind [x] = if (kind x).newline then ([[x]], []) else ([], [x]) := rfl
    have hnil : cut kind [] = ([], []) := rfl
    rw [List.nil_append, lines, lines, pending, pending, hcut, hnil, hfresh]
    split <;> exact ⟨rfl, rfl⟩
  rw [List.concat_eq_append]
  obtain ⟨ls, l, hsplit⟩ := splitLines_concat_shape kind text y
  have hcut := cut_concat hsplit
  rw [terminated_concat] at hcut
  by_cases hy : (kind y).newline = true
  · -- nothing is unfinished, and only a line feed behind a carriage return joins
    rw [if_pos hy] at hcut
    by_cases hjoins : joins kind (l ++ [y]) x = true
    · have hx : (kind x).newline = true := by
        rcases (joins_concat l y x).mp hjoins with hopen | ⟨-, hlf⟩
        · rw [breaks_of_newline hy] at hopen
          cases hopen
        · rw [hlf]
          rfl
      simp only [lines, pending, hcut, cut_of_joins hsplit hjoins, hfresh, if_pos hx, and_true]
      exact inked_joined_newline ls (l ++ [y]) hx
    · simp only [lines, pending, hcut, cut_of_not_joins hsplit hjoins, hfresh]
      split
      · exact ⟨inked_append _ _, rfl⟩
      · exact ⟨(List.append_nil _).symm, rfl⟩
  · rw [if_neg hy] at hcut
    by_cases hclosed : (kind y).breaks = true
    · have hjoins : ¬ joins kind (l ++ [y]) x = true := by
        rw [joins_concat]
        rintro (hopen | ⟨hcr, -⟩)
        · rw [hclosed] at hopen
          cases hopen
        · rw [hcr] at hy
          exact hy rfl
      have hfeed := feed_of_closed ((closed_concat l y).trans hclosed) x
      simp only [lines, pending, hcut, cut_of_not_joins hsplit hjoins, hfeed]
      split
      · refine ⟨?_, rfl⟩
        rw [List.append_assoc, inked_append]
        rfl
      · exact ⟨inked_append _ _, rfl⟩
    · have hopen : closed kind (l ++ [y]) = false := by simpa using hclosed
      have hfeed := feed_of_open hopen x
      simp only [lines, pending, hcut, cut_of_joins hsplit (joins_of_open hopen x), hfeed]
      split
      · exact ⟨inked_append _ _, rfl⟩
      · exact ⟨(List.append_nil _).symm, rfl⟩

variable (kind) in
/-- What comes next completes the lines that it completes behind the unfinished line alone. -/
theorem lines_append_fed (text more : List α) :
    lines kind (text ++ more) =
        lines kind text ++ inked kind (fed kind (pending kind text) more).1 ∧
      pending kind (text ++ more) = (fed kind (pending kind text) more).2 := by
  induction more generalizing text with
  | nil => simp [fed, inked]
  | cons x more ih =>
    obtain ⟨hlines, hpending⟩ := lines_concat kind text x
    obtain ⟨hrest, hend⟩ := ih (text ++ [x])
    rw [List.append_cons, hrest, hlines, hend, hpending]
    simp [fed, inked_append]

/-- The lines of the last part of a text, and of what is unfinished behind it. -/
theorem lines_of_cut_suffix {text : List α} {a b : List (List α)}
    (h : (cut kind text).1 = a ++ b) :
    lines kind (b.flatten ++ pending kind text) = inked kind b ∧
      pending kind (b.flatten ++ pending kind text) = pending kind text := by
  rcases List.eq_nil_or_concat (splitLines kind text) with hnil | ⟨ls, l, hls⟩
  · have hcut : cut kind text = ([], []) := by simp [cut, hnil]
    rw [hcut] at h
    obtain ⟨-, rfl⟩ := List.append_eq_nil_iff.mp h.symm
    simp only [pending, hcut]
    exact ⟨rfl, rfl⟩
  rw [List.concat_eq_append] at hls
  have hcut := cut_concat hls
  by_cases hl : terminated kind l = true
  · rw [if_pos hl] at hcut
    rw [hcut] at h
    have hsuffix := splitLines_suffix (hls.trans h)
    simp only [pending, hcut, List.append_nil, lines]
    rcases List.eq_nil_or_concat b with rfl | ⟨b, m, rfl⟩
    · exact ⟨rfl, rfl⟩
    · rw [List.concat_eq_append] at h hsuffix ⊢
      rw [← List.append_assoc] at h
      obtain ⟨-, hm⟩ := List.append_inj' h rfl
      obtain rfl := List.singleton_inj.mp hm
      rw [cut_concat hsuffix, if_pos hl]
      exact ⟨rfl, rfl⟩
  · rw [if_neg hl] at hcut
    rw [hcut] at h
    obtain rfl : ls = a ++ b := h
    rw [List.append_assoc] at hls
    have hsuffix := splitLines_suffix hls
    have hflat : (b ++ [l]).flatten = b.flatten ++ l := by simp
    rw [hflat] at hsuffix
    simp [pending, hcut, lines, cut_concat hsuffix, hl]

variable (kind) in
theorem lines_pending (text : List α) :
    lines kind (pending kind text) = [] ∧
      pending kind (pending kind text) = pending kind text :=
  lines_of_cut_suffix (a := (cut kind text).1) (b := []) (List.append_nil _).symm

variable (kind) in
/-- A text may be cut in two anywhere, if the unfinished line is kept back. -/
theorem lines_append (text more : List α) :
    lines kind (text ++ more) =
        lines kind text ++ lines kind (pending kind text ++ more) ∧
      pending kind (text ++ more) = pending kind (pending kind text ++ more) := by
  obtain ⟨hlines, hpending⟩ := lines_append_fed kind text more
  obtain ⟨hlines', hpending'⟩ := lines_append_fed kind (pending kind text) more
  obtain ⟨hnone, hsame⟩ := lines_pending kind text
  rw [hnone, hsame, List.nil_append] at hlines'
  rw [hsame] at hpending'
  exact ⟨by rw [hlines, hlines'], by rw [hpending, hpending']⟩

/-! ### Lines put together -/

theorem foldl_addChar_open {l : List α} (hl : ∀ c ∈ l, (kind c).breaks = false)
    {x : α} {m : List α} (hm : closed kind m = false) (ls : List (List α)) :
    (l ++ [x]).foldl (addChar kind) (ls ++ [m]) = ls ++ [m ++ l ++ [x]] := by
  induction l generalizing m with
  | nil => simp [addChar_concat, joins_of_open hm]
  | cons y l ih =>
    have hy : closed kind (m ++ [y]) = false := (closed_concat m y).trans (hl y (by simp))
    have hrest := ih (fun c hc => hl c (List.mem_cons_of_mem y hc)) hy
    simp [addChar_concat, joins_of_open hm, hrest]

theorem foldl_addChar_line {l : List α} (hl : ∀ c ∈ l, (kind c).breaks = false) {x : α}
    {ls : List (List α)} (hls : ∀ m ∈ ls.getLast?, ∃ y, m.getLast? = some y ∧ kind y = .lf) :
    (l ++ [x]).foldl (addChar kind) ls = ls ++ [l ++ [x]] := by
  have hnew : ∀ y, addChar kind ls y = ls ++ [[y]] := by
    intro y
    rcases List.eq_nil_or_concat ls with rfl | ⟨ls, m, rfl⟩
    · rfl
    · obtain ⟨z, hz, hlf⟩ := hls m (by simp)
      have hjoins : ¬ joins kind m y = true := by simp [joins, closed, hz, hlf, Kind.breaks]
      rw [List.concat_eq_append, addChar_concat, if_neg hjoins]
  cases l with
  | nil => exact hnew x
  | cons y l =>
    have hy : closed kind [y] = false := hl y List.mem_cons_self
    rw [List.cons_append, List.foldl_cons, hnew,
      foldl_addChar_open (fun c hc => hl c (List.mem_cons_of_mem y hc)) hy]
    rfl

/-- Lines without breaks are read back from what they make with a line feed behind each. -/
theorem splitLines_flatMap {ls : List (List α)} (hls : ∀ l ∈ ls, ∀ c ∈ l, (kind c).breaks = false)
    {x : α} (hx : kind x = .lf) :
    splitLines kind (ls.flatMap (· ++ [x])) = ls.map (· ++ [x]) := by
  have hfrom : ∀ ms : List (List α),
      (∀ m ∈ ms.getLast?, ∃ y, m.getLast? = some y ∧ kind y = .lf) →
      (ls.flatMap (· ++ [x])).foldl (addChar kind) ms = ms ++ ls.map (· ++ [x]) := by
    induction ls with
    | nil => simp
    | cons l ls ih =>
      intro ms hms
      rw [List.flatMap_cons, List.foldl_append,
        foldl_addChar_line (hls l List.mem_cons_self) hms,
        ih (fun m hm => hls m (List.mem_cons_of_mem l hm))]
      · simp
      · simp [hx]
  exact hfrom [] (by simp)

/-! ### A piece that is dropped -/

theorem closed_append {p : List α} (hp : closed kind p = false) (q : List α) :
    closed kind (p ++ q) = closed kind q := by
  rcases List.eq_nil_or_concat q with rfl | ⟨q, x, rfl⟩
  · rw [List.append_nil, hp]
    rfl
  · rw [List.concat_eq_append, ← List.append_assoc, closed_concat, closed_concat]

/-- In front of an open line only the first line that it completes is longer. -/
theorem fed_append {p : List α} (hp : closed kind p = false) (q text : List α) :
    (fed kind (p ++ q) text).1 = match (fed kind q text).1 with
      | [] => []
      | l :: ls => (p ++ l) :: ls := by
  induction text generalizing q with
  | nil => rfl
  | cons x text ih =>
    simp only [fed]
    cases hq : closed kind q with
    | true =>
      rw [feed_of_closed hq, feed_of_closed ((closed_append hp q).trans hq)]
      split <;> rfl
    | false =>
      rw [feed_of_open hq, feed_of_open ((closed_append hp q).trans hq)]
      split
      · rw [List.append_assoc]
        rfl
      · rw [List.append_assoc]
        exact ih (q ++ [x])

theorem fed_closed {p : List α} (hp : closed kind p = true) (x : α) (text : List α) :
    (fed kind p (x :: text)).1 = p :: (fed kind [] (x :: text)).1 := by
  simp only [fed, feed_of_closed hp, feed_of_open closed_nil]
  split <;> rfl

/-- The next line of the text begins behind the dropped part of it. -/
def BeginsAfter (kind : α → Kind) (dropped text : List α) : Prop :=
  ∀ c ∈ (lines kind (dropped ++ text)).getD 0 [], c ∉ dropped

variable (kind) in
theorem flatten_splitLines (text : List α) : (splitLines kind text).flatten = text := by
  induction text using List.reverseRecOn with
  | nil => rfl
  | append_singleton text x ih =>
    rw [splitLines_concat]
    rcases List.eq_nil_or_concat (splitLines kind text) with h | ⟨ls, l, h⟩
    · rw [h] at ih ⊢
      rw [← ih]
      rfl
    · rw [List.concat_eq_append] at h
      rw [h] at ih ⊢
      rw [addChar_concat, ← ih]
      split <;> simp

variable (kind) in
theorem cut_flatten (text : List α) :
    (cut kind text).1.flatten ++ (cut kind text).2 = text := by
  rcases List.eq_nil_or_concat (splitLines kind text) with h | ⟨ls, l, h⟩
  · have hcut : cut kind text = ([], []) := by simp [cut, h]
    rw [hcut, ← flatten_splitLines kind text, h]
    rfl
  · rw [List.concat_eq_append] at h
    rw [cut_concat h, ← flatten_splitLines kind text, h]
    split <;> simp

theorem mem_of_mem_pending {text : List α} {c : α} (h : c ∈ pending kind text) : c ∈ text := by
  rw [← cut_flatten kind text]
  exact List.mem_append_right _ h

theorem mem_of_mem_lines {text line : List α} (h : line ∈ lines kind text) {c : α}
    (hc : c ∈ line) : c ∈ text := by
  obtain ⟨-, l, hl, rfl⟩ := exists_of_mem_inked h
  rw [← cut_flatten kind text]
  exact List.mem_append_left _ (List.mem_flatten.mpr ⟨l, hl, mem_of_mem_strip hc⟩)

theorem mem_of_mem_getD_lines {text : List α} {n : Nat} {c : α}
    (h : c ∈ (lines kind text).getD n []) : c ∈ text := by
  by_cases hn : n < (lines kind text).length
  · rw [List.getD_eq_getElem _ _ hn] at h
    exact mem_of_mem_lines (List.getElem_mem hn) h
  · rw [List.getD_eq_default _ _ (Nat.not_lt.mp hn)] at h
    cases h

variable (kind) in
theorem lines_eq_fed (text : List α) : lines kind text = inked kind (fed kind [] text).1 :=
  (lines_append_fed kind [] text).1

/-- A part before the next line may be dropped. -/
theorem lines_of_beginsAfter {dropped text : List α} (h : BeginsAfter kind dropped text) :
    lines kind (dropped ++ text) = lines kind text := by
  have hfirst : ∀ line rest, lines kind (dropped ++ text) = line :: rest →
      ∀ c ∈ line, c ∉ dropped := fun line rest hline c hc => h c (by rw [hline]; exact hc)
  rw [(lines_append_fed kind dropped text).1] at hfirst ⊢
  rw [lines_eq_fed kind text]
  have hp : ∀ c ∈ pending kind dropped, c ∈ dropped := fun c => mem_of_mem_pending
  generalize pending kind dropped = p at *
  cases hlines : lines kind dropped with
  | cons line rest =>
    rw [hlines] at hfirst
    have hmem : line ∈ lines kind dropped := hlines ▸ List.mem_cons_self
    obtain ⟨c, hc⟩ := List.exists_mem_of_ne_nil line (exists_of_mem_inked hmem).1
    exact absurd (mem_of_mem_lines hmem hc) (hfirst line _ rfl c hc)
  | nil =>
    rw [hlines, List.nil_append] at hfirst
    rw [List.nil_append]
    cases hclosed : closed kind p with
    | true =>
      cases text with
      | nil => rfl
      | cons x text =>
        rw [fed_closed hclosed] at hfirst ⊢
        by_cases hblank : Blank kind p
        · exact inked_cons_of_blank hblank _
        · obtain ⟨c, hc, hink⟩ : ∃ c ∈ p, kind c = .ink := by simpa [Blank] using hblank
          rw [inked_cons_of_not_blank hblank] at hfirst
          exact absurd (hp c hc) (hfirst _ _ rfl c (mem_strip hc hink))
    | false =>
      have hfed := fed_append hclosed [] text
      rw [List.append_nil] at hfed
      rw [hfed] at hfirst ⊢
      cases hout : (fed kind [] text).1 with
      | nil => rfl
      | cons l ls =>
        rw [hout] at hfirst
        by_cases hblank : Blank kind p
        · simp only [inked, List.map_cons, strip_blank_append hblank]
        · obtain ⟨c, hc, hink⟩ : ∃ c ∈ p, kind c = .ink := by simpa [Blank] using hblank
          have hlong : ¬ Blank kind (p ++ l) :=
            fun hall => hall c (List.mem_append_left _ hc) hink
          simp only [inked_cons_of_not_blank hlong] at hfirst
          exact absurd (hp c hc)
            (hfirst _ _ rfl c (mem_strip (List.mem_append_left _ hc) hink))

theorem BeginsAfter.of_append {dropped text rest : List α}
    (h : BeginsAfter kind dropped (text ++ rest)) : BeginsAfter kind dropped text := by
  intro c hc
  refine h c ?_
  rw [← List.append_assoc, (lines_append kind (dropped ++ text) rest).1]
  cases hlines : lines kind (dropped ++ text) with
  | nil =>
    rw [hlines] at hc
    cases hc
  | cons line ls =>
    rw [hlines] at hc
    exact hc

end SrFirmware.Lib.Lines
