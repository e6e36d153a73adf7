import SrFirmware.CaptureStages

/-!
# The capture without prompts, `capture_uart`

It prints the lines that matter as they are completed, and stops with the first read behind
which the text holds a stop marker.
-/

namespace SrFirmware.CaptureUart

open Lib.Lines
set_option autoImplicit false

def diagEndMarkers : List String := ["EXT_MAX77958_I2C1_TEST: end", "DRV8830_SCOPE_TEST END"]

def liveFilters : List String :=
  ["on_start complete", "DRV8830_SCOPE_TEST", "motor fault", "Fault values", "MAX77958_DIAG:",
    "CCStat: ccstat changed", "Power source ready", "PD Message:", "opcode_read:"]

def lineIsRelevant (line : List Char) : Bool := liveFilters.any fun token => contains token line

structure Capture where
  text : List Char
  markerSeen : Bool
  -- what has been printed
  printed : List (List Char)

section
variable (stopMarkers : List String)

def showsMarker (text : List Char) : Bool := stopMarkers.any fun marker => contains marker text

def captureFrom (text pending : List Char) : List (List Char) → Capture
  | [] => ⟨text, false, []⟩
  | chunk :: chunks =>
    let (lines, pending) := cut charKind (pending ++ chunk)
    let printed := (inked charKind lines).filter lineIsRelevant
    let text := text ++ chunk
    if showsMarker stopMarkers text then ⟨text, true, printed⟩
    else
      let c := captureFrom text pending chunks
      { c with printed := printed ++ c.printed }

def captureUart (chunks : List (List Char)) : Capture := captureFrom stopMarkers [] [] chunks

end

/-- The relevant lines of a text that are complete. -/
def relevantLines (text : List Char) : List (List Char) :=
  (lines charKind text).filter lineIsRelevant

/-- What is captured of some reads: those up to the first behind which a marker shows. -/
structure UpToMarker (stopMarkers : List String) (chunks : List (List Char)) (c : Capture) :
    Prop where
  reads : ∃ taken left, chunks = taken ++ left ∧ c.text = taken.flatten ∧
    (c.markerSeen = false → left = []) ∧
    ∀ fewer, fewer <+: taken → fewer ≠ taken → showsMarker stopMarkers fewer.flatten = false
  seen : c.markerSeen = showsMarker stopMarkers c.text
  printed : c.printed = relevantLines c.text

section
variable {stopMarkers : List String}

theorem showsMarker_mono {text more : List Char} (h : text <+: more)
    (hshows : showsMarker stopMarkers text = true) : showsMarker stopMarkers more = true := by
  simp only [showsMarker, contains, List.any_eq_true, decide_eq_true_eq] at hshows ⊢
  obtain ⟨marker, hmem, hmarker⟩ := hshows
  exact ⟨marker, hmem, hmarker.trans h.isInfix⟩

theorem relevantLines_append (text more : List Char) :
    relevantLines (text ++ more) =
      relevantLines text ++ relevantLines (pending charKind text ++ more) := by
  simp only [relevantLines]
  rw [(lines_append charKind text more).1, List.filter_append]

theorem relevantLines_mono {text more : List Char} (h : text <+: more) :
    relevantLines text <+: relevantLines more := by
  obtain ⟨rest, rfl⟩ := h
  rw [relevantLines_append]
  exact List.prefix_append _ _

/-- One read: what it completes behind the unfinished line of the text. -/
theorem captureFrom_cons (text chunk : List Char) (chunks : List (List Char)) :
    captureFrom stopMarkers text (pending charKind text) (chunk :: chunks) =
      if showsMarker stopMarkers (text ++ chunk) then
        ⟨text ++ chunk, true, relevantLines (pending charKind text ++ chunk)⟩
      else
        let c := captureFrom stopMarkers (text ++ chunk) (pending charKind (text ++ chunk)) chunks
        { c with printed := relevantLines (pending charKind text ++ chunk) ++ c.printed } := by
  rw [captureFrom, (lines_append charKind text chunk).2]
  rfl

theorem captureFrom_spec (text : List Char) (chunks : List (List Char))
    (h : showsMarker stopMarkers text = false) :
    let c := captureFrom stopMarkers text (pending charKind text) chunks
    (∃ taken left, chunks = taken ++ left ∧ c.text = text ++ taken.flatten ∧
      (c.markerSeen = false → left = []) ∧
      ∀ fewer, fewer <+: taken → fewer ≠ taken →
        showsMarker stopMarkers (text ++ fewer.flatten) = false) ∧
      c.markerSeen = showsMarker stopMarkers c.text ∧
      relevantLines text ++ c.printed = relevantLines c.text := by
  induction chunks generalizing text with
  | nil =>
    refine ⟨⟨[], [], rfl, by simp [captureFrom], fun _ => rfl, ?_⟩, h.symm, ?_⟩
    · intro fewer hfewer hne
      exact absurd (List.prefix_nil.mp hfewer) hne
    · exact List.append_nil _
  | cons chunk chunks ih =>
    rw [captureFrom_cons]
    cases hshows : showsMarker stopMarkers (text ++ chunk) with
    | true =>
      refine ⟨⟨[chunk], chunks, rfl, by simp, nofun, ?_⟩, hshows.symm, ?_⟩
      · intro fewer hfewer hne
        obtain rfl : fewer = [] := by
          rcases List.prefix_cons_iff.mp hfewer with hnil | ⟨rest, rfl, hrest⟩
          · exact hnil
          · obtain rfl := List.prefix_nil.mp hrest
            exact absurd rfl hne
        simpa using h
      · exact (relevantLines_append text chunk).symm
    | false =>
      obtain ⟨⟨taken, left, hchunks, htext, hleft, hfirst⟩, hseen, hprinted⟩ :=
        ih (text ++ chunk) hshows
      refine ⟨⟨chunk :: taken, left, by rw [hchunks]; rfl, ?_, hleft, ?_⟩, hseen, ?_⟩
      · simpa using htext
      · intro fewer hfewer hne
        rcases List.prefix_cons_iff.mp hfewer with rfl | ⟨rest, rfl, hrest⟩
        · simpa using h
        · have hrest' := hfirst rest hrest fun heq => hne (by rw [heq])
          simpa using hrest'
      · rw [relevantLines_append, List.append_assoc] at hprinted
        exact hprinted

theorem captureUart_upToMarker (h : showsMarker stopMarkers [] = false)
    (chunks : List (List Char)) :
    UpToMarker stopMarkers chunks (captureUart stopMarkers chunks) := by
  obtain ⟨hreads, hseen, hprinted⟩ := captureFrom_spec [] chunks h
  exact ⟨hreads, hseen, hprinted⟩

section
variable {chunks : List (List Char)} {c : Capture} (h : UpToMarker stopMarkers chunks c)
include h

theorem UpToMarker.text_prefix : c.text <+: chunks.flatten := by
  obtain ⟨taken, left, hchunks, htext, -⟩ := h.reads
  rw [hchunks, htext, List.flatten_append]
  exact List.prefix_append _ _

theorem UpToMarker.text_of_not_seen (hseen : c.markerSeen = false) : c.text = chunks.flatten := by
  obtain ⟨taken, left, hchunks, htext, hleft, -⟩ := h.reads
  rw [hchunks, htext, hleft hseen, List.append_nil]

theorem UpToMarker.seen_iff_stream :
    c.markerSeen = showsMarker stopMarkers chunks.flatten := by
  cases hseen : c.markerSeen with
  | true => exact (showsMarker_mono h.text_prefix (h.seen.symm.trans hseen)).symm
  | false => rw [← h.text_of_not_seen hseen, ← h.seen, hseen]

/-- What comes in front of the first marker is captured. -/
theorem UpToMarker.prefix_text {text : List Char} (htext : text <+: chunks.flatten)
    (hshows : showsMarker stopMarkers text = false) : text <+: c.text := by
  cases hseen : c.markerSeen with
  | false => exact h.text_of_not_seen hseen ▸ htext
  | true =>
    rcases List.prefix_or_prefix_of_prefix htext h.text_prefix with hshorter | hlonger
    · exact hshorter
    · rw [showsMarker_mono hlonger (h.seen.symm.trans hseen)] at hshows
      cases hshows

end

end

/-- The text that the reads of a stream decode to, in the same chunks. -/
def Reads.decodedChunks {stream : List AsciiByte} (r : Reads stream) : List (List Char) :=
  r.chunks.map (List.map decoded)

theorem Reads.flatten_decodedChunks {stream : List AsciiByte} (r : Reads stream) :
    r.decodedChunks.flatten = stream.zipIdx.map decoded := by
  rw [decodedChunks, ← List.map_flatten, r.joined]

/-- However a stream is read: the capture ends with the first read behind which it holds a stop
marker, and prints the complete relevant lines up to there, each once and in order. So the
marker is seen in every way of reading or in none, every line in front of it is printed, and
two ways of reading differ at most in the lines behind it. -/
theorem capture_up_to_marker (stream : List AsciiByte) (r r' : Reads stream) :
    let c := captureUart diagEndMarkers r.decodedChunks
    let c' := captureUart diagEndMarkers r'.decodedChunks
    UpToMarker diagEndMarkers r.decodedChunks c ∧ c.markerSeen = c'.markerSeen ∧
      (∀ text, text <+: stream.zipIdx.map decoded → showsMarker diagEndMarkers text = false →
        relevantLines text <+: c.printed) ∧
      (c.printed <+: c'.printed ∨ c'.printed <+: c.printed) := by
  have hnil : showsMarker diagEndMarkers [] = false := by decide
  have h := captureUart_upToMarker hnil r.decodedChunks
  have h' := captureUart_upToMarker hnil r'.decodedChunks
  have hstream := r.flatten_decodedChunks
  have hstream' := r'.flatten_decodedChunks
  refine ⟨h, ?_, ?_, ?_⟩
  · rw [h.seen_iff_stream, h'.seen_iff_stream, hstream, hstream']
  · intro text htext hshows
    rw [h.printed]
    exact relevantLines_mono (h.prefix_text (hstream ▸ htext) hshows)
  · have hcaptured := h.text_prefix
    have hcaptured' := h'.text_prefix
    rw [hstream] at hcaptured
    rw [hstream'] at hcaptured'
    rw [h.printed, h'.printed]
    exact (List.prefix_or_prefix_of_prefix hcaptured hcaptured').imp relevantLines_mono
      relevantLines_mono

/-- The line of the marker itself is printed only if the read that shows it completes it. -/
example :
    (captureUart diagEndMarkers ["DRV8830_SCOPE_TEST END".toList, "\n".toList]).printed = [] ∧
      (captureUart diagEndMarkers ["DRV8830_SCOPE_TEST END\n".toList]).printed =
        ["DRV8830_SCOPE_TEST END".toList] := by decide +kernel

end SrFirmware.CaptureUart
