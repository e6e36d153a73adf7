import Mathlib.Data.List.Basic

/-!
# The longest suffix that fits a limit

What a drop-oldest buffer is meant to keep of its history. The limit is any predicate
on lists; the lemmas ask only that dropping an element at one end never breaks it.
-/

namespace SrFirmware.Lib

set_option autoImplicit false

universe u

variable {α : Type u} {P : List α → Prop}

structure IsLongestSuffix (P : List α → Prop) (l s : List α) : Prop where
  suffix : s <:+ l
  fits : P s
  longest : ∀ t, t <:+ l → P t → t.length ≤ s.length

namespace IsLongestSuffix

theorem unique {l s t : List α} (hs : IsLongestSuffix P l s) (ht : IsLongestSuffix P l t) :
    s = t := by
  have hst := ht.longest s hs.suffix hs.fits
  have hts := hs.longest t ht.suffix ht.fits
  exact (List.suffix_of_suffix_length_le hs.suffix ht.suffix hst).eq_of_length (by omega)

theorem self {l : List α} (h : P l) : IsLongestSuffix P l l :=
  ⟨List.suffix_rfl, h, fun _ ht _ => ht.length_le⟩

theorem cons_of_not {l s : List α} {a : α} (hs : IsLongestSuffix P l s) (ha : ¬ P (a :: l)) :
    IsLongestSuffix P (a :: l) s := by
  refine ⟨hs.suffix.trans (List.suffix_cons a l), hs.fits, ?_⟩
  intro t ht hP
  rcases List.suffix_cons_iff.mp ht with rfl | ht
  · exact absurd hP ha
  · exact hs.longest t ht hP

/-- Only what was kept so far matters for what is kept after the next element. -/
theorem append_singleton (hinit : ∀ t a, P (t ++ [a]) → P t) {l s r : List α} {a : α}
    (hs : IsLongestSuffix P l s) (hr : IsLongestSuffix P (s ++ [a]) r) :
    IsLongestSuffix P (l ++ [a]) r := by
  have hsa : s ++ [a] <:+ l ++ [a] := by
    obtain ⟨d, rfl⟩ := hs.suffix
    exact ⟨d, by simp⟩
  refine ⟨hr.suffix.trans hsa, hr.fits, ?_⟩
  intro t ht hP
  rcases List.suffix_concat_iff.mp ht with rfl | ⟨t', rfl, ht'⟩
  · exact Nat.zero_le _
  · have hlen := hs.longest t' ht' (hinit t' a hP)
    have hin : t' <:+ s := List.suffix_of_suffix_length_le ht' hs.suffix hlen
    obtain ⟨d, hd⟩ := hin
    exact hr.longest _ ⟨d, by rw [← hd]; simp⟩ hP

end IsLongestSuffix

section Search
variable (P) [DecidablePred P]

/-- The suffixes from the longest on, until one fits. -/
def longestSuffix : List α → List α
  | [] => []
  | a :: l => if P (a :: l) then a :: l else longestSuffix l

variable {P}

theorem longestSuffix_spec (hnil : P []) (l : List α) :
    IsLongestSuffix P l (longestSuffix P l) := by
  induction l with
  | nil => exact .self hnil
  | cons a l ih =>
    rw [longestSuffix]
    split
    · rename_i h
      exact .self h
    · rename_i h
      exact ih.cons_of_not h

end Search

end SrFirmware.Lib
