import Mathlib
import SrFirmware.Lib.Feedback

/-!
# Feedback registers as remainders

A register read as a polynomial over GF(2), cell `i` the coefficient of `X ^ i`. The register
that has read a message holds the remainder of its division by `X ^ w + g`.
-/

namespace SrFirmware.Lib.Feedback

open Polynomial
set_option autoImplicit false

variable {w : Nat} (g : BitVec w)

noncomputable def poly (c : BitVec w) : (ZMod 2)[X] :=
  ∑ i ∈ Finset.range w, if c.getLsbD i then X ^ i else 0

noncomputable def modulus : (ZMod 2)[X] := X ^ w + poly g

/-- The polynomial of a message, highest power first. -/
noncomputable def messagePoly : List Bool → (ZMod 2)[X]
  | [] => 0
  | bit :: m => (if bit then X ^ m.length else 0) + messagePoly m

theorem coeff_poly (c : BitVec w) (i : Nat) :
    (poly c).coeff i = if c.getLsbD i then 1 else 0 := by
  have hterm : ∀ j, (if c.getLsbD j then X ^ j else (0 : (ZMod 2)[X])).coeff i =
      if i = j then if c.getLsbD i then 1 else 0 else 0 := by
    intro j
    by_cases hj : i = j
    · subst hj
      split <;> simp
    · split <;> simp [coeff_X_pow, hj]
  simp only [poly, finsetSum_coeff, hterm, Finset.sum_ite_eq, Finset.mem_range]
  split
  · rfl
  · rw [BitVec.getLsbD_of_ge c i (by omega)]
    rfl

theorem degree_poly_lt (c : BitVec w) : (poly c).degree < w := by
  rw [degree_lt_iff_coeff_zero]
  intro i hi
  rw [coeff_poly, BitVec.getLsbD_of_ge c i hi]
  rfl

theorem monic_modulus : (modulus g).Monic := monic_X_pow_add (degree_poly_lt g)

theorem degree_modulus : (modulus g).degree = w := by
  rw [modulus, degree_add_eq_left_of_degree_lt, degree_X_pow]
  rw [degree_X_pow]
  exact degree_poly_lt g

theorem poly_zero : poly 0#w = 0 := by
  ext i
  simp [coeff_poly]

theorem poly_xor (a b : BitVec w) : poly (a ^^^ b) = poly a + poly b := by
  ext i
  rw [coeff_add, coeff_poly, coeff_poly, coeff_poly, BitVec.getLsbD_xor]
  cases a.getLsbD i <;> cases b.getLsbD i <;> decide

/-- One turn: the power that leaves the register at the top is taken off with the modulus. -/
theorem poly_shift (c : BitVec w) :
    X * poly c = poly (shift g c) + if c.msb then modulus g else 0 := by
  have hlow : X * poly c = poly (c <<< 1) + if c.msb then X ^ w else 0 := by
    ext i
    have htop : (if c.msb then X ^ w else (0 : (ZMod 2)[X])).coeff i =
        if i = w ∧ c.msb = true then 1 else 0 := by
      cases c.msb <;> simp [coeff_X_pow]
    rw [coeff_add, htop, coeff_poly, BitVec.getLsbD_shiftLeft]
    cases i with
    | zero =>
      rw [mul_coeff_zero, coeff_X_zero, zero_mul]
      cases w with
      | zero => simp [BitVec.msb_eq_getLsbD_last]
      | succ w => simp
    | succ i =>
      rw [coeff_X_mul, coeff_poly, BitVec.msb_eq_getLsbD_last]
      rcases Nat.lt_trichotomy (i + 1) w with hi | hi | hi
      · simp [hi, Nat.ne_of_lt hi]
      · subst hi
        simp
      · simp [BitVec.getLsbD_of_ge c i (by omega), Nat.not_lt_of_gt hi, Nat.ne_of_gt hi]
  rw [hlow, shift]
  cases c.msb with
  | false => rfl
  | true =>
    rw [if_pos rfl, if_pos rfl, if_pos rfl, poly_xor, modulus]
    have hcancel : poly g + poly g = 0 := CharTwo.add_self_eq_zero (poly g)
    have hcomm : poly (c <<< 1) + poly g + (X ^ w + poly g) =
        poly (c <<< 1) + X ^ w + (poly g + poly g) := by ring
    rw [hcomm, hcancel, add_zero]

theorem modulus_dvd_bit (bit : Bool) :
    modulus g ∣ poly (bif bit then 1#w else 0#w) - if bit then 1 else 0 := by
  cases w with
  | zero =>
    have hone : modulus g = 1 := by
      rw [modulus, pow_zero, show poly g = 0 from Finset.sum_range_zero _, add_zero]
    rw [hone]
    exact one_dvd _
  | succ w =>
    have hbit : poly (bif bit then 1#(w + 1) else 0#(w + 1)) = if bit then 1 else 0 := by
      ext i
      rw [coeff_poly]
      cases bit with
      | false => simp
      | true => simp [coeff_one, eq_comm]
    rw [hbit, sub_self]
    exact dvd_zero _

theorem messagePoly_append (m n : List Bool) :
    messagePoly (m ++ n) = messagePoly m * X ^ n.length + messagePoly n := by
  induction m with
  | nil => simp [messagePoly]
  | cons bit m ih =>
    rw [List.cons_append, messagePoly, ih, messagePoly, List.length_append, pow_add]
    cases bit with
    | false => simp
    | true =>
      rw [if_pos rfl, if_pos rfl]
      ring

theorem messagePoly_zeros (n : Nat) : messagePoly (List.replicate n false) = 0 := by
  induction n with
  | zero => rfl
  | succ n ih => simp [List.replicate_succ, messagePoly, ih]

/-- What a register holds when it has read a message. -/
theorem poly_residue (c : BitVec w) (m : List Bool) :
    poly (residue g c m) = (poly c * X ^ m.length + messagePoly m) %ₘ modulus g := by
  induction m generalizing c with
  | nil =>
    rw [residue_nil, List.length_nil, pow_zero, mul_one, messagePoly, add_zero]
    exact ((modByMonic_eq_self_iff (monic_modulus g)).mpr
      (degree_modulus g ▸ degree_poly_lt c)).symm
  | cons bit m ih =>
    rw [residue_cons, ih, poly_xor, messagePoly, List.length_cons]
    apply modByMonic_eq_of_dvd_sub (monic_modulus g)
    have hturn : modulus g ∣ poly (shift g c) - X * poly c := by
      rw [poly_shift g c]
      split
      · exact ⟨-1, by ring⟩
      · exact ⟨0, by ring⟩
    have hsplit : (poly (shift g c) + poly (bif bit then 1#w else 0#w)) * X ^ m.length +
          messagePoly m -
        (poly c * X ^ (m.length + 1) + ((if bit then X ^ m.length else 0) + messagePoly m)) =
        (poly (shift g c) - X * poly c) * X ^ m.length +
          (poly (bif bit then 1#w else 0#w) - if bit then 1 else 0) * X ^ m.length := by
      cases bit <;> simp <;> ring
    rw [hsplit]
    exact dvd_add (hturn.mul_right _) ((modulus_dvd_bit g bit).mul_right _)

/-- A register turned without input. -/
theorem poly_iterate (c : BitVec w) (n : Nat) :
    poly ((shift g)^[n] c) = (poly c * X ^ n) %ₘ modulus g := by
  rw [← residue_zeros, poly_residue, List.length_replicate, messagePoly_zeros, add_zero]

end SrFirmware.Lib.Feedback
