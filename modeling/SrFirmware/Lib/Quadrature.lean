import Mathlib.Algebra.Order.Group.Unbundled.Int
import Mathlib.Data.List.Chain

/-!
# Quadrature signals

The two channels of an encoder go through a Gray code of four phases while its shaft moves
by four steps. A decoder sees phases now and then and adds up the steps between two phases
it saw in a row; a phase that is two steps away is taken for no step at all.
-/

namespace SrFirmware.Lib.Quadrature

set_option autoImplicit false

abbrev Phase := BitVec 2

/-- The phases in the order in which a shaft that counts up goes through them. -/
def phase (position : ℤ) : Phase :=
  match (position % 4).toNat with
  | 0 => 0b00
  | 1 => 0b10
  | 2 => 0b11
  | _ => 0b01

def quarter : Phase → ℤ
  | 0b00 => 0
  | 0b10 => 1
  | 0b11 => 2
  | 0b01 => 3

/-- The steps between two phases, as far as they can be told. -/
def turn (a b : Phase) : ℤ :=
  match (quarter b - quarter a) % 4 with
  | 1 => 1
  | 3 => -1
  | _ => 0

/-- The steps counted over phases seen in a row, the latest first; `rest` is the phase taken
for the one before the first. -/
def travel (rest : Phase) : List Phase → ℤ
  | [] => 0
  | b :: seen => travel rest seen + turn (seen.headD rest) b

theorem quarter_phase (p : ℤ) : quarter (phase p) = p % 4 := by
  have h0 : 0 ≤ p % 4 := Int.emod_nonneg p (by decide)
  have h4 : p % 4 < 4 := Int.emod_lt_of_pos p (by decide)
  obtain h | h | h | h : p % 4 = 0 ∨ p % 4 = 1 ∨ p % 4 = 2 ∨ p % 4 = 3 := by omega
  all_goals simp only [phase, h]; rfl

theorem turn_eq_of_emod {a b : Phase} {d : ℤ} (h : (quarter b - quarter a) % 4 = d % 4)
    (hd : |d| ≤ 1) : turn a b = d := by
  obtain rfl | rfl | rfl := Int.abs_le_one_iff.mp hd
  all_goals simp only [turn, h]; rfl

/-- A step at most is told from the two phases. -/
theorem turn_phase {p q : ℤ} (h : |q - p| ≤ 1) : turn (phase p) (phase q) = q - p := by
  apply turn_eq_of_emod
  · rw [quarter_phase, quarter_phase]
    omega
  · exact h

theorem turn_emod_two (a b : Phase) : turn a b % 2 = (quarter b - quarter a) % 2 := by
  revert a b
  decide

/-- Whatever was missed between two phases is an even number of steps. -/
theorem turn_phase_emod_two (p q : ℤ) : turn (phase p) (phase q) % 2 = (q - p) % 2 := by
  rw [turn_emod_two, quarter_phase, quarter_phase]
  omega

theorem abs_turn_le (a b : Phase) : |turn a b| ≤ 1 := by
  revert a b
  decide

@[simp] theorem travel_nil (rest : Phase) : travel rest [] = 0 := rfl

theorem travel_cons (rest b : Phase) (seen : List Phase) :
    travel rest (b :: seen) = travel rest seen + turn (seen.headD rest) b := rfl

/-- No step is missed when neighbours are a step apart at most: what is counted is the way
from the first position to the latest, and what the first phase was taken for. -/
theorem travel_phase (rest : Phase) (p : ℤ) (ps : List ℤ)
    (near : (p :: ps).IsChain fun q p => |q - p| ≤ 1) :
    travel rest ((p :: ps).map phase) =
      p - (p :: ps).getLast (by simp) +
        turn rest (phase ((p :: ps).getLast (by simp))) := by
  induction ps generalizing p with
  | nil => simp [travel_cons]
  | cons q ps ih =>
    obtain ⟨hpq, hrest⟩ := List.isChain_cons_cons.mp near
    have hturn := turn_phase hpq
    have hlast : (p :: q :: ps).getLast (by simp) = (q :: ps).getLast (by simp) :=
      List.getLast_cons (by simp)
    rw [List.map_cons, travel_cons, ih q hrest, hlast]
    simp only [List.map_cons, List.headD_cons, hturn]
    omega

/-- Without any bound on the speed the parity is still right. -/
theorem travel_phase_emod_two (rest : Phase) (p : ℤ) (ps : List ℤ) :
    travel rest ((p :: ps).map phase) % 2 = (p - quarter rest) % 2 := by
  induction ps generalizing p with
  | nil =>
    simp only [List.map_cons, List.map_nil, travel_cons, travel_nil, List.headD_nil, zero_add,
      turn_emod_two, quarter_phase]
    omega
  | cons q ps ih =>
    have hq := ih q
    have hturn := turn_phase_emod_two q p
    rw [List.map_cons, travel_cons]
    simp only [List.map_cons, List.headD_cons] at hq ⊢
    omega

end SrFirmware.Lib.Quadrature
