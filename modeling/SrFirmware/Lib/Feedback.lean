import Mathlib.Data.Nat.Bits
import Mathlib.Dynamics.PeriodicPts.Lemmas

/-!
# Linear feedback registers

A register of `w` cells holds a polynomial over GF(2) of degree below `w`, and one turn
multiplies it by `x` modulo `x ^ w + g`. `residue` reads a message, highest power first.
Checksums differ in how they feed the register; what they detect is decided here.
-/

namespace SrFirmware.Lib.Feedback

set_option autoImplicit false

variable {w : Nat} (g : BitVec w)

/-- One turn of the register. -/
def shift (c : BitVec w) : BitVec w := if c.msb then (c <<< 1) ^^^ g else c <<< 1

/-- Horner's scheme: turn, then add the next coefficient, a multiple of `b`. -/
def weighted (b c : BitVec w) (bits : List Bool) : BitVec w :=
  bits.foldl (fun c bit => shift g c ^^^ bif bit then b else 0#w) c

/-- The remainder of a message behind the remainder `c` of what came before it. -/
def residue (c : BitVec w) (bits : List Bool) : BitVec w := weighted g 1#w c bits

/-- The cells of a register, highest power first. -/
def bits {n : Nat} (x : BitVec n) : List Bool := (List.range n).map x.getMsbD

def mul (a b : BitVec w) : BitVec w := weighted g b 0#w (bits a)

/-! ### Linearity -/

theorem xor_xor_xor_comm (a b c d : BitVec w) : a ^^^ b ^^^ (c ^^^ d) = a ^^^ c ^^^ (b ^^^ d) := by
  ac_rfl

theorem shift_xor (a b : BitVec w) : shift g (a ^^^ b) = shift g a ^^^ shift g b := by
  have hcancel : ∀ a b : BitVec w, a ^^^ g ^^^ (b ^^^ g) = a ^^^ b := by
    intro a b
    rw [xor_xor_xor_comm, BitVec.xor_self, BitVec.xor_zero]
  simp only [shift, BitVec.msb_xor, BitVec.shiftLeft_xor_distrib]
  cases a.msb <;> cases b.msb <;> simp [hcancel] <;> ac_rfl

@[simp] theorem shift_zero : shift g 0#w = 0#w := by simp [shift]

theorem iterate_shift_xor (n : Nat) (a b : BitVec w) :
    (shift g)^[n] (a ^^^ b) = (shift g)^[n] a ^^^ (shift g)^[n] b := by
  induction n generalizing a b with
  | zero => rfl
  | succ n ih => simp only [Function.iterate_succ_apply, shift_xor, ih]

@[simp] theorem iterate_shift_zero (n : Nat) : (shift g)^[n] 0#w = 0#w :=
  Function.iterate_fixed (shift_zero g) n

theorem shift_eq_zero {g : BitVec w} (hg : g.getLsbD 0 = true) {c : BitVec w}
    (h : shift g c = 0#w) : c = 0#w := by
  have hmsb : c.msb = false := by
    by_contra hc
    rw [Bool.not_eq_false] at hc
    rw [shift, if_pos hc] at h
    have hlow := congrArg (fun x => x.getLsbD 0) h
    simp [hg] at hlow
  rw [shift, hmsb, if_neg (by decide)] at h
  apply BitVec.eq_of_getLsbD_eq
  intro i hi
  by_cases hlast : i + 1 < w
  · have hbit := congrArg (fun x => x.getLsbD (i + 1)) h
    rw [BitVec.getLsbD_shiftLeft] at hbit
    simpa [hlast] using hbit
  · rw [BitVec.msb_eq_getLsbD_last] at hmsb
    rw [show i = w - 1 by omega, hmsb]
    simp

/-- With a constant term in the polynomial a turn loses nothing. -/
theorem iterate_shift_eq_zero {g : BitVec w} (hg : g.getLsbD 0 = true) {n : Nat} {c : BitVec w}
    (h : (shift g)^[n] c = 0#w) : c = 0#w := by
  induction n generalizing c with
  | zero => exact h
  | succ n ih => exact shift_eq_zero hg (ih h)

@[simp] theorem weighted_nil (b c : BitVec w) : weighted g b c [] = c := rfl

theorem weighted_cons (b c : BitVec w) (bit : Bool) (m : List Bool) :
    weighted g b c (bit :: m) = weighted g b (shift g c ^^^ bif bit then b else 0#w) m := rfl

@[simp] theorem residue_nil (c : BitVec w) : residue g c [] = c := rfl

theorem residue_cons (c : BitVec w) (bit : Bool) (m : List Bool) :
    residue g c (bit :: m) = residue g (shift g c ^^^ bif bit then 1#w else 0#w) m := rfl

theorem residue_append (c : BitVec w) (m n : List Bool) :
    residue g c (m ++ n) = residue g (residue g c m) n := List.foldl_append

theorem weighted_eq (b c : BitVec w) (m : List Bool) :
    weighted g b c m = (shift g)^[m.length] c ^^^ weighted g b 0#w m := by
  induction m generalizing c with
  | nil => simp
  | cons bit m ih =>
    rw [weighted_cons, ih, weighted_cons, ih (shift g 0#w ^^^ _)]
    simp only [shift_zero, BitVec.zero_xor, iterate_shift_xor, List.length_cons,
      Function.iterate_succ_apply, BitVec.xor_assoc]

theorem residue_eq (c : BitVec w) (m : List Bool) :
    residue g c m = (shift g)^[m.length] c ^^^ residue g 0#w m := weighted_eq g 1 c m

theorem residue_zeros (c : BitVec w) (n : Nat) :
    residue g c (List.replicate n false) = (shift g)^[n] c := by
  induction n generalizing c with
  | zero => rfl
  | succ n ih =>
    rw [List.replicate_succ, residue_cons, ih, Function.iterate_succ_apply]
    simp

/-! ### Reading a register back -/

@[simp] theorem length_bits {n : Nat} (x : BitVec n) : (bits x).length = n := by simp [bits]

theorem bits_append {n m : Nat} (x : BitVec n) (y : BitVec m) :
    bits (x ++ y) = bits x ++ bits y := by
  apply List.ext_getElem
  · simp
  · intro i h1 h2
    simp only [bits, List.getElem_append, List.getElem_map, List.getElem_range,
      List.length_map, List.length_range, BitVec.getMsbD_append]
    by_cases hi : i < n
    · simp [hi, Nat.not_le.mpr hi]
    · simp [hi, Nat.not_lt.mp hi]

theorem shift_ushiftRight (x : BitVec w) (j : Nat) (hj : j < w) :
    shift g (x >>> (j + 1)) ^^^ (bif x.getLsbD j then 1#w else 0#w) = x >>> j := by
  have hmsb : (x >>> (j + 1)).msb = false := by
    rw [BitVec.msb_eq_getLsbD_last, BitVec.getLsbD_ushiftRight]
    simp [BitVec.getLsbD_of_ge x (j + 1 + (w - 1)) (by omega)]
  rw [shift, hmsb, if_neg (by decide)]
  apply BitVec.eq_of_getLsbD_eq
  intro i hi
  have hone : (bif x.getLsbD j then 1#w else 0#w).getLsbD i =
      (decide (i = 0) && x.getLsbD j) := by
    cases x.getLsbD j
    · simp
    · rw [cond_true, BitVec.getLsbD_one]
      simp [Nat.lt_of_le_of_lt (Nat.zero_le j) hj]
  rw [BitVec.getLsbD_xor, hone]
  cases i with
  | zero => simp
  | succ i => simp [hi, show j + 1 + i = j + (i + 1) by omega]

theorem residue_take_bits (x : BitVec w) {k : Nat} (hk : k ≤ w) :
    residue g 0#w ((bits x).take k) = x >>> (w - k) := by
  induction k with
  | zero =>
    apply BitVec.eq_of_getLsbD_eq
    simp
  | succ k ih =>
    have hlast : (bits x).take (k + 1) = (bits x).take k ++ [x.getLsbD (w - 1 - k)] := by
      rw [List.take_add_one, List.getElem?_eq_getElem (by simpa using Nat.lt_of_succ_le hk)]
      simp [bits, BitVec.getMsbD, show k < w by omega]
    have hprev : w - k = w - (k + 1) + 1 := by omega
    have hpos : w - 1 - k = w - (k + 1) := by omega
    rw [hlast, residue_append, ih (by omega), hprev, hpos]
    exact shift_ushiftRight g x _ (by omega)

/-- A message no longer than the register is its own remainder. -/
theorem residue_bits (c x : BitVec w) : residue g c (bits x) = (shift g)^[w] c ^^^ x := by
  have hself : residue g 0#w (bits x) = x := by
    have h := residue_take_bits g x (Nat.le_refl w)
    rwa [List.take_of_length_le (by simp), Nat.sub_self, BitVec.ushiftRight_zero] at h
  rw [residue_eq, length_bits, hself]

/-! ### Powers of `x` -/

theorem weighted_iterate (n : Nat) (m : List Bool) (c : BitVec w) :
    weighted g ((shift g)^[n] 1#w) ((shift g)^[n] c) m = (shift g)^[n] (residue g c m) := by
  induction m generalizing c with
  | nil => rfl
  | cons bit m ih =>
    have hstep : shift g ((shift g)^[n] c) ^^^ (bif bit then (shift g)^[n] 1#w else 0#w) =
        (shift g)^[n] (shift g c ^^^ bif bit then 1#w else 0#w) := by
      rw [iterate_shift_xor, ← Function.iterate_succ_apply, Function.iterate_succ_apply']
      cases bit <;> simp
    rw [weighted_cons, hstep, ih, residue_cons]

theorem mul_iterate (a : BitVec w) (n : Nat) : mul g a ((shift g)^[n] 1#w) = (shift g)^[n] a := by
  have h := weighted_iterate g n (bits a) 0#w
  rw [iterate_shift_zero, residue_bits, iterate_shift_zero, BitVec.zero_xor] at h
  exact h

theorem mul_iterate_iterate (m n : Nat) :
    mul g ((shift g)^[m] 1#w) ((shift g)^[n] 1#w) = (shift g)^[n + m] 1#w := by
  rw [mul_iterate, Function.iterate_add_apply]

/-- Square and multiply: the power of `x` whose exponent has these binary digits. -/
def power (digits : List Bool) : BitVec w :=
  digits.foldl (fun c d => bif d then shift g (mul g c c) else mul g c c) 1#w

def digitsValue (digits : List Bool) : Nat :=
  digits.foldl (fun n d => bif d then n + n + 1 else n + n) 0

theorem power_eq (digits : List Bool) :
    power g digits = (shift g)^[digitsValue digits] 1#w := by
  have hrun : ∀ n, digits.foldl (fun c d => bif d then shift g (mul g c c) else mul g c c)
      ((shift g)^[n] 1#w) =
        (shift g)^[digits.foldl (fun n d => bif d then n + n + 1 else n + n) n] 1#w := by
    induction digits with
    | nil => exact fun n => rfl
    | cons d digits ih =>
      intro n
      rw [List.foldl_cons, List.foldl_cons, mul_iterate_iterate, ← ih]
      cases d with
      | false => rfl
      | true => rw [cond_true, cond_true, Function.iterate_succ_apply']
  exact hrun 0

theorem minimalPeriod_eq {α : Type} {f : α → α} {x : α} {n : Nat}
    (h : Function.IsPeriodicPt f n x)
    (hdiv : ∀ q, q.Prime → q ∣ n → ¬ Function.IsPeriodicPt f (n / q) x) :
    Function.minimalPeriod f x = n := by
  obtain ⟨k, hk⟩ := h.minimalPeriod_dvd
  by_cases hone : k = 1
  · rw [hk, hone, Nat.mul_one]
  · obtain ⟨q, hq, r, rfl⟩ := Nat.exists_prime_and_dvd hone
    have hfactor : n = q * (Function.minimalPeriod f x * r) := by
      rw [Nat.mul_left_comm]
      exact hk
    refine absurd ?_ (hdiv q hq ⟨_, hfactor⟩)
    rw [Nat.div_eq_of_eq_mul_right hq.pos hfactor]
    exact Function.isPeriodicPt_iff_minimalPeriod_dvd.mpr ⟨r, rfl⟩

/-! ### Errors that change an odd number of bits -/

def parityTo (c : BitVec w) : Nat → Bool
  | 0 => false
  | n + 1 => xor (c.getLsbD n) (parityTo c n)

def parity (c : BitVec w) : Bool := parityTo c w

theorem parityTo_xor (a b : BitVec w) (n : Nat) :
    parityTo (a ^^^ b) n = xor (parityTo a n) (parityTo b n) := by
  induction n with
  | zero => rfl
  | succ n ih =>
    simp only [parityTo, ih, BitVec.getLsbD_xor]
    cases a.getLsbD n <;> cases b.getLsbD n <;> simp

theorem parityTo_shiftLeft (c : BitVec w) {n : Nat} (hn : n < w) :
    parityTo (c <<< 1) (n + 1) = parityTo c n := by
  induction n with
  | zero => simp [parityTo]
  | succ n ih =>
    rw [parityTo, ih (by omega), parityTo, BitVec.getLsbD_shiftLeft]
    simp [hn]

theorem parity_zero : parity 0#w = false := by
  have hall : ∀ n, parityTo 0#w n = false := by
    intro n
    induction n with
    | zero => rfl
    | succ n ih => simp [parityTo, ih]
  exact hall w

/-- A turn keeps the parity when `x + 1` divides `x ^ w + g`. -/
theorem parity_shift {g : BitVec w} (hg : parity g = true) (c : BitVec w) :
    parity (shift g c) = parity c := by
  cases w with
  | zero => rfl
  | succ k =>
    have hsplit : parity c = xor c.msb (parity (c <<< 1)) := by
      rw [parity, parity, parityTo_shiftLeft c (Nat.lt_succ_self k), parityTo,
        BitVec.msb_eq_getLsbD_last]
      rfl
    rw [hsplit, shift]
    cases c.msb with
    | false => simp
    | true =>
      have hxor : parity (c <<< 1 ^^^ g) = xor (parity (c <<< 1)) (parity g) := parityTo_xor _ _ _
      simp [hxor, hg]

theorem parity_residue {g : BitVec w} (hg : parity g = true) (c : BitVec w) (m : List Bool) :
    parity (residue g c m) = xor (parity c) (m.count true).bodd := by
  have hone : parity 1#w = true := by
    cases w with
    | zero => exact hg
    | succ k =>
      have hall : ∀ n, n ≤ k → parityTo 1#(k + 1) (n + 1) = true := by
        intro n hn
        induction n with
        | zero => simp [parityTo]
        | succ n ih =>
          rw [parityTo, ih (by omega), BitVec.getLsbD_one]
          simp
      exact hall k (Nat.le_refl k)
  induction m generalizing c with
  | nil => simp
  | cons bit m ih =>
    have hxor : ∀ a b : BitVec w, parity (a ^^^ b) = xor (parity a) (parity b) :=
      fun a b => parityTo_xor a b w
    rw [residue_cons, ih, hxor, parity_shift hg]
    cases bit <;> simp [hone, parity_zero]

theorem residue_ne_zero_of_odd {g : BitVec w} (hg : parity g = true) {m : List Bool}
    (h : m.count true % 2 = 1) : residue g 0#w m ≠ 0#w := by
  intro hzero
  have hparity := parity_residue hg 0#w m
  rw [hzero, parity_zero, Bool.false_xor] at hparity
  have hmod := Nat.mod_two_of_bodd (m.count true)
  rw [← hparity, h] at hmod
  cases hmod

/-! ### Errors that change two bits -/

theorem eq_replicate_of_count_zero {m : List Bool} (h : m.count true = 0) :
    m = List.replicate m.length false := by
  rw [List.eq_replicate_iff]
  refine ⟨rfl, ?_⟩
  intro b hb
  cases b with
  | false => rfl
  | true => exact absurd hb (List.count_eq_zero.mp h)

/-- One more bit cancels a register only if some power of `x` brings it to one. -/
theorem exists_iterate_of_count_one {g : BitVec w} (hg : g.getLsbD 0 = true) {c : BitVec w}
    {m : List Bool} (hm : m.count true = 1) (h : residue g c m = 0#w) :
    ∃ d < m.length, (shift g)^[d + 1] c = 1#w := by
  induction m generalizing c with
  | nil => cases hm
  | cons bit m ih =>
    rw [residue_cons] at h
    cases bit with
    | false =>
      obtain ⟨d, hd, hpow⟩ := ih (by simpa using hm) h
      rw [cond_false, BitVec.xor_zero, ← Function.iterate_succ_apply] at hpow
      exact ⟨d + 1, Nat.succ_lt_succ hd, hpow⟩
    | true =>
      have hrest : m.count true = 0 := by simpa using hm
      rw [eq_replicate_of_count_zero hrest, residue_zeros] at h
      refine ⟨0, Nat.succ_pos _, ?_⟩
      have hcancel := iterate_shift_eq_zero hg h
      rw [cond_true] at hcancel
      exact BitVec.xor_eq_zero_iff.mp hcancel

/-- Two bits cancel only at a distance that is a multiple of the order of `x`. -/
theorem residue_ne_zero_of_two {g : BitVec w} (hg : g.getLsbD 0 = true) {m : List Bool}
    (hm : m.count true = 2) (hlen : m.length ≤ Function.minimalPeriod (shift g) 1#w) :
    residue g 0#w m ≠ 0#w := by
  induction m with
  | nil => cases hm
  | cons bit m ih =>
    rw [List.length_cons] at hlen
    rw [residue_cons, shift_zero, BitVec.zero_xor]
    cases bit with
    | false => exact ih (by simpa using hm) (by omega)
    | true =>
      intro hzero
      obtain ⟨d, hd, hpow⟩ := exists_iterate_of_count_one hg (by simpa using hm) hzero
      rw [cond_true] at hpow
      have hdvd := Function.IsPeriodicPt.minimalPeriod_dvd hpow
      have hle := Nat.le_of_dvd (Nat.succ_pos d) hdvd
      omega

end SrFirmware.Lib.Feedback
