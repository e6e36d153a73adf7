import Mathlib.Data.List.Basic
import Mathlib.Logic.Function.Basic

/-!
# Circular traversal

`slots N h n` lists the `n` physical slots visited from `h` in a ring of `N` cells,
the way a loop with `index = (index + 1) % N` visits them. Cells outside the list are
unconstrained, so stale contents are no one's business here.
-/

namespace SrFirmware.Lib

set_option autoImplicit false

universe u

def slots (N : Nat) : Nat → Nat → List Nat
  | _, 0 => []
  | h, n + 1 => h :: slots N ((h + 1) % N) n

@[simp] theorem slots_zero (N h : Nat) : slots N h 0 = [] := rfl

theorem slots_succ (N h n : Nat) : slots N h (n + 1) = h :: slots N ((h + 1) % N) n := rfl

@[simp] theorem length_slots (N h n : Nat) : (slots N h n).length = n := by
  induction n generalizing h with
  | zero => rfl
  | succ n ih => simp [slots_succ, ih]

theorem wrap_add_one {N h k : Nat} : ((h + 1) % N + k) % N = (h + (k + 1)) % N := by
  rw [Nat.mod_add_mod]
  congr 1
  omega

theorem mem_slots_iff {N h n i : Nat} (hh : h < N) :
    i ∈ slots N h n ↔ ∃ k, k < n ∧ i = (h + k) % N := by
  induction n generalizing h with
  | zero => simp
  | succ n ih =>
    have hN : 0 < N := by omega
    rw [slots_succ, List.mem_cons, ih (Nat.mod_lt _ hN)]
    constructor
    · rintro (rfl | ⟨k, hk, rfl⟩)
      · exact ⟨0, by omega, by simp [Nat.mod_eq_of_lt hh]⟩
      · exact ⟨k + 1, by omega, wrap_add_one⟩
    · rintro ⟨k, hk, rfl⟩
      cases k with
      | zero => exact .inl (by simp [Nat.mod_eq_of_lt hh])
      | succ k => exact .inr ⟨k, by omega, wrap_add_one.symm⟩

theorem slots_concat {N h : Nat} (hh : h < N) (n : Nat) :
    slots N h (n + 1) = slots N h n ++ [(h + n) % N] := by
  induction n generalizing h with
  | zero => simp [slots_succ, Nat.mod_eq_of_lt hh]
  | succ n ih =>
    have hN : 0 < N := by omega
    rw [slots_succ, ih (Nat.mod_lt _ hN), slots_succ, wrap_add_one, List.cons_append]

theorem wrap_eq {N h k : Nat} (hh : h < N) (hk : k ≤ N) :
    (h + k) % N = if h + k < N then h + k else h + k - N := by
  split
  · exact Nat.mod_eq_of_lt ‹_›
  · rw [Nat.mod_eq_sub_mod (by omega), Nat.mod_eq_of_lt (by omega)]

theorem next_not_mem_slots {N h n : Nat} (hh : h < N) (hn : n < N) :
    (h + n) % N ∉ slots N h n := by
  intro hm
  obtain ⟨k, hk, he⟩ := (mem_slots_iff hh).mp hm
  rw [wrap_eq hh (by omega), wrap_eq hh (by omega)] at he
  split at he <;> split at he <;> omega

theorem head_not_mem_slots {N h n : Nat} (hh : h < N) (hn : n < N) :
    h ∉ slots N ((h + 1) % N) n := by
  intro hm
  obtain ⟨k, hk, he⟩ := (mem_slots_iff (Nat.mod_lt _ (by omega))).mp hm
  rw [wrap_add_one, wrap_eq hh (by omega)] at he
  split at he <;> omega

end SrFirmware.Lib
