import Mathlib.Logic.Function.Basic
import Mathlib.Data.List.Basic

/-!
# Handing entries from one queue to another

Several movers take entries from a first queue and put them into a second, in two steps with
the entry in hand between them. The ledger keeps its order exactly as long as no mover takes
while another holds and nothing in hand is dropped.
-/

namespace SrFirmware.Lib

set_option autoImplicit false

universe u v

variable {ι : Type v} {α : Type u} [DecidableEq ι]

structure Ledger (ι : Type v) (α : Type u) where
  accepted : List α
  executed : List α
  called : List α
  held : ι → Option α
  waiting : List α

inductive Move (ι : Type v) (α : Type u) where
  | idle
  | accept (e : α)
  | take (c : ι) (e : α)
  | hand (c : ι) (e : α)
  | drop (c : ι) (e : α)
  | execute (e : α)

namespace Ledger

def Applicable (l : Ledger ι α) : Move ι α → Prop
  | .idle | .accept _ => True
  | .take c e => l.held c = none ∧ l.waiting.head? = some e
  | .hand c e | .drop c e => l.held c = some e
  | .execute e => l.called.head? = some e

def apply (l : Ledger ι α) : Move ι α → Ledger ι α
  | .idle => l
  | .accept e => { l with accepted := l.accepted ++ [e], waiting := l.waiting ++ [e] }
  | .take c e => { l with waiting := l.waiting.tail, held := Function.update l.held c (some e) }
  | .hand c e => { l with called := l.called ++ [e], held := Function.update l.held c none }
  | .drop c _ => { l with held := Function.update l.held c none }
  | .execute e => { l with called := l.called.tail, executed := l.executed ++ [e] }

/-- A move that keeps the order: nobody else holds at a take, and nothing is dropped. -/
def Safe (l : Ledger ι α) : Move ι α → Prop
  | .take c _ => ∀ d, d ≠ c → l.held d = none
  | .drop _ _ => False
  | _ => True

def OnlyHeld (held : ι → Option α) : Option α → Prop
  | none => ∀ c, held c = none
  | some e => ∃ c, held c = some e ∧ ∀ d, d ≠ c → held d = none

/-- What was accepted is, in order, what has been executed, called, held and left waiting. -/
def Conserved (l : Ledger ι α) : Prop :=
  ∃ h, OnlyHeld l.held h ∧ l.accepted = l.executed ++ l.called ++ h.toList ++ l.waiting

theorem OnlyHeld.eq_some {held : ι → Option α} {h : Option α} (hh : OnlyHeld held h) {c : ι}
    {e : α} (hc : held c = some e) : h = some e ∧ ∀ d, d ≠ c → held d = none := by
  cases h with
  | none => cases (hh c).symm.trans hc
  | some f =>
    obtain ⟨d, hd, hrest⟩ := hh
    by_cases hcd : c = d
    · subst hcd
      exact ⟨hd.symm.trans hc, hrest⟩
    · cases (hrest c hcd).symm.trans hc

theorem OnlyHeld.unique {held : ι → Option α} {h h' : Option α} (hh : OnlyHeld held h)
    (hh' : OnlyHeld held h') : h = h' := by
  cases h with
  | some e =>
    obtain ⟨c, hc, -⟩ := hh
    exact (hh'.eq_some hc).1.symm
  | none =>
    cases h' with
    | none => rfl
    | some e =>
      obtain ⟨c, hc, -⟩ := hh'
      cases (hh c).symm.trans hc

theorem onlyHeld_update_none {held : ι → Option α} {c : ι}
    (hrest : ∀ d, d ≠ c → held d = none) : OnlyHeld (Function.update held c none) none := by
  intro d
  by_cases hd : d = c
  · subst hd
    exact Function.update_self d none held
  · rw [Function.update_of_ne hd]
    exact hrest d hd

theorem onlyHeld_update_some {held : ι → Option α} {c : ι} {e : α} {h : Option α} :
    OnlyHeld (Function.update held c (some e)) h ↔ h = some e ∧ ∀ d, d ≠ c → held d = none := by
  have hself : Function.update held c (some e) c = some e := Function.update_self c (some e) held
  constructor
  · intro hh
    obtain ⟨rfl, hrest⟩ := hh.eq_some hself
    exact ⟨rfl, fun d hd => (Function.update_of_ne hd _ _).symm.trans (hrest d hd)⟩
  · rintro ⟨rfl, hrest⟩
    exact ⟨c, hself, fun d hd => (Function.update_of_ne hd _ _).trans (hrest d hd)⟩

/-- The step rule: a move keeps the ledger conserved exactly when it is safe. -/
theorem conserved_apply_iff {l : Ledger ι α} (hl : l.Conserved) {m : Move ι α}
    (hm : l.Applicable m) : (l.apply m).Conserved ↔ l.Safe m := by
  obtain ⟨h, hheld, hacc⟩ := hl
  cases m with
  | idle => exact ⟨fun _ => trivial, fun _ => ⟨h, hheld, hacc⟩⟩
  | accept e =>
    refine ⟨fun _ => trivial, fun _ => ⟨h, hheld, ?_⟩⟩
    simp only [apply, hacc, List.append_assoc]
  | take c e =>
    obtain ⟨hc, hwait⟩ := hm
    have hhead : l.waiting = e :: l.waiting.tail := (List.cons_head?_tail hwait).symm
    constructor
    · rintro ⟨h', hheld', -⟩
      exact (onlyHeld_update_some.mp hheld').2
    · intro hsafe
      have hnone : h = none := by
        apply hheld.unique
        intro d
        by_cases hd : d = c
        · rw [hd, hc]
        · exact hsafe d hd
      refine ⟨some e, onlyHeld_update_some.mpr ⟨rfl, hsafe⟩, ?_⟩
      rw [hnone, hhead] at hacc
      simpa [apply] using hacc
  | hand c e =>
    obtain ⟨rfl, hrest⟩ := hheld.eq_some hm
    refine ⟨fun _ => trivial, fun _ => ⟨none, onlyHeld_update_none hrest, ?_⟩⟩
    simpa [apply] using hacc
  | drop c e =>
    obtain ⟨rfl, hrest⟩ := hheld.eq_some hm
    refine ⟨?_, False.elim⟩
    rintro ⟨h', hheld', hacc'⟩
    obtain rfl : h' = none := OnlyHeld.unique hheld' (onlyHeld_update_none hrest)
    have hlen := congrArg List.length (hacc.symm.trans hacc')
    simp [apply] at hlen
  | execute e =>
    have hhead : l.called = e :: l.called.tail := (List.cons_head?_tail hm).symm
    refine ⟨fun _ => trivial, fun _ => ⟨h, hheld, ?_⟩⟩
    rw [hhead] at hacc
    simpa [apply] using hacc

end Ledger

/-! ### Following one entry -/

/-- Where an entry is: behind how many others, or in whose hands. -/
inductive Place (ι : Type v) where
  | waiting (n : Nat)
  | held (c : ι)
  | called (n : Nat)
  | executed (n : Nat)
  | dropped
  deriving DecidableEq

namespace Ledger

def At (l : Ledger ι α) (e : α) : Place ι → Prop
  | .waiting n => l.waiting[n]? = some e
  | .held c => l.held c = some e
  | .called n => l.called[n]? = some e
  | .executed n => l.executed[n]? = some e
  | .dropped => False

/-- The place, after a move, of the entry that had this place before. -/
def follow (l : Ledger ι α) : Move ι α → Place ι → Place ι
  | .take c _, .waiting n => if n = 0 then .held c else .waiting (n - 1)
  | .hand c _, .held d => if d = c then .called l.called.length else .held d
  | .drop c _, .held d => if d = c then .dropped else .held d
  | .execute _, .called n => if n = 0 then .executed l.executed.length else .called (n - 1)
  | _, p => p

theorem getElem?_pred_tail {xs : List α} {n : Nat} {e : α} (h : xs[n]? = some e) (hn : n ≠ 0) :
    xs.tail[n - 1]? = some e := by
  obtain ⟨k, rfl⟩ := Nat.exists_eq_succ_of_ne_zero hn
  simpa using h

theorem getElem?_append_singleton {xs : List α} {n : Nat} {e f : α} (h : xs[n]? = some e) :
    (xs ++ [f])[n]? = some e := by
  obtain ⟨hn, -⟩ := List.getElem?_eq_some_iff.mp h
  rw [List.getElem?_append_left hn, h]

theorem follow_eq_executed {l : Ledger ι α} {m : Move ι α} {p : Place ι} {n : Nat}
    (h : l.follow m p = .executed n) : p = .executed n ∨ n = l.executed.length := by
  unfold follow at h
  split at h
  · split at h <;> cases h
  · split at h <;> cases h
  · split at h <;> cases h
  · split at h
    · exact .inr (Place.executed.inj h).symm
    · cases h
  · exact .inl h

/-- A followed entry is where it is said to be, unless it is dropped. -/
theorem at_follow {l : Ledger ι α} {e : α} {p : Place ι} {m : Move ι α} (hp : l.At e p)
    (hm : l.Applicable m) (hdrop : ∀ c f, m ≠ .drop c f) : (l.apply m).At e (l.follow m p) := by
  cases m with
  | idle => exact hp
  | drop c f => exact absurd rfl (hdrop c f)
  | accept f =>
    cases p with
    | waiting n => exact getElem?_append_singleton hp
    | held d | called n | executed n => exact hp
    | dropped => exact hp.elim
  | take c f =>
    obtain ⟨hc, hhead⟩ := hm
    cases p with
    | waiting n =>
      by_cases hn : n = 0
      · subst hn
        have heq : l.waiting.head? = some e := by rw [List.head?_eq_getElem?]; exact hp
        obtain rfl := Option.some.inj (hhead.symm.trans heq)
        simp [follow, At, apply]
      · simpa [follow, hn, At, apply] using getElem?_pred_tail hp hn
    | held d =>
      have hne : d ≠ c := by
        rintro rfl
        cases hc.symm.trans hp
      simpa [follow, At, apply, Function.update_of_ne hne] using hp
    | called n | executed n => exact hp
    | dropped => exact hp.elim
  | hand c f =>
    cases p with
    | held d =>
      by_cases hd : d = c
      · subst hd
        obtain rfl := Option.some.inj (Eq.trans (Eq.symm hm) hp)
        simp [follow, At, apply]
      · simpa [follow, hd, At, apply] using hp
    | called n => exact getElem?_append_singleton hp
    | waiting n | executed n => exact hp
    | dropped => exact hp.elim
  | execute f =>
    cases p with
    | called n =>
      by_cases hn : n = 0
      · subst hn
        have heq : l.called.head? = some e := by rw [List.head?_eq_getElem?]; exact hp
        obtain rfl := Option.some.inj (Eq.trans (Eq.symm hm) heq)
        simp [follow, At, apply]
      · simpa [follow, hn, At, apply] using getElem?_pred_tail hp hn
    | executed n => exact getElem?_append_singleton hp
    | waiting n | held d => exact hp
    | dropped => exact hp.elim

end Ledger

end SrFirmware.Lib
