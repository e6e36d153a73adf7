import Mathlib.Data.List.Basic

/-!
# Registers behind a pointer

A write transfer sets the pointer to its first byte and stores the others from there on; a
read transfer loads from the pointer on and leaves it behind the last byte. Reading a
register is two transfers.
-/

namespace SrFirmware.Lib

set_option autoImplicit false

universe u v

/-- What a device does with a value stored to a register, and what a register holds. -/
structure Peripheral (D : Type u) (V : Type v) where
  load : D → Nat → V
  store : D → Nat → V → D

structure Addressed (D : Type u) where
  pointer : Nat
  device : D

namespace Peripheral

variable {D : Type u} {V : Type v} (p : Peripheral D V)

def storeFrom : Nat → List V → D → D
  | _, [], d => d
  | r, v :: vs, d => storeFrom (r + 1) vs (p.store d r v)

def write (r : Nat) (data : List V) (s : Addressed D) : Addressed D :=
  ⟨r + data.length, p.storeFrom r data s.device⟩

def loadFrom (r n : Nat) (d : D) : List V := (List.range n).map fun i => p.load d (r + i)

def read (n : Nat) (s : Addressed D) : List V × Addressed D :=
  (p.loadFrom s.pointer n s.device, ⟨s.pointer + n, s.device⟩)

@[simp] theorem length_loadFrom (r n : Nat) (d : D) : (p.loadFrom r n d).length = n := by
  simp [loadFrom]

@[simp] theorem write_device (r : Nat) (data : List V) (s : Addressed D) :
    (p.write r data s).device = p.storeFrom r data s.device := rfl

@[simp] theorem write_pointer (r : Nat) (data : List V) (s : Addressed D) :
    (p.write r data s).pointer = r + data.length := rfl

@[simp] theorem storeFrom_nil (r : Nat) (d : D) : p.storeFrom r [] d = d := rfl

theorem storeFrom_cons (r : Nat) (v : V) (vs : List V) (d : D) :
    p.storeFrom r (v :: vs) d = p.storeFrom (r + 1) vs (p.store d r v) := rfl

/-- The two transfers of a register read, with nothing between them. -/
theorem read_write (r n : Nat) (s : Addressed D) :
    p.read n (p.write r [] s) = (p.loadFrom r n s.device, ⟨r + n, s.device⟩) := rfl

/-- A register keeps what is stored to it last, whatever is stored to the others. -/
structure Overwrites : Prop where
  again : ∀ d r v w, p.store (p.store d r v) r w = p.store d r w
  comm : ∀ d r q v w, r ≠ q → p.store (p.store d r v) q w = p.store (p.store d q w) r v

variable {p}

theorem Overwrites.storeFrom_store (hp : p.Overwrites) {q r : Nat} (h : q < r) (v : V)
    (data : List V) (d : D) :
    p.storeFrom r data (p.store d q v) = p.store (p.storeFrom r data d) q v := by
  induction data generalizing r d with
  | nil => rfl
  | cons w data ih =>
    rw [storeFrom_cons, storeFrom_cons, hp.comm d q r v w (Nat.ne_of_lt h), ih (Nat.lt_succ_of_lt h)]

/-- Data that has been stored in part is stored again from its beginning. -/
theorem Overwrites.storeFrom_take (hp : p.Overwrites) (r k : Nat) (data : List V) (d : D) :
    p.storeFrom r data (p.storeFrom r (data.take k) d) = p.storeFrom r data d := by
  induction data generalizing r k d with
  | nil => rw [List.take_nil]; rfl
  | cons v data ih =>
    cases k with
    | zero => rfl
    | succ k =>
      have hr : r < r + 1 := Nat.lt_succ_self r
      rw [List.take_succ_cons, storeFrom_cons, storeFrom_cons, storeFrom_cons,
        hp.storeFrom_store hr v (data.take k), hp.again, ← hp.storeFrom_store hr v (data.take k), ih]

theorem Overwrites.write_take (hp : p.Overwrites) (r k : Nat) (data : List V) (s : Addressed D) :
    p.write r data (p.write r (data.take k) s) = p.write r data s := by
  rw [write, write_device, hp.storeFrom_take]
  rfl

end Peripheral

end SrFirmware.Lib
