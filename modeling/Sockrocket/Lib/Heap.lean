import Mathlib

/-!
# Shared allocations

A shared reference is compared by its address, so what a comparison says depends on which addresses
are in use. An address is used again once nobody refers to it; two references that are both held at
one time and have one address refer to the same allocation.
-/

/-- A counted reference: the address of the allocation, and what lies there. -/
structure Arc (α : Type*) where
  address : Nat
  value : α
deriving DecidableEq

def Arc.ptrEq {α : Type*} (a b : Arc α) : Bool :=
  decide (a.address = b.address)

/-- What lies at the addresses in use. -/
abbrev Heap (α : Type*) := Nat → Option α

namespace Heap

variable {α : Type*} {heap : Heap α} {a b : Arc α} {address : Nat}

def Holds (heap : Heap α) (a : Arc α) : Prop :=
  heap a.address = some a.value

instance [DecidableEq α] : Decidable (heap.Holds a) :=
  inferInstanceAs (Decidable (heap a.address = some a.value))

/-- A new allocation. -/
def place (heap : Heap α) (a : Arc α) : Heap α :=
  Function.update heap a.address (some a.value)

/-- The last reference to an allocation is gone. -/
def release (heap : Heap α) (address : Nat) : Heap α :=
  Function.update heap address none

theorem holds_place (heap : Heap α) (a : Arc α) : (heap.place a).Holds a :=
  Function.update_self ..

theorem Holds.place (hb : heap.Holds b) (hfree : heap a.address = none) :
    (heap.place a).Holds b := by
  have hother : b.address ≠ a.address := by
    intro hsame
    rw [Holds, hsame, hfree] at hb
    cases hb
  exact (Function.update_of_ne hother ..).trans hb

theorem Holds.release (hb : heap.Holds b) (hother : b.address ≠ address) :
    (heap.release address).Holds b :=
  (Function.update_of_ne hother ..).trans hb

/-- References with one address that are held at one time are one reference. -/
theorem Holds.eq_iff (ha : heap.Holds a) (hb : heap.Holds b) : a.ptrEq b ↔ a = b := by
  rw [Arc.ptrEq, decide_eq_true_iff]
  constructor
  · intro haddress
    obtain ⟨addressA, valueA⟩ := a
    obtain ⟨addressB, valueB⟩ := b
    obtain rfl : addressA = addressB := haddress
    obtain rfl : valueA = valueB := Option.some.inj (ha.symm.trans hb)
    rfl
  · rintro rfl
    rfl

end Heap
