import Mathlib

/-!
# First-in first-out slots on a ring

Keys get slots from a cursor that cycles over `capacity + 1` slots, and at most `capacity` keys are
live. A new key takes the slot under the cursor; a full ring first lets go of its oldest key.

Nothing but the cursor and the live keys is stored: the slot of a key follows from its age, the
number of keys that came after it, itself included. With one slot more than keys, no live key ever
sits under the cursor (`slot_ne_cursor`), and a key keeps its slot for as long as it is live
(`slot_evict`, `slot_push_of_mem`).
-/

/-- The cursor and the live keys, oldest first. -/
structure SlotRing (κ : Type*) (capacity : Nat) where
  cursor : Nat
  live : List κ
  cursor_le : cursor ≤ capacity
  nodup : live.Nodup
  length_le : live.length ≤ capacity

namespace SlotRing

open List

variable {κ : Type*} {capacity : Nat}

/-- A ring without keys. -/
def empty : SlotRing κ capacity where
  cursor := 0
  live := []
  cursor_le := Nat.zero_le _
  nodup := List.nodup_nil
  length_le := Nat.zero_le _

/-- The keys that stay when a new one comes: all of them, or all but the oldest when the ring is
full. -/
def kept (ring : SlotRing κ capacity) : List κ :=
  if ring.live.length < capacity then ring.live else ring.live.tail

theorem kept_sublist (ring : SlotRing κ capacity) : ring.kept.Sublist ring.live := by
  unfold kept
  split
  · exact List.Sublist.refl _
  · exact tail_sublist _

/-- Let go of the oldest key of a full ring. -/
def evict (ring : SlotRing κ capacity) : SlotRing κ capacity where
  cursor := ring.cursor
  live := ring.kept
  cursor_le := ring.cursor_le
  nodup := ring.nodup.sublist ring.kept_sublist
  length_le := ring.kept_sublist.length_le.trans ring.length_le

theorem length_evict_lt [NeZero capacity] (ring : SlotRing κ capacity) :
    ring.evict.live.length < capacity := by
  have hpos : 0 < capacity := Nat.pos_of_ne_zero (NeZero.ne capacity)
  have hle := ring.length_le
  show ring.kept.length < capacity
  unfold kept
  split
  · assumption
  · rw [length_tail]
    omega

variable {ring : SlotRing κ capacity} {key : κ}

theorem mem_of_mem_evict (h : key ∈ ring.evict.live) :
    key ∈ ring.live :=
  ring.kept_sublist.mem h

/-- The cursor after one more slot. -/
def advance (ring : SlotRing κ capacity) : Nat :=
  if capacity ≤ ring.cursor then 0 else ring.cursor + 1

/-- Make a new key live in a ring with room. -/
def push (ring : SlotRing κ capacity) (key : κ) (hnew : key ∉ ring.live)
    (hroom : ring.live.length < capacity) : SlotRing κ capacity where
  cursor := ring.advance
  live := ring.live ++ [key]
  cursor_le := by
    unfold advance
    split <;> omega
  nodup := List.nodup_append.mpr
    ⟨ring.nodup, List.nodup_singleton key, fun other hother new hnew' heq =>
      hnew (List.mem_singleton.mp hnew' ▸ heq ▸ hother)⟩
  length_le := by
    rw [List.length_append, List.length_singleton]
    omega

variable [DecidableEq κ]

/-- Make a key live, if it is not. -/
def assign [NeZero capacity] (ring : SlotRing κ capacity) (key : κ) : SlotRing κ capacity :=
  if h : key ∈ ring.live then ring
  else ring.evict.push key (fun hmem => h (mem_of_mem_evict hmem)) ring.length_evict_lt

/-- How many keys came after a live key, itself included. -/
def age (ring : SlotRing κ capacity) (key : κ) : Nat :=
  ring.live.length - ring.live.idxOf key

/-- The slot of a live key: as far behind the cursor as the key is old. -/
def slot (ring : SlotRing κ capacity) (key : κ) : Nat :=
  if ring.age key ≤ ring.cursor then ring.cursor - ring.age key
  else ring.cursor + (capacity + 1) - ring.age key

theorem age_pos (h : key ∈ ring.live) :
    1 ≤ ring.age key := by
  have hlt : ring.live.idxOf key < ring.live.length := idxOf_lt_length_iff.mpr h
  unfold age
  omega

theorem age_le (ring : SlotRing κ capacity) (key : κ) : ring.age key ≤ capacity :=
  (Nat.sub_le _ _).trans ring.length_le

theorem slot_le (h : key ∈ ring.live) :
    ring.slot key ≤ capacity := by
  have hpos := age_pos h
  have hcursor := ring.cursor_le
  unfold slot
  split <;> omega

/-- No live key sits under the cursor. -/
theorem slot_ne_cursor (h : key ∈ ring.live) :
    ring.slot key ≠ ring.cursor := by
  have hpos := age_pos h
  have hage := ring.age_le key
  unfold slot
  split <;> omega

/-- Two live keys have different slots. -/
theorem slot_inj {key' : κ} (h : key ∈ ring.live) (h' : key' ∈ ring.live)
    (heq : ring.slot key = ring.slot key') : key = key' := by
  have hlt := idxOf_lt_length_iff.mpr h
  have hlt' := idxOf_lt_length_iff.mpr h'
  have hlength := ring.length_le
  have hcursor := ring.cursor_le
  -- the slots are one ring apart unless the ages agree
  have hage : ring.live.idxOf key = ring.live.idxOf key' := by
    unfold slot age at heq
    split at heq <;> split at heq <;> omega
  exact (idxOf_inj h).mp hage

/-- The keys that stay are as old as before. -/
theorem age_evict (h : key ∈ ring.evict.live) :
    ring.evict.age key = ring.age key := by
  show ring.kept.length - ring.kept.idxOf key = _
  replace h : key ∈ ring.kept := h
  by_cases hroom : ring.live.length < capacity
  · rw [kept, if_pos hroom, age]
  rw [kept, if_neg hroom] at h ⊢
  rw [age]
  cases hlive : ring.live with
  | nil => rfl
  | cons oldest rest =>
    rw [hlive, tail_cons] at h
    -- the oldest key is not the one that stays, the keys being distinct
    have hne : oldest ≠ key := by
      have hnodup := ring.nodup
      rw [hlive, nodup_cons] at hnodup
      intro heq
      exact hnodup.1 (heq ▸ h)
    rw [tail_cons, idxOf_cons_ne _ hne, length_cons]
    omega

theorem slot_evict (h : key ∈ ring.evict.live) :
    ring.evict.slot key = ring.slot key := by
  rw [slot, slot, age_evict h]
  rfl

section Push

variable {ring : SlotRing κ capacity} {key : κ} (hnew : key ∉ ring.live)
  (hroom : ring.live.length < capacity)

theorem age_push_self : (ring.push key hnew hroom).age key = 1 := by
  show (ring.live ++ [key]).length - (ring.live ++ [key]).idxOf key = 1
  rw [idxOf_append_of_notMem hnew, idxOf_cons_self]
  simp

variable {other : κ}

/-- A live key gets older by one. -/
theorem age_push_of_mem (hother : other ∈ ring.live) :
    (ring.push key hnew hroom).age other = ring.age other + 1 := by
  have hlt := idxOf_lt_length_iff.mpr hother
  show (ring.live ++ [key]).length - (ring.live ++ [key]).idxOf other = _
  rw [idxOf_append_of_mem hother, length_append, length_singleton, age]
  omega

/-- A new key takes the slot under the cursor. -/
theorem slot_push_self : (ring.push key hnew hroom).slot key = ring.cursor := by
  have hcursor := ring.cursor_le
  rw [slot, age_push_self]
  show (if 1 ≤ ring.advance then ring.advance - 1 else ring.advance + (capacity + 1) - 1) = _
  unfold advance
  split <;> split <;> omega

/-- Live keys keep their slots. -/
theorem slot_push_of_mem (hother : other ∈ ring.live) :
    (ring.push key hnew hroom).slot other = ring.slot other := by
  have hcursor := ring.cursor_le
  have hage := (ring.push key hnew hroom).age_le other
  rw [age_push_of_mem hnew hroom hother] at hage
  rw [slot, slot, age_push_of_mem hnew hroom hother]
  show (if ring.age other + 1 ≤ ring.advance then ring.advance - (ring.age other + 1)
    else ring.advance + (capacity + 1) - (ring.age other + 1)) = _
  unfold advance
  split <;> split <;> split <;> omega

end Push

end SlotRing
