import Mathlib

/-!
# Pieces of a message

A message is cut into pieces of at most a given size, and put together again from pieces that arrive
in any order and more than once. `Pieces.gathered ps seen` are the pieces `ps` with a gap at every
index not in `seen`.
-/

namespace Pieces

open List

variable {α : Type*}

/-- The first `total` pieces of `size` elements. -/
def cut (size total : Nat) (message : List α) : List (List α) :=
  (List.range total).map fun i => (message.drop (i * size)).take size

theorem length_cut (size total : Nat) (message : List α) :
    (cut size total message).length = total := by
  rw [cut, length_map, length_range]

theorem flatten_cut_take (size total : Nat) (message : List α) :
    (cut size total message).flatten = message.take (total * size) := by
  induction total with
  | zero => rw [Nat.zero_mul, take_zero]; rfl
  | succ total ih =>
    rw [cut] at ih ⊢
    rw [range_succ, map_append, flatten_append, ih, map_singleton,
      flatten_singleton, Nat.succ_mul, take_add]

variable {size : Nat} {message : List α}

/-- Enough pieces are the whole message. -/
theorem flatten_cut {total : Nat} (h : message.length ≤ total * size) :
    (cut size total message).flatten = message := by
  rw [flatten_cut_take, take_of_length_le h]

/-- All pieces of `size` elements; the last one may be shorter. -/
def chunks (size : Nat) (message : List α) : List (List α) :=
  cut size ((message.length + size - 1) / size) message

theorem flatten_chunks (hsize : 0 < size) (message : List α) :
    (chunks size message).flatten = message := by
  refine flatten_cut ?_
  have hdiv := Nat.div_add_mod (message.length + size - 1) size
  have hmod := Nat.mod_lt (message.length + size - 1) hsize
  rw [mul_comm]
  omega

/-- No piece is empty or too long. -/
theorem length_of_mem_chunks (hsize : 0 < size) {piece : List α}
    (h : piece ∈ chunks size message) : 0 < piece.length ∧ piece.length ≤ size := by
  obtain ⟨i, hi, rfl⟩ := mem_map.mp h
  rw [mem_range, Nat.lt_div_iff_mul_lt hsize] at hi
  rw [length_take, length_drop]
  omega

/-! ## Gathering -/

/-- The pieces seen so far, in their places. -/
def gathered (ps : List (List α)) (seen : List Nat) : List (Option (List α)) :=
  ps.mapIdx fun i p => if i ∈ seen then some p else none

/-- The length of what is there. -/
def stored (parts : List (Option (List α))) : Nat :=
  (parts.filterMap id).flatten.length

variable {ps : List (List α)} {seen : List Nat}

theorem length_gathered (ps : List (List α)) (seen : List Nat) :
    (gathered ps seen).length = ps.length :=
  length_mapIdx

theorem gathered_nil (ps : List (List α)) : gathered ps [] = replicate ps.length none := by
  refine ext_getElem (by rw [length_gathered, length_replicate]) fun i h h' => ?_
  simp [gathered]

variable {i : Nat}

theorem getElem?_gathered (seen : List Nat) (hi : i < ps.length) :
    (gathered ps seen)[i]? = some (if i ∈ seen then some ps[i] else none) := by
  rw [List.getElem?_eq_getElem (by rwa [length_gathered])]
  simp [gathered]

theorem set_gathered (hi : i < ps.length) :
    (gathered ps seen).set i (some ps[i]) = gathered ps (i :: seen) := by
  refine ext_getElem ?_ fun j h h' => ?_
  · rw [length_set, length_gathered, length_gathered]
  · rw [getElem_set]
    simp only [gathered, getElem_mapIdx, mem_cons]
    by_cases hj : i = j
    · subst hj
      simp
    · rw [if_neg hj]
      simp [Ne.symm hj]

theorem gathered_of_mem (h : i ∈ seen) : gathered ps (i :: seen) = gathered ps seen := by
  rw [gathered, gathered]
  congr 1
  funext j p
  by_cases hj : j = i
  · subst hj
    rw [if_pos mem_cons_self, if_pos h]
  · simp [hj]

theorem all_isSome_gathered :
    (gathered ps seen).all Option.isSome ↔ ∀ i < ps.length, i ∈ seen := by
  rw [all_eq_true]
  constructor
  · intro h i hi
    have hmem := mem_of_getElem? (getElem?_gathered seen hi)
    by_contra hnot
    rw [if_neg hnot] at hmem
    cases h none hmem
  · intro h part hpart
    obtain ⟨i, hi, rfl⟩ := getElem_of_mem hpart
    rw [length_gathered] at hi
    simp [gathered, if_pos (h i hi)]

/-- Once every index was seen, the pieces are the message. -/
theorem flatten_gathered (h : ∀ i < ps.length, i ∈ seen) :
    ((gathered ps seen).filterMap id).flatten = ps.flatten := by
  have hall : gathered ps seen = ps.map some := by
    refine ext_getElem (by rw [length_gathered, length_map]) fun i hi hi' => ?_
    rw [length_gathered] at hi
    simp [gathered, if_pos (h i hi)]
  rw [hall, filterMap_map]
  simp

theorem stored_replicate (n : Nat) : stored (replicate n (none : Option (List α))) = 0 := by
  rw [stored, filterMap_replicate_of_none rfl]
  rfl

variable {parts : List (Option (List α))}

/-- A new piece adds its length. -/
theorem stored_set (h : parts[i]? = some none)
    (data : List α) : stored (parts.set i (some data)) = stored parts + data.length := by
  obtain ⟨hi, hget⟩ := List.getElem?_eq_some_iff.mp h
  have hsplit : parts = parts.take i ++ none :: parts.drop (i + 1) := by
    rw [← hget, getElem_cons_drop, take_append_drop]
  have hset : parts.set i (some data) = parts.take i ++ some data :: parts.drop (i + 1) := by
    rw [set_eq_take_append_cons_drop, if_pos hi]
  rw [hset, stored, stored]
  conv_rhs => rw [hsplit]
  simp only [filterMap_append, filterMap_cons, id_eq, flatten_append, flatten_cons, length_append]
  omega

theorem filterMap_sublist
    (h : List.Forall₂ (fun part p => part = none ∨ part = some p) parts ps) :
    (parts.filterMap id).Sublist ps := by
  induction h with
  | nil => exact List.Sublist.slnil
  | cons hpart _ ih =>
    rcases hpart with rfl | rfl
    · exact ih.cons _
    · exact ih.cons_cons _

theorem stored_gathered_le (ps : List (List α)) (seen : List Nat) :
    stored (gathered ps seen) ≤ ps.flatten.length := by
  have hparts : List.Forall₂ (fun part p => part = none ∨ part = some p) (gathered ps seen) ps := by
    refine forall₂_iff_get.mpr ⟨length_gathered ps seen, fun i hi hi' => ?_⟩
    simp only [gathered, get_eq_getElem, getElem_mapIdx]
    split
    · exact .inr rfl
    · exact .inl rfl
  exact (filterMap_sublist hparts).flatten.length_le

end Pieces
