import Mathlib

/-!
# Stable sorting

`slice::sort_by` and its variants keep the order of elements that compare equal. `sortBy le` sorts by
a Boolean comparison, read as "not greater". `pairwise_sortBy` is the rule for sorts in sequence: the
result is ordered by `le`, and elements that `le` does not separate stay in the order they had.
-/

namespace StableSort

open List

variable {α : Type*}

/-- Sort by a comparison, keeping the order of elements that compare equal. -/
def sortBy (le : α → α → Bool) (items : List α) : List α :=
  items.insertionSort fun a b => le a b = true

theorem perm_sortBy (le : α → α → Bool) (items : List α) : (sortBy le items).Perm items :=
  perm_insertionSort _ items

variable {items : List α} {le : α → α → Bool}

@[simp]
theorem mem_sortBy {a : α} :
    a ∈ sortBy le items ↔ a ∈ items :=
  (perm_sortBy le items).mem_iff

variable {related : α → α → Prop}

/-- Inserting an element that stood before all others keeps the order and the ties. -/
theorem pairwise_orderedInsert {a : α}
    (htotal : ∀ x y, le x y ∨ le y x)
    (htrans : ∀ x y z, le x y → le y z → le x z)
    (hrelated : ∀ b ∈ items, related a b)
    (h : items.Pairwise fun x y => le x y ∧ (le y x → related x y)) :
    (items.orderedInsert (fun x y => le x y) a).Pairwise
      fun x y => le x y ∧ (le y x → related x y) := by
  induction items with
  | nil => simp
  | cons b items ih =>
    rw [pairwise_cons] at h
    by_cases hle : le a b
    · rw [orderedInsert_cons_of_le _ items hle, pairwise_cons, pairwise_cons]
      refine ⟨fun c hc => ⟨?_, fun _ => hrelated c hc⟩, h⟩
      rcases mem_cons.mp hc with rfl | hc
      · exact hle
      · exact htrans _ _ _ hle (h.1 c hc).1
    · rw [orderedInsert_of_not_le _ items hle, pairwise_cons]
      refine ⟨fun c hc => ?_, ih (fun c hc => hrelated c (by simp [hc])) h.2⟩
      rw [mem_orderedInsert] at hc
      rcases hc with rfl | hc
      · -- the new element passed `b`, so the two do not compare equal
        exact ⟨(htotal b c).resolve_right hle, fun hcontra => absurd hcontra hle⟩
      · exact h.1 c hc

/-- A sorted list is ordered, and elements that compare equal keep their order. -/
theorem pairwise_sortBy (htotal : ∀ x y, le x y ∨ le y x)
    (htrans : ∀ x y z, le x y → le y z → le x z) (h : items.Pairwise related) :
    (sortBy le items).Pairwise fun x y => le x y ∧ (le y x → related x y) := by
  induction items with
  | nil => exact List.Pairwise.nil
  | cons a items ih =>
    rw [pairwise_cons] at h
    refine pairwise_orderedInsert htotal htrans (fun b hb => h.1 b ?_) (ih h.2)
    exact mem_sortBy.mp hb

/-- Elements that are no smaller than all others, and come last in order, stay where they are. -/
theorem sortBy_append {rest : List α} (hrest : sortBy le rest = rest)
    (h : ∀ a ∈ items, ∀ b ∈ rest, le a b) :
    sortBy le (items ++ rest) = sortBy le items ++ rest := by
  have hinsert : ∀ (a : α) (sorted : List α), (∀ b ∈ rest, le a b) →
      (sorted ++ rest).orderedInsert (fun x y => le x y) a =
        sorted.orderedInsert (fun x y => le x y) a ++ rest := by
    intro a sorted hle
    induction sorted with
    | nil =>
      cases rest with
      | nil => rfl
      | cons b rest => exact orderedInsert_cons_of_le _ rest (hle b mem_cons_self)
    | cons b sorted ih =>
      by_cases hab : le a b
      · rw [cons_append, orderedInsert_cons_of_le _ (sorted ++ rest) hab,
          orderedInsert_cons_of_le _ sorted hab]
        rfl
      · rw [cons_append, orderedInsert_of_not_le _ (sorted ++ rest) hab,
          orderedInsert_of_not_le _ sorted hab, ih]
        rfl
  induction items with
  | nil => exact hrest
  | cons a items ih =>
    have htail := ih fun b hb => h b (mem_cons_of_mem a hb)
    calc sortBy le (a :: (items ++ rest))
        = (sortBy le (items ++ rest)).orderedInsert (fun x y => le x y) a := rfl
      _ = (sortBy le items ++ rest).orderedInsert (fun x y => le x y) a := by rw [htail]
      _ = sortBy le (a :: items) ++ rest := hinsert a _ (h a mem_cons_self)

/-- Sorting by an order of which no two elements are tied forgets the order they had. -/
theorem sortBy_eq_of_perm {items' : List α} (h : items.Perm items')
    (htotal : ∀ x y, le x y ∨ le y x)
    (htrans : ∀ x y z, le x y → le y z → le x z)
    (hantisymm : ∀ x y, le x y → le y x → x = y) :
    sortBy le items = sortBy le items' := by
  have hsorted : ∀ list : List α, (sortBy le list).Pairwise fun x y => le x y := by
    intro list
    have hany : list.Pairwise fun _ _ => True := pairwise_of_forall fun _ _ => trivial
    exact (pairwise_sortBy htotal htrans hany).imp fun hpair => hpair.1
  refine List.Perm.eq_of_pairwise (fun a b _ _ => hantisymm a b) (hsorted items) (hsorted items') ?_
  exact (perm_sortBy le items).trans (h.trans (perm_sortBy le items').symm)

end StableSort
