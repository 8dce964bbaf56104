import Sockrocket.Lib.StableSort

/-!
# Grouping values under keys

The contents of a map from keys to vectors after a sequence of
`entry(key).or_insert_with(Vec::new).push(value)`. `valuesAt` is what a hash map holds under a key;
`grouped` is what an ordered map holds, in the order in which it is walked.
-/

namespace Grouping

open StableSort List

variable {κ ν : Type*} [DecidableEq κ]

/-- The values pushed under a key, in the order of the pushes. -/
def valuesAt (key : κ) (pushes : List (κ × ν)) : List ν :=
  (pushes.filter fun push => push.1 = key).map Prod.snd

/-- The keys of an ordered map in ascending order, each with its values. -/
def grouped (le : κ → κ → Bool) (pushes : List (κ × ν)) : List (κ × List ν) :=
  (sortBy le (pushes.map Prod.fst).dedup).map fun key => (key, valuesAt key pushes)

variable {pushes : List (κ × ν)}

@[simp]
theorem mem_valuesAt {key : κ} {value : ν} :
    value ∈ valuesAt key pushes ↔ (key, value) ∈ pushes := by
  simp [valuesAt]

theorem valuesAt_append (key : κ) (pushes pushes' : List (κ × ν)) :
    valuesAt key (pushes ++ pushes') = valuesAt key pushes ++ valuesAt key pushes' := by
  simp [valuesAt]

theorem valuesAt_flatMap {α : Type*} (key : κ) (f : α → List (κ × ν)) (items : List α) :
    valuesAt key (items.flatMap f) = items.flatMap fun item => valuesAt key (f item) := by
  induction items with
  | nil => rfl
  | cons item items ih => rw [flatMap_cons, flatMap_cons, valuesAt_append, ih]

/-- Pushes under different keys do not see each other. -/
theorem valuesAt_append_comm {pushes' : List (κ × ν)}
    (h : ∀ push ∈ pushes, ∀ push' ∈ pushes', push.1 ≠ push'.1) (key : κ) :
    valuesAt key (pushes ++ pushes') = valuesAt key (pushes' ++ pushes) := by
  have hnil : ∀ list : List (κ × ν), (∀ push ∈ list, push.1 ≠ key) → valuesAt key list = [] := by
    intro list hlist
    refine eq_nil_iff_forall_not_mem.mpr fun value hvalue => ?_
    exact hlist _ (mem_valuesAt.mp hvalue) rfl
  rw [valuesAt_append, valuesAt_append]
  by_cases hkey : ∃ push ∈ pushes, push.1 = key
  · obtain ⟨push, hpush, rfl⟩ := hkey
    rw [hnil pushes' fun push' hpush' => (h push hpush push' hpush').symm, append_nil, nil_append]
  · rw [hnil pushes fun push hpush heq => hkey ⟨push, hpush, heq⟩, append_nil, nil_append]

variable {le : κ → κ → Bool}

/-- A value is in the group of its key, and only there. -/
theorem mem_grouped {key : κ} {value : ν} :
    (∃ values, (key, values) ∈ grouped le pushes ∧ value ∈ values) ↔ (key, value) ∈ pushes := by
  constructor
  · rintro ⟨values, hgroup, hvalue⟩
    obtain ⟨key', -, heq⟩ := mem_map.mp hgroup
    obtain ⟨rfl, rfl⟩ := Prod.mk.injEq .. ▸ heq
    exact mem_valuesAt.mp hvalue
  · intro h
    refine ⟨valuesAt key pushes, mem_map.mpr ⟨key, ?_, rfl⟩, mem_valuesAt.mpr h⟩
    rw [mem_sortBy, mem_dedup]
    exact mem_map.mpr ⟨_, h, rfl⟩

/-- The values of a group stand in the order of the pushes under its key. -/
theorem pairwise_of_mem_grouped {group : κ × List ν} {related : ν → ν → Prop}
    (h : pushes.Pairwise fun a b => a.1 = b.1 → related a.2 b.2)
    (hgroup : group ∈ grouped le pushes) : group.2.Pairwise related := by
  obtain ⟨key, -, rfl⟩ := mem_map.mp hgroup
  refine pairwise_map.mpr ((h.sublist filter_sublist).imp_of_mem ?_)
  intro a b ha hb hrelated
  have hkeys : a.1 = key ∧ b.1 = key := by simp_all
  exact hrelated (hkeys.1.trans hkeys.2.symm)

/-- The groups stand in strictly ascending order of their keys. -/
theorem pairwise_grouped (pushes : List (κ × ν)) (htotal : ∀ x y, le x y ∨ le y x)
    (htrans : ∀ x y z, le x y → le y z → le x z) :
    (grouped le pushes).Pairwise fun a b => le a.1 b.1 ∧ a.1 ≠ b.1 := by
  have hsorted := pairwise_sortBy htotal htrans (nodup_dedup (pushes.map Prod.fst))
  have hnodup := (perm_sortBy le (pushes.map Prod.fst).dedup).nodup_iff.mpr (nodup_dedup _)
  rw [grouped, pairwise_map]
  exact (hsorted.and hnodup).imp fun ⟨⟨hle, _⟩, hne⟩ => ⟨hle, hne⟩

/-- An ordered map is known by the values under each key. -/
theorem grouped_congr {pushes' : List (κ × ν)} (htotal : ∀ x y, le x y ∨ le y x)
    (htrans : ∀ x y z, le x y → le y z → le x z)
    (hantisymm : ∀ x y, le x y → le y x → x = y)
    (h : ∀ key, valuesAt key pushes = valuesAt key pushes') :
    grouped le pushes = grouped le pushes' := by
  have hkeys : ∀ key, key ∈ pushes.map Prod.fst ↔ key ∈ pushes'.map Prod.fst := by
    intro key
    have hmem : ∀ list : List (κ × ν),
        key ∈ list.map Prod.fst ↔ ∃ value, value ∈ valuesAt key list := by
      intro list
      simp
    rw [hmem, hmem, h key]
  have hperm : (pushes.map Prod.fst).dedup.Perm (pushes'.map Prod.fst).dedup := by
    rw [perm_ext_iff_of_nodup (nodup_dedup _) (nodup_dedup _)]
    intro key
    rw [mem_dedup, mem_dedup]
    exact hkeys key
  unfold grouped
  rw [sortBy_eq_of_perm hperm htotal htrans hantisymm]
  exact map_congr_left fun key _ => by rw [h key]

end Grouping
