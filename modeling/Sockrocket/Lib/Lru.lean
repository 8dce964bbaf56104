import Mathlib

/-!
# Least-recently-used caches

The `lru` crate's `LruCache`: bindings in order of use, latest first, at most `capacity` of them and
one per key. The bounds are fields of the structure, so every operation keeps them.

What a client of a cache needs is `get_eq_some` (a hit is a binding), `mem_get` (a lookup only
reorders), `mem_put` (a store adds its own binding and nothing else) and `mem_erase`.
-/

/-- Bindings by recency of use, latest first. -/
structure LruCache (κ ν : Type*) (capacity : Nat) where
  entries : List (κ × ν)
  nodup_keys : (entries.map Prod.fst).Nodup
  length_le : entries.length ≤ capacity

namespace LruCache

open List

variable {κ ν : Type*} {capacity : Nat}

/-- A cache without bindings. -/
def empty : LruCache κ ν capacity where
  entries := []
  nodup_keys := List.nodup_nil
  length_le := Nat.zero_le _

variable [DecidableEq κ]

/-- The bindings of every other key. -/
def others (entries : List (κ × ν)) (key : κ) : List (κ × ν) :=
  entries.filter fun entry => entry.1 ≠ key

theorem others_sublist (entries : List (κ × ν)) (key : κ) : (others entries key).Sublist entries :=
  filter_sublist

theorem not_mem_others (entries : List (κ × ν)) (key : κ) :
    key ∉ (others entries key).map Prod.fst := by
  intro h
  obtain ⟨entry, hentry, rfl⟩ := mem_map.mp h
  simp [others] at hentry

variable {entries : List (κ × ν)}

theorem nodup_cons_others (h : (entries.map Prod.fst).Nodup) (key : κ)
    (value : ν) : (((key, value) :: others entries key).map Prod.fst).Nodup := by
  rw [map_cons, nodup_cons]
  exact ⟨not_mem_others entries key, h.sublist ((others_sublist entries key).map _)⟩

/-- The value bound to a key, without marking it as used. -/
def peek? (cache : LruCache κ ν capacity) (key : κ) : Option ν :=
  (cache.entries.find? fun entry => entry.1 = key).map Prod.snd

/-- Removing a binding: an eviction, or `pop`. -/
def erase (cache : LruCache κ ν capacity) (key : κ) : LruCache κ ν capacity where
  entries := others cache.entries key
  nodup_keys := cache.nodup_keys.sublist ((others_sublist _ _).map _)
  length_le := (others_sublist _ _).length_le.trans cache.length_le

/-- Bind a key and mark it as the latest used. A full cache loses its least recently used
binding. -/
def put (cache : LruCache κ ν capacity) (key : κ) (value : ν) : LruCache κ ν capacity where
  entries := ((key, value) :: others cache.entries key).take capacity
  nodup_keys :=
    (nodup_cons_others cache.nodup_keys key value).sublist ((List.take_sublist _ _).map _)
  length_le := List.length_take_le _ _

/-- The value bound to a key. A hit becomes the latest used binding. -/
def get (cache : LruCache κ ν capacity) (key : κ) : Option ν × LruCache κ ν capacity :=
  match cache.peek? key with
  | some value => (some value, cache.put key value)
  | none => (none, cache)

/-- `pop_lru`: the least recently used binding, and the cache without it. -/
def popLru (cache : LruCache κ ν capacity) : Option ((κ × ν) × LruCache κ ν capacity) :=
  cache.entries.getLast?.map fun entry =>
    (entry,
      { entries := cache.entries.dropLast
        nodup_keys := cache.nodup_keys.sublist ((List.dropLast_sublist _).map _)
        length_le := (List.dropLast_sublist _).length_le.trans cache.length_le })

variable {cache : LruCache κ ν capacity} {key : κ} {value : ν}

theorem mem_of_peek?_eq_some (h : cache.peek? key = some value) : (key, value) ∈ cache.entries := by
  obtain ⟨⟨key', value'⟩, hfind, rfl⟩ := Option.map_eq_some_iff.mp h
  have hkey := find?_some hfind
  obtain rfl : key' = key := by simpa using hkey
  exact mem_of_find?_eq_some hfind

variable {entry : κ × ν}

theorem mem_put (h : entry ∈ (cache.put key value).entries) :
    entry = (key, value) ∨ entry ∈ cache.entries := by
  rcases mem_cons.mp (mem_of_mem_take h) with heq | hmem
  · exact .inl heq
  · exact .inr ((others_sublist _ _).mem hmem)

theorem mem_erase (h : entry ∈ (cache.erase key).entries) : entry ∈ cache.entries :=
  (others_sublist _ _).mem h

theorem get_eq_some (h : (cache.get key).1 = some value) : (key, value) ∈ cache.entries := by
  unfold get at h
  split at h
  · rename_i value' hpeek
    obtain rfl : value' = value := by simpa using h
    exact mem_of_peek?_eq_some hpeek
  · cases h

theorem mem_get (h : entry ∈ (cache.get key).2.entries) :
    entry ∈ cache.entries := by
  unfold get at h
  split at h
  · rename_i value hpeek
    rcases mem_put h with rfl | hmem
    · exact mem_of_peek?_eq_some hpeek
    · exact hmem
  · exact h

theorem peek?_of_mem (h : (key, value) ∈ cache.entries) : cache.peek? key = some value := by
  cases hfind : cache.entries.find? (fun entry => entry.1 = key) with
  | none =>
    have hnone := find?_eq_none.mp hfind (key, value) h
    simp at hnone
  | some entry =>
    have hkey : entry.1 = key := by simpa using find?_some hfind
    have hmem := mem_of_find?_eq_some hfind
    have heq : entry = (key, value) :=
      inj_on_of_nodup_map cache.nodup_keys hmem h hkey
    simp [peek?, hfind, heq]

theorem mem_take_put_self {n : Nat} (hcapacity : 0 < capacity) :
    (key, value) ∈ (cache.put key value).entries.take (n + 1) := by
  obtain ⟨rest, rfl⟩ := Nat.exists_eq_succ_of_ne_zero hcapacity.ne'
  simp [put]

/-- A store pushes every other binding back by at most one place. -/
theorem mem_take_put {n : Nat} (h : entry ∈ cache.entries.take n)
    (hkey : entry.1 ≠ key) (hn : n < capacity) :
    entry ∈ (cache.put key value).entries.take (n + 1) := by
  have hothers : entry ∈ (others cache.entries key).take n := by
    have hsplit : others cache.entries key =
        others (cache.entries.take n) key ++ others (cache.entries.drop n) key := by
      rw [others, others, others, ← filter_append, take_append_drop]
    have hlength : (others (cache.entries.take n) key).length ≤ n :=
      (others_sublist _ _).length_le.trans (length_take_le _ _)
    rw [hsplit, take_append, take_of_length_le hlength]
    refine mem_append_left _ (mem_filter.mpr ⟨h, ?_⟩)
    simpa using hkey
  show entry ∈ (((key, value) :: others cache.entries key).take capacity).take (n + 1)
  rw [take_take, min_eq_left hn, take_succ_cons]
  exact mem_cons_of_mem _ hothers

/-- A binding and the bindings of the other keys are all there is. -/
theorem perm_others (hnodup : (entries.map Prod.fst).Nodup)
    (h : (key, value) ∈ entries) :
    entries.Perm ((key, value) :: others entries key) := by
  obtain ⟨before, after, rfl⟩ := append_of_mem h
  rw [map_append, map_cons, nodup_middle, nodup_cons, mem_append, not_or] at hnodup
  have hkeep {part : List (κ × ν)} (hpart : key ∉ part.map Prod.fst) : others part key = part := by
    refine filter_eq_self.mpr fun entry hentry => decide_eq_true fun heq => hpart ?_
    exact heq ▸ mem_map_of_mem hentry
  have hothers : others (before ++ (key, value) :: after) key = before ++ after := by
    rw [others, filter_append, filter_cons_of_neg (by simp)]
    exact congrArg₂ _ (hkeep hnodup.1.1) (hkeep hnodup.1.2)
  rw [hothers]
  exact perm_middle

/-- A lookup changes the order of the bindings only. -/
theorem perm_get (cache : LruCache κ ν capacity) (key : κ) :
    (cache.get key).2.entries.Perm cache.entries := by
  unfold get
  split
  · rename_i value hpeek
    have hperm := perm_others cache.nodup_keys (mem_of_peek?_eq_some hpeek)
    have hlength := hperm.length_eq ▸ cache.length_le
    show (((key, value) :: others cache.entries key).take capacity).Perm _
    rw [take_of_length_le hlength]
    exact hperm.symm
  · exact .refl _

theorem key_ne_of_peek?_eq_none (h : cache.peek? key = none) :
    ∀ entry ∈ cache.entries, entry.1 ≠ key := by
  intro entry hentry
  simpa using find?_eq_none.mp (Option.map_eq_none_iff.mp h) entry hentry

/-- A store of a new key in a cache with room. -/
theorem entries_put (cache : LruCache κ ν capacity) (value : ν)
    (hnew : ∀ entry ∈ cache.entries, entry.1 ≠ key) (hroom : cache.entries.length < capacity) :
    (cache.put key value).entries = (key, value) :: cache.entries := by
  have hothers : others cache.entries key = cache.entries :=
    filter_eq_self.mpr fun entry hentry => decide_eq_true (hnew entry hentry)
  show ((key, value) :: others cache.entries key).take capacity = _
  rw [hothers, take_of_length_le hroom]

end LruCache
