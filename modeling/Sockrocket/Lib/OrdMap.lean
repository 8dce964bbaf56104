import Mathlib

/-!
# Ordered maps

A map is the list of its entries by ascending key. `update` is the entry of a key, made where there
is none, and changed; what `get?` and the sum over all entries see of it are the lemmas proofs use.

`swapRemove` takes an element out of a list and puts the last one in its place.
-/

variable {κ ν : Type*} [LinearOrder κ]

/-- Entries by ascending key. -/
structure OrdMap (κ ν : Type*) [LinearOrder κ] where
  entries : List (κ × ν)
  ascending : entries.Pairwise fun a b => a.1 < b.1

namespace OrdMap

open List Option

def empty : OrdMap κ ν where
  entries := []
  ascending := .nil

def get? (map : OrdMap κ ν) (key : κ) : Option ν :=
  map.entries.lookup key

/-- The entry of the key, `fresh` if there is none, changed by `f`. -/
def updateList (key : κ) (fresh : ν) (f : ν → ν) : List (κ × ν) → List (κ × ν)
  | [] => [(key, f fresh)]
  | (other, value) :: rest =>
    if key < other then (key, f fresh) :: (other, value) :: rest
    else if key = other then (key, f value) :: rest
    else (other, value) :: updateList key fresh f rest

variable {key : κ} {fresh : ν} {f : ν → ν}

variable {entries : List (κ × ν)}

theorem mem_updateList {entry : κ × ν} (h : entry ∈ updateList key fresh f entries) :
    entry.1 = key ∨ entry ∈ entries := by
  induction entries with
  | nil =>
    obtain rfl := mem_singleton.mp h
    exact .inl rfl
  | cons first rest ih =>
    obtain ⟨other, value⟩ := first
    rw [updateList] at h
    split_ifs at h with hless hsame
    · rcases mem_cons.mp h with rfl | hold
      · exact .inl rfl
      · exact .inr hold
    · rcases mem_cons.mp h with rfl | hold
      · exact .inl rfl
      · exact .inr (mem_cons_of_mem _ hold)
    · rcases mem_cons.mp h with rfl | hold
      · exact .inr mem_cons_self
      · exact (ih hold).imp_right (mem_cons_of_mem _)

theorem ascending_updateList (h : entries.Pairwise fun a b => a.1 < b.1) :
    (updateList key fresh f entries).Pairwise fun a b => a.1 < b.1 := by
  induction entries with
  | nil => exact pairwise_singleton _ _
  | cons first rest ih =>
    obtain ⟨other, value⟩ := first
    obtain ⟨hfirst, hrest⟩ := pairwise_cons.mp h
    rw [updateList]
    split_ifs with hless hsame
    · refine pairwise_cons.mpr ⟨?_, h⟩
      intro entry hentry
      rcases mem_cons.mp hentry with rfl | hentry
      · exact hless
      · exact hless.trans (hfirst entry hentry)
    · exact pairwise_cons.mpr ⟨hsame ▸ hfirst, hrest⟩
    · refine pairwise_cons.mpr ⟨?_, ih hrest⟩
      intro entry hentry
      rcases mem_updateList hentry with hkey | hold
      · exact hkey ▸ lt_of_le_of_ne (not_lt.mp hless) (Ne.symm hsame)
      · exact hfirst entry hold

/-- `BTreeMap::entry`, `or_insert` and a change of the value. -/
def update (map : OrdMap κ ν) (key : κ) (fresh : ν) (f : ν → ν) : OrdMap κ ν where
  entries := updateList key fresh f map.entries
  ascending := ascending_updateList map.ascending

/-- `BTreeMap::insert`. -/
def insert (map : OrdMap κ ν) (key : κ) (value : ν) : OrdMap κ ν :=
  map.update key value fun _ => value

theorem lookup_cons_ite (entries : List (κ × ν)) (other : κ) (value : ν) :
    ((other, value) :: entries).lookup key =
      if key = other then some value else entries.lookup key := by
  rw [lookup_cons]
  by_cases hsame : key = other
  · simp [hsame]
  · simp [hsame, beq_false_of_ne hsame]

theorem lookup_eq_none_of_lt (h : ∀ entry ∈ entries, key < entry.1) :
    entries.lookup key = none := by
  rw [lookup_eq_none_iff]
  intro entry hentry
  exact bne_iff_ne.mpr (h entry hentry).ne

theorem lookup_cons_eq_none {other : κ} (value : ν) (hless : key < other)
    (hfirst : ∀ entry ∈ entries, other < entry.1) :
    ((other, value) :: entries).lookup key = none := by
  apply lookup_eq_none_of_lt
  intro entry hentry
  rcases mem_cons.mp hentry with rfl | hentry
  · exact hless
  · exact hless.trans (hfirst entry hentry)

theorem get?_update (map : OrdMap κ ν) (other : κ) :
    (map.update key fresh f).get? other =
      if other = key then some (f ((map.get? key).getD fresh)) else map.get? other := by
  obtain ⟨entries, ascending⟩ := map
  unfold update get?
  dsimp only
  induction entries with
  | nil =>
    rw [updateList, lookup_cons_ite]
    rfl
  | cons first rest ih =>
    obtain ⟨mine, value⟩ := first
    obtain ⟨hfirst, hrest⟩ := pairwise_cons.mp ascending
    by_cases hless : key < mine
    · have hnone := lookup_cons_eq_none value hless hfirst
      rw [updateList, if_pos hless, lookup_cons_ite, hnone, getD_none]
    by_cases hmine : key = mine
    · subst hmine
      rw [updateList, if_neg hless, if_pos rfl, lookup_cons_ite, lookup_cons_ite, if_pos rfl,
        lookup_cons_ite, getD_some]
      split_ifs <;> rfl
    · rw [updateList, if_neg hless, if_neg hmine, lookup_cons_ite, ih hrest, lookup_cons_ite,
        if_neg hmine, lookup_cons_ite]
      split_ifs with hother hkey
      · exact absurd (hkey.symm.trans hother) hmine
      · rfl
      · rfl
      · rfl

theorem mem_of_get? {map : OrdMap κ ν} {value : ν} (h : map.get? key = some value) :
    (key, value) ∈ map.entries := by
  obtain ⟨before, after, hsplit, -⟩ := lookup_eq_some_iff.mp h
  rw [hsplit]
  exact mem_append_right _ mem_cons_self

/-! ## Sums -/

/-- The sum over all entries. -/
def sum (map : OrdMap κ ν) (weight : κ → ν → Nat) : Nat :=
  (map.entries.map fun entry => weight entry.1 entry.2).sum

/-- The weight of one entry, if it is there. -/
def weightAt (map : OrdMap κ ν) (weight : κ → ν → Nat) (key : κ) : Nat :=
  (map.get? key).elim 0 (weight key)

theorem sum_empty (weight : κ → ν → Nat) : (empty : OrdMap κ ν).sum weight = 0 :=
  rfl

/-- An update replaces the weight of one entry. -/
theorem sum_update (map : OrdMap κ ν) (key : κ) (fresh : ν) (f : ν → ν) (weight : κ → ν → Nat) :
    (map.update key fresh f).sum weight + map.weightAt weight key =
      map.sum weight + weight key (f ((map.get? key).getD fresh)) := by
  obtain ⟨entries, ascending⟩ := map
  unfold update sum weightAt get?
  dsimp only
  induction entries with
  | nil => simp [updateList]
  | cons first rest ih =>
    obtain ⟨mine, value⟩ := first
    obtain ⟨hfirst, hrest⟩ := pairwise_cons.mp ascending
    rw [updateList]
    split_ifs with hless hmine
    · rw [lookup_cons_eq_none value hless hfirst, getD_none, elim_none,
        add_zero, map_cons, sum_cons, add_comm]
    · rw [lookup_cons_ite, if_pos hmine, getD_some, elim_some, map_cons,
        map_cons, sum_cons, sum_cons, hmine]
      dsimp only
      omega
    · have hsum := ih hrest
      rw [lookup_cons_ite, if_neg hmine, map_cons, map_cons, sum_cons, sum_cons]
      omega

variable {weight : κ → ν → Nat}

theorem weightAt_eq (map : OrdMap κ ν) (hfresh : weight key fresh = 0) :
    map.weightAt weight key = weight key ((map.get? key).getD fresh) := by
  rw [weightAt]
  cases map.get? key with
  | none => exact hfresh.symm
  | some value => rfl

/-- An update that adds to the weight of an entry. -/
theorem sum_update_add (map : OrdMap κ ν) {more : Nat} (hfresh : weight key fresh = 0)
    (hmore : weight key (f ((map.get? key).getD fresh)) =
      weight key ((map.get? key).getD fresh) + more) :
    (map.update key fresh f).sum weight = map.sum weight + more := by
  have hsum := map.sum_update key fresh f weight
  rw [weightAt_eq map hfresh, hmore] at hsum
  omega

theorem sum_eq_zero (map : OrdMap κ ν) (h : ∀ key value, weight key value = 0) :
    map.sum weight = 0 :=
  List.sum_eq_zero fun _ hmem => by
    obtain ⟨entry, -, rfl⟩ := mem_map.mp hmem
    exact h entry.1 entry.2

/-- The sum when only one key has weight. -/
theorem sum_eq_weightAt (map : OrdMap κ ν) (key : κ)
    (h : ∀ other, other ≠ key → ∀ value, weight other value = 0) :
    map.sum weight = map.weightAt weight key := by
  obtain ⟨entries, ascending⟩ := map
  unfold sum weightAt get?
  dsimp only
  induction entries with
  | nil => rfl
  | cons first rest ih =>
    obtain ⟨mine, value⟩ := first
    obtain ⟨hfirst, hrest⟩ := pairwise_cons.mp ascending
    rw [map_cons, sum_cons, lookup_cons_ite, ih hrest]
    by_cases hmine : key = mine
    · subst hmine
      rw [if_pos rfl, lookup_eq_none_of_lt hfirst, elim_none, add_zero, elim_some]
    · rw [if_neg hmine, h mine (Ne.symm hmine), zero_add]

theorem sum_mono (map : OrdMap κ ν) {weight' : κ → ν → Nat}
    (h : ∀ key value, weight key value ≤ weight' key value) :
    map.sum weight ≤ map.sum weight' :=
  sum_le_sum fun entry _ => h entry.1 entry.2

/-- After changes of entries, the keys that are there. -/
theorem isSome_get?_foldl {α : Type*} (keyOf : α → κ) (freshOf : α → ν) (change : α → ν → ν)
    (items : List α) (map : OrdMap κ ν) (key : κ) :
    ((items.foldl (fun map item => map.update (keyOf item) (freshOf item) (change item))
      map).get? key).isSome ↔ (map.get? key).isSome ∨ key ∈ items.map keyOf := by
  induction items generalizing map with
  | nil => simp
  | cons item items ih =>
    rw [foldl_cons, ih, get?_update, map_cons, mem_cons]
    split
    · next hsame => simp [hsame]
    · next hother => simp [hother]

end OrdMap

/-! ## Removal by exchange -/

/-- `Vec::swap_remove`. -/
def swapRemove {α : Type*} (xs : List α) (index : Nat) : List α :=
  match xs.getLast? with
  | none => []
  | some last => (xs.set index last).dropLast

/-- Without the element, in another order. -/
theorem swapRemove_perm {α : Type*} {before after : List α} {x : α} :
    (swapRemove (before ++ x :: after) before.length).Perm (before ++ after) := by
  rcases List.eq_nil_or_concat after with rfl | ⟨rest, last, rfl⟩
  · simp [swapRemove]
  have hlast : (before ++ x :: rest.concat last).getLast? = some last := by
    rw [List.concat_eq_append, ← List.cons_append, ← List.append_assoc]
    exact List.getLast?_concat
  have hset : (before ++ x :: rest.concat last).set before.length last =
      (before ++ last :: rest) ++ [last] := by
    simp
  rw [swapRemove, hlast]
  dsimp only
  rw [hset, List.dropLast_concat, List.concat_eq_append]
  exact (List.perm_append_singleton last rest).symm.append_left before
