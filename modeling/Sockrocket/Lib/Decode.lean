import Mathlib

/-!
# Decoding a stream item by item

A decoder takes one item after the other off the front of a stream; what it takes may depend on the
items before, such as a counter or a running hash. `Decodes` are the items found at the front of a
stream.

Two rules say which items those can be. If the stream was made by an encoder that the decoder
inverts, they are the first of its items, and the rest is what the encoder made of the others:
`Decodes.of_encodeAll`; those encoded as a whole are among them: `Decodes.first`. If the decoder
accepts nothing but the next item of a list, whatever the stream, they are the first of that list: `Decodes.of_authentic`.
-/

namespace Decode

open List

variable {α β : Type*}

/-- These items are at the front of the stream, before the rest. -/
inductive Decodes (take : List β → List α → Option (β × List α)) (all : List α) :
    List β → List α → Prop where
  | nil : Decodes take all [] all
  | snoc {done : List β} {rest rest' : List α} {x : β} (before : Decodes take all done rest)
      (next : take done rest = some (x, rest')) : Decodes take all (done ++ [x]) rest'

/-- The stream of some items, after others. -/
def encodeAll (encode : List β → β → List α) : List β → List β → List α
  | _, [] => []
  | done, x :: xs => encode done x ++ encodeAll encode (done ++ [x]) xs

variable {take : List β → List α → Option (β × List α)} {encode : List β → β → List α}

variable {all done rest : List _} {items : List β} {more : List α}

/-- The items of a stream made by an encoder are the first of its items. -/
theorem Decodes.of_encodeAll (h : Decodes take all done rest)
    (happend : ∀ {done rest x rest'}, take done rest = some (x, rest') → ∀ more,
      take done (rest ++ more) = some (x, rest' ++ more))
    (hnil : ∀ done, take done [] = none)
    (hencode : ∀ done x left, items = done ++ x :: left → ∀ more,
      take done (encode done x ++ more) = some (x, more))
    (hall : all ++ more = encodeAll encode [] items) :
    ∃ left, items = done ++ left ∧ rest ++ more = encodeAll encode done left := by
  induction h with
  | nil => exact ⟨items, rfl, hall⟩
  | @snoc done rest rest' x before next ih =>
    obtain ⟨left, hitems, hleft⟩ := ih
    have htake := happend next more
    rw [hleft] at htake
    match left with
    | [] =>
      rw [encodeAll, hnil] at htake
      cases htake
    | y :: left =>
      rw [encodeAll, hencode done y left hitems] at htake
      obtain ⟨rfl, hrest⟩ := Prod.mk.inj (Option.some.inj htake)
      exact ⟨left, by rw [hitems, append_assoc, singleton_append], hrest.symm⟩

theorem encodeAll_append (done xs ys : List β) :
    encodeAll encode done (xs ++ ys) =
      encodeAll encode done xs ++ encodeAll encode (done ++ xs) ys := by
  induction xs generalizing done with
  | nil => rw [nil_append, append_nil]; rfl
  | cons x xs ih =>
    rw [cons_append, encodeAll, encodeAll, ih, append_assoc, append_assoc, singleton_append]

/-- An encoder that a decoder inverts is injective. -/
theorem encodeAll_inj {P : β → Prop} (hnil : ∀ done, take done [] = none)
    (hencode : ∀ done x, P x → ∀ more, take done (encode done x ++ more) = some (x, more))
    {done xs ys : List β} (hxs : ∀ x ∈ xs, P x) (hys : ∀ y ∈ ys, P y)
    (h : encodeAll encode done xs = encodeAll encode done ys) : xs = ys := by
  have htake (done : List β) {x : β} (hx : P x) (xs : List β) :
      take done (encodeAll encode done (x :: xs)) =
        some (x, encodeAll encode (done ++ [x]) xs) := hencode done x hx _
  induction xs generalizing done ys with
  | nil =>
    match ys with
    | [] => rfl
    | y :: ys =>
      have hy := htake done (hys y mem_cons_self) ys
      rw [← h, encodeAll, hnil] at hy
      cases hy
  | cons x xs ih =>
    have hx := htake done (hxs x mem_cons_self) xs
    rw [h] at hx
    match ys with
    | [] =>
      rw [encodeAll, hnil] at hx
      cases hx
    | y :: ys =>
      rw [htake done (hys y mem_cons_self)] at hx
      obtain ⟨rfl, hrest⟩ := Prod.mk.inj (Option.some.inj hx)
      rw [ih (fun z hz => hxs z (mem_cons_of_mem _ hz))
        (fun z hz => hys z (mem_cons_of_mem _ hz)) hrest.symm]

/-- A decoder that is stuck found the items that are there as a whole. -/
theorem Decodes.first (h : Decodes take all done rest)
    {first later : List β}
    (happend : ∀ {done rest x rest'}, take done rest = some (x, rest') → ∀ more,
      take done (rest ++ more) = some (x, rest' ++ more))
    (hnil : ∀ done, take done [] = none)
    (hencode : ∀ done x left, first ++ later = done ++ x :: left → ∀ more,
      take done (encode done x ++ more) = some (x, more))
    (hall : all ++ more = encodeAll encode [] (first ++ later))
    (hfirst : encodeAll encode [] first <+: all) (hstuck : take done rest = none) :
    first <+: done := by
  obtain ⟨left, hleft, hrest⟩ := h.of_encodeAll happend hnil hencode hall
  have hsplit : all = encodeAll encode [] done ++ rest := by
    rw [hleft, encodeAll_append, nil_append, ← hrest, ← append_assoc] at hall
    exact append_cancel_right hall
  have hdone : done <+: first ++ later := ⟨left, hleft.symm⟩
  rcases prefix_or_prefix_of_prefix (prefix_append first later) hdone with h | ⟨tail, htail⟩
  · exact h
  match tail with
  | [] =>
    rw [append_nil] at htail
    exact htail ▸ prefix_refl _
  | x :: tail =>
    -- the item after those found is there as a whole
    rw [hsplit, ← htail, encodeAll_append, nil_append, prefix_append_right_inj, encodeAll] at hfirst
    obtain ⟨rest', hrest'⟩ := hfirst
    rw [append_assoc] at hrest'
    have hnext : first ++ later = done ++ x :: (tail ++ later) := by
      rw [← htail, append_assoc, cons_append]
    rw [← hrest', hencode done x _ hnext] at hstuck
    cases hstuck

/-- A decoder that accepts only the next item of a list finds the first items of it. -/
theorem Decodes.of_authentic (h : Decodes take all done rest)
    (hauth : ∀ {done rest x rest'}, done <+: items → take done rest = some (x, rest') →
      done ++ [x] <+: items) : done <+: items := by
  induction h with
  | nil => exact nil_prefix
  | snoc before next ih => exact hauth ih next

end Decode
