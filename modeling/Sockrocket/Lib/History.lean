import Mathlib

/-!
# Histories

A history is a list of events, the latest last. A law says which event may follow which past;
`Lawful` are the histories that obey it throughout. A system obeys a law if every event it adds is
allowed by the events before it, so a law is proved one event at a time and used at any place of
the history.
-/

namespace History

open List

variable {ε : Type*}

/-- Every event of the history is allowed by the events before it. -/
inductive Lawful (Allowed : List ε → ε → Prop) : List ε → Prop where
  | nil : Lawful Allowed []
  | snoc {past : List ε} {event : ε} (before : Lawful Allowed past) (allowed : Allowed past event) :
      Lawful Allowed (past ++ [event])

variable {Allowed : List ε → ε → Prop}

/-- The law holds at any place of a lawful history. -/
theorem Lawful.allowed_at {history : List ε} (h : Lawful Allowed history) {past after : List ε}
    {event : ε} (hsplit : history = past ++ event :: after) : Allowed past event := by
  induction h generalizing past after with
  | nil => cases past <;> cases hsplit
  | @snoc init last before allowed ih =>
    rcases eq_nil_or_concat after with rfl | ⟨rest, final, rfl⟩
    · obtain ⟨rfl, hlast⟩ := append_inj' hsplit rfl
      obtain rfl := singleton_inj.mp hlast
      exact allowed
    · have hsame : init ++ [last] = (past ++ event :: rest) ++ [final] := by
        rw [hsplit, append_assoc, cons_append, concat_eq_append]
      exact ih (append_inj' hsame rfl).1

/-- What an earlier part of a lawful history obeys. -/
theorem Lawful.of_append {history more : List ε} (h : Lawful Allowed (history ++ more)) :
    Lawful Allowed history := by
  induction more using reverseRecOn with
  | nil => rwa [append_nil] at h
  | append_singleton more last ih =>
    refine ih ?_
    generalize hall : history ++ (more ++ [last]) = whole at h
    cases h with
    | nil => simp at hall
    | snoc before allowed =>
      rw [← append_assoc] at hall
      rw [(append_inj' hall rfl).1]
      exact before

end History
