import Mathlib

/-!
# Incremental decoding

A decoder takes one item after the other off the front of the input that it holds, as long as a
whole item is there, and waits otherwise. `step` takes one item in a state, `drain` all of them. If
`step` is `Stable`, its items do not depend on what follows them, and then it does not matter how
the input was cut into chunks: `drain_append`.
-/

namespace Incremental

universe u v

variable {σ : Type u} {α : Type v}

/-- An item is taken from the front, and is not empty. -/
structure Stable (step : σ → List α → Option (σ × List α)) : Prop where
  shrinks : ∀ {s s' input rest}, step s input = some (s', rest) → rest.length < input.length
  append : ∀ {s s' input rest}, step s input = some (s', rest) → ∀ more,
    step s (input ++ more) = some (s', rest ++ more)

/-- Take items while there are some, at most a given number of them. -/
def drainFor (step : σ → List α → Option (σ × List α)) : Nat → σ → List α → σ × List α
  | 0, s, input => (s, input)
  | turns + 1, s, input =>
    match step s input with
    | some (s', rest) => drainFor step turns s' rest
    | none => (s, input)

/-- Take all the items that are there. -/
def drain (step : σ → List α → Option (σ × List α)) (s : σ) (input : List α) : σ × List α :=
  drainFor step input.length s input

/-- Hold on to more input, and take the items that are there. -/
def feed (step : σ → List α → Option (σ × List α)) (held : σ × List α) (chunk : List α) :
    σ × List α :=
  drain step held.1 (held.2 ++ chunk)

variable {step : σ → List α → Option (σ × List α)}

variable {s : σ}

theorem drainFor_of_none {input : List α} (h : step s input = none) (turns : Nat) :
    drainFor step turns s input = (s, input) := by
  cases turns with
  | zero => rfl
  | succ turns => rw [drainFor, h]

namespace Stable

variable {s : σ} {input : List α}

/-- Turns in excess of the input change nothing. -/
theorem drainFor_eq (hstep : Stable step) {turns : Nat}
    (hturns : input.length ≤ turns) : drainFor step turns s input = drain step s input := by
  rw [drain]
  induction hlength : input.length using Nat.strong_induction_on generalizing turns s input with
  | _ n ih =>
    subst hlength
    cases hnext : step s input with
    | none => rw [drainFor_of_none hnext, drainFor_of_none hnext]
    | some next =>
      obtain ⟨s', rest⟩ := next
      have hrest := hstep.shrinks hnext
      obtain ⟨turns, rfl⟩ : ∃ more, turns = more + 1 := ⟨turns - 1, by omega⟩
      obtain ⟨size, hsize⟩ : ∃ size, input.length = size + 1 := ⟨input.length - 1, by omega⟩
      rw [hsize, drainFor, drainFor, hnext]
      exact (ih rest.length hrest (by omega) rfl).trans
        (ih rest.length hrest (by omega) rfl).symm

theorem drain_of_some (hstep : Stable step) {s' : σ} {rest : List α}
    (h : step s input = some (s', rest)) : drain step s input = drain step s' rest := by
  have hrest := hstep.shrinks h
  obtain ⟨size, hsize⟩ : ∃ size, input.length = size + 1 := ⟨input.length - 1, by omega⟩
  rw [drain, hsize, drainFor, h]
  exact hstep.drainFor_eq (by omega)

/-- The items of a first part can be taken before the second part is there. -/
theorem drain_append (hstep : Stable step) (s : σ) (input more : List α) :
    drain step s (input ++ more) = feed step (drain step s input) more := by
  induction hlength : input.length using Nat.strong_induction_on generalizing s input with
  | _ n ih =>
    subst hlength
    cases hnext : step s input with
    | none => rw [feed, drain.eq_1 step s input, drainFor_of_none hnext]
    | some next =>
      obtain ⟨s', rest⟩ := next
      rw [hstep.drain_of_some hnext, hstep.drain_of_some (hstep.append hnext more)]
      exact ih rest.length (hstep.shrinks hnext) s' rest rfl

end Stable

/-! ## What a step keeps -/

/-- What every item keeps holds after all of them. -/
theorem drain_invariant {P : σ → Prop}
    (hkeep : ∀ {s s' input rest}, P s → step s input = some (s', rest) → P s') (hs : P s) (input : List α) : P (drain step s input).1 := by
  rw [drain]
  generalize input.length = turns
  induction turns generalizing s input with
  | zero => exact hs
  | succ turns ih =>
    rw [drainFor]
    cases hnext : step s input with
    | none => exact hs
    | some next => exact ih (hkeep hs hnext) next.2

end Incremental
