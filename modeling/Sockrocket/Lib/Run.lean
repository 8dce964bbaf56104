import Mathlib

/-!
# Runs of a transition system

A system is a relation `step s e t`: in state `s` the event `e` may happen and leads to `t`. Nothing
is assumed about the events, so interleavings of several parties are runs like any other.

`Run.invariant` is the rule every safety proof uses: what the start satisfies and each step keeps
holds at the end of every run.
-/

namespace Transition

open List

variable {σ ε : Type*}

/-- The events of a run, in order, and the state it ends in. -/
inductive Run (step : σ → ε → σ → Prop) : σ → List ε → σ → Prop where
  | refl (s : σ) : Run step s [] s
  | head {s t u : σ} {e : ε} {es : List ε} (first : step s e t) (rest : Run step t es u) :
      Run step s (e :: es) u

variable {step : σ → ε → σ → Prop}

variable {es : List ε}

variable {s t : σ}

/-- What every step keeps, a run keeps. -/
theorem Run.invariant (hrun : Run step s es t) (inv : σ → Prop) (hs : inv s)
    (hstep : ∀ s e t, inv s → step s e t → inv t) : inv t := by
  induction hrun with
  | refl s => exact hs
  | head first rest ih => exact ih (hstep _ _ _ hs first)

/-- An invariant that relates the state to the events that led to it. -/
theorem Run.history_invariant (hrun : Run step s es t) (inv : List ε → σ → Prop)
    {past : List ε} (hs : inv past s)
    (hstep : ∀ past s e t, inv past s → step s e t → inv (past ++ [e]) t) : inv (past ++ es) t := by
  induction hrun generalizing past with
  | refl s => rwa [append_nil]
  | @head s t u e es first rest ih =>
    have hrest := ih (hstep past s e t hs first)
    rwa [append_assoc, singleton_append] at hrest

/-- A run under one relation is a run under another that has the steps of its events. -/
theorem Run.mono {step' : σ → ε → σ → Prop} (hrun : Run step s es t)
    (hstep : ∀ s e t, e ∈ es → step s e t → step' s e t) : Run step' s es t := by
  induction hrun with
  | refl s => exact .refl s
  | head first rest ih =>
    exact .head (hstep _ _ _ mem_cons_self first)
      (ih fun s e t he => hstep s e t (mem_cons_of_mem _ he))

/-- A run seen through a map of its states, when each of its events is an event of the other system
or leaves what is seen unchanged. -/
theorem Run.refine {σ' ε' : Type*} {spec : σ' → ε' → σ' → Prop} (hrun : Run step s es t)
    (view : σ → σ') (label : ε → Option ε') (inv : σ → Prop) (hs : inv s)
    (hkeeps : ∀ s e t, inv s → step s e t → inv t)
    (hsees : ∀ s e t a, inv s → step s e t → label e = some a → spec (view s) a (view t))
    (hskips : ∀ s e t, inv s → step s e t → label e = none → view t = view s) :
    Run spec (view s) (es.filterMap label) (view t) := by
  induction hrun with
  | refl s => exact .refl _
  | @head s t u e es first rest ih =>
    have hrest := ih (hkeeps s e t hs first)
    cases he : label e with
    | none =>
      rw [filterMap_cons_none he, ← hskips s e t hs first he]
      exact hrest
    | some a =>
      rw [filterMap_cons_some he]
      exact .head (hsees s e t a hs first he) hrest

/-- The run a step function computes. -/
theorem Run.of_foldlM (f : σ → ε → Option σ) (h : es.foldlM f s = some t) :
    Run (fun s e t => f s e = some t) s es t := by
  induction es generalizing s with
  | nil =>
    obtain rfl := Option.some.inj h
    exact .refl s
  | cons e es ih =>
    rw [foldlM_cons] at h
    obtain ⟨u, hfirst, hrest⟩ := Option.bind_eq_some_iff.mp h
    exact .head hfirst (ih hrest)

/-- The run of a step function that always has a next state. -/
theorem Run.of_foldl (f : σ → ε → σ) (s : σ) (es : List ε) :
    Run (fun s e t => t = f s e) s es (es.foldl f s) := by
  induction es generalizing s with
  | nil => exact .refl s
  | cons e es ih => exact .head rfl (ih (f s e))

variable {f : σ → ε → σ}

/-- A run of a step function without steps. -/
theorem Run.nil_foldl (s : σ) : Run step s [] (foldl f s []) :=
  .refl s

/-- A run of a step function, from its first step on. -/
theorem Run.head_foldl {e : ε} (hfirst : step s e (f s e))
    (hrest : Run step (f s e) es (es.foldl f (f s e))) :
    Run step s (e :: es) ((e :: es).foldl f s) :=
  .head hfirst hrest

end Transition
