import Sockrocket.Lib.Run

/-!
# Sharing one computation between callers

A registry maps keys to cells. A caller joins the cell of its key, or a new one, and counts as a
user of it until it leaves, by returning or by being cancelled. One of the callers of a cell leads:
it computes the reply and stores it for all of them. If the leader leaves before that, any other
caller may take over. The last user to leave takes the cell out of the registry, if it is still the
one under the key; a registry may also be cleared while cells are in use.

Cells are numbered in the order of their creation, so equality of numbers is equality of cells, and
`users` and `reply` are what the cells contain. `Sound` is what holds in every reachable state, and
`Story` relates the state to the events that led to it.
-/

namespace SingleFlight

open Transition List

/-- Where a caller is. -/
inductive Phase (ρ : Type*) where
  | waiting
  | leading
  | done (reply : ρ)

def Phase.isLeading {ρ : Type*} : Phase ρ → Bool
  | .leading => true
  | _ => false

/-- A caller that counts as a user of a cell. -/
structure Guard (γ ρ : Type*) where
  caller : γ
  cell : Nat
  phase : Phase ρ

/-- The guard's caller leads the cell. -/
def Guard.leads {γ ρ : Type*} (cell : Nat) (g : Guard γ ρ) : Bool :=
  g.cell == cell && g.phase.isLeading

structure Registry (κ γ ρ : Type*) where
  map : Finmap fun _ : κ => Nat
  users : Nat → Nat
  reply : Nat → Option ρ
  fresh : Nat
  guards : List (Guard γ ρ)

inductive Event (γ ρ : Type*) where
  | joined (caller : γ) (cell : Nat)
  | led (caller : γ) (cell : Nat)
  | completed (caller : γ) (cell : Nat) (reply : ρ)
  | received (caller : γ) (cell : Nat) (reply : ρ)
  | left (caller : γ) (cell : Nat) (phase : Phase ρ)
  | cleared

variable {κ γ ρ : Type*}

/-! ## Guards -/

section Guards

variable {s : Registry κ γ ρ} {before after : List (Guard γ ρ)} {caller : γ} {cell : Nat}
  {phase : Phase ρ}

section

variable (hguards : s.guards = before ++ ⟨caller, cell, phase⟩ :: after)

include hguards

variable {g : Guard γ ρ}

theorem mem_of_mem_others (hg : g ∈ before ++ after) : g ∈ s.guards := by
  rw [hguards]
  simp only [mem_append, mem_cons] at hg ⊢
  exact hg.imp_right .inr

theorem mem_changed :
    (⟨caller, cell, phase⟩ : Guard γ ρ) ∈ s.guards := by
  rw [hguards]
  exact mem_append_right _ mem_cons_self

variable {phase' : Phase ρ}

/-- When one caller moves to another phase, each guard is that of the caller or was there before. -/
theorem mem_rephased
    (hg : g ∈ before ++ ⟨caller, cell, phase'⟩ :: after) :
    g = ⟨caller, cell, phase'⟩ ∨ g ∈ s.guards := by
  rw [mem_append, mem_cons] at hg
  rcases hg with hg | rfl | hg
  · exact .inr (mem_of_mem_others hguards (mem_append_left _ hg))
  · exact .inl rfl
  · exact .inr (mem_of_mem_others hguards (mem_append_right _ hg))

/-- A guard whose phase changes keeps its caller and its cell. -/
theorem same_guard :
    ∀ g ∈ before ++ ⟨caller, cell, phase'⟩ :: after,
      ∃ g' ∈ s.guards, g'.caller = g.caller ∧ g'.cell = g.cell := by
  intro g hg
  rcases mem_rephased hguards hg with rfl | hg
  · exact ⟨⟨caller, cell, phase⟩, mem_changed hguards, rfl, rfl⟩
  · exact ⟨g, hg, rfl, rfl⟩

end

end Guards

/-! ## The registry -/

variable [DecidableEq κ]

namespace Registry

/-- A registry nobody has used yet. -/
def new : Registry κ γ ρ where
  map := ∅
  users := fun _ => 0
  reply := fun _ => none
  fresh := 0
  guards := []

/-- Join the cell under the key of the caller, or put a new one there. -/
def join (key : γ → κ) (s : Registry κ γ ρ) (caller : γ) : Nat × Registry κ γ ρ :=
  match s.map.lookup (key caller) with
  | some cell =>
    (cell,
      { s with
        users := Function.update s.users cell (s.users cell + 1)
        guards := ⟨caller, cell, .waiting⟩ :: s.guards })
  | none =>
    (s.fresh,
      { map := s.map.insert (key caller) s.fresh
        users := Function.update s.users s.fresh 1
        reply := Function.update s.reply s.fresh none
        fresh := s.fresh + 1
        guards := ⟨caller, s.fresh, .waiting⟩ :: s.guards })

/-- Leave a cell; the guards of the others stay. -/
def leave (key : γ → κ) (s : Registry κ γ ρ) (caller : γ) (cell : Nat)
    (others : List (Guard γ ρ)) : Registry κ γ ρ :=
  { s with
    map :=
      if s.users cell = 1 ∧ s.map.lookup (key caller) = some cell then s.map.erase (key caller)
      else s.map
    users := Function.update s.users cell (s.users cell - 1)
    guards := others }

end Registry

/-- What may happen to a registry, one critical section or one change of a caller at a time. -/
inductive Step (key : γ → κ) : Registry κ γ ρ → Event γ ρ → Registry κ γ ρ → Prop where
  | join (s : Registry κ γ ρ) (caller : γ) :
      Step key s (.joined caller (s.join key caller).1) (s.join key caller).2
  | lead {s : Registry κ γ ρ} {before after : List (Guard γ ρ)} {caller : γ} {cell : Nat}
      (hguards : s.guards = before ++ ⟨caller, cell, .waiting⟩ :: after)
      (hempty : s.reply cell = none) (hfree : ∀ g ∈ s.guards, g.leads cell = false) :
      Step key s (.led caller cell)
        { s with guards := before ++ ⟨caller, cell, .leading⟩ :: after }
  | complete {s : Registry κ γ ρ} {before after : List (Guard γ ρ)} {caller : γ} {cell : Nat}
      {reply : ρ} (hguards : s.guards = before ++ ⟨caller, cell, .leading⟩ :: after) :
      Step key s (.completed caller cell reply)
        { s with
          reply := Function.update s.reply cell (some reply)
          guards := before ++ ⟨caller, cell, .waiting⟩ :: after }
  | receive {s : Registry κ γ ρ} {before after : List (Guard γ ρ)} {caller : γ} {cell : Nat}
      {reply : ρ} (hguards : s.guards = before ++ ⟨caller, cell, .waiting⟩ :: after)
      (hreply : s.reply cell = some reply) :
      Step key s (.received caller cell reply)
        { s with guards := before ++ ⟨caller, cell, .done reply⟩ :: after }
  | leave {s : Registry κ γ ρ} {before after : List (Guard γ ρ)} {caller : γ} {cell : Nat}
      {phase : Phase ρ} (hguards : s.guards = before ++ ⟨caller, cell, phase⟩ :: after) :
      Step key s (.left caller cell phase) (s.leave key caller cell (before ++ after))
  | clear (s : Registry κ γ ρ) : Step key s .cleared { s with map := ∅ }

theorem guards_join (key : γ → κ) (s : Registry κ γ ρ) (caller : γ) :
    (s.join key caller).2.guards = ⟨caller, (s.join key caller).1, .waiting⟩ :: s.guards := by
  unfold Registry.join
  split <;> rfl

variable {s : Registry κ γ ρ}

theorem Step.cell_eq {key : γ → κ} {t : Registry κ γ ρ} {caller : γ} {cell : Nat}
    (h : Step key s (.joined caller cell) t) : cell = (s.join key caller).1 := by
  cases h
  rfl

/-- Only those that join become users. -/
theorem Step.caller_mem {key : γ → κ} {t : Registry κ γ ρ} {e : Event γ ρ} (h : Step key s e t)
    {g : Guard γ ρ} (hg : g ∈ t.guards) :
    (∃ g' ∈ s.guards, g'.caller = g.caller ∧ g'.cell = g.cell) ∨ e = .joined g.caller g.cell := by
  cases h with
  | join caller =>
    rw [guards_join] at hg
    rcases mem_cons.mp hg with rfl | hg
    · exact .inr rfl
    · exact .inl ⟨g, hg, rfl, rfl⟩
  | lead hguards _ _ | complete hguards
  | receive hguards _ => exact .inl (same_guard hguards g hg)
  | leave hguards => exact .inl ⟨g, mem_of_mem_others hguards hg, rfl, rfl⟩
  | clear => exact .inl ⟨g, hg, rfl, rfl⟩

/-! ## Reachable states -/

structure Sound (key : γ → κ) (s : Registry κ γ ρ) : Prop where
  counted : ∀ cell, s.users cell = s.guards.countP (·.cell == cell)
  used : ∀ k cell, s.map.lookup k = some cell → 0 < s.users cell
  keyed : ∀ k cell, s.map.lookup k = some cell → ∀ g ∈ s.guards, g.cell = cell → key g.caller = k
  old : ∀ g ∈ s.guards, g.cell < s.fresh
  leading : ∀ g ∈ s.guards, g.phase.isLeading = true → s.reply g.cell = none
  oneLeader : ∀ cell, s.guards.countP (Guard.leads cell) ≤ 1

namespace Sound

variable {key : γ → κ} {s : Registry κ γ ρ}

theorem new : Sound key (Registry.new : Registry κ γ ρ) where
  counted _ := rfl
  used _ _ h := by cases h
  keyed _ _ h := by cases h
  old _ h := by cases h
  leading _ h := by cases h
  oneLeader _ := Nat.zero_le 1

variable {cell : Nat}

/-- A cell that is registered has a user, and all its users have the key. -/
theorem holder (h : Sound key s) {k : κ} (hcell : s.map.lookup k = some cell) :
    ∃ g ∈ s.guards, g.cell = cell ∧ key g.caller = k := by
  have hpos := h.used k cell hcell
  rw [h.counted, countP_pos_iff] at hpos
  obtain ⟨g, hg, hgcell⟩ := hpos
  have hgcell : g.cell = cell := beq_iff_eq.mp hgcell
  exact ⟨g, hg, hgcell, h.keyed k cell hcell g hg hgcell⟩

theorem lookup_lt (h : Sound key s) {k : κ} (hcell : s.map.lookup k = some cell) :
    cell < s.fresh := by
  obtain ⟨g, hg, rfl, -⟩ := h.holder hcell
  exact h.old g hg

/-- Nobody uses a cell that is yet to be created. -/
theorem countP_fresh (h : Sound key s) (p : Guard γ ρ → Bool)
    (hp : ∀ g, p g → g.cell = s.fresh) : s.guards.countP p = 0 := by
  rw [countP_eq_zero]
  intro g hg hpg
  have := h.old g hg
  have := hp g hpg
  omega

/-- Without users the registry is empty. -/
theorem map_empty (h : Sound key s) (hidle : s.guards = []) : s.map = ∅ := by
  apply Finmap.ext_lookup
  intro k
  cases hcell : s.map.lookup k with
  | none => rfl
  | some cell =>
    obtain ⟨g, hg, -⟩ := h.holder hcell
    rw [hidle] at hg
    cases hg

variable {caller : γ}

theorem leads_waiting {other : Nat} :
    Guard.leads other (⟨caller, cell, .waiting⟩ : Guard γ ρ) = false :=
  Bool.and_false _

theorem join_existing (h : Sound key s) (hcell : s.map.lookup (key caller) = some cell) :
    Sound key { s with
      users := Function.update s.users cell (s.users cell + 1)
      guards := ⟨caller, cell, .waiting⟩ :: s.guards } where
  counted other := by
    rw [countP_cons, ← h.counted]
    by_cases heq : other = cell
    · subst heq
      simp
    · simp [Function.update_of_ne heq, Ne.symm heq]
  used k other hother := by
    have hpos := h.used k other hother
    by_cases heq : other = cell
    · subst heq
      simp
    · simpa [Function.update_of_ne heq] using hpos
  keyed k other hother g hg hgcell := by
    rcases mem_cons.mp hg with rfl | hg
    · -- the users of the cell, of which there is one, have both keys
      obtain ⟨holder, hholder, hholderCell, hkey⟩ := h.holder hcell
      rw [← hkey]
      exact h.keyed k other hother holder hholder (hholderCell.trans hgcell)
    · exact h.keyed k other hother g hg hgcell
  old g hg := by
    rcases mem_cons.mp hg with rfl | hg
    · exact h.lookup_lt hcell
    · exact h.old g hg
  leading g hg hleading := by
    rcases mem_cons.mp hg with rfl | hg
    · cases hleading
    · exact h.leading g hg hleading
  oneLeader other := by
    rw [countP_cons_of_neg (by simp [leads_waiting])]
    exact h.oneLeader other

theorem join_new (h : Sound key s) (caller : γ) :
    Sound key
      { map := s.map.insert (key caller) s.fresh
        users := Function.update s.users s.fresh 1
        reply := Function.update s.reply s.fresh none
        fresh := s.fresh + 1
        guards := ⟨caller, s.fresh, .waiting⟩ :: s.guards } where
  counted other := by
    rw [countP_cons]
    by_cases heq : other = s.fresh
    · subst heq
      rw [h.countP_fresh _ fun g hg => beq_iff_eq.mp hg]
      simp
    · simp [Function.update_of_ne heq, Ne.symm heq, h.counted]
  used k other hother := by
    by_cases heq : other = s.fresh
    · subst heq
      simp
    by_cases hk : k = key caller
    · subst hk
      rw [Finmap.lookup_insert] at hother
      exact absurd (Option.some.inj hother).symm heq
    · rw [Finmap.lookup_insert_of_ne _ hk] at hother
      simpa [Function.update_of_ne heq] using h.used k other hother
  keyed k other hother g hg hgcell := by
    by_cases hk : k = key caller
    · subst hk
      rw [Finmap.lookup_insert] at hother
      obtain rfl := Option.some.inj hother
      rcases mem_cons.mp hg with rfl | hg
      · rfl
      · exact absurd hgcell (h.old g hg).ne
    · rw [Finmap.lookup_insert_of_ne _ hk] at hother
      rcases mem_cons.mp hg with rfl | hg
      · exact absurd hgcell.symm (h.lookup_lt hother).ne
      · exact h.keyed k other hother g hg hgcell
  old g hg := by
    rcases mem_cons.mp hg with rfl | hg
    · exact Nat.lt_succ_self _
    · exact (h.old g hg).trans (Nat.lt_succ_self _)
  leading g hg hleading := by
    rcases mem_cons.mp hg with rfl | hg
    · cases hleading
    · simp only [Function.update_of_ne (h.old g hg).ne]
      exact h.leading g hg hleading
  oneLeader other := by
    rw [countP_cons_of_neg (by simp [leads_waiting])]
    exact h.oneLeader other

theorem join (h : Sound key s) (caller : γ) : Sound key (s.join key caller).2 := by
  unfold Registry.join
  split
  · next cell hcell => exact h.join_existing hcell
  · exact h.join_new caller

variable {before after : List (Guard γ ρ)}

section

variable (h : Sound key s)

include h

/-- One caller moves to another phase. -/
theorem rephase {phase phase' : Phase ρ} {reply : Nat → Option ρ}
    (hguards : s.guards = before ++ ⟨caller, cell, phase⟩ :: after)
    (hleading : ∀ g ∈ before ++ ⟨caller, cell, phase'⟩ :: after, g.phase.isLeading →
      reply g.cell = none)
    (honeLeader : ∀ other,
      (before ++ ⟨caller, cell, phase'⟩ :: after).countP (Guard.leads other) ≤ 1) :
    Sound key { s with reply := reply, guards := before ++ ⟨caller, cell, phase'⟩ :: after } := by
  refine ⟨fun other => ?_, h.used, fun k other hother g hg hgcell => ?_, fun g hg => ?_, hleading,
    honeLeader⟩
  · rw [h.counted, hguards, countP_append, countP_append, countP_cons, countP_cons]
  · obtain ⟨g', hg', hcaller, hcell'⟩ := same_guard hguards g hg
    rw [← hcaller]
    exact h.keyed k other hother g' hg' (hcell'.trans hgcell)
  · obtain ⟨g', hg', -, hcell'⟩ := same_guard hguards g hg
    rw [← hcell']
    exact h.old g' hg'

theorem lead (hguards : s.guards = before ++ ⟨caller, cell, .waiting⟩ :: after)
    (hempty : s.reply cell = none) (hfree : ∀ g ∈ s.guards, g.leads cell = false) :
    Sound key { s with guards := before ++ ⟨caller, cell, .leading⟩ :: after } := by
  refine h.rephase hguards (fun g hg hleading => ?_) fun other => ?_
  · rcases mem_rephased hguards hg with rfl | hg
    · exact hempty
    · exact h.leading g hg hleading
  · have hone := h.oneLeader other
    rw [hguards, countP_append, countP_cons_of_neg (by simp [leads_waiting])] at hone
    rw [countP_append, countP_cons]
    by_cases heq : cell = other
    · -- the cell had no leader before
      subst heq
      have hnone : s.guards.countP (Guard.leads cell) = 0 :=
        countP_eq_zero.mpr fun g hg => by simp [hfree g hg]
      rw [hguards, countP_append, countP_cons_of_neg (by simp [leads_waiting])] at hnone
      split <;> omega
    · rw [if_neg (by simp [Guard.leads, heq])]
      exact hone

variable {reply : ρ}

theorem complete
    (hguards : s.guards = before ++ ⟨caller, cell, .leading⟩ :: after) :
    Sound key { s with
      reply := Function.update s.reply cell (some reply)
      guards := before ++ ⟨caller, cell, .waiting⟩ :: after } := by
  -- the others do not lead the cell
  have hothers : before.countP (Guard.leads cell) + after.countP (Guard.leads cell) = 0 := by
    have hone := h.oneLeader cell
    rw [hguards, countP_append, countP_cons_of_pos (by simp [Guard.leads, Phase.isLeading])] at hone
    omega
  refine h.rephase hguards (fun g hg hleading => ?_) fun other => ?_
  · have hg : g ∈ before ∨ g ∈ after := by
      rw [mem_append, mem_cons] at hg
      rcases hg with hg | rfl | hg
      · exact .inl hg
      · cases hleading
      · exact .inr hg
    have hne : g.cell ≠ cell := by
      intro heq
      have hleads : g.leads cell := by simp [Guard.leads, heq, hleading]
      rcases hg with hg | hg <;> exact absurd (countP_pos_iff.mpr ⟨g, hg, hleads⟩) (by omega)
    rw [Function.update_of_ne hne]
    exact h.leading g (mem_of_mem_others hguards (mem_append.mpr hg)) hleading
  · have hone := h.oneLeader other
    rw [hguards, countP_append, countP_cons] at hone
    rw [countP_append, countP_cons_of_neg (by simp [leads_waiting])]
    omega

theorem receive
    (hguards : s.guards = before ++ ⟨caller, cell, .waiting⟩ :: after) :
    Sound key { s with guards := before ++ ⟨caller, cell, .done reply⟩ :: after } := by
  refine h.rephase hguards (fun g hg hleading => ?_) fun other => ?_
  · rcases mem_rephased hguards hg with rfl | hg
    · cases hleading
    · exact h.leading g hg hleading
  · have hone := h.oneLeader other
    rw [hguards, countP_append, countP_cons_of_neg (by simp [leads_waiting])] at hone
    rw [countP_append, countP_cons_of_neg (by simp [Guard.leads, Phase.isLeading])]
    exact hone

/-- The map after a caller has left has only entries it had before, and not the cell that lost its
last user. -/
theorem lookup_leave {phase : Phase ρ}
    (hguards : s.guards = before ++ ⟨caller, cell, phase⟩ :: after) {k : κ} {other : Nat}
    (hother : (s.leave key caller cell (before ++ after)).map.lookup k = some other) :
    s.map.lookup k = some other ∧ (other = cell → s.users cell ≠ 1) := by
  have hmem := mem_changed hguards
  unfold Registry.leave at hother
  by_cases hlast : s.users cell = 1 ∧ s.map.lookup (key caller) = some cell
  · rw [if_pos hlast] at hother
    by_cases hk : k = key caller
    · subst hk
      rw [Finmap.lookup_erase] at hother
      cases hother
    rw [Finmap.lookup_erase_ne hk] at hother
    refine ⟨hother, fun heq => ?_⟩
    -- a cell is registered under the key of its users only
    exact absurd (h.keyed k other hother _ hmem heq.symm).symm hk
  · rw [if_neg hlast] at hother
    refine ⟨hother, fun heq hone => hlast ⟨hone, ?_⟩⟩
    rw [h.keyed k other hother _ hmem heq.symm, hother, heq]

theorem leave {phase : Phase ρ}
    (hguards : s.guards = before ++ ⟨caller, cell, phase⟩ :: after) :
    Sound key (s.leave key caller cell (before ++ after)) := by
  have hmem : ∀ g ∈ before ++ after, g ∈ s.guards := fun g => mem_of_mem_others hguards
  have hcount : ∀ p : Guard γ ρ → Bool, s.guards.countP p =
      (before ++ after).countP p + if p ⟨caller, cell, phase⟩ then 1 else 0 := by
    intro p
    rw [hguards, countP_append, countP_append, countP_cons]
    omega
  have hcell : s.users cell = (before ++ after).countP (·.cell == cell) + 1 := by
    rw [h.counted, hcount]
    simp
  refine ⟨fun other => ?_, fun k other hother => ?_, fun k other hother g hg hgcell => ?_,
    fun g hg => h.old g (hmem g hg), fun g hg => h.leading g (hmem g hg), fun other => ?_⟩
  · show Function.update s.users cell (s.users cell - 1) other = _
    by_cases heq : other = cell
    · subst heq
      rw [Function.update_self, hcell]
      rfl
    · rw [Function.update_of_ne heq, h.counted, hcount, if_neg (by simp [Ne.symm heq])]
      rfl
  · obtain ⟨hbefore, hone⟩ := h.lookup_leave hguards hother
    have hpos := h.used k other hbefore
    show 0 < Function.update s.users cell (s.users cell - 1) other
    by_cases heq : other = cell
    · subst heq
      have := hone rfl
      rw [Function.update_self]
      omega
    · rwa [Function.update_of_ne heq]
  · exact h.keyed k other (h.lookup_leave hguards hother).1 g (hmem g hg) hgcell
  · have hone := h.oneLeader other
    rw [hcount] at hone
    exact (Nat.le_add_right _ _).trans hone

theorem clear : Sound key { s with map := ∅ } where
  counted := h.counted
  used _ _ hnone := by cases hnone
  keyed _ _ hnone := by cases hnone
  old := h.old
  leading := h.leading
  oneLeader := h.oneLeader

theorem step {e : Event γ ρ} {t : Registry κ γ ρ} (hstep : Step key s e t) :
    Sound key t := by
  cases hstep with
  | join caller => exact h.join caller
  | lead hguards hempty hfree => exact h.lead hguards hempty hfree
  | complete hguards => exact h.complete hguards
  | receive hguards => exact h.receive hguards
  | leave hguards => exact h.leave hguards
  | clear => exact h.clear

end

end Sound

/-! ## Histories -/

/-- The event stores a reply in the cell. -/
def Event.completes (cell : Nat) : Event γ ρ → Bool
  | .completed _ other _ => other == cell
  | _ => false

/-- What the past says about who joined which cell. -/
structure Joins (key : γ → κ) (past : List (Event γ ρ)) (s : Registry κ γ ρ) : Prop where
  joined : ∀ g ∈ s.guards, .joined g.caller g.cell ∈ past
  old : ∀ caller cell, .joined caller cell ∈ past → cell < s.fresh
  sameKey : ∀ caller caller' cell, .joined caller cell ∈ past → .joined caller' cell ∈ past →
    key caller = key caller'
  newest : ∀ k cell, s.map.lookup k = some cell → ∀ caller other, .joined caller other ∈ past →
    key caller = k → other ≤ cell
  ordered : past.Pairwise fun e e' => ∀ caller cell caller' cell', e = .joined caller cell →
    e' = .joined caller' cell' → key caller = key caller' → cell ≤ cell'

/-- What the past says about the replies of the cells. -/
structure Replies (past : List (Event γ ρ)) (s : Registry κ γ ρ) : Prop where
  replied : ∀ cell reply, s.reply cell = some reply →
    ∃ leader, .joined leader cell ∈ past ∧ .completed leader cell reply ∈ past
  received : ∀ caller cell reply, .received caller cell reply ∈ past →
    .joined caller cell ∈ past ∧ s.reply cell = some reply
  done : ∀ g ∈ s.guards, ∀ reply, g.phase = .done reply → .received g.caller g.cell reply ∈ past
  returned : ∀ caller cell reply, .left caller cell (.done reply) ∈ past →
    .received caller cell reply ∈ past
  once : ∀ cell, past.countP (Event.completes cell) = if (s.reply cell).isSome then 1 else 0

theorem mem_past {e e' : Event γ ρ} {past : List (Event γ ρ)} :
    e ∈ past ++ [e'] ↔ e ∈ past ∨ e = e' := by
  rw [mem_append, mem_singleton]

namespace Joins

variable {key : γ → κ} {s t : Registry κ γ ρ} {past : List (Event γ ρ)}

/-- Nobody joins, and nothing is registered that was not. -/
theorem frame (h : Joins key past s) {e : Event γ ρ}
    (hother : ∀ caller cell, e ≠ .joined caller cell) (hfresh : t.fresh = s.fresh)
    (hmap : ∀ k cell, t.map.lookup k = some cell → s.map.lookup k = some cell)
    (hguards : ∀ g ∈ t.guards, ∃ g' ∈ s.guards, g'.caller = g.caller ∧ g'.cell = g.cell) :
    Joins key (past ++ [e]) t := by
  have hpast : ∀ {caller cell}, .joined caller cell ∈ past ++ [e] → .joined caller cell ∈ past := by
    intro caller cell hmem
    exact (mem_past.mp hmem).resolve_right fun heq => hother caller cell heq.symm
  refine ⟨fun g hg => ?_, fun caller cell hmem => ?_, fun caller caller' cell hmem hmem' => ?_,
    fun k cell hcell caller other hmem => ?_, ?_⟩
  · obtain ⟨g', hg', hcaller, hcell⟩ := hguards g hg
    rw [← hcaller, ← hcell]
    exact mem_past.mpr (.inl (h.joined g' hg'))
  · rw [hfresh]
    exact h.old caller cell (hpast hmem)
  · exact h.sameKey caller caller' cell (hpast hmem) (hpast hmem')
  · exact h.newest k cell (hmap k cell hcell) caller other (hpast hmem)
  · refine pairwise_append.mpr ⟨h.ordered, pairwise_singleton _ _, ?_⟩
    intro e₁ _ e₂ he₂ caller cell caller' cell' _ hjoined
    rw [mem_singleton] at he₂
    exact absurd (he₂.symm.trans hjoined) (hother caller' cell')

/-- A caller joins a new cell, or one that another caller with its key uses. -/
theorem join_cell (hs : Sound key s) (caller : γ) :
    (s.join key caller).1 = s.fresh ∨
      ∃ g ∈ s.guards, g.cell = (s.join key caller).1 ∧ key g.caller = key caller := by
  unfold Registry.join
  split
  · next cell hcell => exact .inr (hs.holder hcell)
  · exact .inl rfl

theorem lookup_join (s : Registry κ γ ρ) (caller : γ) (k : κ) :
    (s.join key caller).2.map.lookup k =
      if k = key caller then some (s.join key caller).1 else s.map.lookup k := by
  unfold Registry.join
  split
  · next cell hcell =>
    by_cases hk : k = key caller
    · rw [if_pos hk, hk]
      exact hcell
    · rw [if_neg hk]
  · by_cases hk : k = key caller
    · rw [if_pos hk, hk]
      exact Finmap.lookup_insert _
    · rw [if_neg hk]
      exact Finmap.lookup_insert_of_ne _ hk

theorem fresh_join (hs : Sound key s) (caller : γ) : s.fresh ≤ (s.join key caller).2.fresh ∧
    (s.join key caller).1 < (s.join key caller).2.fresh := by
  unfold Registry.join
  split
  · next cell hcell => exact ⟨le_refl _, hs.lookup_lt hcell⟩
  · exact ⟨Nat.le_succ _, Nat.lt_succ_self _⟩

/-- The cell a caller joins is at least as new as all that were joined under its key. -/
theorem le_join (h : Joins key past s) {caller caller' : γ} {cell : Nat}
    (hmem : .joined caller' cell ∈ past) (hkey : key caller' = key caller) :
    cell ≤ (s.join key caller).1 := by
  unfold Registry.join
  split
  · next current hcurrent => exact h.newest _ current hcurrent caller' cell hmem hkey
  · exact (h.old caller' cell hmem).le

theorem join (h : Joins key past s) (hs : Sound key s) (caller : γ) :
    Joins key (past ++ [.joined caller (s.join key caller).1]) (s.join key caller).2 := by
  have hfresh := fresh_join hs caller
  -- all earlier callers of the cell have the key of the new one
  have hcell : ∀ caller', .joined caller' (s.join key caller).1 ∈ past →
      key caller' = key caller := by
    intro caller' hmem
    rcases join_cell hs caller with hnew | ⟨g, hg, hgcell, hkey⟩
    · rw [hnew] at hmem
      exact absurd (h.old caller' _ hmem) (lt_irrefl _)
    · rw [← hkey]
      rw [← hgcell] at hmem
      exact h.sameKey _ _ _ hmem (h.joined g hg)
  refine ⟨fun g hg => ?_, fun caller' cell hmem => ?_, fun first second cell hfirst hsecond => ?_,
    fun k cell hlookup caller' other hmem hk => ?_, ?_⟩
  · rw [guards_join] at hg
    rcases mem_cons.mp hg with rfl | hg
    · exact mem_past.mpr (.inr rfl)
    · exact mem_past.mpr (.inl (h.joined g hg))
  · rcases mem_past.mp hmem with hmem | heq
    · exact (h.old caller' cell hmem).trans_le hfresh.1
    · obtain ⟨-, rfl⟩ := Event.joined.inj heq
      exact hfresh.2
  · rcases mem_past.mp hfirst with hpast | heq
    · rcases mem_past.mp hsecond with hpast' | heq'
      · exact h.sameKey first second cell hpast hpast'
      · obtain ⟨rfl, rfl⟩ := Event.joined.inj heq'
        exact hcell first hpast
    · obtain ⟨rfl, rfl⟩ := Event.joined.inj heq
      rcases mem_past.mp hsecond with hpast' | heq'
      · exact (hcell second hpast').symm
      · rw [(Event.joined.inj heq').1]
  · rw [lookup_join] at hlookup
    by_cases hcaller : k = key caller
    · rw [if_pos hcaller] at hlookup
      rcases mem_past.mp hmem with hmem | heq
      · rw [← Option.some.inj hlookup]
        exact h.le_join hmem (hk.trans hcaller)
      · rw [(Event.joined.inj heq).2, Option.some.inj hlookup]
    · rw [if_neg hcaller] at hlookup
      rcases mem_past.mp hmem with hmem | heq
      · exact h.newest k cell hlookup caller' other hmem hk
      · rw [(Event.joined.inj heq).1] at hk
        exact absurd hk.symm hcaller
  · refine pairwise_append.mpr ⟨h.ordered, pairwise_singleton _ _, ?_⟩
    intro e he e' he' first cell second cell' hfirst hsecond hkey
    rw [mem_singleton] at he'
    obtain ⟨rfl, rfl⟩ := Event.joined.inj (he'.symm.trans hsecond)
    rw [hfirst] at he
    exact h.le_join he hkey

end Joins

namespace Replies

variable {key : γ → κ} {s t : Registry κ γ ρ} {past : List (Event γ ρ)}

omit [DecidableEq κ] in
/-- No reply is stored. -/
theorem frame (h : Replies past s) {e : Event γ ρ} (hreply : t.reply = s.reply)
    (hcompletes : ∀ cell, e.completes cell = false)
    (hreceived : ∀ caller cell reply, e = .received caller cell reply →
      .joined caller cell ∈ past ∧ s.reply cell = some reply)
    (hdone : ∀ g ∈ t.guards, ∀ reply, g.phase = .done reply →
      g ∈ s.guards ∨ e = .received g.caller g.cell reply)
    (hreturned : ∀ caller cell reply, e = .left caller cell (.done reply) →
      .received caller cell reply ∈ past) :
    Replies (past ++ [e]) t := by
  refine ⟨fun cell reply hcell => ?_, fun caller cell reply hmem => ?_, fun g hg reply hphase => ?_,
    fun caller cell reply hmem => ?_, fun cell => ?_⟩
  · rw [hreply] at hcell
    obtain ⟨leader, hjoined, hcompleted⟩ := h.replied cell reply hcell
    exact ⟨leader, mem_past.mpr (.inl hjoined), mem_past.mpr (.inl hcompleted)⟩
  · have hpast : .joined caller cell ∈ past ∧ s.reply cell = some reply := by
      rcases mem_past.mp hmem with hmem | heq
      · exact h.received caller cell reply hmem
      · exact hreceived caller cell reply heq.symm
    rw [hreply]
    exact ⟨mem_past.mpr (.inl hpast.1), hpast.2⟩
  · rcases hdone g hg reply hphase with hg | heq
    · exact mem_past.mpr (.inl (h.done g hg reply hphase))
    · exact mem_past.mpr (.inr heq.symm)
  · rcases mem_past.mp hmem with hmem | heq
    · exact mem_past.mpr (.inl (h.returned caller cell reply hmem))
    · exact mem_past.mpr (.inl (hreturned caller cell reply heq.symm))
  · rw [countP_append, countP_singleton, hcompletes, hreply, h.once]
    rfl

theorem reply_join (h : Replies past s) (hj : Joins key past s) (caller : γ) :
    (s.join key caller).2.reply = s.reply := by
  have hnone : s.reply s.fresh = none := by
    cases hreply : s.reply s.fresh with
    | none => rfl
    | some reply =>
      obtain ⟨leader, hjoined, -⟩ := h.replied _ reply hreply
      exact absurd (hj.old leader _ hjoined) (lt_irrefl _)
  unfold Registry.join
  split
  · rfl
  · exact Function.update_eq_self_iff.mpr hnone.symm

/-- The leader stores its reply in a cell that has none. -/
theorem complete (h : Replies past s) (hj : Joins key past s) (hs : Sound key s)
    {before after : List (Guard γ ρ)} {caller : γ} {cell : Nat} {reply : ρ}
    (hguards : s.guards = before ++ ⟨caller, cell, .leading⟩ :: after) :
    Replies (past ++ [.completed caller cell reply]) { s with
      reply := Function.update s.reply cell (some reply)
      guards := before ++ ⟨caller, cell, .waiting⟩ :: after } := by
  have hleader := mem_changed hguards
  have hnone : s.reply cell = none := hs.leading _ hleader rfl
  refine ⟨fun other value hvalue => ?_, fun caller' other value hmem => ?_,
    fun g hg value hphase => ?_, fun caller' other value hmem => ?_, fun other => ?_⟩
  · simp only at hvalue
    by_cases heq : other = cell
    · subst heq
      rw [Function.update_self] at hvalue
      obtain rfl := Option.some.inj hvalue
      exact ⟨caller, mem_past.mpr (.inl (hj.joined _ hleader)), mem_past.mpr (.inr rfl)⟩
    · rw [Function.update_of_ne heq] at hvalue
      obtain ⟨leader, hjoined, hcompleted⟩ := h.replied other value hvalue
      exact ⟨leader, mem_past.mpr (.inl hjoined), mem_past.mpr (.inl hcompleted)⟩
  · have hmem := (mem_past.mp hmem).resolve_right nofun
    obtain ⟨hjoined, hvalue⟩ := h.received caller' other value hmem
    have hne : other ≠ cell := by
      rintro rfl
      rw [hnone] at hvalue
      cases hvalue
    refine ⟨mem_past.mpr (.inl hjoined), ?_⟩
    simp only [Function.update_of_ne hne, hvalue]
  · rcases mem_rephased hguards hg with rfl | hg
    · cases hphase
    · exact mem_past.mpr (.inl (h.done g hg value hphase))
  · have hmem := (mem_past.mp hmem).resolve_right nofun
    exact mem_past.mpr (.inl (h.returned caller' other value hmem))
  · rw [countP_append, countP_singleton, h.once]
    by_cases heq : other = cell
    · subst heq
      simp [Event.completes, hnone]
    · simp [Event.completes, Ne.symm heq, Function.update_of_ne heq]

end Replies

/-- Everything that is known about a registry and its past. -/
structure Story (key : γ → κ) (past : List (Event γ ρ)) (s : Registry κ γ ρ) : Prop where
  sound : Sound key s
  joins : Joins key past s
  replies : Replies past s

namespace Story

variable {key : γ → κ} {s t : Registry κ γ ρ} {past : List (Event γ ρ)}

theorem new : Story key [] (Registry.new : Registry κ γ ρ) := by
  refine ⟨Sound.new, ⟨nofun, nofun, nofun, nofun, List.Pairwise.nil⟩, ?_⟩
  exact ⟨nofun, nofun, nofun, nofun, fun _ => rfl⟩

theorem step {e : Event γ ρ} (h : Story key past s) (hstep : Step key s e t) :
    Story key (past ++ [e]) t := by
  refine ⟨h.sound.step hstep, ?_, ?_⟩
  · cases hstep with
    | join caller => exact h.joins.join h.sound caller
    | lead hguards _ _
    | complete hguards
    | receive hguards _ => exact h.joins.frame nofun rfl (fun _ _ => id) (same_guard hguards)
    | leave hguards =>
      refine h.joins.frame nofun rfl (fun k cell hcell => ?_) fun g hg => ?_
      · exact (h.sound.lookup_leave hguards hcell).1
      · exact ⟨g, mem_of_mem_others hguards hg, rfl, rfl⟩
    | clear => exact h.joins.frame nofun rfl nofun fun g hg => ⟨g, hg, rfl, rfl⟩
  · cases hstep with
    | join caller =>
      refine h.replies.frame (h.replies.reply_join h.joins caller) (fun _ => rfl) nofun ?_ nofun
      intro g hg reply hphase
      rw [guards_join] at hg
      rcases mem_cons.mp hg with rfl | hg
      · cases hphase
      · exact .inl hg
    | lead hguards _ _ =>
      refine h.replies.frame rfl (fun _ => rfl) nofun (fun g hg reply hphase => ?_) nofun
      rcases mem_rephased hguards hg with rfl | hg
      · cases hphase
      · exact .inl hg
    | complete hguards => exact h.replies.complete h.joins h.sound hguards
    | receive hguards hreply =>
      refine h.replies.frame rfl (fun _ => rfl) ?_ (fun g hg reply hphase => ?_) nofun
      · intro caller cell reply heq
        obtain ⟨rfl, rfl, rfl⟩ := Event.received.inj heq
        exact ⟨h.joins.joined _ (mem_changed hguards), hreply⟩
      · rcases mem_rephased hguards hg with rfl | hg
        · rw [Phase.done.inj hphase]
          exact .inr rfl
        · exact .inl hg
    | leave hguards =>
      refine h.replies.frame rfl (fun _ => rfl) nofun (fun g hg _ _ => ?_) ?_
      · exact .inl (mem_of_mem_others hguards hg)
      · intro caller cell reply heq
        obtain ⟨rfl, rfl, rfl⟩ := Event.left.inj heq
        exact h.replies.done _ (mem_changed hguards) reply rfl
    | clear =>
      exact h.replies.frame rfl (fun _ => rfl) nofun (fun g hg _ _ => .inl hg) nofun

/-- Whoever received a reply had joined its cell, and a caller with the same key had stored it. -/
theorem received (h : Story key past s) {caller : γ} {cell : Nat} {reply : ρ}
    (hmem : .received caller cell reply ∈ past) :
    .joined caller cell ∈ past ∧ ∃ leader, .joined leader cell ∈ past ∧
      .completed leader cell reply ∈ past ∧ key leader = key caller := by
  obtain ⟨hjoined, hreply⟩ := h.replies.received caller cell reply hmem
  obtain ⟨leader, hleader, hcompleted⟩ := h.replies.replied cell reply hreply
  exact ⟨hjoined, leader, hleader, hcompleted, h.joins.sameKey leader caller cell hleader hjoined⟩

end Story

/-! ## The contract -/

/-- A caller with the key may join the cell, which exists. -/
def Accepts (key : γ → κ) (s : Registry κ γ ρ) (k : κ) (cell : Nat) : Prop :=
  cell < s.fresh ∧ ∃ caller, key caller = k ∧ (s.join key caller).1 = cell

/-- What the callers of a registry can rely on, whatever has happened to it. -/
structure Contract (key : γ → κ) (past : List (Event γ ρ)) (s : Registry κ γ ρ) : Prop where
  /-- what is registered is in use, by a caller with the key -/
  held : ∀ k cell, s.map.lookup k = some cell → ∃ g ∈ s.guards, g.cell = cell ∧ key g.caller = k
  /-- nothing is registered when nobody is there -/
  idle : s.guards = [] → s.map = ∅
  /-- a reply comes from a caller of the same cell with the same key -/
  own : ∀ caller cell reply, .received caller cell reply ∈ past → .joined caller cell ∈ past ∧
    ∃ leader, .joined leader cell ∈ past ∧ .completed leader cell reply ∈ past ∧
      key leader = key caller
  /-- a caller returns with a reply it has received -/
  returned : ∀ caller cell reply, .left caller cell (.done reply) ∈ past →
    .received caller cell reply ∈ past
  /-- the reply of a cell is computed once -/
  once : ∀ cell, past.countP (Event.completes cell) ≤ 1
  /-- at most one cell is open for a key -/
  single : ∀ k cell cell', Accepts key s k cell → Accepts key s k cell' → cell = cell'
  /-- a cell is not joined any more once a newer one was joined under its key -/
  ordered : past.Pairwise fun e e' => ∀ caller cell caller' cell', e = .joined caller cell →
    e' = .joined caller' cell' → key caller = key caller' → cell ≤ cell'

theorem accepts_iff {key : γ → κ} (hs : Sound key s) {k : κ} {cell : Nat} :
    Accepts key s k cell ↔ s.map.lookup k = some cell := by
  constructor
  · rintro ⟨hold, caller, rfl, hcell⟩
    unfold Registry.join at hcell
    split at hcell
    · next current hcurrent => rwa [← hcell]
    · exact absurd hcell hold.ne'
  · intro hcell
    obtain ⟨g, -, -, hkey⟩ := hs.holder hcell
    refine ⟨hs.lookup_lt hcell, g.caller, hkey, ?_⟩
    unfold Registry.join
    rw [hkey, hcell]

theorem Story.contract {key : γ → κ} {past : List (Event γ ρ)} (h : Story key past s) :
    Contract key past s where
  held _ _ hcell := h.sound.holder hcell
  idle := h.sound.map_empty
  own _ _ _ hmem := h.received hmem
  returned := h.replies.returned
  once cell := by
    rw [h.replies.once]
    split
    · exact le_refl 1
    · exact Nat.zero_le 1
  single k cell cell' haccepts haccepts' := by
    rw [accepts_iff h.sound] at haccepts haccepts'
    exact Option.some.inj (haccepts.symm.trans haccepts')
  ordered := h.joins.ordered

end SingleFlight
