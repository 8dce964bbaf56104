import Sockrocket.Lib.Run
import Sockrocket.Lib.StableSort

/-!
# Candidates of a failover

A round of `find_best_node_with` probes the candidates in the order of their latency, from a cursor
on, with at most four probes at a time. An event of a round is a probe that `join_next` returns, with
its latency or without one; the deadline may end the round whenever it waits.

`failover_candidates` says what a round starts and returns, and that rounds reach every candidate.
-/

namespace Sockrocket.Failover

open StableSort Transition List

variable {ν : Type*}

/-- The variables of the loop, and the candidates whose probes were started. -/
structure Round (ν : Type*) where
  candidates : List (ν × Nat)
  set : List Nat
  cursor : Nat
  best : Option (Nat × Nat)
  started : List Nat

/-- The inner loop starts probes until four are live. The cursor is a `usize`. -/
def fill (count : Nat) : List (ν × Nat) → Round ν → Round ν
  | [], round => { round with candidates := [] }
  | (node, index) :: rest, round =>
    if round.set.length < 4 then
      fill count rest
        { round with
          set := round.set ++ [index]
          cursor := (round.cursor + 1) % 2 ^ 64 % count
          started := round.started ++ [index] }
    else { round with candidates := (node, index) :: rest }

/-- The nodes with their indices, by latency. -/
def ordered (latencyMs : ν → Option Nat) (nodes : List ν) : List (ν × Nat) :=
  sortBy (fun a b => (latencyMs a.1).getD (2 ^ 32 - 1) ≤ (latencyMs b.1).getD (2 ^ 32 - 1))
    nodes.zipIdx

/-- A round waits for its first probe. -/
def start (latencyMs : ν → Option Nat) (nodes : List ν) (cursor : Nat) : Round ν :=
  fill nodes.length ((ordered latencyMs nodes).rotate (cursor % nodes.length))
    ⟨[], [], cursor, none, []⟩

def better (best : Option (Nat × Nat)) (index : Nat) : Option Nat → Option (Nat × Nat)
  | none => best
  | some ms => if best.all fun old => ms < old.2 then some (index, ms) else best

/-- A probe is over. -/
inductive Step (count : Nat) : Round ν → Nat × Option Nat → Round ν → Prop where
  | joined {round : Round ν} {before after : List Nat} {index : Nat} (answer : Option Nat)
      (hset : round.set = before ++ index :: after) :
      Step count round (index, answer)
        (fill count round.candidates
          { round with set := before ++ after, best := better round.best index answer })

/-- Rounds on one list of nodes: each starts at the cursor of the one before. -/
def Searched (latencyMs : ν → Option Nat) (nodes : List ν) (cursor : Nat) (started : List Nat)
    (cursor' : Nat) : Prop :=
  ∃ joined last, Run (Step nodes.length) (start latencyMs nodes cursor) joined last ∧
    last.started = started ∧ last.cursor = cursor'

/-! ## One round -/

/-- What holds between the starts of two probes. -/
structure Live (order : List Nat) (count cursor : Nat) (round : Round ν)
    (candidates : List (ν × Nat)) : Prop where
  order : round.started ++ candidates.map Prod.snd = order
  live : round.set.length ≤ 4
  set_le : round.set.length ≤ round.started.length
  cursor : cursor + 1 < 2 ^ 64 → round.cursor + 1 < 2 ^ 64 ∧
    round.cursor % count = (cursor + round.started.length) % count

variable {order : List Nat} {count cursor : Nat} {round : Round ν} {nodes : List ν}
  {latencyMs : ν → Option Nat} {joined : List (Nat × Option Nat)}

/-- A round waits with four probes, or with no candidate left. -/
theorem fill_live (hcount : 0 < count) (hbound : count < 2 ^ 64) {candidates : List (ν × Nat)}
    (h : Live order count cursor round candidates) :
    let filled := fill count candidates round
    Live order count cursor filled filled.candidates ∧ filled.best = round.best ∧
      (filled.set.length = 4 ∨ filled.candidates = []) := by
  induction candidates generalizing round with
  | nil => exact ⟨⟨h.order, h.live, h.set_le, h.cursor⟩, rfl, .inr rfl⟩
  | cons candidate rest ih =>
    obtain ⟨node, index⟩ := candidate
    unfold fill
    by_cases hroom : round.set.length < 4
    · rw [if_pos hroom]
      refine ih ⟨?_, ?_, ?_, fun hcursor => ?_⟩
      · simpa using h.order
      · simpa using hroom
      · simpa using h.set_le
      · obtain ⟨hlt, hmod⟩ := h.cursor hcursor
        rw [Nat.mod_eq_of_lt hlt]
        refine ⟨(Nat.succ_le_of_lt (Nat.mod_lt _ hcount)).trans_lt hbound, ?_⟩
        rw [Nat.mod_mod, Nat.add_mod, hmod, ← Nat.add_mod, length_append]
        rfl
    · rw [if_neg hroom]
      exact ⟨⟨h.order, h.live, h.set_le, h.cursor⟩, rfl,
        .inl (le_antisymm h.live (not_lt.mp hroom))⟩

/-- The least latency of the probes that answered. -/
def IsBest (joined : List (Nat × Option Nat)) : Option (Nat × Nat) → Prop
  | none => ∀ probe ∈ joined, probe.2 = none
  | some (index, ms) => (index, some ms) ∈ joined ∧
      ∀ probe ∈ joined, ∀ other, probe.2 = some other → ms ≤ other

theorem isBest_better {best : Option (Nat × Nat)} (h : IsBest joined best) (index : Nat)
    (answer : Option Nat) : IsBest (joined ++ [(index, answer)]) (better best index answer) := by
  cases answer with
  | none =>
    cases best with
    | none =>
      refine forall_mem_append.mpr ⟨h, ?_⟩
      simp
    | some best =>
      refine ⟨mem_append_left _ h.1, forall_mem_append.mpr ⟨h.2, ?_⟩⟩
      simp
  | some ms =>
    have hlast : (index, some ms) ∈ joined ++ [(index, some ms)] :=
      mem_append_right _ mem_cons_self
    cases best with
    | none =>
      refine ⟨hlast, forall_mem_append.mpr ⟨fun probe hprobe other hother => ?_, by simp⟩⟩
      rw [h probe hprobe] at hother
      cases hother
    | some best =>
      by_cases hless : ms < best.2
      · rw [show better (some best) index (some ms) = some (index, ms) by simp [better, hless]]
        refine ⟨hlast, forall_mem_append.mpr ⟨fun probe hprobe other hother => ?_, by simp⟩⟩
        exact hless.le.trans (h.2 probe hprobe other hother)
      · rw [show better (some best) index (some ms) = some best by simp [better, hless]]
        refine ⟨mem_append_left _ h.1, forall_mem_append.mpr ⟨h.2, ?_⟩⟩
        simpa using not_lt.mp hless

/-- The indices in the order of a round. -/
def indices (latencyMs : ν → Option Nat) (nodes : List ν) : List Nat :=
  (ordered latencyMs nodes).map Prod.snd

theorem indices_perm : (indices latencyMs nodes).Perm (range nodes.length) := by
  refine ((perm_sortBy _ _).map Prod.snd).trans (List.Perm.of_eq ?_)
  rw [zipIdx_map_snd, ← range_eq_range']

theorem length_indices : (indices latencyMs nodes).length = nodes.length :=
  indices_perm.length_eq.trans length_range

/-- What holds whenever a round waits. -/
structure Waiting (order : List Nat) (count cursor : Nat) (joined : List (Nat × Option Nat))
    (round : Round ν) : Prop extends Live order count cursor round round.candidates where
  full : round.set.length = 4 ∨ round.candidates = []
  best : IsBest joined round.best

theorem waiting_of_step {next : Round ν} {event : Nat × Option Nat} (hcount : 0 < count)
    (hbound : count < 2 ^ 64) (h : Waiting order count cursor joined round)
    (hstep : Step count round event next) :
    Waiting order count cursor (joined ++ [event]) next := by
  cases hstep with
  | @joined before after index answer hset =>
    have hless : (before ++ after).length ≤ round.set.length := by
      rw [hset]
      simp
    have hlive : Live order count cursor
        { round with set := before ++ after, best := better round.best index answer }
        round.candidates :=
      ⟨h.order, hless.trans h.live, hless.trans h.set_le, h.cursor⟩
    obtain ⟨hfilled, hkept, hfull⟩ := fill_live hcount hbound hlive
    refine ⟨hfilled, hfull, ?_⟩
    rw [hkept]
    exact isBest_better h.best index answer

theorem waiting_of_run (hne : nodes ≠ []) (hbound : nodes.length < 2 ^ 64) {last : Round ν}
    (hrun : Run (Step nodes.length) (start latencyMs nodes cursor) joined last) :
    Waiting ((indices latencyMs nodes).rotate (cursor % nodes.length)) nodes.length cursor joined
      last := by
  have hcount := length_pos_iff.mpr hne
  have hlive : Live ((indices latencyMs nodes).rotate (cursor % nodes.length)) nodes.length cursor
      (⟨[], [], cursor, none, []⟩ : Round ν)
      ((ordered latencyMs nodes).rotate (cursor % nodes.length)) :=
    ⟨by simp [indices, map_rotate], by simp, le_rfl, fun h => ⟨h, rfl⟩⟩
  obtain ⟨hfilled, hbest, hfull⟩ := fill_live hcount hbound hlive
  have hstart : Waiting ((indices latencyMs nodes).rotate (cursor % nodes.length)) nodes.length
      cursor [] (start latencyMs nodes cursor) := by
    refine ⟨hfilled, hfull, ?_⟩
    rw [start, hbest]
    simp [IsBest]
  exact hrun.history_invariant (Waiting _ _ _) hstart
    fun past round event next hwaiting hstep => waiting_of_step hcount hbound hwaiting hstep

theorem Waiting.length (h : Waiting order count cursor joined round) :
    min 4 order.length ≤ round.started.length ∧ round.started.length ≤ order.length := by
  have hle := h.set_le
  rw [← h.order, length_append, length_map]
  rcases h.full with hfour | hnone
  · omega
  · rw [hnone]
    simp

/-! ## Rounds in sequence -/

/-- Rounds probe one position after the other. -/
theorem searched_positions (hne : nodes ≠ []) (hbound : nodes.length < 2 ^ 64)
    {rounds : List (List Nat)} {cursor' : Nat}
    (hrun : Run (Searched latencyMs nodes) cursor rounds cursor') (hcursor : cursor + 1 < 2 ^ 64) :
    rounds.length * min 4 nodes.length ≤ (rounds.map length).sum ∧
      ∀ t < (rounds.map length).sum, ∀ index,
        (indices latencyMs nodes)[(t + cursor) % nodes.length]? = some index →
          ∃ started ∈ rounds, index ∈ started := by
  induction hrun with
  | refl cursor => simp
  | @head cursor next _ started more first rest ih =>
    obtain ⟨joined, last, hround, rfl, rfl⟩ := first
    have hwaiting := waiting_of_run hne hbound hround
    obtain ⟨hnext, hmod⟩ := hwaiting.cursor hcursor
    obtain ⟨hsum, hcovered⟩ := ih hnext
    have hmin := hwaiting.length.1
    rw [length_rotate, length_indices] at hmin
    rw [map_cons, sum_cons, length_cons, Nat.succ_mul]
    refine ⟨by omega, fun t ht index hindex => ?_⟩
    by_cases hfirst : t < last.started.length
    · refine ⟨last.started, mem_cons_self, ?_⟩
      have hlength := hwaiting.length.2
      rw [length_rotate] at hlength
      have hat := congrArg (fun order => order[t]?) hwaiting.order
      simp only [getElem?_append_left hfirst, getElem?_rotate (hfirst.trans_le hlength),
        length_indices, Nat.add_mod_mod, hindex] at hat
      exact mem_of_getElem? hat
    · obtain ⟨round, hround, hmem⟩ := hcovered (t - last.started.length) (by omega) index (by
        rw [← hindex, Nat.add_mod, hmod, ← Nat.add_mod]
        congr 2
        omega)
      exact ⟨round, mem_cons_of_mem _ hround, hmem⟩

/-- A round starts a bounded number of probes, each candidate at most once and four at a time, and
returns the least latency. From any cursor that can still be advanced, rounds on one list probe every
candidate. -/
theorem failover_candidates (hne : nodes ≠ []) (hbound : nodes.length < 2 ^ 64) (cursor : Nat) :
    (∀ joined last, Run (Step nodes.length) (start latencyMs nodes cursor) joined last →
      min 4 nodes.length ≤ last.started.length ∧ last.started.length ≤ nodes.length ∧
        last.started.Nodup ∧ (∀ index ∈ last.started, index < nodes.length) ∧
        last.set.length ≤ 4 ∧ IsBest joined last.best) ∧
      (cursor + 1 < 2 ^ 64 → ∀ rounds cursor', Run (Searched latencyMs nodes) cursor rounds cursor' →
        nodes.length ≤ 4 * rounds.length →
        ∀ index < nodes.length, ∃ started ∈ rounds, index ∈ started) := by
  refine ⟨fun joined last hrun => ?_, fun hcursor rounds cursor' hrun hrounds index hindex => ?_⟩
  · have hwaiting := waiting_of_run hne hbound hrun
    have hlength := hwaiting.length
    rw [length_rotate, length_indices] at hlength
    have hperm := (rotate_perm (indices latencyMs nodes) (cursor % nodes.length)).trans
      indices_perm
    rw [← hwaiting.order] at hperm
    have hnodup := hperm.nodup_iff.mpr nodup_range
    refine ⟨hlength.1, hlength.2, hnodup.of_append_left, fun index hmem => ?_, hwaiting.live,
      hwaiting.best⟩
    exact mem_range.mp (hperm.subset (mem_append_left _ hmem))
  · obtain ⟨hsum, hcovered⟩ := searched_positions hne hbound hrun hcursor
    have hcount := length_pos_iff.mpr hne
    have hall : nodes.length ≤ (rounds.map length).sum := by
      rcases Nat.le_total 4 nodes.length with hfour | hfew
      · rw [min_eq_left hfour] at hsum
        omega
      · rw [min_eq_right hfew] at hsum
        exact (Nat.le_mul_of_pos_left _ (by omega)).trans hsum
    have hmem : index ∈ indices latencyMs nodes :=
      indices_perm.mem_iff.mpr (mem_range.mpr hindex)
    obtain ⟨position, hposition, hat⟩ := mem_iff_getElem.mp hmem
    rw [length_indices] at hposition
    have hmod := Nat.mod_lt cursor hcount
    have hreach : ∀ t, t < nodes.length → (t + cursor % nodes.length) % nodes.length = position →
        ∃ started ∈ rounds, index ∈ started := by
      intro t ht heq
      refine hcovered t (ht.trans_le hall) index ?_
      rw [← Nat.add_mod_mod, heq, ← hat]
      exact getElem?_eq_getElem _
    by_cases hpast : cursor % nodes.length ≤ position
    · refine hreach (position - cursor % nodes.length) (by omega) ?_
      rw [Nat.sub_add_cancel hpast, Nat.mod_eq_of_lt hposition]
    · refine hreach (position + nodes.length - cursor % nodes.length) (by omega) ?_
      rw [Nat.sub_add_cancel (by omega), Nat.add_mod_right, Nat.mod_eq_of_lt hposition]

theorem failover_candidates_two :
    Run (Searched id [none, none]) 0 [[0, 1]] 0 ∧ ∃ started ∈ [[0, 1]], 1 ∈ started := by
  have hrun : Run (Searched id [none, none]) 0 [[0, 1]] 0 :=
    .head ⟨[], _, .refl _, by decide, by decide⟩ (.refl _)
  exact ⟨hrun, (failover_candidates (by decide) (by decide) 0).2 (by decide) _ _ hrun (by decide) 1
    (by decide)⟩

/-- At the last value the cursor wraps around, and two rounds miss one of seven candidates. -/
theorem failover_cursor_wraps :
    ∃ rounds cursor', Run (Searched id (List.replicate 7 none)) (2 ^ 64 - 1) rounds cursor' ∧
      7 ≤ 4 * rounds.length ∧ ∀ started ∈ rounds, 0 ∉ started := by
  refine ⟨[[1, 2, 3, 4], [3, 4, 5, 6]], 0, .head ⟨[], _, .refl _, ?_, rfl⟩
    (.head ⟨[], _, .refl _, ?_, ?_⟩ (.refl _)), by decide, by decide⟩ <;> decide

end Sockrocket.Failover
