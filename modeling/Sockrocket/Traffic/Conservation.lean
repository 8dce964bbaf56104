import Sockrocket.Traffic.Registry

/-!
# No byte is lost or counted twice

`Conserved` follows the bytes: what is in the ledger, in the registered counters and on the way from
the one to the other is what was recorded. While nobody holds the registry's lock nothing is on the
way.

`traffic_conserved` is the contract.
-/

namespace Sockrocket.Traffic

open Rust Transition List

variable {ρ τ : Type*}

/-! ## Where bytes are -/

/-- The bytes of a counter, if its node and month are selected. -/
def PendingTraffic.selected (select : Str → Str → Bool) (direction : Direction)
    (counter : PendingTraffic) : Nat :=
  if select (accountId counter.target.id) (monthOf counter.day) then counter.bytes direction else 0

/-- The bytes in the registered counters. -/
def System.pendingBytes (system : System ρ τ) (select : Str → Str → Bool) (direction : Direction) :
    Nat :=
  (system.ledger.pending.map fun counter =>
    (system.counters counter).selected select direction).sum

/-- What has been swapped out of the counter and is not in the session yet. -/
def Merge.beforeSession : Merge → TrafficCounters
  | .swappingDown up => ⟨up, 0⟩
  | .recordingSession up down => ⟨up, down⟩
  | _ => ⟨0, 0⟩

/-- What has been swapped out of the counter and is not in the history yet. -/
def Merge.beforeHistory : Merge → TrafficCounters
  | .swappingDown up => ⟨up, 0⟩
  | .recordingSession up down => ⟨up, down⟩
  | .recordingHistory up down => ⟨up, down⟩
  | _ => ⟨0, 0⟩

/-- The bytes a merge in progress carries. -/
def System.carried (system : System ρ τ) (part : Merge → TrafficCounters)
    (select : Str → Str → Bool) (direction : Direction) : Nat :=
  system.holder.elim 0 fun holder =>
    PendingTraffic.selected select direction
      { system.counters holder.counter with toTrafficCounters := part holder.merge }

/-- The bytes an event records. -/
def Event.recorded (select : Str → Str → Bool) (direction : Direction) : Event ρ τ → Nat
  | .added _ way target day bytes =>
    if way = direction ∧ select (accountId target.id) (monthOf day) then bytes else 0
  | _ => 0

def recordedBytes (events : List (Event ρ τ)) (select : Str → Str → Bool) (direction : Direction) :
    Nat :=
  (events.map (Event.recorded select direction)).sum

/-- Every byte recorded is in one place. -/
structure Conserved (base : OrdMap Str NodeHistory) (past : List (Event ρ τ))
    (system : System ρ τ) : Prop where
  history : ∀ select direction,
    historyBytes select direction system.ledger.history + system.pendingBytes select direction +
        system.carried Merge.beforeHistory select direction =
      historyBytes select direction base + recordedBytes past select direction
  session : ∀ (select : Str → Bool) direction,
    sessionBytes select direction system.ledger.session +
        system.pendingBytes (fun id _ => select id) direction +
        system.carried Merge.beforeSession (fun id _ => select id) direction =
      recordedBytes past (fun id _ => select id) direction

/-- No total of a node reaches `2^64`. -/
def Bounded (base : OrdMap Str NodeHistory) (past : List (Event ρ τ)) : Prop :=
  ∀ id direction,
    historyBytes (ofNode id) direction base + recordedBytes past (ofNode id) direction < 2 ^ 64

section Bytes

variable {system : System ρ τ} {base : OrdMap Str NodeHistory} {past : List (Event ρ τ)}
  {event : Event ρ τ} {select : Str → Str → Bool} {direction : Direction} {counter : Nat}

theorem recordedBytes_concat (past : List (Event ρ τ)) (event : Event ρ τ)
    (select : Str → Str → Bool) (direction : Direction) :
    recordedBytes (past ++ [event]) select direction =
      recordedBytes past select direction + event.recorded select direction := by
  rw [recordedBytes, map_append, sum_append, map_singleton, sum_singleton]
  rfl

theorem recordedBytes_mono {select' : Str → Str → Bool}
    (h : ∀ id month, select id month → select' id month)
    (past : List (Event ρ τ)) (direction : Direction) :
    recordedBytes past select direction ≤ recordedBytes past select' direction := by
  refine sum_le_sum fun event _ => ?_
  cases event with
  | added name way target day bytes =>
    simp only [Event.recorded]
    split
    · next hselect => rw [if_pos ⟨hselect.1, h _ _ hselect.2⟩]
    · exact Nat.zero_le _
  | _ => exact le_rfl

theorem Bounded.of_concat (h : Bounded base (past ++ [event])) : Bounded base past := by
  intro id direction
  have hbound := h id direction
  rw [recordedBytes_concat] at hbound
  omega

theorem PendingTraffic.selected_zero (target : TrafficTarget) (day : Nat) :
    PendingTraffic.selected select direction ⟨⟨0, 0⟩, target, day⟩ = 0 := by
  unfold selected
  cases direction <;> exact ite_self 0

/-- A sum over counters of which one changes. -/
theorem sum_map_exchange {counters : List Nat} (hnodup : counters.Nodup)
    (hmem : counter ∈ counters) {f g : Nat → Nat}
    (hothers : ∀ other, other ≠ counter → g other = f other) :
    (counters.map g).sum + f counter = (counters.map f).sum + g counter := by
  obtain ⟨before, rest, rfl⟩ := append_of_mem hmem
  rw [nodup_middle, nodup_cons, mem_append, not_or] at hnodup
  have hbefore : before.map g = before.map f := map_congr_left fun other hother =>
    hothers other fun hsame => hnodup.1.1 (hsame ▸ hother)
  have hrest : rest.map g = rest.map f := map_congr_left fun other hother =>
    hothers other fun hsame => hnodup.1.2 (hsame ▸ hother)
  rw [map_append, map_append, map_cons, map_cons, hbefore, hrest,
    sum_append, sum_append, sum_cons, sum_cons]
  omega

/-- The bytes of the registry when one registered counter changes. -/
theorem Sound.pendingBytes_setCounter (hsound : Sound system)
    (hmem : counter ∈ system.ledger.pending) (pending : PendingTraffic)
    (select : Str → Str → Bool) (direction : Direction) :
    (system.setCounter counter pending).pendingBytes select direction +
        (system.counters counter).selected select direction =
      system.pendingBytes select direction + pending.selected select direction := by
  have h := sum_map_exchange hsound.nodup hmem
    (f := fun other => (system.counters other).selected select direction)
    (g := fun other => ((system.setCounter counter pending).counters other).selected select direction)
    fun other hother => by rw [System.counters_setCounter, if_neg hother]
  rw [System.counters_setCounter, if_pos rfl] at h
  exact h

theorem System.selected_le_pendingBytes (hmem : counter ∈ system.ledger.pending)
    (select : Str → Str → Bool) (direction : Direction) :
    (system.counters counter).selected select direction ≤
      system.pendingBytes select direction :=
  single_le_sum (fun _ _ => Nat.zero_le _) _ (mem_map_of_mem hmem)

variable {holder : Holder ρ τ} {part : Merge → TrafficCounters}

/-- The key a counter counts under does not change while it is merged. -/
theorem System.carried_eq (hholder : system.holder = some holder) :
    system.carried part select direction =
      if select (accountId (system.counters holder.counter).target.id)
          (monthOf (system.counters holder.counter).day) then
        (part holder.merge).bytes direction
      else 0 := by
  rw [carried, hholder, Option.elim_some]
  rfl

theorem System.carried_none (hfree : system.holder = none) :
    system.carried part select direction = 0 := by
  rw [carried, hfree, Option.elim_none]

/-- A merge that has not begun, or is done, carries nothing. -/
theorem System.carried_zero (hholder : system.holder = some holder)
    (hpart : part holder.merge = ⟨0, 0⟩) :
    system.carried part select direction = 0 := by
  rw [carried_eq hholder, hpart]
  cases direction <;> exact ite_self 0

variable {pending : PendingTraffic}

theorem System.carried_setCounter
    (htarget : pending.target = (system.counters counter).target)
    (hday : pending.day = (system.counters counter).day) :
    (system.setCounter counter pending).carried part select direction =
      system.carried part select direction := by
  have hlock : (system.setCounter counter pending).holder = system.holder := rfl
  cases hholder : system.holder with
  | none => rw [System.carried_none hholder, System.carried_none (hlock.trans hholder)]
  | some holder =>
    rw [System.carried_eq hholder, System.carried_eq (hlock.trans hholder),
      System.counters_setCounter]
    split
    · next hsame => rw [hsame, htarget, hday]
    · rfl

variable {way : Direction} {bytes : Nat}

theorem PendingTraffic.selected_fetchAdd {counter : PendingTraffic}
    (hsmall : counter.bytes way + bytes < 2 ^ 64) :
    (counter.fetchAdd bytes way).selected select direction =
      counter.selected select direction +
        if way = direction ∧ select (accountId counter.target.id) (monthOf counter.day) then bytes
        else 0 := by
  have hadded := wrappingAdd_of_lt hsmall
  cases way <;> cases direction <;>
    simp_all [selected, fetchAdd, TrafficCounters.bytes] <;> split <;> rfl

/-- An event that records nothing. -/
theorem Conserved.silent (h : Conserved base past system)
    (hevent : ∀ select direction, event.recorded select direction = 0) :
    Conserved base (past ++ [event]) system where
  history select direction := by rw [recordedBytes_concat, hevent]; exact h.history select direction
  session select direction := by rw [recordedBytes_concat, hevent]; exact h.session select direction

/-- Nothing but the way the bytes are on has changed. -/
theorem Conserved.transfer {after : System ρ τ} (h : Conserved base past system)
    (hhistory : after.ledger.history = system.ledger.history)
    (hsession : after.ledger.session = system.ledger.session)
    (hpending : ∀ select direction, after.pendingBytes select direction +
        after.carried Merge.beforeHistory select direction =
      system.pendingBytes select direction +
        system.carried Merge.beforeHistory select direction)
    (hpending' : ∀ select direction, after.pendingBytes select direction +
        after.carried Merge.beforeSession select direction =
      system.pendingBytes select direction +
        system.carried Merge.beforeSession select direction) :
    Conserved base past after where
  history select direction := by
    have hold := h.history select direction
    have hmoved := hpending select direction
    rw [hhistory]
    omega
  session select direction := by
    have hold := h.session select direction
    have hmoved := hpending' (fun id _ => select id) direction
    rw [hsession]
    omega

/-- Bytes are counted. -/
theorem Conserved.count (h : Conserved base past system) (hsound : Sound system) {name : ρ} {day : Nat} (hmem : counter ∈ system.ledger.pending)
    (hday : (system.counters counter).day = day)
    (hbounded : Bounded base
      (past ++ [.added name way (system.counters counter).target day bytes])) :
    Conserved base (past ++ [.added name way (system.counters counter).target day bytes])
      (system.setCounter counter ((system.counters counter).fetchAdd bytes way)) := by
  subst hday
  -- the counter does not wrap around
  have hsmall : (system.counters counter).bytes way + bytes < 2 ^ 64 := by
    have hbound := hbounded (accountId (system.counters counter).target.id) way
    have hhistory := h.history (ofNode (accountId (system.counters counter).target.id)) way
    have hle := System.selected_le_pendingBytes hmem
      (ofNode (accountId (system.counters counter).target.id)) way
    rw [recordedBytes_concat] at hbound
    simp only [Event.recorded, PendingTraffic.selected, ofNode, decide_true, and_self,
      if_true] at hbound hle
    omega
  have hpending : ∀ select direction,
      (system.setCounter counter ((system.counters counter).fetchAdd bytes way)).pendingBytes
          select direction =
        system.pendingBytes select direction +
          Event.recorded select direction
            (.added name way (system.counters counter).target (system.counters counter).day bytes :
              Event ρ τ) := by
    intro select direction
    have hsum := hsound.pendingBytes_setCounter hmem
      ((system.counters counter).fetchAdd bytes way) select direction
    rw [PendingTraffic.selected_fetchAdd hsmall] at hsum
    simp only [Event.recorded]
    omega
  have hcarried : ∀ part select direction,
      (system.setCounter counter ((system.counters counter).fetchAdd bytes way)).carried part
          select direction = system.carried part select direction := fun part select direction =>
    System.carried_setCounter (by cases way <;> rfl) (by cases way <;> rfl)
  have hledger : (system.setCounter counter
      ((system.counters counter).fetchAdd bytes way)).ledger = system.ledger := rfl
  constructor
  · intro select direction
    have hold := h.history select direction
    rw [recordedBytes_concat, hpending, hcarried, hledger]
    omega
  · intro select direction
    have hold := h.session select direction
    rw [recordedBytes_concat, hpending, hcarried, hledger]
    omega

/-- The counter that is merged is registered. -/
theorem Sound.holder_mem (hsound : Sound system) (hholder : system.holder = some holder) :
    holder.counter ∈ system.ledger.pending := by
  have h := hsound.holder holder hholder
  rw [Holder.Sound] at h
  split at h
  · rw [h]
    exact mem_append_right _ mem_cons_self
  · obtain ⟨-, recorder, next, hrecorder, hphase⟩ := h
    refine hsound.registered _ _ ((System.held_of hrecorder).trans ?_)
    rw [TrafficRecorder.held, hphase]

/-- An operation of the merge that takes bytes out of the counter, and carries them. -/
theorem Conserved.swap (h : Conserved base past system) (hsound : Sound system)
    (hholder : system.holder = some holder) {merge : Merge}
    (htarget : pending.target = (system.counters holder.counter).target)
    (hday : pending.day = (system.counters holder.counter).day)
    (hhistory : ∀ direction, pending.bytes direction + merge.beforeHistory.bytes direction =
      (system.counters holder.counter).bytes direction + holder.merge.beforeHistory.bytes direction)
    (hsession : ∀ direction, pending.bytes direction + merge.beforeSession.bytes direction =
      (system.counters holder.counter).bytes direction + holder.merge.beforeSession.bytes direction) :
    Conserved base past { system.setCounter holder.counter pending with
      holder := some { holder with merge := merge } } := by
  have hmoved : ∀ part : Merge → TrafficCounters,
      (∀ direction, pending.bytes direction + (part merge).bytes direction =
        (system.counters holder.counter).bytes direction +
          (part holder.merge).bytes direction) →
      ∀ select direction,
        (system.setCounter holder.counter pending).pendingBytes select direction +
            System.carried { system.setCounter holder.counter pending with
              holder := some { holder with merge := merge } } part select direction =
          system.pendingBytes select direction + system.carried part select direction := by
    intro part hpart select direction
    have hsum := hsound.pendingBytes_setCounter (hsound.holder_mem hholder) pending select direction
    have hbytes := hpart direction
    have hcounter : (system.setCounter holder.counter pending).counters holder.counter = pending := by
      rw [System.counters_setCounter, if_pos rfl]
    rw [System.carried_eq hholder, System.carried_eq rfl]
    dsimp only
    rw [hcounter, htarget, hday]
    unfold PendingTraffic.selected at hsum
    rw [htarget, hday] at hsum
    split at hsum
    · next hselect =>
      rw [if_pos hselect, if_pos hselect]
      omega
    · next hselect =>
      rw [if_neg hselect, if_neg hselect]
      omega
  exact h.transfer rfl rfl (hmoved _ hhistory) (hmoved _ hsession)

/-- An operation of the merge that leaves the counter alone. -/
theorem System.merge_eq
    (h : (holder.merge.next system.ledger (system.counters holder.counter)).2.1 =
      system.counters holder.counter) :
    system.merge holder =
      { system with
        ledger := (holder.merge.next system.ledger (system.counters holder.counter)).1
        holder := some { holder with
          merge := (holder.merge.next system.ledger (system.counters holder.counter)).2.2 } } := by
  unfold merge
  dsimp only
  rw [h, setCounter, Function.update_eq_self]

section

variable (h : Conserved base past system)

include h

variable {up down : Nat} {purpose : Purpose ρ τ}

/-- What the merge carries is added to the session. -/
theorem Conserved.recordSession {counter : Nat}
    (hholder : system.holder = some ⟨counter, .recordingSession up down, purpose⟩)
    (hbounded : Bounded base past) :
    Conserved base past { system with
      ledger := { system.ledger with
        session := recordSession system.ledger.session (system.counters counter).target up down }
      holder := some ⟨counter, .recordingHistory up down, purpose⟩ } where
  history select direction := by
    have hold := h.history select direction
    rw [System.carried_eq hholder] at hold
    rw [System.carried_eq rfl]
    exact hold
  session select direction := by
    have hold := h.session select direction
    rw [System.carried_eq hholder] at hold
    -- the entry does not saturate: it is part of what was recorded for the node
    have hsmall : sessionBytes
        (fun id => decide (id = accountId (system.counters counter).target.id)) direction
          system.ledger.session + (⟨up, down⟩ : TrafficCounters).bytes direction < 2 ^ 64 := by
      have hnode := h.session
        (fun id => decide (id = accountId (system.counters counter).target.id)) direction
      have hbound : _ + recordedBytes past
          (fun id _ => decide (id = accountId (system.counters counter).target.id)) direction <
            2 ^ 64 :=
        hbounded (accountId (system.counters counter).target.id) direction
      rw [System.carried_eq hholder, if_pos (decide_eq_true rfl)] at hnode
      dsimp only [Merge.beforeSession] at hnode
      omega
    have hrecord := sessionBytes_record select system.ledger.session hsmall
    rw [System.carried_zero rfl rfl, add_zero]
    refine (congrArg (· + _) hrecord).trans ?_
    rw [Nat.add_right_comm]
    exact hold

/-- What the merge carries is added to the history. -/
theorem Conserved.recordHistory {counter : Nat}
    (hholder : system.holder = some ⟨counter, .recordingHistory up down, purpose⟩)
    (hbounded : Bounded base past) :
    Conserved base past { system with
      ledger := { system.ledger with
        history := recordHistory system.ledger.history (system.counters counter).target
          (monthOf (system.counters counter).day) up down }
      holder := some ⟨counter, .recordingSubscription up down, purpose⟩ } where
  history select direction := by
    have hold := h.history select direction
    rw [System.carried_eq hholder] at hold
    have hsmall : historyBytes (ofMonth (accountId (system.counters counter).target.id)
        (monthOf (system.counters counter).day)) direction system.ledger.history +
          (⟨up, down⟩ : TrafficCounters).bytes direction < 2 ^ 64 := by
      have hmonth := h.history (ofMonth (accountId (system.counters counter).target.id)
        (monthOf (system.counters counter).day)) direction
      have hbound := hbounded (accountId (system.counters counter).target.id) direction
      have hselect : ∀ id month, ofMonth (accountId (system.counters counter).target.id)
          (monthOf (system.counters counter).day) id month →
            ofNode (accountId (system.counters counter).target.id) id month := by
        intro id month hboth
        exact (Bool.and_eq_true_iff.mp hboth).1
      have hbase := historyBytes_mono hselect base direction
      have hpast := recordedBytes_mono hselect past direction
      rw [System.carried_eq hholder, if_pos (by simp [ofMonth])] at hmonth
      dsimp only [Merge.beforeHistory] at hmonth
      omega
    have hrecord := historyBytes_record select system.ledger.history hsmall
    rw [System.carried_zero rfl rfl, add_zero]
    refine (congrArg (· + _) hrecord).trans ?_
    rw [Nat.add_right_comm]
    exact hold
  session select direction := by
    have hold := h.session select direction
    rw [System.carried_zero hholder rfl] at hold
    rw [System.carried_zero rfl rfl]
    exact hold

/-- One operation of a merge. -/
theorem Conserved.merge (hsound : Sound system)
    (hholder : system.holder = some holder) (hbounded : Bounded base past) :
    Conserved base past (system.merge holder) := by
  obtain ⟨counter, merge, purpose⟩ := holder
  cases merge with
  | swappingUp =>
    refine h.swap hsound hholder rfl rfl ?_ ?_
    · intro direction
      cases direction <;> simp [TrafficCounters.bytes, Merge.beforeHistory, Merge.next]
    · intro direction
      cases direction <;> simp [TrafficCounters.bytes, Merge.beforeSession, Merge.next]
  | swappingDown up =>
    by_cases hnone : up = 0 ∧ (system.counters counter).down = 0
    · refine h.swap hsound hholder rfl rfl ?_ ?_
      · intro direction
        cases direction <;> simp [TrafficCounters.bytes, Merge.beforeHistory, Merge.next, hnone]
      · intro direction
        cases direction <;> simp [TrafficCounters.bytes, Merge.beforeSession, Merge.next, hnone]
    · refine h.swap hsound hholder rfl rfl ?_ ?_
      · intro direction
        cases direction <;> simp [TrafficCounters.bytes, Merge.beforeHistory, Merge.next, hnone]
      · intro direction
        cases direction <;> simp [TrafficCounters.bytes, Merge.beforeSession, Merge.next, hnone]
  | recordingSession up down =>
    rw [System.merge_eq rfl]
    exact h.recordSession hholder hbounded
  | recordingHistory up down =>
    rw [System.merge_eq rfl]
    exact h.recordHistory hholder hbounded
  | recordingSubscription | counting | merged =>
    rw [System.merge_eq rfl]
    refine h.transfer rfl rfl ?_ ?_
    · intro select direction
      rw [System.carried_zero hholder rfl, System.carried_zero rfl rfl]
      rfl
    · intro select direction
      rw [System.carried_zero hholder rfl, System.carried_zero rfl rfl]
      rfl

/-- A counter without bytes is registered. -/
theorem Conserved.register [DecidableEq ρ] (hsound : Sound system)
    (hfree : system.holder = none) (name : ρ) (recorder : TrafficRecorder) (call : RecordCall)
    (versions : Versions) (target : TrafficTarget) :
    Conserved base past (system.register name recorder call versions target) := by
  have hpending : ∀ select direction,
      (system.register name recorder call versions target).pendingBytes select direction =
        system.pendingBytes select direction := by
    intro select direction
    have hcounters : ∀ counter ∈ system.ledger.pending,
        (system.register name recorder call versions target).counters counter =
          system.counters counter := by
      intro counter hmem
      rw [System.register_counters, if_neg (hsound.allocated counter hmem).ne]
    have hfresh : (system.register name recorder call versions target).counters system.fresh =
        ⟨⟨0, 0⟩, target, call.day⟩ := by
      rw [System.register_counters, if_pos rfl]
    show ((system.ledger.pending ++ [system.fresh]).map _).sum = _
    rw [map_append, sum_append, map_singleton, sum_singleton, hfresh,
      PendingTraffic.selected_zero, add_zero, System.pendingBytes]
    exact congrArg sum (map_congr_left fun counter hmem => by rw [hcounters counter hmem])
  have hcarried : ∀ part select direction,
      (system.register name recorder call versions target).carried part select direction =
        system.carried part select direction := by
    intro part select direction
    have hstill : (system.register name recorder call versions target).holder = none := hfree
    rw [System.carried_none hfree, System.carried_none hstill]
  refine h.transfer rfl rfl ?_ ?_
  · intro select direction
    rw [hpending, hcarried]
  · intro select direction
    rw [hpending, hcarried]

/-- An empty counter is taken out of the registry. -/
theorem Conserved.retired (hsound : Sound system) {old : Nat}
    {name : ρ} (hholder : system.holder = some ⟨old, .merged, .retiring name⟩)
    {after : System ρ τ} (hledger : after.ledger = (system.unregister old).ledger)
    (hcounters : after.counters = system.counters) (hfree : after.holder = none) :
    Conserved base past after := by
  have hmem : old ∈ system.ledger.pending := hsound.holder_mem hholder
  have hempty : ∀ select direction, (system.counters old).selected select direction = 0 := by
    intro select direction
    obtain ⟨⟨hup, hdown⟩, -⟩ := hsound.holder _ hholder
    unfold PendingTraffic.selected
    cases direction with
    | up => exact (congrArg (ite _ · 0) hup).trans (ite_self 0)
    | down => exact (congrArg (ite _ · 0) hdown).trans (ite_self 0)
  have hpending : ∀ select direction,
      after.pendingBytes select direction = system.pendingBytes select direction := by
    intro select direction
    obtain ⟨before, rest, hsplit⟩ := append_of_mem hmem
    have hnodup := hsound.nodup
    rw [hsplit, nodup_middle, nodup_cons, mem_append, not_or] at hnodup
    have hperm := System.pending_unregister hsplit hnodup.1.1
    rw [System.pendingBytes, System.pendingBytes, hledger, hcounters,
      (hperm.map _).sum_eq, hsplit, map_append, map_append, map_cons,
      sum_append, sum_append, sum_cons, hempty, zero_add]
  have hmaps : (system.unregister old).ledger.history = system.ledger.history ∧
      (system.unregister old).ledger.session = system.ledger.session := by
    unfold System.unregister
    split <;> exact ⟨rfl, rfl⟩
  refine h.transfer (hledger ▸ hmaps.1) (hledger ▸ hmaps.2) ?_ ?_
  · intro select direction
    rw [hpending, System.carried_none hfree, System.carried_zero hholder rfl]
  · intro select direction
    rw [hpending, System.carried_none hfree, System.carried_zero hholder rfl]

/-- The lock is taken, given back, or moves on, while nothing is carried. -/
theorem Conserved.lock {after : System ρ τ}
    (hledger : after.ledger = system.ledger) (hcounters : after.counters = system.counters)
    (hcarried : ∀ select direction, system.carried Merge.beforeHistory select direction = 0 ∧
        system.carried Merge.beforeSession select direction = 0)
    (hcarried' : ∀ select direction, after.carried Merge.beforeHistory select direction = 0 ∧
        after.carried Merge.beforeSession select direction = 0) :
    Conserved base past after := by
  have hpending : ∀ select direction,
      after.pendingBytes select direction = system.pendingBytes select direction := by
    intro select direction
    rw [System.pendingBytes, hledger, hcounters, System.pendingBytes]
  refine h.transfer (hledger ▸ rfl) (hledger ▸ rfl) ?_ ?_
  · intro select direction
    rw [hpending, (hcarried select direction).1, (hcarried' select direction).1]
  · intro select direction
    rw [hpending, (hcarried select direction).2, (hcarried' select direction).2]

end

theorem conserved_new (history : OrdMap Str NodeHistory) (subscriptions : OrdMap Str SubHistory)
    (persistent : Bool) :
    Conserved history [] (System.new history subscriptions persistent : System ρ τ) where
  history _ _ := rfl
  session _ _ := rfl

/-- Without recorders nothing is registered, and nobody holds the lock. -/
theorem Sound.registry_empty (hsound : Sound system)
    (hdropped : ∀ name, system.recorders name = none) :
    system.ledger.pending = [] ∧ system.holder = none := by
  have hempty : system.ledger.pending = [] := by
    rw [eq_nil_iff_forall_not_mem]
    intro counter hmem
    obtain ⟨name, hname⟩ := hsound.owned counter hmem
    rw [System.held, hdropped name] at hname
    cases hname
  refine ⟨hempty, ?_⟩
  rw [Option.eq_none_iff_forall_not_mem]
  intro holder hholder
  have hmem := hsound.holder_mem hholder
  rw [hempty] at hmem
  cases hmem

end Bytes

/-! ## Every step -/

section Steps

variable [DecidableEq ρ] [DecidableEq τ] {system after : System ρ τ} {event : Event ρ τ}
  {base : OrdMap Str NodeHistory} {past : List (Event ρ τ)}

theorem Conserved.step (h : Conserved base past system) (hsound : Sound system)
    (hstep : Step system event after) (hbounded : Bounded base (past ++ [event])) :
    Conserved base (past ++ [event]) after := by
  cases hstep with
  | register name hrecorder hphase hfree =>
    exact (h.silent fun _ _ => rfl).register hsound hfree ..
  | @addUp name recorder call counter hrecorder hphase hpending
  | @addDown name recorder call counter hrecorder hphase hpending =>
    have hconsistent := hsound.consistent name recorder hrecorder
    rw [TrafficRecorder.Consistent, hphase] at hconsistent
    obtain ⟨bound, hbound, hday⟩ := hconsistent
    obtain rfl := Option.some.inj (hpending.symm.trans hbound)
    exact { h.count hsound (hsound.bound hrecorder hpending).2 hday hbounded with }
  | lockRetire name hrecorder hphase hfree | lockDrain visitor hvisit hfree hpending =>
    refine (h.silent fun _ _ => rfl).lock rfl rfl (fun select direction => ?_)
      fun select direction => ?_
    · exact ⟨System.carried_none hfree, System.carried_none hfree⟩
    · exact ⟨System.carried_zero rfl rfl, System.carried_zero rfl rfl⟩
  | merge hholder =>
    exact (h.silent fun _ _ => rfl).merge hsound hholder hbounded
  | @retired name recorder old next hholder hrecorder hphase =>
    refine (h.silent fun _ _ => rfl).retired hsound hholder rfl ?_ rfl
    unfold System.unregister
    split <;> rfl
  | drainNext hholder hkept =>
    refine (h.silent fun _ _ => rfl).lock rfl rfl (fun select direction => ?_)
      fun select direction => ?_
    · exact ⟨System.carried_zero hholder rfl, System.carried_zero hholder rfl⟩
    · exact ⟨System.carried_zero rfl rfl, System.carried_zero rfl rfl⟩
  | @drained visitor visit counter kept kept' hholder hkept hvisit =>
    have hpending : system.ledger.pending = kept ++ [counter] := hsound.holder _ hholder
    obtain rfl := hsound.kept (by simp [hpending]) hkept
    refine (h.silent fun _ _ => rfl).lock ?_ rfl (fun select direction => ?_)
      fun select direction => ?_
    · show { system.ledger with pending := kept ++ [counter] } = system.ledger
      rw [← hpending]
    · exact ⟨System.carried_zero hholder rfl, System.carried_zero hholder rfl⟩
    · exact ⟨System.carried_none rfl, System.carried_none rfl⟩
  | reattribute change =>
    cases change <;> exact { h.silent fun _ _ => rfl with }
  | openRecorder | call | observe | drop | drainNothing | visit | cloneSession | snapshots
  | monthlySeries | flushNothing | flushLoad | flush | tick =>
    exact { h.silent fun _ _ => rfl with }

/-- What every run keeps. -/
theorem conserved_of_run {history : OrdMap Str NodeHistory}
    {subscriptions : OrdMap Str SubHistory} {persistent : Bool} {events : List (Event ρ τ)}
    (hrun : Run Step (System.new history subscriptions persistent) events system)
    (hbounded : Bounded history events) : Sound system ∧ Conserved history events system := by
  have hinv : Sound system ∧ (Bounded history events → Conserved history events system) :=
    hrun.history_invariant
      (fun past system => Sound system ∧ (Bounded history past → Conserved history past system))
      ⟨sound_new history subscriptions persistent,
        fun _ => conserved_new history subscriptions persistent⟩
      fun past system event after hpast hstep =>
        ⟨hpast.1.step hstep, fun hsmall =>
          (hpast.2 hsmall.of_concat).step hpast.1 hstep hsmall⟩
  exact ⟨hinv.1, hinv.2 hbounded⟩

/-! ## After the last recorder -/

/-- Since the first state nobody has recorded, and visitors that came later see its maps. -/
structure Settled (first system : System ρ τ) : Prop where
  sound : Sound system
  dropped : ∀ name, system.recorders name = none
  session : system.ledger.session = first.ledger.session
  history : system.ledger.history = first.ledger.history
  visits : ∀ visitor, first.visits visitor = none → ∀ session,
    system.visits visitor = some (.snapshotting session) → session = first.ledger.session

omit [DecidableEq ρ] in
theorem System.visits_setVisit (system : System ρ τ) (visitor other : τ)
    (phase : Option VisitPhase) :
    (system.setVisit visitor phase).visits other =
      if other = visitor then phase else system.visits other :=
  Function.update_apply ..

variable {first : System ρ τ} {visitor : τ}

omit [DecidableEq ρ] in
/-- A visitor moves on. -/
theorem Settled.visit (h : Settled first system)
    {phase : Option VisitPhase}
    (hphase : ∀ session, phase = some (.snapshotting session) → session = system.ledger.session) :
    Settled first (system.setVisit visitor phase) := by
  refine { h with sound := { h.sound with }, visits := ?_ }
  intro other hother session hsession
  rw [System.visits_setVisit] at hsession
  split at hsession
  · exact (hphase session hsession).trans h.session
  · exact h.visits other hother session hsession

theorem Settled.step (h : Settled first system)
    (hstep : Step system event after) (hopened : ∀ name scope, event ≠ .opened name scope) :
    Settled first after := by
  have hsound := h.sound.step hstep
  obtain ⟨hempty, hfree⟩ := h.sound.registry_empty h.dropped
  cases hstep with
  | openRecorder name scope hnew => exact absurd rfl (hopened name scope)
  | call name call hrecorder | observe name hrecorder | register name hrecorder
  | addUp name hrecorder | addDown name hrecorder | drop name hrecorder
  | lockRetire name hrecorder =>
    rw [h.dropped name] at hrecorder
    cases hrecorder
  | lockDrain visitor hvisit _ hpending =>
    rw [hempty] at hpending
    cases hpending
  | merge hholder | retired hholder | drainNext hholder | drained hholder =>
    rw [hfree] at hholder
    cases hholder
  | cloneSession visitor hvisit =>
    refine h.visit ?_
    rintro session ⟨⟩
    rfl
  | flush visitor written hvisit =>
    have hleft : Settled first (system.setVisit visitor none) := h.visit nofun
    exact { hleft with sound := hsound }
  | tick visitor flushes hvisit hnew =>
    refine h.visit ?_
    intro session hsession
    cases flushes <;> cases hsession
  | reattribute change =>
    cases change <;> exact { h with sound := hsound }
  | drainNothing | visit | snapshots | monthlySeries | flushNothing | flushLoad =>
    exact h.visit nofun

/-- A snapshot that begins after the last recorder is gone is one of the maps as they were left. -/
theorem snapshots_of_settled {later : List (Event ρ τ)}
    (hsound : Sound first) (hdropped : ∀ name, first.recorders name = none)
    (hrun : Run Step first later system)
    (hopened : ∀ name scope, Event.opened name scope ∉ later)
    (hidle : first.visits visitor = none) {rows : List NodeTrafficSnapshot}
    (hstep : Step system (.snapshots visitor rows) after) :
    rows = snapshotRows first.ledger.session first.ledger.history := by
  have hrun' : Run (fun system event after => Step system event after ∧
      ∀ name scope, event ≠ .opened name scope) first later system :=
    hrun.mono fun system event after hmem hstep =>
      ⟨hstep, fun name scope hsame => hopened name scope (hsame ▸ hmem)⟩
  have hsettled : Settled first system := by
    refine hrun'.invariant (Settled first) ?_ fun system event after h hstep =>
      h.step hstep.1 hstep.2
    refine ⟨hsound, hdropped, rfl, rfl, fun visitor hvisitor session hsession => ?_⟩
    rw [hvisitor] at hsession
    cases hsession
  cases hstep with
  | snapshots visitor hvisit =>
    rw [hsettled.visits visitor hidle _ hvisit, hsettled.history]

end Steps

section Contract

variable [DecidableEq ρ] [DecidableEq τ]

/-- In every interleaving the bytes of a node and month in the history and in the registered counters,
with those a merge in progress carries, are the bytes loaded and recorded; while nobody holds the
registry's lock no bytes are carried, and the session has what the history got in this process.
Once all recorders are dropped nothing is registered, and a snapshot shows every byte. -/
theorem traffic_conserved (history : OrdMap Str NodeHistory)
    (subscriptions : OrdMap Str SubHistory) (persistent : Bool) {events : List (Event ρ τ)}
    {system : System ρ τ}
    (hrun : Run Step (System.new history subscriptions persistent) events system)
    (hbounded : Bounded history events) :
    (∀ id month direction, historyBytes (ofMonth id month) direction system.ledger.history +
          system.pendingBytes (ofMonth id month) direction +
          system.carried Merge.beforeHistory (ofMonth id month) direction =
        historyBytes (ofMonth id month) direction history +
          recordedBytes events (ofMonth id month) direction) ∧
    (system.holder = none →
      (∀ id month direction, historyBytes (ofMonth id month) direction system.ledger.history +
            system.pendingBytes (ofMonth id month) direction =
          historyBytes (ofMonth id month) direction history +
            recordedBytes events (ofMonth id month) direction) ∧
      ∀ id direction,
        historyBytes (ofNode id) direction system.ledger.history =
          historyBytes (ofNode id) direction history +
            sessionBytes (fun other => decide (other = id)) direction system.ledger.session) ∧
    ((∀ name, system.recorders name = none) →
      system.ledger.pending = [] ∧
      ∀ later final visitor rows after, Run Step system later final →
        (∀ name scope, Event.opened name scope ∉ later) → system.visits visitor = none →
        Step final (.snapshots visitor rows) after →
          (∀ row ∈ rows, ∀ direction,
            row.session.bytes direction = recordedBytes events (ofNode row.id) direction ∧
            row.history.bytes direction =
              historyBytes (ofNode row.id) direction history +
                recordedBytes events (ofNode row.id) direction) ∧
          ∀ id direction, recordedBytes events (ofNode id) direction ≠ 0 →
            ∃ row ∈ rows, row.id = id) := by
  obtain ⟨hsound, hconserved⟩ := conserved_of_run hrun hbounded
  refine ⟨fun id month direction => hconserved.history _ direction, fun hfree => ⟨?_, ?_⟩, ?_⟩
  · intro id month direction
    have h := hconserved.history (ofMonth id month) direction
    rwa [System.carried_none hfree, add_zero] at h
  · intro id direction
    have hhistory := hconserved.history (ofNode id) direction
    have hsession : _ + system.pendingBytes (ofNode id) direction + _ =
        recordedBytes events (ofNode id) direction :=
      hconserved.session (fun other => decide (other = id)) direction
    rw [System.carried_none hfree] at hhistory hsession
    omega
  · intro hdropped
    obtain ⟨hempty, hfree⟩ := hsound.registry_empty hdropped
    refine ⟨hempty, ?_⟩
    intro later final visitor rows after hlater hopened hidle hstep
    have hpending : ∀ select direction, system.pendingBytes select direction = 0 := by
      intro select direction
      rw [System.pendingBytes, hempty]
      rfl
    have hhistory : ∀ id direction, historyBytes (ofNode id) direction system.ledger.history =
        historyBytes (ofNode id) direction history +
          recordedBytes events (ofNode id) direction := by
      intro id direction
      have h := hconserved.history (ofNode id) direction
      rwa [System.carried_none hfree, hpending] at h
    have hsession : ∀ id direction,
        sessionBytes (fun other => decide (other = id)) direction system.ledger.session =
          recordedBytes events (ofNode id) direction := by
      intro id direction
      have h := hconserved.session (fun other => decide (other = id)) direction
      rwa [System.carried_none hfree, hpending] at h
    obtain ⟨hshows, hrows⟩ := snapshotRows_shows system.ledger.session system.ledger.history
      fun id direction => (hhistory id direction).trans_lt (hbounded id direction)
    obtain rfl := snapshots_of_settled hsound hdropped hlater hopened hidle hstep
    refine ⟨fun row hrow direction => ?_, fun id direction hbytes => ?_⟩
    · obtain ⟨hrowSession, hrowHistory⟩ := hshows row hrow direction
      exact ⟨hrowSession.trans (hsession row.id direction),
        hrowHistory.trans (hhistory row.id direction)⟩
    · refine hrows id direction (.inl ?_)
      rwa [hsession]

/-- A relay counts bytes while the maintenance thread drains its counter, and is dropped. -/
def drainedRelay : List (Event Unit Unit) :=
  [.attributed (.scopeTarget 0 ⟨DIRECT_TRAFFIC_ID, [], none, none⟩), .opened () (some 0),
    .called () ⟨10, 20, 30⟩, .observed (), .observed (), .observed (), .registered (),
    .added () .up ⟨DIRECT_TRAFFIC_ID, [], none, none⟩ 30 10, .visited () .tick, .locked, .merging,
    .added () .down ⟨DIRECT_TRAFFIC_ID, [], none, none⟩ 30 20, .merging, .merging, .merging,
    .merging, .merging, .unlocked, .dropped (), .locked, .merging, .merging, .unlocked]

theorem traffic_conserved_drained : ∃ system : System Unit Unit,
    Run Step (System.new .empty .empty false) drainedRelay system ∧
      Bounded .empty drainedRelay ∧ (∀ name, system.recorders name = none) ∧
      historyBytes (ofMonth DIRECT_TRAFFIC_ID "1970-01".toList) .down system.ledger.history = 20 ∧
      system.ledger.pending = [] := by
  have hsteps : Run Step (System.new .empty .empty false : System Unit Unit) _ _ :=
    .head (.reattribute (.scopeTarget 0 ⟨DIRECT_TRAFFIC_ID, [], none, none⟩)) <|
    .head (.openRecorder () (some 0) rfl) <|
    .head (.call () ⟨10, 20, 30⟩ rfl rfl (by decide)) <|
    .head (.observe () rfl rfl) <| .head (.observe () rfl rfl) <| .head (.observe () rfl rfl) <|
    .head (.register () rfl rfl rfl) <|
    .head (.addUp () rfl rfl rfl) <|
    .head (.visit () .tick rfl) <|
    .head (.lockDrain () rfl rfl rfl) <|
    .head (.merge rfl) <|
    .head (.addDown () rfl rfl rfl) <|
    .head (.merge rfl) <| .head (.merge rfl) <| .head (.merge rfl) <| .head (.merge rfl) <|
    .head (.merge rfl) <|
    .head (.drained rfl (.inl ⟨⟨(), _, rfl, rfl⟩, rfl⟩) rfl) <|
    .head (.drop () rfl rfl) <|
    .head (.lockRetire () rfl rfl rfl) <|
    .head (.merge rfl) <| .head (.merge rfl) <|
    .head (.retired rfl rfl rfl) <|
    .refl _
  obtain ⟨system, hrun, hdropped, hfree⟩ : ∃ system : System Unit Unit,
      Run Step (System.new .empty .empty false) drainedRelay system ∧
        (∀ name, system.recorders name = none) ∧ system.holder = none :=
    ⟨_, hsteps, fun _ => rfl, rfl⟩
  have hbounded : Bounded .empty drainedRelay := by
    intro id direction
    show 0 + recordedBytes drainedRelay (ofNode id) direction < 2 ^ 64
    simp only [recordedBytes, drainedRelay, map_cons, map_nil, sum_cons, sum_nil, Event.recorded]
    split_ifs <;> decide
  have hrecorded : recordedBytes drainedRelay
      (ofMonth DIRECT_TRAFFIC_ID "1970-01".toList) .down = 20 := by
    decide
  have h := traffic_conserved .empty .empty false hrun hbounded
  obtain ⟨hempty, -⟩ := h.2.2 hdropped
  refine ⟨system, hrun, hbounded, hdropped, ?_, hempty⟩
  have hhistory := (h.2.1 hfree).1 DIRECT_TRAFFIC_ID "1970-01".toList .down
  rw [hrecorded, System.pendingBytes, hempty] at hhistory
  exact hhistory

end Contract

end Sockrocket.Traffic
