import Sockrocket.Lib.Run

/-!
# The coalescing store writer

`dns/fakeip/persistence.rs`: one worker thread writes the store, and callers ask for a write by
raising a generation counter. `schedule` asks and goes on, `flush` asks and waits, `drop` asks the
worker to stop and joins it.

Every locked section is one step of the system, the write itself is two steps (it takes its
snapshot, it ends), and nothing is assumed about the order in which callers, owner and worker get
their turns; a wait on the condition variable may end at any time. `writer_barrier` is the
contract: it relates the counters to the events that led to them.
-/

namespace Persistence

open Transition List

variable {ε : Type}

/-! ## Locked sections -/

/-- The state behind the scheduler lock. `ε` stands for the kind and the text of an error. -/
structure State (ε : Type) where
  requested : Nat
  persisted : Nat
  attempted : Nat
  force : Bool
  stopping : Bool
  lastAttempt : Option Nat
  error : Option ε

/-- `State::default`. -/
def State.new : State ε where
  requested := 0
  persisted := 0
  attempted := 0
  force := false
  stopping := false
  lastAttempt := none
  error := none

/-- What a call of `flush` comes back with. -/
inductive FlushResult (ε : Type) where
  | ok
  | failed (error : ε)
  | panicked
deriving DecidableEq

/-- What the worker does after a look at the state. -/
inductive Decision where
  | exit
  | park
  | take (generation : Nat)
deriving DecidableEq

namespace State

/-- `schedule`. -/
def schedule (state : State ε) : State ε :=
  { state with requested := state.requested + 1 }

/-- The first section of `flush`; its target is the new `requested`. -/
def beginFlush (state : State ε) : State ε :=
  { state with requested := state.requested + 1, force := true }

/-- The end of `flush`, once `attempted` has reached the target. -/
def flushResult (state : State ε) (target : Nat) : FlushResult ε :=
  if target ≤ state.persisted then .ok
  else
    match state.error with
    | some error => .failed error
    | none => .panicked

/-- The section of `drop`. -/
def stop (state : State ε) : State ε :=
  { state with stopping := true }

/-- The last attempt is not yet `interval` ago. -/
def delayed (interval now : Nat) (state : State ε) : Bool :=
  match state.lastAttempt with
  | some last => decide (now - last ≤ interval)
  | none => false

/-- One turn of the worker's inner loop. -/
def examine (interval now : Nat) (state : State ε) : Decision :=
  if state.stopping && decide (state.requested ≤ state.attempted) then .exit
  else if state.requested ≤ state.persisted then .park
  else if !state.force && !state.stopping && state.delayed interval now then .park
  else .take state.requested

/-- The worker takes up a generation. -/
def taken (state : State ε) : State ε :=
  { state with force := false }

/-- The section after a write. -/
def record (state : State ε) (generation now : Nat) : Except ε Unit → State ε
  | .ok () =>
    { state with
      attempted := generation
      lastAttempt := some now
      persisted := generation
      error := none }
  | .error error =>
    { state with
      attempted := generation
      lastAttempt := some now
      error := some error }

end State

/-! ## The system -/

/-- Where the worker is. -/
inductive Phase (ε : Type) where
  | idle
  | writing (generation : Nat)
  | snapshotted (generation : Nat)
  | written (generation : Nat) (result : Except ε Unit)
  | exited

/-- The writer, its worker, the targets of the callers that wait in `flush`, and whether the owner
has let go of it. -/
structure System (ε : Type) where
  state : State ε
  phase : Phase ε
  waiting : Nat → Option Nat
  dropping : Bool

/-- A writer whose worker has just started. -/
def System.new : System ε where
  state := .new
  phase := .idle
  waiting := fun _ => none
  dropping := false

inductive WriterEvent (ε : Type) where
  | schedule
  | flush (caller : Nat)
  | flushReturn (caller : Nat) (result : FlushResult ε)
  | drop
  | joined
  | park (now : Nat)
  | take (now : Nat)
  | exit (now : Nat)
  | snapshot
  | commit (result : Except ε Unit)
  | record (now : Nat)

/-- One step of a caller, the owner or the worker. -/
inductive WriterStep (interval : Nat) : System ε → WriterEvent ε → System ε → Prop where
  | schedule (system : System ε) :
      WriterStep interval system .schedule { system with state := system.state.schedule }
  | flush (system : System ε) (caller : Nat) (hfree : system.waiting caller = none) :
      WriterStep interval system (.flush caller)
        { system with
          state := system.state.beginFlush
          waiting := Function.update system.waiting caller
            (some system.state.beginFlush.requested) }
  | flushReturn (system : System ε) (caller target : Nat)
      (htarget : system.waiting caller = some target)
      (hreached : target ≤ system.state.attempted) :
      WriterStep interval system (.flushReturn caller (system.state.flushResult target))
        { system with waiting := Function.update system.waiting caller none }
  | drop (system : System ε) (halive : system.dropping = false) :
      WriterStep interval system .drop
        { system with state := system.state.stop, dropping := true }
  | joined (system : System ε) (hdropping : system.dropping = true)
      (hexited : system.phase = .exited) : WriterStep interval system .joined system
  | park (system : System ε) (now : Nat) (hidle : system.phase = .idle)
      (hpark : system.state.examine interval now = .park) :
      WriterStep interval system (.park now) system
  | take (system : System ε) (now generation : Nat) (hidle : system.phase = .idle)
      (htake : system.state.examine interval now = .take generation) :
      WriterStep interval system (.take now)
        { system with state := system.state.taken, phase := .writing generation }
  | exit (system : System ε) (now : Nat) (hidle : system.phase = .idle)
      (hexit : system.state.examine interval now = .exit) :
      WriterStep interval system (.exit now) { system with phase := .exited }
  | snapshot (system : System ε) (generation : Nat)
      (hwriting : system.phase = .writing generation) :
      WriterStep interval system .snapshot { system with phase := .snapshotted generation }
  | commit (system : System ε) (generation : Nat) (result : Except ε Unit)
      (hsnapshot : system.phase = .snapshotted generation) :
      WriterStep interval system (.commit result)
        { system with phase := .written generation result }
  -- the write can fail before it has its snapshot: the pool's lock may be poisoned
  | commitEarly (system : System ε) (generation : Nat) (error : ε)
      (hwriting : system.phase = .writing generation) :
      WriterStep interval system (.commit (.error error))
        { system with phase := .written generation (.error error) }
  | record (system : System ε) (generation now : Nat) (result : Except ε Unit)
      (hwritten : system.phase = .written generation result) :
      WriterStep interval system (.record now)
        { system with state := system.state.record generation now result, phase := .idle }

/-! ## Histories -/

/-- The event asks for a write. -/
def WriterEvent.isRequest : WriterEvent ε → Bool
  | .schedule => true
  | .flush _ => true
  | _ => false

/-- The event is a step of a write. -/
def WriterEvent.isWrite : WriterEvent ε → Bool
  | .snapshot => true
  | .commit _ => true
  | _ => false

/-- The event is a step of the worker. -/
def WriterEvent.isWorker : WriterEvent ε → Bool
  | .park _ => true
  | .take _ => true
  | .exit _ => true
  | .snapshot => true
  | .commit _ => true
  | .record _ => true
  | _ => false

/-- How many writes were asked for. The `n`-th request has the generation `n`. -/
def requests (events : List (WriterEvent ε)) : Nat :=
  events.countP WriterEvent.isRequest

/-- The worker took up a write after the first `n` requests. -/
def Taken (events : List (WriterEvent ε)) (n : Nat) : Prop :=
  ∃ before now rest, events = before ++ .take now :: rest ∧ n ≤ requests before

/-- The write in progress took its snapshot after the first `n` requests. -/
def Snapshotted (events : List (WriterEvent ε)) (n : Nat) : Prop :=
  ∃ before rest, events = before ++ .snapshot :: rest ∧ n ≤ requests before ∧
    ∀ event ∈ rest, event.isWrite = false

/-- A write was taken up after the first `n` requests, and has ended. -/
def Attempted (events : List (WriterEvent ε)) (n : Nat) : Prop :=
  ∃ before now between result rest,
    events = before ++ .take now :: between ++ .commit result :: rest ∧ n ≤ requests before

/-- A write took its snapshot after the first `n` requests, and succeeded. -/
def Committed (events : List (WriterEvent ε)) (n : Nat) : Prop :=
  ∃ before between rest,
    events = before ++ .snapshot :: between ++ .commit (.ok ()) :: rest ∧ n ≤ requests before ∧
      ∀ event ∈ between, event.isWrite = false

/-- The latest call of `flush` by the caller was the `n`-th request. -/
def Flushing (events : List (WriterEvent ε)) (caller n : Nat) : Prop :=
  ∃ before rest, events = before ++ .flush caller :: rest ∧ requests before + 1 = n ∧
    .flush caller ∉ rest

/-- After the latest call of `flush` by the caller, a write took its snapshot and succeeded. -/
def FlushedSince (events : List (WriterEvent ε)) (caller : Nat) : Prop :=
  ∃ before pending between rest,
    events = before ++ .flush caller :: pending ++ .snapshot :: between ++
      .commit (.ok ()) :: rest ∧
    .flush caller ∉ pending ++ .snapshot :: between ++ .commit (.ok ()) :: rest ∧
    ∀ event ∈ between, event.isWrite = false

section History

variable {events : List (WriterEvent ε)} {n : Nat} (event : WriterEvent ε)

theorem requests_append (events later : List (WriterEvent ε)) :
    requests (events ++ later) = requests events + requests later :=
  countP_append

theorem Taken.append (h : Taken events n) : Taken (events ++ [event]) n := by
  obtain ⟨before, now, rest, rfl, hn⟩ := h
  exact ⟨before, now, rest ++ [event], by simp, hn⟩

theorem Snapshotted.append (h : Snapshotted events n) (hevent : event.isWrite = false) :
    Snapshotted (events ++ [event]) n := by
  obtain ⟨before, rest, rfl, hn, hrest⟩ := h
  refine ⟨before, rest ++ [event], by simp, hn, fun other hother => ?_⟩
  rcases mem_append.mp hother with hmem | hmem
  · exact hrest other hmem
  · rwa [mem_singleton.mp hmem]

theorem Attempted.append (h : Attempted events n) : Attempted (events ++ [event]) n := by
  obtain ⟨before, now, between, result, rest, rfl, hn⟩ := h
  exact ⟨before, now, between, result, rest ++ [event], by simp, hn⟩

theorem Committed.append (h : Committed events n) : Committed (events ++ [event]) n := by
  obtain ⟨before, between, rest, rfl, hn, hbetween⟩ := h
  exact ⟨before, between, rest ++ [event], by simp, hn, hbetween⟩

theorem Flushing.append {caller : Nat} (h : Flushing events caller n)
    (hevent : event ≠ .flush caller) : Flushing (events ++ [event]) caller n := by
  obtain ⟨before, rest, rfl, hn, hrest⟩ := h
  refine ⟨before, rest ++ [event], by simp, hn, fun hmem => ?_⟩
  rcases mem_append.mp hmem with hmem | hmem
  · exact hrest hmem
  · exact hevent (mem_singleton.mp hmem).symm

theorem Taken.commit (h : Taken events n) (result : Except ε Unit) :
    Attempted (events ++ [.commit result]) n := by
  obtain ⟨before, now, rest, rfl, hn⟩ := h
  exact ⟨before, now, rest, result, [], rfl, hn⟩

theorem Snapshotted.commit (h : Snapshotted events n) :
    Committed (events ++ [.commit (.ok ())]) n := by
  obtain ⟨before, rest, rfl, hn, hrest⟩ := h
  exact ⟨before, rest, [], rfl, hn, hrest⟩

/-- The snapshot of a write that covers a call of `flush` was taken after the call. -/
theorem flushedSince {caller target : Nat} (hflush : Flushing events caller target)
    (hcommitted : Committed events n) (hle : target ≤ n) : FlushedSince events caller := by
  obtain ⟨before, rest, hevents, htarget, hrest⟩ := hflush
  obtain ⟨earlier, between, later, hevents', hn, hbetween⟩ := hcommitted
  rw [hevents, append_assoc, cons_append] at hevents'
  rcases append_eq_append_iff.mp hevents' with ⟨middle, hearlier, htail⟩ | ⟨middle, hbefore, -⟩
  · cases middle with
    | nil => cases htail
    | cons first pending =>
      rw [cons_append, cons.injEq] at htail
      obtain ⟨rfl, htail⟩ := htail
      refine ⟨before, pending, between, later, ?_, ?_, hbetween⟩
      · rw [hevents, htail]
        simp
      · rw [htail] at hrest
        simpa using hrest
  · -- the snapshot cannot precede the call: the call is among the requests it covers
    have hcount := requests_append earlier middle
    rw [← hbefore] at hcount
    omega

end History

/-! ## The invariant -/

/-- What the history says about the write in progress. -/
def PhaseInv (events : List (WriterEvent ε)) (state : State ε) : Phase ε → Prop
  | .idle => True
  | .writing generation =>
    Taken events generation ∧ state.attempted ≤ generation ∧ generation ≤ state.requested
  | .snapshotted generation =>
    Taken events generation ∧ Snapshotted events generation ∧
      state.attempted ≤ generation ∧ generation ≤ state.requested
  | .written generation result =>
    Attempted events generation ∧ (result = .ok () → Committed events generation) ∧
      state.attempted ≤ generation ∧ generation ≤ state.requested
  | .exited =>
    state.stopping = true ∧
      ∀ before after, events = before ++ .drop :: after → requests before ≤ state.attempted

/-- The counters, the error slot and the targets of waiting callers, as the history has them. -/
structure WriterInv (events : List (WriterEvent ε)) (system : System ε) : Prop where
  requested : system.state.requested = requests events
  persisted_le : system.state.persisted ≤ system.state.attempted
  attempted_le : system.state.attempted ≤ system.state.requested
  committed : 0 < system.state.persisted → Committed events system.state.persisted
  attempted : 0 < system.state.attempted → Attempted events system.state.attempted
  error : system.state.persisted < system.state.attempted → system.state.error.isSome = true
  phase : PhaseInv events system.state system.phase
  waiting : ∀ caller target, system.waiting caller = some target → Flushing events caller target
  stopping : system.state.stopping = system.dropping

theorem writerInv_new : WriterInv [] (System.new : System ε) where
  requested := rfl
  persisted_le := le_refl _
  attempted_le := le_refl _
  committed h := absurd h (lt_irrefl 0)
  attempted h := absurd h (lt_irrefl 0)
  error h := absurd h (lt_irrefl 0)
  phase := trivial
  waiting caller target h := by cases h
  stopping := rfl

section Step

variable {events : List (WriterEvent ε)} {state state' : State ε} {event : WriterEvent ε}

/-- What callers and the owner do leaves the write in progress as it is. -/
theorem PhaseInv.append {phase : Phase ε} (h : PhaseInv events state phase)
    (hevent : event.isWrite = false) (hattempted : state'.attempted = state.attempted)
    (hrequested : state.requested ≤ state'.requested)
    (hstopping : state.stopping → state'.stopping ∧ event ≠ .drop) :
    PhaseInv (events ++ [event]) state' phase := by
  cases phase with
  | idle => exact trivial
  | writing generation =>
    obtain ⟨htaken, hlow, hhigh⟩ := h
    exact ⟨htaken.append event, hattempted ▸ hlow, hhigh.trans hrequested⟩
  | snapshotted generation =>
    obtain ⟨htaken, hsnapshot, hlow, hhigh⟩ := h
    exact ⟨htaken.append event, hsnapshot.append event hevent, hattempted ▸ hlow,
      hhigh.trans hrequested⟩
  | written generation result =>
    obtain ⟨hdone, hcommitted, hlow, hhigh⟩ := h
    exact ⟨hdone.append event, fun hok => (hcommitted hok).append event, hattempted ▸ hlow,
      hhigh.trans hrequested⟩
  | exited =>
    obtain ⟨hstop, hdrained⟩ := h
    obtain ⟨hstop', hdrop⟩ := hstopping hstop
    refine ⟨hstop', fun before after heq => ?_⟩
    rw [hattempted]
    -- the drop is an earlier event, the new one being none
    rcases eq_nil_or_concat after with rfl | ⟨init, last, rfl⟩
    · have hlast := append_inj_right' heq rfl
      exact absurd (singleton_inj.mp hlast) hdrop
    · rw [concat_eq_append, ← cons_append, ← append_assoc] at heq
      exact hdrained before init (append_inj_left' heq rfl)

/-- A step that asks for no write, moves no counter and starts no call of `flush`. -/
theorem WriterInv.quiet {system system' : System ε} (h : WriterInv events system)
    (hevent : event.isRequest = false) (hrequested : system'.state.requested = system.state.requested)
    (hpersisted : system'.state.persisted = system.state.persisted)
    (hattempted : system'.state.attempted = system.state.attempted)
    (herror : system'.state.error = system.state.error)
    (hphase : PhaseInv (events ++ [event]) system'.state system'.phase)
    (hwaiting : ∀ caller target, system'.waiting caller = some target →
      system.waiting caller = some target)
    (hstopping : system'.state.stopping = system'.dropping) :
    WriterInv (events ++ [event]) system' where
  requested := by
    rw [hrequested, h.requested, requests_append]
    simp [requests, hevent]
  persisted_le := by rw [hpersisted, hattempted]; exact h.persisted_le
  attempted_le := by rw [hattempted, hrequested]; exact h.attempted_le
  committed hpos := by
    rw [hpersisted] at hpos ⊢
    exact (h.committed hpos).append event
  attempted hpos := by
    rw [hattempted] at hpos ⊢
    exact (h.attempted hpos).append event
  error hlt := by
    rw [hpersisted, hattempted] at hlt
    rw [herror]
    exact h.error hlt
  phase := hphase
  waiting caller target htarget := by
    refine (h.waiting caller target (hwaiting caller target htarget)).append event ?_
    rintro rfl
    cases hevent
  stopping := hstopping

theorem requests_concat_of_isRequest (events : List (WriterEvent ε))
    (h : event.isRequest) : requests (events ++ [event]) = requests events + 1 := by
  rw [requests_append]
  simp [requests, h]

/-- A new request. -/
theorem WriterInv.request {system system' : System ε} (h : WriterInv events system)
    (hevent : event.isRequest)
    (hrequested : system'.state.requested = system.state.requested + 1)
    (hpersisted : system'.state.persisted = system.state.persisted)
    (hattempted : system'.state.attempted = system.state.attempted)
    (herror : system'.state.error = system.state.error) (hphase : system'.phase = system.phase)
    (hstop : system'.state.stopping = system.state.stopping)
    (hdropping : system'.dropping = system.dropping)
    (hwaiting : ∀ caller target, system'.waiting caller = some target →
      Flushing (events ++ [event]) caller target) :
    WriterInv (events ++ [event]) system' where
  requested := by rw [hrequested, h.requested, requests_concat_of_isRequest events hevent]
  persisted_le := by rw [hpersisted, hattempted]; exact h.persisted_le
  attempted_le := by
    rw [hattempted, hrequested]
    exact Nat.le_succ_of_le h.attempted_le
  committed hpos := by
    rw [hpersisted] at hpos ⊢
    exact (h.committed hpos).append event
  attempted hpos := by
    rw [hattempted] at hpos ⊢
    exact (h.attempted hpos).append event
  error hlt := by
    rw [hpersisted, hattempted] at hlt
    rw [herror]
    exact h.error hlt
  phase := by
    rw [hphase]
    refine h.phase.append ?_ hattempted (by omega) fun hstopping => ⟨hstop ▸ hstopping, ?_⟩
    · cases event <;> first | rfl | cases hevent
    · rintro rfl
      cases hevent
  waiting := hwaiting
  stopping := by rw [hstop, hdropping, h.stopping]

end Step

variable {interval now : Nat}

variable {generation : Nat}

theorem examine_eq_take {state : State ε}
    (h : state.examine interval now = .take generation) : generation = state.requested := by
  unfold State.examine at h
  split at h
  · cases h
  split at h
  · cases h
  split at h
  · cases h
  · exact (Decision.take.inj h).symm

theorem examine_eq_exit {state : State ε} (h : state.examine interval now = .exit) :
    state.stopping ∧ state.requested ≤ state.attempted := by
  unfold State.examine at h
  split at h
  · rename_i hexit
    simpa using hexit
  split at h
  · cases h
  split at h <;> cases h

variable {events : List (WriterEvent ε)} {system : System ε}

/-- Recording a write of a generation that is at least as recent as the last one. -/
theorem WriterInv.record {result : Except ε Unit} (h : WriterInv events system)
    (hwritten : system.phase = .written generation result) :
    WriterInv (events ++ [.record now])
      { system with state := system.state.record generation now result, phase := .idle } := by
  have hphase := h.phase
  rw [hwritten] at hphase
  obtain ⟨hdone, hcommitted, hlow, hhigh⟩ := hphase
  have hrequested : system.state.requested = requests (events ++ [.record now]) := by
    rw [h.requested, requests_append]
    rfl
  have hwaiting : ∀ caller target, system.waiting caller = some target →
      Flushing (events ++ [.record now]) caller target := fun caller target htarget =>
    (h.waiting caller target htarget).append _ nofun
  cases result with
  | ok _ =>
    exact
      { requested := hrequested
        persisted_le := le_refl _
        attempted_le := hhigh
        committed := fun _ => (hcommitted rfl).append _
        attempted := fun _ => hdone.append _
        error := fun hlt => absurd hlt (lt_irrefl _)
        phase := trivial
        waiting := hwaiting
        stopping := h.stopping }
  | error error =>
    exact
      { requested := hrequested
        persisted_le := h.persisted_le.trans hlow
        attempted_le := hhigh
        committed := fun hpos => (h.committed hpos).append _
        attempted := fun _ => hdone.append _
        error := fun _ => rfl
        phase := trivial
        waiting := hwaiting
        stopping := h.stopping }

theorem writerInv_step (events : List (WriterEvent ε)) (system : System ε) (event : WriterEvent ε)
    (after : System ε) (h : WriterInv events system)
    (hstep : WriterStep interval system event after) : WriterInv (events ++ [event]) after := by
  cases hstep with
  | schedule =>
    refine h.request rfl rfl rfl rfl rfl rfl rfl rfl fun caller target htarget => ?_
    exact (h.waiting caller target htarget).append _ nofun
  | flush caller hfree =>
    refine h.request rfl rfl rfl rfl rfl rfl rfl rfl fun other target htarget => ?_
    by_cases heq : other = caller
    · subst heq
      simp only [Function.update_self] at htarget
      refine ⟨events, [], rfl, ?_, not_mem_nil⟩
      rw [← h.requested]
      exact Option.some.inj htarget
    · simp only [Function.update_of_ne heq] at htarget
      refine (h.waiting other target htarget).append _ fun hflush => ?_
      exact heq (WriterEvent.flush.inj hflush).symm
  | flushReturn caller target htarget hreached =>
    refine h.quiet rfl rfl rfl rfl rfl
      (h.phase.append rfl rfl (le_refl _) fun hstop => ⟨hstop, nofun⟩)
      (fun other target' htarget' => ?_) h.stopping
    by_cases heq : other = caller
    · subst heq
      simp only [Function.update_self] at htarget'
      cases htarget'
    · simpa only [Function.update_of_ne heq] using htarget'
  | drop halive =>
    refine h.quiet rfl rfl rfl rfl rfl
      (h.phase.append rfl rfl (le_refl _) fun hstop => ?_) (fun _ _ htarget => htarget) rfl
    rw [h.stopping, halive] at hstop
    cases hstop
  | joined hdropping hexited =>
    exact h.quiet rfl rfl rfl rfl rfl
      (h.phase.append rfl rfl (le_refl _) fun hstop => ⟨hstop, nofun⟩)
      (fun _ _ htarget => htarget) h.stopping
  | park now hidle hpark =>
    exact h.quiet rfl rfl rfl rfl rfl (by rw [hidle]; exact trivial)
      (fun _ _ htarget => htarget) h.stopping
  | take now generation hidle htake =>
    have hgeneration := examine_eq_take htake
    refine h.quiet rfl rfl rfl rfl rfl ⟨⟨events, now, [], rfl, ?_⟩, ?_, ?_⟩
      (fun _ _ htarget => htarget) h.stopping
    · rw [hgeneration, h.requested]
    · rw [hgeneration]
      exact h.attempted_le
    · rw [hgeneration]
      exact le_refl _
  | exit now hidle hexit =>
    obtain ⟨hstop, hdrained⟩ := examine_eq_exit hexit
    refine h.quiet rfl rfl rfl rfl rfl ⟨hstop, fun before after heq => ?_⟩
      (fun _ _ htarget => htarget) h.stopping
    -- every request so far has been attempted
    have hcount := congrArg requests heq
    rw [requests_append, requests_append] at hcount
    have hexit' : requests [WriterEvent.exit (ε := ε) now] = 0 := rfl
    have hrequested := h.requested
    show requests before ≤ system.state.attempted
    omega
  | snapshot generation hwriting =>
    have hphase := h.phase
    rw [hwriting] at hphase
    obtain ⟨htaken, hlow, hhigh⟩ := hphase
    refine h.quiet rfl rfl rfl rfl rfl ⟨htaken.append _, ⟨events, [], rfl, ?_, ?_⟩, hlow, hhigh⟩
      (fun _ _ htarget => htarget) h.stopping
    · rw [← h.requested]
      exact hhigh
    · intro other hother
      cases hother
  | commit generation result hsnapshot =>
    have hphase := h.phase
    rw [hsnapshot] at hphase
    obtain ⟨htaken, hsnapshotted, hlow, hhigh⟩ := hphase
    refine h.quiet rfl rfl rfl rfl rfl ⟨htaken.commit result, ?_, hlow, hhigh⟩
      (fun _ _ htarget => htarget) h.stopping
    rintro rfl
    exact hsnapshotted.commit
  | commitEarly generation error hwriting =>
    have hphase := h.phase
    rw [hwriting] at hphase
    obtain ⟨htaken, hlow, hhigh⟩ := hphase
    refine h.quiet rfl rfl rfl rfl rfl ⟨htaken.commit _, ?_, hlow, hhigh⟩
      (fun _ _ htarget => htarget) h.stopping
    intro hok
    cases hok
  | record generation now result hwritten => exact h.record hwritten

/-! ## The contract -/

theorem writerInv_run (hrun : Run (WriterStep interval) System.new events system) :
    WriterInv events system :=
  hrun.history_invariant WriterInv writerInv_new writerInv_step

variable {after : System ε}

/-- Neither counter goes down. -/
theorem counters_mono {event : WriterEvent ε} (h : WriterInv events system)
    (hstep : WriterStep interval system event after) :
    system.state.attempted ≤ after.state.attempted ∧
      system.state.persisted ≤ after.state.persisted := by
  cases hstep with
  | record generation now result hwritten =>
    have hphase := h.phase
    rw [hwritten] at hphase
    obtain ⟨-, -, hlow, -⟩ := hphase
    cases result with
    | ok _ => exact ⟨hlow, h.persisted_le.trans hlow⟩
    | error error => exact ⟨hlow, le_refl _⟩
  | schedule | flush | flushReturn | drop | joined | park | take | exit | snapshot | commit
  | commitEarly => exact ⟨le_refl _, le_refl _⟩

/-- An exited worker takes no further step. -/
theorem exited_step {event : WriterEvent ε} (hexited : system.phase = .exited)
    (hstep : WriterStep interval system event after) :
    after.phase = .exited ∧ event.isWorker = false := by
  cases hstep with
  | schedule | flush | flushReturn | drop | joined => exact ⟨hexited, rfl⟩
  | park _ hidle | take _ _ hidle | exit _ hidle =>
    rw [hexited] at hidle
    cases hidle
  | snapshot _ hphase | commit _ _ hphase | commitEarly _ _ hphase | record _ _ _ hphase =>
    rw [hexited] at hphase
    cases hphase

theorem exited_run (hrun : Run (WriterStep interval) system events after)
    (hexited : system.phase = .exited) :
    ∀ event ∈ events, event.isWorker = false := by
  induction hrun with
  | refl system => exact nofun
  | head first rest ih =>
    obtain ⟨hafter, hevent⟩ := exited_step hexited first
    intro other hother
    rcases mem_cons.mp hother with rfl | hother
    · exact hevent
    · exact ih hafter other hother

/-- A flush that comes back finds its generation persisted, or the error of the last attempt. -/
theorem flushReturn_cases {caller : Nat} {result : FlushResult ε} (h : WriterInv events system)
    (hstep : WriterStep interval system (.flushReturn caller result) after) :
    (result = .ok ∧ FlushedSince events caller) ∨
      ∃ error, result = .failed error ∧ system.state.error = some error := by
  cases hstep with
  | flushReturn _ target htarget hreached =>
    unfold State.flushResult
    by_cases hpersisted : target ≤ system.state.persisted
    · rw [if_pos hpersisted]
      have hflush := h.waiting caller target htarget
      have hpos : 0 < system.state.persisted := by
        obtain ⟨before, rest, -, hbefore, -⟩ := hflush
        omega
      exact .inl ⟨rfl, flushedSince hflush (h.committed hpos) hpersisted⟩
    · rw [if_neg hpersisted]
      obtain ⟨error, herror⟩ := Option.isSome_iff_exists.mp (h.error (by omega))
      rw [herror]
      exact .inr ⟨error, rfl, rfl⟩

/-- In every run of callers, owner and worker: the counters are ordered and never go down; a flush
that returns `Ok` was followed by a write that took its snapshot and succeeded, and one that does
not finds a recorded error; and when the join of `drop` returns, a write has been attempted for
every request made before the drop, and the worker takes no further step. -/
theorem writer_barrier {interval : Nat} {events : List (WriterEvent ε)} {system : System ε}
    (hrun : Run (WriterStep interval) System.new events system) :
    (system.state.persisted ≤ system.state.attempted ∧
        system.state.attempted ≤ system.state.requested) ∧
      (∀ event after, WriterStep interval system event after →
        system.state.attempted ≤ after.state.attempted ∧
          system.state.persisted ≤ after.state.persisted) ∧
      (∀ caller after, WriterStep interval system (.flushReturn caller .ok) after →
        FlushedSince events caller) ∧
      (∀ caller result after, WriterStep interval system (.flushReturn caller result) after →
        result ≠ .ok → ∃ error, result = .failed error ∧ system.state.error = some error) ∧
      ∀ after, WriterStep interval system .joined after →
        (∀ before rest, events = before ++ .drop :: rest →
          requests before ≤ system.state.attempted ∧
            (0 < requests before → Attempted events (requests before))) ∧
        ∀ later afterwards, Run (WriterStep interval) after later afterwards →
          ∀ event ∈ later, event.isWorker = false := by
  have hinv := writerInv_run hrun
  refine ⟨⟨hinv.persisted_le, hinv.attempted_le⟩, fun event after => counters_mono hinv, ?_, ?_, ?_⟩
  · intro caller after hstep
    rcases flushReturn_cases hinv hstep with ⟨-, hflushed⟩ | ⟨error, herror, -⟩
    · exact hflushed
    · cases herror
  · intro caller result after hstep hfailed
    exact (flushReturn_cases hinv hstep).resolve_left fun hok => hfailed hok.1
  · intro after hstep
    cases hstep with
    | joined hdropping hexited =>
      have hphase := hinv.phase
      rw [hexited] at hphase
      refine ⟨fun before rest heq => ?_, fun later afterwards hlater =>
        exited_run hlater hexited⟩
      have hle := hphase.2 before rest heq
      refine ⟨hle, fun hpos => ?_⟩
      obtain ⟨earlier, now, between, result, later, hevents, hn⟩ :=
        hinv.attempted (hpos.trans_le hle)
      exact ⟨earlier, now, between, result, later, hevents, hle.trans hn⟩

/-- One flush, served by one write. -/
theorem writer_barrier_flush :
    FlushedSince (ε := Unit) [.flush 0, .take 0, .snapshot, .commit (.ok ()), .record 0] 0 := by
  have hrun : Run (WriterStep 10) (System.new : System Unit)
      [.flush 0, .take 0, .snapshot, .commit (.ok ()), .record 0] _ :=
    .head (.flush System.new 0 rfl) (.head (.take _ 0 1 rfl rfl) (.head (.snapshot _ 1 rfl)
      (.head (.commit _ 1 (.ok ()) rfl) (.head (.record _ 1 0 (.ok ()) rfl) (.refl _)))))
  exact (writer_barrier hrun).2.2.1 0 _ (.flushReturn _ 0 1 rfl (by decide))

/-! ## Coalescing -/

/-- How many writes have succeeded. -/
def saves (events : List (WriterEvent ε)) : Nat :=
  events.countP fun
    | .commit (.ok ()) => true
    | _ => false

/-- Each write that succeeded has a generation of its own. -/
def Covered (events : List (WriterEvent ε)) (system : System ε) : Prop :=
  match system.phase with
  | .written generation (.ok _) => saves events ≤ generation
  | .writing generation | .snapshotted generation =>
    saves events ≤ system.state.persisted ∧ system.state.persisted < generation
  | _ => saves events ≤ system.state.persisted

theorem covered_step {event : WriterEvent ε} (h : Covered events system)
    (hstep : WriterStep interval system event after) : Covered (events ++ [event]) after := by
  unfold Covered saves at *
  rw [countP_append]
  cases hstep with
  | schedule | flush | flushReturn | drop | joined | park => exact h
  | take now generation hidle htake =>
    rw [hidle] at h
    refine ⟨h, ?_⟩
    show system.state.persisted < generation
    unfold State.examine at htake
    grind
  | exit now hphase | snapshot generation hphase => simpa [hphase] using h
  | commit generation result hphase =>
    rw [hphase] at h
    cases result with
    | ok => exact h.1.trans_lt h.2
    | error error => exact h.1
  | commitEarly generation error hphase =>
    rw [hphase] at h
    exact h.1
  | record generation now result hphase =>
    rw [hphase] at h
    cases result with
    | ok | error error => exact h

end Persistence
