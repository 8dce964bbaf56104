import Sockrocket.Traffic.Recorder

/-!
# The registry of counters

`Sound` is what holds of the registry in every state: each registered counter has exactly one
recorder that refers to it, and a counter that is being retired gets no more bytes. So `retain` never
drops a counter, and what a retired counter had is merged before it is gone.
-/

namespace Sockrocket.Traffic

open Rust Transition List Option

variable {ρ τ : Type*}

/-! ## The registry -/

/-- The counter of a recorder that counts is for the day of the call. -/
def TrafficRecorder.Consistent (counters : Nat → PendingTraffic) (recorder : TrafficRecorder) :
    Prop :=
  match recorder.phase with
  | .retiring _ _ => recorder.pending = none
  | .registering _ _ _ => recorder.pending = none
  | .addingUp call => ∃ counter, recorder.pending = some counter ∧ (counters counter).day = call.day
  | .addingDown call =>
    ∃ counter, recorder.pending = some counter ∧ (counters counter).day = call.day
  | _ => True

/-- What has been swapped is zero, unless bytes come in. -/
def Merge.Emptied (counter : PendingTraffic) : Merge → Prop
  | .swappingUp => True
  | .swappingDown _ => counter.up = 0
  | _ => counter.up = 0 ∧ counter.down = 0

def System.held (system : System ρ τ) (name : ρ) : Option Nat :=
  (system.recorders name).bind TrafficRecorder.held

/-- The lock is held for what it says. -/
def Holder.Sound (system : System ρ τ) (holder : Holder ρ τ) : Prop :=
  match holder.purpose with
  | .draining _ kept rest => system.ledger.pending = kept ++ holder.counter :: rest
  | .retiring name =>
    holder.merge.Emptied (system.counters holder.counter) ∧
      ∃ recorder next, system.recorders name = some recorder ∧
        recorder.phase = .retiring holder.counter next

/-- What holds of the registry at every time. -/
structure Sound (system : System ρ τ) : Prop where
  nodup : system.ledger.pending.Nodup
  allocated : ∀ counter ∈ system.ledger.pending, counter < system.fresh
  owned : ∀ counter ∈ system.ledger.pending, ∃ name, system.held name = some counter
  registered : ∀ name counter, system.held name = some counter → counter ∈ system.ledger.pending
  exclusive : ∀ name other counter, system.held name = some counter →
    system.held other = some counter → name = other
  consistent : ∀ name recorder, system.recorders name = some recorder →
    recorder.Consistent system.counters
  holder : ∀ holder, system.holder = some holder → holder.Sound system

theorem sound_new (history : OrdMap Str NodeHistory) (subscriptions : OrdMap Str SubHistory)
    (persistent : Bool) : Sound (System.new history subscriptions persistent : System ρ τ) where
  nodup := .nil
  allocated := by simp [System.new]
  owned := by simp [System.new]
  registered := by simp [System.new, System.held]
  exclusive := by simp [System.new, System.held]
  consistent := by simp [System.new]
  holder := by simp [System.new]

section Registry

variable {system after : System ρ τ} {name : ρ} {recorder : TrafficRecorder}

theorem TrafficRecorder.held_eq {recorder : TrafficRecorder}
    (h : ∀ old next, recorder.phase ≠ .retiring old next) : recorder.held = recorder.pending := by
  unfold held
  split
  · next old next hphase => exact absurd hphase (h old next)
  · rfl

theorem System.held_of (hrecorder : system.recorders name = some recorder) :
    system.held name = recorder.held := by
  rw [held, hrecorder, bind_some]

variable {holder : Holder ρ τ}

/-- A lock that is held to retire another recorder's counter. -/
theorem Sound.not_retired (hsound : Sound system)
    (hholder : system.holder = some holder) (hrecorder : system.recorders name = some recorder)
    (hphase : ∀ old next, recorder.phase ≠ .retiring old next) :
    holder.purpose ≠ .retiring name := by
  intro hpurpose
  have h := hsound.holder holder hholder
  rw [Holder.Sound, hpurpose] at h
  obtain ⟨-, other, next, hother, hretiring⟩ := h
  rw [hrecorder] at hother
  obtain rfl := some.inj hother
  exact hphase _ _ hretiring

variable {counters : Nat → PendingTraffic}

theorem TrafficRecorder.Consistent.congr {counters' : Nat → PendingTraffic}
    {recorder : TrafficRecorder} (h : recorder.Consistent counters)
    (hday : ∀ counter ∈ recorder.pending, (counters' counter).day = (counters counter).day) :
    recorder.Consistent counters' := by
  unfold Consistent at h ⊢
  split at h
  · exact h
  · exact h
  · obtain ⟨counter, hpending, hsame⟩ := h
    exact ⟨counter, hpending, (hday counter hpending).trans hsame⟩
  · obtain ⟨counter, hpending, hsame⟩ := h
    exact ⟨counter, hpending, (hday counter hpending).trans hsame⟩
  · trivial

theorem TrafficRecorder.rebind_spec (recorder : TrafficRecorder)
    (counters : Nat → PendingTraffic) (call : RecordCall) (versions : Versions)
    (target : TrafficTarget) :
    (recorder.rebind counters call versions target).held = recorder.pending ∧
      (recorder.rebind counters call versions target).Consistent counters := by
  unfold rebind
  split
  · next hnone => exact ⟨rfl, hnone⟩
  next old hold =>
  split
  · exact ⟨hold.symm, rfl⟩
  next hsame =>
  refine ⟨rfl, old, hold, ?_⟩
  by_contra hday
  exact hsame (.inl hday)

/-- The operations of `record_at` before it touches a counter keep what the recorder refers to. -/
theorem TrafficRecorder.observe_spec {ledger : TrafficLedger} {scopes : Nat → TrafficScope} {recorder next : TrafficRecorder}
    (h : recorder.observe ledger scopes counters = some next) :
    (∀ old goOn, recorder.phase ≠ .retiring old goOn) ∧ next.held = recorder.pending ∧
      next.Consistent counters := by
  unfold observe at h
  cases hphase : recorder.phase with
  | loadingScope call =>
    rw [hphase] at h
    obtain rfl := some.inj h
    exact ⟨by simp, rfl, trivial⟩
  | loadingCurrent call scopeGeneration =>
    rw [hphase] at h
    dsimp only at h
    split at h
    · obtain rfl := some.inj h
      exact ⟨by simp, rfl, trivial⟩
    next hbound =>
    obtain rfl := some.inj h
    refine ⟨by simp, rfl, ?_⟩
    -- the recorder has a counter for the day, or it would look for a target
    obtain ⟨counter, hpending⟩ : ∃ counter, recorder.pending = some counter := by
      rw [← ne_none_iff_exists']
      intro hnone
      simp [hnone] at hbound
    refine ⟨counter, hpending, ?_⟩
    simp only [hpending, all_some, Bool.or_eq_true, decide_eq_true_eq, not_or,
      not_not] at hbound
    exact hbound.1
  | readingScope call versions =>
    rw [hphase] at h
    dsimp only at h
    split at h
    · next target _ =>
      obtain rfl := some.inj h
      exact ⟨by simp, recorder.rebind_spec counters call versions target⟩
    · obtain rfl := some.inj h
      exact ⟨by simp, rfl, trivial⟩
  | readingId call versions | readingName call versions id | readingSubId call versions id name =>
    rw [hphase] at h
    obtain rfl := some.inj h
    exact ⟨by simp, rfl, trivial⟩
  | readingSubName call versions id name subId =>
    rw [hphase] at h
    obtain rfl := some.inj h
    exact ⟨by simp, recorder.rebind_spec counters call versions _⟩
  | idle | retiring | registering | addingUp | addingDown => simp [hphase] at h

theorem System.counters_setCounter (system : System ρ τ) (counter other : Nat)
    (pending : PendingTraffic) :
    (system.setCounter counter pending).counters other =
      if other = counter then pending else system.counters other :=
  Function.update_apply ..

variable {counter : Nat}

variable {pending : PendingTraffic}

/-- Bytes of a counter change, by an operation that does not spoil what is being retired. -/
theorem Sound.setCounter (hsound : Sound system)
    (hday : pending.day = (system.counters counter).day)
    (hretired : ∀ holder name, system.holder = some holder → holder.purpose = .retiring name →
      holder.counter ≠ counter) :
    Sound (system.setCounter counter pending) := by
  have hdays : ∀ other, ((system.setCounter counter pending).counters other).day =
      (system.counters other).day := by
    intro other
    rw [System.counters_setCounter]
    split
    · next hother => rw [hother, hday]
    · rfl
  refine { hsound with consistent := ?_, holder := ?_ }
  · intro name recorder hrecorder
    exact (hsound.consistent name recorder hrecorder).congr fun other _ => hdays other
  · intro holder hlocked
    have h := hsound.holder holder hlocked
    unfold Holder.Sound at h ⊢
    split
    · next hpurpose => rwa [hpurpose] at h
    next name hpurpose =>
    rw [hpurpose] at h
    obtain ⟨hemptied, hrecorder⟩ := h
    refine ⟨?_, hrecorder⟩
    rw [System.counters_setCounter, if_neg (hretired holder name hlocked hpurpose)]
    exact hemptied

/-- The lock is taken or given back, or moves on to another counter. -/
theorem Sound.lock (hsound : Sound system) {locked : Option (Holder ρ τ)}
    (hlocked : ∀ holder ∈ locked, holder.Sound system) :
    Sound { system with holder := locked } :=
  { hsound with holder := hlocked }

/-- A registered counter is referred to, so `retain` keeps it. -/
theorem Sound.kept (hsound : Sound system) {kept kept' : List Nat}
    (hcounter : counter ∈ system.ledger.pending)
    (hkept : (system.Referenced counter ∧ kept' = kept ++ [counter]) ∨
      (¬ system.Referenced counter ∧ kept' = kept))
    : kept' = kept ++ [counter] := by
  rcases hkept with ⟨-, hkept⟩ | ⟨hunreferenced, -⟩
  · exact hkept
  · obtain ⟨name, hname⟩ := hsound.owned counter hcounter
    obtain ⟨recorder, hrecorder, hheld⟩ := bind_eq_some_iff.mp hname
    exact absurd ⟨name, recorder, hrecorder, hheld⟩ hunreferenced

/-- The counter a recorder is bound to is registered. -/
theorem Sound.bound (hsound : Sound system) (hrecorder : system.recorders name = some recorder)
    (hpending : recorder.pending = some counter) :
    recorder.held = some counter ∧ counter ∈ system.ledger.pending := by
  have hheld : recorder.held = some counter := by
    rw [← hpending]
    apply TrafficRecorder.held_eq
    intro old next hphase
    have hconsistent := hsound.consistent name recorder hrecorder
    rw [TrafficRecorder.Consistent, hphase] at hconsistent
    rw [show recorder.pending = none from hconsistent] at hpending
    cases hpending
  exact ⟨hheld, hsound.registered name counter ((System.held_of hrecorder).trans hheld)⟩

theorem Merge.next_spec (ledger : TrafficLedger) (counter : PendingTraffic) (merge : Merge) :
    (merge.next ledger counter).1.pending = ledger.pending ∧
      (merge.next ledger counter).2.1.target = counter.target ∧
      (merge.next ledger counter).2.1.day = counter.day ∧
      (merge.Emptied counter →
        (merge.next ledger counter).2.2.Emptied (merge.next ledger counter).2.1) := by
  cases merge with
  | swappingUp => exact ⟨rfl, rfl, rfl, fun _ => rfl⟩
  | swappingDown up =>
    refine ⟨rfl, rfl, rfl, fun hup => ?_⟩
    unfold next
    dsimp only
    split <;> exact ⟨hup, rfl⟩
  | recordingSession | recordingHistory | recordingSubscription | counting | merged =>
    exact ⟨rfl, rfl, rfl, id⟩

theorem System.merge_counters (system : System ρ τ) (holder : Holder ρ τ) (other : Nat) :
    (system.merge holder).counters other =
      if other = holder.counter then
        (holder.merge.next system.ledger (system.counters holder.counter)).2.1
      else system.counters other :=
  Function.update_apply ..

theorem Sound.merge (hsound : Sound system)
    (hholder : system.holder = some holder) : Sound (system.merge holder) := by
  obtain ⟨hpending, -, hday, hemptied⟩ :=
    Merge.next_spec system.ledger (system.counters holder.counter) holder.merge
  have hdays : ∀ other, ((system.merge holder).counters other).day =
      (system.counters other).day := by
    intro other
    rw [System.merge_counters]
    split
    · next hother => rw [hother, hday]
    · rfl
  have hledger : (system.merge holder).ledger.pending = system.ledger.pending := hpending
  refine
    { nodup := hledger ▸ hsound.nodup
      allocated := hledger ▸ hsound.allocated
      owned := hledger ▸ hsound.owned
      registered := hledger ▸ hsound.registered
      exclusive := hsound.exclusive
      consistent := fun name recorder hrecorder =>
        (hsound.consistent name recorder hrecorder).congr fun other _ => hdays other
      holder := ?_ }
  rintro _ ⟨⟩
  have h := hsound.holder holder hholder
  unfold Holder.Sound at h ⊢
  dsimp only
  cases hpurpose : holder.purpose with
  | draining visitor kept rest =>
    rw [hpurpose] at h
    exact hledger.trans h
  | retiring name =>
    rw [hpurpose] at h
    refine ⟨?_, h.2⟩
    rw [System.merge_counters, if_pos rfl]
    exact hemptied h.1

/-- A recorder counts into the counter it is bound to, which nobody retires. -/
theorem Sound.count (hsound : Sound system)
    (hrecorder : system.recorders name = some recorder)
    (hother : ∀ old next, recorder.phase ≠ .retiring old next)
    (hpending : recorder.pending = some counter)
    (hday : pending.day = (system.counters counter).day) :
    Sound (system.setCounter counter pending) := by
  refine hsound.setCounter hday ?_
  rintro holder other hholder hpurpose rfl
  have h := hsound.holder holder hholder
  rw [Holder.Sound, hpurpose] at h
  obtain ⟨-, retiring, next, hretiring, hphase⟩ := h
  have hheld : system.held other = some holder.counter := by
    rw [System.held_of hretiring, TrafficRecorder.held, hphase]
  have hmine : system.held name = some holder.counter := by
    rw [System.held_of hrecorder, TrafficRecorder.held_eq hother, hpending]
  obtain rfl := hsound.exclusive other name _ hheld hmine
  rw [hretiring] at hrecorder
  obtain rfl := some.inj hrecorder
  exact hother _ _ hphase

variable [DecidableEq ρ]

theorem System.recorders_setRecorder (system : System ρ τ) (name other : ρ)
    (recorder : Option TrafficRecorder) :
    (system.setRecorder name recorder).recorders other =
      if other = name then recorder else system.recorders other :=
  Function.update_apply ..

theorem System.held_setRecorder (system : System ρ τ) (name other : ρ)
    (recorder : Option TrafficRecorder) :
    (system.setRecorder name recorder).held other =
      if other = name then recorder.bind TrafficRecorder.held else system.held other := by
  rw [held, recorders_setRecorder]
  split <;> rfl

/-- A recorder moves on with the counter it had. -/
theorem Sound.setRecorder (hsound : Sound system) {recorder : Option TrafficRecorder}
    (hheld : recorder.bind TrafficRecorder.held = system.held name)
    (hconsistent : ∀ next ∈ recorder, next.Consistent system.counters)
    (hholder : ∀ holder, system.holder = some holder → holder.purpose ≠ .retiring name) :
    Sound (system.setRecorder name recorder) := by
  have hsame : (system.setRecorder name recorder).held = system.held := by
    funext other
    rw [System.held_setRecorder]
    split
    · next hother => rw [hheld, hother]
    · rfl
  refine
    { nodup := hsound.nodup
      allocated := hsound.allocated
      owned := hsame ▸ hsound.owned
      registered := hsame ▸ hsound.registered
      exclusive := hsame ▸ hsound.exclusive
      consistent := ?_
      holder := ?_ }
  · intro other next hnext
    rw [System.recorders_setRecorder] at hnext
    split at hnext
    · exact hconsistent next hnext
    · exact hsound.consistent other next hnext
  · intro holder hlocked
    have h := hsound.holder holder hlocked
    have hother := hholder holder hlocked
    unfold Holder.Sound at h ⊢
    split
    · next hpurpose => rwa [hpurpose] at h
    next other hpurpose =>
    rw [hpurpose] at h hother
    obtain ⟨hemptied, next, goOn, hnext, hphase⟩ := h
    refine ⟨hemptied, next, goOn, ?_, hphase⟩
    rw [System.recorders_setRecorder, if_neg (fun hsame => hother (congrArg _ hsame))]
    exact hnext

/-- A recorder that is not being retired moves on with the counter it is bound to. -/
theorem Sound.proceed (hsound : Sound system) (hrecorder : system.recorders name = some recorder)
    (hother : ∀ old next, recorder.phase ≠ .retiring old next) {next : Option TrafficRecorder}
    (hheld : next.bind TrafficRecorder.held = recorder.pending)
    (hconsistent : ∀ moved ∈ next, moved.Consistent system.counters) :
    Sound (system.setRecorder name next) := by
  refine hsound.setRecorder ?_ hconsistent fun holder hholder =>
    hsound.not_retired hholder hrecorder hother
  rw [System.held_of hrecorder, TrafficRecorder.held_eq hother, hheld]

theorem System.register_counters (system : System ρ τ) (name : ρ) (recorder : TrafficRecorder)
    (call : RecordCall) (versions : Versions) (target : TrafficTarget) (other : Nat) :
    (system.register name recorder call versions target).counters other =
      if other = system.fresh then ⟨⟨0, 0⟩, target, call.day⟩ else system.counters other :=
  Function.update_apply ..

/-- A new counter belongs to the recorder that registers it. -/
theorem Sound.register (hsound : Sound system) {call : RecordCall} {versions : Versions}
    {target : TrafficTarget} (hrecorder : system.recorders name = some recorder)
    (hphase : recorder.phase = .registering call versions target) (hfree : system.holder = none) :
    Sound (system.register name recorder call versions target) := by
  have hnew : system.fresh ∉ system.ledger.pending := fun hmem =>
    lt_irrefl _ (hsound.allocated _ hmem)
  have hheld : ∀ other, (system.register name recorder call versions target).held other =
      if other = name then some system.fresh else system.held other := fun other =>
    System.held_setRecorder ..
  -- the recorder has given its old counter back
  have hnone : system.held name = none := by
    have hconsistent := hsound.consistent name recorder hrecorder
    rw [TrafficRecorder.Consistent, hphase] at hconsistent
    rw [System.held_of hrecorder, TrafficRecorder.held, hphase]
    exact hconsistent
  have hpending : (system.register name recorder call versions target).ledger.pending =
      system.ledger.pending ++ [system.fresh] := rfl
  refine
    { nodup := ?_
      allocated := ?_
      owned := ?_
      registered := ?_
      exclusive := ?_
      consistent := ?_
      holder := ?_ }
  · rw [hpending]
    exact nodup_append_comm.mp (nodup_cons.mpr ⟨hnew, hsound.nodup⟩)
  · intro counter hmem
    rw [hpending] at hmem
    rcases mem_append.mp hmem with hold | hmine
    · exact (hsound.allocated counter hold).trans (Nat.lt_succ_self _)
    · obtain rfl := mem_singleton.mp hmine
      exact Nat.lt_succ_self _
  · intro counter hmem
    rw [hpending] at hmem
    rcases mem_append.mp hmem with hold | hmine
    · obtain ⟨other, hother⟩ := hsound.owned counter hold
      refine ⟨other, ?_⟩
      rw [hheld, if_neg ?_, hother]
      rintro rfl
      rw [hnone] at hother
      cases hother
    · obtain rfl := mem_singleton.mp hmine
      exact ⟨name, by rw [hheld, if_pos rfl]⟩
  · intro other counter hother
    rw [hheld] at hother
    rw [hpending]
    split at hother
    · obtain rfl := some.inj hother
      exact mem_append_right _ (mem_singleton_self _)
    · exact mem_append_left _ (hsound.registered other counter hother)
  · intro first second counter hfirst hsecond
    rw [hheld] at hfirst hsecond
    split at hfirst <;> split at hsecond
    · next hone htwo => rw [hone, htwo]
    · obtain rfl := some.inj hfirst
      exact absurd (hsound.registered second _ hsecond) hnew
    · obtain rfl := some.inj hsecond
      exact absurd (hsound.registered first _ hfirst) hnew
    · exact hsound.exclusive first second counter hfirst hsecond
  · intro other next hnext
    replace hnext : (if other = name then _ else system.recorders other) = some next :=
      (System.recorders_setRecorder ..).symm.trans hnext
    split at hnext
    · obtain rfl := some.inj hnext
      exact ⟨system.fresh, rfl, by rw [System.register_counters, if_pos rfl]⟩
    refine (hsound.consistent other next hnext).congr fun counter hmem => ?_
    rw [System.register_counters, if_neg]
    rintro rfl
    exact hnew (hsound.bound hnext hmem).2
  · intro holder hlocked
    rw [show (system.register name recorder call versions target).holder = none from hfree]
      at hlocked
    cases hlocked

omit [DecidableEq ρ] in
/-- A retired counter is taken out of the registry, whose other counters stay. -/
theorem System.pending_unregister {before rest : List Nat}
    (hpending : system.ledger.pending = before ++ counter :: rest) (hbefore : counter ∉ before) :
    (system.unregister counter).ledger.pending.Perm (before ++ rest) := by
  have hnone : before.findIdx? (· == counter) = none := by
    rw [findIdx?_eq_none_iff]
    intro other hother
    exact beq_false_of_ne fun hsame => hbefore (hsame ▸ hother)
  have hindex : system.ledger.pending.idxOf? counter = some before.length := by
    rw [hpending, idxOf?, findIdx?_append, hnone, findIdx?_cons]
    simp
  rw [unregister, hindex, hpending]
  exact swapRemove_perm

omit [DecidableEq ρ] in
theorem Sound.mem_unregister (hsound : Sound system) (hmem : counter ∈ system.ledger.pending) :
    (system.unregister counter).ledger.pending.Nodup ∧
      ∀ other, other ∈ (system.unregister counter).ledger.pending ↔
        other ∈ system.ledger.pending ∧ other ≠ counter := by
  obtain ⟨before, rest, hpending⟩ := append_of_mem hmem
  have hnodup := hsound.nodup
  rw [hpending, nodup_middle, nodup_cons, mem_append, not_or] at hnodup
  have hperm := System.pending_unregister hpending hnodup.1.1
  refine ⟨hperm.nodup_iff.mpr hnodup.2, fun other => ?_⟩
  rw [hperm.mem_iff, hpending, mem_append, mem_append, mem_cons]
  constructor
  · intro hother
    refine ⟨hother.imp_right .inr, ?_⟩
    rintro rfl
    exact hother.elim hnodup.1.1 hnodup.1.2
  · rintro ⟨hbefore | rfl | hrest, hne⟩
    · exact .inl hbefore
    · exact absurd rfl hne
    · exact .inr hrest

/-- The recorder gives its counter back. -/
theorem Sound.retired (hsound : Sound system) {old : Nat}
    {next : Option (RecordCall × Versions × TrafficTarget)}
    (hrecorder : system.recorders name = some recorder)
    (hphase : recorder.phase = .retiring old next) :
    Sound { (system.unregister old).setRecorder name (next.map fun (call, versions, target) =>
      { recorder with phase := .registering call versions target }) with holder := none } := by
  have hheldName : system.held name = some old := by
    rw [System.held_of hrecorder, TrafficRecorder.held, hphase]
  have hpending : recorder.pending = none := by
    have hconsistent := hsound.consistent name recorder hrecorder
    rwa [TrafficRecorder.Consistent, hphase] at hconsistent
  obtain ⟨hnodup, hmem⟩ := hsound.mem_unregister (hsound.registered name old hheldName)
  have hrecorders : (system.unregister old).recorders = system.recorders := by
    unfold System.unregister
    split <;> rfl
  have hcounters : (system.unregister old).counters = system.counters := by
    unfold System.unregister
    split <;> rfl
  have hfresh : (system.unregister old).fresh = system.fresh := by
    unfold System.unregister
    split <;> rfl
  have hheld : ∀ other, ({ (system.unregister old).setRecorder name
      (next.map fun (call, versions, target) =>
        { recorder with phase := .registering call versions target }) with
          holder := none } : System ρ τ).held other =
      if other = name then none else system.held other := by
    intro other
    refine (System.held_setRecorder ..).trans ?_
    rw [System.held, hrecorders]
    refine if_congr Iff.rfl ?_ rfl
    cases next with
    | none => rfl
    | some next => exact hpending
  refine
    { nodup := hnodup
      allocated := fun counter hcounter => ?_
      owned := fun counter hcounter => ?_
      registered := fun other counter hother => ?_
      exclusive := fun first second counter hfirst hsecond => ?_
      consistent := fun other goOn hother => ?_
      holder := by rintro _ ⟨⟩ }
  · exact (hsound.allocated counter ((hmem counter).mp hcounter).1).trans_eq hfresh.symm
  · obtain ⟨hold, hne⟩ := (hmem counter).mp hcounter
    obtain ⟨other, hother⟩ := hsound.owned counter hold
    refine ⟨other, ?_⟩
    rw [hheld, if_neg, hother]
    rintro rfl
    exact hne (some.inj (hother.symm.trans hheldName))
  · rw [hheld] at hother
    split at hother
    · cases hother
    next hne =>
    refine (hmem counter).mpr ⟨hsound.registered other counter hother, ?_⟩
    rintro rfl
    exact hne (hsound.exclusive other name counter hother hheldName)
  · rw [hheld] at hfirst hsecond
    split at hfirst
    · cases hfirst
    · split at hsecond
      · cases hsecond
      · exact hsound.exclusive first second counter hfirst hsecond
  · replace hother : (if other = name then _ else (system.unregister old).recorders other) =
        some goOn := (System.recorders_setRecorder ..).symm.trans hother
    rw [hrecorders] at hother
    show goOn.Consistent (system.unregister old).counters
    rw [hcounters]
    split at hother
    · obtain ⟨⟨call, versions, target⟩, -, rfl⟩ := map_eq_some_iff.mp hother
      exact hpending
    · exact hsound.consistent other goOn hother

end Registry

/-! ## Every step -/

section Steps

variable [DecidableEq ρ] [DecidableEq τ] {system after : System ρ τ} {event : Event ρ τ}

theorem Sound.step (hsound : Sound system) (hstep : Step system event after) : Sound after := by
  cases hstep with
  | openRecorder name scope hnew =>
    refine hsound.setRecorder ?_ ?_ ?_
    · rw [System.held, hnew]
      rfl
    · rintro _ ⟨⟩
      trivial
    · intro holder hholder hpurpose
      have h := hsound.holder holder hholder
      rw [Holder.Sound, hpurpose] at h
      obtain ⟨-, recorder, next, hrecorder, -⟩ := h
      rw [hnew] at hrecorder
      cases hrecorder
  | call name call hrecorder hidle hbytes =>
    refine hsound.proceed hrecorder (by simp [hidle]) rfl ?_
    rintro _ ⟨⟩
    trivial
  | observe name hrecorder hnext =>
    obtain ⟨hother, hheld, hconsistent⟩ := TrafficRecorder.observe_spec hnext
    refine hsound.proceed hrecorder hother hheld ?_
    rintro _ ⟨⟩
    exact hconsistent
  | register name hrecorder hphase hfree => exact hsound.register hrecorder hphase hfree
  | @addUp name recorder call counter hrecorder hphase hpending =>
    have hother : ∀ old next, recorder.phase ≠ .retiring old next := by simp [hphase]
    have hday : (system.counters counter).day = call.day := by
      have hconsistent := hsound.consistent name recorder hrecorder
      rw [TrafficRecorder.Consistent, hphase] at hconsistent
      obtain ⟨bound, hbound, hday⟩ := hconsistent
      obtain rfl := some.inj (hpending.symm.trans hbound)
      exact hday
    refine Sound.proceed (hsound.count hrecorder hother hpending ?_) hrecorder hother ?_ ?_
    · rfl
    · rfl
    · rintro _ ⟨⟩
      refine ⟨counter, hpending, ?_⟩
      rw [System.counters_setCounter, if_pos rfl]
      exact hday
  | @addDown name recorder call counter hrecorder hphase hpending =>
    have hother : ∀ old next, recorder.phase ≠ .retiring old next := by simp [hphase]
    refine Sound.proceed (hsound.count hrecorder hother hpending ?_) hrecorder hother ?_ ?_
    · rfl
    · rfl
    · rintro _ ⟨⟩
      trivial
  | @drop name recorder hrecorder hidle =>
    refine hsound.proceed hrecorder (by simp [hidle]) ?_ ?_
    · cases recorder.pending <;> rfl
    · intro moved hmoved
      obtain ⟨old, -, rfl⟩ := map_eq_some_iff.mp hmoved
      rfl
  | lockRetire name hrecorder hphase hfree =>
    refine hsound.lock ?_
    rintro _ ⟨⟩
    exact ⟨trivial, _, _, hrecorder, hphase⟩
  | lockDrain visitor hvisit hfree hpending =>
    refine { hsound with holder := ?_ }
    rintro _ ⟨⟩
    exact hpending
  | merge hholder => exact hsound.merge hholder
  | retired hholder hrecorder hphase => exact hsound.retired hrecorder hphase
  | @drainNext visitor counter next kept kept' rest hholder hkept =>
    have hpending : system.ledger.pending = kept ++ counter :: next :: rest :=
      hsound.holder _ hholder
    obtain rfl := hsound.kept (by simp [hpending]) hkept
    refine hsound.lock ?_
    rintro _ ⟨⟩
    show system.ledger.pending = kept ++ [counter] ++ next :: rest
    rw [hpending, append_assoc, singleton_append]
  | @drained visitor visit counter kept kept' hholder hkept hvisit =>
    have hpending : system.ledger.pending = kept ++ [counter] := hsound.holder _ hholder
    obtain rfl := hsound.kept (by simp [hpending]) hkept
    have hsame : (system.setPending (kept ++ [counter])) = system := by
      rw [← hpending]
      rfl
    rw [hsame]
    exact { hsound with holder := by rintro _ ⟨⟩ }
  | reattribute change => cases change <;> exact { hsound with }
  | drainNothing | visit | cloneSession | snapshots | monthlySeries | flushNothing | flushLoad
  | flush | tick => exact { hsound with }

end Steps

end Sockrocket.Traffic
