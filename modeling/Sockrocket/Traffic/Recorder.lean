import Sockrocket.Lib.Run
import Sockrocket.Traffic.Ledger

/-!
# Recorders and drains

Relays count bytes in atomics of their own. A `TrafficRecorder` binds such a counter to a target and
a day and registers it with the ledger; `merge_pending` and `retire_counter` move what the counters
have into the ledger, by swapping them to zero. Both hold the registry's lock meanwhile, but the
relays go on counting.

The steps of the system are single atomic operations and lock sections; only the section of the
registry is taken apart, because relays count while it lasts. Counters are numbered in the order of
their creation, which are the addresses `Arc::ptr_eq` compares.
-/

namespace Sockrocket.Traffic

open Rust Transition

/-- One attribution and day. -/
structure PendingTraffic extends TrafficCounters where
  target : TrafficTarget
  day : Nat

/-- A `fetch_add`. -/
def PendingTraffic.fetchAdd (counter : PendingTraffic) (bytes : Nat) : Direction → PendingTraffic
  | .up => { counter with up := wrappingAdd counter.up bytes }
  | .down => { counter with down := wrappingAdd counter.down bytes }

structure TrafficScope where
  target : Option TrafficTarget
  generation : Nat

structure TrafficLedger where
  pending : List Nat
  currentGeneration : Nat
  currentId : Option Str
  currentName : Option Str
  currentSubId : Option Str
  currentSubName : Option Str
  session : OrdMap Str SessionEntry
  history : OrdMap Str NodeHistory
  subscriptions : OrdMap Str SubHistory
  /-- The ledger has a file. -/
  persistent : Bool
  generation : Nat
  persistedGeneration : Nat

/-! ## Recorders -/

/-- The arguments of `record_at`. -/
structure RecordCall where
  up : Nat
  down : Nat
  day : Nat

/-- The generations of the scope and of the ledger. -/
abbrev Versions := Nat × Nat

/-- The next thing a recorder does. -/
inductive RecorderPhase where
  | idle
  | loadingScope (call : RecordCall)
  | loadingCurrent (call : RecordCall) (scopeGeneration : Nat)
  | readingScope (call : RecordCall) (versions : Versions)
  | readingId (call : RecordCall) (versions : Versions)
  | readingName (call : RecordCall) (versions : Versions) (id : Str)
  | readingSubId (call : RecordCall) (versions : Versions) (id name : Str)
  | readingSubName (call : RecordCall) (versions : Versions) (id name : Str) (subId : Option Str)
  /-- Retires the old counter, and goes on with a new one unless the recorder is dropped. -/
  | retiring (old : Nat) (next : Option (RecordCall × Versions × TrafficTarget))
  | registering (call : RecordCall) (versions : Versions) (target : TrafficTarget)
  | addingUp (call : RecordCall)
  | addingDown (call : RecordCall)

structure TrafficRecorder where
  scope : Option Nat
  versions : Versions
  pending : Option Nat
  phase : RecorderPhase

namespace TrafficRecorder

/-- `TrafficLedger::recorder`. -/
def new (scope : Option Nat) : TrafficRecorder where
  scope := scope
  versions := (2 ^ 64 - 1, 2 ^ 64 - 1)
  pending := none
  phase := .idle

/-- The counter the recorder refers to. -/
def held (recorder : TrafficRecorder) : Option Nat :=
  match recorder.phase with
  | .retiring old _ => some old
  | _ => recorder.pending

/-- `record_at` knows the target. -/
def rebind (recorder : TrafficRecorder) (counters : Nat → PendingTraffic) (call : RecordCall)
    (versions : Versions) (target : TrafficTarget) : TrafficRecorder :=
  match recorder.pending with
  | none => { recorder with phase := .registering call versions target }
  | some old =>
    if (counters old).day ≠ call.day ∨ (counters old).target ≠ target then
      { recorder with pending := none, phase := .retiring old (some (call, versions, target)) }
    else { recorder with versions := versions, phase := .addingUp call }

/-- What `record_at` does before it touches a counter: loads of the generations, and one lock section
for each part of the target. -/
def observe (ledger : TrafficLedger) (scopes : Nat → TrafficScope) (counters : Nat → PendingTraffic)
    (recorder : TrafficRecorder) : Option TrafficRecorder :=
  match recorder.phase with
  | .loadingScope call =>
    let generation := recorder.scope.elim 0 fun scope => (scopes scope).generation
    some { recorder with phase := .loadingCurrent call generation }
  | .loadingCurrent call scopeGeneration =>
    let versions := (scopeGeneration, ledger.currentGeneration)
    if recorder.pending.all (fun counter => decide ((counters counter).day ≠ call.day)) ||
        decide (versions ≠ recorder.versions) then
      some { recorder with phase := .readingScope call versions }
    else some { recorder with phase := .addingUp call }
  | .readingScope call versions =>
    match recorder.scope.bind fun scope => (scopes scope).target with
    | some target => some (recorder.rebind counters call versions target)
    | none => some { recorder with phase := .readingId call versions }
  | .readingId call versions =>
    let id := ledger.currentId.getD DIRECT_TRAFFIC_ID
    some { recorder with phase := .readingName call versions id }
  | .readingName call versions id =>
    let name := ledger.currentName.getD "直连".toList
    some { recorder with phase := .readingSubId call versions id name }
  | .readingSubId call versions id name =>
    some { recorder with phase := .readingSubName call versions id name ledger.currentSubId }
  | .readingSubName call versions id name subId =>
    some <| recorder.rebind counters call versions
      { id := id
        name := name
        subscriptionId := subId
        subscriptionName := ledger.currentSubName }
  | _ => none

end TrafficRecorder

/-! ## Merging a counter -/

/-- The next thing `merge_counter` does. -/
inductive Merge where
  | swappingUp
  | swappingDown (up : Nat)
  | recordingSession (up down : Nat)
  | recordingHistory (up down : Nat)
  | recordingSubscription (up down : Nat)
  | counting
  | merged

/-- One operation of `merge_counter`. -/
def Merge.next (ledger : TrafficLedger) (counter : PendingTraffic) :
    Merge → TrafficLedger × PendingTraffic × Merge
  | .swappingUp => (ledger, { counter with up := 0 }, .swappingDown counter.up)
  | .swappingDown up =>
    let down := counter.down
    (ledger, { counter with down := 0 },
      if up = 0 ∧ down = 0 then .merged else .recordingSession up down)
  | .recordingSession up down =>
    ({ ledger with session := recordSession ledger.session counter.target up down }, counter,
      .recordingHistory up down)
  | .recordingHistory up down =>
    ({ ledger with
        history := recordHistory ledger.history counter.target (monthOf counter.day) up down },
      counter, .recordingSubscription up down)
  | .recordingSubscription up down =>
    ({ ledger with
        subscriptions := recordSubscription ledger.subscriptions counter.target
          (monthOf counter.day) up down }, counter, .counting)
  | .counting =>
    ({ ledger with generation := wrappingAdd ledger.generation 1 }, counter, .merged)
  | .merged => (ledger, counter, .merged)

/-! ## The system -/

/-- What a visitor of the ledger calls. The maintenance thread ticks. -/
inductive Visit where
  | snapshots
  | monthlySeries (id : Str)
  | flush
  | tick

/-- The next thing a visitor does. -/
inductive VisitPhase where
  | entering (visit : Visit)
  | draining (visit : Visit)
  | merged (visit : Visit)
  | snapshotting (session : OrdMap Str SessionEntry)
  | flushing (generation : Nat)

/-- What the registry is locked for. -/
inductive Purpose (ρ τ : Type*) where
  /-- `merge_pending`, with the counters it has kept and those still to come. -/
  | draining (visitor : τ) (kept rest : List Nat)
  | retiring (recorder : ρ)

/-- The section of the registry's lock. -/
structure Holder (ρ τ : Type*) where
  counter : Nat
  merge : Merge
  purpose : Purpose ρ τ

structure System (ρ τ : Type*) where
  ledger : TrafficLedger
  counters : Nat → PendingTraffic
  fresh : Nat
  scopes : Nat → TrafficScope
  recorders : ρ → Option TrafficRecorder
  visits : τ → Option VisitPhase
  holder : Option (Holder ρ τ)

/-- A part of the attribution. `set_current_node` and `set_current_subscription` change one part after
the other, and `note_traffic` the target of a scope and then its generation. -/
inductive Attribution where
  | id (value : Option Str)
  | name (value : Option Str)
  | subId (value : Option Str)
  | subName (value : Option Str)
  | generation
  | scopeTarget (scope : Nat) (target : TrafficTarget)
  | scopeGeneration (scope : Nat)

variable {ρ τ : Type*}

inductive Event (ρ τ : Type*) where
  | opened (recorder : ρ) (scope : Option Nat)
  | called (recorder : ρ) (call : RecordCall)
  | observed (recorder : ρ)
  | registered (recorder : ρ)
  /-- A `fetch_add`, for the day of the call and the target the recorder is bound to. -/
  | added (recorder : ρ) (direction : Direction) (target : TrafficTarget) (day bytes : Nat)
  | dropped (recorder : ρ)
  | locked
  | merging
  | unlocked
  | visited (visitor : τ) (visit : Visit)
  | cloned (visitor : τ)
  | snapshots (visitor : τ) (rows : List NodeTrafficSnapshot)
  | monthlySeries (visitor : τ) (rows : List (Str × TrafficCounters))
  | flushed (visitor : τ) (written : Bool)
  | ticked (visitor : τ) (flushes : Bool)
  | attributed (change : Attribution)

namespace System

/-- A ledger with what was loaded from its file. -/
def new (history : OrdMap Str NodeHistory) (subscriptions : OrdMap Str SubHistory)
    (persistent : Bool) : System ρ τ where
  ledger :=
    { pending := []
      currentGeneration := 0
      currentId := none
      currentName := none
      currentSubId := none
      currentSubName := none
      session := .empty
      history := history
      subscriptions := subscriptions
      persistent := persistent
      generation := if persistent then 1 else 0
      persistedGeneration := 0 }
  counters := fun _ => ⟨⟨0, 0⟩, ⟨[], [], none, none⟩, 0⟩
  fresh := 0
  scopes := fun _ => ⟨none, 0⟩
  recorders := fun _ => none
  visits := fun _ => none
  holder := none

variable [DecidableEq ρ] [DecidableEq τ]

def setRecorder (system : System ρ τ) (name : ρ) (recorder : Option TrafficRecorder) :
    System ρ τ :=
  { system with recorders := Function.update system.recorders name recorder }

def setVisit (system : System ρ τ) (visitor : τ) (phase : Option VisitPhase) : System ρ τ :=
  { system with visits := Function.update system.visits visitor phase }

def setCounter (system : System ρ τ) (counter : Nat) (pending : PendingTraffic) : System ρ τ :=
  { system with counters := Function.update system.counters counter pending }

def setPending (system : System ρ τ) (pending : List Nat) : System ρ τ :=
  { system with ledger := { system.ledger with pending := pending } }

/-- `Arc::strong_count` is more than one: besides the registry only recorders refer to counters. -/
def Referenced (system : System ρ τ) (counter : Nat) : Prop :=
  ∃ name recorder, system.recorders name = some recorder ∧ recorder.held = some counter

def reattribute (system : System ρ τ) : Attribution → System ρ τ
  | .id value => { system with ledger := { system.ledger with currentId := value } }
  | .name value => { system with ledger := { system.ledger with currentName := value } }
  | .subId value => { system with ledger := { system.ledger with currentSubId := value } }
  | .subName value => { system with ledger := { system.ledger with currentSubName := value } }
  | .generation =>
    { system with
      ledger :=
        { system.ledger with
          currentGeneration := wrappingAdd system.ledger.currentGeneration 1 } }
  | .scopeTarget scope target =>
    { system with
      scopes := Function.update system.scopes scope
        { system.scopes scope with target := some target } }
  | .scopeGeneration scope =>
    { system with
      scopes := Function.update system.scopes scope
        { system.scopes scope with generation := wrappingAdd (system.scopes scope).generation 1 } }

/-- One operation of the merge in progress. -/
def merge (system : System ρ τ) (holder : Holder ρ τ) : System ρ τ :=
  let next := holder.merge.next system.ledger (system.counters holder.counter)
  { system.setCounter holder.counter next.2.1 with
    ledger := next.1
    holder := some { holder with merge := next.2.2 } }

/-- The registry without the counter. -/
def unregister (system : System ρ τ) (counter : Nat) : System ρ τ :=
  match system.ledger.pending.idxOf? counter with
  | some index => system.setPending (swapRemove system.ledger.pending index)
  | none => system

/-- A new counter is registered and bound. -/
def register (system : System ρ τ) (name : ρ) (recorder : TrafficRecorder) (call : RecordCall)
    (versions : Versions) (target : TrafficTarget) : System ρ τ :=
  { ((system.setCounter system.fresh ⟨⟨0, 0⟩, target, call.day⟩).setPending
      (system.ledger.pending ++ [system.fresh])).setRecorder name
        (some { recorder with
          pending := some system.fresh
          versions := versions
          phase := .addingUp call }) with
    fresh := system.fresh + 1 }

end System

variable [DecidableEq ρ] [DecidableEq τ]

/-- What may happen at any time. -/
inductive Step : System ρ τ → Event ρ τ → System ρ τ → Prop where
  | openRecorder {system : System ρ τ} (name : ρ) (scope : Option Nat)
      (hnew : system.recorders name = none) :
      Step system (.opened name scope) (system.setRecorder name (some (.new scope)))
  /-- `record`, with the day of the clock. -/
  | call {system : System ρ τ} (name : ρ) {recorder : TrafficRecorder} (call : RecordCall)
      (hrecorder : system.recorders name = some recorder) (hidle : recorder.phase = .idle)
      (hbytes : call.up ≠ 0 ∨ call.down ≠ 0) :
      Step system (.called name call)
        (system.setRecorder name (some { recorder with phase := .loadingScope call }))
  | observe {system : System ρ τ} (name : ρ) {recorder next : TrafficRecorder}
      (hrecorder : system.recorders name = some recorder)
      (hnext : recorder.observe system.ledger system.scopes system.counters = some next) :
      Step system (.observed name) (system.setRecorder name (some next))
  | register {system : System ρ τ} (name : ρ) {recorder : TrafficRecorder} {call : RecordCall}
      {versions : Versions} {target : TrafficTarget}
      (hrecorder : system.recorders name = some recorder)
      (hphase : recorder.phase = .registering call versions target)
      (hfree : system.holder = none) :
      Step system (.registered name) (system.register name recorder call versions target)
  | addUp {system : System ρ τ} (name : ρ) {recorder : TrafficRecorder} {call : RecordCall}
      {counter : Nat} (hrecorder : system.recorders name = some recorder)
      (hphase : recorder.phase = .addingUp call) (hpending : recorder.pending = some counter) :
      Step system (.added name .up (system.counters counter).target call.day call.up)
        ((system.setCounter counter
            ((system.counters counter).fetchAdd call.up .up)).setRecorder name
          (some { recorder with phase := .addingDown call }))
  | addDown {system : System ρ τ} (name : ρ) {recorder : TrafficRecorder} {call : RecordCall}
      {counter : Nat} (hrecorder : system.recorders name = some recorder)
      (hphase : recorder.phase = .addingDown call) (hpending : recorder.pending = some counter) :
      Step system (.added name .down (system.counters counter).target call.day call.down)
        ((system.setCounter counter
            ((system.counters counter).fetchAdd call.down .down)).setRecorder name
          (some { recorder with phase := .idle }))
  | drop {system : System ρ τ} (name : ρ) {recorder : TrafficRecorder}
      (hrecorder : system.recorders name = some recorder) (hidle : recorder.phase = .idle) :
      Step system (.dropped name)
        (system.setRecorder name (recorder.pending.map fun old =>
          { recorder with pending := none, phase := .retiring old none }))
  | lockRetire {system : System ρ τ} (name : ρ) {recorder : TrafficRecorder} {old : Nat}
      {next : Option (RecordCall × Versions × TrafficTarget)}
      (hrecorder : system.recorders name = some recorder)
      (hphase : recorder.phase = .retiring old next) (hfree : system.holder = none) :
      Step system .locked { system with holder := some ⟨old, .swappingUp, .retiring name⟩ }
  | lockDrain {system : System ρ τ} (visitor : τ) {visit : Visit} {first : Nat} {rest : List Nat}
      (hvisit : system.visits visitor = some (.entering visit)) (hfree : system.holder = none)
      (hpending : system.ledger.pending = first :: rest) :
      Step system .locked
        { system.setVisit visitor (some (.draining visit)) with
          holder := some ⟨first, .swappingUp, .draining visitor [] rest⟩ }
  /-- `merge_pending` of an empty registry. -/
  | drainNothing {system : System ρ τ} (visitor : τ) {visit : Visit}
      (hvisit : system.visits visitor = some (.entering visit)) (hfree : system.holder = none)
      (hpending : system.ledger.pending = []) :
      Step system .unlocked (system.setVisit visitor (some (.merged visit)))
  | merge {system : System ρ τ} {holder : Holder ρ τ} (hholder : system.holder = some holder) :
      Step system .merging (system.merge holder)
  | retired {system : System ρ τ} {name : ρ} {recorder : TrafficRecorder} {old : Nat}
      {next : Option (RecordCall × Versions × TrafficTarget)}
      (hholder : system.holder = some ⟨old, .merged, .retiring name⟩)
      (hrecorder : system.recorders name = some recorder)
      (hphase : recorder.phase = .retiring old next) :
      Step system .unlocked
        { (system.unregister old).setRecorder name (next.map fun (call, versions, target) =>
            { recorder with phase := .registering call versions target }) with
          holder := none }
  /-- `retain` keeps the counter, or not, and goes on. -/
  | drainNext {system : System ρ τ} {visitor : τ} {counter next : Nat} {kept kept' rest : List Nat}
      (hholder : system.holder = some ⟨counter, .merged, .draining visitor kept (next :: rest)⟩)
      (hkept : (system.Referenced counter ∧ kept' = kept ++ [counter]) ∨
        (¬ system.Referenced counter ∧ kept' = kept)) :
      Step system .merging
        { system with holder := some ⟨next, .swappingUp, .draining visitor kept' rest⟩ }
  | drained {system : System ρ τ} {visitor : τ} {visit : Visit} {counter : Nat}
      {kept kept' : List Nat}
      (hholder : system.holder = some ⟨counter, .merged, .draining visitor kept []⟩)
      (hkept : (system.Referenced counter ∧ kept' = kept ++ [counter]) ∨
        (¬ system.Referenced counter ∧ kept' = kept))
      (hvisit : system.visits visitor = some (.draining visit)) :
      Step system .unlocked
        { (system.setPending kept').setVisit visitor (some (.merged visit)) with holder := none }
  | visit {system : System ρ τ} (visitor : τ) (visit : Visit)
      (hidle : system.visits visitor = none) :
      Step system (.visited visitor visit) (system.setVisit visitor (some (.entering visit)))
  | cloneSession {system : System ρ τ} (visitor : τ)
      (hvisit : system.visits visitor = some (.merged .snapshots)) :
      Step system (.cloned visitor)
        (system.setVisit visitor (some (.snapshotting system.ledger.session)))
  | snapshots {system : System ρ τ} (visitor : τ) {session : OrdMap Str SessionEntry}
      (hvisit : system.visits visitor = some (.snapshotting session)) :
      Step system (.snapshots visitor (snapshotRows session system.ledger.history))
        (system.setVisit visitor none)
  | monthlySeries {system : System ρ τ} (visitor : τ) {id : Str}
      (hvisit : system.visits visitor = some (.merged (.monthlySeries id))) :
      Step system (.monthlySeries visitor (monthlyRows system.ledger.history id))
        (system.setVisit visitor none)
  | flushNothing {system : System ρ τ} (visitor : τ)
      (hvisit : system.visits visitor = some (.merged .flush))
      (hmemory : system.ledger.persistent = false) :
      Step system (.flushed visitor false) (system.setVisit visitor none)
  | flushLoad {system : System ρ τ} (visitor : τ)
      (hvisit : system.visits visitor = some (.merged .flush))
      (hfile : system.ledger.persistent = true) :
      Step system (.cloned visitor)
        (system.setVisit visitor (some (.flushing system.ledger.generation)))
  /-- Clones of the maps are pruned and written, which may fail. -/
  | flush {system : System ρ τ} (visitor : τ) {generation : Nat} (written : Bool)
      (hvisit : system.visits visitor = some (.flushing generation)) :
      Step system (.flushed visitor written)
        { system.setVisit visitor none with
          ledger :=
            { system.ledger with
              persistedGeneration :=
                if written then generation else system.ledger.persistedGeneration } }
  /-- The maintenance thread flushes once in a while, if there is something new. -/
  | tick {system : System ρ τ} (visitor : τ) (flushes : Bool)
      (hvisit : system.visits visitor = some (.merged .tick))
      (hnew : flushes = true → system.ledger.generation ≠ system.ledger.persistedGeneration) :
      Step system (.ticked visitor flushes)
        (system.setVisit visitor (if flushes then some (.entering .flush) else none))
  | reattribute {system : System ρ τ} (change : Attribution) :
      Step system (.attributed change) (system.reattribute change)

end Sockrocket.Traffic
