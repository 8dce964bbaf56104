import Sockrocket.Lib.Heap
import Sockrocket.Lib.Run

/-!
# The published runtime state

`SwappableOutbound` publishes the outbound of new connections together with the DNS config and a
resolver for the two. Building a resolver takes long, so the writers build it outside the lock: they
clone what they need in a read section, build, and commit in a write section that looks whether what
they cloned is still there. They compare addresses, each of them other ones.

A call is a sequence of lock sections; between them it holds references to what it has cloned. Calls
of any number of threads interleave. `runtime_coherent` is the contract: each call takes effect as a
whole in the section in which it returns, and the resolver is at all times the one for the outbound
and the DNS config beside it.
-/

namespace Sockrocket.Connector

open Transition List

variable {Out Config Thread : Type*}

/-! ## The model -/

/-- An `Arc<dyn Outbound>`. -/
abbrev SharedOutbound (Out : Type*) := Arc Out

/-- What of a resolver depends on how it was built. -/
structure DnsResolver (Out Config : Type*) where
  config : Config
  outbound : Option (SharedOutbound Out)
  followsRuntime : Bool
deriving DecidableEq

namespace DnsResolver

def withConfig (config : Config) : DnsResolver Out Config where
  config := config
  outbound := none
  followsRuntime := false

def followRuntime (resolver : DnsResolver Out Config) (outbound : SharedOutbound Out) :
    DnsResolver Out Config :=
  { resolver with outbound := some outbound, followsRuntime := true }

end DnsResolver

def sameDns : Option (Arc Config) → Option (Arc Config) → Bool
  | some a, some b => a.ptrEq b
  | none, none => true
  | _, _ => false

structure PublishedOutbound (Out Config : Type*) where
  outbound : SharedOutbound Out
  dns : Option (Arc Config)
  resolver : Option (DnsResolver Out Config)
deriving DecidableEq

structure PolicyOutbound (Out Config : Type*) where
  inner : SharedOutbound Out
  resolver : Option (DnsResolver Out Config)
deriving DecidableEq

inductive Call (Out Config : Type*) where
  | set (outbound : SharedOutbound Out)
  | setIfCurrent (expected outbound : SharedOutbound Out)
  | updateDns (edit : Config → Config)
  | publish (outbound : SharedOutbound Out) (dns : Arc Config)
  | current
  | dnsSnapshot
  | runtimeSnapshot

inductive Reply (Out Config : Type*) where
  | done
  | committed (changed : Bool)
  | outbound (outbound : SharedOutbound Out)
  | dns (outbound : SharedOutbound Out) (dns : Option (Arc Config))
  | runtime (policy : PolicyOutbound Out Config)
deriving DecidableEq

/-- Where a call is, with what it holds. -/
inductive Phase (Out Config : Type*) where
  /-- Before the first section, or before another round. -/
  | entering (call : Call Out Config)
  | setBuilt (outbound : SharedOutbound Out) (dns : Option (Arc Config))
  | setIfCurrentBuilt (expected outbound : SharedOutbound Out) (dns : Option (Arc Config))
  /-- `update_dns` is about to allocate the edited config. -/
  | editing (edit : Config → Config) (outbound : SharedOutbound Out) (current : Arc Config)
  | updateDnsBuilt (edit : Config → Config) (outbound : SharedOutbound Out)
      (current next : Arc Config)

inductive Outcome (Out Config : Type*) where
  | goesOn (phase : Phase Out Config)
  | returns (reply : Reply Out Config)

/-- The resolver the writers build. -/
def buildResolver (config : Config) (outbound : SharedOutbound Out) : DnsResolver Out Config :=
  (DnsResolver.withConfig config).followRuntime outbound

/-- The sections before which nothing has been cloned. -/
def enter (state : PublishedOutbound Out Config) :
    Call Out Config → PublishedOutbound Out Config × Outcome Out Config
  | .set outbound => (state, .goesOn (.setBuilt outbound state.dns))
  | .setIfCurrent expected outbound =>
    if !state.outbound.ptrEq expected then (state, .returns (.committed false))
    else (state, .goesOn (.setIfCurrentBuilt expected outbound state.dns))
  | .updateDns edit =>
    match state.dns with
    | none => (state, .returns (.committed false))
    | some current => (state, .goesOn (.editing edit state.outbound current))
  | .publish outbound dns =>
    ({ outbound := outbound
       dns := some dns
       resolver := some (buildResolver dns.value outbound) }, .returns .done)
  | .current => (state, .returns (.outbound state.outbound))
  | .dnsSnapshot => (state, .returns (.dns state.outbound state.dns))
  | .runtimeSnapshot =>
    (state, .returns (.runtime { inner := state.outbound, resolver := state.resolver }))

/-- What a call does with the state while it holds the lock. While it allocates it does not. -/
def lockSection (state : PublishedOutbound Out Config) :
    Phase Out Config → Option (PublishedOutbound Out Config × Outcome Out Config)
  | .entering call => some (enter state call)
  | .setBuilt outbound dns =>
    let resolver := dns.map fun config => buildResolver config.value outbound
    if !sameDns state.dns dns then some (state, .goesOn (.entering (.set outbound)))
    else some ({ state with resolver := resolver, outbound := outbound }, .returns .done)
  | .setIfCurrentBuilt expected outbound dns =>
    let resolver := dns.map fun config => buildResolver config.value outbound
    if !state.outbound.ptrEq expected then some (state, .returns (.committed false))
    else if !sameDns state.dns dns then
      some (state, .goesOn (.entering (.setIfCurrent expected outbound)))
    else
      some ({ state with outbound := outbound, resolver := resolver },
        .returns (.committed true))
  | .editing _ _ _ => none
  | .updateDnsBuilt edit outbound current next =>
    let resolver := buildResolver next.value outbound
    if !sameDns state.dns (some current) || !state.outbound.ptrEq outbound then
      some (state, .goesOn (.entering (.updateDns edit)))
    else
      some ({ state with dns := some next, resolver := some resolver },
        .returns (.committed true))

/-! ## Interleavings -/

/-- Everything a reference may be held to, and by whom. -/
structure System (Out Config Thread : Type*) where
  published : PublishedOutbound Out Config
  calls : Thread → Option (Phase Out Config)
  outbounds : Heap Out
  configs : Heap Config

inductive Event (Out Config Thread : Type*) where
  | invoked (thread : Thread) (call : Call Out Config)
  /-- A section after which the call goes on. -/
  | continued (thread : Thread)
  | allocated (thread : Thread)
  | returned (thread : Thread) (call : Call Out Config) (reply : Reply Out Config)
  | outboundPlaced (outbound : SharedOutbound Out)
  | outboundReleased (address : Nat)
  | configPlaced (config : Arc Config)
  | configReleased (address : Nat)

namespace Call

def outbounds : Call Out Config → List (SharedOutbound Out)
  | .set outbound => [outbound]
  | .setIfCurrent expected outbound => [expected, outbound]
  | .publish outbound _ => [outbound]
  | _ => []

def configs : Call Out Config → List (Arc Config)
  | .publish _ dns => [dns]
  | _ => []

end Call

namespace Phase

/-- The call whose phase it is. -/
def call : Phase Out Config → Call Out Config
  | .entering call => call
  | .setBuilt outbound _ => .set outbound
  | .setIfCurrentBuilt expected outbound _ => .setIfCurrent expected outbound
  | .editing edit _ _ => .updateDns edit
  | .updateDnsBuilt edit _ _ _ => .updateDns edit

def outbounds : Phase Out Config → List (SharedOutbound Out)
  | .entering call => call.outbounds
  | .setBuilt outbound _ => [outbound]
  | .setIfCurrentBuilt expected outbound _ => [expected, outbound]
  | .editing _ outbound _ => [outbound]
  | .updateDnsBuilt _ outbound _ _ => [outbound]

def configs : Phase Out Config → List (Arc Config)
  | .entering call => call.configs
  | .setBuilt _ dns => dns.toList
  | .setIfCurrentBuilt _ _ dns => dns.toList
  | .editing _ _ current => [current]
  | .updateDnsBuilt _ _ current next => [current, next]

end Phase

namespace PublishedOutbound

/-- The outbounds the state refers to: its own, and the one its resolver follows. -/
def outbounds (state : PublishedOutbound Out Config) : List (SharedOutbound Out) :=
  state.outbound :: (state.resolver.bind DnsResolver.outbound).toList

def configs (state : PublishedOutbound Out Config) : List (Arc Config) :=
  state.dns.toList

/-- The state with exactly the resolver that belongs to it. -/
def paired (outbound : SharedOutbound Out) (dns : Option (Arc Config)) :
    PublishedOutbound Out Config where
  outbound := outbound
  dns := dns
  resolver := dns.map fun config => buildResolver config.value outbound

end PublishedOutbound

namespace System

/-- `SwappableOutbound::new`, with nothing else allocated. -/
def new (outbound : SharedOutbound Out) : System Out Config Thread where
  published :=
    { outbound := outbound
      dns := none
      resolver := none }
  calls := fun _ => none
  outbounds := Heap.place (fun _ => none) outbound
  configs := fun _ => none

variable [DecidableEq Thread]

def move (system : System Out Config Thread) (thread : Thread) (phase : Option (Phase Out Config)) :
    System Out Config Thread :=
  { system with calls := Function.update system.calls thread phase }

theorem move_calls (system : System Out Config Thread) (caller thread : Thread)
    (phase : Option (Phase Out Config)) :
    (system.move caller phase).calls thread =
      if thread = caller then phase else system.calls thread :=
  Function.update_apply ..

/-- The outbound is referred to by the state or by a call. -/
def RefersOutbound (system : System Out Config Thread) (outbound : SharedOutbound Out) : Prop :=
  outbound ∈ system.published.outbounds ∨
    ∃ thread phase, system.calls thread = some phase ∧ outbound ∈ phase.outbounds

def RefersConfig (system : System Out Config Thread) (config : Arc Config) : Prop :=
  config ∈ system.published.configs ∨
    ∃ thread phase, system.calls thread = some phase ∧ config ∈ phase.configs

end System

/-- What may happen at any time. Callers hold what they pass; an allocation is released at some time
after the last reference to it is gone. -/
inductive Step [DecidableEq Thread] :
    System Out Config Thread → Event Out Config Thread → System Out Config Thread → Prop where
  | invoke {system : System Out Config Thread} (thread : Thread) (call : Call Out Config)
      (hidle : system.calls thread = none)
      (houtbounds : ∀ outbound ∈ call.outbounds, system.outbounds.Holds outbound)
      (hconfigs : ∀ config ∈ call.configs, system.configs.Holds config) :
      Step system (.invoked thread call) (system.move thread (some (.entering call)))
  | goOn {system : System Out Config Thread} (thread : Thread) {phase next : Phase Out Config}
      {published : PublishedOutbound Out Config} (hcall : system.calls thread = some phase)
      (hsection : lockSection system.published phase = some (published, .goesOn next)) :
      Step system (.continued thread)
        { system.move thread (some next) with published := published }
  | allocate {system : System Out Config Thread} (thread : Thread) (address : Nat)
      {edit : Config → Config} {outbound : SharedOutbound Out} {current : Arc Config}
      (hcall : system.calls thread = some (.editing edit outbound current))
      (hfree : system.configs address = none) :
      Step system (.allocated thread)
        { system.move thread
            (some (.updateDnsBuilt edit outbound current ⟨address, edit current.value⟩)) with
          configs := system.configs.place ⟨address, edit current.value⟩ }
  | leave {system : System Out Config Thread} (thread : Thread) {phase : Phase Out Config}
      {published : PublishedOutbound Out Config} {reply : Reply Out Config}
      (hcall : system.calls thread = some phase)
      (hsection : lockSection system.published phase = some (published, .returns reply)) :
      Step system (.returned thread phase.call reply)
        { system.move thread none with published := published }
  | placeOutbound {system : System Out Config Thread} (outbound : SharedOutbound Out)
      (hfree : system.outbounds outbound.address = none) :
      Step system (.outboundPlaced outbound)
        { system with outbounds := system.outbounds.place outbound }
  | releaseOutbound {system : System Out Config Thread} (address : Nat)
      (hunused : ∀ outbound, system.RefersOutbound outbound → outbound.address ≠ address) :
      Step system (.outboundReleased address)
        { system with outbounds := system.outbounds.release address }
  | placeConfig {system : System Out Config Thread} (config : Arc Config)
      (hfree : system.configs config.address = none) :
      Step system (.configPlaced config)
        { system with configs := system.configs.place config }
  | releaseConfig {system : System Out Config Thread} (address : Nat)
      (hunused : ∀ config, system.RefersConfig config → config.address ≠ address) :
      Step system (.configReleased address)
        { system with configs := system.configs.release address }

/-! ## What a call is for -/

/-- The effect of a whole call, as if nothing else happened at the time. -/
def Call.Performs (before : PublishedOutbound Out Config) (call : Call Out Config)
    (reply : Reply Out Config) (after : PublishedOutbound Out Config) : Prop :=
  match call with
  | .set outbound => reply = .done ∧ after = .paired outbound before.dns
  | .setIfCurrent expected outbound =>
    (before.outbound = expected ∧ reply = .committed true ∧
        after = .paired outbound before.dns) ∨
      (before.outbound ≠ expected ∧ reply = .committed false ∧ after = before)
  | .updateDns edit =>
    (∃ current next, before.dns = some current ∧ next.value = edit current.value ∧
        reply = .committed true ∧ after = .paired before.outbound (some next)) ∨
      (before.dns = none ∧ reply = .committed false ∧ after = before)
  | .publish outbound dns => reply = .done ∧ after = .paired outbound (some dns)
  | .current => reply = .outbound before.outbound ∧ after = before
  | .dnsSnapshot => reply = .dns before.outbound before.dns ∧ after = before
  | .runtimeSnapshot =>
    reply = .runtime
      { inner := before.outbound
        resolver := before.dns.map fun config => buildResolver config.value before.outbound } ∧
    after = before

/-- The calls that have returned, with their replies. -/
def Event.completed : Event Out Config Thread → Option (Call Out Config × Reply Out Config)
  | .returned _ call reply => some (call, reply)
  | _ => none

/-- One thread's call in progress, as the events tell. -/
def Event.track [DecidableEq Thread] (thread : Thread) (pending : Option (Call Out Config)) :
    Event Out Config Thread → Option (Call Out Config)
  | .invoked caller call => if caller = thread then some call else pending
  | .returned caller _ _ => if caller = thread then none else pending
  | _ => pending

/-! ## Sections -/

section Sections

variable {state published : PublishedOutbound Out Config} {phase next : Phase Out Config}
  {reply : Reply Out Config} {outbounds : Heap Out} {configs : Heap Config}

/-- DNS configs that are held are compared as a whole. -/
theorem sameDns_iff {a b : Option (Arc Config)} (ha : ∀ config ∈ a, configs.Holds config)
    (hb : ∀ config ∈ b, configs.Holds config) : sameDns a b ↔ a = b := by
  cases a with
  | none => cases b <;> simp [sameDns]
  | some a =>
    cases b with
    | none => simp [sameDns]
    | some b =>
      rw [sameDns, (ha a rfl).eq_iff (hb b rfl), Option.some.injEq]

/-- What a call holds after a section in which it does not return. -/
structure Continues (state : PublishedOutbound Out Config) (phase next : Phase Out Config) :
    Prop where
  call : next.call = phase.call
  outbounds : ∀ outbound ∈ next.outbounds, outbound ∈ phase.outbounds ∨ outbound = state.outbound
  configs : ∀ config ∈ next.configs, config ∈ phase.configs ∨ config ∈ state.dns
  unedited : ∀ edit outbound current built, next ≠ .updateDnsBuilt edit outbound current built

/-- A call that does not return has not changed anything. -/
theorem lockSection_goesOn (h : lockSection state phase = some (published, .goesOn next)) :
    published = state ∧ Continues state phase next := by
  cases phase with
  | entering call =>
    obtain h : enter state call = (published, .goesOn next) := Option.some.inj h
    cases call with
    | set outbound =>
      cases h
      exact ⟨rfl, rfl, by simp [Phase.outbounds, Call.outbounds],
        by simp [Phase.configs, Call.configs], by simp⟩
    | setIfCurrent expected outbound =>
      simp only [enter] at h
      split at h
      · cases h
      · cases h
        exact ⟨rfl, rfl, by simp [Phase.outbounds, Call.outbounds],
          by simp [Phase.configs, Call.configs], by simp⟩
    | updateDns edit =>
      cases hdns : state.dns with
      | none => simp [enter, hdns] at h
      | some current =>
        simp only [enter, hdns] at h
        cases h
        exact ⟨rfl, rfl, by simp [Phase.outbounds, Call.outbounds],
          by simp [Phase.configs, Call.configs, hdns], by simp⟩
    | publish outbound dns | current | dnsSnapshot | runtimeSnapshot => cases h
  | setBuilt outbound dns =>
    simp only [lockSection] at h
    split at h
    · cases h
      exact ⟨rfl, rfl, by simp [Phase.outbounds, Call.outbounds],
        by simp [Phase.configs, Call.configs], by simp⟩
    · cases h
  | setIfCurrentBuilt expected outbound dns =>
    simp only [lockSection] at h
    split at h
    · cases h
    split at h
    · cases h
      exact ⟨rfl, rfl, by simp [Phase.outbounds, Call.outbounds],
        by simp [Phase.configs, Call.configs], by simp⟩
    · cases h
  | editing edit outbound current => cases h
  | updateDnsBuilt edit outbound current built =>
    simp only [lockSection] at h
    split at h
    · cases h
      exact ⟨rfl, rfl, by simp [Phase.outbounds, Call.outbounds],
        by simp [Phase.configs, Call.configs], by simp⟩
    · cases h

/-- What a returning call leaves behind. -/
structure Commits (state : PublishedOutbound Out Config) (phase : Phase Out Config)
    (published : PublishedOutbound Out Config) : Prop where
  paired : published = .paired published.outbound published.dns
  outbound : published.outbound ∈ phase.outbounds ∨ published.outbound = state.outbound
  dns : ∀ config ∈ published.dns, config ∈ phase.configs ∨ config ∈ state.dns

theorem Commits.unchanged (hpaired : state = .paired state.outbound state.dns) :
    Commits state phase state :=
  ⟨hpaired, .inr rfl, fun _ => .inr⟩

/-- A first section that returns is the whole call. -/
theorem enter_returns {call : Call Out Config} (h : enter state call = (published, .returns reply))
    (hpaired : state = .paired state.outbound state.dns)
    (houtbound : outbounds.Holds state.outbound)
    (houtbounds : ∀ outbound ∈ call.outbounds, outbounds.Holds outbound) :
    call.Performs state reply published ∧ Commits state (.entering call) published := by
  cases call with
  | set outbound => cases h
  | setIfCurrent expected outbound =>
    simp only [enter] at h
    split at h
    next hother =>
      cases h
      have hexpected := houtbounds expected (by simp [Call.outbounds])
      have hne : state.outbound ≠ expected := by
        intro hsame
        rw [(houtbound.eq_iff hexpected).mpr hsame] at hother
        cases hother
      exact ⟨.inr ⟨hne, rfl, rfl⟩, .unchanged hpaired⟩
    next => cases h
  | updateDns edit =>
    cases hdns : state.dns with
    | none =>
      simp only [enter, hdns] at h
      cases h
      exact ⟨.inr ⟨hdns, rfl, rfl⟩, .unchanged hpaired⟩
    | some current => simp [enter, hdns] at h
  | publish outbound dns =>
    cases h
    refine ⟨⟨rfl, rfl⟩, rfl, .inl ?_, ?_⟩
    · exact mem_singleton_self outbound
    · intro config hconfig
      exact .inl (by simpa [Phase.configs, Call.configs] using hconfig.symm)
  | current | dnsSnapshot =>
    cases h
    exact ⟨⟨rfl, rfl⟩, .unchanged hpaired⟩
  | runtimeSnapshot =>
    cases h
    refine ⟨⟨?_, rfl⟩, .unchanged hpaired⟩
    rw [congrArg PublishedOutbound.resolver hpaired]
    rfl

/-- What is known of a call: what it refers to is allocated, and a config it has built is the edit
of the one it has cloned. -/
structure Held (outbounds : Heap Out) (configs : Heap Config) (phase : Phase Out Config) :
    Prop where
  outbounds : ∀ outbound ∈ phase.outbounds, outbounds.Holds outbound
  configs : ∀ config ∈ phase.configs, configs.Holds config
  edited : ∀ edit outbound current built, phase = .updateDnsBuilt edit outbound current built →
    built.value = edit current.value

/-- A call takes effect as a whole in the section in which it returns: what it has cloned is what
is there, since both are held. -/
theorem lockSection_returns (h : lockSection state phase = some (published, .returns reply))
    (hpaired : state = .paired state.outbound state.dns)
    (houtbound : outbounds.Holds state.outbound)
    (hdns : ∀ config ∈ state.dns, configs.Holds config) (hheld : Held outbounds configs phase) :
    phase.call.Performs state reply published ∧ Commits state phase published := by
  obtain ⟨houtbounds, hconfigs, hedited⟩ := hheld
  cases phase with
  | entering call =>
    exact enter_returns (Option.some.inj h) hpaired houtbound houtbounds
  | setBuilt outbound dns =>
    simp only [lockSection] at h
    split at h
    · cases h
    next hsame =>
    cases h
    have hcloned : ∀ config ∈ dns, configs.Holds config := fun config hconfig =>
      hconfigs config (Option.mem_toList.mpr hconfig)
    obtain rfl : state.dns = dns :=
      (sameDns_iff hdns hcloned).mp (by simpa using hsame)
    exact ⟨⟨rfl, rfl⟩, rfl, .inl (mem_singleton_self outbound), fun _ => .inr⟩
  | setIfCurrentBuilt expected outbound dns =>
    have hcloned : ∀ config ∈ dns, configs.Holds config := fun config hconfig =>
      hconfigs config (Option.mem_toList.mpr hconfig)
    have hexpected := houtbounds expected (by simp [Phase.outbounds])
    simp only [lockSection] at h
    split at h
    next hother =>
      cases h
      have hne : state.outbound ≠ expected := by
        intro hsame
        rw [(houtbound.eq_iff hexpected).mpr hsame] at hother
        cases hother
      exact ⟨.inr ⟨hne, rfl, rfl⟩, .unchanged hpaired⟩
    next hcurrent =>
      split at h
      · cases h
      next hsame =>
      cases h
      have hreplaced : state.outbound = expected :=
        (houtbound.eq_iff hexpected).mp (by simpa using hcurrent)
      obtain rfl : state.dns = dns :=
        (sameDns_iff hdns hcloned).mp (by simpa using hsame)
      refine ⟨.inl ⟨hreplaced, rfl, rfl⟩, rfl, .inl ?_, fun _ => .inr⟩
      simp [Phase.outbounds]
  | editing edit outbound current => cases h
  | updateDnsBuilt edit outbound current built =>
    have hcloned : ∀ config ∈ some current, configs.Holds config := by
      rintro config ⟨⟩
      exact hconfigs _ (by simp [Phase.configs])
    simp only [lockSection] at h
    split at h
    · cases h
    next hsame =>
    cases h
    simp only [Bool.or_eq_true, Bool.not_eq_true', not_or, Bool.not_eq_false] at hsame
    have hcurrent : state.dns = some current := (sameDns_iff hdns hcloned).mp hsame.1
    obtain rfl : state.outbound = outbound :=
      (houtbound.eq_iff (houtbounds _ (by simp [Phase.outbounds]))).mp hsame.2
    refine ⟨.inl ⟨current, built, hcurrent, hedited _ _ _ _ rfl, rfl, rfl⟩, rfl, .inr rfl, ?_⟩
    rintro config ⟨⟩
    exact .inl (by simp [Phase.configs])

end Sections

/-! ## Every interleaving -/

/-- What holds at every time. -/
structure Sound (system : System Out Config Thread) : Prop where
  paired : system.published = .paired system.published.outbound system.published.dns
  outbound : system.outbounds.Holds system.published.outbound
  dns : ∀ config ∈ system.published.dns, system.configs.Holds config
  calls : ∀ thread phase, system.calls thread = some phase →
    Held system.outbounds system.configs phase

theorem sound_new (outbound : SharedOutbound Out) :
    Sound (System.new outbound : System Out Config Thread) where
  paired := rfl
  outbound := Heap.holds_place _ outbound
  dns := by simp [System.new]
  calls := by simp [System.new]

section Steps

variable {system after : System Out Config Thread} {thread : Thread} {phase : Phase Out Config}

/-- The section of a call that returns. -/
theorem Sound.returns (hsound : Sound system) (hcall : system.calls thread = some phase)
    {published : PublishedOutbound Out Config} {reply : Reply Out Config}
    (hsection : lockSection system.published phase = some (published, .returns reply)) :
    phase.call.Performs system.published reply published ∧
      Commits system.published phase published :=
  lockSection_returns hsection hsound.paired hsound.outbound hsound.dns
    (hsound.calls thread phase hcall)

/-- After a section of a call, what it refers to is still allocated. -/
theorem Sound.continues (hsound : Sound system) (hcall : system.calls thread = some phase)
    {next : Phase Out Config} (hnext : Continues system.published phase next) :
    Held system.outbounds system.configs next where
  outbounds outbound hmem := by
    rcases hnext.outbounds outbound hmem with hold | rfl
    · exact (hsound.calls thread phase hcall).outbounds outbound hold
    · exact hsound.outbound
  configs config hmem := by
    rcases hnext.configs config hmem with hold | hold
    · exact (hsound.calls thread phase hcall).configs config hold
    · exact hsound.dns config hold
  edited edit outbound current built hbuilt :=
    absurd hbuilt (hnext.unedited edit outbound current built)

/-- Allocations that keep what the state and the calls refer to. -/
theorem Sound.heaps (hsound : Sound system) {outbounds : Heap Out} {configs : Heap Config}
    (houtbounds : ∀ outbound, system.RefersOutbound outbound →
      system.outbounds.Holds outbound → outbounds.Holds outbound)
    (hconfigs : ∀ config, system.RefersConfig config →
      system.configs.Holds config → configs.Holds config) :
    Sound { system with outbounds := outbounds, configs := configs } where
  paired := hsound.paired
  outbound := houtbounds _ (.inl mem_cons_self) hsound.outbound
  dns config hmem := hconfigs config (.inl (Option.mem_toList.mpr hmem)) (hsound.dns config hmem)
  calls thread phase hcall :=
    { outbounds := fun outbound hmem =>
        houtbounds outbound (.inr ⟨thread, phase, hcall, hmem⟩)
          ((hsound.calls thread phase hcall).outbounds outbound hmem)
      configs := fun config hmem =>
        hconfigs config (.inr ⟨thread, phase, hcall, hmem⟩)
          ((hsound.calls thread phase hcall).configs config hmem)
      edited := (hsound.calls thread phase hcall).edited }

variable [DecidableEq Thread]

/-- One call moves. -/
theorem Sound.move (hsound : Sound system) {moved : Option (Phase Out Config)}
    (hmoved : ∀ phase ∈ moved, Held system.outbounds system.configs phase) :
    Sound (system.move thread moved) := by
  refine { hsound with calls := ?_ }
  intro other phase h
  rw [System.move_calls] at h
  split at h
  · exact hmoved phase h
  · exact hsound.calls other phase h

variable {event : Event Out Config Thread}

theorem Sound.step (hsound : Sound system) (hstep : Step system event after) : Sound after := by
  cases hstep with
  | invoke thread call hidle houtbounds hconfigs =>
    refine hsound.move ?_
    rintro phase ⟨⟩
    exact ⟨houtbounds, hconfigs, by simp⟩
  | goOn thread hcall hsection =>
    obtain ⟨rfl, hnext⟩ := lockSection_goesOn hsection
    refine hsound.move ?_
    rintro phase ⟨⟩
    exact hsound.continues hcall hnext
  | @allocate thread address edit outbound current hcall hfree =>
    have hbigger : Sound
        { system with configs := system.configs.place ⟨address, edit current.value⟩ } :=
      hsound.heaps (fun _ _ h => h) (fun config _ h => h.place hfree)
    refine Sound.move hbigger ?_
    rintro phase ⟨⟩
    have hheld := hbigger.calls thread _ hcall
    refine ⟨hheld.outbounds, ?_, ?_⟩
    · intro config hmem
      rcases mem_pair.mp hmem with rfl | rfl
      · exact hheld.configs _ (mem_singleton_self _)
      · exact Heap.holds_place _ _
    · rintro _ _ _ _ ⟨⟩
      rfl
  | @leave thread phase published reply hcall hsection =>
    obtain ⟨-, hcommits⟩ := hsound.returns hcall hsection
    have hheld := hsound.calls thread phase hcall
    have hidle : Sound (system.move thread none) := hsound.move (by simp)
    refine { hidle with paired := hcommits.paired, outbound := ?_, dns := ?_ }
    · rcases hcommits.outbound with hown | hsame
      · exact hheld.outbounds _ hown
      · exact hsame ▸ hsound.outbound
    · intro config hmem
      rcases hcommits.dns config hmem with hown | hold
      · exact hheld.configs config hown
      · exact hsound.dns config hold
  | placeOutbound outbound hfree => exact hsound.heaps (fun _ _ h => h.place hfree) (fun _ _ h => h)
  | releaseOutbound address hunused =>
    exact hsound.heaps (fun outbound href h => h.release (hunused outbound href)) (fun _ _ h => h)
  | placeConfig config hfree => exact hsound.heaps (fun _ _ h => h) (fun _ _ h => h.place hfree)
  | releaseConfig address hunused =>
    exact hsound.heaps (fun _ _ h => h) (fun config href h => h.release (hunused config href))

/-- In a sound state a returning call takes effect as a whole, and nothing else has an effect. -/
theorem Sound.performs (hsound : Sound system) (hstep : Step system event after) :
    match event with
    | .returned _ call reply => call.Performs system.published reply after.published
    | _ => after.published = system.published := by
  cases hstep with
  | goOn thread hcall hsection => exact (lockSection_goesOn hsection).1
  | leave thread hcall hsection => exact (hsound.returns hcall hsection).1
  | invoke | allocate | placeOutbound | releaseOutbound | placeConfig | releaseConfig => rfl

/-- Each call in progress is one that was invoked and has not returned. -/
def Tracks (past : List (Event Out Config Thread)) (system : System Out Config Thread) : Prop :=
  ∀ thread, (system.calls thread).map Phase.call = past.foldl (Event.track thread) none

theorem Tracks.step {past : List (Event Out Config Thread)} (hpast : Tracks past system)
    (hstep : Step system event after) :
    Tracks (past ++ [event]) after := by
  intro thread
  rw [foldl_append, foldl_cons, foldl_nil, ← hpast thread]
  -- only the calling thread's call changes, and while it goes on it stays the same call
  have hmoved : ∀ (caller : Thread) (moved : Option (Phase Out Config)),
      ((system.move caller moved).calls thread).map Phase.call =
        if caller = thread then moved.map Phase.call
        else (system.calls thread).map Phase.call := by
    intro caller moved
    rw [System.move_calls, apply_ite (Option.map Phase.call)]
    exact ite_congr (propext eq_comm) (fun _ => rfl) fun _ => rfl
  have hstays : ∀ (caller : Thread) (phase next : Phase Out Config),
      system.calls caller = some phase → next.call = phase.call →
        ((system.move caller (some next)).calls thread).map Phase.call =
          (system.calls thread).map Phase.call := by
    intro caller phase next hcall hsame
    rw [hmoved]
    split
    · next hcaller => rw [← hcaller, hcall, Option.map_some, Option.map_some, hsame]
    · rfl
  cases hstep with
  | invoke thread call hidle houtbounds hconfigs => exact hmoved _ _
  | goOn thread hcall hsection =>
    exact hstays _ _ _ hcall (lockSection_goesOn hsection).2.call
  | allocate thread address hcall hfree => exact hstays _ _ _ hcall rfl
  | leave thread hcall hsection => exact hmoved _ _
  | placeOutbound | releaseOutbound | placeConfig | releaseConfig => rfl

end Steps

section Contract

variable [DecidableEq Thread]

/-- After any interleaving the published resolver is the one for the published outbound and DNS
config. The calls that have returned took effect one after the other, and what a next section does
is the whole effect of the call that returns in it, on what is current, or nothing. -/
theorem runtime_coherent (outbound : SharedOutbound Out) {events : List (Event Out Config Thread)}
    {system : System Out Config Thread} (hrun : Run Step (System.new outbound) events system) :
    system.published = .paired system.published.outbound system.published.dns ∧
      Run (fun before completed after => completed.1.Performs before completed.2 after)
        (.paired outbound none) (events.filterMap Event.completed) system.published ∧
      ∀ event after, Step system event after →
        match event with
        | .returned thread call reply =>
          events.foldl (Event.track thread) none = some call ∧
            call.Performs system.published reply after.published
        | _ => after.published = system.published := by
  have hsound : Sound system :=
    hrun.invariant Sound (sound_new outbound) fun _ _ _ h hstep => h.step hstep
  have hidle : Tracks [] (System.new outbound : System Out Config Thread) := fun _ => rfl
  have hopen : Tracks events system :=
    hrun.history_invariant Tracks hidle fun _ _ _ _ hpast hstep => hpast.step hstep
  refine ⟨hsound.paired, ?_, ?_⟩
  · refine hrun.refine System.published Event.completed Sound (sound_new outbound)
      (fun _ _ _ h hstep => h.step hstep) ?_ ?_
    · intro s event t completed hs hstep hcompleted
      have hperforms := hs.performs hstep
      cases event <;> cases hcompleted
      exact hperforms
    · intro s event t hs hstep hcompleted
      have hperforms := hs.performs hstep
      cases event <;> first | exact hperforms | cases hcompleted
  · intro event after hstep
    have hperforms := hsound.performs hstep
    cases hstep with
    | leave thread hcall hsection =>
      refine ⟨?_, hperforms⟩
      rw [← hopen, hcall, Option.map_some]
    | goOn | invoke | allocate | placeOutbound | releaseOutbound | placeConfig | releaseConfig =>
      exact hperforms

/-- A failover that begins while the DNS config is edited: the edit is committed first, the failover
finds the other config, builds again and keeps the edit. -/
theorem runtime_coherent_failover : ∃ (events : List (Event Nat Nat Bool))
    (system : System Nat Nat Bool), Run Step (System.new ⟨0, 10⟩) events system ∧
      events.filterMap Event.completed =
        [(.publish ⟨0, 10⟩ ⟨0, 5⟩, .done), (.updateDns Nat.succ, .committed true),
          (.setIfCurrent ⟨0, 10⟩ ⟨1, 11⟩, .committed true)] ∧
      system.published = .paired ⟨1, 11⟩ (some ⟨1, 6⟩) ∧
      system.published = .paired system.published.outbound system.published.dns := by
  have hrun : Run Step (System.new ⟨0, 10⟩ : System Nat Nat Bool) _ _ :=
    .head (.placeConfig ⟨0, 5⟩ rfl) <|
    .head (.invoke false (.publish ⟨0, 10⟩ ⟨0, 5⟩) rfl (by decide) (by decide)) <|
    .head (.leave false rfl rfl) <|
    .head (.invoke true (.updateDns Nat.succ) rfl (by decide) (by decide)) <|
    .head (.goOn true rfl rfl) <|
    .head (.allocate true 1 rfl rfl) <|
    .head (.placeOutbound ⟨1, 11⟩ rfl) <|
    .head (.invoke false (.setIfCurrent ⟨0, 10⟩ ⟨1, 11⟩) rfl (by decide)
      (by decide)) <|
    .head (.goOn false rfl rfl) <|
    .head (.leave true rfl rfl) <|
    .head (.goOn false rfl rfl) <|
    .head (.goOn false rfl rfl) <|
    .head (.leave false rfl rfl) <|
    .refl _
  exact ⟨_, _, hrun, rfl, rfl, (runtime_coherent _ hrun).1⟩

end Contract

end Sockrocket.Connector
