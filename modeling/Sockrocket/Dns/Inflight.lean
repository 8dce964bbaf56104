import Sockrocket.Dns.Identifier
import Sockrocket.Lib.SingleFlight

/-!
# Shared lookups

Concurrent lookups of a resolver share exchanges with the upstreams: `resolve_dedup` shares address
lookups, `exchange_raw` shares exchanges of whole messages. Each has a registry as in
`SingleFlight`, whose guards are `InflightGuard` and `WireInflightGuard`, and `clear_cache` clears
the second one.

The key of an exchange names its outbound by the address of the outbound's allocation. An address is
used again once nobody holds the outbound any more, so the system keeps track of which outbound lies
where; a caller holds its own for as long as it holds its guard. `inflight_dedup` is the contract.
-/

namespace Dns

open Rust Transition SingleFlight List

/-! ## Requests -/

/-- `std::net::SocketAddr`. -/
inductive SocketAddr where
  | v4 (ip : Ipv4Addr) (port : UInt16)
  | v6 (ip : Ipv6Addr) (port : UInt16) (flowinfo scopeId : UInt32)
deriving DecidableEq

inductive DnsServer where
  | udp (address : SocketAddr)
  | tcp (address : SocketAddr)
  | tls (address : SocketAddr) (name : Str)
  | endpoint (url : Str) (proxy : Bool) (bootstrap : List SocketAddr)
  | doH (url : Str)
  | proxyTcp (address : SocketAddr)
  | proxyTls (address : SocketAddr) (name : Str)
deriving DecidableEq

/-- An `Arc<dyn Outbound>`: the address of its allocation, and which outbound it is. -/
structure SharedOutbound where
  address : Nat
  outbound : Nat
deriving DecidableEq

/-- The settings of a resolver that decide about an exchange. -/
structure DnsResolver extends Resolver where
  servers : List DnsServer
  fallback : List DnsServer
  cacheCapacity : Nat
  directResolution : Bool
  primaryOverride : Option (List DnsServer)
  outbound : Option SharedOutbound

/-- The servers `exchange_raw` asks about a name. -/
def DnsResolver.selectServers (resolver : DnsResolver) (domain : Str) : List DnsServer :=
  if resolver.directResolution = true ∧ resolver.fallback ≠ [] then resolver.fallback
  else
    match resolver.matchDomainGroup (canonicalDomain domain) with
    | .primary => resolver.primaryOverride.getD resolver.servers
    | .fallback => resolver.fallback

/-- The query without its identifier, and the purpose of the request. -/
def DnsResolver.cacheKey (resolver : DnsResolver) (query : Bytes) : Bytes :=
  0 :: 0 :: query.drop 2 ++ [if resolver.directResolution then 1 else 0]

structure WireInflightKey where
  query : Bytes
  servers : List DnsServer
  outbound : Nat
deriving DecidableEq

/-- A call of `exchange_raw` with a query that `parse_dns_query` has accepted. -/
structure WireCaller where
  resolver : DnsResolver
  query : Bytes
  question : Question
  parsed : Dns.question query = some question

namespace WireCaller

def servers (caller : WireCaller) : List DnsServer :=
  caller.resolver.selectServers caller.question.domain

def inflightKey (caller : WireCaller) : WireInflightKey where
  query := caller.resolver.cacheKey caller.query
  servers := caller.servers
  outbound := caller.resolver.outbound.elim 0 SharedOutbound.address

/-- What `exchange_raw_uncached` may end with: an error, or a reply that was let through. -/
def MayEnd (caller : WireCaller) (outcome : Except Str Bytes) : Prop :=
  ∀ reply, outcome = .ok reply → accepts caller.query reply = true

/-- What `exchange_raw` makes of the outcome in the cell. -/
def result (caller : WireCaller) (outcome : Except Str Bytes) : Except Str Bytes :=
  outcome.map (setId caller.query)

end WireCaller

abbrev WireRegistry := Registry WireInflightKey WireCaller (Except Str Bytes)

/-- The caller gets a guard: its key is not too long, and there is a cell for it or room for a new
one. -/
def admits (wires : WireRegistry) (caller : WireCaller) : Bool :=
  decide (caller.inflightKey.query.length ≤ 512) &&
    ((wires.map.lookup caller.inflightKey).isSome ||
      decide (wires.map.keys.card < max 16 (min caller.resolver.cacheCapacity 1024)))

structure LookupAnswer where
  addresses : List IpAddr
  ttl : Nat

/-- `CacheKey`: name, query type and purpose. -/
abbrev CacheKey := Str × Nat × Bool

/-- A call of `resolve_dedup`. -/
structure LookupCaller where
  domain : Str
  qtype : Nat
  directResolution : Bool

def LookupCaller.key (caller : LookupCaller) : CacheKey :=
  (caller.domain, caller.qtype, caller.directResolution)

abbrev LookupRegistry := Registry CacheKey LookupCaller (Except Str LookupAnswer)

/-! ## The system -/

/-- The two registries, and which outbound lies at an address. -/
structure InflightSystem where
  lookups : LookupRegistry
  wires : WireRegistry
  outbounds : Nat → Option Nat

namespace InflightSystem

def new : InflightSystem where
  lookups := .new
  wires := .new
  outbounds := fun _ => none

/-- The outbound of the caller, if it has one, lies where the caller says. An allocation has no
address zero. -/
def Holds (system : InflightSystem) (caller : WireCaller) : Prop :=
  ∀ shared ∈ caller.resolver.outbound,
    shared.address ≠ 0 ∧ system.outbounds shared.address = some shared.outbound

/-- The address is free to be used for something else. -/
def Unused (system : InflightSystem) (address : Nat) : Prop :=
  ∀ g ∈ system.wires.guards, ∀ shared ∈ g.caller.resolver.outbound, shared.address ≠ address

end InflightSystem

inductive InflightEvent where
  | lookup (event : Event LookupCaller (Except Str LookupAnswer))
  | wire (event : Event WireCaller (Except Str Bytes))
  | bypassed (caller : WireCaller) (outcome : Except Str Bytes)
  | placed (address : Nat) (outbound : Option Nat)

/-- The lookups are never cleared. -/
def LookupAllowed : Event LookupCaller (Except Str LookupAnswer) → Prop
  | .cleared => False
  | _ => True

/-- Callers need to be admitted, and their exchanges end as they may. -/
def WireAllowed (system : InflightSystem) : Event WireCaller (Except Str Bytes) → Prop
  | .joined caller _ => admits system.wires caller = true ∧ system.Holds caller
  | .completed caller _ outcome => caller.MayEnd outcome
  | _ => True

/-- What may happen at any time. -/
inductive InflightStep : InflightSystem → InflightEvent → InflightSystem → Prop where
  | lookup {system : InflightSystem} {event : Event LookupCaller (Except Str LookupAnswer)}
      {lookups : LookupRegistry} (hstep : Step LookupCaller.key system.lookups event lookups)
      (hallowed : LookupAllowed event) :
      InflightStep system (.lookup event) { system with lookups := lookups }
  | wire {system : InflightSystem} {event : Event WireCaller (Except Str Bytes)}
      {wires : WireRegistry} (hstep : Step WireCaller.inflightKey system.wires event wires)
      (hallowed : WireAllowed system event) :
      InflightStep system (.wire event) { system with wires := wires }
  | bypass {system : InflightSystem} {caller : WireCaller} {outcome : Except Str Bytes}
      (hfull : admits system.wires caller = false) (hend : caller.MayEnd outcome) :
      InflightStep system (.bypassed caller outcome) system
  | place {system : InflightSystem} {address : Nat} {outbound : Option Nat}
      (hunused : system.Unused address) :
      InflightStep system (.placed address outbound)
        { system with outbounds := Function.update system.outbounds address outbound }

namespace InflightEvent

def lookup? : InflightEvent → Option (Event LookupCaller (Except Str LookupAnswer))
  | .lookup event => some event
  | _ => none

def wire? : InflightEvent → Option (Event WireCaller (Except Str Bytes))
  | .wire event => some event
  | _ => none

end InflightEvent

/-- The events of the address lookups. -/
def lookupEvents (past : List InflightEvent) :
    List (Event LookupCaller (Except Str LookupAnswer)) :=
  past.filterMap InflightEvent.lookup?

/-- The events of the exchanges. -/
def wireEvents (past : List InflightEvent) : List (Event WireCaller (Except Str Bytes)) :=
  past.filterMap InflightEvent.wire?

/-! ## Keys -/

theorem length_query (caller : WireCaller) : 12 ≤ caller.query.length := by
  have hparsed := caller.parsed
  unfold question at hparsed
  split at hparsed
  · cases hparsed
  · omega

variable {caller caller' : WireCaller}

/-- Callers with one key sent the same query, up to the identifier, for the same purpose. -/
theorem sameBody_of_cacheKey
    (h : caller.resolver.cacheKey caller.query = caller'.resolver.cacheKey caller'.query) :
    SameBody caller.query caller'.query ∧
      caller.resolver.directResolution = caller'.resolver.directResolution := by
  unfold DnsResolver.cacheKey at h
  simp only [cons_append, cons.injEq, true_and] at h
  obtain ⟨hbody, hpurpose⟩ := append_inj' h rfl
  have hlength := congrArg length hbody
  have hlong := length_query caller
  have hlong' := length_query caller'
  rw [length_drop, length_drop] at hlength
  refine ⟨⟨by omega, hbody.symm⟩, ?_⟩
  cases hdirect : caller.resolver.directResolution <;>
    cases hdirect' : caller'.resolver.directResolution <;> simp [hdirect, hdirect'] at hpurpose ⊢

/-- Callers with one key whose outbounds both lie where they say have one outbound. -/
theorem outbound_of_key {system : InflightSystem}
    (hkey : caller.inflightKey = caller'.inflightKey) (hheld : system.Holds caller)
    (hheld' : system.Holds caller') : caller.resolver.outbound = caller'.resolver.outbound := by
  have haddress : caller.resolver.outbound.elim 0 SharedOutbound.address =
      caller'.resolver.outbound.elim 0 SharedOutbound.address :=
    congrArg WireInflightKey.outbound hkey
  cases hout : caller.resolver.outbound with
  | none =>
    cases hout' : caller'.resolver.outbound with
    | none => rfl
    | some shared' =>
      rw [hout, hout'] at haddress
      exact absurd haddress.symm (hheld' shared' hout').1
  | some shared =>
    cases hout' : caller'.resolver.outbound with
    | none =>
      rw [hout, hout'] at haddress
      exact absurd haddress (hheld shared hout).1
    | some shared' =>
      rw [hout, hout'] at haddress
      have haddress : shared.address = shared'.address := haddress
      have hplace := (hheld shared hout).2
      rw [haddress, (hheld' shared' hout').2] at hplace
      obtain ⟨address, outbound⟩ := shared
      obtain ⟨address', outbound'⟩ := shared'
      simp only at haddress hplace
      rw [haddress, Option.some.inj hplace]

/-! ## Histories -/

theorem lookupEvents_append (past : List InflightEvent) (event : InflightEvent) :
    lookupEvents (past ++ [event]) = lookupEvents past ++ event.lookup?.toList := by
  unfold lookupEvents
  rw [filterMap_append]
  cases event <;> rfl

theorem wireEvents_append (past : List InflightEvent) (event : InflightEvent) :
    wireEvents (past ++ [event]) = wireEvents past ++ event.wire?.toList := by
  unfold wireEvents
  rw [filterMap_append]
  cases event <;> rfl

/-- What is known about the system and its past. -/
structure InflightInv (past : List InflightEvent) (system : InflightSystem) : Prop where
  lookups : Story LookupCaller.key (lookupEvents past) system.lookups
  wires : Story WireCaller.inflightKey (wireEvents past) system.wires
  held : ∀ g ∈ system.wires.guards, system.Holds g.caller
  sameOutbound : ∀ caller caller' cell, .joined caller cell ∈ wireEvents past →
    .joined caller' cell ∈ wireEvents past → caller.resolver.outbound = caller'.resolver.outbound
  ended : ∀ caller cell outcome, .completed caller cell outcome ∈ wireEvents past →
    caller.MayEnd outcome

namespace InflightInv

variable {past : List InflightEvent} {system : InflightSystem}

theorem new : InflightInv [] .new :=
  ⟨Story.new, Story.new, nofun, nofun, nofun⟩

variable {event : InflightEvent} {system' : InflightSystem}

/-- Nothing happens to the exchanges. -/
theorem frame (h : InflightInv past system)
    (hother : event.wire? = none)
    (hlookups : Story LookupCaller.key (lookupEvents (past ++ [event])) system'.lookups)
    (hwires : system'.wires = system.wires)
    (hheld : ∀ g ∈ system.wires.guards, system'.Holds g.caller) :
    InflightInv (past ++ [event]) system' := by
  have hpast : wireEvents (past ++ [event]) = wireEvents past := by
    rw [wireEvents_append, hother]
    exact append_nil _
  refine ⟨hlookups, ?_, ?_, ?_, ?_⟩
  · rw [hpast, hwires]
    exact h.wires
  · rwa [hwires]
  · rw [hpast]
    exact h.sameOutbound
  · rw [hpast]
    exact h.ended

/-- Nothing happens to the lookups. -/
theorem lookups_frame (h : InflightInv past system)
    (hother : event.lookup? = none) :
    Story LookupCaller.key (lookupEvents (past ++ [event])) system.lookups := by
  rw [lookupEvents_append, hother]
  exact (append_nil (lookupEvents past)).symm ▸ h.lookups

/-- All callers of a cell have one outbound: whoever joins it later finds a caller there that holds
the outbound its key speaks of. -/
theorem sameOutbound_join (h : InflightInv past system) {caller : WireCaller}
    (hholds : system.Holds caller) {caller' : WireCaller}
    (hmem : .joined caller' (system.wires.join WireCaller.inflightKey caller).1 ∈
      wireEvents past) :
    caller'.resolver.outbound = caller.resolver.outbound := by
  rcases Joins.join_cell h.wires.sound caller with hnew | ⟨g, hg, hcell, hkey⟩
  · rw [hnew] at hmem
    exact absurd (h.wires.joins.old caller' _ hmem) (lt_irrefl _)
  · rw [← hcell] at hmem
    rw [h.sameOutbound _ _ _ hmem (h.wires.joins.joined g hg)]
    exact outbound_of_key hkey (h.held g hg) hholds

theorem wire {event : Event WireCaller (Except Str Bytes)} {wires : WireRegistry}
    (h : InflightInv past system) (hstep : Step WireCaller.inflightKey system.wires event wires)
    (hallowed : WireAllowed system event) :
    InflightInv (past ++ [.wire event]) { system with wires := wires } := by
  have hevents : wireEvents (past ++ [.wire event]) = wireEvents past ++ [event] :=
    wireEvents_append past (.wire event)
  refine ⟨h.lookups_frame rfl, ?_, ?_, ?_, ?_⟩
  · rw [hevents]
    exact h.wires.step hstep
  · intro g hg
    rcases hstep.caller_mem hg with ⟨g', hg', hcaller, -⟩ | rfl
    · rw [← hcaller]
      exact h.held g' hg'
    · exact hallowed.2
  · rw [hevents]
    intro first second cell hfirst hsecond
    rcases mem_past.mp hfirst with hpast | rfl
    · rcases mem_past.mp hsecond with hpast' | rfl
      · exact h.sameOutbound first second cell hpast hpast'
      · rw [hstep.cell_eq] at hpast
        exact h.sameOutbound_join hallowed.2 hpast
    · rcases mem_past.mp hsecond with hpast' | heq
      · rw [hstep.cell_eq] at hpast'
        exact (h.sameOutbound_join hallowed.2 hpast').symm
      · rw [(Event.joined.inj heq).1]
  · rw [hevents]
    intro caller cell outcome hmem
    rcases mem_past.mp hmem with hmem | rfl
    · exact h.ended caller cell outcome hmem
    · exact hallowed

theorem step (h : InflightInv past system)
    (hstep : InflightStep system event system') : InflightInv (past ++ [event]) system' := by
  cases hstep with
  | lookup hstep hallowed =>
    refine h.frame rfl ?_ rfl h.held
    rw [lookupEvents_append]
    exact h.lookups.step hstep
  | wire hstep hallowed => exact h.wire hstep hallowed
  | bypass hfull hend => exact h.frame rfl (h.lookups_frame rfl) rfl h.held
  | @place address outbound hunused =>
    refine h.frame rfl (h.lookups_frame rfl) rfl fun g hg shared hshared => ?_
    -- the place that changes is not one the caller speaks of
    have hplace := h.held g hg shared hshared
    refine ⟨hplace.1, ?_⟩
    show Function.update system.outbounds address outbound shared.address = _
    rw [Function.update_of_ne (hunused g hg shared hshared), hplace.2]

end InflightInv

/-! ## The contract -/

/-- The caller of `exchange_raw` has got the outcome of a caller that asked the same thing in the
same way, as a reply to its own query. -/
structure OwnReply (past : List InflightEvent) (caller : WireCaller) (cell : Nat)
    (outcome : Except Str Bytes) : Prop where
  leader : ∃ leader, .completed leader cell outcome ∈ wireEvents past ∧
    leader.query.drop 2 = caller.query.drop 2 ∧
    leader.resolver.directResolution = caller.resolver.directResolution ∧
    leader.servers = caller.servers ∧ leader.resolver.outbound = caller.resolver.outbound
  reply : ∀ reply, caller.result outcome = .ok reply →
    reply.take 2 = caller.query.take 2 ∧ accepts caller.query reply = true

theorem InflightInv.ownReply {past : List InflightEvent} {system : InflightSystem}
    (h : InflightInv past system) {cell : Nat} {outcome : Except Str Bytes}
    (hmem : .received caller cell outcome ∈ wireEvents past) :
    OwnReply past caller cell outcome := by
  obtain ⟨hjoined, leader, hleader, hcompleted, hkey⟩ := h.wires.received hmem
  obtain ⟨hbody, hpurpose⟩ := sameBody_of_cacheKey (congrArg WireInflightKey.query hkey)
  refine ⟨⟨leader, hcompleted, hbody.body.symm, hpurpose, congrArg WireInflightKey.servers hkey,
    h.sameOutbound leader caller cell hleader hjoined⟩, fun reply hreply => ?_⟩
  cases outcome with
  | error message => cases hreply
  | ok raw =>
    obtain rfl := Except.ok.inj hreply
    have hlong := length_query caller
    refine ⟨take_setId (by omega), accepts_setId hbody ?_⟩
    exact h.ended leader cell (.ok raw) hcompleted raw rfl

/-- Whatever the callers of `resolve_dedup` and `exchange_raw` do and whenever the cache is cleared:
both registries keep the contract of `SingleFlight`, and whoever receives the reply of an exchange
receives one to its own query, from its own servers and through its own outbound. -/
theorem inflight_dedup {events : List InflightEvent} {system : InflightSystem}
    (hrun : Run InflightStep .new events system) :
    Contract LookupCaller.key (lookupEvents events) system.lookups ∧
      Contract WireCaller.inflightKey (wireEvents events) system.wires ∧
      ∀ caller cell outcome, .received caller cell outcome ∈ wireEvents events →
        OwnReply events caller cell outcome := by
  have h : InflightInv ([] ++ events) system :=
    hrun.history_invariant InflightInv InflightInv.new fun _ _ _ _ => InflightInv.step
  exact ⟨h.lookups.contract, h.wires.contract, fun _ _ _ => h.ownReply⟩

/-- A resolver with one server. -/
def plainResolver : DnsResolver where
  dualStackFakeip := false
  geoip := none
  domainRules := ∅
  serverDomains := []
  servers := [.udp (.v4 0x08080808#32 53)]
  fallback := []
  cacheCapacity := 16
  directResolution := false
  primaryOverride := none
  outbound := none

def firstCaller : WireCaller where
  resolver := plainResolver
  query := buildDnsQuery 7 "a.cn".toList 1
  question := ⟨"a.cn".toList, 1, 22⟩
  parsed := by decide

def secondCaller : WireCaller where
  resolver := plainResolver
  query := buildDnsQuery 9 "a.cn".toList 1
  question := ⟨"a.cn".toList, 1, 22⟩
  parsed := by decide

/-- A cancelled caller hands over to another one, which receives what it then finds out. -/
theorem inflight_dedup_handover : ∃ events system,
    Run InflightStep .new events system ∧
      .received secondCaller 0 (.error "timeout".toList) ∈ wireEvents events ∧
      OwnReply events secondCaller 0 (.error "timeout".toList) := by
  let one : WireRegistry := (Registry.new.join WireCaller.inflightKey firstCaller).2
  let two : WireRegistry :=
    { one with
      users := Function.update one.users 0 (one.users 0 + 1)
      guards := ⟨secondCaller, 0, .waiting⟩ :: one.guards }
  have hjoin : Step WireCaller.inflightKey one (.joined secondCaller 0) two := by
    have hstep : Step WireCaller.inflightKey one _ _ := .join one secondCaller
    have hlookup : one.map.lookup secondCaller.inflightKey = some 0 := by decide
    unfold Registry.join at hstep
    rwa [hlookup] at hstep
  have hstart : InflightStep .new _ { InflightSystem.new with wires := one } :=
    .wire (.join _ firstCaller) ⟨by decide, nofun⟩
  -- one caller of two leads and is cancelled, the other one takes over
  have hrun := Run.head hstart <|
    .head (.wire hjoin ⟨by decide, nofun⟩) <|
    .head (.wire (@Step.lead _ _ _ _ _ _ [⟨secondCaller, 0, .waiting⟩] [] firstCaller 0 rfl rfl
      (by simp [one, two, Registry.join, Registry.new, Guard.leads, Phase.isLeading])) trivial) <|
    .head (.wire (@Step.leave _ _ _ _ _ _ [⟨secondCaller, 0, .waiting⟩] [] firstCaller 0 _ rfl)
      trivial) <|
    .head (.wire (@Step.lead _ _ _ _ _ _ [] [] secondCaller 0 rfl rfl
      (by simp [Registry.leave, Guard.leads, Phase.isLeading])) trivial) <|
    .head (.wire (@Step.complete _ _ _ _ _ _ [] [] secondCaller 0 (.error "timeout".toList) rfl)
      nofun) <|
    .head (.wire (@Step.receive _ _ _ _ _ _ [] [] secondCaller 0 _ rfl rfl) trivial) (.refl _)
  refine ⟨_, _, hrun, ?_, (inflight_dedup hrun).2.2 _ _ _ ?_⟩
  all_goals
    refine mem_filterMap.mpr ⟨.wire (.received secondCaller 0 (.error "timeout".toList)), ?_⟩
    exact ⟨mem_of_getLast? rfl, rfl⟩

/-! ## Load -/

/-- A cell is added only while there is room for it. -/
theorem card_keys_step {system : InflightSystem} {event : Event WireCaller (Except Str Bytes)}
    {wires : WireRegistry} (hstep : Step WireCaller.inflightKey system.wires event wires)
    (hallowed : WireAllowed system event) (h : system.wires.map.keys.card ≤ 1024) :
    wires.map.keys.card ≤ 1024 := by
  cases hstep with
  | join caller =>
    unfold Registry.join
    split
    · exact h
    · rename_i hnone
      have hkeys : (system.wires.map.insert caller.inflightKey system.wires.fresh).keys ⊆
          insert caller.inflightKey system.wires.map.keys := by
        intro key
        simp [Finmap.mem_keys]
      have hcard := (Finset.card_le_card hkeys).trans (Finset.card_insert_le _ _)
      have hroom : system.wires.map.keys.card < 1024 := by
        have hadmits := hallowed.1
        grind [admits]
      exact hcard.trans hroom
  | leave hguards =>
    unfold Registry.leave
    dsimp only
    split
    · rw [Finmap.keys_erase]
      exact Finset.card_erase_le.trans h
    · exact h
  | lead | complete | receive => exact h
  | clear => exact Nat.zero_le _

end Dns
