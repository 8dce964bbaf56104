import Sockrocket.Router.GeoIp

/-!
# Rule evaluation

The evaluators of `router::engine` without their cache. `routeUncached` walks the rules with the
address it is given; `routeUncachedResolving` resolves the host when it first reaches a rule that
needs an address. Both are described by `Router.evaluate`, the action of the first matching rule for
a fixed address: `routeUncached_eq` and `routeUncachedResolving_eq`.
-/

namespace Sockrocket

open Rust

/-- The context of one connection, held in task-locals by `proxy::routing`: the client's address, the
destination a TUN connection was made to, and whether its DNS mapping was domestic. -/
structure TaskContext where
  clientSource : Option IpAddr
  tunDestination : Option IpAddr × Bool
deriving DecidableEq, Repr

/-- An IPv4-mapped address as the IPv4 address it stands for. -/
def canonicalIp : IpAddr → IpAddr
  | .v4 ip => .v4 ip
  | .v6 ip =>
    match ip.toIpv4Mapped with
    | some v4 => .v4 v4
    | none => .v6 ip

/-- `with_client_source`: the context in which a connection of the given client runs. -/
def TaskContext.withClientSource (context : TaskContext) (ip : Option IpAddr) : TaskContext :=
  { context with clientSource := ip.map canonicalIp }

/-- Check if an address lies in a network. -/
def cidrMatch (ip network : IpAddr) (prefixLen : Nat) : Bool :=
  match ip, network with
  | .v4 ip, .v4 net =>
    if prefixLen = 0 then true
    else
      let mask := BitVec.allOnes 32 <<< (32 - prefixLen)
      ip &&& mask == net &&& mask
  | .v6 ip, .v6 net =>
    if prefixLen = 0 then true
    else
      let mask := BitVec.allOnes 128 <<< (128 - prefixLen)
      ip &&& mask == net &&& mask
  | _, _ => false

/-- Check if a client is in the scope of a rule. -/
def sourceMatches : Option (IpAddr × Nat) → Option IpAddr → Bool
  | none, _ => true
  | some (network, bits), some ip => cidrMatch ip network bits
  | some _, none => false

/-- Router evaluates rules against connection targets. -/
structure Router where
  rules : RuleSet
  geoip : Option GeoIpDb

/-- The rule reads the destination address. -/
def MatchRule.needsIp : MatchRule → Bool
  | .ipCidr _ _ => true
  | .geoIp _ => true
  | _ => false

namespace Router

/-- Whether a rule matches a destination. -/
def ruleMatches (router : Router) (context : TaskContext) (rule : MatchRule) (hostLower : Str)
    (ip : Option IpAddr) (port : Nat) : Bool :=
  match rule with
  | .domain domain => hostLower == domain
  | .domainSuffix suffix =>
    endsWith hostLower suffix || hostLower == trimStartMatches '.' suffix
  | .domainKeyword keyword => contains hostLower keyword
  | .ipCidr addr prefixLen => ip.any fun ip => cidrMatch ip addr prefixLen
  | .geoIp country =>
    match ip, router.geoip with
    | some ip, some geoip => (geoip.lookup ip).any fun cc => eqIgnoreAsciiCase cc country
    | _, _ => false
  | .dstPort min max => min ≤ port && port ≤ max
  | .matchAll => true
  | .domesticHint => context.tunDestination.2

/-- Whether the client has any device-specific rule. -/
def hasClientRules (router : Router) (context : TaskContext) : Bool :=
  router.rules.rules.any fun entry =>
    entry.source.isSome && sourceMatches entry.source context.clientSource

/-- The destination address that is known without DNS. -/
def knownIp (context : TaskContext) (host : Str) : Option IpAddr :=
  (parseIp host).or context.tunDestination.1

/-- The rules in order: the action of the first one whose client scope and destination match. -/
def routeLoop (router : Router) (context : TaskContext) (hostLower : Str) (ip : Option IpAddr)
    (port : Nat) : List RuleEntry → RouteAction
  | [] => router.rules.defaultAction
  | entry :: rest =>
    if !sourceMatches entry.source context.clientSource then
      routeLoop router context hostLower ip port rest
    else if router.ruleMatches context entry.rule hostLower ip port then entry.action
    else routeLoop router context hostLower ip port rest

/-- `Router::route_uncached`. -/
def routeUncached (router : Router) (context : TaskContext) (host : Str) (port : Nat) :
    RouteAction :=
  router.routeLoop context (toLowercase host) (knownIp context host) port router.rules.rules

/-- `Router::route_domain_only`: the action of the first matching domain rule. -/
def routeDomainOnly (router : Router) (context : TaskContext) (host : Str) : Option RouteAction :=
  let hostLower := toLowercase host
  (router.rules.rules.find? fun entry =>
    sourceMatches entry.source context.clientSource &&
      match entry.rule with
      | .domain _ | .domainSuffix _ | .domainKeyword _ =>
        router.ruleMatches context entry.rule hostLower none 0
      | _ => false).map RuleEntry.action

/-- The rules in order, resolving the host the first time a rule in scope needs an address. `resolve`
answers the lookup this evaluation makes. -/
def resolvingLoop (router : Router) (context : TaskContext) (resolve : Str → Option IpAddr)
    (hostLower : Str) (port : Nat) :
    List RuleEntry → Option IpAddr → Bool → RouteAction
  | [], _, _ => router.rules.defaultAction
  | entry :: rest, ip, dnsAttempted =>
    if !sourceMatches entry.source context.clientSource then
      resolvingLoop router context resolve hostLower port rest ip dnsAttempted
    else
      let lookup := !dnsAttempted && entry.rule.needsIp
      let ip := if lookup then resolve hostLower else ip
      if router.ruleMatches context entry.rule hostLower ip port then entry.action
      else resolvingLoop router context resolve hostLower port rest ip (dnsAttempted || lookup)

/-- `Router::route_uncached_resolving`. -/
def routeUncachedResolving (router : Router) (context : TaskContext)
    (resolve : Str → Option IpAddr) (host : Str) (port : Nat) : RouteAction :=
  router.resolvingLoop context resolve (toLowercase host) port router.rules.rules
    (knownIp context host) (knownIp context host).isSome

/-! ## The action of the first matching rule -/

/-- The rule applies to the connection. -/
def applies (router : Router) (context : TaskContext) (hostLower : Str) (ip : Option IpAddr)
    (port : Nat) (entry : RuleEntry) : Bool :=
  sourceMatches entry.source context.clientSource &&
    router.ruleMatches context entry.rule hostLower ip port

/-- The action of the first rule that applies, or the default action. -/
def evaluate (router : Router) (context : TaskContext) (hostLower : Str) (ip : Option IpAddr)
    (port : Nat) : RouteAction :=
  match router.rules.rules.find? (router.applies context hostLower ip port) with
  | some entry => entry.action
  | none => router.rules.defaultAction

variable {router : Router} {context : TaskContext} {hostLower : Str} {port : Nat}

/-- A rule that needs no address does not look at it. -/
theorem ruleMatches_of_not_needsIp {rule : MatchRule} (h : rule.needsIp = false)
    (ip ip' : Option IpAddr) :
    router.ruleMatches context rule hostLower ip port =
      router.ruleMatches context rule hostLower ip' port := by
  cases rule with
  | ipCidr | geoIp => cases h
  | domain | domainSuffix | domainKeyword | dstPort | matchAll | domesticHint => rfl

theorem routeLoop_eq (ip : Option IpAddr) (entries : List RuleEntry) :
    router.routeLoop context hostLower ip port entries =
      match entries.find? (router.applies context hostLower ip port) with
      | some entry => entry.action
      | none => router.rules.defaultAction := by
  induction entries with
  | nil => rfl
  | cons entry rest ih =>
    rw [routeLoop, ih, List.find?_cons]
    unfold applies
    cases sourceMatches entry.source context.clientSource with
    | false => simp
    | true =>
      cases router.ruleMatches context entry.rule hostLower ip port <;> simp

variable {resolve : Str → Option IpAddr}

/-- Once an address is fixed, the resolving loop walks the rules like the other one. -/
theorem resolvingLoop_attempted (ip : Option IpAddr)
    (entries : List RuleEntry) :
    router.resolvingLoop context resolve hostLower port entries ip true =
      router.routeLoop context hostLower ip port entries := by
  induction entries with
  | nil => rfl
  | cons entry rest ih => simp [resolvingLoop, routeLoop, ih]

/-- Resolving on demand decides as if the host had been resolved at the start. -/
theorem resolvingLoop_lazy (entries : List RuleEntry) :
    router.resolvingLoop context resolve hostLower port entries none false =
      router.routeLoop context hostLower (resolve hostLower) port entries := by
  induction entries with
  | nil => rfl
  | cons entry rest ih =>
    rw [resolvingLoop, routeLoop]
    cases hneeds : entry.rule.needsIp with
    | true => simp [resolvingLoop_attempted, ih]
    | false =>
      -- no lookup yet: the rule decides the same way with any address
      simp [ih, ruleMatches_of_not_needsIp hneeds none (resolve hostLower)]

/-- `routeUncached` takes the first rule that applies with the known address. -/
theorem routeUncached_eq (host : Str) :
    router.routeUncached context host port =
      router.evaluate context (toLowercase host) (knownIp context host) port := by
  unfold routeUncached evaluate
  exact routeLoop_eq _ _

/-- `routeUncachedResolving` takes the first rule that applies with the known address, or with the
answer of the lookup when none is known. -/
theorem routeUncachedResolving_eq (resolve : Str → Option IpAddr) (host : Str) :
    router.routeUncachedResolving context resolve host port =
      router.evaluate context (toLowercase host)
        ((knownIp context host).or (resolve (toLowercase host))) port := by
  unfold routeUncachedResolving evaluate
  cases knownIp context host with
  | some ip => rw [Option.isSome_some, resolvingLoop_attempted, routeLoop_eq, Option.some_or]
  | none => rw [Option.isSome_none, resolvingLoop_lazy, routeLoop_eq, Option.none_or]

end Router

end Sockrocket
