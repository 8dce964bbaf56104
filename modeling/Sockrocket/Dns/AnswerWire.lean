import Sockrocket.Dns.FakeIp
import Sockrocket.Dns.WireMessage
import Sockrocket.Router.GeoIp

/-!
# Answers to clients

`answer_wire` of `dns/mod.rs`: what a resolver with a fake-IP pool answers to a query. The exchanges
with the upstreams are a parameter, one reply or failure per exchange, of which `exchangeRaw` lets
through only what the code validates; the wire cache and the sharing of concurrent exchanges give
back such replies as well, with the identifier of the query.
-/

namespace Dns

open Rust FakeIp Sockrocket

/-! ## The resolver -/

inductive DnsGroup where
  | primary
  | fallback
deriving DecidableEq

/-- The settings of a resolver that decide about answers. -/
structure Resolver where
  dualStackFakeip : Bool
  geoip : Option GeoIpDb
  domainRules : Finmap fun _ : Str => DnsGroup
  serverDomains : List Str

/-- `is_server_domain`. -/
def Resolver.isServerDomain (resolver : Resolver) (domain : Str) : Bool :=
  resolver.serverDomains.contains domain ||
    resolver.serverDomains.any fun host => endsWith domain ('.' :: host)

/-- The group of the longest proper suffix at a dot that has a rule. -/
def suffixGroup (rules : Finmap fun _ : Str => DnsGroup) : Str → Option DnsGroup
  | [] => none
  | c :: rest =>
    if c = '.' then (rules.lookup rest).or (suffixGroup rules rest) else suffixGroup rules rest

/-- `match_domain_group`. -/
def Resolver.matchDomainGroup (resolver : Resolver) (domain : Str) : DnsGroup :=
  if resolver.isServerDomain domain then .fallback
  else
    ((resolver.domainRules.lookup domain).or (suffixGroup resolver.domainRules domain)).getD
      .primary

/-- `ips_are_cn`. -/
def Resolver.ipsAreCn (resolver : Resolver) (addresses : List IpAddr) : Bool :=
  match resolver.geoip with
  | none => false
  | some geo => addresses.any geo.isCn

/-- `record_probe_domestic`. -/
def recordProbeDomestic (pool : Inner) (domain : Str) (addresses : List IpAddr) : Inner :=
  addresses.foldl (fun pool ip => pool.recordDomestic ip domain) pool

/-! ## Exchanges -/

/-- What comes back from the upstreams in the exchanges of one call, or that all of them failed. -/
abbrev Upstreams := Nat → Bytes → Option Bytes

/-- A reply that answers the query, of a size every transport can deliver, and no temporary
failure. -/
def accepts (query reply : Bytes) : Bool :=
  validateResponse query reply && decide (reply.length ≤ 65535) && rcode reply != 2 &&
    rcode reply != 5

/-- `exchange_raw`. -/
def exchangeRaw (upstreams : Upstreams) (index : Nat) (query : Bytes) : Option Bytes :=
  if (question query).isSome then (upstreams index query).filter (accepts query) else none

/-- `parse_dns_response(..).unwrap_or_default()`. -/
def answers (reply : Bytes) : List IpAddr :=
  (parseDnsResponse reply).getD []

/-! ## The paths of an answer -/

/-- An AAAA query for a name of the primary group, with both families faked. -/
def answerDualStack (resolver : Resolver) (upstreams : Upstreams) (pool : Inner) (query : Bytes)
    (domain : Str) : Option Bytes × Inner :=
  match exchangeRaw upstreams 0 query with
  | none => (none, pool)
  | some reply =>
    if rcode reply ≠ 0 ∨ answers reply = [] then (some reply, pool)
    else if resolver.ipsAreCn (answers reply) then
      (capTtl reply 30, recordProbeDomestic pool domain (answers reply))
    else
      (buildDnsResponseWithTtl query [.v6 (pool.allocateV6 domain).1] 5,
        (pool.allocateV6 domain).2)

/-- A name of the fallback group. -/
def answerFallback (upstreams : Upstreams) (pool : Inner) (query : Bytes) (domain : Str) :
    Option Bytes × Inner :=
  match exchangeRaw upstreams 0 query with
  | none => (none, pool)
  | some reply =>
    match capTtl reply 30 with
    | none => (none, pool)
    | some capped =>
      match parseDnsResponse capped with
      | some addresses => (some capped, recordProbeDomestic pool domain addresses)
      | none => (some capped, pool)

/-- The query that probes for IPv4 addresses. -/
def probeQuery (probeId : Nat) (query : Bytes) (domain : Str) (qtype : Nat) : Bytes :=
  if qtype = 1 then query else buildDnsQuery probeId domain 1

/-- The reply to an AAAA query whose probe found a domestic name. -/
def answerCnV6 (upstreams : Upstreams) (pool : Inner) (query : Bytes) (domain : Str) :
    Option Bytes × Inner :=
  match exchangeRaw upstreams 1 query with
  | none => (none, pool)
  | some reply =>
    match parseDnsResponse reply with
    | some addresses => (some reply, recordProbeDomestic pool domain addresses)
    | none => (some reply, pool)

/-- The answer of the pool: an address for an A query that has one, and none otherwise. -/
def answerFake (pool : Inner) (query : Bytes) (domain : Str) (qtype : Nat)
    (addresses : List IpAddr) : Option Bytes × Inner :=
  if addresses = [] ∨ qtype ≠ 1 then (buildDnsResponseWithTtl query [] 5, pool)
  else
    (buildDnsResponseWithTtl query [.v4 (pool.allocate domain).1] 5, (pool.allocate domain).2)

/-- A name of the primary group, decided by its IPv4 addresses. -/
def answerPrimary (resolver : Resolver) (upstreams : Upstreams) (probeId : Nat) (pool : Inner)
    (query : Bytes) (domain : Str) (qtype : Nat) : Option Bytes × Inner :=
  match exchangeRaw upstreams 0 (probeQuery probeId query domain qtype) with
  | none => (none, pool)
  | some probe =>
    if rcode probe ≠ 0 then
      if qtype = 1 then (some probe, pool) else (exchangeRaw upstreams 1 query, pool)
    else
      match parseDnsResponse probe with
      | none => (none, pool)
      | some addresses =>
        if resolver.ipsAreCn addresses then
          match capTtl probe 30 with
          | none => (none, pool)
          | some capped =>
            if qtype = 1 then (some capped, recordProbeDomestic pool domain addresses)
            else
              answerCnV6 upstreams (recordProbeDomestic pool domain addresses) query domain
        else answerFake pool query domain qtype addresses

/-- The name a question is about, as the policy sees it. -/
def canonicalDomain (domain : Str) : Str :=
  toAsciiLowercase (trimEndMatches '.' domain)

/-- `answer_wire`, for a resolver with a pool. -/
def answerPooled (resolver : Resolver) (upstreams : Upstreams) (probeId : Nat) (pool : Inner)
    (query : Bytes) (domain : Str) (qtype : Nat) : Option Bytes × Inner :=
  if qtype = 28 ∧ resolver.dualStackFakeip = true ∧
      resolver.matchDomainGroup domain = .primary then
    answerDualStack resolver upstreams pool query domain
  else if qtype = 65 ∧ resolver.matchDomainGroup domain = .primary then
    (buildDnsResponseWithTtl query [] 5, pool)
  else if qtype ≠ 1 ∧ qtype ≠ 28 then (exchangeRaw upstreams 0 query, pool)
  else if resolver.matchDomainGroup domain = .fallback then
    answerFallback upstreams pool query domain
  else answerPrimary resolver upstreams probeId pool query domain qtype

/-- `answer_wire`: the reply, and the pool afterwards. -/
def answerWire (resolver : Resolver) (upstreams : Upstreams) (probeId : Nat)
    (fakeip : Option Inner) (query : Bytes) : Option Bytes × Option Inner :=
  match question query with
  | none => (none, fakeip)
  | some q =>
    match fakeip with
    | none => (exchangeRaw upstreams 0 query, none)
    | some pool =>
      (answerPooled resolver upstreams probeId pool query (canonicalDomain q.domain)
        q.qtype).map id some

end Dns
