import Sockrocket.Dns.AnswerWire

/-!
# The answer policy

A client that gets a real address dials it past the domain rules, so a resolver with a pool hands
one out only for names it has classified as domestic, remembers it, and lets it expire soon. This is
`AnswerPolicy`, about one reply. `answer_policy` says for which replies of the upstreams
`answer_wire` keeps it: every path that answers itself does, the paths that forward a reply as it
came need the reply to be harmless.
-/

namespace Dns

open Rust FakeIp Sockrocket List Option

/-- The addresses of a message that are not of the pool, in all its sections. -/
def realAddresses (message : Bytes) : List IpAddr :=
  ((messageRecords message).filterMap Record.address).filter fun ip => (fakeIpv4 ip).isNone

/-- Every record but the pseudo-record of EDNS expires within 30 seconds. -/
def ShortLived (message : Bytes) : Prop :=
  ∀ record ∈ messageRecords message, record.kind ≠ 41 → record.ttl ≤ 30

/-- If a reply holds a real address, then its name is domestic by its group or by the addresses that
decided about it, all its real addresses are in the pool's table under the name, and it is
short-lived. -/
def AnswerPolicy (resolver : Resolver) (domain : Str) (deciding : List IpAddr) (reply : Bytes)
    (pool : Inner) : Prop :=
  realAddresses reply ≠ [] →
    (resolver.matchDomainGroup domain = .fallback ∨ resolver.ipsAreCn deciding = true) ∧
      (∀ ip ∈ realAddresses reply, pool.lookupDomestic ip = some domain) ∧ ShortLived reply

/-- The query of the first exchange of an A or AAAA answer. -/
def firstQuery (resolver : Resolver) (probeId : Nat) (query : Bytes) (q : Question) : Bytes :=
  if resolver.dualStackFakeip = true ∨
      resolver.matchDomainGroup (canonicalDomain q.domain) = .fallback then query
  else probeQuery probeId query (canonicalDomain q.domain) q.qtype

/-- The addresses that decide about an answer: those of the first exchange. -/
def decidingAddresses (resolver : Resolver) (upstreams : Upstreams) (probeId : Nat)
    (query : Bytes) (q : Question) : List IpAddr :=
  ((exchangeRaw upstreams 0 (firstQuery resolver probeId query q)).map answers).getD []

/-- Every real address of the reply is among the given ones, or in the table once those are. -/
def Tabled (pool : Inner) (domain : Str) (addresses : List IpAddr) (reply : Bytes) : Prop :=
  ∀ ip ∈ realAddresses reply,
    ip ∈ addresses ∨ (recordProbeDomestic pool domain addresses).lookupDomestic ip = some domain

/-- What the policy needs of the replies of the upstreams and of the pool. -/
def PolicyCondition (resolver : Resolver) (upstreams : Upstreams) (probeId : Nat) (pool : Inner)
    (query : Bytes) (q : Question) : Prop :=
  ∀ first, exchangeRaw upstreams 0 (firstQuery resolver probeId query q) = some first →
    if resolver.matchDomainGroup (canonicalDomain q.domain) = .fallback then
      Tabled pool (canonicalDomain q.domain) (answers first) first
    else if q.qtype = 28 ∧ resolver.dualStackFakeip = false then
      -- the reply to the query itself is forwarded as it came
      if rcode first ≠ 0 then
        ∀ second, exchangeRaw upstreams 1 query = some second → realAddresses second = []
      else if resolver.ipsAreCn (answers first) then
        ∀ second, exchangeRaw upstreams 1 query = some second → realAddresses second = [] ∨
          (Tabled pool (canonicalDomain q.domain) (answers first ++ answers second) second ∧
            ShortLived second)
      else True
    else if rcode first ≠ 0 ∨ (q.qtype = 28 ∧ answers first = []) then realAddresses first = []
    else if resolver.ipsAreCn (answers first) then
      Tabled pool (canonicalDomain q.domain) (answers first) first
    else answers first ≠ [] → isFakeIp (pool.allocate (canonicalDomain q.domain)).1 = true

/-! ## The domestic table -/

theorem toAsciiLowercase_canonicalDomain (domain : Str) :
    toAsciiLowercase (canonicalDomain domain) = canonicalDomain domain :=
  toAsciiLowercase_idem _

variable {addresses : List IpAddr}

variable {ip : IpAddr}

/-- A binding stays where later stores under the same name push it. -/
theorem mem_take_recordProbeDomestic {pool : Inner} {domain : Str} {n : Nat}
    (h : (ip, toAsciiLowercase domain) ∈ pool.domestic.entries.take n)
    (hroom : n + addresses.length ≤ domesticMaxEntries) :
    (ip, toAsciiLowercase domain) ∈
      (recordProbeDomestic pool domain addresses).domestic.entries.take (n + addresses.length) := by
  induction addresses generalizing pool n with
  | nil => exact h
  | cons next rest ih =>
    rw [length_cons] at hroom ⊢
    have hnext : (ip, toAsciiLowercase domain) ∈
        (pool.recordDomestic next domain).domestic.entries.take (n + 1) := by
      by_cases heq : ip = next
      · subst heq
        exact LruCache.mem_take_put_self (by decide)
      · exact LruCache.mem_take_put h heq (by omega)
    have hrest := ih hnext (by omega)
    rwa [show n + (rest.length + 1) = n + 1 + rest.length by omega]

/-- All recorded addresses are in the table afterwards, if there is room for them. -/
theorem lookupDomestic_recordProbeDomestic {pool : Inner} {domain : Str}
    (h : ip ∈ addresses) (hroom : addresses.length ≤ domesticMaxEntries) :
    (recordProbeDomestic pool domain addresses).lookupDomestic ip =
      some (toAsciiLowercase domain) := by
  obtain ⟨before, after, rfl⟩ := append_of_mem h
  rw [length_append, length_cons] at hroom
  have hsplit : recordProbeDomestic pool domain (before ++ ip :: after) =
      recordProbeDomestic ((recordProbeDomestic pool domain before).recordDomestic ip domain) domain
        after := by
    rw [recordProbeDomestic, foldl_append, foldl_cons]
    rfl
  have hstored : (ip, toAsciiLowercase domain) ∈
      ((recordProbeDomestic pool domain before).recordDomestic ip domain).domestic.entries.take 1 :=
    LruCache.mem_take_put_self (by decide)
  rw [hsplit]
  exact LruCache.peek?_of_mem
    (mem_of_mem_take (mem_take_recordProbeDomestic hstored (by omega)))

theorem recordProbeDomestic_append (pool : Inner) (domain : Str) (first second : List IpAddr) :
    recordProbeDomestic (recordProbeDomestic pool domain first) domain second =
      recordProbeDomestic pool domain (first ++ second) :=
  foldl_append.symm

variable {reply : Bytes}

theorem tabled_iff {pool : Inner} {domain : Str} (hdomain : toAsciiLowercase domain = domain)
    (hroom : addresses.length ≤ domesticMaxEntries) :
    Tabled pool domain addresses reply ↔ ∀ ip ∈ realAddresses reply,
      (recordProbeDomestic pool domain addresses).lookupDomestic ip = some domain := by
  refine forall₂_congr fun ip hip => ?_
  refine or_iff_right_of_imp fun hmem => ?_
  rw [lookupDomestic_recordProbeDomestic hmem hroom, hdomain]

/-! ## Replies -/

variable {query : Bytes}

theorem exchangeRaw_spec {upstreams : Upstreams} {index : Nat}
    (h : exchangeRaw upstreams index query = some reply) :
    (∃ records, Parsed reply records) ∧ reply.length ≤ 65535 := by
  unfold exchangeRaw at h
  split at h
  · obtain ⟨-, hreply⟩ := filter_eq_some_iff.mp h
    simp only [accepts, Bool.and_eq_true, decide_eq_true_iff] at hreply
    exact ⟨parsed_of_validateResponse hreply.1.1.1, hreply.1.1.2⟩
  · cases h

section Parsed

variable {reply : Bytes} {records : List Record} (h : Parsed reply records)

include h

theorem answers_of_rcode (hrcode : rcode reply ≠ 0) : answers reply = [] := by
  rw [answers, h.parseDnsResponse, if_pos hrcode]
  rfl

theorem parseDnsResponse_eq_answers (hrcode : rcode reply = 0) :
    parseDnsResponse reply = some (answers reply) := by
  rw [answers, h.parseDnsResponse, if_neg (by simpa using hrcode)]
  rfl

/-- A reply of the largest size has room for less than 6000 addresses. -/
theorem length_answers_le (hsize : reply.length ≤ 65535) : (answers reply).length ≤ 6000 := by
  obtain ⟨body, -, -, hrecords⟩ := h.body
  have hcount := hrecords.le
  by_cases hrcode : rcode reply = 0
  · have hanswers := h.parseDnsResponse
    rw [parseDnsResponse_eq_answers h hrcode, if_neg (by simpa using hrcode)] at hanswers
    rw [some.inj hanswers]
    have hfilter := length_filterMap_le Record.address (records.take (u16At reply 6))
    rw [length_take] at hfilter
    omega
  · rw [answers_of_rcode h hrcode]
    exact Nat.zero_le _

/-- A capped reply holds the same addresses and is short-lived. -/
theorem capTtl_spec : ∃ capped, capTtl reply 30 = some capped ∧
    parseDnsResponse capped = parseDnsResponse reply ∧
    realAddresses capped = realAddresses reply ∧ ShortLived capped := by
  obtain ⟨capped, hcapped, hparsed, hheader⟩ := h.capTtl 30
  have hrecords : (records.map (Record.cap 30)).filterMap Record.address =
      records.filterMap Record.address := by
    rw [filterMap_map]
    exact filterMap_congr fun record _ => address_cap 30 record
  refine ⟨capped, hcapped, ?_, ?_, ?_⟩
  · have hrcode : rcode capped = rcode reply := by
      unfold rcode
      rw [hheader 3 (by omega) (by omega)]
    rw [hparsed.parseDnsResponse, h.parseDnsResponse, hrcode, hheader.u16At (by omega) (by omega),
      ← map_take, filterMap_map]
    congr 2
    exact filterMap_congr fun record _ => address_cap 30 record
  · unfold realAddresses
    rw [hparsed.messageRecords, h.messageRecords, hrecords]
  · intro record hrecord hkind
    rw [hparsed.messageRecords] at hrecord
    obtain ⟨original, -, rfl⟩ := mem_map.mp hrecord
    exact ttl_cap_le hkind

end Parsed

/-- The real addresses of a reply the resolver builds are the ones it puts in. -/
theorem realAddresses_build (h : buildDnsResponseWithTtl query addresses 5 = some reply) :
    realAddresses reply = addresses.filter fun ip => (fakeIpv4 ip).isNone := by
  have hparsed := parsed_build (by decide) h
  unfold realAddresses
  rw [hparsed.messageRecords, filterMap_map]
  have haddresses : addresses.filterMap (Record.address ∘ answerOf 5) = addresses := by
    refine (filterMap_congr fun ip _ => address_answerOf 5 ip).trans ?_
    exact filterMap_some
  rw [haddresses]

/-! ## The paths -/

/-- Whatever comes out of a path keeps the policy. -/
def KeepsPolicy (resolver : Resolver) (domain : Str) (deciding : List IpAddr)
    (result : Option Bytes × Inner) : Prop :=
  ∀ reply, result.1 = some reply → AnswerPolicy resolver domain deciding reply result.2

section Paths

variable {resolver : Resolver} {domain : Str} {deciding : List IpAddr} {pool : Inner}

theorem keepsPolicy_none : KeepsPolicy resolver domain deciding (none, pool) := by
  intro reply hreply
  cases hreply

variable {reply : Bytes}

theorem keepsPolicy_some :
    KeepsPolicy resolver domain deciding (some reply, pool) ↔
      AnswerPolicy resolver domain deciding reply pool := by
  constructor
  · intro h
    exact h reply rfl
  · intro h other hother
    obtain rfl := some.inj hother
    exact h

/-- A reply for a name that is not domestic must not hold a real address. -/
theorem policy_foreign (hgroup : resolver.matchDomainGroup domain = .primary)
    (hcn : resolver.ipsAreCn deciding = false) :
    AnswerPolicy resolver domain deciding reply pool ↔ realAddresses reply = [] := by
  constructor
  · intro h
    by_contra hreal
    rcases (h hreal).1 with hfallback | hdomestic
    · rw [hgroup] at hfallback
      cases hfallback
    · rw [hcn] at hdomestic
      cases hdomestic
  · intro hnone hreal
    exact absurd hnone hreal

/-- A reply for a domestic name must be tabled and short-lived, if it holds a real address. -/
theorem policy_domestic {addresses : List IpAddr}
    (hdomestic : resolver.matchDomainGroup domain = .fallback ∨ resolver.ipsAreCn deciding)
    (hdomain : toAsciiLowercase domain = domain) (hroom : addresses.length ≤ domesticMaxEntries) :
    AnswerPolicy resolver domain deciding reply (recordProbeDomestic pool domain addresses) ↔
      realAddresses reply = [] ∨ (Tabled pool domain addresses reply ∧ ShortLived reply) := by
  rw [tabled_iff hdomain hroom]
  constructor
  · intro h
    by_cases hreal : realAddresses reply = []
    · exact .inl hreal
    · exact .inr (h hreal).2
  · intro h hreal
    exact ⟨hdomestic, h.resolve_left hreal⟩

/-- A capped reply for a domestic name whose answers are recorded. -/
theorem keepsPolicy_capped {records : List Record}
    (hdomestic : resolver.matchDomainGroup domain = .fallback ∨ resolver.ipsAreCn deciding)
    (hdomain : toAsciiLowercase domain = domain) (hparsed : Parsed reply records)
    (hsize : reply.length ≤ 65535) :
    KeepsPolicy resolver domain deciding
        (capTtl reply 30, recordProbeDomestic pool domain (answers reply)) ↔
      Tabled pool domain (answers reply) reply := by
  obtain ⟨capped, hcapped, -, hreal, hshort⟩ := capTtl_spec hparsed
  have hcount := length_answers_le hparsed hsize
  have hroom : (answers reply).length ≤ domesticMaxEntries := hcount.trans (by decide)
  rw [hcapped, keepsPolicy_some, policy_domestic hdomestic hdomain hroom]
  unfold Tabled
  rw [hreal]
  constructor
  · rintro (hnone | ⟨htabled, -⟩)
    · intro ip hip
      rw [hnone] at hip
      cases hip
    · exact htabled
  · intro htabled
    exact .inr ⟨htabled, hshort⟩

variable {query : Bytes}

theorem keepsPolicy_build_nil :
    KeepsPolicy resolver domain deciding (buildDnsResponseWithTtl query [] 5, pool) := by
  intro reply hreply hreal
  exact absurd (realAddresses_build hreply) hreal

/-- A built answer for a name that is not domestic must hold an address of the pool. -/
theorem keepsPolicy_build {q : Question} {ip : IpAddr} (hquery : question query = some q)
    (hgroup : resolver.matchDomainGroup domain = .primary)
    (hcn : resolver.ipsAreCn deciding = false) :
    KeepsPolicy resolver domain deciding (buildDnsResponseWithTtl query [ip] 5, pool) ↔
      (fakeIpv4 ip).isSome := by
  obtain ⟨reply, hreply⟩ : ∃ reply, buildDnsResponseWithTtl query [ip] 5 = some reply := by
    unfold buildDnsResponseWithTtl
    rw [hquery]
    exact ⟨_, rfl⟩
  rw [hreply, keepsPolicy_some, policy_foreign hgroup hcn, realAddresses_build hreply]
  cases hfake : fakeIpv4 ip <;> simp [hfake]

theorem isSome_fakeIpv4 (ip : Ipv4Addr) : (fakeIpv4 (.v4 ip)).isSome = isFakeIp ip := by
  show (if isFakeIp ip then some ip else none).isSome = isFakeIp ip
  cases hfake : isFakeIp ip <;> rfl

theorem ipsAreCn_nil (resolver : Resolver) : resolver.ipsAreCn [] = false := by
  unfold Resolver.ipsAreCn
  cases resolver.geoip <;> rfl

variable {first : Bytes} {upstreams : Upstreams}

/-- The dual-stack path. -/
theorem keepsPolicy_dualStack {q : Question} (hquery : question query = some q)
    (hgroup : resolver.matchDomainGroup domain = .primary)
    (hdomain : toAsciiLowercase domain = domain)
    (hfirst : exchangeRaw upstreams 0 query = some first) :
    KeepsPolicy resolver domain (answers first)
        (answerDualStack resolver upstreams pool query domain) ↔
      if rcode first ≠ 0 ∨ answers first = [] then realAddresses first = []
      else if resolver.ipsAreCn (answers first) then Tabled pool domain (answers first) first
      else isFakeIp (pool.allocate domain).1 := by
  obtain ⟨⟨records, hparsed⟩, hsize⟩ := exchangeRaw_spec hfirst
  unfold answerDualStack
  rw [hfirst]
  dsimp only
  by_cases hnegative : rcode first ≠ 0 ∨ answers first = []
  · have hnone : answers first = [] := by
      rcases hnegative with hrcode | hnone
      · exact answers_of_rcode hparsed hrcode
      · exact hnone
    rw [if_pos hnegative, if_pos hnegative, keepsPolicy_some, policy_foreign hgroup]
    rw [hnone]
    exact ipsAreCn_nil resolver
  · rw [if_neg hnegative, if_neg hnegative]
    by_cases hcn : resolver.ipsAreCn (answers first)
    · rw [if_pos hcn, if_pos hcn, keepsPolicy_capped (.inr hcn) hdomain hparsed hsize]
    · rw [if_neg hcn, if_neg hcn, keepsPolicy_build hquery hgroup (by simpa using hcn)]
      show (fakeIpv4 (.v6 (embedV6 (pool.allocate domain).1))).isSome ↔ _
      rw [fakeIpv4_embedV6, isSome_fakeIpv4]

/-- The path of the fallback group. -/
theorem keepsPolicy_fallback (hgroup : resolver.matchDomainGroup domain = .fallback)
    (hdomain : toAsciiLowercase domain = domain)
    (hfirst : exchangeRaw upstreams 0 query = some first) :
    KeepsPolicy resolver domain deciding (answerFallback upstreams pool query domain) ↔
      Tabled pool domain (answers first) first := by
  obtain ⟨⟨records, hparsed⟩, hsize⟩ := exchangeRaw_spec hfirst
  obtain ⟨capped, hcapped, hparse, -, -⟩ := capTtl_spec hparsed
  have hpath : answerFallback upstreams pool query domain =
      (capTtl first 30, recordProbeDomestic pool domain (answers first)) := by
    unfold answerFallback
    rw [hfirst]
    simp only [hcapped, hparse]
    by_cases hrcode : rcode first = 0
    · simp [parseDnsResponse_eq_answers hparsed hrcode]
    have hnone : parseDnsResponse first = none := by
      rw [hparsed.parseDnsResponse, if_pos hrcode]
    simp only [hnone, answers_of_rcode hparsed hrcode]
    rfl
  rw [hpath, keepsPolicy_capped (.inl hgroup) hdomain hparsed hsize]

/-- The reply to an AAAA query whose probe found a domestic name. -/
theorem keepsPolicy_cnV6 {addresses : List IpAddr} (hcn : resolver.ipsAreCn deciding)
    (hdomain : toAsciiLowercase domain = domain) (hcount : addresses.length ≤ 6000) :
    KeepsPolicy resolver domain deciding
        (answerCnV6 upstreams (recordProbeDomestic pool domain addresses) query domain) ↔
      ∀ second, exchangeRaw upstreams 1 query = some second → realAddresses second = [] ∨
        (Tabled pool domain (addresses ++ answers second) second ∧ ShortLived second) := by
  cases hsecond : exchangeRaw upstreams 1 query with
  | none =>
    rw [answerCnV6, hsecond]
    refine iff_of_true keepsPolicy_none fun second hsome => ?_
    cases hsome
  | some second =>
    obtain ⟨⟨records, hparsed⟩, hsize⟩ := exchangeRaw_spec hsecond
    have hcount' := length_answers_le hparsed hsize
    have hroom : (addresses ++ answers second).length ≤ domesticMaxEntries := by
      rw [length_append]
      unfold domesticMaxEntries
      omega
    have hpath : answerCnV6 upstreams (recordProbeDomestic pool domain addresses) query domain =
        (some second, recordProbeDomestic pool domain (addresses ++ answers second)) := by
      rw [answerCnV6, hsecond]
      by_cases hrcode : rcode second = 0
      · simp [parseDnsResponse_eq_answers hparsed hrcode, recordProbeDomestic_append]
      · have hnone : parseDnsResponse second = none := by
          rw [hparsed.parseDnsResponse, if_pos hrcode]
        simp [hnone, answers_of_rcode hparsed hrcode]
    rw [hpath, keepsPolicy_some, policy_domestic (.inr hcn) hdomain hroom]
    simp

/-- The path that is decided by the IPv4 addresses of the name. -/
theorem keepsPolicy_primary {probeId qtype : Nat} {q : Question} (hquery : question query = some q)
    (hgroup : resolver.matchDomainGroup domain = .primary)
    (hdomain : toAsciiLowercase domain = domain)
    (hfirst : exchangeRaw upstreams 0 (probeQuery probeId query domain qtype) = some first) :
    KeepsPolicy resolver domain (answers first)
        (answerPrimary resolver upstreams probeId pool query domain qtype) ↔
      if rcode first ≠ 0 then
        if qtype = 1 then realAddresses first = []
        else ∀ second, exchangeRaw upstreams 1 query = some second → realAddresses second = []
      else if resolver.ipsAreCn (answers first) then
        if qtype = 1 then Tabled pool domain (answers first) first
        else ∀ second, exchangeRaw upstreams 1 query = some second → realAddresses second = [] ∨
          (Tabled pool domain (answers first ++ answers second) second ∧ ShortLived second)
      else answers first ≠ [] → qtype = 1 → isFakeIp (pool.allocate domain).1 := by
  obtain ⟨⟨records, hparsed⟩, hsize⟩ := exchangeRaw_spec hfirst
  obtain ⟨capped, hcapped, -, -, -⟩ := capTtl_spec hparsed
  have hcount := length_answers_le hparsed hsize
  unfold answerPrimary
  rw [hfirst]
  dsimp only
  by_cases hrcode : rcode first = 0
  · rw [if_neg (by simpa using hrcode), if_neg (by simpa using hrcode)]
    simp only [parseDnsResponse_eq_answers hparsed hrcode, hcapped]
    by_cases hcn : resolver.ipsAreCn (answers first)
    · rw [if_pos hcn, if_pos hcn]
      by_cases htype : qtype = 1
      · rw [if_pos htype, if_pos htype, ← hcapped,
          keepsPolicy_capped (.inr hcn) hdomain hparsed hsize]
      · rw [if_neg htype, if_neg htype, keepsPolicy_cnV6 hcn hdomain hcount]
    · rw [if_neg hcn, if_neg hcn]
      unfold answerFake
      by_cases hempty : answers first = [] ∨ qtype ≠ 1
      · rw [if_pos hempty]
        refine iff_of_true keepsPolicy_build_nil fun hsome htype => ?_
        rcases hempty with hnone | hother
        · exact absurd hnone hsome
        · exact absurd htype hother
      · rw [if_neg hempty, keepsPolicy_build hquery hgroup (by simpa using hcn), isSome_fakeIpv4]
        rw [not_or, not_not] at hempty
        constructor
        · exact fun hfake _ _ => hfake
        · exact fun hfake => hfake hempty.1 hempty.2
  · rw [if_pos hrcode, if_pos hrcode]
    have hcn : resolver.ipsAreCn (answers first) = false := by
      rw [answers_of_rcode hparsed hrcode]
      exact ipsAreCn_nil resolver
    by_cases htype : qtype = 1
    · rw [if_pos htype, if_pos htype, keepsPolicy_some, policy_foreign hgroup hcn]
    · rw [if_neg htype, if_neg htype]
      refine forall₂_congr fun second hsecond => ?_
      exact policy_foreign hgroup hcn

end Paths

/-! ## The policy -/

theorem keepsPolicy_answerWire {resolver : Resolver} {upstreams : Upstreams} {probeId : Nat}
    {pool : Inner} {q : Question} {domain : Str} {deciding : List IpAddr}
    (hquery : question query = some q) :
    (∀ reply pool', answerWire resolver upstreams probeId (some pool) query =
        (some reply, some pool') → AnswerPolicy resolver domain deciding reply pool') ↔
      KeepsPolicy resolver domain deciding (answerPooled resolver upstreams probeId pool query
        (canonicalDomain q.domain) q.qtype) := by
  unfold answerWire
  rw [hquery]
  constructor
  · intro h reply hreply
    refine h reply _ (Prod.ext hreply rfl)
  · intro h reply pool' hresult
    obtain ⟨hreply, hpool⟩ := Prod.mk.inj hresult
    obtain rfl := some.inj hpool
    exact h reply hreply

section Dispatch

variable {resolver : Resolver} {upstreams : Upstreams} {probeId : Nat} {pool : Inner}
  {query : Bytes} {q : Question}

theorem answerPooled_fallback
    (hgroup : resolver.matchDomainGroup (canonicalDomain q.domain) = .fallback)
    (htype : q.qtype = 1 ∨ q.qtype = 28) :
    answerPooled resolver upstreams probeId pool query (canonicalDomain q.domain) q.qtype =
        answerFallback upstreams pool query (canonicalDomain q.domain) ∧
      firstQuery resolver probeId query q = query := by
  constructor
  · unfold answerPooled
    rw [if_neg (by simp [hgroup]), if_neg (by simp [hgroup]), if_neg (by omega), if_pos hgroup]
  · exact if_pos (.inr hgroup)

theorem answerPooled_dualStack
    (hgroup : resolver.matchDomainGroup (canonicalDomain q.domain) = .primary)
    (htype : q.qtype = 28) (hdual : resolver.dualStackFakeip) :
    answerPooled resolver upstreams probeId pool query (canonicalDomain q.domain) q.qtype =
        answerDualStack resolver upstreams pool query (canonicalDomain q.domain) ∧
      firstQuery resolver probeId query q = query := by
  constructor
  · exact if_pos ⟨htype, hdual, hgroup⟩
  · exact if_pos (.inl hdual)

theorem answerPooled_primary
    (hgroup : resolver.matchDomainGroup (canonicalDomain q.domain) = .primary)
    (htype : q.qtype = 1 ∨ q.qtype = 28)
    (hsingle : ¬ (q.qtype = 28 ∧ resolver.dualStackFakeip)) :
    answerPooled resolver upstreams probeId pool query (canonicalDomain q.domain) q.qtype =
        answerPrimary resolver upstreams probeId pool query (canonicalDomain q.domain) q.qtype ∧
      firstQuery resolver probeId query q =
        probeQuery probeId query (canonicalDomain q.domain) q.qtype := by
  constructor
  · unfold answerPooled
    rw [if_neg fun h => hsingle ⟨h.1, h.2.1⟩, if_neg (by omega), if_neg (by omega),
      if_neg (by simp [hgroup])]
  · unfold firstQuery
    by_cases hdual : resolver.dualStackFakeip
    · -- only an A query comes here, and it is its own probe
      have ha : q.qtype = 1 := htype.resolve_right fun h28 => hsingle ⟨h28, hdual⟩
      rw [if_pos (.inl hdual), probeQuery, if_pos ha]
    · rw [if_neg (by simp [hdual, hgroup])]

end Dispatch

/-- A reply of `answer_wire` keeps the answer policy for exactly those replies of the upstreams and
those pools that meet the condition. -/
theorem answer_policy (resolver : Resolver) (upstreams : Upstreams) (probeId : Nat) (pool : Inner)
    {query : Bytes} {q : Question} (hquery : question query = some q)
    (htype : q.qtype = 1 ∨ q.qtype = 28) :
    (∀ reply pool', answerWire resolver upstreams probeId (some pool) query =
        (some reply, some pool') →
      AnswerPolicy resolver (canonicalDomain q.domain)
        (decidingAddresses resolver upstreams probeId query q) reply pool') ↔
      PolicyCondition resolver upstreams probeId pool query q := by
  rw [keepsPolicy_answerWire hquery]
  have hdomain := toAsciiLowercase_canonicalDomain q.domain
  unfold PolicyCondition decidingAddresses
  cases hgroup : resolver.matchDomainGroup (canonicalDomain q.domain) with
  | fallback =>
    obtain ⟨hpath, hprobe⟩ := answerPooled_fallback hgroup htype
    rw [hpath, hprobe]
    cases hfirst : exchangeRaw upstreams 0 query with
    | none =>
      simp only [answerFallback, hfirst]
      exact iff_of_true keepsPolicy_none nofun
    | some first =>
      simp only [some.injEq, forall_eq', if_true]
      exact keepsPolicy_fallback hgroup hdomain hfirst
  | primary =>
    by_cases hdual : q.qtype = 28 ∧ resolver.dualStackFakeip = true
    · obtain ⟨hpath, hprobe⟩ := answerPooled_dualStack hgroup hdual.1 hdual.2
      rw [hpath, hprobe]
      cases hfirst : exchangeRaw upstreams 0 query with
      | none =>
        simp only [answerDualStack, hfirst]
        exact iff_of_true keepsPolicy_none nofun
      | some first =>
        simp only [some.injEq, forall_eq', map_some, getD_some]
        rw [keepsPolicy_dualStack hquery hgroup hdomain hfirst]
        simp only [reduceCtorEq, hdual.1, hdual.2, true_and, if_false]
        by_cases hnone : answers first = [] <;> simp [hnone]
    · obtain ⟨hpath, hprobe⟩ := answerPooled_primary hgroup htype hdual
      rw [hpath, hprobe]
      cases hfirst : exchangeRaw upstreams 0
          (probeQuery probeId query (canonicalDomain q.domain) q.qtype) with
      | none =>
        simp only [answerPrimary, hfirst]
        exact iff_of_true keepsPolicy_none nofun
      | some first =>
        simp only [some.injEq, forall_eq', map_some, getD_some]
        rw [keepsPolicy_primary hquery hgroup hdomain hfirst]
        simp only [reduceCtorEq, if_false]
        rcases htype with ha | haaaa
        · simp [ha, show ¬ (1 : Nat) = 28 by decide]
        · have hsingle : resolver.dualStackFakeip = false := by simpa [haaaa] using hdual
          simp [haaaa, hsingle, show ¬ (28 : Nat) = 1 by decide]

/-- A resolver that knows one domestic network. -/
def smallResolver : Resolver where
  dualStackFakeip := false
  geoip := some (GeoIpDb.new.addEntry "1.2.3.0/24".toList "CN".toList)
  domainRules := ∅
  serverDomains := []

/-- Upstreams that have a domestic IPv4 address for every name, and give an IPv6 address to the
second exchange, both for five minutes. -/
def longLivedUpstreams : Upstreams := fun index query =>
  buildDnsResponseWithTtl query
    [if index = 0 then .v4 0x01020304#32 else .v6 0x24080000000000000000000000000001#128] 300

/-- The domestic answer to an A query keeps the policy. -/
theorem answer_policy_a_query :
    question (buildDnsQuery 7 "a.cn".toList 1) = some ⟨"a.cn".toList, 1, 22⟩ ∧
      ∀ reply pool', answerWire smallResolver longLivedUpstreams 9 (some Inner.new)
          (buildDnsQuery 7 "a.cn".toList 1) = (some reply, some pool') →
        AnswerPolicy smallResolver "a.cn".toList [.v4 0x01020304#32] reply pool' := by
  have hquery : question (buildDnsQuery 7 "a.cn".toList 1) = some ⟨"a.cn".toList, 1, 22⟩ := by
    decide
  have hdomain : canonicalDomain "a.cn".toList = "a.cn".toList := by decide
  have hdeciding : decidingAddresses smallResolver longLivedUpstreams 9
      (buildDnsQuery 7 "a.cn".toList 1) ⟨"a.cn".toList, 1, 22⟩ = [.v4 0x01020304#32] := by
    decide
  have hpolicy := answer_policy smallResolver longLivedUpstreams 9 Inner.new hquery (.inl rfl)
  rw [hdeciding, hdomain] at hpolicy
  refine ⟨hquery, hpolicy.mpr fun first hfirst => ?_⟩
  have hgood : ∀ reply ∈ exchangeRaw longLivedUpstreams 0 (buildDnsQuery 7 "a.cn".toList 1),
      rcode reply = 0 ∧ answers reply = [.v4 0x01020304#32] ∧
        realAddresses reply = [.v4 0x01020304#32] := by decide
  obtain ⟨hrcode, hanswers, hreal⟩ := hgood first hfirst
  have hgroup : smallResolver.matchDomainGroup (canonicalDomain "a.cn".toList) = .primary := by
    decide
  have hcn : smallResolver.ipsAreCn [.v4 0x01020304#32] = true := by decide
  -- the only real address is the answer itself
  have htabled : Tabled Inner.new (canonicalDomain "a.cn".toList) [.v4 0x01020304#32] first := by
    intro ip hip
    rw [hreal] at hip
    exact .inl hip
  simpa [hgroup, hrcode, hanswers, hcn] using htabled

/-- The IPv6 address of a domestic name is handed out for as long as the upstream says. -/
theorem answer_policy_uncapped :
    question (buildDnsQuery 7 "a.cn".toList 28) = some ⟨"a.cn".toList, 28, 22⟩ ∧
      ¬ ∀ reply pool', answerWire smallResolver longLivedUpstreams 9 (some Inner.new)
          (buildDnsQuery 7 "a.cn".toList 28) = (some reply, some pool') →
        AnswerPolicy smallResolver "a.cn".toList
          (decidingAddresses smallResolver longLivedUpstreams 9
            (buildDnsQuery 7 "a.cn".toList 28) ⟨"a.cn".toList, 28, 22⟩) reply pool' := by
  have hquery : question (buildDnsQuery 7 "a.cn".toList 28) = some ⟨"a.cn".toList, 28, 22⟩ := by
    decide
  refine ⟨hquery, fun h => ?_⟩
  rw [keepsPolicy_answerWire hquery] at h
  -- the reply of the second exchange is forwarded as it came
  have hleak : ∃ reply, (answerPooled smallResolver longLivedUpstreams 9 Inner.new
      (buildDnsQuery 7 "a.cn".toList 28) (canonicalDomain "a.cn".toList) 28).1 = some reply ∧
      realAddresses reply ≠ [] ∧ (messageRecords reply).map Record.ttl = [300] ∧
      (messageRecords reply).map Record.kind = [28] := by
    refine ⟨(longLivedUpstreams 1 (buildDnsQuery 7 "a.cn".toList 28)).getD [], ?_⟩
    decide
  obtain ⟨reply, hreply, hreal, httl, hkind⟩ := hleak
  obtain ⟨-, -, hshort⟩ := h reply hreply hreal
  obtain ⟨record, hrecord, -⟩ := map_eq_singleton_iff.mp httl
  rw [hrecord] at httl hkind
  have hthirty := hshort record (by rw [hrecord]; exact mem_singleton_self record)
  simp only [map_cons, map_nil, cons.injEq, and_true] at httl hkind
  have := hthirty (by omega)
  omega

end Dns
