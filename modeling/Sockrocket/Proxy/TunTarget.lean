import Sockrocket.Dns.FakeIp
import Sockrocket.Router.RuleModeOrder

/-!
# Dial targets of TUN connections

`proxy/tun.rs` turns the destination address of a TUN connection into what is dialed. An address that
was answered for a domestic name is dialed directly, past the rules, unless the client has rules of
its own or a domain rule matches the name. `tunDialTarget_rules` says when that is what the rules
would have decided.
-/

namespace Sockrocket

open Rust FakeIp StableSort Grouping List

/-- What `tun_dial_target` gives: host, port, and whether the rules are passed by. -/
structure DialTarget where
  host : Str
  port : Nat
  forceDirect : Bool
deriving DecidableEq, Repr

/-- The context in which `handle_tun_stream` serves a connection of a client to an address. -/
def tunContext (fakeip : Option Inner) (client addr : IpAddr) : TaskContext :=
  TaskContext.withClientSource
    ⟨none, if (fakeIpv4 addr).isNone then some addr else none,
      fakeip.any fun pool => (pool.lookupDomestic addr).isSome⟩ (some client)

/-- The decision for an address that was answered for a domestic name. -/
def domesticTarget (addr : IpAddr) (port : Nat) (domain : Str) (router : Option Router)
    (context : TaskContext) : DialTarget :=
  match router with
  | none => ⟨domain, port, false⟩
  | some router =>
    if router.hasClientRules context then ⟨domain, port, false⟩
    else
      match router.routeDomainOnly context domain with
      | some _ => ⟨domain, port, false⟩
      | none => ⟨addr.display, port, true⟩

/-- `tun_dial_target`. -/
def tunDialTarget (addr : IpAddr) (port : Nat) (fakeip : Option Inner) (router : Option Router)
    (context : TaskContext) : Except Str DialTarget :=
  match fakeip with
  | none => .ok ⟨addr.display, port, false⟩
  | some pool =>
    match fakeIpv4 addr with
    | some v4 =>
      match pool.lookup v4 with
      | some domain => .ok ⟨domain, port, false⟩
      | none => .error ("fake-IP ".toList ++ v4.display ++
          " has no live mapping (evicted?) — dropping stream".toList)
    | none =>
      match pool.lookupDomestic addr with
      | some domain => .ok (domesticTarget addr port domain router context)
      | none => .ok ⟨addr.display, port, false⟩

/-! ## Kinds of rules -/

/-- The rule reads the destination address or port. -/
def MatchRule.readsEndpoint : MatchRule → Bool
  | .ipCidr _ _ | .geoIp _ | .dstPort _ _ => true
  | _ => false

/-- The rule reads the destination name. -/
def MatchRule.readsName : MatchRule → Bool
  | .domain _ | .domainSuffix _ | .domainKeyword _ => true
  | _ => false

/-- The entry that sends known domestic destinations direct. -/
def hintEntry : RuleEntry :=
  ⟨none, none, .domesticHint, .direct⟩

/-- A saved rule that is not a catch-all compiles to a rule on the name or on the endpoint. -/
theorem compilePattern_of_not_catchAll {ruleType pattern : Str} {rule : MatchRule}
    (hkind : isCatchAll ruleType = false) (h : compilePattern ruleType pattern = some rule) :
    rule.readsName ∨ rule.readsEndpoint := by
  simp only [isCatchAll, Bool.or_eq_false_iff, beq_eq_false_iff_ne] at hkind
  unfold compilePattern at h
  simp only [hkind.1, hkind.2, or_self, if_false] at h
  split at h
  · obtain rfl := Option.some.inj h
    exact .inl rfl
  split at h
  · obtain rfl := Option.some.inj h
    exact .inl rfl
  split at h
  · obtain rfl := Option.some.inj h
    exact .inl rfl
  split at h
  · obtain ⟨network, -, rfl⟩ := Option.map_eq_some_iff.mp h
    exact .inr rfl
  split at h
  · obtain rfl := Option.some.inj h
    exact .inr rfl
  split at h
  · obtain ⟨range, -, rfl⟩ := Option.map_eq_some_iff.mp h
    exact .inr rfl
  · cases h

variable {items : List (Nat × RoutingRule)} {entry : RuleEntry}

theorem mem_fromIndexedConfig (h : entry ∈ (RuleSet.fromIndexedConfig items).rules) :
    ∃ indexed ∈ items, compileEntry indexed = some entry := by
  obtain ⟨indexed, hindexed, hentry⟩ := mem_filterMap.mp h
  exact ⟨indexed, (mem_filter.mp (mem_sortBy.mp hindexed)).1, hentry⟩

/-- Saved rules that are not catch-alls give rules on the name or the endpoint. -/
theorem reads_of_mem_fromIndexedConfig
    (hitems : ∀ indexed ∈ items, isCatchAll indexed.2.ruleType = false)
    (h : entry ∈ (RuleSet.fromIndexedConfig items).rules) :
    entry.rule.readsName ∨ entry.rule.readsEndpoint := by
  obtain ⟨indexed, hindexed, hentry⟩ := mem_fromIndexedConfig h
  obtain ⟨rule, source, hrule, -, rfl⟩ := compileEntry_eq_some.mp hentry
  exact compilePattern_of_not_catchAll (hitems indexed hindexed) hrule

/-- Saved catch-alls give rules that match everything. -/
theorem matchAll_of_mem_fromIndexedConfig
    (hitems : ∀ indexed ∈ items, isCatchAll indexed.2.ruleType)
    (h : entry ∈ (RuleSet.fromIndexedConfig items).rules) : entry.rule = .matchAll := by
  obtain ⟨indexed, hindexed, hentry⟩ := mem_fromIndexedConfig h
  obtain ⟨rule, source, hrule, -, rfl⟩ := compileEntry_eq_some.mp hentry
  rw [compilePattern_of_catchAll (hitems indexed hindexed)] at hrule
  exact (Option.some.inj hrule).symm

variable {rules : List RoutingRule} {links : List DeviceRuleGroup} {explicit : Bool}

/-- The parts of the rule set in the order in which they are added. -/
theorem ruleMode_rules
    (h : enabledRules rules ≠ []) :
    (ruleModeWithBindings rules links explicit).rules =
      (RuleSet.fromIndexedConfig (rulePart rules true false)).rules ++
        ((tiers rules links explicit).reverse.flatMap fun tier =>
          (RuleSet.fromIndexedConfig tier.2).rules) ++
        builtinRules.map (fun entry => ⟨none, none, entry.rule, entry.action⟩) ++
        ((RuleSet.fromIndexedConfig (rulePart rules true true)).rules ++
          if rulePart rules false true = [] then [⟨none, none, .matchAll, .proxy⟩]
          else (RuleSet.fromIndexedConfig (rulePart rules false true)).rules) := by
  unfold ruleModeWithBindings
  rw [if_neg h]
  simp only [foldl_extend_rules, foldl_addRule_rules]
  split <;> simp [RuleSet.addRule, RuleSet.extend]

/-- The built-in rules go direct, and those in front of the hint are on the endpoint. -/
theorem builtinRules_split : ∃ before after, builtinRules = before ++ hintEntry :: after ∧
    (∀ entry ∈ before, entry.rule.readsEndpoint) ∧
    ∀ entry ∈ after, entry.action = .direct := by
  refine ⟨builtinRules.take 9, builtinRules.drop 10, ?_, ?_, ?_⟩
  · decide +kernel
  · exact all_eq_true.mp (by decide +kernel)
  · have hall : (builtinRules.drop 10).all (fun entry => entry.action == .direct) := by
      decide +kernel
    exact fun entry hentry => eq_of_beq (all_eq_true.mp hall entry hentry)

theorem chinaDirectRuleset_rules :
    chinaDirectRuleset.rules = builtinRules ++ [⟨none, none, .matchAll, .proxy⟩] := by
  decide +kernel

/-- The saved rules that come first are on the name or the endpoint. -/
theorem reads_of_saved
    (h : entry ∈ (RuleSet.fromIndexedConfig (rulePart rules true false)).rules ++
      (tiers rules links explicit).reverse.flatMap fun tier =>
        (RuleSet.fromIndexedConfig tier.2).rules) :
    entry.rule.readsName ∨ entry.rule.readsEndpoint := by
  rcases mem_append.mp h with h | h
  · exact reads_of_mem_fromIndexedConfig (fun _ hindexed => (mem_rulePart.mp hindexed).2.2) h
  obtain ⟨tier, htier, hentry⟩ := mem_flatMap.mp h
  refine reads_of_mem_fromIndexedConfig (fun pushed hpushed => ?_) hentry
  obtain ⟨indexed, hmem, hpush⟩ :=
    mem_tiers.mp ⟨tier.2, mem_reverse.mp htier, hpushed⟩
  -- a link changes the source and the target of a rule, not its type
  rcases mem_tierPushes.mp hpush with ⟨-, -, rfl⟩ | ⟨link, -, -, -, -, rfl⟩
  · exact (mem_rulePart.mp hmem).2.2
  · exact (mem_rulePart.mp hmem).2.2

/-- The rules of the last phases match everything. -/
theorem matchAll_of_final
    (h : entry ∈ (RuleSet.fromIndexedConfig (rulePart rules true true)).rules ++
      if rulePart rules false true = [] then [⟨none, none, .matchAll, .proxy⟩]
      else (RuleSet.fromIndexedConfig (rulePart rules false true)).rules) :
    entry.rule = .matchAll := by
  have hfinal : ∀ {device}, ∀ indexed ∈ rulePart rules device true,
      isCatchAll indexed.2.ruleType :=
    fun _ hindexed => (mem_rulePart.mp hindexed).2.2
  rcases mem_append.mp h with h | h
  · exact matchAll_of_mem_fromIndexedConfig hfinal h
  · split at h
    · rw [mem_singleton.mp h]
    · exact matchAll_of_mem_fromIndexedConfig hfinal h

/-- The rule set of rule mode around the hint: in front of it rules on the name or the endpoint,
behind it no rule on the endpoint that does not go direct. -/
theorem ruleMode_split (rules : List RoutingRule) (links : List DeviceRuleGroup)
    (explicit : Bool) :
    ∃ before after, (ruleModeWithBindings rules links explicit).rules =
        before ++ hintEntry :: after ∧
      (∀ entry ∈ before, entry.rule.readsName ∨ entry.rule.readsEndpoint) ∧
      ∀ entry ∈ after, entry.rule.readsEndpoint → entry.action = .direct := by
  obtain ⟨before, after, hbuiltin, hbefore, hafter⟩ := builtinRules_split
  by_cases henabled : enabledRules rules = []
  · refine ⟨before, after ++ [⟨none, none, .matchAll, .proxy⟩], ?_, ?_, ?_⟩
    · rw [ruleModeWithBindings, if_pos henabled, chinaDirectRuleset_rules, hbuiltin, append_assoc]
      rfl
    · exact fun entry hentry => .inr (hbefore entry hentry)
    · intro entry hentry hreads
      rcases mem_append.mp hentry with hentry | hentry
      · exact hafter entry hentry
      · obtain rfl := mem_singleton.mp hentry
        cases hreads
  · -- the saved rules stand in front of the built-in ones, the catch-alls behind them
    have hmove : ∀ (saved front back finals : List RuleEntry) (entry : RuleEntry),
        saved ++ (front ++ entry :: back) ++ finals =
          (saved ++ front) ++ entry :: (back ++ finals) := by
      simp
    rw [ruleMode_rules henabled, hbuiltin, map_append, map_cons, hmove]
    refine ⟨_, _, rfl, fun entry hentry => ?_, fun entry hentry hreads => ?_⟩
    · rcases mem_append.mp hentry with hentry | hentry
      · exact reads_of_saved hentry
      · obtain ⟨builtin, hmem, rfl⟩ := mem_map.mp hentry
        exact .inr (hbefore builtin hmem)
    · rcases mem_append.mp hentry with hentry | hentry
      · obtain ⟨builtin, hmem, rfl⟩ := mem_map.mp hentry
        exact hafter builtin hmem
      · rw [matchAll_of_final hentry] at hreads
        cases hreads

namespace Router

variable {router : Router} {context : TaskContext} {host : Str} {ip : Option IpAddr} {port : Nat}

/-- The first rule on the destination address or port that applies goes direct, if there is one. -/
def EndpointRulesDirect (router : Router) (context : TaskContext) (host : Str)
    (ip : Option IpAddr) (port : Nat) : Prop :=
  ∀ entry, router.rules.rules.find? (fun entry =>
    entry.rule.readsEndpoint && router.applies context host ip port entry) = some entry →
      entry.action = .direct

/-- When no domain rule was found, none applies. -/
theorem not_applies_of_readsName {domain : Str} (h : router.routeDomainOnly context domain = none)
    {entry : RuleEntry} (hmem : entry ∈ router.rules.rules) (hname : entry.rule.readsName) :
    router.applies context (toLowercase domain) ip port entry = false := by
  unfold routeDomainOnly at h
  have hnone := find?_eq_none.mp (Option.map_eq_none_iff.mp h) entry hmem
  unfold applies
  cases hrule : entry.rule with
  | domain | domainSuffix | domainKeyword => simpa [hrule, ruleMatches] using hnone
  | ipCidr | geoIp | dstPort | matchAll | domesticHint => rw [hrule] at hname; cases hname

/-- If no rule on the name applies, the rules send a domestic destination direct unless a rule on
its address or port decides otherwise. -/
theorem evaluate_direct_iff {before after : List RuleEntry}
    (hrules : router.rules.rules = before ++ hintEntry :: after)
    (hbefore : ∀ entry ∈ before, entry.rule.readsName ∨ entry.rule.readsEndpoint)
    (hafter : ∀ entry ∈ after, entry.rule.readsEndpoint → entry.action = .direct)
    (hhint : context.tunDestination.2)
    (hnames : ∀ entry ∈ router.rules.rules, entry.rule.readsName →
      router.applies context host ip port entry = false) :
    router.evaluate context host ip port = .direct ↔
      router.EndpointRulesDirect context host ip port := by
  have happlies : router.applies context host ip port hintEntry := hhint
  have hfirst : ∀ entry, before.find? (router.applies context host ip port) = some entry →
      before.find? (fun entry =>
        entry.rule.readsEndpoint && router.applies context host ip port entry) = some entry := by
    intro entry hfind
    obtain ⟨hentry, front, back, rfl, hfront⟩ := find?_eq_some_iff_append.mp hfind
    have hmem : entry ∈ front ++ entry :: back := mem_append_right _ mem_cons_self
    refine find?_eq_some_iff_append.mpr ⟨?_, front, back, rfl, fun other hother => ?_⟩
    · have hreads : entry.rule.readsEndpoint := by
        refine (hbefore entry hmem).resolve_left fun hname => ?_
        rw [hnames entry (hrules ▸ mem_append_left _ hmem) hname] at hentry
        cases hentry
      rw [hreads, hentry]
      rfl
    · have hother := hfront other hother
      simp only [Bool.not_eq_true'] at hother
      rw [hother, Bool.and_false]
      rfl
  unfold evaluate EndpointRulesDirect
  rw [hrules, find?_append, find?_append]
  cases hfind : before.find? (router.applies context host ip port) with
  | some entry =>
    -- a rule in front of the hint decides, and it is on the endpoint
    rw [hfirst entry hfind]
    simp
  | none =>
    have hnone : before.find? (fun entry =>
        entry.rule.readsEndpoint && router.applies context host ip port entry) = none := by
      refine find?_eq_none.mpr fun entry hentry => ?_
      have hnot := find?_eq_none.mp hfind entry hentry
      simp only [Bool.not_eq_true] at hnot
      rw [hnot, Bool.and_false]
      exact Bool.false_ne_true
    rw [hnone, find?_cons_of_pos happlies, Option.none_or, Option.none_or,
      find?_cons_of_neg (by simp [hintEntry, MatchRule.readsEndpoint])]
    refine iff_of_true rfl fun entry hentry => ?_
    have hsome := find?_some hentry
    rw [Bool.and_eq_true] at hsome
    exact hafter entry (mem_of_find?_eq_some hentry) hsome.1

end Router

/-! ## The shortcut -/

/-- When the shortcut is taken, the address is that of a domestic name no domain rule matches. -/
theorem forceDirect_cases {addr : IpAddr} {port : Nat} {fakeip : Option Inner} {router : Router}
    {context : TaskContext} {target : DialTarget}
    (h : tunDialTarget addr port fakeip (some router) context = .ok target)
    (hforce : target.forceDirect) :
    ∃ pool domain, fakeip = some pool ∧ fakeIpv4 addr = none ∧
      pool.lookupDomestic addr = some domain ∧ router.routeDomainOnly context domain = none := by
  unfold tunDialTarget at h
  cases fakeip with
  | none =>
    obtain rfl := Except.ok.inj h
    cases hforce
  | some pool =>
    cases hfake : fakeIpv4 addr with
    | some v4 =>
      simp only [hfake] at h
      split at h
      · obtain rfl := Except.ok.inj h
        cases hforce
      · cases h
    | none =>
      simp only [hfake] at h
      split at h
      · rename_i domain hdomain
        obtain rfl := Except.ok.inj h
        unfold domesticTarget at hforce
        simp only at hforce
        split at hforce
        · cases hforce
        split at hforce
        · cases hforce
        · rename_i hnone
          exact ⟨pool, domain, rfl, rfl, hdomain, hnone⟩
      · obtain rfl := Except.ok.inj h
        cases hforce

/-- A connection is dialed past the rules only for an address answered for a domestic name, and
what the rules decide for it is the direct dial exactly if the first rule on its address or port
that applies goes direct. An address of the fake range is dialed as its name or refused. -/
theorem tunDialTarget_rules (rules : List RoutingRule) (links : List DeviceRuleGroup)
    (explicit : Bool) (geoip : Option GeoIpDb) (fakeip : Option Inner) (client addr : IpAddr)
    (port : Nat) :
    (∀ target, tunDialTarget addr port fakeip
        (some ⟨ruleModeWithBindings rules links explicit, geoip⟩)
        (tunContext fakeip client addr) = .ok target → target.forceDirect = true →
      ∃ pool domain, fakeip = some pool ∧ pool.lookupDomestic addr = some domain ∧
        (tunContext fakeip client addr).tunDestination = (some addr, true) ∧
        (Router.evaluate ⟨ruleModeWithBindings rules links explicit, geoip⟩
            (tunContext fakeip client addr) (toLowercase domain) (some addr) port = .direct ↔
          Router.EndpointRulesDirect ⟨ruleModeWithBindings rules links explicit, geoip⟩
            (tunContext fakeip client addr) (toLowercase domain) (some addr) port)) ∧
    ∀ pool v4 router context, fakeip = some pool → fakeIpv4 addr = some v4 →
      (∃ domain, pool.lookup v4 = some domain ∧
        tunDialTarget addr port fakeip router context = .ok ⟨domain, port, false⟩) ∨
      ∃ message, tunDialTarget addr port fakeip router context = .error message := by
  refine ⟨fun target htarget hforce => ?_, fun pool v4 router context hpool hfake => ?_⟩
  · obtain ⟨pool, domain, rfl, hfake, hdomain, hnone⟩ := forceDirect_cases htarget hforce
    have hcontext : (tunContext (some pool) client addr).tunDestination = (some addr, true) := by
      unfold tunContext TaskContext.withClientSource
      simp [hfake, hdomain]
    obtain ⟨before, after, hrules, hbefore, hafter⟩ := ruleMode_split rules links explicit
    refine ⟨pool, domain, rfl, hdomain, hcontext, ?_⟩
    refine Router.evaluate_direct_iff hrules hbefore hafter (by rw [hcontext]) ?_
    exact fun entry hmem hname => Router.not_applies_of_readsName hnone hmem hname
  · unfold tunDialTarget
    subst hpool
    simp only [hfake]
    cases pool.lookup v4 with
    | some domain => exact .inl ⟨domain, rfl, rfl⟩
    | none => exact .inr ⟨_, rfl⟩

/-- A rule that rejects port 443 is passed by for an address answered for a domestic name. -/
theorem tunDialTarget_rejected_port :
    tunDialTarget (.v4 0xCB007105#32) 443
        (some (Inner.new.recordDomestic (.v4 0xCB007105#32) "example.com".toList))
        (some ⟨ruleModeWithBindings
          [⟨[], [], [], "dst-port".toList, "443".toList, "reject".toList, true, 0⟩] [] false, none⟩)
        (tunContext (some (Inner.new.recordDomestic (.v4 0xCB007105#32) "example.com".toList))
          (.v4 0xC0A83202#32) (.v4 0xCB007105#32)) =
      .ok ⟨"203.0.113.5".toList, 443, true⟩ ∧
    Router.evaluate ⟨ruleModeWithBindings
          [⟨[], [], [], "dst-port".toList, "443".toList, "reject".toList, true, 0⟩] [] false, none⟩
        (tunContext (some (Inner.new.recordDomestic (.v4 0xCB007105#32) "example.com".toList))
          (.v4 0xC0A83202#32) (.v4 0xCB007105#32))
        "example.com".toList (some (.v4 0xCB007105#32)) 443 = .reject := by
  decide +kernel

end Sockrocket
