import Sockrocket.Router.Engine

/-!
# Explaining a routing decision

`router::engine::trace`: the walk over the rules that reports each step, with runs of built-in misses
summarised and at most 256 steps shown besides the match. `Tracer.visit` is one turn of the loop.

Two properties of the walk carry the results. Its outcome is that of `Router.evaluate` for the address
it ends up with (`action_traceLoop`), and its counters balance (`Balanced`).
-/

namespace Sockrocket

open Rust List

/-- What happened to one rule. -/
inductive TraceOutcome where
  | sourceMismatch
  | needsIp
  | matched
  | notMatched
deriving DecidableEq, Repr

/-- Where the destination address of a trace came from. -/
inductive DnsStatus where
  | literal
  | provided
  | notNeeded
  | resolved
  | failed
  | skipped
deriving DecidableEq, Repr

/-- One reported step. -/
structure RouteTraceStep where
  configIndex : Option Nat
  ruleType : Str
  pattern : Str
  source : Option Str
  action : RouteAction
  outcome : TraceOutcome
  checked : Nat
deriving DecidableEq, Repr

/-- The report of a walk over the rules. -/
structure RouteTrace where
  action : RouteAction
  matchedRule : Option Nat
  matchedBuiltin : Bool
  resolvedIp : Option IpAddr
  dns : DnsStatus
  definitive : Bool
  steps : List RouteTraceStep
  omittedSteps : Nat
  checkedRules : Nat
deriving DecidableEq, Repr

namespace RouteTrace

/-- `push_builtin`: one step for a run of built-in misses. -/
def pushBuiltin (trace : RouteTrace) (checked : Nat) (needsIp : Bool) : RouteTrace :=
  if trace.steps.length < 256 then
    { trace with steps := trace.steps ++
        [⟨none, "builtin".toList, [], none, .direct, if needsIp then .needsIp else .notMatched, checked⟩] }
  else { trace with omittedSteps := trace.omittedSteps + checked }

end RouteTrace

/-- The type and the pattern under which a rule is shown. -/
def MatchRule.describe : MatchRule → Str × Str
  | .domain p => ("domain".toList, p)
  | .domainSuffix p => ("domain-suffix".toList, trimStartMatches '.' p)
  | .domainKeyword p => ("domain-keyword".toList, p)
  | .ipCidr addr prefixLen => ("ip-cidr".toList, displayCidr addr prefixLen)
  | .geoIp p => ("geoip".toList, p)
  | .dstPort min max =>
    ("dst-port".toList,
      if min = max then decimal min else decimal min ++ "-".toList ++ decimal max)
  | .matchAll => ("final".toList, "*".toList)
  | .domesticHint => ("domestic-hint".toList, [])

/-- `step`: the report of one rule. -/
def traceStep (entry : RuleEntry) (outcome : TraceOutcome) : RouteTraceStep where
  configIndex := entry.configIndex
  ruleType := entry.rule.describe.1
  pattern := entry.rule.describe.2
  source := entry.source.map fun (ip, bits) => displayCidr ip bits
  action := entry.action
  outcome := outcome
  checked := 1

/-- What stays fixed during a walk: the router, the ambient task context, the request, and the answer
of DNS. -/
structure TraceRequest where
  router : Router
  context : TaskContext
  hostLower : Str
  port : Nat
  source : Option IpAddr
  resolveDns : Bool
  resolve : Str → Option IpAddr

/-- The variables of the walk. -/
structure Tracer where
  trace : RouteTrace
  ip : Option IpAddr
  attempted : Bool
  builtinMisses : Nat
  builtinNeedsIp : Bool

namespace Tracer

/-- Resolve the host before the first rule in scope that needs an address. -/
def lookup (request : TraceRequest) (entry : RuleEntry) (s : Tracer) : Tracer :=
  if sourceMatches entry.source request.source && entry.rule.needsIp && !s.attempted then
    if request.resolveDns then
      let ip := request.resolve request.hostLower
      { s with
        attempted := true
        ip := ip
        trace := { s.trace with
          resolvedIp := ip, dns := if ip.isSome then .resolved else .failed } }
    else { s with attempted := true, trace := { s.trace with dns := .skipped } }
  else s

/-- The outcome of a rule for the address known so far. -/
def outcome (request : TraceRequest) (entry : RuleEntry) (ip : Option IpAddr) : TraceOutcome :=
  if !sourceMatches entry.source request.source then .sourceMismatch
  else if entry.rule.needsIp && ip.isNone then .needsIp
  else if entry.rule ≠ .domesticHint ∧
      request.router.ruleMatches request.context entry.rule request.hostLower ip request.port then
    .matched
  else .notMatched

/-- Report a pending run of built-in misses. -/
def flushBuiltin (s : Tracer) : Tracer :=
  if 0 < s.builtinMisses then
    { s with
      trace := s.trace.pushBuiltin s.builtinMisses s.builtinNeedsIp
      builtinMisses := 0
      builtinNeedsIp := false }
  else s

/-- Report one rule, within the display limit or as the match. -/
def pushStep (entry : RuleEntry) (result : TraceOutcome) (s : Tracer) : Tracer :=
  if s.trace.steps.length < 256 ∨ result = .matched then
    { s with trace := { s.trace with steps := s.trace.steps ++ [traceStep entry result] } }
  else { s with trace := { s.trace with omittedSteps := s.trace.omittedSteps + 1 } }

/-- Count a rule whose outcome is known. -/
def note (result : TraceOutcome) (s : Tracer) : Tracer :=
  { s with trace := { s.trace with
      definitive := s.trace.definitive && result != .needsIp
      checkedRules := s.trace.checkedRules + 1 } }

/-- Account for a rule: a built-in miss joins the current run, anything else is reported. -/
def report (entry : RuleEntry) (result : TraceOutcome) (s : Tracer) : Tracer :=
  if entry.configIndex.isNone && result != .matched then
    { s with
      builtinMisses := s.builtinMisses + 1
      builtinNeedsIp := s.builtinNeedsIp || result == .needsIp }
  else
    let s := pushStep entry result s.flushBuiltin
    if result = .matched then
      { s with trace := { s.trace with
          action := entry.action
          matchedRule := entry.configIndex
          matchedBuiltin := entry.configIndex.isNone } }
    else s

/-- One turn of the loop: the outcome of the rule, and the variables afterwards. -/
def visit (request : TraceRequest) (entry : RuleEntry) (s : Tracer) : TraceOutcome × Tracer :=
  let s := s.lookup request entry
  let result := outcome request entry s.ip
  (result, (s.note result).report entry result)

/-- The loop over the rules, left at the first match. -/
def traceLoop (request : TraceRequest) : List RuleEntry → Tracer → Tracer
  | [], s => s
  | entry :: rest, s =>
    let (result, s) := s.visit request entry
    if result = .matched then s else traceLoop request rest s

end Tracer

/-- The variables at the start of a walk. -/
def Tracer.start (router : Router) (literal destinationIp : Option IpAddr) : Tracer where
  trace :=
    { action := router.rules.defaultAction
      matchedRule := none
      matchedBuiltin := false
      resolvedIp := literal.or destinationIp
      dns := if literal.isSome then .literal
        else if (literal.or destinationIp).isSome then .provided else .notNeeded
      definitive := true
      steps := []
      omittedSteps := 0
      checkedRules := 0 }
  ip := literal.or destinationIp
  attempted := (literal.or destinationIp).isSome
  builtinMisses := 0
  builtinNeedsIp := false

/-- The request of a trace: the host in lower case and the client in canonical form. -/
def Router.traceRequest (router : Router) (context : TaskContext) (resolve : Str → Option IpAddr)
    (host : Str) (port : Nat) (source : Option IpAddr) (resolveDns : Bool) : TraceRequest :=
  ⟨router, context, toLowercase host, port, source.map canonicalIp, resolveDns, resolve⟩

/-- `Router::trace_route`, with the answers DNS gives. -/
def Router.traceRoute (router : Router) (context : TaskContext) (resolve : Str → Option IpAddr)
    (host : Str) (port : Nat) (source destinationIp : Option IpAddr) (resolveDns : Bool) :
    RouteTrace :=
  (Tracer.traceLoop (router.traceRequest context resolve host port source resolveDns)
    router.rules.rules (Tracer.start router (parseIp host) destinationIp)).flushBuiltin.trace

/-! ## The decision of a walk -/

namespace Router

variable {router : Router} {hostLower : Str} {ip : Option IpAddr} {port : Nat}

variable {rule : MatchRule}

/-- Only the domestic hint reads the task context. -/
theorem ruleMatches_context (h : rule ≠ .domesticHint)
    (context context' : TaskContext) :
    router.ruleMatches context rule hostLower ip port =
      router.ruleMatches context' rule hostLower ip port := by
  cases rule with
  | domesticHint => exact absurd rfl h
  | domain | domainSuffix | domainKeyword | ipCidr | geoIp | dstPort | matchAll => rfl

/-- A rule that needs an address does not match without one. -/
theorem ruleMatches_none (h : rule.needsIp) (context : TaskContext) :
    router.ruleMatches context rule hostLower none port = false := by
  cases rule with
  | ipCidr | geoIp => rfl
  | domain | domainSuffix | domainKeyword | dstPort | matchAll | domesticHint => cases h

end Router

namespace Tracer

variable (request : TraceRequest) (entry : RuleEntry) {s : Tracer}

/-- The address the walk uses: the one it has, or the one it will ask for. -/
def eventualIp (request : TraceRequest) (s : Tracer) : Option IpAddr :=
  if s.attempted then s.ip
  else if request.resolveDns then request.resolve request.hostLower
  else none

/-- No address is known before the lookup. -/
def WellTimed (s : Tracer) : Prop :=
  s.attempted = false → s.ip = none

/-- The lookup does not change which address the walk uses, and a rule in scope that needs an address
is judged by it. -/
theorem lookup_spec (h : WellTimed s) :
    WellTimed (s.lookup request entry) ∧
      eventualIp request (s.lookup request entry) = eventualIp request s ∧
      (sourceMatches entry.source request.source → entry.rule.needsIp →
        (s.lookup request entry).ip = eventualIp request s) := by
  unfold lookup
  split
  · rename_i hlookup
    simp only [Bool.and_eq_true, Bool.not_eq_true'] at hlookup
    have hip := h hlookup.2
    cases hdns : request.resolveDns with
    | true => simp [WellTimed, eventualIp, hlookup.2, hdns]
    | false => simp [WellTimed, eventualIp, hlookup.2, hdns, hip]
  · rename_i hno
    refine ⟨h, rfl, fun hsource hneeds => ?_⟩
    have hattempted : s.attempted := by simpa [hsource, hneeds] using hno
    simp [eventualIp, hattempted]

/-- A rule is reported as the match exactly if it applies to the connection without a domestic
hint. -/
theorem outcome_eq_matched (h : WellTimed s) (destination : Option IpAddr) :
    outcome request entry (s.lookup request entry).ip = .matched ↔
      request.router.applies ⟨request.source, (destination, false)⟩ request.hostLower
        (eventualIp request s) request.port entry := by
  obtain ⟨-, -, hip⟩ := lookup_spec request entry h
  unfold outcome Router.applies
  cases hsource : sourceMatches entry.source request.source with
  | false => simp
  | true =>
    by_cases hhint : entry.rule = .domesticHint
    · simp [hhint, MatchRule.needsIp, Router.ruleMatches]
    cases hneeds : entry.rule.needsIp with
    | false =>
      rw [Router.ruleMatches_context hhint request.context ⟨request.source, (destination, false)⟩,
        Router.ruleMatches_of_not_needsIp hneeds (s.lookup request entry).ip
          (eventualIp request s)]
      simp [hhint]
    | true =>
      rw [hip hsource hneeds]
      cases heventual : eventualIp request s with
      | none => simp [Router.ruleMatches_none hneeds]
      | some ip =>
        rw [Router.ruleMatches_context hhint request.context
          ⟨request.source, (destination, false)⟩]
        simp [hhint]

/-- Reporting a run of misses changes the list of steps and its counters only. -/
theorem flushBuiltin_frame (s : Tracer) :
    s.flushBuiltin.ip = s.ip ∧ s.flushBuiltin.attempted = s.attempted ∧
      s.flushBuiltin.trace.definitive = s.trace.definitive ∧
      s.flushBuiltin.trace.action = s.trace.action ∧
      s.flushBuiltin.trace.matchedRule = s.trace.matchedRule ∧
      s.flushBuiltin.trace.matchedBuiltin = s.trace.matchedBuiltin ∧
      s.flushBuiltin.trace.checkedRules = s.trace.checkedRules := by
  unfold flushBuiltin RouteTrace.pushBuiltin
  split
  · split <;> exact ⟨rfl, rfl, rfl, rfl, rfl, rfl, rfl⟩
  · exact ⟨rfl, rfl, rfl, rfl, rfl, rfl, rfl⟩

/-- What accounting for a rule does to the decision. -/
theorem report_frame (entry : RuleEntry) (result : TraceOutcome) (s : Tracer) :
    (s.report entry result).ip = s.ip ∧ (s.report entry result).attempted = s.attempted ∧
      (s.report entry result).trace.definitive = s.trace.definitive ∧
      (s.report entry result).trace.action =
        if result = .matched then entry.action else s.trace.action := by
  obtain ⟨hip, hattempted, hdefinitive, haction, -⟩ := flushBuiltin_frame s
  unfold report
  split
  · rename_i hmiss
    have hne : result ≠ .matched := by
      rintro rfl
      simp at hmiss
    exact ⟨rfl, rfl, rfl, by simp [hne]⟩
  · unfold pushStep
    by_cases hmatched : result = .matched
    · simp [hmatched, hip, hattempted, hdefinitive]
    · simp only [hmatched, or_false, if_false]
      split <;> exact ⟨hip, hattempted, hdefinitive, haction⟩

/-- The address, the certainty and the action after one turn of the loop. -/
theorem visit_frame (request : TraceRequest) (entry : RuleEntry) (s : Tracer) :
    (s.visit request entry).1 = outcome request entry (s.lookup request entry).ip ∧
      (s.visit request entry).2.ip = (s.lookup request entry).ip ∧
      (s.visit request entry).2.attempted = (s.lookup request entry).attempted ∧
      (s.visit request entry).2.trace.definitive =
        (s.trace.definitive && (s.visit request entry).1 != .needsIp) ∧
      (s.visit request entry).2.trace.action =
        if (s.visit request entry).1 = .matched then entry.action else s.trace.action := by
  have hlookup : (s.lookup request entry).trace.definitive = s.trace.definitive ∧
      (s.lookup request entry).trace.action = s.trace.action := by
    unfold lookup
    split
    · split <;> exact ⟨rfl, rfl⟩
    · exact ⟨rfl, rfl⟩
  obtain ⟨hip, hattempted, hdefinitive, haction⟩ := report_frame entry
    (outcome request entry (s.lookup request entry).ip)
    ((s.lookup request entry).note (outcome request entry (s.lookup request entry).ip))
  refine ⟨rfl, hip, hattempted, ?_, ?_⟩
  · rw [← hlookup.1]
    exact hdefinitive
  · rw [← hlookup.2]
    exact haction

theorem visit_wellTimed (h : WellTimed s) : WellTimed (s.visit request entry).2 ∧
    eventualIp request (s.visit request entry).2 = eventualIp request s := by
  obtain ⟨htimed, heventual, -⟩ := lookup_spec request entry h
  obtain ⟨-, hip, hattempted, -⟩ := visit_frame request entry s
  unfold WellTimed eventualIp at *
  rw [hip, hattempted]
  exact ⟨htimed, heventual⟩

/-- The walk ends with the action of the first rule that applies with the address it uses. -/
theorem action_traceLoop (destination : Option IpAddr) (entries : List RuleEntry)
    (h : WellTimed s) :
    (traceLoop request entries s).trace.action =
      match entries.find? (request.router.applies ⟨request.source, (destination, false)⟩
        request.hostLower (eventualIp request s) request.port) with
      | some entry => entry.action
      | none => s.trace.action := by
  induction entries generalizing s with
  | nil => rfl
  | cons entry rest ih =>
    obtain ⟨hresult, -, -, -, haction⟩ := visit_frame request entry s
    obtain ⟨htimed, heventual⟩ := visit_wellTimed request entry h
    have hmatched := outcome_eq_matched request entry h destination
    rw [← hresult] at hmatched
    rw [traceLoop, find?_cons]
    by_cases hcase : (s.visit request entry).1 = .matched
    · rw [if_pos hcase] at haction
      simp [hcase, hmatched.mp hcase, haction]
    rw [if_neg hcase] at haction
    have happlies := Bool.eq_false_iff.mpr (mt hmatched.mpr hcase)
    simp only [hcase, happlies, if_false]
    rw [ih htimed, heventual, haction]

/-- A rule that was judged without an address is judged the same way with any address. -/
theorem applies_of_ne_needsIp (h : WellTimed s) (hnone : eventualIp request s = none)
    (hne : outcome request entry (s.lookup request entry).ip ≠ .needsIp)
    (destination ip : Option IpAddr) :
    request.router.applies ⟨request.source, (destination, false)⟩ request.hostLower none
        request.port entry =
      request.router.applies ⟨request.source, (destination, false)⟩ request.hostLower ip
        request.port entry := by
  obtain ⟨-, -, hip⟩ := lookup_spec request entry h
  unfold Router.applies
  cases hsource : sourceMatches entry.source request.source with
  | false => rfl
  | true =>
    cases hneeds : entry.rule.needsIp with
    | false => rw [Router.ruleMatches_of_not_needsIp hneeds none ip]
    | true =>
      refine absurd ?_ hne
      rw [hip hsource hneeds, hnone]
      simp [outcome, hsource, hneeds]

/-- A walk without an address that ends definitive would have gone the same way with any address. -/
theorem definitive_traceLoop (destination : Option IpAddr) (entries : List RuleEntry)
    (h : WellTimed s) (hdefinitive : (traceLoop request entries s).trace.definitive) :
    s.trace.definitive ∧ (eventualIp request s = none → ∀ ip,
      entries.find? (request.router.applies ⟨request.source, (destination, false)⟩
        request.hostLower none request.port) =
      entries.find? (request.router.applies ⟨request.source, (destination, false)⟩
        request.hostLower ip request.port)) := by
  induction entries generalizing s with
  | nil => exact ⟨hdefinitive, fun _ _ => rfl⟩
  | cons entry rest ih =>
    obtain ⟨hresult, -, -, hcertain, -⟩ := visit_frame request entry s
    obtain ⟨htimed, heventual⟩ := visit_wellTimed request entry h
    have hmatched := outcome_eq_matched request entry h destination
    have hsame := applies_of_ne_needsIp request entry h
    rw [← hresult] at hmatched hsame
    rw [traceLoop] at hdefinitive
    by_cases hcase : (s.visit request entry).1 = .matched
    · simp only [hcase, if_true] at hdefinitive hcertain hsame
      rw [hdefinitive] at hcertain
      refine ⟨by simpa using hcertain.symm, fun hnone ip => ?_⟩
      have happlies := hmatched.mp hcase
      rw [hnone] at happlies
      rw [find?_cons_of_pos happlies,
        find?_cons_of_pos (hsame hnone (by decide) destination ip ▸ happlies)]
    · simp only [hcase, if_false] at hdefinitive
      obtain ⟨hvisited, hrest⟩ := ih htimed hdefinitive
      rw [hvisited] at hcertain
      simp only [Bool.true_eq, Bool.and_eq_true, bne_iff_ne, ne_eq] at hcertain
      refine ⟨hcertain.1, fun hnone ip => ?_⟩
      rw [find?_cons, find?_cons, hsame hnone hcertain.2 destination ip,
        hrest (heventual.trans hnone) ip]

/-! ## The counters of a walk -/

/-- The steps shown and the steps left out account for every rule checked, apart from the run of
built-in misses that is still open. -/
def Balanced (s : Tracer) : Prop :=
  (s.trace.steps.map RouteTraceStep.checked).sum + s.trace.omittedSteps + s.builtinMisses =
    s.trace.checkedRules

/-- No rule has matched yet, and the display limit is kept. -/
structure Searching (s : Tracer) : Prop where
  steps_le : s.trace.steps.length ≤ 256
  matchedRule : s.trace.matchedRule = none
  matchedBuiltin : s.trace.matchedBuiltin = false

/-- A rule of the list has matched, and it is the last step. -/
structure Found (entry : RuleEntry) (s : Tracer) : Prop where
  steps_le : s.trace.steps.length ≤ 257
  last : s.trace.steps.getLast? = some (traceStep entry .matched)
  matchedRule : s.trace.matchedRule = entry.configIndex
  matchedBuiltin : s.trace.matchedBuiltin = entry.configIndex.isNone
  action : s.trace.action = entry.action
  builtinMisses : s.builtinMisses = 0

theorem flushBuiltin_balanced (h : Balanced s) :
    Balanced s.flushBuiltin ∧ s.flushBuiltin.builtinMisses = 0 := by
  unfold Balanced at h
  unfold flushBuiltin RouteTrace.pushBuiltin
  split
  · refine ⟨?_, rfl⟩
    unfold Balanced
    split
    · simp only [map_append, sum_append, map_cons, map_nil, sum_singleton]
      omega
    · simp only
      omega
  · exact ⟨h, by omega⟩

theorem flushBuiltin_of_zero (h : s.builtinMisses = 0) : s.flushBuiltin = s :=
  if_neg (by omega)

theorem flushBuiltin_searching (h : Searching s) : Searching s.flushBuiltin := by
  obtain ⟨-, -, -, -, hrule, hbuiltin, -⟩ := flushBuiltin_frame s
  refine ⟨?_, hrule.trans h.matchedRule, hbuiltin.trans h.matchedBuiltin⟩
  have hle := h.steps_le
  unfold flushBuiltin RouteTrace.pushBuiltin
  split
  · split
    · simp only [length_append, length_singleton]
      omega
    · exact hle
  · exact hle

theorem lookup_counters (request : TraceRequest) (entry : RuleEntry) (s : Tracer) :
    (Balanced s → Balanced (s.lookup request entry)) ∧
      (Searching s → Searching (s.lookup request entry)) := by
  unfold lookup
  split
  · split <;> exact ⟨id, fun ⟨hle, hrule, hbuiltin⟩ => ⟨hle, hrule, hbuiltin⟩⟩
  · exact ⟨id, id⟩

/-- Counting a rule and reporting earlier misses do not interfere. -/
theorem flushBuiltin_note (result : TraceOutcome) (s : Tracer) :
    (s.note result).flushBuiltin = s.flushBuiltin.note result := by
  unfold flushBuiltin note RouteTrace.pushBuiltin
  split
  · split <;> rfl
  · rfl

theorem pushStep_balanced (entry : RuleEntry) (result : TraceOutcome) (h : Balanced s) :
    Balanced (pushStep entry result (s.note result)) := by
  unfold Balanced at h
  unfold pushStep note Balanced
  split
  · simp only [map_append, sum_append, map_cons, map_nil, sum_singleton]
    show _ + 1 + _ + _ = _
    omega
  · simp only
    omega

/-- Accounting for a rule keeps the balance, and tells whether the search goes on. -/
theorem report_counters {result : TraceOutcome} (hbalanced : Balanced s) (hsearching : Searching s) :
    Balanced ((s.note result).report entry result) ∧
      (result ≠ .matched → Searching ((s.note result).report entry result)) ∧
      (result = .matched → Found entry ((s.note result).report entry result)) := by
  unfold report
  split
  · rename_i hmiss
    refine ⟨?_, fun _ => ⟨hsearching.1, hsearching.2, hsearching.3⟩, ?_⟩
    · unfold Balanced at hbalanced
      show (s.trace.steps.map RouteTraceStep.checked).sum + s.trace.omittedSteps +
        (s.builtinMisses + 1) = s.trace.checkedRules + 1
      omega
    · rintro rfl
      simp at hmiss
  · rw [flushBuiltin_note]
    obtain ⟨hflushed, hmisses⟩ := flushBuiltin_balanced hbalanced
    obtain ⟨hle, hrule, hbuiltin⟩ := flushBuiltin_searching hsearching
    have hpushed := pushStep_balanced entry result hflushed
    by_cases hmatched : result = .matched
    · subst hmatched
      refine ⟨hpushed, fun h => absurd rfl h, fun _ => ⟨?_, ?_, rfl, rfl, rfl, ?_⟩⟩
      · simp only [if_true, pushStep, or_true, length_append, length_singleton]
        exact Nat.succ_le_succ hle
      · simp [pushStep]
      · simpa [pushStep, note] using hmisses
    · simp only [hmatched, if_false]
      refine ⟨hpushed, fun _ => ?_, fun h => h.elim⟩
      unfold pushStep
      split
      · rename_i hlimit
        have hlt := hlimit.resolve_right hmatched
        refine ⟨?_, hrule, hbuiltin⟩
        simp only [length_append, length_singleton]
        exact hlt
      · exact ⟨hle, hrule, hbuiltin⟩

/-- One turn of the loop keeps the balance. -/
theorem visit_counters (hbalanced : Balanced s) (hsearching : Searching s) :
    Balanced (s.visit request entry).2 ∧
      ((s.visit request entry).1 ≠ .matched → Searching (s.visit request entry).2) ∧
      ((s.visit request entry).1 = .matched → Found entry (s.visit request entry).2) := by
  obtain ⟨hkeep, hkeep'⟩ := lookup_counters request entry s
  exact report_counters entry (hkeep hbalanced) (hkeep' hsearching)

/-- The walk keeps the balance, and ends either searching or with a match as its last step. -/
theorem traceLoop_counters (entries : List RuleEntry) (hbalanced : Balanced s)
    (hsearching : Searching s) :
    Balanced (traceLoop request entries s) ∧
      (Searching (traceLoop request entries s) ∨
        ∃ entry ∈ entries, Found entry (traceLoop request entries s)) := by
  induction entries generalizing s with
  | nil => exact ⟨hbalanced, .inl hsearching⟩
  | cons entry rest ih =>
    obtain ⟨hvisit, hsearch, hfound⟩ :=
      visit_counters request entry hbalanced hsearching
    rw [traceLoop]
    by_cases hcase : (s.visit request entry).1 = .matched
    · simp only [hcase, if_true]
      exact ⟨hvisit, .inr ⟨entry, by simp, hfound hcase⟩⟩
    simp only [hcase, if_false]
    obtain ⟨hrest, hend⟩ := ih hvisit (hsearch hcase)
    refine ⟨hrest, hend.imp id ?_⟩
    rintro ⟨entry', hmem, hfound'⟩
    exact ⟨entry', by simp [hmem], hfound'⟩

end Tracer

/-- A report accounts for every rule that was checked, keeps the display limit, and ends with the
match if there was one. -/
structure RouteTrace.Accounted (rules : List RuleEntry) (trace : RouteTrace) : Prop where
  checked : (trace.steps.map RouteTraceStep.checked).sum + trace.omittedSteps = trace.checkedRules
  steps_le : trace.steps.length ≤ 257
  last : trace.matchedRule.isSome = true ∨ trace.matchedBuiltin = true →
    ∃ entry ∈ rules, trace.steps.getLast? = some (traceStep entry .matched) ∧
      trace.matchedRule = entry.configIndex ∧ trace.action = entry.action

namespace Router

/-- The address a walk uses: a literal or given address, else the answer of DNS if it may ask. -/
theorem eventualIp_start (request : TraceRequest) (router : Router)
    (literal destinationIp : Option IpAddr) :
    Tracer.eventualIp request (Tracer.start router literal destinationIp) =
      (literal.or destinationIp).or
        (if request.resolveDns then request.resolve request.hostLower else none) := by
  unfold Tracer.eventualIp Tracer.start
  cases literal.or destinationIp <;> simp

theorem wellTimed_start (router : Router) (literal destinationIp : Option IpAddr) :
    Tracer.WellTimed (Tracer.start router literal destinationIp) := by
  intro h
  simpa [Tracer.start] using h

/-- The context of the connection that a trace explains. -/
def tracedContext (source destinationIp : Option IpAddr) : TaskContext :=
  ⟨source.map canonicalIp, (destinationIp, false)⟩

theorem traceRoute_action (router : Router) (context : TaskContext) (resolve : Str → Option IpAddr)
    (host : Str) (port : Nat) (source destinationIp : Option IpAddr) (resolveDns : Bool) :
    (router.traceRoute context resolve host port source destinationIp resolveDns).action =
      router.evaluate (tracedContext source destinationIp) (toLowercase host)
        ((knownIp (tracedContext source destinationIp) host).or
          (if resolveDns then resolve (toLowercase host) else none)) port := by
  unfold traceRoute evaluate
  rw [(Tracer.flushBuiltin_frame _).2.2.2.1,
    Tracer.action_traceLoop _ destinationIp _ (wellTimed_start _ _ _),
    eventualIp_start]
  rfl

theorem traceRoute_accounted (router : Router) (context : TaskContext)
    (resolve : Str → Option IpAddr) (host : Str) (port : Nat) (source destinationIp : Option IpAddr)
    (resolveDns : Bool) :
    (router.traceRoute context resolve host port source destinationIp resolveDns).Accounted
      router.rules.rules := by
  have hzero : (Tracer.start router (parseIp host) destinationIp).Balanced := rfl
  have hstart : (Tracer.start router (parseIp host) destinationIp).Searching :=
    ⟨Nat.zero_le _, rfl, rfl⟩
  obtain ⟨hbalanced, hend⟩ := Tracer.traceLoop_counters
    (router.traceRequest context resolve host port source resolveDns) router.rules.rules hzero hstart
  obtain ⟨hflushed, hmisses⟩ := Tracer.flushBuiltin_balanced hbalanced
  have hsum := hflushed
  unfold Tracer.Balanced at hsum
  rw [hmisses, add_zero] at hsum
  rcases hend with hsearching | ⟨entry, hmem, hfound⟩
  · obtain ⟨hle, hrule, hbuiltin⟩ := Tracer.flushBuiltin_searching hsearching
    refine ⟨hsum, hle.trans (by decide), fun hmatched => ?_⟩
    rw [traceRoute, hrule, hbuiltin] at hmatched
    simp at hmatched
  · -- the run of misses was reported with the match, so nothing is left to report
    unfold traceRoute
    rw [Tracer.flushBuiltin_of_zero hfound.builtinMisses] at hsum ⊢
    exact ⟨hsum, hfound.steps_le, fun _ => ⟨entry, hmem, hfound.last, hfound.matchedRule,
      hfound.action⟩⟩

/-- A trace reports the decision of the live evaluator, accounts for every rule it checked, and ends
with the match. Without DNS, a trace that calls itself definitive holds for every DNS answer. -/
theorem traceRoute_agrees (router : Router) (context : TaskContext)
    (resolve : Str → Option IpAddr) (host : Str) (port : Nat) (source destinationIp : Option IpAddr) :
    (router.traceRoute context resolve host port source destinationIp true).action =
        router.routeUncachedResolving (tracedContext source destinationIp) resolve host port ∧
      ((router.traceRoute context resolve host port source destinationIp false).definitive = true →
        ∀ answer : Str → Option IpAddr,
          router.routeUncachedResolving (tracedContext source destinationIp) answer host port =
            (router.traceRoute context resolve host port source destinationIp false).action) ∧
      ∀ resolveDns, (router.traceRoute context resolve host port source destinationIp
        resolveDns).Accounted router.rules.rules := by
  refine ⟨?_, fun hdefinitive answer => ?_, fun resolveDns =>
    traceRoute_accounted router context resolve host port source destinationIp resolveDns⟩
  · rw [traceRoute_action, routeUncachedResolving_eq, if_pos rfl]
  · rw [traceRoute_action, routeUncachedResolving_eq]
    cases hknown : knownIp (tracedContext source destinationIp) host with
    | some ip => rfl
    | none =>
      rw [traceRoute, (Tracer.flushBuiltin_frame _).2.2.1] at hdefinitive
      obtain ⟨-, hsame⟩ := Tracer.definitive_traceLoop _ destinationIp _
        (wellTimed_start _ _ _) hdefinitive
      rw [eventualIp_start] at hsame
      have hfind := hsame (by simpa [knownIp, tracedContext, traceRequest] using hknown)
        (answer (toLowercase host))
      unfold evaluate
      rw [Option.none_or, Option.none_or, if_neg (by decide)]
      exact (congrArg (fun found => match found with
        | some entry => entry.action
        | none => router.rules.defaultAction) hfind).symm

/-- A domain rule in front of a GeoIP rule decides without DNS, and the trace says so. -/
theorem traceRoute_agrees_domain :
    let router : Router := ⟨⟨[⟨some 0, none, .domain "example.com".toList, .reject⟩,
      ⟨some 1, none, .geoIp "CN".toList, .direct⟩], .proxy⟩, none⟩
    let trace := router.traceRoute ⟨none, (none, false)⟩ (fun _ => none) "Example.com".toList 443
      none none false
    trace.definitive = true ∧ trace.action = .reject ∧ ∀ answer : Str → Option IpAddr,
      router.routeUncachedResolving (tracedContext none none) answer "Example.com".toList 443 =
        trace.action := by
  intro router trace
  have hdefinitive : trace.definitive = true := by decide
  have haction : trace.action = .reject := by decide
  exact ⟨hdefinitive, haction, (traceRoute_agrees router ⟨none, (none, false)⟩ (fun _ => none)
    "Example.com".toList 443 none none).2.1 hdefinitive⟩

end Router

end Sockrocket
