import Sockrocket.Lib.StableSort
import Sockrocket.Rust.Net

/-!
# Routing rules and their compilation

Saved routing rules (`config::model::RoutingRule`), their validation, and the compiled rule set of
`router::engine`. `RuleSet.fromIndexedConfig` sorts enabled rules by priority and compiles each one
with `compileEntry`; a rule that does not compile is left out.
-/

namespace Sockrocket

open Rust

/-- `config::model::RoutingRule`. An empty `source` means all clients, an empty `group` means
ungrouped. -/
structure RoutingRule where
  source : Str
  name : Str
  group : Str
  ruleType : Str
  pattern : Str
  target : Str
  enabled : Bool
  priority : Int
deriving DecidableEq, Repr

/-- `RoutingRule::is_global_destination`. -/
def RoutingRule.isGlobalDestination (rule : RoutingRule) : Bool :=
  rule.source == [] && !eqIgnoreAsciiCase rule.ruleType "match".toList &&
    !eqIgnoreAsciiCase rule.ruleType "final".toList

/-- Action to take for a matched connection. -/
inductive RouteAction where
  | proxy
  | group (name : Str)
  | node (id : Str)
  | direct
  | reject
deriving DecidableEq, Repr

/-- A compiled match rule. -/
inductive MatchRule where
  | domain (domain : Str)
  | domainSuffix (suffix : Str)
  | domainKeyword (keyword : Str)
  | ipCidr (addr : IpAddr) (prefixLen : Nat)
  | geoIp (country : Str)
  | dstPort (min max : Nat)
  | matchAll
  | domesticHint
deriving DecidableEq, Repr

/-- A single rule with its action. `configIndex` is the index of the saved rule, `none` for built-in
rules. -/
structure RuleEntry where
  configIndex : Option Nat
  source : Option (IpAddr × Nat)
  rule : MatchRule
  action : RouteAction
deriving DecidableEq, Repr

/-- A compiled set of routing rules. -/
structure RuleSet where
  rules : List RuleEntry
  defaultAction : RouteAction
deriving DecidableEq, Repr

/-! ## Networks, ports and sources -/

/-- Parse a CIDR such as `192.168.0.0/16`. -/
def parseCidr (cidr : Str) : Option (IpAddr × Nat) :=
  match splitn 2 '/' cidr with
  | [address, bits] => do
      let addr ← parseIp address
      let prefixLen ← parseUnsigned 255 bits
      match addr with
      | .v4 _ => if 32 < prefixLen then none else some (addr, prefixLen)
      | .v6 _ => if 128 < prefixLen then none else some (addr, prefixLen)
  | _ => none

/-- Parse a port or an inclusive port range; a reversed range is put in order. -/
def parsePortRange (pattern : Str) : Option (Nat × Nat) :=
  let p := trim pattern
  if p = [] then none
  else
    match splitOnce "-".toList p with
    | some (a, b) => do
        let min ← parseUnsigned 65535 (trim a)
        let max ← parseUnsigned 65535 (trim b)
        if min ≤ max then some (min, max) else some (max, min)
    | none => (parseUnsigned 65535 p).map fun port => (port, port)

/-- The mask of the leading `bits` bits of a `w`-bit address. -/
def prefixMask (w bits : Nat) : BitVec w :=
  if bits = 0 then 0 else BitVec.allOnes w <<< (w - bits)

/-- The network of an address: its bits behind the prefix are cleared. -/
def networkOf : IpAddr → Nat → IpAddr
  | .v4 ip, bits => .v4 (ip &&& prefixMask 32 bits)
  | .v6 ip, bits => .v6 (ip &&& prefixMask 128 bits)

/-- The textual form `address/bits`. -/
def displayCidr (ip : IpAddr) (bits : Nat) : Str :=
  ip.display ++ "/".toList ++ decimal bits

/-- Canonicalize a client address or network so that equivalent scopes share identity. -/
def normalizeRuleSource (value : Str) : Except Str Str :=
  let value := trim value
  if value = [] then .ok []
  else
    let parsed : Except Str (IpAddr × Nat) :=
      if contains value "/".toList then
        match parseCidr value with
        | some network => .ok network
        | none => .error "来源必须是有效的 IPv4/IPv6 地址或 CIDR 网段".toList
      else
        match parseIp value with
        | some ip => .ok (ip, if ip.isIpv4 then 32 else 128)
        | none => .error "来源必须是 IP 地址或 CIDR 网段，不能填写 MAC / 主机名".toList
    match parsed with
    | .error message => .error message
    | .ok (ip, bits) =>
      let canonical : Except Str (IpAddr × Nat) :=
        match ip with
        | .v6 v6 =>
          match v6.toIpv4Mapped with
          | some v4 =>
            if bits < 96 then
              .error "IPv4 映射地址的前缀必须至少为 96，或直接填写 IPv4 网段".toList
            else .ok (.v4 v4, bits - 96)
          | none => .ok (ip, bits)
        | .v4 _ => .ok (ip, bits)
      match canonical with
      | .error message => .error message
      | .ok (ip, bits) => .ok (displayCidr (networkOf ip bits) bits)

/-! ## Validation -/

/-- `u8::is_ascii_alphabetic`, on characters. -/
def isAsciiAlphabetic (c : Char) : Bool :=
  ('a' ≤ c && c ≤ 'z') || ('A' ≤ c && c ≤ 'Z')

/-- A hexadecimal digit in the lower-case form of a digest. -/
def isLowerHexDigit (c : Char) : Bool :=
  isDigit 16 c && !('A' ≤ c && c ≤ 'Z')

/-- `node:` plus the lower-case SHA-256 of a node's public id. -/
def nodeTargetId (target : Str) : Option Str := do
  let id ← stripPrefix "node:".toList target
  if len id = 64 ∧ id.all isLowerHexDigit = true then some id else none

/-- Names that are portable through native CSV, JSON and YAML rule editors. -/
def validGroupName (name : Str) : Bool :=
  name ≠ [] && len name ≤ 96 && name.all fun c => isAlphanumeric c || c == '-' || c == '_'

/-- The target is one of the built-in targets, a named group or a saved node. -/
def validTarget (target : Str) : Bool :=
  ["direct".toList, "proxy".toList, "reject".toList, "block".toList].contains
      (toAsciiLowercase target) ||
    (match stripPrefix "group:".toList target with
      | some name => validGroupName name
      | none => false) ||
    (nodeTargetId target).isSome

/-- The pattern is well formed for the rule type, given in lower case. -/
def validatePattern (kind pattern : Str) : Except Str Unit :=
  if kind = "domain".toList ∨ kind = "domain-suffix".toList ∨ kind = "domain-keyword".toList then
    if trimMatches '.' pattern = [] ∨ pattern.any isWhitespace = true then
      .error "Invalid domain routing pattern".toList
    else .ok ()
  else if kind = "ip-cidr".toList ∧ (parseCidr pattern).isSome = true then .ok ()
  else if kind = "geoip".toList ∧
      (eqIgnoreAsciiCase pattern "PRIVATE".toList = true ∨
        (len pattern = 2 ∧ pattern.all isAsciiAlphabetic = true)) then .ok ()
  else if (kind = "dst-port".toList ∨ kind = "port".toList) ∧
      ((parsePortRange pattern).any fun range => 0 < range.1) = true then .ok ()
  else if kind = "match".toList ∨ kind = "final".toList then .ok ()
  else .error "Unknown rule type or invalid routing pattern".toList

/-- Validate a saved rule before it is published. -/
def validateRule (rule : RoutingRule) : Except Str Unit :=
  if !rule.enabled then .ok ()
  else if !validTarget rule.target then .error "Invalid routing target".toList
  else
    match validatePattern (toAsciiLowercase rule.ruleType) rule.pattern with
    | .error message => .error message
    | .ok () =>
      match normalizeRuleSource rule.source with
      | .error _ => .error "Invalid routing source".toList
      | .ok _ => .ok ()

/-! ## Compilation -/

/-- The action a target stands for. -/
def ruleAction (target : Str) : RouteAction :=
  match stripPrefix "group:".toList target with
  | some name => .group name
  | none =>
    match stripPrefix "node:".toList target with
    | some id => .node (toAsciiLowercase id)
    | none =>
      let lower := toLowercase target
      if lower = "direct".toList then .direct
      else if lower = "reject".toList ∨ lower = "block".toList then .reject
      else .proxy

/-- The compiled form of a rule type and pattern. -/
def compilePattern (ruleType pattern : Str) : Option MatchRule :=
  let kind := toLowercase ruleType
  if kind = "domain".toList then some (.domain (toLowercase pattern))
  else if kind = "domain-suffix".toList then
    let suffix := toLowercase pattern
    some (.domainSuffix (if startsWith suffix ".".toList then suffix else ".".toList ++ suffix))
  else if kind = "domain-keyword".toList then some (.domainKeyword (toLowercase pattern))
  else if kind = "ip-cidr".toList then
    (parseCidr pattern).map fun (addr, prefixLen) => .ipCidr addr prefixLen
  else if kind = "geoip".toList then some (.geoIp (toUppercase pattern))
  else if kind = "dst-port".toList ∨ kind = "port".toList then
    (parsePortRange pattern).map fun (min, max) => .dstPort min max
  else if kind = "match".toList ∨ kind = "final".toList then some .matchAll
  else none

/-- The client scope of a rule, `none` when the source is unusable. -/
def compileSource (source : Str) : Option (Option (IpAddr × Nat)) :=
  if source = [] then some none
  else
    match normalizeRuleSource source with
    | .error _ => none
    | .ok normalized => some (parseCidr normalized)

/-- Compile one rule under its index, or leave it out. -/
def compileEntry (indexed : Nat × RoutingRule) : Option RuleEntry := do
  let rule ← compilePattern indexed.2.ruleType indexed.2.pattern
  let source ← compileSource indexed.2.source
  pure ⟨some indexed.1, source, rule, ruleAction indexed.2.target⟩

/-- `RuleSet::new`. -/
def RuleSet.new : RuleSet :=
  ⟨[], .proxy⟩

/-- `RuleSet::add_rule`. -/
def RuleSet.addRule (set : RuleSet) (rule : MatchRule) (action : RouteAction) : RuleSet :=
  { set with rules := set.rules ++ [⟨none, none, rule, action⟩] }

/-- `RuleSet::extend`. -/
def RuleSet.extend (set other : RuleSet) : RuleSet :=
  { set with rules := set.rules ++ other.rules }

/-- Higher priority first, then the smaller index. -/
def precedesByPriority (a b : Nat × RoutingRule) : Bool :=
  b.2.priority < a.2.priority || (a.2.priority == b.2.priority && a.1 ≤ b.1)

/-- `RuleSet::from_indexed_config`. Disabled rules are skipped. -/
def RuleSet.fromIndexedConfig (rules : List (Nat × RoutingRule)) : RuleSet :=
  let enabled := rules.filter fun indexed => indexed.2.enabled
  { RuleSet.new with
    rules := (StableSort.sortBy precedesByPriority enabled).filterMap compileEntry }

/-- `RuleSet::from_config`. -/
def RuleSet.fromConfig (rules : List RoutingRule) : RuleSet :=
  RuleSet.fromIndexedConfig (rules.zipIdx.map fun (rule, index) => (index, rule))

end Sockrocket
