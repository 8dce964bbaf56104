import Sockrocket.Lib.Grouping
import Sockrocket.Router.China
import Sockrocket.Router.Source

/-!
# Rule mode

`router::rule_mode` assembles the rule set of rule mode from saved rules and the links between devices
and rule groups. The order of the result comes out of partitions, two stable sorts and an ordered map
of tiers.
-/

namespace Sockrocket

open Rust StableSort Grouping

/-- A device, or all devices when `source` is empty, uses the members of a rule group. An empty
`target` keeps each member's own action. -/
structure DeviceRuleGroup where
  source : Str
  group : Str
  priority : Nat
  target : Str
deriving DecidableEq, Repr

/-- The part of `ProxyGroupConfig` that links refer to. -/
structure ProxyGroupConfig where
  name : Str
deriving DecidableEq, Repr

/-! ## Validation of links -/

/-- The number of global destination rules in a group. -/
def groupSize (rules : List RoutingRule) (group : Str) : Nat :=
  rules.countP fun rule => rule.isGlobalDestination && trim rule.group == group

/-- The exit of a link exists. -/
def validLinkTarget (exits : List ProxyGroupConfig) (target : Str) : Bool :=
  [[], "direct".toList, "proxy".toList, "reject".toList].contains target ||
    (nodeTargetId target).isSome ||
    (match stripPrefix "group:".toList target with
      | some name => exits.any fun exit => exit.name == name
      | none => false)

/-- The loop over the links. `seen` holds the links already passed, `total` the number of rules that
devices use so far. -/
def validateLinks (rules : List RoutingRule) (exits : List ProxyGroupConfig) :
    List DeviceRuleGroup → List (Str × Str) → Nat → Except Str Unit
  | [], _, _ => .ok ()
  | link :: rest, seen, total =>
    if (link.source, link.group) ∈ seen ∨ trim link.group = [] then
      .error "设备或规则组缺失，或关联重复".toList
    else if !validLinkTarget exits link.target then
      .error "设备规则组关联引用了无效出口".toList
    else
      let total := if link.source ≠ [] then total + groupSize rules link.group else total
      if 65536 < total then .error "设备关联的目的规则总数超过 65536".toList
      else validateLinks rules exits rest ((link.source, link.group) :: seen) total

/-- `validate_device_rule_groups`. -/
def validateDeviceRuleGroups (links : List DeviceRuleGroup) (rules : List RoutingRule)
    (exits : List ProxyGroupConfig) : Except Str Unit :=
  if links = [] then .ok ()
  else if 256 < links.countP fun link => link.source ≠ [] then
    .error "最多支持 256 个设备规则组关联".toList
  else validateLinks rules exits links [] 0

/-! ## Assembly -/

/-- `is_catch_all`. -/
def isCatchAll (ruleType : Str) : Bool :=
  let kind := toLowercase ruleType
  kind == "final".toList || kind == "match".toList

/-- The enabled rules, each with its index. -/
def enabledRules (rules : List RoutingRule) : List (Nat × RoutingRule) :=
  (rules.zipIdx.map fun (rule, index) => (index, rule)).filter fun indexed => indexed.2.enabled

/-- One of the four parts into which the enabled rules are split: with or without a source, and
catch-all or not. -/
def rulePart (rules : List RoutingRule) (device final : Bool) : List (Nat × RoutingRule) :=
  (enabledRules rules).filter fun indexed =>
    (!indexed.2.source.isEmpty) == device && isCatchAll indexed.2.ruleType == final

/-- The prefix length written in a source, 0 if there is none. -/
def sourcePrefix (source : Str) : Nat :=
  ((splitOnce "/".toList source).bind fun (_, bits) => parseUnsigned 255 bits).getD 0

/-- The links that take part, narrower ones first, each under its group. -/
def linksByGroup (links : List DeviceRuleGroup) (explicit : Bool) : List (Str × DeviceRuleGroup) :=
  ((sortBy (fun a b => sourcePrefix b.source ≤ sourcePrefix a.source) links).filter fun link =>
    explicit || !link.source.isEmpty).map fun link => (link.group, link)

/-- The copy of a rule that a link makes. -/
def RoutingRule.linkedBy (rule : RoutingRule) (link : DeviceRuleGroup) : RoutingRule :=
  { rule with
    source := link.source
    target := if link.target = [] then rule.target else link.target }

/-- A tier: whether its rules are scoped to a device, and the priority of the link. -/
abbrev Tier := Bool × Nat

/-- The order of tiers as keys of an ordered map. -/
def tierLe (a b : Tier) : Bool :=
  (!a.1 && b.1) || (a.1 == b.1 && a.2 ≤ b.2)

/-- What one global destination rule puts into the tiers: itself if it needs no link, and a copy for
each link of its group. -/
def tierPushes (links : List (Str × DeviceRuleGroup)) (explicit : Bool)
    (indexed : Nat × RoutingRule) : List (Tier × (Nat × RoutingRule)) :=
  (if !explicit || (trim indexed.2.group).isEmpty then [((false, 0), indexed)] else []) ++
    (valuesAt (trim indexed.2.group) links).map fun link =>
      ((!link.source.isEmpty, link.priority), (indexed.1, indexed.2.linkedBy link))

/-- The tiers in ascending order, each with its rules. -/
def tiers (rules : List RoutingRule) (links : List DeviceRuleGroup) (explicit : Bool) :
    List (Tier × List (Nat × RoutingRule)) :=
  grouped tierLe ((rulePart rules false false).flatMap
    (tierPushes (linksByGroup links explicit) explicit))

/-- The built-in rules without their catch-all. -/
def builtinRules : List RuleEntry :=
  chinaDirectRuleset.rules.filter fun entry => entry.rule ≠ .matchAll

/-- `rule_mode_with_bindings`. -/
def ruleModeWithBindings (rules : List RoutingRule) (links : List DeviceRuleGroup)
    (explicit : Bool) : RuleSet :=
  if enabledRules rules = [] then chinaDirectRuleset
  else
    let set := RuleSet.fromIndexedConfig (rulePart rules true false)
    let set := (tiers rules links explicit).reverse.foldl
      (fun set tier => set.extend (RuleSet.fromIndexedConfig tier.2)) set
    let set := builtinRules.foldl (fun set entry => set.addRule entry.rule entry.action) set
    let set := set.extend (RuleSet.fromIndexedConfig (rulePart rules true true))
    let finals := rulePart rules false true
    if finals = [] then set.addRule .matchAll .proxy
    else set.extend (RuleSet.fromIndexedConfig finals)

end Sockrocket
