import Sockrocket.Router.Rule

/-!
# Display groups

`config/rule_groups.rs`: routing rules are shown in groups. The order in which rules match is not
that of their display.
-/

namespace Sockrocket

open Rust

/-- One display bucket: its label and indices into the rules. An empty label means ungrouped. -/
structure RuleGroupView where
  name : Str
  indices : List Nat
deriving DecidableEq

/-- Put an index into the bucket of a name, behind the others, or into a new bucket. -/
def pushIndex (name : Str) (index : Nat) : List RuleGroupView → List RuleGroupView
  | [] => [⟨name, [index]⟩]
  | bucket :: rest =>
    if bucket.name = name then { bucket with indices := bucket.indices ++ [index] } :: rest
    else bucket :: pushIndex name index rest

/-- One turn of the loop of `group_rules_for_display`: the named buckets, and the rest. -/
def groupStep (buckets : List RuleGroupView × List Nat) (entry : RoutingRule × Nat) :
    List RuleGroupView × List Nat :=
  if trim entry.1.group = [] then (buckets.1, buckets.2 ++ [entry.2])
  else (pushIndex (trim entry.1.group) entry.2 buckets.1, buckets.2)

/-- `group_rules_for_display`: groups in the order they are first seen, ungrouped last. -/
def groupRulesForDisplay (rules : List RoutingRule) : List RuleGroupView :=
  match rules.zipIdx.foldl groupStep ([], []) with
  | (named, []) => named
  | (named, ungrouped) => named ++ [⟨[], ungrouped⟩]

end Sockrocket
