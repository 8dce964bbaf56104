import Sockrocket.Config.RuleLines
import Sockrocket.Router.RuleMode
import Sockrocket.Rust.Yaml

/-!
# Records of the configuration file

How the records of `config/model.rs` are read from and written to YAML values, and the checks of
`config/group.rs` on proxy groups and rule targets.
-/

namespace Sockrocket

open Rust Option

/-! ## Readers -/

/-- `deserialize_rule_source`. -/
def decodeRuleSource (value : Yaml) : Option Str :=
  value.asStr.bind fun text => (normalizeRuleSource text).toOption

/-- The reader of `RoutingRule`. -/
def decodeRule (value : Yaml) : Option RoutingRule := do
  let fields ← value.decodeFields
  let source ← fields.fieldOr "source".toList [] decodeRuleSource
  let name ← fields.fieldOr "name".toList [] Yaml.asStr
  let group ← fields.fieldOr "group".toList [] Yaml.asStr
  let ruleType ← fields.field "rule_type".toList Yaml.asStr
  let pattern ← fields.field "pattern".toList Yaml.asStr
  let target ← fields.field "target".toList Yaml.asStr
  let enabled ← fields.fieldOr "enabled".toList true Yaml.asBool
  let priority ← fields.fieldOr "priority".toList 0 (Yaml.asInt (-2147483648) 2147483647)
  pure ⟨source, name, group, ruleType, pattern, target, enabled, priority⟩

/-- The reader of `DeviceRuleGroup`. -/
def decodeLink (value : Yaml) : Option DeviceRuleGroup := do
  let fields ← value.decodeFields
  let source ← fields.field "source".toList decodeRuleSource
  let group ← fields.field "group".toList Yaml.asStr
  let priority ← fields.fieldOr "priority".toList 0 (Yaml.asInt 0 65535)
  let target ← fields.fieldOr "target".toList [] Yaml.asStr
  pure ⟨source, group, priority.toNat, target⟩

/-- The writer of `DeviceRuleGroup`. -/
def encodeLink (link : DeviceRuleGroup) : Yaml :=
  .mapping [(.string "source".toList, .string link.source),
    (.string "group".toList, .string link.group),
    (.string "priority".toList, .number (.int link.priority)),
    (.string "target".toList, .string link.target)]

/-- What a reader of links can give: a normalized source and a 16-bit priority. -/
structure DeviceRuleGroup.Stored (link : DeviceRuleGroup) : Prop where
  source : IsNormalized link.source
  priority : link.priority ≤ 65535

variable {link : DeviceRuleGroup}

/-- A stored link is read back as it was. -/
theorem decodeLink_encodeLink (h : link.Stored) :
    decodeLink (encodeLink link) = some link := by
  have hsource : decodeRuleSource (.string link.source) = some link.source := by
    calc decodeRuleSource (.string link.source)
        = (normalizeRuleSource link.source).toOption := rfl
      _ = some link.source := by rw [h.source]; rfl
  have hpriority : Yaml.asInt 0 65535 (.number (.int link.priority)) =
      some (link.priority : Int) :=
    if_pos ⟨Int.natCast_nonneg _, by exact_mod_cast h.priority⟩
  calc decodeLink (encodeLink link)
      = (decodeRuleSource (.string link.source)).bind fun source =>
          (Yaml.asInt 0 65535 (.number (.int link.priority))).bind fun priority =>
            some ⟨source, link.group, priority.toNat, link.target⟩ := rfl
    _ = some link := by rw [hsource, hpriority]; rfl

variable {value : Yaml}

theorem decodeRuleSource_eq_some {source : Str}
    (h : decodeRuleSource value = some source) : IsNormalized source := by
  obtain ⟨text, -, hsource⟩ := bind_eq_some_iff.mp h
  cases hnormal : normalizeRuleSource text with
  | error message => rw [hnormal] at hsource; cases hsource
  | ok normalized =>
    rw [hnormal] at hsource
    obtain rfl := some.inj hsource
    exact isNormalized_of_ok hnormal

/-- Every link that is read has the form of a stored one. -/
theorem stored_of_decodeLink
    (h : decodeLink value = some link) : link.Stored := by
  unfold decodeLink at h
  simp only [bind_eq_bind, bind_eq_some_iff] at h
  obtain ⟨fields, -, source, hsource, group, -, priority, hpriority, target, -, hlink⟩ := h
  obtain rfl := some.inj hlink
  refine ⟨?_, ?_⟩
  · obtain ⟨value, -, hvalue⟩ := bind_eq_some_iff.mp hsource
    exact decodeRuleSource_eq_some hvalue
  · show priority.toNat ≤ 65535
    have hrange : 0 ≤ priority ∧ priority ≤ 65535 := by
      unfold YamlMapping.fieldOr at hpriority
      split at hpriority
      · obtain rfl := some.inj hpriority
        decide
      unfold Yaml.asInt at hpriority
      split at hpriority
      · split at hpriority
        · rename_i hrange
          obtain rfl := some.inj hpriority
          exact hrange
        · cases hpriority
      · cases hpriority
    omega

/-! ## Checks on targets -/

end Sockrocket
