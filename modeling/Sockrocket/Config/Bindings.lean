import Sockrocket.Config.Records
import Sockrocket.Router.RuleModeOrder

/-!
# Explicit group bindings

`cgi/devices.rs`: rules of a named group used to apply to all devices. Once bindings are explicit, a
group applies to the devices that are linked to it, all devices being one possible link. The
migration links every group in use to all devices. `tiers_migrated` is the reason why routing does
not change: the copies that these links make are the rules themselves, in the tier they had.
-/

namespace Sockrocket

open Rust StableSort Grouping List

/-! ## The migration -/

/-- `devices::links`. -/
def deviceLinks (map : YamlMapping) : Option (List DeviceRuleGroup) :=
  ((map.get "device_rule_groups".toList).getD (.sequence [])).decodeSeq decodeLink

/-- `devices::store_links`. -/
def storeLinks (map : YamlMapping) (links : List DeviceRuleGroup) : YamlMapping :=
  if links = [] then map.remove "device_rule_groups".toList
  else map.insert "device_rule_groups".toList (.sequence (links.map encodeLink))

/-- `devices::checked_rules`. -/
def checkedRules (map : YamlMapping) : Option (List RoutingRule) :=
  ((map.get "rules".toList).getD (.sequence [])).decodeSeq decodeRule

/-- The loop of `migrate_bindings`: a link to all devices for each group with a global destination
rule, where `seen` holds the groups that have one. -/
def sharedLinks : List RoutingRule → List Str → List DeviceRuleGroup
  | [], _ => []
  | rule :: rest, seen =>
    let name := trim rule.group
    if rule.isGlobalDestination = true ∧ name ≠ [] ∧ name ∉ seen then
      ⟨[], name, 0, []⟩ :: sharedLinks rest (name :: seen)
    else sharedLinks rest seen

/-- `devices::migrate_bindings`. -/
def migrateBindings (map : YamlMapping) : Option YamlMapping :=
  if (map.get "explicit_group_bindings".toList).bind Yaml.asBool = some true then some map
  else do
    let links ← deviceLinks map
    let rules ← checkedRules map
    let map := storeLinks map (links ++ sharedLinks rules [])
    pure (map.insert "explicit_group_bindings".toList (.bool true))

/-! ## The new links -/

section SharedLinks

variable {rules : List RoutingRule} {seen : List Str}

theorem mem_sharedLinks {link : DeviceRuleGroup} (h : link ∈ sharedLinks rules seen) :
    link = ⟨[], link.group, 0, []⟩ ∧ link.group ∉ seen ∧ trim link.group ≠ [] := by
  induction rules generalizing seen with
  | nil => cases h
  | cons rule rest ih =>
    rw [sharedLinks] at h
    split at h
    · rename_i hnew
      rcases mem_cons.mp h with rfl | h
      · refine ⟨rfl, hnew.2.2, ?_⟩
        rw [trim_idem]
        exact hnew.2.1
      · obtain ⟨hlink, hseen, hname⟩ := ih h
        exact ⟨hlink, fun hmem => hseen (mem_cons_of_mem _ hmem), hname⟩
    · exact ih h

/-- A group with a global destination rule gets one link. -/
theorem sharedLinks_filter {name : Str} (hname : name ≠ []) (hseen : name ∉ seen)
    (h : ∃ rule ∈ rules, rule.isGlobalDestination ∧ trim rule.group = name) :
    (sharedLinks rules seen).filter (fun link => link.group = name) = [⟨[], name, 0, []⟩] := by
  have hnone : ∀ {rules seen}, name ∈ seen →
      (sharedLinks rules seen).filter (fun link => link.group = name) = [] := by
    intro rules seen hmem
    refine filter_eq_nil_iff.mpr fun link hlink hgroup => ?_
    obtain rfl : link.group = name := of_decide_eq_true hgroup
    exact (mem_sharedLinks hlink).2.1 hmem
  induction rules generalizing seen with
  | nil => obtain ⟨rule, hrule, -⟩ := h; cases hrule
  | cons rule rest ih =>
    rw [sharedLinks]
    by_cases hrule : rule.isGlobalDestination ∧ trim rule.group = name
    · -- the first rule of the group makes the link, the later ones find it
      obtain ⟨hglobal, rfl⟩ := hrule
      rw [if_pos ⟨hglobal, hname, hseen⟩, filter_cons_of_pos (by simp), hnone mem_cons_self]
    · have hrest : ∃ rule ∈ rest, rule.isGlobalDestination ∧ trim rule.group = name := by
        obtain ⟨other, hother, hprops⟩ := h
        rcases mem_cons.mp hother with rfl | hother
        · exact absurd hprops hrule
        · exact ⟨other, hother, hprops⟩
      split
      · rename_i hnew
        have hne : trim rule.group ≠ name := fun heq => hrule ⟨hnew.1, heq⟩
        rw [filter_cons_of_neg (by simpa using hne)]
        refine ih ?_ hrest
        rw [mem_cons, not_or]
        exact ⟨hne.symm, hseen⟩
      · exact ih hseen hrest

theorem sharedLinks_keys_nodup :
    ((sharedLinks rules seen).map fun link => (link.source, link.group)).Nodup := by
  induction rules generalizing seen with
  | nil => exact nodup_nil
  | cons rule rest ih =>
    rw [sharedLinks]
    split
    · rw [map_cons, nodup_cons]
      refine ⟨fun hmem => ?_, ih⟩
      obtain ⟨link, hlink, hkey⟩ := mem_map.mp hmem
      refine (mem_sharedLinks hlink).2.1 ?_
      rw [(Prod.mk.inj hkey).2]
      exact mem_cons_self
    · exact ih

end SharedLinks

/-! ## Routing -/

theorem tierLe_antisymm (a b : Tier) (hab : tierLe a b) (hba : tierLe b a) :
    a = b := by
  obtain ⟨device, priority⟩ := a
  obtain ⟨device', priority'⟩ := b
  cases device <;> cases device' <;> simp [tierLe] at hab hba ⊢ <;> omega

/-- A global rule that is not a catch-all is a global destination rule. -/
theorem isGlobalDestination_of_not_catchAll {rule : RoutingRule} (hsource : rule.source = [])
    (hkind : isCatchAll rule.ruleType = false) : rule.isGlobalDestination := by
  have hword : ∀ word, word.all isAscii → toAsciiLowercase word = word →
      word = "final".toList ∨ word = "match".toList →
      eqIgnoreAsciiCase rule.ruleType word = false := by
    intro word hascii hlower hcases
    refine Bool.eq_false_iff.mpr fun heq => ?_
    have hrule : toAsciiLowercase rule.ruleType = word := (eq_of_beq heq).trans hlower
    have hlowercase := toLowercase_eq_of_toAsciiLowercase hrule (all_eq_true.mp hascii)
    rw [isCatchAll, hlowercase] at hkind
    rcases hcases with rfl | rfl <;> exact Bool.noConfusion hkind
  unfold RoutingRule.isGlobalDestination
  rw [hsource, hword _ (by decide) (by decide) (.inl rfl),
    hword _ (by decide) (by decide) (.inr rfl)]
  rfl

section Migrated

variable {rules : List RoutingRule} {links : List DeviceRuleGroup}

/-- The new links have the shortest prefix, so they come last. -/
theorem sortBy_migrated :
    sortBy (fun a b => sourcePrefix b.source ≤ sourcePrefix a.source)
        (links ++ sharedLinks rules []) =
      sortBy (fun a b => sourcePrefix b.source ≤ sourcePrefix a.source) links ++
        sharedLinks rules [] := by
  have hshared : ∀ link ∈ sharedLinks rules [], sourcePrefix link.source = 0 := by
    intro link hlink
    rw [(mem_sharedLinks hlink).1]
    rfl
  refine sortBy_append (List.Pairwise.insertionSort_eq ?_) fun a _ b hb => ?_
  · refine pairwise_iff_getElem.mpr fun i j hi hj _ => decide_eq_true ?_
    rw [hshared _ (getElem_mem hi), hshared _ (getElem_mem hj)]
  · rw [hshared b hb]
    exact decide_eq_true (Nat.zero_le _)

section

variable (hsources : ∀ link ∈ links, link.source ≠ [])

include hsources

/-- The links of a group after the migration: those it had, and the new one. -/
theorem linksByGroup_migrated (name : Str) :
    valuesAt name (linksByGroup (links ++ sharedLinks rules []) true) =
      valuesAt name (linksByGroup links false) ++
        (sharedLinks rules []).filter fun link => link.group = name := by
  have hkeep : ∀ link ∈ sortBy (fun a b => sourcePrefix b.source ≤ sourcePrefix a.source) links,
      (false || !link.source.isEmpty) := by
    intro link hlink
    have hne := hsources link (mem_sortBy.mp hlink)
    simpa using hne
  have hvalues : ∀ list : List DeviceRuleGroup,
      valuesAt name (list.map fun link => (link.group, link)) =
        list.filter fun link => link.group = name := by
    intro list
    simp [valuesAt, filter_map, Function.comp_def]
  unfold linksByGroup
  simp only [Bool.true_or]
  rw [sortBy_migrated, filter_true, filter_eq_self.mpr hkeep, hvalues, hvalues, filter_append]

/-- What a rule puts into a tier does not change. -/
theorem tierPushes_migrated
    {indexed : Nat × RoutingRule} (hmem : indexed ∈ rulePart rules false false) (tier : Tier) :
    valuesAt tier (tierPushes (linksByGroup (links ++ sharedLinks rules []) true) true indexed) =
      valuesAt tier (tierPushes (linksByGroup links false) false indexed) := by
  obtain ⟨⟨hget, -⟩, hsource, hkind⟩ := mem_rulePart.mp hmem
  have hempty : indexed.2.source = [] := by simpa using hsource
  have hglobal := isGlobalDestination_of_not_catchAll hempty hkind
  unfold tierPushes
  rw [linksByGroup_migrated hsources]
  by_cases hname : trim indexed.2.group = []
  · -- no link is for the rules without a group
    have hnone : (sharedLinks rules []).filter (fun link => link.group = trim indexed.2.group) =
        [] := by
      refine filter_eq_nil_iff.mpr fun link hlink hgroup => ?_
      obtain heq : link.group = trim indexed.2.group := of_decide_eq_true hgroup
      refine (mem_sharedLinks hlink).2.2 ?_
      rw [heq, trim_idem, hname]
    rw [hnone, append_nil, hname]
    rfl
  · have hone := sharedLinks_filter hname not_mem_nil
      ⟨indexed.2, mem_of_getElem? hget, hglobal, rfl⟩
    have hself : indexed.2.linkedBy ⟨[], trim indexed.2.group, 0, []⟩ = indexed.2 := by
      rw [RoutingRule.linkedBy, if_pos rfl, ← hempty]
    rw [hone, map_append, map_singleton, hself, if_neg (by simpa using hname),
      Bool.not_false, Bool.true_or, if_pos rfl, nil_append]
    -- the links of devices fill other tiers than the rule itself
    refine valuesAt_append_comm (fun push hpush push' hpush' => ?_) tier
    obtain ⟨link, hlink, rfl⟩ := mem_map.mp hpush
    obtain rfl := mem_singleton.mp hpush'
    have hdevice := hsources link (mem_linksByGroup.mp hlink).1
    intro heq
    exact hdevice (by simpa using (Prod.mk.inj heq).1)

theorem tiers_migrated :
    tiers rules (links ++ sharedLinks rules []) true = tiers rules links false := by
  refine grouped_congr tierLe_total tierLe_trans tierLe_antisymm fun tier => ?_
  rw [valuesAt_flatMap, valuesAt_flatMap]
  exact flatMap_congr fun indexed hmem => tierPushes_migrated hsources hmem tier

/-- The rule set is the one the rules had without bindings. -/
theorem ruleModeWithBindings_migrated :
    ruleModeWithBindings rules (links ++ sharedLinks rules []) true =
      ruleModeWithBindings rules links false := by
  unfold ruleModeWithBindings
  rw [tiers_migrated hsources]

end

end Migrated

/-! ## Validation -/

section Validation

variable {rules : List RoutingRule} {exits : List ProxyGroupConfig}

variable {added : List DeviceRuleGroup} {total : Nat}

/-- Links to all devices pass: they are new, named, keep the members' targets and add no rules. -/
theorem validateLinks_shared {seen : List (Str × Str)}
    (hadded : ∀ link ∈ added, link = ⟨[], link.group, 0, []⟩ ∧ trim link.group ≠ [])
    (hseen : ∀ link ∈ added, (link.source, link.group) ∉ seen)
    (hnodup : (added.map fun link => (link.source, link.group)).Nodup) (htotal : total ≤ 65536) :
    validateLinks rules exits added seen total = .ok () := by
  induction added generalizing seen with
  | nil => rfl
  | cons link rest ih =>
    obtain ⟨hlink, hname⟩ := hadded link mem_cons_self
    have hnew := hseen link mem_cons_self
    rw [map_cons, nodup_cons] at hnodup
    have hsource : link.source = [] := by rw [hlink]
    have htarget : validLinkTarget exits link.target := by
      rw [hlink]
      rfl
    rw [validateLinks, if_neg (not_or.mpr ⟨hnew, hname⟩), htarget]
    simp only [hsource, ne_eq, not_true_eq_false, if_false, Bool.not_true, Bool.false_eq_true,
      if_neg (not_lt.mpr htotal)]
    refine ih (fun other hother => hadded other (mem_cons_of_mem _ hother)) ?_ hnodup.2
    intro other hother hmem
    rcases mem_cons.mp hmem with heq | hmem
    · refine hnodup.1 (mem_map.mpr ⟨other, hother, ?_⟩)
      rw [heq, hsource]
    · exact hseen other (mem_cons_of_mem _ hother) hmem

/-- The loop over the old links ends in a state in which the new ones pass. -/
theorem validateLinks_append {links : List DeviceRuleGroup} {seen : List (Str × Str)} (h : validateLinks rules exits links seen total = .ok ())
    (hsources : ∀ link ∈ links, link.source ≠ []) (htotal : total ≤ 65536)
    (hadded : ∀ link ∈ added, link = ⟨[], link.group, 0, []⟩ ∧ trim link.group ≠ [])
    (hseen : ∀ link ∈ added, (link.source, link.group) ∉ seen)
    (hnodup : (added.map fun link => (link.source, link.group)).Nodup) :
    validateLinks rules exits (links ++ added) seen total = .ok () := by
  induction links generalizing seen total with
  | nil => exact validateLinks_shared hadded hseen hnodup htotal
  | cons link rest ih =>
    rw [cons_append, validateLinks]
    rw [validateLinks] at h
    split at h
    · cases h
    rename_i hnew
    split at h
    · cases h
    rename_i htarget
    by_cases hlimit : 65536 <
        if link.source ≠ [] then total + groupSize rules link.group else total
    · simp only [if_pos hlimit] at h
      cases h
    simp only [if_neg hlimit] at h
    simp only [if_neg hnew, if_neg htarget, if_neg hlimit]
    refine ih h (fun other hother => hsources other (mem_cons_of_mem _ hother))
      (not_lt.mp hlimit) fun other hother hmem => ?_
    rcases mem_cons.mp hmem with heq | hmem
    · -- a link to a device is not one to all devices
      refine hsources link mem_cons_self ?_
      rw [← (Prod.mk.inj heq).1, (hadded other hother).1]
    · exact hseen other hother hmem

theorem validateDeviceRuleGroups_migrated {links : List DeviceRuleGroup}
    (h : validateDeviceRuleGroups links rules exits = .ok ())
    (hsources : ∀ link ∈ links, link.source ≠ []) :
    validateDeviceRuleGroups (links ++ sharedLinks rules []) rules exits = .ok () := by
  have hlimit : links.countP (fun link => link.source ≠ []) ≤ 256 ∧
      validateLinks rules exits links [] 0 = .ok () := by
    unfold validateDeviceRuleGroups at h
    split at h
    · rename_i hempty
      rw [hempty]
      exact ⟨Nat.zero_le _, rfl⟩
    split at h
    · cases h
    · rename_i hcount
      exact ⟨not_lt.mp hcount, h⟩
  have hshared : (sharedLinks rules []).countP (fun link => link.source ≠ []) = 0 := by
    refine countP_eq_zero.mpr fun link hlink => ?_
    rw [(mem_sharedLinks hlink).1]
    simp
  have hadded : ∀ link ∈ sharedLinks rules [],
      link = ⟨[], link.group, 0, []⟩ ∧ trim link.group ≠ [] :=
    fun link hlink => ⟨(mem_sharedLinks hlink).1, (mem_sharedLinks hlink).2.2⟩
  unfold validateDeviceRuleGroups
  split
  · rfl
  · rw [countP_append, hshared, add_zero, if_neg (not_lt.mpr hlimit.1)]
    exact validateLinks_append hlimit.2 hsources (Nat.zero_le _) hadded
      (fun _ _ => not_mem_nil) sharedLinks_keys_nodup

end Validation

/-! ## The stored form -/

variable {map : YamlMapping}

/-- Links that were read are read back after they are stored. -/
theorem deviceLinks_storeLinks {links : List DeviceRuleGroup}
    (h : ∀ link ∈ links, link.Stored) : deviceLinks (storeLinks map links) = some links := by
  unfold deviceLinks storeLinks
  split
  · rename_i hempty
    rw [YamlMapping.get_remove_self, hempty]
    rfl
  rw [YamlMapping.get_insert_self]
  show (links.map encodeLink).mapM decodeLink = some links
  rw [mapM_eq_some, forall₂_map_left_iff, forall₂_same]
  exact fun link hlink => decodeLink_encodeLink (h link hlink)

theorem storeLinks_get {links : List DeviceRuleGroup} {key : Str}
    (h : key ≠ "device_rule_groups".toList) : (storeLinks map links).get key = map.get key := by
  unfold storeLinks
  split
  · exact YamlMapping.get_remove_of_ne map h
  · exact YamlMapping.get_insert_of_ne map _ h

theorem stored_of_deviceLinks {links : List DeviceRuleGroup}
    (h : deviceLinks map = some links) : ∀ link ∈ links, link.Stored := by
  intro link hlink
  obtain ⟨item, hitem⟩ := exists_decode_of_mem_decodeSeq h hlink
  exact stored_of_decodeLink hitem

/-- What the migration does to the file, when it has not been done before. -/
theorem migrateBindings_eq {rules : List RoutingRule}
    {links : List DeviceRuleGroup}
    (hflag : (map.get "explicit_group_bindings".toList).bind Yaml.asBool ≠ some true)
    (hrules : checkedRules map = some rules) (hlinks : deviceLinks map = some links) :
    migrateBindings map = some ((storeLinks map (links ++ sharedLinks rules [])).insert
      "explicit_group_bindings".toList (.bool true)) := by
  unfold migrateBindings
  rw [if_neg hflag, hlinks, hrules]
  rfl

/-- The migration of group bindings keeps the route of every connection and changes nothing but the
links and the mark that it is done. -/
theorem migrateBindings_preserves (map : YamlMapping) (rules : List RoutingRule)
    (links : List DeviceRuleGroup) (exits : List ProxyGroupConfig)
    (hrules : checkedRules map = some rules) (hlinks : deviceLinks map = some links)
    (hvalid : validateDeviceRuleGroups links rules exits = .ok ())
    (hflag : map.get "explicit_group_bindings".toList = none ∨
      (map.get "explicit_group_bindings".toList).bind Yaml.asBool = some false)
    (hsources : ∀ link ∈ links, link.source ≠ []) :
    ∃ migrated links', migrateBindings map = some migrated ∧
      checkedRules migrated = some rules ∧ deviceLinks migrated = some links' ∧
      (migrated.get "explicit_group_bindings".toList).bind Yaml.asBool = some true ∧
      (∀ geoip context resolve host port,
        Router.routeUncachedResolving ⟨ruleModeWithBindings rules links' true, geoip⟩ context
            resolve host port =
          Router.routeUncachedResolving ⟨ruleModeWithBindings rules links false, geoip⟩ context
            resolve host port) ∧
      validateDeviceRuleGroups links' rules exits = .ok () ∧
      (∀ key, key ≠ "device_rule_groups".toList → key ≠ "explicit_group_bindings".toList →
        migrated.get key = map.get key) ∧
      migrateBindings migrated = some migrated := by
  have hnot : (map.get "explicit_group_bindings".toList).bind Yaml.asBool ≠ some true := by
    rcases hflag with hflag | hflag <;> rw [hflag] <;> decide
  have hstored : ∀ link ∈ links ++ sharedLinks rules [], link.Stored := by
    intro link hlink
    rcases mem_append.mp hlink with hlink | hlink
    · exact stored_of_deviceLinks hlinks link hlink
    · rw [(mem_sharedLinks hlink).1]
      exact ⟨isNormalized_nil, Nat.zero_le _⟩
  have hget : ∀ key, key ≠ "device_rule_groups".toList →
      key ≠ "explicit_group_bindings".toList →
      ((storeLinks map (links ++ sharedLinks rules [])).insert
        "explicit_group_bindings".toList (.bool true)).get key = map.get key := by
    intro key hlinksKey hflagKey
    rw [YamlMapping.get_insert_of_ne _ _ hflagKey, storeLinks_get hlinksKey]
  refine ⟨_, links ++ sharedLinks rules [], migrateBindings_eq hnot hrules hlinks, ?_, ?_, ?_, ?_,
    validateDeviceRuleGroups_migrated hvalid hsources, hget, ?_⟩
  · unfold checkedRules
    rw [hget _ (by decide) (by decide)]
    exact hrules
  · rw [← @deviceLinks_storeLinks map _ hstored]
    unfold deviceLinks
    rw [YamlMapping.get_insert_of_ne _ _ (by decide)]
  · rw [YamlMapping.get_insert_self]
    rfl
  · intro geoip context resolve host port
    rw [ruleModeWithBindings_migrated hsources]
  · unfold migrateBindings
    rw [YamlMapping.get_insert_self]
    exact if_pos rfl

/-- A configuration with one rule, whose group one device is linked to. -/
def linkedConfiguration : YamlMapping :=
  [(.string "rules".toList, .sequence [.mapping [
      (.string "group".toList, .string " Home ".toList),
      (.string "rule_type".toList, .string "domain-suffix".toList),
      (.string "pattern".toList, .string "example.com".toList),
      (.string "target".toList, .string "direct".toList)]]),
    (.string "device_rule_groups".toList, .sequence [.mapping [
      (.string "source".toList, .string "192.168.50.2".toList),
      (.string "group".toList, .string "Home".toList),
      (.string "target".toList, .string "proxy".toList)]])]

theorem migrateBindings_preserves_linked :
    ∃ migrated, migrateBindings linkedConfiguration = some migrated ∧
      deviceLinks migrated = some [⟨"192.168.50.2/32".toList, "Home".toList, 0, "proxy".toList⟩,
        ⟨[], "Home".toList, 0, []⟩] ∧
      migrateBindings migrated = some migrated := by
  obtain ⟨migrated, _, hmigrated, -, -, -, -, -, -, hagain⟩ :=
    migrateBindings_preserves linkedConfiguration
      [⟨[], [], " Home ".toList, "domain-suffix".toList, "example.com".toList, "direct".toList,
        true, 0⟩]
      [⟨"192.168.50.2/32".toList, "Home".toList, 0, "proxy".toList⟩] []
      (by decide) (by decide) (by decide) (.inl rfl) (by decide)
  refine ⟨migrated, hmigrated, ?_, hagain⟩
  have heval : (migrateBindings linkedConfiguration).bind deviceLinks =
      some [⟨"192.168.50.2/32".toList, "Home".toList, 0, "proxy".toList⟩,
        ⟨[], "Home".toList, 0, []⟩] := by
    decide
  rwa [hmigrated, Option.bind_some] at heval

end Sockrocket
