import Sockrocket.Router.RuleMode

/-!
# Precedence in rule mode

`Candidate.precedes` is the order that rule mode has to have, stated on its own: phases first, then the
priority of the link, the priority of the rule, its index, and the narrower link. The assembled rule set
is a list of candidates in that order (`orderedCandidates_sorted`), it holds exactly the candidates of
`IsCandidate` (`mem_orderedCandidates`), and no two candidates that apply to one connection tie
(`eq_of_tied`).
-/

namespace Sockrocket

open Rust StableSort Grouping List

/-! ## The order rule mode has to have -/

/-- The phases of rule mode, in the order in which they are tried. -/
inductive Phase where
  | deviceRule
  | linkedGroup
  | sharedRule
  | chinaDirect
  | deviceFinal
  | globalFinal
deriving DecidableEq, Repr

/-- The position of a phase. -/
def Phase.rank : Phase → Nat
  | .deviceRule => 1
  | .linkedGroup => 2
  | .sharedRule => 3
  | .chinaDirect => 4
  | .deviceFinal => 5
  | .globalFinal => 6

/-- A rule that rule mode may apply, with everything that decides its place. -/
structure Candidate where
  phase : Phase
  linkPriority : Nat
  memberPriority : Int
  index : Nat
  prefixLen : Nat
  entry : RuleEntry
deriving DecidableEq, Repr

/-- The prefix length of the client scope of a compiled rule, 0 if it applies to all clients. -/
def scopeBits (entry : RuleEntry) : Nat :=
  (entry.source.map Prod.snd).getD 0

/-- A candidate from a compiled rule. -/
def Candidate.ofEntry (phase : Phase) (linkPriority : Nat) (memberPriority : Int) (index : Nat)
    (entry : RuleEntry) : Candidate :=
  ⟨phase, linkPriority, memberPriority, index, scopeBits entry, entry⟩

/-- The order of candidates: earlier phase, higher link priority, higher member priority, smaller index,
narrower scope. -/
def Candidate.precedes (a b : Candidate) : Prop :=
  a.phase.rank < b.phase.rank ∨ a.phase.rank = b.phase.rank ∧
    (b.linkPriority < a.linkPriority ∨ a.linkPriority = b.linkPriority ∧
      (b.memberPriority < a.memberPriority ∨ a.memberPriority = b.memberPriority ∧
        (a.index < b.index ∨ a.index = b.index ∧ b.prefixLen < a.prefixLen)))

instance (a b : Candidate) : Decidable (a.precedes b) :=
  inferInstanceAs (Decidable (_ ∨ _))

/-- An enabled saved rule under its index. -/
def IsEnabledRule (rules : List RoutingRule) (index : Nat) (rule : RoutingRule) : Prop :=
  rules[index]? = some rule ∧ rule.enabled = true

/-- The rules that rule mode may apply. `shared` says whether links for all devices take part. -/
inductive IsCandidate (rules : List RoutingRule) (links : List DeviceRuleGroup)
    (explicit shared : Bool) : Candidate → Prop where
  | deviceRule {index : Nat} {rule : RoutingRule} {entry : RuleEntry}
      (hrule : IsEnabledRule rules index rule) (hsource : rule.source ≠ [])
      (hkind : isCatchAll rule.ruleType = false) (hentry : compileEntry (index, rule) = some entry) :
      IsCandidate rules links explicit shared (.ofEntry .deviceRule 0 rule.priority index entry)
  | linkedGroup {index : Nat} {rule : RoutingRule} {link : DeviceRuleGroup} {entry : RuleEntry}
      (hrule : IsEnabledRule rules index rule) (hsource : rule.source = [])
      (hkind : isCatchAll rule.ruleType = false) (hlink : link ∈ links)
      (hgroup : link.group = trim rule.group) (hscope : link.source ≠ [])
      (hentry : compileEntry (index, rule.linkedBy link) = some entry) :
      IsCandidate rules links explicit shared
        (.ofEntry .linkedGroup link.priority rule.priority index entry)
  | sharedGroup {index : Nat} {rule : RoutingRule} {link : DeviceRuleGroup} {entry : RuleEntry}
      (hrule : IsEnabledRule rules index rule) (hsource : rule.source = [])
      (hkind : isCatchAll rule.ruleType = false) (hlink : link ∈ links)
      (hgroup : link.group = trim rule.group) (hscope : link.source = []) (hshared : shared = true)
      (hentry : compileEntry (index, rule.linkedBy link) = some entry) :
      IsCandidate rules links explicit shared
        (.ofEntry .sharedRule link.priority rule.priority index entry)
  | sharedRule {index : Nat} {rule : RoutingRule} {entry : RuleEntry}
      (hrule : IsEnabledRule rules index rule) (hsource : rule.source = [])
      (hkind : isCatchAll rule.ruleType = false) (hfree : explicit = false ∨ trim rule.group = [])
      (hentry : compileEntry (index, rule) = some entry) :
      IsCandidate rules links explicit shared (.ofEntry .sharedRule 0 rule.priority index entry)
  | chinaDirect {index : Nat} {entry : RuleEntry} (hentry : builtinRules[index]? = some entry) :
      IsCandidate rules links explicit shared
        (.ofEntry .chinaDirect 0 0 index ⟨none, none, entry.rule, entry.action⟩)
  | deviceFinal {index : Nat} {rule : RoutingRule} {entry : RuleEntry}
      (hrule : IsEnabledRule rules index rule) (hsource : rule.source ≠ [])
      (hkind : isCatchAll rule.ruleType = true) (hentry : compileEntry (index, rule) = some entry) :
      IsCandidate rules links explicit shared (.ofEntry .deviceFinal 0 rule.priority index entry)
  | globalFinal {index : Nat} {rule : RoutingRule} {entry : RuleEntry}
      (hrule : IsEnabledRule rules index rule) (hsource : rule.source = [])
      (hkind : isCatchAll rule.ruleType = true) (hentry : compileEntry (index, rule) = some entry) :
      IsCandidate rules links explicit shared (.ofEntry .globalFinal 0 rule.priority index entry)
  | fallback (hnone : ∀ index rule, IsEnabledRule rules index rule → rule.source = [] →
        isCatchAll rule.ruleType = false) :
      IsCandidate rules links explicit shared
        (.ofEntry .globalFinal 0 0 0 ⟨none, none, .matchAll, .proxy⟩)

/-! ## One part of the rule set -/

/-- The candidate of a rule in a phase. -/
def candidateOf (phase : Phase) (linkPriority : Nat) (indexed : Nat × RoutingRule) :
    Option Candidate :=
  (compileEntry indexed).map (.ofEntry phase linkPriority indexed.2.priority indexed.1)

/-- The candidates that one call of `from_indexed_config` contributes. -/
def segment (phase : Phase) (linkPriority : Nat) (items : List (Nat × RoutingRule)) :
    List Candidate :=
  (sortBy precedesByPriority items).filterMap (candidateOf phase linkPriority)

variable {items : List (Nat × RoutingRule)}

theorem segment_entries (phase : Phase) (linkPriority : Nat)
    (h : ∀ indexed ∈ items, indexed.2.enabled) :
    (segment phase linkPriority items).map Candidate.entry =
      (RuleSet.fromIndexedConfig items).rules := by
  have hentry : ∀ indexed, (candidateOf phase linkPriority indexed).map Candidate.entry =
      compileEntry indexed := by
    intro indexed
    simp [candidateOf, Candidate.ofEntry, Function.comp_def]
  simp only [segment, RuleSet.fromIndexedConfig, filter_eq_self.mpr h, map_filterMap, hentry]

variable {c : Candidate}

variable {phase : Phase} {linkPriority : Nat}

theorem mem_segment :
    c ∈ segment phase linkPriority items ↔ ∃ index rule entry, (index, rule) ∈ items ∧
      compileEntry (index, rule) = some entry ∧
      c = .ofEntry phase linkPriority rule.priority index entry := by
  simp only [segment, mem_filterMap, mem_sortBy, candidateOf, Option.map_eq_some_iff, Prod.exists]
  constructor
  · rintro ⟨index, rule, hmem, entry, hentry, rfl⟩
    exact ⟨index, rule, entry, hmem, hentry, rfl⟩
  · rintro ⟨index, rule, entry, hmem, hentry, rfl⟩
    exact ⟨index, rule, hmem, entry, hentry, rfl⟩

variable {index : Nat} {rule : RoutingRule}

variable {entry : RuleEntry}

theorem compileEntry_eq_some :
    compileEntry (index, rule) = some entry ↔ ∃ pattern source,
      compilePattern rule.ruleType rule.pattern = some pattern ∧
      compileSource rule.source = some source ∧
      entry = ⟨some index, source, pattern, ruleAction rule.target⟩ := by
  simp only [compileEntry, Option.bind_eq_bind, Option.bind_eq_some_iff, Option.pure_def,
    Option.some.injEq]
  constructor
  · rintro ⟨pattern, hpattern, source, hsource, rfl⟩
    exact ⟨pattern, source, hpattern, hsource, rfl⟩
  · rintro ⟨pattern, source, hpattern, hsource, rfl⟩
    exact ⟨pattern, hpattern, source, hsource, rfl⟩

theorem sourcePrefix_displayCidr {ip : IpAddr} {bits : Nat} (hbits : bits ≤ addressBits ip) :
    sourcePrefix (displayCidr ip bits) = bits := by
  have hsplit : splitOnce "/".toList (displayCidr ip bits) = some (ip.display, decimal bits) := by
    rw [displayCidr, append_assoc]
    exact splitOnce_append (slash_not_mem_display ip) (decimal bits)
  rw [sourcePrefix, hsplit]
  simp [parseUnsigned_bits hbits]

/-- For a normalized source, the prefix length in the text is that of the compiled scope. -/
theorem scopeBits_of_compileEntry
    (hentry : compileEntry (index, rule) = some entry) (hnormal : IsNormalized rule.source) :
    scopeBits entry = sourcePrefix rule.source := by
  obtain ⟨pattern, source, -, hsource, rfl⟩ := compileEntry_eq_some.mp hentry
  by_cases hempty : rule.source = []
  · rw [hempty] at hsource ⊢
    obtain rfl : none = source := by simpa [compileSource] using hsource
    rfl
  obtain ⟨ip, bits, hcompiled, htext, hbits, -⟩ := compileSource_of_normalized hnormal hempty
  rw [hcompiled] at hsource
  obtain rfl : some (ip, bits) = source := by simpa using hsource
  rw [htext, sourcePrefix_displayCidr hbits]
  rfl

/-- The order in which rules reach `from_indexed_config`: by index, and for copies of one rule the
narrower source first. -/
def Arrives (a b : Nat × RoutingRule) : Prop :=
  a.1 < b.1 ∨ a.1 = b.1 ∧ sourcePrefix b.2.source ≤ sourcePrefix a.2.source

theorem precedesByPriority_total (a b : Nat × RoutingRule) :
    precedesByPriority a b ∨ precedesByPriority b a := by
  simp only [precedesByPriority, Bool.or_eq_true, Bool.and_eq_true, decide_eq_true_eq, beq_iff_eq]
  omega

theorem precedesByPriority_trans (a b c : Nat × RoutingRule)
    (hab : precedesByPriority a b) (hbc : precedesByPriority b c) :
    precedesByPriority a c := by
  simp only [precedesByPriority, Bool.or_eq_true, Bool.and_eq_true, decide_eq_true_eq,
    beq_iff_eq] at *
  omega

/-- Sorting by priority and index keeps the narrower source first among copies of one rule. -/
theorem segment_sorted (phase : Phase) (linkPriority : Nat) (harrives : items.Pairwise Arrives)
    (hnormal : ∀ indexed ∈ items, IsNormalized indexed.2.source) :
    (segment phase linkPriority items).Pairwise fun a b => ¬ b.precedes a := by
  have hsorted := pairwise_sortBy precedesByPriority_total precedesByPriority_trans harrives
  have hitems := hsorted.imp_of_mem fun {a b} ha hb h =>
    And.intro h (And.intro (hnormal a (mem_sortBy.mp ha)) (hnormal b (mem_sortBy.mp hb)))
  refine hitems.filterMap (candidateOf phase linkPriority) ?_
  rintro ⟨i, a⟩ ⟨j, b⟩ ⟨⟨hle, hties⟩, hnormalA, hnormalB⟩ c hc d hd
  obtain ⟨entryA, hentryA, rfl⟩ := Option.map_eq_some_iff.mp hc
  obtain ⟨entryB, hentryB, rfl⟩ := Option.map_eq_some_iff.mp hd
  have hbitsA := scopeBits_of_compileEntry hentryA hnormalA
  have hbitsB := scopeBits_of_compileEntry hentryB hnormalB
  simp only [precedesByPriority, Arrives, Bool.or_eq_true, Bool.and_eq_true, decide_eq_true_eq,
    beq_iff_eq] at hle hties
  simp only [Candidate.precedes, Candidate.ofEntry]
  omega

/-! ## The parts of the enabled rules -/

variable {rules : List RoutingRule}

theorem mem_enabledRules :
    (index, rule) ∈ enabledRules rules ↔ IsEnabledRule rules index rule := by
  simp only [enabledRules, IsEnabledRule, mem_filter, mem_map, Prod.exists,
    Prod.mk.injEq, mem_zipIdx_iff_getElem?]
  constructor
  · rintro ⟨⟨rule', index', hget, rfl, rfl⟩, henabled⟩
    exact ⟨hget, henabled⟩
  · rintro ⟨hget, henabled⟩
    exact ⟨⟨rule, index, hget, rfl, rfl⟩, henabled⟩

variable {device final : Bool}

theorem mem_rulePart :
    (index, rule) ∈ rulePart rules device final ↔ IsEnabledRule rules index rule ∧
      (!rule.source.isEmpty) = device ∧ isCatchAll rule.ruleType = final := by
  simp [rulePart, mem_enabledRules]

theorem rulePart_enabled :
    ∀ indexed ∈ rulePart rules device final, indexed.2.enabled := by
  rintro ⟨index, rule⟩ h
  exact (mem_rulePart.mp h).1.2

/-- Rules keep the order of their indices. -/
theorem rulePart_sorted (rules : List RoutingRule) (device final : Bool) :
    (rulePart rules device final).Pairwise fun a b => a.1 < b.1 := by
  have hindices : (rules.zipIdx.map Prod.snd).Pairwise (· < ·) := by
    rw [zipIdx_map_snd]
    exact pairwise_lt_range' ..
  have hindexed : (rules.zipIdx.map fun entry => (entry.2, entry.1)).Pairwise
      fun a b => a.1 < b.1 := by
    rw [pairwise_map] at hindices ⊢
    exact hindices
  exact hindexed.sublist (filter_sublist.trans filter_sublist)

/-! ## Tiers -/

variable {explicit : Bool} {links : List DeviceRuleGroup}

theorem mem_linksByGroup {group : Str} {link : DeviceRuleGroup} :
    link ∈ valuesAt group (linksByGroup links explicit) ↔
      link ∈ links ∧ link.group = group ∧ (explicit ∨ link.source ≠ []) := by
  simp only [mem_valuesAt, linksByGroup, mem_map, mem_filter, mem_sortBy, Prod.mk.injEq]
  constructor
  · rintro ⟨link', ⟨hmem, huse⟩, rfl, rfl⟩
    exact ⟨hmem, rfl, by simpa using huse⟩
  · rintro ⟨hmem, rfl, huse⟩
    exact ⟨link, ⟨hmem, by simpa using huse⟩, rfl, rfl⟩

/-- The links of a group stand narrower first. -/
theorem linksByGroup_sorted (links : List DeviceRuleGroup) (explicit : Bool) (group : Str) :
    (valuesAt group (linksByGroup links explicit)).Pairwise
      fun a b => sourcePrefix b.source ≤ sourcePrefix a.source := by
  have htotal : ∀ a b : DeviceRuleGroup, decide (sourcePrefix b.source ≤ sourcePrefix a.source) ∨
      decide (sourcePrefix a.source ≤ sourcePrefix b.source) := by
    intro a b
    simp only [decide_eq_true_eq]
    omega
  have htrans : ∀ a b c : DeviceRuleGroup,
      decide (sourcePrefix b.source ≤ sourcePrefix a.source) →
      decide (sourcePrefix c.source ≤ sourcePrefix b.source) →
      decide (sourcePrefix c.source ≤ sourcePrefix a.source) := by
    intro a b c hab hbc
    simp only [decide_eq_true_eq] at *
    omega
  have hany : links.Pairwise fun _ _ => True := pairwise_of_forall fun _ _ => trivial
  have hsorted := (pairwise_sortBy htotal htrans hany).imp fun h => of_decide_eq_true h.1
  refine pairwise_map.mpr (List.Pairwise.sublist filter_sublist ?_)
  exact pairwise_map.mpr (hsorted.sublist filter_sublist)

variable {pushed : Nat × RoutingRule} {tier : Tier}

/-- What a global destination rule contributes to the tiers. -/
theorem mem_tierPushes {indexed : Nat × RoutingRule} :
    (tier, pushed) ∈ tierPushes (linksByGroup links explicit) explicit indexed ↔
      ((explicit = false ∨ trim indexed.2.group = []) ∧ tier = (false, 0) ∧ pushed = indexed) ∨
        ∃ link ∈ links, link.group = trim indexed.2.group ∧ (explicit ∨ link.source ≠ []) ∧
          tier = (!link.source.isEmpty, link.priority) ∧
          pushed = (indexed.1, indexed.2.linkedBy link) := by
  simp only [tierPushes, mem_append, mem_map, mem_linksByGroup, Prod.mk.injEq]
  refine or_congr ?_ ?_
  · split
    · rename_i hfree
      simp only [Bool.or_eq_true, Bool.not_eq_true', List.isEmpty_iff] at hfree
      simp [hfree]
    · rename_i hfree
      simp only [Bool.or_eq_true, Bool.not_eq_true', List.isEmpty_iff] at hfree
      simp [hfree]
  · constructor
    · rintro ⟨link, ⟨hmem, hgroup, huse⟩, rfl, rfl⟩
      exact ⟨link, hmem, hgroup, huse, rfl, rfl⟩
    · rintro ⟨link, hmem, hgroup, huse, rfl, rfl⟩
      exact ⟨link, ⟨hmem, hgroup, huse⟩, rfl, rfl⟩

/-- The rules of one tier arrive by index, and the copies of one rule narrower first. -/
theorem tierPushes_sorted (rules : List RoutingRule) (links : List DeviceRuleGroup)
    (explicit : Bool) :
    ((rulePart rules false false).flatMap (tierPushes (linksByGroup links explicit) explicit)).Pairwise
      fun a b => a.1 = b.1 → Arrives a.2 b.2 := by
  have hindex : ∀ indexed, ∀ push ∈ tierPushes (linksByGroup links explicit) explicit indexed,
      push.2.1 = indexed.1 := by
    rintro indexed ⟨tier, pushed⟩ hpush
    rcases mem_tierPushes.mp hpush with ⟨-, -, rfl⟩ | ⟨link, -, -, -, -, rfl⟩ <;> rfl
  rw [pairwise_flatMap]
  constructor
  · rintro ⟨index, rule⟩ -
    unfold tierPushes
    rw [pairwise_append, pairwise_map]
    refine ⟨?_, ?_, ?_⟩
    · split <;> simp
    · exact (linksByGroup_sorted links explicit _).imp fun h _ => .inr ⟨rfl, h⟩
    · -- the rule itself shares a tier only with copies for all devices, which have no prefix
      intro a ha b hb htier
      obtain rfl : a = ((false, 0), (index, rule)) := by
        split at ha
        · simpa using ha
        · cases ha
      obtain ⟨link, -, rfl⟩ := mem_map.mp hb
      have hempty : link.source = [] := by
        simpa using (congrArg Prod.fst htier).symm
      refine .inr ⟨rfl, ?_⟩
      show sourcePrefix link.source ≤ _
      rw [hempty]
      exact Nat.zero_le _
  · refine (rulePart_sorted rules false false).imp fun {a b} hlt x hx y hy _ => .inl ?_
    rw [hindex a x hx, hindex b y hy]
    exact hlt

/-! ## The assembled order -/

/-- The phase of the rules of a tier. -/
def tierPhase (tier : Tier) : Phase :=
  if tier.1 then .linkedGroup else .sharedRule

/-- The candidates of built-in rules. -/
def builtinCandidates (entries : List RuleEntry) : List Candidate :=
  entries.zipIdx.map fun (entry, index) =>
    .ofEntry .chinaDirect 0 0 index ⟨none, none, entry.rule, entry.action⟩

/-- The candidates of the last phase. -/
def finalCandidates (rules : List RoutingRule) : List Candidate :=
  if rulePart rules false true = [] then
    [.ofEntry .globalFinal 0 0 0 ⟨none, none, .matchAll, .proxy⟩]
  else segment .globalFinal 0 (rulePart rules false true)

/-- The candidates in the order in which the rule set holds them. -/
def orderedCandidates (rules : List RoutingRule) (links : List DeviceRuleGroup) (explicit : Bool) :
    List Candidate :=
  segment .deviceRule 0 (rulePart rules true false) ++
    ((tiers rules links explicit).reverse.flatMap fun tier =>
      segment (tierPhase tier.1) tier.1.2 tier.2) ++
    builtinCandidates builtinRules ++ segment .deviceFinal 0 (rulePart rules true true) ++ finalCandidates rules

theorem mem_tiers :
    (∃ items, (tier, items) ∈ tiers rules links explicit ∧ pushed ∈ items) ↔
      ∃ indexed ∈ rulePart rules false false,
        (tier, pushed) ∈ tierPushes (linksByGroup links explicit) explicit indexed := by
  rw [tiers, mem_grouped, mem_flatMap]

/-- Every rule in a tier is enabled, and its source is empty or that of a link. -/
theorem tiers_items {tier : Tier × List (Nat × RoutingRule)}
    (htier : tier ∈ tiers rules links explicit) :
    ∀ indexed ∈ tier.2, indexed.2.enabled ∧
      (indexed.2.source = [] ∨ ∃ link ∈ links, indexed.2.source = link.source) := by
  intro pushed hpushed
  obtain ⟨⟨index, rule⟩, hmem, hpush⟩ := mem_tiers.mp ⟨tier.2, htier, hpushed⟩
  obtain ⟨⟨-, henabled⟩, hsource, -⟩ := mem_rulePart.mp hmem
  rcases mem_tierPushes.mp hpush with ⟨-, -, rfl⟩ | ⟨link, hlink, -, -, -, rfl⟩
  · exact ⟨henabled, .inl (by simpa using hsource)⟩
  · exact ⟨henabled, .inr ⟨link, hlink, rfl⟩⟩

theorem foldl_extend_rules {α : Type} (f : α → RuleSet) (items : List α) (set : RuleSet) :
    items.foldl (fun set item => set.extend (f item)) set =
      { set with rules := set.rules ++ items.flatMap fun item => (f item).rules } := by
  induction items generalizing set with
  | nil => simp
  | cons item rest ih =>
    rw [foldl_cons, ih]
    simp [RuleSet.extend]

theorem foldl_addRule_rules (entries : List RuleEntry) (set : RuleSet) :
    entries.foldl (fun set entry => set.addRule entry.rule entry.action) set =
      { set with rules := set.rules ++
          entries.map fun entry => ⟨none, none, entry.rule, entry.action⟩ } := by
  induction entries generalizing set with
  | nil => simp
  | cons entry rest ih =>
    rw [foldl_cons, ih]
    simp [RuleSet.addRule]

/-- The rule set of rule mode is the list of candidates. -/
theorem ruleModeWithBindings_eq (h : enabledRules rules ≠ []) :
    ruleModeWithBindings rules links explicit =
      ⟨(orderedCandidates rules links explicit).map Candidate.entry, .proxy⟩ := by
  have htiers : (tiers rules links explicit).reverse.flatMap
      (fun tier => (RuleSet.fromIndexedConfig tier.2).rules) =
      ((tiers rules links explicit).reverse.flatMap fun tier =>
        segment (tierPhase tier.1) tier.1.2 tier.2).map Candidate.entry := by
    rw [map_flatMap]
    refine flatMap_congr fun tier htier => ?_
    exact (segment_entries _ _ fun indexed hindexed =>
      (tiers_items (mem_reverse.mp htier) indexed hindexed).1).symm
  have hbuiltin : ∀ entries : List RuleEntry,
      entries.map (fun entry => (⟨none, none, entry.rule, entry.action⟩ : RuleEntry)) =
        (builtinCandidates entries).map Candidate.entry := by
    intro entries
    rw [builtinCandidates, map_map]
    conv_lhs => rw [← zipIdx_map_fst 0 entries, map_map]
    rfl
  unfold ruleModeWithBindings
  rw [if_neg h]
  simp only [foldl_extend_rules, foldl_addRule_rules, orderedCandidates, finalCandidates, htiers,
    hbuiltin, map_append, segment_entries _ _ rulePart_enabled]
  split
  · simp [RuleSet.addRule, RuleSet.extend, RuleSet.fromIndexedConfig, RuleSet.new, Candidate.ofEntry]
  · simp [RuleSet.extend, RuleSet.fromIndexedConfig, RuleSet.new, segment_entries _ _ rulePart_enabled]

/-! ## The order is right -/

variable {a b : Candidate}

/-- An earlier phase is never preceded by a later one. -/
theorem not_precedes_of_rank_lt (h : a.phase.rank < b.phase.rank) :
    ¬ b.precedes a := by
  unfold Candidate.precedes
  omega

theorem phase_of_mem_segment
    (h : c ∈ segment phase linkPriority items) :
    c.phase = phase ∧ c.linkPriority = linkPriority := by
  obtain ⟨index, rule, entry, -, -, rfl⟩ := mem_segment.mp h
  exact ⟨rfl, rfl⟩

variable {entries : List RuleEntry}

theorem mem_builtinCandidates :
    c ∈ builtinCandidates entries ↔ ∃ index entry, entries[index]? = some entry ∧
      c = .ofEntry .chinaDirect 0 0 index ⟨none, none, entry.rule, entry.action⟩ := by
  simp only [builtinCandidates, mem_map, Prod.exists, mem_zipIdx_iff_getElem?]
  constructor
  · rintro ⟨entry, index, hget, rfl⟩
    exact ⟨index, entry, hget, rfl⟩
  · rintro ⟨index, entry, hget, rfl⟩
    exact ⟨entry, index, hget, rfl⟩

theorem phase_of_mem_builtinCandidates
    (h : c ∈ builtinCandidates entries) : c.phase = .chinaDirect := by
  obtain ⟨index, entry, -, rfl⟩ := mem_builtinCandidates.mp h
  rfl

theorem phase_of_mem_finalCandidates (h : c ∈ finalCandidates rules) : c.phase = .globalFinal := by
  unfold finalCandidates at h
  split at h
  · rw [mem_singleton.mp h]
    rfl
  · exact (phase_of_mem_segment h).1

theorem tierLe_total (a b : Tier) : tierLe a b ∨ tierLe b a := by
  rcases a with ⟨_ | _, i⟩ <;> rcases b with ⟨_ | _, j⟩ <;> simp [tierLe] <;> omega

theorem tierLe_trans (a b c : Tier) (hab : tierLe a b) (hbc : tierLe b c) :
    tierLe a c := by
  rcases a with ⟨_ | _, i⟩ <;> rcases b with ⟨_ | _, j⟩ <;> rcases c with ⟨_ | _, k⟩ <;>
    simp [tierLe] at * <;> omega

/-- A higher tier is never preceded by a lower one. -/
theorem not_precedes_of_tierLe {high low : Tier} (hle : tierLe low high) (hne : low ≠ high)
    (ha : a.phase = tierPhase high ∧ a.linkPriority = high.2)
    (hb : b.phase = tierPhase low ∧ b.linkPriority = low.2) : ¬ b.precedes a := by
  obtain ⟨highScoped, highPriority⟩ := high
  obtain ⟨lowScoped, lowPriority⟩ := low
  unfold Candidate.precedes
  rw [ha.1, ha.2, hb.1, hb.2]
  cases highScoped <;> cases lowScoped <;> simp [tierLe, tierPhase, Phase.rank] at * <;> omega

section Sorted

variable {rules : List RoutingRule} {links : List DeviceRuleGroup}

/-- Rules and links with normalized sources. -/
structure NormalizedSources (rules : List RoutingRule) (links : List DeviceRuleGroup) : Prop where
  rules : ∀ rule ∈ rules, IsNormalized rule.source
  links : ∀ link ∈ links, IsNormalized link.source

variable {device final : Bool}

theorem rulePart_normalized (h : NormalizedSources rules links) :
    ∀ indexed ∈ rulePart rules device final, IsNormalized indexed.2.source := by
  rintro ⟨index, rule⟩ hmem
  exact h.rules rule (mem_of_getElem? (mem_rulePart.mp hmem).1.1)

theorem rulePart_arrives : (rulePart rules device final).Pairwise Arrives :=
  (rulePart_sorted rules device final).imp .inl

theorem tiers_sorted (h : NormalizedSources rules links) (explicit : Bool) :
    ((tiers rules links explicit).reverse.flatMap fun tier =>
      segment (tierPhase tier.1) tier.1.2 tier.2).Pairwise fun a b => ¬ b.precedes a := by
  rw [pairwise_flatMap]
  constructor
  · intro tier htier
    have hmem := mem_reverse.mp htier
    refine segment_sorted _ _ (pairwise_of_mem_grouped (tierPushes_sorted rules links explicit) hmem)
      fun indexed hindexed => ?_
    rcases (tiers_items hmem indexed hindexed).2 with hempty | ⟨link, hlink, hsource⟩
    · rw [hempty]
      decide
    · rw [hsource]
      exact h.links link hlink
  · rw [pairwise_reverse]
    refine (pairwise_grouped _ tierLe_total tierLe_trans).imp fun {low high} hlt a ha b hb => ?_
    exact not_precedes_of_tierLe hlt.1 hlt.2 (phase_of_mem_segment ha) (phase_of_mem_segment hb)

theorem builtinCandidates_sorted (entries : List RuleEntry) :
    (builtinCandidates entries).Pairwise fun a b => ¬ b.precedes a := by
  have hindices : (entries.zipIdx.map Prod.snd).Pairwise (· < ·) := by
    rw [zipIdx_map_snd]
    exact pairwise_lt_range' ..
  rw [pairwise_map] at hindices
  refine pairwise_map.mpr (hindices.imp fun {a b} hlt => ?_)
  simp only [Candidate.precedes, Candidate.ofEntry]
  omega

theorem finalCandidates_sorted (h : NormalizedSources rules links) :
    (finalCandidates rules).Pairwise fun a b => ¬ b.precedes a := by
  unfold finalCandidates
  split
  · exact pairwise_singleton ..
  · exact segment_sorted _ _ rulePart_arrives (rulePart_normalized h)

/-- The rule set holds the candidates in the order of precedence. -/
theorem orderedCandidates_sorted (h : NormalizedSources rules links) (explicit : Bool) :
    (orderedCandidates rules links explicit).Pairwise fun a b => ¬ b.precedes a := by
  have hphase : ∀ c, c ∈ ((tiers rules links explicit).reverse.flatMap fun tier =>
      segment (tierPhase tier.1) tier.1.2 tier.2) → c.phase.rank = 2 ∨ c.phase.rank = 3 := by
    intro c hc
    obtain ⟨tier, -, hmem⟩ := mem_flatMap.mp hc
    rw [(phase_of_mem_segment hmem).1]
    unfold tierPhase
    split
    · exact .inl rfl
    · exact .inr rfl
  unfold orderedCandidates
  simp only [pairwise_append, mem_append]
  refine ⟨⟨⟨⟨segment_sorted _ _ rulePart_arrives (rulePart_normalized h), tiers_sorted h explicit, ?_⟩,
    builtinCandidates_sorted _, ?_⟩, segment_sorted _ _ rulePart_arrives (rulePart_normalized h), ?_⟩,
    finalCandidates_sorted h, ?_⟩
  all_goals
    intro a ha b hb
    apply not_precedes_of_rank_lt
  · rw [(phase_of_mem_segment ha).1]
    rcases hphase b hb with hrank | hrank <;> rw [hrank] <;> decide
  · rw [phase_of_mem_builtinCandidates hb]
    rcases ha with ha | ha
    · rw [(phase_of_mem_segment ha).1]
      decide
    · rcases hphase a ha with hrank | hrank <;> rw [hrank] <;> decide
  · rw [(phase_of_mem_segment hb).1]
    rcases ha with (ha | ha) | ha
    · rw [(phase_of_mem_segment ha).1]
      decide
    · rcases hphase a ha with hrank | hrank <;> rw [hrank] <;> decide
    · rw [phase_of_mem_builtinCandidates ha]
      decide
  · rw [phase_of_mem_finalCandidates hb]
    rcases ha with ((ha | ha) | ha) | ha
    · rw [(phase_of_mem_segment ha).1]
      decide
    · rcases hphase a ha with hrank | hrank <;> rw [hrank] <;> decide
    · rw [phase_of_mem_builtinCandidates ha]
      decide
    · rw [(phase_of_mem_segment ha).1]
      decide

end Sorted

/-! ## The candidates are complete -/

theorem rulePart_eq_nil_iff :
    rulePart rules false true = [] ↔ ∀ index rule, IsEnabledRule rules index rule →
      rule.source = [] → isCatchAll rule.ruleType = false := by
  rw [eq_nil_iff_forall_not_mem]
  constructor
  · intro h index rule hrule hsource
    rw [Bool.eq_false_iff]
    intro hkind
    exact h (index, rule) (mem_rulePart.mpr ⟨hrule, by simp [hsource], hkind⟩)
  · rintro h ⟨index, rule⟩ hmem
    obtain ⟨hrule, hsource, hkind⟩ := mem_rulePart.mp hmem
    rw [h index rule hrule (by simpa using hsource)] at hkind
    cases hkind

/-- The rule set holds exactly the candidates, links for all devices taking part when bindings are
explicit. -/
theorem mem_orderedCandidates :
    c ∈ orderedCandidates rules links explicit ↔ IsCandidate rules links explicit explicit c := by
  have hscope : ∀ source : Str, (!source.isEmpty) ↔ source ≠ [] := by simp
  have hglobal : ∀ source : Str, (!source.isEmpty) = false ↔ source = [] := by simp
  simp only [orderedCandidates, mem_append, mem_flatMap, mem_reverse]
  constructor
  · rintro ((((h | ⟨tier, htier, h⟩) | h) | h) | h)
    · obtain ⟨index, rule, entry, hmem, hentry, rfl⟩ := mem_segment.mp h
      obtain ⟨hrule, hsource, hkind⟩ := mem_rulePart.mp hmem
      exact .deviceRule hrule ((hscope _).mp hsource) hkind hentry
    · obtain ⟨index, copy, entry, hmem, hentry, rfl⟩ := mem_segment.mp h
      obtain ⟨⟨index', rule⟩, hpart, hpush⟩ := mem_tiers.mp ⟨tier.2, htier, hmem⟩
      obtain ⟨hrule, hsource, hkind⟩ := mem_rulePart.mp hpart
      rw [hglobal] at hsource
      rcases mem_tierPushes.mp hpush with ⟨hfree, htier, heq⟩ | ⟨link, hlink, hgroup, huse, htier, heq⟩
      · obtain ⟨rfl, rfl⟩ := Prod.mk.injEq .. ▸ heq
        rw [htier]
        exact .sharedRule hrule hsource hkind hfree hentry
      obtain ⟨rfl, rfl⟩ := Prod.mk.injEq .. ▸ heq
      rw [htier]
      by_cases hempty : link.source = []
      · have hexplicit := huse.resolve_right fun hne => hne hempty
        simp only [tierPhase, hempty, isEmpty_nil, Bool.not_true, Bool.false_eq_true, if_false]
        show IsCandidate rules links explicit explicit
          (.ofEntry .sharedRule link.priority rule.priority index entry)
        exact .sharedGroup hrule hsource hkind hlink hgroup hempty hexplicit hentry
      · simp only [tierPhase, (hscope _).mpr hempty, if_true]
        show IsCandidate rules links explicit explicit
          (.ofEntry .linkedGroup link.priority rule.priority index entry)
        exact .linkedGroup hrule hsource hkind hlink hgroup hempty hentry
    · obtain ⟨index, entry, hget, rfl⟩ := mem_builtinCandidates.mp h
      exact .chinaDirect hget
    · obtain ⟨index, rule, entry, hmem, hentry, rfl⟩ := mem_segment.mp h
      obtain ⟨hrule, hsource, hkind⟩ := mem_rulePart.mp hmem
      exact .deviceFinal hrule ((hscope _).mp hsource) hkind hentry
    · unfold finalCandidates at h
      split at h
      · rename_i hnone
        rw [mem_singleton.mp h]
        exact .fallback (rulePart_eq_nil_iff.mp hnone)
      · obtain ⟨index, rule, entry, hmem, hentry, rfl⟩ := mem_segment.mp h
        obtain ⟨hrule, hsource, hkind⟩ := mem_rulePart.mp hmem
        exact .globalFinal hrule ((hglobal _).mp hsource) hkind hentry
  · intro h
    have htier : ∀ {tier : Tier} {index : Nat} {rule copy : RoutingRule} {entry : RuleEntry},
        (index, rule) ∈ rulePart rules false false →
        (tier, (index, copy)) ∈ tierPushes (linksByGroup links explicit) explicit (index, rule) →
        compileEntry (index, copy) = some entry → ∃ tier' ∈ tiers rules links explicit,
          Candidate.ofEntry (tierPhase tier) tier.2 copy.priority index entry ∈
            segment (tierPhase tier'.1) tier'.1.2 tier'.2 := by
      intro tier index rule copy entry hpart hpush hentry
      obtain ⟨items, hitems, hmem⟩ := mem_tiers.mpr ⟨(index, rule), hpart, hpush⟩
      exact ⟨(tier, items), hitems, mem_segment.mpr ⟨index, copy, entry, hmem, hentry, rfl⟩⟩
    cases h with
    | @deviceRule index rule entry hrule hsource hkind hentry =>
      exact .inl <| .inl <| .inl <| .inl <| mem_segment.mpr
        ⟨index, rule, entry, mem_rulePart.mpr ⟨hrule, (hscope _).mpr hsource, hkind⟩, hentry, rfl⟩
    | @linkedGroup index rule link entry hrule hsource hkind hlink hgroup hempty hentry =>
      have hpush : ((!link.source.isEmpty, link.priority), (index, rule.linkedBy link)) ∈
          tierPushes (linksByGroup links explicit) explicit (index, rule) :=
        mem_tierPushes.mpr (.inr ⟨link, hlink, hgroup, .inr hempty, rfl, rfl⟩)
      obtain ⟨tier, hmem, hsegment⟩ := htier
        (mem_rulePart.mpr ⟨hrule, (hglobal _).mpr hsource, hkind⟩) hpush hentry
      simp only [tierPhase, (hscope _).mpr hempty, if_true] at hsegment
      exact .inl <| .inl <| .inl <| .inr ⟨tier, hmem, hsegment⟩
    | @sharedGroup index rule link entry hrule hsource hkind hlink hgroup hempty hshared hentry =>
      have hpush : ((!link.source.isEmpty, link.priority), (index, rule.linkedBy link)) ∈
          tierPushes (linksByGroup links explicit) explicit (index, rule) :=
        mem_tierPushes.mpr (.inr ⟨link, hlink, hgroup, .inl hshared, rfl, rfl⟩)
      obtain ⟨tier, hmem, hsegment⟩ := htier
        (mem_rulePart.mpr ⟨hrule, (hglobal _).mpr hsource, hkind⟩) hpush hentry
      simp only [tierPhase, (hglobal _).mpr hempty, Bool.false_eq_true, if_false] at hsegment
      exact .inl <| .inl <| .inl <| .inr ⟨tier, hmem, hsegment⟩
    | @sharedRule index rule entry hrule hsource hkind hfree hentry =>
      have hpush : (((false, 0) : Tier), (index, rule)) ∈
          tierPushes (linksByGroup links explicit) explicit (index, rule) :=
        mem_tierPushes.mpr (.inl ⟨hfree, rfl, rfl⟩)
      obtain ⟨tier, hmem, hsegment⟩ := htier
        (mem_rulePart.mpr ⟨hrule, (hglobal _).mpr hsource, hkind⟩) hpush hentry
      exact .inl <| .inl <| .inl <| .inr ⟨tier, hmem, hsegment⟩
    | @chinaDirect index entry hentry =>
      exact .inl <| .inl <| .inr <| mem_builtinCandidates.mpr ⟨index, entry, hentry, rfl⟩
    | @deviceFinal index rule entry hrule hsource hkind hentry =>
      exact .inl <| .inr <| mem_segment.mpr
        ⟨index, rule, entry, mem_rulePart.mpr ⟨hrule, (hscope _).mpr hsource, hkind⟩, hentry, rfl⟩
    | @globalFinal index rule entry hrule hsource hkind hentry =>
      have hmem := mem_rulePart.mpr ⟨hrule, (hglobal _).mpr hsource, hkind⟩
      refine .inr ?_
      rw [finalCandidates, if_neg (ne_nil_of_mem hmem)]
      exact mem_segment.mpr ⟨index, rule, entry, hmem, hentry, rfl⟩
    | fallback hnone =>
      refine .inr ?_
      rw [finalCandidates, if_pos (rulePart_eq_nil_iff.mpr hnone)]
      exact mem_singleton.mpr rfl

/-! ## No two rules that apply are tied -/

/-- What validation says about links: a group is named, and a source uses it at most once. -/
structure DistinctLinks (links : List DeviceRuleGroup) : Prop where
  named : ∀ link ∈ links, trim link.group ≠ []
  unique : ∀ link ∈ links, ∀ link' ∈ links, link.source = link'.source →
    link.group = link'.group → link = link'

theorem validateLinks_ok {exits : List ProxyGroupConfig} {seen : List (Str × Str)} {total : Nat}
    (h : validateLinks rules exits links seen total = .ok ()) :
    (∀ link ∈ links, (link.source, link.group) ∉ seen ∧ trim link.group ≠ []) ∧
      (links.map fun link => (link.source, link.group)).Nodup := by
  induction links generalizing seen total with
  | nil => simp
  | cons link rest ih =>
    rw [validateLinks] at h
    split at h
    · cases h
    rename_i hnew
    rw [not_or] at hnew
    split at h
    · cases h
    by_cases hlimit : 65536 <
        if link.source ≠ [] then total + groupSize rules link.group else total
    · simp only [if_pos hlimit] at h
      cases h
    simp only [if_neg hlimit] at h
    obtain ⟨hrest, hnodup⟩ := ih h
    simp only [mem_cons, not_or] at hrest
    refine ⟨fun other hother => ?_, ?_⟩
    · rcases mem_cons.mp hother with rfl | hother
      · exact hnew
      · exact ⟨(hrest other hother).1.2, (hrest other hother).2⟩
    · rw [map_cons, nodup_cons]
      refine ⟨fun hmem => ?_, hnodup⟩
      obtain ⟨other, hother, heq⟩ := mem_map.mp hmem
      exact (hrest other hother).1.1 heq

theorem distinctLinks_of_valid {exits : List ProxyGroupConfig}
    (h : validateDeviceRuleGroups links rules exits = .ok ()) :
    DistinctLinks links := by
  unfold validateDeviceRuleGroups at h
  split at h
  · rename_i hempty
    subst hempty
    exact ⟨nofun, nofun⟩
  · split at h
    · cases h
    · obtain ⟨hlinks, hnodup⟩ := validateLinks_ok h
      refine ⟨fun link hlink => (hlinks link hlink).2, fun link hlink link' hlink' hsource hgroup => ?_⟩
      exact inj_on_of_nodup_map hnodup hlink hlink' (by rw [hsource, hgroup])

variable {client : Option IpAddr}

/-- Copies of one rule for links of equal prefix length that both apply to a client come from one
source. -/
theorem link_source_unique {link link' : DeviceRuleGroup} {entry' : RuleEntry} (hnormal : IsNormalized link.source)
    (hnormal' : IsNormalized link'.source) (hne : link.source ≠ []) (hne' : link'.source ≠ [])
    (hentry : compileEntry (index, rule.linkedBy link) = some entry)
    (hentry' : compileEntry (index, rule.linkedBy link') = some entry')
    (hbits : scopeBits entry = scopeBits entry') (hmatch : sourceMatches entry.source client)
    (hmatch' : sourceMatches entry'.source client) : link.source = link'.source := by
  obtain ⟨_, source, -, hsource, rfl⟩ := compileEntry_eq_some.mp hentry
  obtain ⟨_, source', -, hsource', rfl⟩ := compileEntry_eq_some.mp hentry'
  obtain ⟨ip, bits, hcompiled, htext, -, hnetwork⟩ := compileSource_of_normalized hnormal hne
  obtain ⟨ip', bits', hcompiled', htext', -, hnetwork'⟩ := compileSource_of_normalized hnormal' hne'
  obtain rfl : some (ip, bits) = source :=
    Option.some.inj (hcompiled.symm.trans hsource)
  obtain rfl : some (ip', bits') = source' :=
    Option.some.inj (hcompiled'.symm.trans hsource')
  obtain rfl : bits = bits' := hbits
  cases client with
  | none => cases hmatch
  | some client =>
    rw [htext, htext', network_unique hnetwork hnetwork' hmatch hmatch']

theorem rule_unique {rule' : RoutingRule} (h : IsEnabledRule rules index rule)
    (h' : IsEnabledRule rules index rule') : rule = rule' :=
  Option.some.inj (h.1.symm.trans h'.1)

/-- Neither candidate precedes the other: they agree in everything that decides the place. -/
theorem eq_of_not_precedes (hab : ¬ a.precedes b) (hba : ¬ b.precedes a) :
    a.phase.rank = b.phase.rank ∧ a.linkPriority = b.linkPriority ∧
      a.memberPriority = b.memberPriority ∧ a.index = b.index ∧ a.prefixLen = b.prefixLen := by
  unfold Candidate.precedes at hab hba
  omega

/-- Two candidates that apply to the same client and are tied are the same. -/
theorem eq_of_tied (hlinks : DistinctLinks links)
    (hnormal : NormalizedSources rules links) (ha : IsCandidate rules links explicit explicit a)
    (hb : IsCandidate rules links explicit explicit b)
    (hmatch : sourceMatches a.entry.source client)
    (hmatch' : sourceMatches b.entry.source client) (hab : ¬ a.precedes b)
    (hba : ¬ b.precedes a) : a = b := by
  obtain ⟨hrank, hpriority, -, hindex, hbits⟩ := eq_of_not_precedes hab hba
  -- a group that is named is not that of an ungrouped rule, and links need explicit bindings
  have hfree : ∀ {rule : RoutingRule} {link : DeviceRuleGroup}, link ∈ links →
      link.group = trim rule.group → explicit → ¬ (explicit = false ∨ trim rule.group = []) := by
    rintro rule link hlink hgroup hexplicit (hfalse | hempty)
    · rw [hexplicit] at hfalse
      cases hfalse
    · refine hlinks.named link hlink ?_
      rw [hgroup, hempty]
      rfl
  -- candidates of different phases are not tied
  cases ha <;> cases hb <;> try (simp [Candidate.ofEntry, Phase.rank] at hrank; done)
  all_goals simp only [Candidate.ofEntry] at hindex hpriority hbits hmatch hmatch'
  case deviceRule.deviceRule hrule _ _ hentry _ _ _ hrule' _ _ hentry' =>
    subst hindex
    obtain rfl := rule_unique hrule hrule'
    obtain rfl := Option.some.inj (hentry.symm.trans hentry')
    rfl
  case linkedGroup.linkedGroup link _ hrule _ _ hlink hgroup hscope hentry _ _ link' _ hrule' _ _ hlink'
      hgroup' hscope' hentry' =>
    subst hindex
    obtain rfl := rule_unique hrule hrule'
    have hsource := link_source_unique (hnormal.links link hlink) (hnormal.links link' hlink') hscope
      hscope' hentry hentry' hbits hmatch hmatch'
    obtain rfl := hlinks.unique link hlink link' hlink' hsource (hgroup.trans hgroup'.symm)
    obtain rfl := Option.some.inj (hentry.symm.trans hentry')
    rfl
  case sharedGroup.sharedGroup link _ hrule _ _ hlink hgroup hscope _ hentry _ _ link' _ hrule' _ _
      hlink' hgroup' hscope' _ hentry' =>
    subst hindex
    obtain rfl := rule_unique hrule hrule'
    obtain rfl := hlinks.unique link hlink link' hlink' (hscope.trans hscope'.symm)
      (hgroup.trans hgroup'.symm)
    obtain rfl := Option.some.inj (hentry.symm.trans hentry')
    rfl
  case sharedGroup.sharedRule hrule _ _ hlink hgroup _ hshared _ _ _ _ hrule' _ _ hfree' _ =>
    subst hindex
    obtain rfl := rule_unique hrule hrule'
    exact absurd hfree' (hfree hlink hgroup hshared)
  case sharedRule.sharedGroup hrule _ _ hfree' _ _ _ _ _ hrule' _ _ hlink hgroup _ hshared _ =>
    subst hindex
    obtain rfl := rule_unique hrule hrule'
    exact absurd hfree' (hfree hlink hgroup hshared)
  case sharedRule.sharedRule hrule _ _ _ hentry _ _ _ hrule' _ _ _ hentry' =>
    subst hindex
    obtain rfl := rule_unique hrule hrule'
    obtain rfl := Option.some.inj (hentry.symm.trans hentry')
    rfl
  case chinaDirect.chinaDirect hentry _ _ hentry' =>
    subst hindex
    obtain rfl := Option.some.inj (hentry.symm.trans hentry')
    rfl
  case deviceFinal.deviceFinal hrule _ _ hentry _ _ _ hrule' _ _ hentry' =>
    subst hindex
    obtain rfl := rule_unique hrule hrule'
    obtain rfl := Option.some.inj (hentry.symm.trans hentry')
    rfl
  case globalFinal.globalFinal hrule _ _ hentry _ _ _ hrule' _ _ hentry' =>
    subst hindex
    obtain rfl := rule_unique hrule hrule'
    obtain rfl := Option.some.inj (hentry.symm.trans hentry')
    rfl
  case globalFinal.fallback hrule hsource hkind _ hnone =>
    rw [hnone _ _ hrule hsource] at hkind
    cases hkind
  case fallback.globalFinal hnone _ _ _ hrule hsource hkind _ =>
    rw [hnone _ _ hrule hsource] at hkind
    cases hkind
  case fallback.fallback => rfl

/-! ## First match -/

/-- The candidate applies, and every other candidate that applies comes later. -/
structure IsFirstMatch (rules : List RoutingRule) (links : List DeviceRuleGroup)
    (explicit shared : Bool) (holds : RuleEntry → Bool) (c : Candidate) : Prop where
  candidate : IsCandidate rules links explicit shared c
  applies : holds c.entry = true
  first : ∀ c', IsCandidate rules links explicit shared c' → holds c'.entry = true →
    c' = c ∨ c.precedes c'

theorem compilePattern_of_catchAll {ruleType : Str} (h : isCatchAll ruleType)
    (pattern : Str) : compilePattern ruleType pattern = some .matchAll := by
  simp only [isCatchAll, Bool.or_eq_true, beq_iff_eq] at h
  unfold compilePattern
  rcases h with h | h <;> rw [h] <;> rfl

/-- Some candidate applies to every connection: a global final rule, or the fallback. -/
theorem exists_candidate_applies (router : Router) (rules : List RoutingRule)
    (links : List DeviceRuleGroup) (explicit : Bool) (context : TaskContext) (hostLower : Str)
    (ip : Option IpAddr) (port : Nat) : ∃ c, IsCandidate rules links explicit explicit c ∧
      router.applies context hostLower ip port c.entry := by
  by_cases hfinal : ∃ index rule, IsEnabledRule rules index rule ∧ rule.source = [] ∧
      isCatchAll rule.ruleType
  · obtain ⟨index, rule, hrule, hsource, hkind⟩ := hfinal
    have hentry : compileEntry (index, rule) =
        some ⟨some index, none, .matchAll, ruleAction rule.target⟩ :=
      compileEntry_eq_some.mpr ⟨.matchAll, none, compilePattern_of_catchAll hkind _,
        by rw [hsource]; rfl, rfl⟩
    exact ⟨_, .globalFinal hrule hsource hkind hentry, rfl⟩
  · refine ⟨_, .fallback fun index rule hrule hsource => ?_, rfl⟩
    rw [Bool.eq_false_iff]
    intro hkind
    exact hfinal ⟨index, rule, hrule, hsource, hkind⟩

/-- The first candidate of a list in order that applies comes before every other that applies. -/
theorem find?_first {candidates : List Candidate} {holds : RuleEntry → Bool}
    (hsorted : candidates.Pairwise fun a b => ¬ b.precedes a)
    (hfind : candidates.find? (fun c => holds c.entry) = some c) :
    ∀ c' ∈ candidates, holds c'.entry → c' = c ∨ ¬ c'.precedes c := by
  intro c' hc' happlies
  obtain ⟨-, before, after, rfl, hbefore⟩ := find?_eq_some_iff_append.mp hfind
  rw [mem_append, mem_cons] at hc'
  rcases hc' with hmem | rfl | hmem
  · have hnot := hbefore c' hmem
    rw [happlies] at hnot
    cases hnot
  · exact .inl rfl
  · rw [pairwise_append, pairwise_cons] at hsorted
    exact .inr (hsorted.2.1.1 c' hmem)

section FirstMatch

variable {rules : List RoutingRule} {links : List DeviceRuleGroup} {exits : List ProxyGroupConfig}

theorem compileEntry_isSome {index : Nat} {rule : RoutingRule} (source : Str)
    (hpattern : validatePattern (toAsciiLowercase rule.ruleType) rule.pattern = .ok ())
    (hsource : rule.source = source) {text : Str} (htext : normalizeRuleSource source = .ok text) :
    (compileEntry (index, rule)).isSome := by
  obtain ⟨pattern, hcompiled⟩ := Option.isSome_iff_exists.mp (compilePattern_isSome hpattern)
  obtain ⟨scope, hscope⟩ := Option.isSome_iff_exists.mp (compileSource_isSome htext)
  rw [← hsource] at hscope
  exact Option.isSome_iff_exists.mpr
    ⟨_, compileEntry_eq_some.mpr ⟨pattern, scope, hcompiled, hscope, rfl⟩⟩

/-- Rule mode takes the first match in the order of precedence, and leaves no valid rule out. -/
theorem ruleMode_first_match (explicit : Bool) (router : Router) (context : TaskContext)
    (hostLower : Str) (ip : Option IpAddr) (port : Nat)
    (hrules : ∀ rule ∈ rules, validateRule rule = .ok () ∧ IsNormalized rule.source)
    (hlinks : validateDeviceRuleGroups links rules exits = .ok ())
    (hsources : ∀ link ∈ links, IsNormalized link.source)
    (henabled : ∃ rule ∈ rules, rule.enabled = true)
    (hrouter : router.rules = ruleModeWithBindings rules links explicit) :
    (∃ c, IsFirstMatch rules links explicit explicit (router.applies context hostLower ip port) c ∧
      router.routeLoop context hostLower ip port router.rules.rules = c.entry.action) ∧
      ∀ index rule, IsEnabledRule rules index rule →
        (compileEntry (index, rule)).isSome = true ∧
          ∀ link ∈ links, (compileEntry (index, rule.linkedBy link)).isSome = true := by
  have hnormal : NormalizedSources rules links := ⟨fun rule hrule => (hrules rule hrule).2, hsources⟩
  have hdistinct := distinctLinks_of_valid hlinks
  constructor
  · have hne : enabledRules rules ≠ [] := by
      obtain ⟨rule, hmem, hrule⟩ := henabled
      obtain ⟨index, hget⟩ := getElem?_of_mem hmem
      exact ne_nil_of_mem (mem_enabledRules.mpr ⟨hget, hrule⟩)
    rw [Router.routeLoop_eq, hrouter, ruleModeWithBindings_eq hne, find?_map]
    cases hfind : (orderedCandidates rules links explicit).find?
        (router.applies context hostLower ip port ∘ Candidate.entry) with
    | none =>
      obtain ⟨c, hc, happlies⟩ := exists_candidate_applies router rules links explicit context
        hostLower ip port
      have hnot := find?_eq_none.mp hfind c (mem_orderedCandidates.mpr hc)
      exact absurd happlies hnot
    | some c =>
      have happlies := find?_some hfind
      rw [Function.comp_apply] at happlies
      have hc := mem_orderedCandidates.mp (mem_of_find?_eq_some hfind)
      refine ⟨c, ⟨hc, happlies, fun c' hc' happlies' => ?_⟩, rfl⟩
      rcases find?_first (orderedCandidates_sorted hnormal explicit) hfind c'
        (mem_orderedCandidates.mpr hc') happlies' with heq | hnot
      · exact .inl heq
      by_cases hprecedes : c.precedes c'
      · exact .inr hprecedes
      · simp only [Router.applies, Bool.and_eq_true] at happlies happlies'
        exact .inl (eq_of_tied hdistinct hnormal hc' hc happlies'.1 happlies.1 hnot hprecedes)
  · intro index rule hrule
    obtain ⟨hvalid, -⟩ := hrules rule (mem_of_getElem? hrule.1)
    obtain ⟨-, hpattern, text, htext⟩ := validateRule_ok hvalid hrule.2
    refine ⟨compileEntry_isSome rule.source hpattern rfl htext, fun link hlink => ?_⟩
    exact compileEntry_isSome link.source hpattern rfl (hsources link hlink)

end FirstMatch

/-- A client of a linked device, a linked rule and a final rule: the hypotheses can be met. -/
theorem ruleMode_first_match_linked :
    let rules : List RoutingRule :=
      [⟨[], [], "work".toList, "domain".toList, "example.com".toList, "direct".toList, true, 0⟩,
        ⟨[], [], [], "final".toList, "*".toList, "proxy".toList, true, 0⟩]
    let links : List DeviceRuleGroup :=
      [⟨"192.168.1.0/24".toList, "work".toList, 5, "reject".toList⟩]
    let router : Router := ⟨ruleModeWithBindings rules links true, none⟩
    let context : TaskContext := ⟨some (.v4 0xc0a80105#32), (none, false)⟩
    (∃ c, IsFirstMatch rules links true true
        (router.applies context "example.com".toList none 443) c ∧
      router.routeLoop context "example.com".toList none 443 router.rules.rules = c.entry.action) ∧
      router.routeLoop context "example.com".toList none 443 router.rules.rules = .reject := by
  intro rules links router context
  have hrules : ∀ rule ∈ rules, validateRule rule = .ok () ∧ IsNormalized rule.source := by
    decide
  have hlinks : validateDeviceRuleGroups links rules [] = .ok () := by decide
  have hsources : ∀ link ∈ links, IsNormalized link.source := by decide
  refine ⟨(ruleMode_first_match true router context _ none 443 hrules hlinks hsources
    ⟨_, mem_cons_self .., rfl⟩ rfl).1, ?_⟩
  decide +kernel

/-- Without explicit bindings a link for all devices takes no part: here it would reject the connection
at priority 5, but the rule's own action is taken. -/
theorem ruleMode_ignores_shared_link :
    let rule : RoutingRule :=
      ⟨[], [], "work".toList, "domain".toList, "example.com".toList, "direct".toList, true, 0⟩
    let link : DeviceRuleGroup := ⟨[], "work".toList, 5, "reject".toList⟩
    let router : Router := ⟨ruleModeWithBindings [rule] [link] false, none⟩
    let context : TaskContext := ⟨none, (none, false)⟩
    validateRule rule = .ok () ∧ IsNormalized rule.source ∧
      validateDeviceRuleGroups [link] [rule] [] = .ok () ∧ IsNormalized link.source ∧
      ¬ ∃ c, IsFirstMatch [rule] [link] false true
          (router.applies context "example.com".toList none 443) c ∧
        router.routeLoop context "example.com".toList none 443 router.rules.rules =
          c.entry.action := by
  intro rule link router context
  refine ⟨by decide, by decide, by decide, by decide, ?_⟩
  rintro ⟨c, ⟨hc, -, hfirst⟩, haction⟩
  have hdirect : router.routeLoop context "example.com".toList none 443 router.rules.rules =
      .direct := by decide +kernel
  rw [hdirect] at haction
  have hkind : isCatchAll rule.ruleType = false := by decide
  have hgroup : link.group = trim rule.group := by decide
  have hreject : compileEntry (0, rule.linkedBy link) =
      some ⟨some 0, none, .domain "example.com".toList, .reject⟩ := by decide
  have hcopy : IsCandidate [rule] [link] false true (.ofEntry .sharedRule 5 0 0
      ⟨some 0, none, .domain "example.com".toList, .reject⟩) :=
    .sharedGroup ⟨rfl, rfl⟩ rfl hkind (mem_singleton.mpr rfl) hgroup rfl rfl hreject
  have hsingle : ∀ {index : Nat} {found : RoutingRule}, IsEnabledRule [rule] index found →
      found = rule ∧ index = 0 := by
    rintro (_ | index) found ⟨hget, -⟩
    · exact ⟨by simpa using hget.symm, rfl⟩
    · simp at hget
  rcases hfirst _ hcopy (by decide) with rfl | hprecedes
  · cases haction
  cases hc with
  | deviceRule hrule hsource =>
    obtain ⟨rfl, -⟩ := hsingle hrule
    exact hsource rfl
  | linkedGroup _ _ _ hlink _ hscope =>
    obtain rfl := mem_singleton.mp hlink
    exact hscope rfl
  | sharedGroup hrule _ _ hlink _ _ _ hentry =>
    obtain ⟨rfl, rfl⟩ := hsingle hrule
    obtain rfl := mem_singleton.mp hlink
    obtain rfl := Option.some.inj (hreject.symm.trans hentry)
    cases haction
  | sharedRule => simp [Candidate.precedes, Candidate.ofEntry] at hprecedes
  | chinaDirect => simp [Candidate.precedes, Candidate.ofEntry, Phase.rank] at hprecedes
  | deviceFinal hrule hsource =>
    obtain ⟨rfl, -⟩ := hsingle hrule
    exact hsource rfl
  | globalFinal | fallback => simp [Candidate.precedes, Candidate.ofEntry, Phase.rank] at hprecedes

end Sockrocket
