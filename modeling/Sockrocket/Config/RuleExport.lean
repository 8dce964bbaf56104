import Sockrocket.Config.RuleImport

/-!
# Exported rules

A rule is exported as one line, and importing that line should give the rule back. The validator
accepts more than the text format can carry: letter case of types and targets, commas and hashes in
keywords, names of groups over several lines. `Exportable` is what the format can carry, and
`export_import` says that it is exactly that.
-/

namespace Sockrocket

open Rust List

/-! ## The line of a rule -/

/-- What stands in front of the pattern. -/
def exportHead (rule : RoutingRule) : Str :=
  (if rule.source = [] then [] else "SOURCE,".toList ++ rule.source ++ ",".toList) ++
    exportType rule.ruleType ++ ",".toList

/-- The rule is a catch-all, and its line carries no pattern. -/
def IsCatchAll (ruleType : Str) : Prop :=
  ruleType = "match".toList ∨ ruleType = "final".toList

instance (ruleType : Str) : Decidable (IsCatchAll ruleType) :=
  inferInstanceAs (Decidable (_ ∨ _))

/-- What stands behind the type. -/
def exportTail (rule : RoutingRule) : Str :=
  if IsCatchAll rule.ruleType then exportTarget rule.target
  else rule.pattern ++ ",".toList ++ exportTarget rule.target

theorem formatRuleClashLine_eq (rule : RoutingRule) :
    formatRuleClashLine rule = exportHead rule ++ exportTail rule := by
  have hline : formatRuleDestinationLine rule =
      exportType rule.ruleType ++ ",".toList ++ exportTail rule := by
    unfold formatRuleDestinationLine exportTail
    by_cases hmatch : IsCatchAll rule.ruleType
    · rw [if_pos hmatch]
      exact if_pos hmatch
    · rw [if_neg hmatch]
      refine (if_neg hmatch).trans ?_
      simp
  unfold formatRuleClashLine exportHead
  rw [hline]
  split
  · rfl
  · simp

theorem plain_of_isNormalized {source : Str} (h : IsNormalized source) : ∀ c ∈ source, Plain c := by
  rcases normalizeRuleSource_cases h with ⟨-, rfl⟩ | ⟨ip, bits, -, -, -, hsource⟩
  · nofun
  · rw [hsource]
    exact (isCell_cidr (parseIp_display ip) bits).plain

/-- Neither white space nor the sign of a comment occurs. -/
def Visible (s : Str) : Prop :=
  ∀ c ∈ s, isWhitespace c = false ∧ c ≠ '#'

theorem visible_of_plain {s : Str} (h : ∀ c ∈ s, Plain c) : Visible s :=
  fun c hc => ⟨(h c hc).1, (h c hc).2.2⟩

theorem Visible.append {s t : Str} (hs : Visible s) (ht : Visible t) : Visible (s ++ t) := by
  intro c hc
  rcases mem_append.mp hc with hc | hc
  · exact hs c hc
  · exact ht c hc

section Line

variable {rule : RoutingRule}

/-- The front of the line has no white space and no comment. -/
theorem exportHead_spec (h : IsNormalized rule.source) :
    IsWord (exportHead rule) ∧ '#' ∉ exportHead rule := by
  have hscope : Visible "SOURCE,".toList := by
    have hword : IsWord "SOURCE,".toList := by decide
    exact fun c hc => ⟨hword.2 c hc, fun heq => absurd (heq ▸ hc) (by decide)⟩
  have hcomma : Visible ",".toList := by
    have hword : IsWord ",".toList := by decide
    exact fun c hc => ⟨hword.2 c hc, fun heq => absurd (heq ▸ hc) (by decide)⟩
  have hlabel : Visible (exportType rule.ruleType) :=
    visible_of_plain (isCell_label (exportType_mem _)).plain
  have hhead : Visible (exportHead rule) := by
    unfold exportHead
    split
    · exact hlabel.append hcomma
    · exact (((hscope.append (visible_of_plain (plain_of_isNormalized h))).append hcomma).append
        hlabel).append hcomma
  refine ⟨⟨?_, fun c hc => (hhead c hc).1⟩, fun hc => (hhead '#' hc).2 rfl⟩
  exact append_ne_nil_of_right_ne_nil _ (by decide)

/-- A line with this front is read as a Clash line for the scope of the rule. -/
theorem parseOneLine_exportHead (h : IsNormalized rule.source) (build : Builder)
    (rest defaultTarget : Str) :
    parseOneLine build (exportHead rule ++ rest) defaultTarget =
      (parseClashLine build (exportType rule.ruleType ++ ',' :: rest) defaultTarget).map
        (withSource rule.source) := by
  have hlabel := exportType_mem rule.ruleType
  unfold exportHead
  by_cases hsource : rule.source = []
  · rw [if_pos hsource, hsource, map_withSource_nil, nil_append, append_assoc]
    exact parseOneLine_label hlabel build rest defaultTarget
  have hcomma : ',' ∉ rule.source := fun hc => (plain_of_isNormalized h ',' hc).2.1 rfl
  have hline := parseOneLine_source hlabel hcomma h hsource build (',' :: rest) defaultTarget
  rw [if_neg hsource, ← hline]
  simp

/-- Whatever follows, the line asks for a rule and keeps its front. -/
theorem row_exportHead (h : IsNormalized rule.source) (rest : Str) :
    ∃ body name, row (exportHead rule ++ rest) = .entry (exportHead rule ++ body) name ∧
      '#' ∉ body := by
  obtain ⟨hword, hhash⟩ := exportHead_spec h
  have htext : ∀ s, trim (exportHead rule ++ s) = exportHead rule ++ trimEnd s := fun _ =>
    trim_append_left hword.trimmed hword.1
  by_cases hrest : '#' ∈ trimEnd rest
  · obtain ⟨body, name, hsplit, hbody⟩ := eq_append_cons_of_mem hrest
    refine ⟨trimEnd body, trim name, ?_, fun hc => hbody (( rdropWhile_prefix _ _).subset hc)⟩
    have hraw : trim (exportHead rule ++ rest) = (exportHead rule ++ body) ++ '#' :: name := by
      rw [htext, hsplit, append_assoc]
    rw [row_hash hraw (by simp [hword.1]) (by simp [hhash, hbody]), htext]
  · refine ⟨trimEnd rest, [], ?_, hrest⟩
    rw [row_plain, htext]
    · rw [htext]
      simp [hword.1]
    · rw [htext]
      simp [hhash, hrest]

/-- The rule behind the front of a line, as far as the line can say. -/
theorem parse_exportHead {host : HostParser} {body defaultTarget : Str} {imported : RoutingRule}
    (h : IsNormalized rule.source) (hhash : '#' ∉ body)
    (hparse : parseOneLine (buildRule host) (exportHead rule ++ body) defaultTarget =
      .ok imported) :
    ∃ cell stored target, ',' ∉ cell ∧ '#' ∉ cell ∧
      buildPattern host (normalizeType (exportType rule.ruleType)) cell = .ok stored ∧
      imported = ⟨rule.source, [], [], normalizeType (exportType rule.ruleType), stored, target,
        true, 0⟩ := by
  have hlabel := exportType_mem rule.ruleType
  have hmem := normalizeType_mem (exportType rule.ruleType)
  have hcells : cells (exportType rule.ruleType ++ ',' :: body) =
      exportType rule.ruleType :: cells body := by
    rw [cells_append, (isCell_label hlabel).cells_eq]
    rfl
  rw [parseOneLine_exportHead h] at hparse
  obtain ⟨built, hbuilt, rfl⟩ := map_eq_ok.mp hparse
  obtain ⟨kind, rest, hkind, -, hcases⟩ := parseClashLine_ok hbuilt
  rw [hcells, cons.injEq] at hkind
  obtain ⟨rfl, rfl⟩ := hkind
  rcases hcases with ⟨hmatch, action, more, target, -, -, hbuild⟩ | ⟨-, pattern, more, hrest, hbuild⟩
  · rw [← hmatch] at hbuild
    obtain ⟨stored, hstored, rfl⟩ := (buildRule_ok hmem).mp hbuild
    exact ⟨"*".toList, stored, target, by decide, by decide, hstored, withSource_eq rfl⟩
  obtain ⟨stored, hstored, rfl⟩ := (buildRule_ok hmem).mp hbuild
  have hcell := mem_cells (hrest ▸ mem_cons_self)
  exact ⟨pattern, stored, _, hcell.2.2.1, fun hc => hhash (hcell.2.2.2 '#' hc), hstored,
    withSource_eq rfl⟩

end Line

/-! ## Targets -/

/-- The target is not one that the exporter writes as the proxy without its being that. -/
def ExportableTarget (target : Str) : Prop :=
  toAsciiLowercase target ∈ ["direct".toList, "reject".toList, "block".toList] →
    target = "direct".toList ∨ target = "reject".toList

instance (target : Str) : Decidable (ExportableTarget target) :=
  inferInstanceAs (Decidable (_ → _))

variable {target : Str}

/-- A target that is known is taken as it is. -/
theorem clashTarget_eq {action : Str} (h : normalizeTarget action = some target)
    (defaultTarget : Str) : clashTarget defaultTarget (some action) = target := by
  have hresolve : ¬ eqIgnoreAsciiCase action "no-resolve".toList := by
    intro heq
    have hlower : toAsciiLowercase action = "no-resolve".toList := eq_of_beq heq
    unfold normalizeTarget at h
    rw [if_neg, if_neg] at h
    · have hword : IsWord action := by
        refine ⟨?_, fun c hc => ?_⟩
        · rintro rfl
          cases hlower
        · have hletters : IsWord "no-resolve".toList := by decide
          rw [← isWhitespace_asciiLowerChar]
          exact hletters.2 _ (hlower ▸ mem_map_of_mem hc)
      rw [hword.trimmed.trim_eq, hlower] at h
      cases h
    · intro hnode
      obtain ⟨id, rfl⟩ := exists_of_nodeTargetId hnode
      cases hlower
    · rintro ⟨hgroup, -⟩
      obtain ⟨name, rfl⟩ := isPrefixOf_iff_prefix.mp hgroup
      cases hlower
  unfold clashTarget
  simp only [if_neg hresolve, h, Option.getD_some]

/-- The built-in targets that validation accepts, in lower case. -/
def validBuiltins : List Str :=
  ["direct".toList, "proxy".toList, "reject".toList, "block".toList]

/-- The built-in targets are no groups and no nodes. -/
theorem stripPrefix_builtin (h : toAsciiLowercase target ∈ validBuiltins) :
    stripPrefix "group:".toList target = none ∧ stripPrefix "node:".toList target = none := by
  have hheads : ∀ word ∈ validBuiltins, word.head? ≠ some 'g' ∧ word.head? ≠ some 'n' := by decide
  obtain ⟨hgroup, hnode⟩ := hheads _ h
  constructor
  · cases hstrip : stripPrefix "group:".toList target with
    | none => rfl
    | some name =>
      rw [← isPrefixOf?_eq_some_iff_append_eq.mp hstrip] at hgroup
      exact absurd rfl hgroup
  · cases hstrip : stripPrefix "node:".toList target with
    | none => rfl
    | some id =>
      rw [← isPrefixOf?_eq_some_iff_append_eq.mp hstrip] at hnode
      exact absurd rfl hnode

theorem ruleAction_builtin (h : toAsciiLowercase target ∈ validBuiltins) :
    ruleAction target =
      if toAsciiLowercase target = "direct".toList then .direct
      else if toAsciiLowercase target = "reject".toList ∨
          toAsciiLowercase target = "block".toList then .reject
      else .proxy := by
  have hascii : validBuiltins.all (fun word => word.all isAscii) := by decide
  have hlower : toLowercase target = toAsciiLowercase target :=
    toLowercase_eq_of_toAsciiLowercase rfl
      (all_eq_true.mp (all_eq_true.mp hascii _ h))
  unfold ruleAction
  rw [(stripPrefix_builtin h).1, (stripPrefix_builtin h).2, hlower]

theorem exportTarget_builtin (h : toAsciiLowercase target ∈ validBuiltins) :
    exportTarget target =
      if target = "direct".toList then "DIRECT".toList
      else if target = "reject".toList then "REJECT".toList
      else "PROXY".toList := by
  unfold exportTarget
  rw [if_neg]
  rintro (hgroup | hnode)
  · obtain ⟨name, rfl⟩ := isPrefixOf_iff_prefix.mp hgroup
    have hstrip := (stripPrefix_builtin h).1
    cases hstrip
  · obtain ⟨id, rfl⟩ := exists_of_nodeTargetId hnode
    have hstrip := (stripPrefix_builtin h).2
    cases hstrip

/-- The target that is read back, and when it stands for the same action. -/
theorem normalizeTarget_export (h : validTarget target) :
    ∃ imported, normalizeTarget (exportTarget target) = some imported ∧
      (ruleAction imported = ruleAction target ↔ ExportableTarget target) := by
  have hsub : ∀ word ∈ ["direct".toList, "reject".toList, "block".toList],
      word ∈ validBuiltins := by decide
  rcases validTarget_cases h with hbuiltin | ⟨name, rfl, hname⟩ | hnode
  · rw [exportTarget_builtin hbuiltin, ruleAction_builtin hbuiltin]
    by_cases hdirect : target = "direct".toList
    · subst hdirect
      exact ⟨"direct".toList, by decide, by decide⟩
    by_cases hreject : target = "reject".toList
    · subst hreject
      exact ⟨"reject".toList, by decide, by decide⟩
    rw [if_neg hdirect, if_neg hreject]
    refine ⟨"proxy".toList, by decide, ?_⟩
    rw [show ruleAction "proxy".toList = .proxy by decide]
    unfold ExportableTarget
    have hwords : ∀ word ∈ validBuiltins,
        ((.proxy = if word = "direct".toList then RouteAction.direct
          else if word = "reject".toList ∨ word = "block".toList then .reject else .proxy) ↔
        word ∉ ["direct".toList, "reject".toList, "block".toList]) := by decide
    rw [hwords _ hbuiltin]
    simp only [hdirect, hreject, or_self, imp_false]
  · refine ⟨"group:".toList ++ name, ?_, iff_of_true rfl ?_⟩
    · rw [exportTarget_group]
      exact isTarget_group hname
    · intro hword
      have hstrip := (stripPrefix_builtin (hsub _ hword)).1
      cases hstrip
  · refine ⟨target, ?_, iff_of_true rfl ?_⟩
    · rw [exportTarget_node hnode]
      exact isTarget_node hnode
    · intro hword
      obtain ⟨id, rfl⟩ := exists_of_nodeTargetId hnode
      have hstrip := (stripPrefix_builtin (hsub _ hword)).2
      cases hstrip

/-! ## The rows of an export -/

/-- Every line after the first one is blank or a comment. -/
def SilentTail (text : Str) : Prop :=
  ∀ raw ∈ (text.splitOn '\n').tail, trim raw = [] ∨ (trim raw).head? = some '#'

instance (text : Str) : Decidable (SilentTail text) :=
  inferInstanceAs (Decidable (∀ raw ∈ _, _))

variable {rows : List Str}

theorem entries_eq_nil {activeGroup : Str} :
    entries activeGroup rows = [] ↔
      ∀ raw ∈ rows, trim raw = [] ∨ (trim raw).head? = some '#' := by
  induction rows generalizing activeGroup with
  | nil => simp [entries]
  | cons raw rest ih =>
    rw [entries]
    by_cases hraw : trim raw = [] ∨ (trim raw).head? = some '#'
    · cases hrow : row raw with
      | silent | directive group => simp [ih, hraw]
      | entry body name => exact absurd hrow (row_comment hraw body name)
    · obtain ⟨body, name, hrow⟩ := row_visible (not_or.mp hraw).1 (not_or.mp hraw).2
      rw [hrow]
      refine iff_of_false (cons_ne_nil _ _) fun hall => hraw (hall raw mem_cons_self)

theorem entries_append (activeGroup : Str) (rows : List Str) :
    ∃ group, ∀ rest, entries activeGroup (rows ++ rest) =
      entries activeGroup rows ++ entries group rest := by
  induction rows generalizing activeGroup with
  | nil => exact ⟨activeGroup, fun rest => rfl⟩
  | cons raw rows ih =>
    simp only [cons_append, entries]
    cases row raw with
    | silent => exact ih activeGroup
    | directive group => exact ih group
    | entry body name =>
      obtain ⟨group, hgroup⟩ := ih activeGroup
      exact ⟨group, fun rest => by simp [hgroup rest]⟩

/-- A text in front of the first line. -/
theorem splitOn_append {head text first : Str} {more : List Str} (hhead : '\n' ∉ head)
    (h : text.splitOn '\n' = first :: more) :
    (head ++ text).splitOn '\n' = (head ++ first) :: more := by
  induction head with
  | nil => exact h
  | cons c head ih =>
    rw [mem_cons, not_or] at hhead
    have hrest := ih hhead.2
    rw [splitOn] at hrest ⊢
    rw [cons_append, splitOnP_cons_eq_if_modifyHead, hrest, if_neg (by simpa using Ne.symm hhead.1)]
    rfl

theorem splitOn_of_not_mem {text : Str} (h : '\n' ∉ text) : text.splitOn '\n' = [text] := by
  refine splitOnP_eq_singleton fun c hc => ?_
  have hne : c ≠ '\n' := fun heq => h (heq ▸ hc)
  simpa using hne

theorem splitOn_ne_nil (text : Str) : text.splitOn '\n' ≠ [] :=
  splitOnP_ne_nil _ _

theorem flatMap_splitOn (h : ∀ raw ∈ rows, '\n' ∉ raw) :
    (rows.flatMap fun raw => raw.splitOn '\n') = rows := by
  induction rows with
  | nil => rfl
  | cons raw rest ih =>
    rw [flatMap_cons, splitOn_of_not_mem (h raw mem_cons_self),
      ih fun raw hraw => h raw (mem_cons_of_mem _ hraw)]
    rfl

theorem groupRulesForDisplay_singleton (rule : RoutingRule) :
    groupRulesForDisplay [rule] = [⟨trim rule.group, [0]⟩] := by
  by_cases hgroup : trim rule.group = []
  · simp [groupRulesForDisplay, groupStep, hgroup]
  · simp [groupRulesForDisplay, groupStep, hgroup, pushIndex]

theorem row_exportHeader :
    row "# Sockrocket rules export — one rule per line".toList = .silent ∧
      row "# @group Name switches group; trailing # is rule name".toList =
        .directive "Name switches group; trailing # is rule name".toList := by
  decide

/-- The headings of an export ask for nothing. -/
theorem entries_exportHeader (activeGroup : Str) (rest : List Str) :
    ∃ group, entries activeGroup (exportHeader ++ rest) = entries group rest := by
  obtain ⟨hfirst, hsecond⟩ := row_exportHeader
  refine ⟨"Name switches group; trailing # is rule name".toList, ?_⟩
  rw [exportHeader, cons_append, cons_append, nil_append, entries, hfirst]
  exact entries_directive hsecond activeGroup rest

/-- What an export of one rule asks for when it is read again: the lines of the group name behind
the first one, and the lines of the rule. -/
theorem entries_export (rule : RoutingRule) :
    ∃ group group', entries [] (lines (formatRulesExport [rule])) =
      entries group ((trim rule.group).splitOn '\n').tail ++
        entries group' ((exportLine rule).splitOn '\n') := by
  obtain ⟨first, more, hfirst⟩ := exists_cons_of_ne_nil (splitOn_ne_nil (trim rule.group))
  have hheader : ∀ raw ∈ exportHeader, '\n' ∉ raw := by decide
  have hrows : (formatRulesExport [rule]).splitOn '\n' =
      exportHeader ++ ("# @group ".toList ++ first) :: (more ++ (exportLine rule).splitOn '\n') := by
    unfold formatRulesExport
    rw [groupRulesForDisplay_singleton, splitOn_intercalate (by simp [exportHeader])]
    simp only [exportBucket, flatMap_append, flatMap_cons, flatMap_nil, append_nil]
    rw [flatMap_splitOn hheader, splitOn_append (by decide) hfirst]
    simp
  obtain ⟨group, hgroup⟩ := entries_exportHeader []
    (("# @group ".toList ++ first) :: (more ++ (exportLine rule).splitOn '\n'))
  obtain ⟨group', hgroup'⟩ := entries_append (trim first) more
  refine ⟨trim first, group', ?_⟩
  rw [entries_lines, hrows, hgroup, entries_directive (row_group first), hgroup', hfirst, tail_cons]

/-! ## Reading one rule back -/

/-- The export of the rule is read back as one rule with the same compiled form. -/
def Reimports (host : HostParser) (defaultTarget : Str) (rule : RoutingRule) : Prop :=
  (parseBatchRules host (formatRulesExport [rule]) defaultTarget).errors = [] ∧
    ∃ imported, (parseBatchRules host (formatRulesExport [rule]) defaultTarget).rules =
        [imported] ∧
      RuleSet.fromConfig [imported] = RuleSet.fromConfig [rule]

theorem fromConfig_eq_iff {rule rule' : RoutingRule} (h : rule.enabled)
    (h' : rule'.enabled) :
    RuleSet.fromConfig [rule] = RuleSet.fromConfig [rule'] ↔
      compileEntry (0, rule) = compileEntry (0, rule') := by
  have hset : ∀ {rule : RoutingRule}, rule.enabled →
      RuleSet.fromConfig [rule] = ⟨(compileEntry (0, rule)).toList, .proxy⟩ := by
    intro rule h
    rw [← fromConfig_singleton h]
    rfl
  rw [hset h, hset h', RuleSet.mk.injEq, and_iff_left rfl]
  cases compileEntry (0, rule) <;> cases compileEntry (0, rule') <;> simp

section Reading

variable {host : HostParser} {defaultTarget : Str} {rule : RoutingRule}

/-- The rest of the line behind its front. -/
def exportRest (rule : RoutingRule) : Str :=
  exportTail rule ++ nameSuffix rule

theorem exportLine_eq (henabled : rule.enabled) :
    exportLine rule = exportHead rule ++ exportRest rule := by
  unfold exportLine exportRest
  rw [henabled, formatRuleClashLine_eq]
  simp

/-- A rule is read back exactly if neither the name of its group nor its own line breaks into
more lines that ask for rules, and its line gives the same compiled form. -/
theorem reimports_iff (henabled : rule.enabled) (hsource : IsNormalized rule.source) :
    Reimports host defaultTarget rule ↔
      SilentTail (trim rule.group) ∧ SilentTail (exportRest rule) ∧
        ∃ first body name imported,
          (∃ more, (exportRest rule).splitOn '\n' = first :: more) ∧
          row (exportHead rule ++ first) = .entry (exportHead rule ++ body) name ∧ '#' ∉ body ∧
          parseOneLine (buildRule host) (exportHead rule ++ body) (usedTarget defaultTarget) =
            .ok imported ∧
          compileEntry (0, imported) = compileEntry (0, rule) := by
  obtain ⟨first, more, hfirst⟩ := exists_cons_of_ne_nil (splitOn_ne_nil (exportRest rule))
  obtain ⟨hword, -⟩ := exportHead_spec hsource
  have hfeed : '\n' ∉ exportHead rule := fun hc => absurd (hword.2 '\n' hc) (by decide)
  obtain ⟨body, name, hrow, hhash⟩ := row_exportHead hsource first
  obtain ⟨group, group', hentries⟩ := entries_export rule
  rw [exportLine_eq henabled, splitOn_append hfeed hfirst, entries_entry hrow] at hentries
  have htail : SilentTail (exportRest rule) ↔ entries group' more = [] := by
    rw [entries_eq_nil, SilentTail, hfirst, tail_cons]
  have hgroup : SilentTail (trim rule.group) ↔
      entries group ((trim rule.group).splitOn '\n').tail = [] := entries_eq_nil.symm
  rw [htail, hgroup]
  have hbatch : ∀ imported,
      ((parseBatchRules host (formatRulesExport [rule]) defaultTarget).errors = [] ∧
        (parseBatchRules host (formatRulesExport [rule]) defaultTarget).rules = [imported]) ↔
      entries group ((trim rule.group).splitOn '\n').tail = [] ∧ entries group' more = [] ∧
        Entry.rule (buildRule host) (usedTarget defaultTarget) ⟨group', exportHead rule ++ body, name⟩ =
          .ok imported := by
    intro imported
    refine batchLoop_eq.trans ?_
    rw [show trim [] = [] from rfl, hentries]
    cases entries group ((trim rule.group).splitOn '\n').tail with
    | nil => simp [and_comm]
    | cons entry rest => simp
  constructor
  · rintro ⟨herrors, imported, hrules, hsame⟩
    obtain ⟨hgroup, hmore, hentry⟩ := (hbatch imported).mp ⟨herrors, hrules⟩
    obtain ⟨parsed, hparsed, rfl⟩ := map_eq_ok.mp hentry
    obtain ⟨cell, stored, target, -, -, -, hbuilt⟩ := parse_exportHead hsource hhash hparsed
    have henabled' : parsed.enabled := by rw [hbuilt]
    exact ⟨hgroup, hmore, first, body, name, parsed, ⟨more, hfirst⟩, hrow, hhash, hparsed,
      (@fromConfig_eq_iff (dressRule parsed name group') rule henabled' henabled).mp hsame⟩
  · rintro ⟨hgroup, hmore, first', body', name', parsed, ⟨more', hfirst'⟩, hrow', -, hparsed, hsame⟩
    obtain ⟨rfl, rfl⟩ := cons.inj (hfirst.symm.trans hfirst')
    obtain ⟨hbody, rfl⟩ := Row.entry.inj (hrow.symm.trans hrow')
    obtain rfl := append_cancel_left hbody
    obtain ⟨cell, stored, target, -, -, -, hbuilt⟩ := parse_exportHead hsource hhash hparsed
    have henabled' : parsed.enabled := by rw [hbuilt]
    obtain ⟨herrors, hrules⟩ := (hbatch _).mpr
      ⟨hgroup, hmore, map_eq_ok.mpr ⟨parsed, hparsed, rfl⟩⟩
    exact ⟨herrors, _, hrules,
      (@fromConfig_eq_iff (dressRule parsed name group') rule henabled' henabled).mpr hsame⟩

/-- The pattern that the line hands to the importer. -/
def sentPattern (rule : RoutingRule) : Str :=
  if IsCatchAll rule.ruleType then "*".toList else trim rule.pattern

/-- The pattern can stand on a line of cells. -/
structure Carried (pattern : Str) : Prop where
  comma : ',' ∉ pattern
  hash : '#' ∉ pattern
  feed : '\n' ∉ pattern
  visible : trim pattern ≠ []

theorem catchAll_iff (ruleType : Str) :
    normalizeType (exportType ruleType) = "match".toList ↔ IsCatchAll ruleType := by
  constructor
  · intro h
    unfold exportType at h
    cases hlabel : typeLabels.lookup ruleType with
    | none =>
      rw [hlabel] at h
      exact absurd h (by decide)
    | some label =>
      have hlabels : ∀ entry ∈ typeLabels, normalizeType entry.2 = "match".toList →
          IsCatchAll entry.1 := by decide
      obtain ⟨before, after, htable, -⟩ := lookup_eq_some_iff.mp hlabel
      have hentry : (ruleType, label) ∈ typeLabels := by
        rw [htable]
        exact mem_append_right _ mem_cons_self
      rw [hlabel] at h
      exact hlabels _ hentry h
  · rintro (rfl | rfl) <;> decide

theorem not_mem_nameSuffix (rule : RoutingRule) : '\n' ∉ nameSuffix rule := by
  unfold nameSuffix
  split
  · nofun
  intro hc
  rcases mem_append.mp hc with hc | hc
  · exact absurd hc (by decide)
  obtain ⟨c, -, hfeed⟩ := mem_map.mp hc
  split at hfeed
  · exact absurd hfeed (by decide)
  · rename_i hne
    exact hne hfeed

theorem IsCell.not_mem_feed {s : Str} (h : IsCell s) : '\n' ∉ s :=
  fun hc => absurd (h.word.2 '\n' hc) (by decide)

theorem IsCell.last {s : Str} (h : IsCell s) (before : Str) :
    ∀ c, (before ++ s).getLast? = some c → isWhitespace c = false := by
  intro c hc
  rw [getLast?_append_of_ne_nil _ h.word.1] at hc
  exact h.word.2 c (mem_of_getLast? hc)

theorem exportTail_spec (hcell : IsCell (exportTarget rule.target))
    (hcarried : IsCatchAll rule.ruleType ∨ Carried rule.pattern) :
    (∀ c, (exportTail rule).getLast? = some c → isWhitespace c = false) ∧
      exportTail rule ≠ [] ∧ '#' ∉ exportTail rule ∧ '\n' ∉ exportTail rule := by
  unfold exportTail
  split
  · exact ⟨hcell.last [], hcell.word.1, hcell.hash, hcell.not_mem_feed⟩
  rename_i hmatch
  have hpattern := hcarried.resolve_left hmatch
  refine ⟨hcell.last _, by simp, ?_, ?_⟩
  · simp [hpattern.hash, hcell.hash]
  · simp [hpattern.feed, hcell.not_mem_feed]

/-- A line whose pattern can be carried is one row, and its text is read without the name. -/
theorem row_exportLine (hsource : IsNormalized rule.source)
    (hcell : IsCell (exportTarget rule.target))
    (hcarried : IsCatchAll rule.ruleType ∨ Carried rule.pattern) :
    (exportRest rule).splitOn '\n' = [exportRest rule] ∧
      ∃ name, row (exportHead rule ++ exportRest rule) =
        .entry (exportHead rule ++ exportTail rule) name := by
  obtain ⟨hlast, hne, hhash, hfeed⟩ := exportTail_spec hcell hcarried
  obtain ⟨hword, hhash'⟩ := exportHead_spec hsource
  have hbody : Trimmed (exportHead rule ++ exportTail rule) := by
    constructor
    · intro c hc
      rw [head?_append_of_ne_nil _ hword.1] at hc
      exact hword.trimmed.head c hc
    · intro c hc
      rw [getLast?_append_of_ne_nil _ hne] at hc
      exact hlast c hc
  have hnil : exportHead rule ++ exportTail rule ≠ [] := append_ne_nil_of_right_ne_nil _ hne
  have hmark : '#' ∉ exportHead rule ++ exportTail rule := by simp [hhash, hhash']
  refine ⟨splitOn_of_not_mem ?_, ?_⟩
  · unfold exportRest
    simp [hfeed, not_mem_nameSuffix rule]
  · unfold exportRest nameSuffix
    split
    · refine ⟨[], ?_⟩
      rw [append_nil, row_plain, hbody.trim_eq]
      · rw [hbody.trim_eq]
        exact hnil
      · rw [hbody.trim_eq]
        exact hmark
    · refine ⟨trim (spaceLineFeeds rule.name), ?_⟩
      rw [← append_assoc, ← append_assoc]
      exact row_name hnil hbody hmark _

/-- What the importer reads from a line whose pattern can be carried. -/
theorem parse_exportLine (hsource : IsNormalized rule.source) {target : Str}
    (htarget : normalizeTarget (exportTarget rule.target) = some target)
    (hcell : IsCell (exportTarget rule.target))
    (hcarried : IsCatchAll rule.ruleType ∨ Carried rule.pattern) (build : Builder) :
    parseOneLine build (exportHead rule ++ exportTail rule) defaultTarget =
      (build (normalizeType (exportType rule.ruleType)) (sentPattern rule) target).map
        (withSource rule.source) := by
  have hlabel := exportType_mem rule.ruleType
  have hcells : ∀ rest, cells (exportType rule.ruleType ++ ',' :: rest) =
      exportType rule.ruleType :: cells rest := by
    intro rest
    rw [cells_append, (isCell_label hlabel).cells_eq]
    rfl
  rw [parseOneLine_exportHead hsource]
  unfold exportTail sentPattern
  by_cases hmatch : IsCatchAll rule.ruleType
  · have hkind := (catchAll_iff rule.ruleType).mpr hmatch
    rw [if_pos hmatch, if_pos hmatch, hkind,
      parseClashLine_match (by rw [hcells, hcell.cells_eq]) (looksLikeType_label hlabel) hkind htarget]
  have hpattern := hcarried.resolve_left hmatch
  have hkind := fun h => hmatch ((catchAll_iff rule.ruleType).mp h)
  have hline : cells (exportType rule.ruleType ++
      ',' :: (rule.pattern ++ ",".toList ++ exportTarget rule.target)) =
      [exportType rule.ruleType, trim rule.pattern, exportTarget rule.target] := by
    rw [hcells, append_assoc]
    change _ :: cells (rule.pattern ++ ',' :: exportTarget rule.target) = _
    rw [cells_append, cells_singleton hpattern.comma hpattern.visible, hcell.cells_eq]
    rfl
  rw [if_neg hmatch, if_neg hmatch,
    parseClashLine_pattern hline (looksLikeType_label hlabel) hkind, head?_cons,
    clashTarget_eq htarget]

theorem compileEntry_eq_iff {imported : RoutingRule} (hsource : imported.source = rule.source)
    (hscope : (compileSource rule.source).isSome)
    (hpattern : (compilePattern rule.ruleType rule.pattern).isSome) :
    compileEntry (0, imported) = compileEntry (0, rule) ↔
      compilePattern imported.ruleType imported.pattern =
          compilePattern rule.ruleType rule.pattern ∧
        ruleAction imported.target = ruleAction rule.target := by
  obtain ⟨scope, hscope⟩ := Option.isSome_iff_exists.mp hscope
  obtain ⟨compiled, hcompiled⟩ := Option.isSome_iff_exists.mp hpattern
  unfold compileEntry
  simp only [hsource, hscope, hcompiled]
  cases compilePattern imported.ruleType imported.pattern with
  | none | some other => simp

/-- A rule whose pattern can be carried is read back exactly if its group is one line, its target
keeps its action, and the pattern is stored with the same compiled form. -/
theorem reimports_carried (henabled : rule.enabled) (hvalid : validateRule rule = .ok ())
    (hsource : IsNormalized rule.source)
    (hcarried : IsCatchAll rule.ruleType ∨ Carried rule.pattern) :
    Reimports host defaultTarget rule ↔
      SilentTail (trim rule.group) ∧ ExportableTarget rule.target ∧
        ∃ stored, buildPattern host (normalizeType (exportType rule.ruleType))
            (sentPattern rule) = .ok stored ∧
          compilePattern (normalizeType (exportType rule.ruleType)) stored =
            compilePattern rule.ruleType rule.pattern := by
  obtain ⟨hvalidTarget, hvalidPattern, -⟩ := validateRule_ok hvalid henabled
  have hcell := isCell_exportTarget hvalidTarget
  obtain ⟨target, htarget, haction⟩ := normalizeTarget_export hvalidTarget
  obtain ⟨hsplit, name, hrow⟩ := row_exportLine hsource hcell hcarried
  have hmem := normalizeType_mem (exportType rule.ruleType)
  have hsilent : SilentTail (exportRest rule) := by
    unfold SilentTail
    rw [hsplit]
    nofun
  have hcompiled : ∀ stored, compileEntry (0, ⟨rule.source, [], [],
      normalizeType (exportType rule.ruleType), stored, target, true, 0⟩) =
        compileEntry (0, rule) ↔
      compilePattern (normalizeType (exportType rule.ruleType)) stored =
          compilePattern rule.ruleType rule.pattern ∧ ExportableTarget rule.target := by
    intro stored
    rw [← haction]
    exact compileEntry_eq_iff rfl (compileSource_isSome hsource)
      (compilePattern_isSome hvalidPattern)
  rw [reimports_iff henabled hsource]
  constructor
  · rintro ⟨hgroup, -, first, body, name', imported, ⟨more, hfirst⟩, hrow', -, hparse, hsame⟩
    obtain ⟨rfl, -⟩ := cons.inj (hsplit.symm.trans hfirst)
    obtain ⟨hbody, -⟩ := Row.entry.inj (hrow.symm.trans hrow')
    obtain rfl := append_cancel_left hbody
    rw [parse_exportLine hsource htarget hcell hcarried] at hparse
    obtain ⟨built, hbuilt, rfl⟩ := map_eq_ok.mp hparse
    obtain ⟨stored, hstored, rfl⟩ := (buildRule_ok hmem).mp hbuilt
    rw [withSource_eq rfl] at hsame
    obtain ⟨hpattern, htarget'⟩ := (hcompiled stored).mp hsame
    exact ⟨hgroup, htarget', stored, hstored, hpattern⟩
  · rintro ⟨hgroup, htarget', stored, hstored, hpattern⟩
    refine ⟨hgroup, hsilent, exportRest rule, exportTail rule, name, _, ⟨[], hsplit⟩, hrow,
      (exportTail_spec hcell hcarried).2.2.1, ?_, (hcompiled stored).mpr ⟨hpattern, htarget'⟩⟩
    rw [parse_exportLine hsource htarget hcell hcarried,
      (buildRule_ok hmem).mpr ⟨stored, hstored, rfl⟩]
    exact congrArg Except.ok (withSource_eq rfl)

end Reading

end Sockrocket
