import Sockrocket.Config.RulesBatch
import Sockrocket.Router.Source

/-!
# Lines of rules

What the readers of `rules_batch` make of a line: `parseOneLine_requests`. A cell between two commas
is read back as it was written if it has no comma of its own. A source in front of a line is
normalized first; `source_scope` says which clients it stands for.
-/

namespace Sockrocket

open Rust
open List hiding contains

/-- A text that can stand between commas and in front of a comment. -/
structure IsCell (s : Str) : Prop where
  word : IsWord s
  comma : ',' ∉ s
  hash : '#' ∉ s

instance (s : Str) : Decidable (IsCell s) :=
  decidable_of_iff (IsWord s ∧ ',' ∉ s ∧ '#' ∉ s) ⟨fun h => ⟨h.1, h.2.1, h.2.2⟩,
    fun h => ⟨h.word, h.comma, h.hash⟩⟩

/-- A character that can stand inside a cell. -/
def Plain (c : Char) : Prop :=
  isWhitespace c = false ∧ c ≠ ',' ∧ c ≠ '#'

variable {s : Str}

theorem IsCell.of_plain (hne : s ≠ []) (h : ∀ c ∈ s, Plain c) : IsCell s :=
  ⟨⟨hne, fun c hc => (h c hc).1⟩, fun hc => (h ',' hc).2.1 rfl, fun hc => (h '#' hc).2.2 rfl⟩

theorem IsCell.plain (h : IsCell s) : ∀ c ∈ s, Plain c := by
  intro c hc
  refine ⟨h.word.2 c hc, ?_, ?_⟩
  · rintro rfl
    exact h.comma hc
  · rintro rfl
    exact h.hash hc

theorem IsCell.trim_eq (h : IsCell s) : trim s = s :=
  h.word.trimmed.trim_eq

/-! ## Targets -/

/-- A target in the spelling that rules are stored with. -/
def IsTarget (target : Str) : Prop :=
  normalizeTarget target = some target

instance (target : Str) : Decidable (IsTarget target) :=
  inferInstanceAs (Decidable (normalizeTarget target = some target))

/-- The built-in targets in the spelling that rules are stored with. -/
def builtinTargets : List Str :=
  ["direct".toList, "proxy".toList, "reject".toList]

variable {target : Str}

/-- What a target can be in the text of a rule. -/
theorem normalizeTarget_cases (h : normalizeTarget s = some target) :
    target ∈ builtinTargets ∨
      (∃ name, target = "group:".toList ++ name ∧ validGroupName name) ∨
      (nodeTargetId target).isSome := by
  unfold normalizeTarget at h
  by_cases hgroup : startsWith s "group:".toList ∧ validGroupName (s.drop 6)
  · rw [if_pos hgroup] at h
    obtain rfl := Option.some.inj h
    obtain ⟨name, rfl⟩ := isPrefixOf_iff_prefix.mp hgroup.1
    exact .inr (.inl ⟨name, rfl, hgroup.2⟩)
  rw [if_neg hgroup] at h
  by_cases hnode : (nodeTargetId s).isSome
  · rw [if_pos hnode] at h
    obtain rfl := Option.some.inj h
    exact .inr (.inr hnode)
  rw [if_neg hnode] at h
  have hnames : ∀ entry ∈ targetNames, entry.2 ∈ builtinTargets := by decide
  obtain ⟨before, after, htable, -⟩ := lookup_eq_some_iff.mp h
  have hentry : (toAsciiLowercase (trim s), target) ∈ targetNames := by
    rw [htable]
    exact mem_append_right _ mem_cons_self
  exact .inl (hnames _ hentry)

variable {name : Str}

theorem isTarget_group (h : validGroupName name) :
    IsTarget ("group:".toList ++ name) :=
  if_pos ⟨ isPrefixOf_iff_prefix.mpr ⟨name, rfl⟩, h⟩

theorem isTarget_node (h : (nodeTargetId target).isSome) :
    IsTarget target := by
  unfold IsTarget normalizeTarget
  rw [if_pos h, ite_self]

theorem isTarget_of_normalizeTarget (h : normalizeTarget s = some target) :
    IsTarget target := by
  rcases normalizeTarget_cases h with hbuiltin | ⟨name, rfl, hname⟩ | hnode
  · have hall : ∀ target ∈ builtinTargets, IsTarget target := by decide
    exact hall target hbuiltin
  · exact isTarget_group hname
  · exact isTarget_node hnode

theorem isTarget_usedTarget (defaultTarget : Str) : IsTarget (usedTarget defaultTarget) := by
  unfold usedTarget
  cases htarget : normalizeTarget defaultTarget with
  | none => exact (by decide : IsTarget "proxy".toList)
  | some target => exact isTarget_of_normalizeTarget htarget

variable {defaultTarget : Str}

theorem isTarget_clashTarget (h : IsTarget defaultTarget) (action : Option Str) :
    IsTarget (clashTarget defaultTarget action) := by
  unfold clashTarget
  cases action with
  | none => exact h
  | some action =>
    simp only
    split
    · exact h
    · exact isTarget_usedTarget action

theorem isCell_of_validGroupName (h : validGroupName name) :
    ∀ c ∈ name, Plain c := by
  simp only [validGroupName, Bool.and_eq_true, all_eq_true, Bool.or_eq_true, beq_iff_eq] at h
  intro c hc
  rcases h.2 c hc with (halpha | rfl) | rfl
  · refine ⟨not_isWhitespace_of_isAlphanumeric halpha, ?_, ?_⟩
    · rintro rfl
      exact absurd halpha (by decide +kernel)
    · rintro rfl
      exact absurd halpha (by decide +kernel)
  · exact ⟨by decide, by decide, by decide⟩
  · exact ⟨by decide, by decide, by decide⟩

theorem isCell_append {head rest : Str} (hhead : IsCell head) (hrest : ∀ c ∈ rest, Plain c) :
    IsCell (head ++ rest) := by
  refine IsCell.of_plain ?_ fun c hc => ?_
  · intro hnil
    exact hhead.word.1 (append_eq_nil_iff.mp hnil).1
  · rcases mem_append.mp hc with hc | hc
    · exact hhead.plain c hc
    · exact hrest c hc

variable {c : Char}

/-- A digit is an ASCII letter or an ASCII decimal digit. -/
theorem isAsciiAlphanumeric_of_isDigit {radix : Nat} (h : isDigit radix c) :
    isAsciiAlphanumeric c := by
  unfold isDigit toDigit at h
  cases hvalue : digitValue c with
  | none => rw [hvalue] at h; cases h
  | some value =>
    unfold digitValue at hvalue
    unfold isAsciiAlphanumeric isAsciiAlphabetic
    split at hvalue
    · rename_i hdigit
      simp [hdigit.1, hdigit.2]
    split at hvalue
    · rename_i hlower
      simp [hlower.1, hlower.2]
    split at hvalue
    · rename_i hupper
      simp [hupper.1, hupper.2]
    · cases hvalue

theorem lt_of_isAsciiAlphanumeric (h : isAsciiAlphanumeric c) :
    c.toNat < 128 := by
  have hbound : ∀ limit : Char, limit.toNat < 128 → c ≤ limit → c.toNat < 128 :=
    fun limit hlimit hle => lt_of_le_of_lt hle hlimit
  simp only [isAsciiAlphanumeric, isAsciiAlphabetic, Bool.or_eq_true, Bool.and_eq_true,
    decide_eq_true_eq] at h
  rcases h with (h | h) | h
  · exact hbound 'z' (by decide) h.2
  · exact hbound 'Z' (by decide) h.2
  · exact hbound '9' (by decide) h.2

/-- ASCII letters and digits are neither white space nor punctuation of the format. -/
theorem plain_of_isAsciiAlphanumeric (h : isAsciiAlphanumeric c) :
    Plain c := by
  have hall : ∀ n < 128, isAsciiAlphanumeric (Char.ofNat n) →
      isWhitespace (Char.ofNat n) = false ∧ Char.ofNat n ≠ ',' ∧ Char.ofNat n ≠ '#' := by
    decide
  have hc := hall c.toNat (lt_of_isAsciiAlphanumeric h)
  rw [Char.ofNat_toNat] at hc
  exact hc h

theorem isAsciiAlphanumeric_asciiLowerChar (c : Char) :
    isAsciiAlphanumeric (asciiLowerChar c) = isAsciiAlphanumeric c := by
  have hall : ∀ n < 128, isAsciiAlphanumeric (asciiLowerChar (Char.ofNat n)) =
      isAsciiAlphanumeric (Char.ofNat n) := by
    decide
  by_cases hupper : 'A' ≤ c ∧ c ≤ 'Z'
  · have hle : c.toNat ≤ 90 := hupper.2
    have hc := hall c.toNat (by omega)
    rwa [Char.ofNat_toNat] at hc
  · rw [asciiLowerChar, if_neg hupper]

/-- A text of ASCII letters and digits, whatever its case, is one cell. -/
theorem isCell_of_toAsciiLowercase (hne : toAsciiLowercase s ≠ [])
    (h : ∀ c ∈ toAsciiLowercase s, isAsciiAlphanumeric c) : IsCell s := by
  refine IsCell.of_plain ?_ fun c hc => ?_
  · rintro rfl
    exact hne rfl
  · have hlower := h _ (mem_map_of_mem hc)
    rw [isAsciiAlphanumeric_asciiLowerChar] at hlower
    exact plain_of_isAsciiAlphanumeric hlower

theorem isCell_of_nodeTargetId (h : (nodeTargetId target).isSome) :
    IsCell target := by
  unfold nodeTargetId stripPrefix at h
  cases hid : ("node:".toList).isPrefixOf? target with
  | none => rw [hid] at h; cases h
  | some id =>
    rw [hid] at h
    rw [← isPrefixOf?_eq_some_iff_append_eq.mp hid]
    refine isCell_append (by decide) fun c hc => ?_
    have hhex : len id = 64 ∧ ∀ c ∈ id, isLowerHexDigit c := by simpa using h
    have hdigit := hhex.2 c hc
    simp only [isLowerHexDigit, Bool.and_eq_true] at hdigit
    exact plain_of_isAsciiAlphanumeric (isAsciiAlphanumeric_of_isDigit hdigit.1)

/-- What a valid target can be. -/
theorem validTarget_cases (h : validTarget target) :
    toAsciiLowercase target ∈
        ["direct".toList, "proxy".toList, "reject".toList, "block".toList] ∨
      (∃ name, target = "group:".toList ++ name ∧ validGroupName name) ∨
      (nodeTargetId target).isSome := by
  unfold validTarget stripPrefix at h
  rw [Bool.or_eq_true, Bool.or_eq_true, contains_iff_mem] at h
  rcases h with (h | h) | h
  · exact .inl h
  · cases hname : ("group:".toList).isPrefixOf? target with
    | none => rw [hname] at h; cases h
    | some name =>
      rw [hname] at h
      exact .inr (.inl
        ⟨name, (isPrefixOf?_eq_some_iff_append_eq.mp hname).symm, h⟩)
  · exact .inr (.inr h)

theorem validTarget_group (h : validGroupName name) :
    validTarget ("group:".toList ++ name) := by
  have hstrip : stripPrefix "group:".toList ("group:".toList ++ name) = some name :=
    isPrefixOf?_eq_some_iff_append_eq.mpr rfl
  unfold validTarget
  rw [hstrip]
  simp [h]

theorem validTarget_of_isTarget (h : IsTarget target) :
    validTarget target := by
  rcases normalizeTarget_cases h with hbuiltin | ⟨name, rfl, hname⟩ | hnode
  · have hall : ∀ target ∈ builtinTargets, validTarget target := by decide
    exact hall target hbuiltin
  · exact validTarget_group hname
  · unfold validTarget
    rw [hnode, Bool.or_true]

theorem exportTarget_group (name : Str) :
    exportTarget ("group:".toList ++ name) = "group:".toList ++ name :=
  if_pos (.inl ( isPrefixOf_iff_prefix.mpr ⟨name, rfl⟩))

theorem exportTarget_node (h : (nodeTargetId target).isSome) :
    exportTarget target = target :=
  if_pos (.inr h)

/-- An exported target is one cell. -/
theorem isCell_exportTarget (h : validTarget target) :
    IsCell (exportTarget target) := by
  rcases validTarget_cases h with hbuiltin | ⟨name, rfl, hname⟩ | hnode
  · unfold exportTarget
    split
    · have hletters : (["direct".toList, "proxy".toList, "reject".toList, "block".toList].all
          fun word => word ≠ [] && word.all isAsciiAlphanumeric) := by decide
      have hword := all_eq_true.mp hletters _ hbuiltin
      simp only [Bool.and_eq_true, decide_eq_true_eq, all_eq_true] at hword
      exact isCell_of_toAsciiLowercase hword.1 hword.2
    split
    · decide
    split <;> decide
  · rw [exportTarget_group]
    exact isCell_append (by decide) (isCell_of_validGroupName hname)
  · rw [exportTarget_node hnode]
    exact isCell_of_nodeTargetId hnode

/-! ## Types -/

/-- The types that rules from a text are stored with. -/
def storedKinds : List Str :=
  ["domain".toList, "domain-suffix".toList, "domain-keyword".toList, "ip-cidr".toList,
    "geoip".toList, "dst-port".toList, "match".toList]

theorem normalizeType_mem (s : Str) : normalizeType s ∈ storedKinds := by
  unfold normalizeType
  cases hkind : typeNames.lookup (toAsciiLowercase s) with
  | none => decide
  | some kind =>
    have hnames : ∀ entry ∈ typeNames, entry.2 ∈ storedKinds := by decide
    obtain ⟨before, after, htable, -⟩ := lookup_eq_some_iff.mp hkind
    have hentry : (toAsciiLowercase s, kind) ∈ typeNames := by
      rw [htable]
      exact mem_append_right _ mem_cons_self
    exact hnames _ hentry

variable {kind : Str}

theorem storedType_eq (h : kind ∈ storedKinds) : storedType kind = kind := by
  have hall : ∀ kind ∈ storedKinds, storedType kind = kind := by decide
  exact hall kind h

/-- The labels that exports are written with. -/
def labels : List Str :=
  ["DOMAIN".toList, "DOMAIN-SUFFIX".toList, "DOMAIN-KEYWORD".toList, "IP-CIDR".toList,
    "GEOIP".toList, "DST-PORT".toList, "MATCH".toList]

theorem exportType_mem (ruleType : Str) : exportType ruleType ∈ labels := by
  unfold exportType
  cases hlabel : typeLabels.lookup ruleType with
  | none => decide
  | some label =>
    have hlabels : ∀ entry ∈ typeLabels, entry.2 ∈ labels := by decide
    obtain ⟨before, after, htable, -⟩ := lookup_eq_some_iff.mp hlabel
    have hentry : (ruleType, label) ∈ typeLabels := by
      rw [htable]
      exact mem_append_right _ mem_cons_self
    exact hlabels _ hentry

variable {label : Str}

theorem looksLikeType_label (h : label ∈ labels) : looksLikeType label := by
  have hall : ∀ label ∈ labels, looksLikeType label := by decide
  exact hall label h

theorem isCell_label (h : label ∈ labels) : IsCell label := by
  have hall : labels.all (fun label => decide (IsCell label)) := by decide
  simpa using all_eq_true.mp hall label h

/-! ## Lines of cells -/

/-- The cells of a line before and behind a comma. -/
theorem cells_append (before after : Str) :
    cells (before ++ ',' :: after) = cells before ++ cells after := by
  unfold cells
  rw [splitOn, splitOnP_append_cons _ _ (by rfl), map_append, filter_append]
  rfl

theorem cells_singleton (h : ',' ∉ s) (hne : trim s ≠ []) : cells s = [trim s] := by
  have hsplit : s.splitOn ',' = [s] := by
    refine splitOnP_eq_singleton fun c hc => ?_
    have hc' : c ≠ ',' := fun heq => h (heq ▸ hc)
    simpa using hc'
  unfold cells
  rw [hsplit]
  simp [hne]

theorem IsCell.cells_eq (h : IsCell s) : cells s = [s] := by
  rw [cells_singleton h.comma (by rw [h.trim_eq]; exact h.word.1), h.trim_eq]

variable {line : Str}

/-- No cell holds a comma, and every cell is trimmed. -/
theorem mem_cells {cell : Str} (h : cell ∈ cells line) :
    cell ≠ [] ∧ Trimmed cell ∧ ',' ∉ cell ∧ ∀ c ∈ cell, c ∈ line := by
  unfold cells at h
  rw [mem_filter, mem_map] at h
  obtain ⟨⟨piece, hpiece, rfl⟩, hne⟩ := h
  refine ⟨by simpa using hne, trimmed_trim piece, fun hc => ?_, fun c hc => ?_⟩
  · have hsep := not_sep_of_mem_splitOnP hpiece ',' (mem_of_mem_trim hc)
    cases hsep
  · exact mem_of_mem_splitOnP hpiece (mem_of_mem_trim hc)

/-! ## Networks -/

theorem plain_of_isIpChar (h : isIpChar c) : Plain c := by
  simp only [isIpChar, Bool.or_eq_true, beq_iff_eq] at h
  rcases h with (hdigit | rfl) | rfl
  · exact plain_of_isAsciiAlphanumeric (isAsciiAlphanumeric_of_isDigit hdigit)
  · exact ⟨by decide, by decide, by decide⟩
  · exact ⟨by decide, by decide, by decide⟩

theorem parseIp_nil : parseIp [] = none := by
  decide

variable {ip : IpAddr}

/-- The text of a network is one cell, however its address is written. -/
theorem isCell_cidr {addr : Str} (h : parseIp addr = some ip) (bits : Nat) :
    IsCell (addr ++ "/".toList ++ decimal bits) := by
  have haddr : IsCell addr := by
    refine IsCell.of_plain ?_ fun c hc => plain_of_isIpChar (isIpChar_of_parseIp h c hc)
    rintro rfl
    rw [parseIp_nil] at h
    cases h
  refine isCell_append (isCell_append haddr ?_) ?_
  · intro c hc
    obtain rfl : c = '/' := by simpa using hc
    exact ⟨by decide, by decide, by decide⟩
  · intro c hc
    exact plain_of_isAsciiAlphanumeric
      (isAsciiAlphanumeric_of_isDigit (isDigit_of_mem_decimal hc))

variable {cidr : Str}

/-- What a network must be for the importer, and what it is stored as. -/
theorem normalizeCidr_ok (h : normalizeCidr s = .ok cidr) :
    ∃ addr bits ip n, s = addr ++ '/' :: bits ∧ '/' ∉ addr ∧ parseIp addr = some ip ∧
      parseUnsigned 255 bits = some n ∧ n ≤ addressBits ip ∧
      cidr = addr ++ "/".toList ++ decimal n := by
  unfold normalizeCidr at h
  cases hsplit : splitOnce "/".toList s with
  | none => rw [hsplit] at h; cases h
  | some parts =>
    obtain ⟨addr, bits⟩ := parts
    obtain ⟨hs, hslash⟩ := splitOnce_eq_some.mp hsplit
    rw [hsplit] at h
    simp only [] at h
    cases hip : parseIp addr with
    | none => rw [hip] at h; cases h
    | some ip =>
      rw [hip] at h
      cases hbits : parseUnsigned 255 bits with
      | none => rw [hbits] at h; cases h
      | some n =>
        rw [hbits] at h
        have hwidth : (if ip.isIpv4 then 32 else 128) = addressBits ip := by
          cases ip <;> rfl
        simp only [hwidth] at h
        by_cases hle : addressBits ip < n
        · rw [if_pos hle] at h
          cases h
        · rw [if_neg hle] at h
          exact ⟨addr, bits, ip, n, hs, hslash, hip, hbits, not_lt.mp hle,
            (Except.ok.inj h).symm⟩

theorem isCell_normalizeCidr (h : normalizeCidr s = .ok cidr) : IsCell cidr := by
  obtain ⟨addr, bits, ip, n, -, -, hip, -, -, rfl⟩ := normalizeCidr_ok h
  exact isCell_cidr hip n

theorem parseIp_of_parseIpv4 {ip : Ipv4Addr} (h : parseIpv4 s = some ip) :
    parseIp s = some (.v4 ip) := by
  unfold parseIpv4 at h
  split at h
  · rename_i octets hread
    obtain rfl := Option.some.inj h
    unfold parseIp
    rw [hread]
  · cases h

/-- A network that normalization has written is left as it is. -/
theorem normalizeRuleSource_displayCidr {bits : Nat} (hbits : bits ≤ addressBits ip)
    (hnetwork : networkOf ip bits = ip) (hmapped : isMapped ip = false) :
    normalizeRuleSource (displayCidr ip bits) = .ok (displayCidr ip bits) := by
  have hcell : IsCell (displayCidr ip bits) := isCell_cidr (parseIp_display ip) bits
  have hslash : contains (displayCidr ip bits) "/".toList := by
    unfold contains displayCidr
    rw [decide_eq_true_eq]
    exact ⟨ip.display, decimal bits, rfl⟩
  unfold normalizeRuleSource
  simp only [hcell.trim_eq, if_neg hcell.word.1, hslash, if_true, parseCidr_displayCidr hbits]
  cases ip with
  | v4 ip => simp only [hnetwork]
  | v6 ip =>
    have hnone : ip.toIpv4Mapped = none := by simpa [isMapped] using hmapped
    simp only [hnone, hnetwork]

theorem isNormalized_nil : IsNormalized [] := by
  decide

variable {source : Str}

/-- Normalizing twice is normalizing once. -/
theorem isNormalized_of_ok {text : Str} (h : normalizeRuleSource source = .ok text) :
    IsNormalized text := by
  rcases normalizeRuleSource_cases h with ⟨-, rfl⟩ | ⟨ip, bits, hbits, hnetwork, hmapped, rfl⟩
  · exact isNormalized_nil
  · exact normalizeRuleSource_displayCidr hbits hnetwork hmapped

/-- A normalized source scopes a rule to the clients of the network that was written, and a blank
one to all of them. -/
theorem source_scope {text : Str} (h : normalizeRuleSource source = .ok text) :
    normalizeRuleSource text = .ok text ∧
      (trim source = [] →
        text = [] ∧ ∀ client, sourceMatches (parseCidr text) (some client) = true) ∧
      (trim source ≠ [] → ∃ network, writtenNetwork source = some network ∧ ∀ client,
        sourceMatches (parseCidr text) (some client) = true ↔ InNetwork client network) := by
  refine ⟨isNormalized_of_ok h, fun hblank => ?_, fun hne => ?_⟩
  · obtain rfl : [] = text := by simpa [normalizeRuleSource, hblank] using h
    exact ⟨rfl, fun client => rfl⟩
  · rcases normalizeRuleSource_written h with ⟨hblank, -⟩ | ⟨ip, bits, hwritten, hbits, -, rfl⟩
    · exact absurd hblank hne
    · refine ⟨(ip, bits), hwritten, fun client => ?_⟩
      rw [parseCidr_displayCidr (by rwa [addressBits_networkOf])]
      exact cidrMatch_networkOf client hbits

theorem source_scope_mapped :
    normalizeRuleSource "::ffff:10.1.2.3/104".toList = .ok "10.0.0.0/8".toList ∧
      normalizeRuleSource "10.0.0.0/8".toList = .ok "10.0.0.0/8".toList := by
  have h : normalizeRuleSource "::ffff:10.1.2.3/104".toList = .ok "10.0.0.0/8".toList := by
    set_option maxRecDepth 10000 in decide
  exact ⟨h, (source_scope h).1⟩

/-! ## Clash lines -/

theorem normalizeType_ne_final (s : Str) : normalizeType s ≠ "final".toList := by
  intro hfinal
  have hmem := normalizeType_mem s
  rw [hfinal] at hmem
  exact absurd hmem (by decide)

variable {more : List Str}

/-- A line with a pattern. -/
theorem parseClashLine_pattern {build : Builder} {pattern : Str}
    (hcells : cells line = kind :: pattern :: more) (hkind : looksLikeType kind)
    (hmatch : normalizeType kind ≠ "match".toList) :
    parseClashLine build line defaultTarget =
      build (normalizeType kind) pattern (clashTarget defaultTarget more.head?) := by
  unfold parseClashLine
  rw [hcells]
  simp only []
  rw [if_neg (by rw [hkind]; decide), if_neg (not_or.mpr ⟨hmatch, normalizeType_ne_final kind⟩)]

/-- A catch-all line. -/
theorem parseClashLine_match {build : Builder} {action : Str}
    (hcells : cells line = kind :: action :: more) (hkind : looksLikeType kind)
    (hmatch : normalizeType kind = "match".toList)
    (htarget : normalizeTarget action = some target) :
    parseClashLine build line defaultTarget = build "match".toList "*".toList target := by
  unfold parseClashLine
  rw [hcells]
  simp only [head?_cons, Option.bind_some, htarget]
  rw [if_neg (by rw [hkind]; decide), if_pos (.inl hmatch), hmatch]

variable {rule : RoutingRule}

/-- What a line with commas must be to give a rule. -/
theorem parseClashLine_ok {build : Builder}
    (h : parseClashLine build line defaultTarget = .ok rule) :
    ∃ kind rest, cells line = kind :: rest ∧ looksLikeType kind ∧
      ((normalizeType kind = "match".toList ∧ ∃ action more target, rest = action :: more ∧
          normalizeTarget action = some target ∧
          build "match".toList "*".toList target = .ok rule) ∨
        (normalizeType kind ≠ "match".toList ∧ ∃ pattern more, rest = pattern :: more ∧
          build (normalizeType kind) pattern (clashTarget defaultTarget more.head?) =
            .ok rule)) := by
  unfold parseClashLine at h
  cases hcells : cells line with
  | nil => rw [hcells] at h; cases h
  | cons kind rest =>
    rw [hcells] at h
    simp only [] at h
    refine ⟨kind, rest, rfl, ?_⟩
    by_cases hkind : looksLikeType kind
    · rw [if_neg (by rw [hkind]; decide)] at h
      refine ⟨hkind, ?_⟩
      by_cases hmatch : normalizeType kind = "match".toList
      · rw [if_pos (.inl hmatch), hmatch] at h
        left
        cases rest with
        | nil => cases h
        | cons action more =>
          rw [head?_cons, Option.bind_some] at h
          cases htarget : normalizeTarget action with
          | none => rw [htarget] at h; cases h
          | some target =>
            rw [htarget] at h
            exact ⟨hmatch, action, more, target, rfl, htarget, h⟩
      · rw [if_neg (not_or.mpr ⟨hmatch, normalizeType_ne_final kind⟩)] at h
        right
        cases rest with
        | nil => cases h
        | cons pattern more => exact ⟨hmatch, pattern, more, rfl, h⟩
    · rw [if_pos (by simpa using hkind)] at h
      cases h

/-! ## Device scopes -/

theorem isSourceLine_append (rest : Str) : isSourceLine ("SOURCE,".toList ++ rest) := by
  have hhead : getTo ("SOURCE,".toList ++ rest) 7 = some "SOURCE,".toList :=
    getTo_append "SOURCE,".toList rest
  unfold isSourceLine
  rw [hhead]
  decide

/-- No label begins like the prefix of a device scope. -/
theorem isSourceLine_label (h : label ∈ labels) (rest : Str) :
    isSourceLine (label ++ rest) = false := by
  have hfirst : ∀ label ∈ labels, label ≠ [] ∧ label.head?.map asciiLowerChar ≠ some 's' := by
    decide
  obtain ⟨hne, hletter⟩ := hfirst label h
  unfold isSourceLine
  cases hget : getTo (label ++ rest) 7 with
  | none => rfl
  | some head =>
    rw [Option.any_some]
    by_contra htrue
    have hlower : toAsciiLowercase head = "source,".toList := by
      rw [Bool.not_eq_false] at htrue
      exact eq_of_beq htrue
    obtain ⟨tail, htail⟩ := prefix_of_getTo hget
    have hhead : head.head?.map asciiLowerChar = some 's' := by
      rw [← head?_map]
      exact congrArg head? hlower
    have hsame : head.head? = label.head? := by
      have hheads := congrArg head? htail
      rw [head?_append_of_ne_nil _ hne] at hheads
      rw [← hheads, head?_append_of_ne_nil]
      rintro rfl
      cases hlower
    exact hletter (hsame ▸ hhead)

theorem contains_comma : contains s ",".toList ↔ ',' ∈ s := by
  unfold contains
  rw [decide_eq_true_eq]
  exact singleton_infix_iff ',' s

/-- A line that begins with a label is a Clash line. -/
theorem parseOneLine_label (h : label ∈ labels) (build : Builder) (rest defaultTarget : Str) :
    parseOneLine build (label ++ ',' :: rest) defaultTarget =
      parseClashLine build (label ++ ',' :: rest) defaultTarget := by
  unfold parseOneLine
  rw [isSourceLine_label h, if_neg (by decide), if_pos]
  exact contains_comma.mpr (by simp)

/-- The rule with a device scope, if there is one. -/
def withSource (source : Str) (rule : RoutingRule) : RoutingRule :=
  if source = [] then rule else { rule with source := source }

/-- Only the source changes, and a rule without a source gets the scope. -/
theorem withSource_eq (h : rule.source = []) :
    withSource source rule = { rule with source := source } := by
  unfold withSource
  split
  · rename_i hsource
    rw [hsource, ← h]
  · rfl

/-- A line with a device scope in front of a Clash line. -/
theorem parseOneLine_source {scope : Str} (h : label ∈ labels) (hscope : ',' ∉ scope)
    (hsource : normalizeRuleSource scope = .ok source) (hne : source ≠ []) (build : Builder)
    (rest defaultTarget : Str) :
    parseOneLine build ("SOURCE,".toList ++ scope ++ ',' :: (label ++ rest)) defaultTarget =
      (parseClashLine build (label ++ rest) defaultTarget).map (withSource source) := by
  have hsplit : splitn 3 ',' ("SOURCE,".toList ++ scope ++ ',' :: (label ++ rest)) =
      ["SOURCE".toList, scope, label ++ rest] := by
    have hfirst : "SOURCE,".toList ++ scope ++ ',' :: (label ++ rest) =
        "SOURCE".toList ++ ',' :: (scope ++ ',' :: (label ++ rest)) := by
      simp
    rw [hfirst]
    simp only [splitn, splitOnce_append (show ',' ∉ "SOURCE".toList by decide),
      splitOnce_append hscope]
  unfold parseOneLine
  rw [append_assoc, isSourceLine_append, if_pos rfl, ← append_assoc]
  unfold parseSourceLine
  rw [hsplit]
  simp only [isSourceLine_label h, hsource, if_neg hne, Bool.false_eq_true, if_false]
  cases parseClashLine build (label ++ rest) defaultTarget with
  | error message => rfl
  | ok rule =>
    unfold withSource
    simp only [Except.map, if_neg hne]

/-! ## What a line asks for -/

/-- A reader of a line fails, or it asks for one rule. -/
def Requests (Asked : Str → Str → Str → Prop) (read : Builder → Except Str RoutingRule) : Prop :=
  (∃ message, ∀ build, read build = .error message) ∨
    ∃ kind pattern target, Asked kind pattern target ∧
      ∀ build, read build = build kind pattern target

/-- What holds of the rule a line asks for. -/
structure Asked (line kind pattern target : Str) : Prop where
  kind : kind ∈ storedKinds
  target : IsTarget target
  comma : ',' ∉ pattern
  hash : '#' ∈ pattern → '#' ∈ line

theorem Requests.error {P : Str → Str → Str → Prop} (message : Str) :
    Requests P fun _ => .error message :=
  .inl ⟨message, fun _ => rfl⟩

theorem Requests.build {P : Str → Str → Str → Prop} {pattern : Str} (h : P kind pattern target) :
    Requests P fun build => build kind pattern target :=
  .inr ⟨kind, pattern, target, h, fun _ => rfl⟩

section Readers

variable {line defaultTarget : Str}

theorem requests_parseClashLine (htarget : IsTarget defaultTarget) :
    Requests (Asked line) fun build => parseClashLine build line defaultTarget := by
  unfold parseClashLine
  cases hcells : cells line with
  | nil => exact Requests.error _
  | cons kind rest =>
    simp only []
    split
    · exact Requests.error _
    split
    · cases haction : rest.head?.bind normalizeTarget with
      | none => exact Requests.error _
      | some target =>
        obtain ⟨action, -, htarget'⟩ := Option.bind_eq_some_iff.mp haction
        exact Requests.build
          ⟨normalizeType_mem kind, isTarget_of_normalizeTarget htarget', by decide,
            fun hhash => absurd hhash (by decide)⟩
    · cases rest with
      | nil => exact Requests.error _
      | cons pattern more =>
        have hmem : pattern ∈ cells line := by
          rw [hcells]
          simp
        have hcell := mem_cells hmem
        exact Requests.build ⟨normalizeType_mem kind, isTarget_clashTarget htarget _,
          hcell.2.2.1, hcell.2.2.2 '#'⟩

theorem mem_of_mem_splitWhitespace {s word : Str} (h : word ∈ splitWhitespace s) {c : Char}
    (hc : c ∈ word) : c ∈ s :=
  mem_of_mem_splitOnP (mem_filter.mp h).1 hc

/-- A pattern made of characters of a line without commas. -/
theorem Asked.of_subset {kind pattern target : Str} (hkind : kind ∈ storedKinds)
    (htarget : IsTarget target) (hcomma : ',' ∉ line) (hsub : ∀ c ∈ pattern, c ∈ line) :
    Asked line kind pattern target :=
  ⟨hkind, htarget, fun hc => hcomma (hsub ',' hc), hsub '#'⟩

theorem requests_parseTypedWords (htarget : IsTarget defaultTarget) (hcomma : ',' ∉ line) :
    Requests (Asked line) fun build => parseTypedWords build line defaultTarget := by
  unfold parseTypedWords
  cases hwords : splitWhitespace line with
  | nil => exact Requests.error _
  | cons kind rest =>
    cases rest with
    | nil =>
      simp only []
      split
      · exact Requests.build ⟨normalizeType_mem kind, htarget, by decide,
          fun hhash => absurd hhash (by decide)⟩
      · exact Requests.error _
    | cons pattern rest =>
      simp only []
      split
      · refine Requests.build (Asked.of_subset (normalizeType_mem kind) htarget hcomma ?_)
        intro c hc
        exact mem_of_mem_splitWhitespace (by rw [hwords]; simp) hc
      · exact Requests.error _

/-- A part of a line asks for no more than the line. -/
theorem Requests.mono {part : Str} {read : Builder → Except Str RoutingRule}
    (h : Requests (Asked part) read) (hsub : ∀ c ∈ part, c ∈ line) :
    Requests (Asked line) read := by
  rcases h with herror | ⟨kind, pattern, target, hasked, hread⟩
  · exact .inl herror
  · exact .inr ⟨kind, pattern, target,
      ⟨hasked.kind, hasked.target, hasked.comma, fun hc => hsub '#' (hasked.hash hc)⟩, hread⟩

section

variable (htarget : IsTarget defaultTarget) (hcomma : ',' ∉ line)

include htarget hcomma

theorem requests_colon {read : Builder → Except Str RoutingRule}
    (hread : Requests (Asked line) read) :
    Requests (Asked line) fun build =>
      match splitOnce ":".toList line with
      | some (kind, pattern) =>
        if looksLikeType kind then build (normalizeType kind) (trim pattern) defaultTarget
        else read build
      | none => read build := by
  cases hsplit : splitOnce ":".toList line with
  | none => exact hread
  | some parts =>
    simp only []
    split
    · obtain ⟨hline, -⟩ := splitOnce_eq_some.mp hsplit
      refine Requests.build (Asked.of_subset (normalizeType_mem _) htarget hcomma ?_)
      intro c hc
      rw [hline]
      simp [mem_of_mem_trim hc]
    · exact hread

theorem requests_autoDetect :
    Requests (Asked line) fun build => autoDetect build line defaultTarget := by
  unfold autoDetect
  split
  · cases hcidr : normalizeCidr (trim line) with
    | error message => exact Requests.error _
    | ok cidr =>
      have hcell := isCell_normalizeCidr hcidr
      exact Requests.build
        ⟨by decide, htarget, hcell.comma, fun hhash => absurd hhash hcell.hash⟩
  split
  · rename_i hipv4
    obtain ⟨ip, hip⟩ := Option.isSome_iff_exists.mp hipv4
    have hcell := isCell_cidr (parseIp_of_parseIpv4 hip) 32
    rw [show decimal 32 = "32".toList by decide, append_assoc] at hcell
    exact Requests.build
      ⟨by decide, htarget, hcell.comma, fun hhash => absurd hhash hcell.hash⟩
  split
  · -- lower case puts neither a comma nor a hash into a text
    have hsub : ∀ c ∈ trimStartMatches '.' (trim line), c ∈ line := fun c hc =>
      mem_of_mem_trim ((dropWhile_suffix _).subset hc)
    refine Requests.build ⟨by decide, htarget, fun hc => hcomma (hsub ',' ?_), fun hc => hsub '#' ?_⟩
    · exact mem_of_mem_toLowercase hc (by decide) (by decide)
    · exact mem_of_mem_toLowercase hc (by decide) (by decide)
  · exact Requests.error _

theorem requests_parseColonLine :
    Requests (Asked line) fun build => parseColonLine build line defaultTarget :=
  requests_colon htarget hcomma (requests_autoDetect htarget hcomma)

theorem requests_parseTypedLeft :
    Requests (Asked line) fun build => parseTypedLeft build line defaultTarget :=
  requests_colon htarget hcomma (requests_parseTypedWords htarget hcomma)

theorem requests_parsePlainLine :
    Requests (Asked line) fun build => parsePlainLine build line defaultTarget := by
  have hcolon := requests_parseColonLine htarget hcomma
  unfold parsePlainLine
  cases hwords : splitWhitespace line with
  | nil => exact hcolon
  | cons kind rest =>
    cases rest with
    | nil => exact hcolon
    | cons pattern more =>
      have hsub : ∀ c ∈ pattern, c ∈ line := fun c hc =>
        mem_of_mem_splitWhitespace (by rw [hwords]; simp) hc
      simp only []
      split
      · cases more with
        | nil =>
          exact Requests.build
            (Asked.of_subset (normalizeType_mem kind) htarget hcomma hsub)
        | cons action more =>
          cases haction : normalizeTarget action with
          | none =>
            simp only [haction]
            exact Requests.error _
          | some target =>
            simp only [haction]
            exact Requests.build (Asked.of_subset (normalizeType_mem kind)
              (isTarget_of_normalizeTarget haction) hcomma hsub)
      · exact hcolon

end

theorem map_eq_ok {α β : Type} {result : Except Str α} {f : α → β} {b : β} :
    result.map f = .ok b ↔ ∃ a, result = .ok a ∧ f a = b := by
  cases result with
  | error message | ok a => simp [Except.map]

theorem map_withSource_nil (result : Except Str RoutingRule) :
    result.map (withSource []) = result := by
  cases result <;> rfl

/-- What a line with a device scope asks for. -/
theorem parseSourceLine_requests (htarget : IsTarget defaultTarget) :
    (∀ build, ∃ message, parseSourceLine build line defaultTarget = .error message) ∨
      ∃ source kind pattern target, IsNormalized source ∧ Asked line kind pattern target ∧
        ∀ build, parseSourceLine build line defaultTarget =
          (build kind pattern target).map (withSource source) := by
  unfold parseSourceLine
  split
  · rename_i head scope rest hsplit
    split
    · exact .inl fun build => ⟨_, rfl⟩
    rcases @requests_parseClashLine rest _ htarget with
      ⟨message, herror⟩ | ⟨kind, pattern, target, hasked, hread⟩
    · exact .inl fun build => ⟨message, by simp only [herror build]⟩
    cases hscope : normalizeRuleSource scope with
    | error message =>
      left
      intro build
      cases hbuild : parseClashLine build rest defaultTarget with
      | error message | ok rule => exact ⟨message, rfl⟩
    | ok source =>
      by_cases hne : source = []
      · left
        intro build
        cases hbuild : parseClashLine build rest defaultTarget with
        | error message => exact ⟨message, rfl⟩
        | ok rule => exact ⟨_, if_pos hne⟩
      · right
        refine ⟨source, kind, pattern, target, isNormalized_of_ok hscope,
          ⟨hasked.kind, hasked.target, hasked.comma, fun hc => ?_⟩, fun build => ?_⟩
        · exact mem_of_mem_splitn (by rw [hsplit]; simp) (hasked.hash hc)
        · have hclash : parseClashLine build rest defaultTarget = build kind pattern target :=
            hread build
          rw [hclash]
          cases build kind pattern target with
          | error message => rfl
          | ok rule =>
            simp only [if_neg hne]
            rw [Except.map, withSource, if_neg hne]
  · exact .inl fun build => ⟨_, rfl⟩

/-- What any line asks for: a rule, and perhaps a device scope for it. -/
theorem parseOneLine_requests (htarget : IsTarget defaultTarget) :
    (∀ build, ∃ message, parseOneLine build line defaultTarget = .error message) ∨
      ∃ source kind pattern target, IsNormalized source ∧ Asked line kind pattern target ∧
        ∀ build, parseOneLine build line defaultTarget =
          (build kind pattern target).map (withSource source) := by
  have hplain : ∀ {read : Builder → Except Str RoutingRule}, Requests (Asked line) read →
      (∀ build, ∃ message, read build = .error message) ∨
        ∃ source kind pattern target, IsNormalized source ∧ Asked line kind pattern target ∧
          ∀ build, read build = (build kind pattern target).map (withSource source) := by
    intro read hread
    rcases hread with ⟨message, herror⟩ | ⟨kind, pattern, target, hasked, hread⟩
    · exact .inl fun build => ⟨message, herror build⟩
    · refine .inr ⟨[], kind, pattern, target, isNormalized_nil, hasked, fun build => ?_⟩
      rw [hread build, map_withSource_nil]
  unfold parseOneLine
  by_cases hsource : isSourceLine line
  · simp only [hsource, if_true]
    exact parseSourceLine_requests htarget
  simp only [hsource, Bool.false_eq_true, if_false]
  by_cases hcontains : contains line ",".toList
  · simp only [hcontains, if_true]
    exact hplain (requests_parseClashLine htarget)
  simp only [hcontains, Bool.false_eq_true, if_false]
  have hcomma : ',' ∉ line := fun hc => hcontains (contains_comma.mpr hc)
  cases hsplit : splitOnce "->".toList line with
  | none => exact hplain (requests_parsePlainLine htarget hcomma)
  | some parts =>
    simp only []
    cases haction : normalizeTarget (trim parts.2) with
    | none => exact .inl fun build => ⟨_, rfl⟩
    | some target =>
      have hsub : ∀ c ∈ trim parts.1, c ∈ line := fun c hc =>
        mem_of_splitOnce hsplit (mem_of_mem_trim hc)
      exact hplain ((requests_parseTypedLeft (isTarget_of_normalizeTarget haction)
        fun hc => hcomma (hsub ',' hc)).mono hsub)

end Readers

end Sockrocket
