import Sockrocket.Config.RuleTexts

/-!
# Imported rules and validation

Two checks guard the rules of a configuration: `build_rule` decides what an import stores, and
`validate_rule` what may be saved. They do not agree on every pattern; `Publishable` says on which
they do. Read `buildPattern_cases` first, then `importer_sound`.
-/

namespace Sockrocket

open Rust List Option

/-! ## What is stored -/

section Stored

variable {host : HostParser} {pattern stored : Str}

theorem buildPattern_match : buildPattern host "match".toList pattern = .ok "*".toList :=
  rfl

theorem buildPattern_geoip :
    buildPattern host "geoip".toList pattern =
      if len (trim pattern) = 2 ∧ (trim pattern).all isAsciiAlphabetic then
        .ok (toUppercase (trim pattern))
      else .error (quoted "Invalid GeoIP code" "" pattern) :=
  rfl

theorem buildPattern_cidr : buildPattern host "ip-cidr".toList pattern = normalizeCidr pattern :=
  rfl

theorem buildPattern_domain {kind : Str}
    (h : kind = "domain".toList ∨ kind = "domain-suffix".toList) :
    buildPattern host kind pattern = buildDomain host pattern := by
  rcases h with rfl | rfl <;> rfl

theorem buildPattern_keyword :
    buildPattern host "domain-keyword".toList pattern =
      if toLowercase (trim pattern) = [] ∨
          (toLowercase (trim pattern)).any isWhitespace then
        .error "Keyword must be non-empty without spaces".toList
      else .ok (toLowercase (trim pattern)) :=
  rfl

theorem buildPattern_port :
    buildPattern host "dst-port".toList pattern =
      if validPortPattern (trim pattern) then .ok (trim pattern)
      else .error (quoted "Invalid port" " (e.g. 443 or 1000-2000)" pattern) :=
  rfl

theorem buildDomain_ok : buildDomain host pattern = .ok stored ↔
    asciiDomain host (toLowercase (trimStartMatches '.' (trim pattern))) = some stored ∧
      looksLikeDomain stored := by
  unfold buildDomain
  cases asciiDomain host (toLowercase (trimStartMatches '.' (trim pattern))) with
  | none => simp
  | some s =>
    simp only [some.injEq]
    split
    · rename_i hdomain
      constructor
      · intro h
        obtain rfl := Except.ok.inj h
        exact ⟨rfl, hdomain⟩
      · rintro ⟨rfl, -⟩
        rfl
    · rename_i hdomain
      simp only [reduceCtorEq, false_iff, not_and]
      rintro rfl
      exact hdomain

/-- What the importer stores for a type and a pattern. -/
theorem buildPattern_cases {kind : Str} (hkind : kind ∈ storedKinds)
    (h : buildPattern host kind pattern = .ok stored) :
    (kind = "match".toList ∧ stored = "*".toList) ∨
      (kind = "geoip".toList ∧ len (trim pattern) = 2 ∧
        (trim pattern).all isAsciiAlphabetic ∧ stored = toUppercase (trim pattern)) ∨
      (kind = "ip-cidr".toList ∧ normalizeCidr pattern = .ok stored) ∨
      ((kind = "domain".toList ∨ kind = "domain-suffix".toList) ∧
        asciiDomain host (toLowercase (trimStartMatches '.' (trim pattern))) = some stored ∧
        looksLikeDomain stored) ∨
      (kind = "domain-keyword".toList ∧ stored = toLowercase (trim pattern) ∧ IsWord stored) ∨
      (kind = "dst-port".toList ∧ validPortPattern (trim pattern) ∧
        stored = trim pattern) := by
  simp only [storedKinds, mem_cons, not_mem_nil, or_false] at hkind
  rcases hkind with rfl | rfl | rfl | rfl | rfl | rfl | rfl
  · rw [buildPattern_domain (.inl rfl), buildDomain_ok] at h
    exact .inr (.inr (.inr (.inl ⟨.inl rfl, h⟩)))
  · rw [buildPattern_domain (.inr rfl), buildDomain_ok] at h
    exact .inr (.inr (.inr (.inl ⟨.inr rfl, h⟩)))
  · rw [buildPattern_keyword] at h
    split at h
    · cases h
    rename_i hword
    obtain rfl := Except.ok.inj h
    rw [not_or] at hword
    refine .inr (.inr (.inr (.inr (.inl ⟨rfl, rfl, hword.1, fun c hc => ?_⟩))))
    simpa using fun hc' => hword.2 (any_eq_true.mpr ⟨c, hc, hc'⟩)
  · exact .inr (.inr (.inl ⟨rfl, h⟩))
  · rw [buildPattern_geoip] at h
    split at h
    · rename_i hcode
      exact .inr (.inl ⟨rfl, hcode.1, hcode.2, (Except.ok.inj h).symm⟩)
    · cases h
  · rw [buildPattern_port] at h
    split at h
    · rename_i hport
      exact .inr (.inr (.inr (.inr (.inr ⟨rfl, hport, (Except.ok.inj h).symm⟩))))
    · cases h
  · exact .inl ⟨rfl, (Except.ok.inj h).symm⟩

theorem buildRule_ok {kind target : Str} {rule : RoutingRule} (hkind : kind ∈ storedKinds) :
    buildRule host kind pattern target = .ok rule ↔
      ∃ stored, buildPattern host kind pattern = .ok stored ∧
        rule = ⟨[], [], [], kind, stored, target, true, 0⟩ := by
  unfold buildRule
  rw [storedType_eq hkind]
  cases buildPattern host kind pattern with
  | error message => simp
  | ok stored => simp [eq_comm]

end Stored

/-! ## Ports -/

variable {s : Str}

variable {max n : Nat}

theorem plain_of_mem_parseUnsigned (h : parseUnsigned max s = some n) :
    ∀ c ∈ s, Plain c := by
  have hdigits : ∀ {digits : Str}, digits.all (isDigit 10) → ∀ c ∈ digits, Plain c :=
    fun hall c hc =>
      plain_of_isAsciiAlphanumeric (isAsciiAlphanumeric_of_isDigit (all_eq_true.mp hall c hc))
  simp only [parseUnsigned, ite_none_right_eq_some] at h
  obtain ⟨⟨-, hall, -⟩, -⟩ := h
  split at hall
  · intro c hc
    rcases mem_cons.mp hc with rfl | hc
    · exact ⟨by decide, by decide, by decide⟩
    · exact hdigits hall c hc
  · exact hdigits hall

theorem ne_nil_of_parseUnsigned (h : parseUnsigned max s = some n) :
    s ≠ [] := by
  rintro rfl
  cases h

theorem trim_of_parseUnsigned (h : parseUnsigned max s = some n) :
    trim s = s :=
  (IsCell.of_plain (ne_nil_of_parseUnsigned h) (plain_of_mem_parseUnsigned h)).trim_eq

/-- A port pattern the importer accepts is one cell and a range in order. -/
theorem parsePortRange_of_valid (h : validPortPattern s) :
    IsCell s ∧ ∃ min max, parsePortRange s = some (min, max) ∧ min ≤ max := by
  unfold validPortPattern at h
  cases hsplit : splitOnce "-".toList s with
  | none =>
    rw [hsplit] at h
    obtain ⟨port, hport⟩ := isSome_iff_exists.mp h
    refine ⟨IsCell.of_plain (ne_nil_of_parseUnsigned hport) (plain_of_mem_parseUnsigned hport),
      port, port, ?_, le_rfl⟩
    simp only [parsePortRange, trim_of_parseUnsigned hport,
      if_neg (ne_nil_of_parseUnsigned hport), hsplit, hport, map_some]
  | some parts =>
    obtain ⟨a, b⟩ := parts
    rw [hsplit] at h
    simp only [] at h
    cases ha : parseUnsigned 65535 a with
    | none => rw [ha] at h; cases h
    | some min =>
      cases hb : parseUnsigned 65535 b with
      | none => rw [ha, hb] at h; cases h
      | some max =>
        rw [ha, hb] at h
        have hle : min ≤ max := by simpa using h
        obtain rfl : s = a ++ '-' :: b := (splitOnce_eq_some.mp hsplit).1
        have hcell : IsCell (a ++ '-' :: b) := by
          refine IsCell.of_plain (by simp) fun c hc => ?_
          rcases mem_append.mp hc with hc | hc
          · exact plain_of_mem_parseUnsigned ha c hc
          rcases mem_cons.mp hc with rfl | hc
          · exact ⟨by decide, by decide, by decide⟩
          · exact plain_of_mem_parseUnsigned hb c hc
        refine ⟨hcell, min, max, ?_, hle⟩
        simp only [parsePortRange, hcell.trim_eq, if_neg hcell.word.1, hsplit,
          trim_of_parseUnsigned ha, trim_of_parseUnsigned hb, ha, hb,
          bind_eq_bind, bind_some, if_pos hle]

/-! ## Domains -/

theorem domainShape_chars (h : domainShape s) :
    s ≠ [] ∧ s.head? ≠ some '.' ∧ ∀ c ∈ s, isAsciiAlphanumeric c ∨ c = '-' ∨ c = '.' := by
  unfold domainShape at h
  split at h
  · cases h
  rename_i hlen
  split at h
  · cases h
  rename_i hends
  refine ⟨(not_or.mp hlen).1, ?_, ?_⟩
  · intro hhead
    have hdot : startsWith s ['.'] := startsWith_singleton.mpr hhead
    simp [hdot] at hends
  · intro c hc
    split at h
    · have hall := all_eq_true.mp h c hc
      simp only [Bool.or_eq_true, beq_iff_eq] at hall
      tauto
    rw [Bool.and_eq_true] at h
    have hall := all_eq_true.mp h.1 c hc
    simp only [Bool.or_eq_true, beq_iff_eq] at hall
    tauto

/-- A text that looks like a domain has a character other than dots and white space. -/
theorem exists_mem_of_looksLikeDomain (h : looksLikeDomain s) :
    ∃ c ∈ s, c ≠ '.' := by
  obtain ⟨hne, hhead, -⟩ := domainShape_chars h
  obtain ⟨c, rest, hs⟩ := exists_cons_of_ne_nil hne
  refine ⟨c, mem_of_mem_trim ((dropWhile_suffix _).subset (hs ▸ mem_cons_self)), ?_⟩
  rintro rfl
  rw [hs] at hhead
  exact hhead rfl

/-! ## Agreement of the two checks -/

/-- The importer and the validator agree on the pattern: the domain has no white space, the
keyword is more than dots, and port zero is not in the range. -/
structure Publishable (host : HostParser) (kind pattern : Str) : Prop where
  domain : kind = "domain".toList ∨ kind = "domain-suffix".toList →
    ∀ s, asciiDomain host (toLowercase (trimStartMatches '.' (trim pattern))) = some s →
      looksLikeDomain s = true → s.any isWhitespace = false
  keyword : kind = "domain-keyword".toList → (∀ c ∈ trim pattern, c = '.') → trim pattern = []
  port : kind = "dst-port".toList → validPortPattern (trim pattern) = true →
    ((parsePortRange (trim pattern)).any fun range => 0 < range.1) = true

/-- The rule set has one entry for the rule, and the rule is sent to the proxy only if it says
so. -/
def Compiles (rule : RoutingRule) : Prop :=
  ∃ entry, (RuleSet.fromConfig [rule]).rules = [entry] ∧
    (entry.action = .proxy → rule.target = "proxy".toList)

variable {rule : RoutingRule}

theorem fromConfig_singleton (h : rule.enabled) :
    (RuleSet.fromConfig [rule]).rules = (compileEntry (0, rule)).toList := by
  simp only [RuleSet.fromConfig, RuleSet.fromIndexedConfig, zipIdx_cons, zipIdx_nil,
    map_cons, map_nil, filter_cons, h, if_true, filter_nil]
  rw [show StableSort.sortBy precedesByPriority [(0, rule)] = [(0, rule)] from rfl]
  cases hentry : compileEntry (0, rule) <;> simp [hentry]

theorem ruleAction_group (name : Str) : ruleAction ("group:".toList ++ name) = .group name := by
  have hstrip : stripPrefix "group:".toList ("group:".toList ++ name) = some name :=
    isPrefixOf?_eq_some_iff_append_eq.mpr rfl
  unfold ruleAction
  rw [hstrip]

theorem ruleAction_node (id : Str) :
    ruleAction ("node:".toList ++ id) = .node (toAsciiLowercase id) := by
  have hstrip : stripPrefix "node:".toList ("node:".toList ++ id) = some id :=
    isPrefixOf?_eq_some_iff_append_eq.mpr rfl
  have hgroup : stripPrefix "group:".toList ("node:".toList ++ id) = none := rfl
  unfold ruleAction
  rw [hgroup, hstrip]

variable {target : Str}

theorem exists_of_nodeTargetId (h : (nodeTargetId target).isSome) :
    ∃ id, target = "node:".toList ++ id := by
  unfold nodeTargetId stripPrefix at h
  cases hid : ("node:".toList).isPrefixOf? target with
  | none => rw [hid] at h; cases h
  | some id => exact ⟨id, (isPrefixOf?_eq_some_iff_append_eq.mp hid).symm⟩

theorem ruleAction_eq_proxy (h : IsTarget target) (hproxy : ruleAction target = .proxy) :
    target = "proxy".toList := by
  rcases normalizeTarget_cases h with hbuiltin | ⟨name, rfl, -⟩ | hnode
  · have hall : ∀ target ∈ builtinTargets, ruleAction target = .proxy → target = "proxy".toList := by
      decide
    exact hall target hbuiltin hproxy
  · rw [ruleAction_group] at hproxy
    cases hproxy
  · obtain ⟨id, rfl⟩ := exists_of_nodeTargetId hnode
    rw [ruleAction_node] at hproxy
    cases hproxy

variable {kind pattern : Str}

theorem validatePattern_domain
    (h : kind = "domain".toList ∨ kind = "domain-suffix".toList ∨ kind = "domain-keyword".toList) :
    validatePattern kind pattern = .ok () ↔
      (∃ c ∈ pattern, c ≠ '.') ∧ pattern.any isWhitespace = false := by
  unfold validatePattern
  rw [if_pos h]
  split
  · rename_i hbad
    simp only [reduceCtorEq, false_iff, not_and, Bool.not_eq_false]
    rintro ⟨c, hc, hdot⟩
    exact hbad.resolve_left fun hnil => hdot (trimMatches_eq_nil.mp hnil c hc)
  · rename_i hgood
    rw [not_or, trimMatches_eq_nil] at hgood
    refine ⟨fun _ => ⟨?_, by simpa using hgood.2⟩, fun _ => rfl⟩
    simpa using hgood.1

theorem validatePattern_cidr :
    validatePattern "ip-cidr".toList pattern = .ok () ↔ (parseCidr pattern).isSome := by
  unfold validatePattern
  rw [if_neg (by decide)]
  by_cases h : (parseCidr pattern).isSome
  · rw [if_pos ⟨rfl, h⟩]
    exact iff_of_true rfl h
  · rw [if_neg fun hand => h hand.2, if_neg fun hand => absurd hand.1 (by decide),
      if_neg fun hand => absurd hand.1 (by decide), if_neg (by decide)]
    exact iff_of_false nofun h

theorem validatePattern_geoip :
    validatePattern "geoip".toList pattern = .ok () ↔
      eqIgnoreAsciiCase pattern "PRIVATE".toList ∨
        (len pattern = 2 ∧ pattern.all isAsciiAlphabetic) := by
  unfold validatePattern
  rw [if_neg (by decide), if_neg fun hand => absurd hand.1 (by decide)]
  by_cases h : eqIgnoreAsciiCase pattern "PRIVATE".toList ∨
      (len pattern = 2 ∧ pattern.all isAsciiAlphabetic)
  · rw [if_pos ⟨rfl, h⟩]
    exact iff_of_true rfl h
  · rw [if_neg fun hand => h hand.2, if_neg fun hand => absurd hand.1 (by decide),
      if_neg (by decide)]
    exact iff_of_false nofun h

theorem validatePattern_port (hkind : kind = "dst-port".toList ∨ kind = "port".toList) :
    validatePattern kind pattern = .ok () ↔
      ((parsePortRange pattern).any fun range => 0 < range.1) := by
  have hother : ¬ (kind = "domain".toList ∨ kind = "domain-suffix".toList ∨
      kind = "domain-keyword".toList) ∧ kind ≠ "ip-cidr".toList ∧ kind ≠ "geoip".toList ∧
      ¬ (kind = "match".toList ∨ kind = "final".toList) := by
    rcases hkind with rfl | rfl <;> decide
  unfold validatePattern
  rw [if_neg hother.1, if_neg fun hand => hother.2.1 hand.1, if_neg fun hand => hother.2.2.1 hand.1]
  by_cases h : ((parsePortRange pattern).any fun range => 0 < range.1)
  · rw [if_pos ⟨hkind, h⟩]
    exact iff_of_true rfl h
  · rw [if_neg fun hand => h hand.2, if_neg hother.2.2.2]
    exact iff_of_false nofun h

theorem compilePattern_stored (hkind : kind ∈ storedKinds) (pattern : Str) :
    compilePattern kind pattern =
      if kind = "domain".toList then some (.domain (toLowercase pattern))
      else if kind = "domain-suffix".toList then
        some (.domainSuffix (if startsWith (toLowercase pattern) ".".toList then
          toLowercase pattern else ".".toList ++ toLowercase pattern))
      else if kind = "domain-keyword".toList then some (.domainKeyword (toLowercase pattern))
      else if kind = "ip-cidr".toList then
        (parseCidr pattern).map fun network => .ipCidr network.1 network.2
      else if kind = "geoip".toList then some (.geoIp (toUppercase pattern))
      else if kind = "dst-port".toList then
        (parsePortRange pattern).map fun range => .dstPort range.1 range.2
      else some .matchAll := by
  have hlower : storedKinds.all (fun kind => toLowercase kind == kind) := by decide
  have hkind' : toLowercase kind = kind := eq_of_beq (all_eq_true.mp hlower kind hkind)
  unfold compilePattern
  simp only [hkind']
  simp only [storedKinds, mem_cons, not_mem_nil, or_false] at hkind
  rcases hkind with rfl | rfl | rfl | rfl | rfl | rfl | rfl <;> rfl

theorem compilePattern_domain (pattern : Str) :
    compilePattern "domain".toList pattern = some (.domain (toLowercase pattern)) :=
  (compilePattern_stored (by decide) pattern).trans rfl

/-- A suffix with its dot. -/
def dotted (suffix : Str) : Str :=
  if startsWith suffix ".".toList then suffix else ".".toList ++ suffix

theorem compilePattern_suffix (pattern : Str) :
    compilePattern "domain-suffix".toList pattern =
      some (.domainSuffix (dotted (toLowercase pattern))) :=
  (compilePattern_stored (by decide) pattern).trans rfl

theorem compilePattern_keyword (pattern : Str) :
    compilePattern "domain-keyword".toList pattern =
      some (.domainKeyword (toLowercase pattern)) :=
  (compilePattern_stored (by decide) pattern).trans rfl

theorem compilePattern_cidr (pattern : Str) :
    compilePattern "ip-cidr".toList pattern =
      (parseCidr pattern).map fun network => .ipCidr network.1 network.2 :=
  (compilePattern_stored (by decide) pattern).trans rfl

theorem compilePattern_geoip (pattern : Str) :
    compilePattern "geoip".toList pattern = some (.geoIp (toUppercase pattern)) :=
  (compilePattern_stored (by decide) pattern).trans rfl

theorem compilePattern_port (pattern : Str) :
    compilePattern "dst-port".toList pattern =
      (parsePortRange pattern).map fun range => .dstPort range.1 range.2 :=
  (compilePattern_stored (by decide) pattern).trans rfl

theorem compilePattern_match (pattern : Str) :
    compilePattern "match".toList pattern = some .matchAll :=
  (compilePattern_stored (by decide) pattern).trans rfl

/-- Upper case of ASCII letters. -/
theorem toUppercase_alphabetic (h : s.all isAsciiAlphabetic) :
    toUppercase s = s.map asciiUpperChar ∧ (s.map asciiUpperChar).all isAsciiAlphabetic ∧
      len (s.map asciiUpperChar) = len s := by
  have hletter : ∀ n < 128, isAsciiAlphabetic (Char.ofNat n) →
      upperChar (Char.ofNat n) = [asciiUpperChar (Char.ofNat n)] ∧
        isAsciiAlphabetic (asciiUpperChar (Char.ofNat n)) ∧
        (asciiUpperChar (Char.ofNat n)).utf8Size = (Char.ofNat n).utf8Size := by
    decide
  induction s with
  | nil => exact ⟨rfl, rfl, rfl⟩
  | cons c rest ih =>
    rw [all_cons, Bool.and_eq_true] at h
    obtain ⟨hmap, hall, hlen⟩ := ih h.2
    have hc := hletter c.toNat (lt_of_isAsciiAlphanumeric (by rw [isAsciiAlphanumeric, h.1]; rfl))
    rw [Char.ofNat_toNat] at hc
    obtain ⟨hupper, halpha, hsize⟩ := hc h.1
    refine ⟨?_, ?_, ?_⟩
    · unfold toUppercase at hmap ⊢
      rw [flatMap_cons, hmap, hupper]
      rfl
    · rw [map_cons, all_cons, halpha, hall]
      rfl
    · unfold len at hlen ⊢
      simp only [map_cons, sum_cons, hsize, hlen]

variable {host : HostParser}

/-- The two checks agree on a pattern of another type. -/
theorem publishable_of_ne (hdomain : ¬ (kind = "domain".toList ∨ kind = "domain-suffix".toList))
    (hkeyword : kind ≠ "domain-keyword".toList) (hport : kind ≠ "dst-port".toList) :
    Publishable host kind pattern :=
  ⟨fun h => absurd h hdomain, fun h => absurd h hkeyword, fun h => absurd h hport⟩

theorem lowerImage_dot : lowerImage '.' = ['.'] := by
  decide

/-- What the importer stores always compiles, and it passes validation exactly if the two checks
agree on the pattern. -/
theorem validatePattern_stored {stored : Str} (hkind : kind ∈ storedKinds)
    (h : buildPattern host kind pattern = .ok stored) :
    (compilePattern kind stored).isSome ∧
      (validatePattern kind stored = .ok () ↔ Publishable host kind pattern) := by
  rw [compilePattern_stored hkind]
  rcases buildPattern_cases hkind h with ⟨rfl, rfl⟩ | ⟨rfl, hlen, hall, rfl⟩ | ⟨rfl, hcidr⟩ |
    ⟨hdomain, hascii, hlooks⟩ | ⟨rfl, rfl, hword⟩ | ⟨rfl, hvalid, rfl⟩
  · exact ⟨rfl, iff_of_true rfl (publishable_of_ne (by decide) (by decide) (by decide))⟩
  · refine ⟨rfl, iff_of_true ?_ (publishable_of_ne (by decide) (by decide) (by decide))⟩
    obtain ⟨hupper, hletters, hsize⟩ := toUppercase_alphabetic hall
    rw [hupper]
    exact validatePattern_geoip.mpr (.inr ⟨hsize.trans hlen, hletters⟩)
  · obtain ⟨addr, bits, ip, n, -, hslash, hip, hbits, hle, rfl⟩ := normalizeCidr_ok hcidr
    have hparse : (parseCidr (addr ++ "/".toList ++ decimal n)).isSome := by
      rw [append_assoc]
      exact isSome_of_eq_some
        (parseCidr_append hslash hip (parseUnsigned_bits hle) hle)
    refine ⟨?_, iff_of_true (validatePattern_cidr.mpr hparse)
      (publishable_of_ne (by decide) (by decide) (by decide))⟩
    simpa using hparse
  · refine ⟨?_, ?_⟩
    · rcases hdomain with rfl | rfl <;> rfl
    rw [validatePattern_domain (hdomain.imp_right .inl)]
    have hother : kind ≠ "domain-keyword".toList ∧ kind ≠ "dst-port".toList := by
      rcases hdomain with rfl | rfl <;> decide
    constructor
    · rintro ⟨-, hspace⟩
      refine ⟨fun _ s hs _ => ?_, fun h => absurd h hother.1, fun h => absurd h hother.2⟩
      obtain rfl := some.inj (hs.symm.trans hascii)
      exact hspace
    · intro hpublishable
      exact ⟨exists_mem_of_looksLikeDomain hlooks, hpublishable.domain hdomain stored hascii hlooks⟩
  · refine ⟨rfl, ?_⟩
    rw [validatePattern_domain (.inr (.inr rfl))]
    have hspace : (toLowercase (trim pattern)).any isWhitespace = false :=
      any_eq_false.mpr fun c hc => by rw [hword.2 c hc]; nofun
    have hne : trim pattern ≠ [] := fun hnil => hword.1 (toLowercase_eq_nil.mpr hnil)
    constructor
    · rintro ⟨⟨c, hc, hdot⟩, -⟩
      refine ⟨fun h => absurd h (by decide), fun _ hdots => ?_, fun h => absurd h (by decide)⟩
      -- every character of the keyword comes from one of the pattern
      obtain ⟨x, hx, himage⟩ := mem_lowerAfter hc
      rw [hdots x hx, lowerImage_dot, mem_singleton] at himage
      exact absurd himage hdot
    · intro hpublishable
      refine ⟨?_, hspace⟩
      by_contra hdots
      simp only [not_exists, not_and, not_not] at hdots
      refine hne (hpublishable.keyword rfl fun c hc => ?_)
      obtain ⟨x, hx, himage⟩ := exists_mem_toLowercase hc
      rw [hdots x hx] at himage
      exact (eq_of_mem_lowerImage himage (by decide) (by decide)).symm
  · obtain ⟨-, min, max, hrange, -⟩ := parsePortRange_of_valid hvalid
    refine ⟨by rw [hrange]; rfl, ?_⟩
    rw [validatePattern_port (.inl rfl)]
    constructor
    · intro hpositive
      exact ⟨fun h => absurd h (by decide), fun h => absurd h (by decide), fun _ _ => hpositive⟩
    · intro hpublishable
      exact hpublishable.port rfl hvalid

/-- The two checks do not disagree on a pattern that the importer rejects. -/
theorem publishable_of_error {message : Str} (h : buildPattern host kind pattern = .error message) :
    Publishable host kind pattern := by
  refine ⟨fun hkind s hascii hlooks => ?_, ?_, ?_⟩
  · rw [buildPattern_domain hkind, buildDomain_ok.mpr ⟨hascii, hlooks⟩] at h
    cases h
  · rintro rfl hdots
    by_contra hne
    rw [buildPattern_keyword, if_neg] at h
    · cases h
    rintro (hnil | hspace)
    · exact hne (toLowercase_eq_nil.mp hnil)
    · obtain ⟨c, hc, hwhite⟩ := any_eq_true.mp hspace
      obtain ⟨x, hx, himage⟩ := mem_lowerAfter hc
      rw [hdots x hx, lowerImage_dot, mem_singleton] at himage
      rw [himage] at hwhite
      exact absurd hwhite (by decide)
  · rintro rfl hvalid
    rw [buildPattern_port, if_pos hvalid] at h
    cases h

/-- The rule is what the importer makes of a type and a pattern. -/
structure Built (host : HostParser) (kind pattern : Str) (rule : RoutingRule) : Prop where
  ruleType : rule.ruleType = kind
  stored : buildPattern host kind pattern = .ok rule.pattern
  target : IsTarget rule.target
  source : IsNormalized rule.source
  enabled : rule.enabled = true

theorem Built.compiles (hkind : kind ∈ storedKinds) (h : Built host kind pattern rule) :
    Compiles rule := by
  obtain ⟨compiled, hcompiled⟩ :=
    isSome_iff_exists.mp (validatePattern_stored hkind h.stored).1
  obtain ⟨scope, hscope⟩ := isSome_iff_exists.mp (compileSource_isSome h.source)
  have hentry : compileEntry (0, rule) = some ⟨some 0, scope, compiled, ruleAction rule.target⟩ := by
    unfold compileEntry
    rw [h.ruleType, hcompiled, hscope]
    rfl
  refine ⟨⟨some 0, scope, compiled, ruleAction rule.target⟩, ?_, ruleAction_eq_proxy h.target⟩
  rw [fromConfig_singleton h.enabled, hentry]
  rfl

theorem Built.valid_iff (hkind : kind ∈ storedKinds) (h : Built host kind pattern rule) :
    validateRule rule = .ok () ↔ Publishable host kind pattern := by
  have hlower : ∀ kind ∈ storedKinds, toAsciiLowercase kind = kind := by decide
  have hsource : normalizeRuleSource rule.source = .ok rule.source := h.source
  rw [← (validatePattern_stored hkind h.stored).2]
  unfold validateRule
  rw [h.enabled, validTarget_of_isTarget h.target, h.ruleType, hlower kind hkind, hsource]
  simp only [Bool.not_true, Bool.false_eq_true, if_false]
  cases hpattern : validatePattern kind rule.pattern with
  | error message | ok value => simp

/-! ## The three importers -/

/-- All returned rules compile, and they all pass validation exactly under a condition. -/
def SoundIff (returned : RoutingRule → Prop) (condition : Prop) : Prop :=
  (∀ rule, returned rule → Compiles rule) ∧
    ((∀ rule, returned rule → validateRule rule = .ok () ∧ Compiles rule) ↔ condition)

/-- Rules that are built from what is asked for. -/
theorem soundIff_of_built {returned : RoutingRule → Prop} {asked : Str → Str → Prop}
    (hkind : ∀ kind pattern, asked kind pattern → kind ∈ storedKinds)
    (hbuilt : ∀ rule, returned rule → ∃ kind pattern, asked kind pattern ∧ Built host kind pattern rule)
    (hreturned : ∀ kind pattern stored, asked kind pattern →
      buildPattern host kind pattern = .ok stored →
      ∃ rule, returned rule ∧ Built host kind pattern rule) :
    SoundIff returned (∀ kind pattern, asked kind pattern → Publishable host kind pattern) := by
  refine ⟨fun rule hrule => ?_, fun hsound kind pattern hasked => ?_, fun hall rule hrule => ?_⟩
  · obtain ⟨kind, pattern, hasked, h⟩ := hbuilt rule hrule
    exact h.compiles (hkind kind pattern hasked)
  · cases hpattern : buildPattern host kind pattern with
    | error message => exact publishable_of_error hpattern
    | ok stored =>
      obtain ⟨rule, hrule, h⟩ := hreturned kind pattern stored hasked hpattern
      exact (h.valid_iff (hkind kind pattern hasked)).mp (hsound rule hrule).1
  · obtain ⟨kind, pattern, hasked, h⟩ := hbuilt rule hrule
    have hstored := hkind kind pattern hasked
    exact ⟨(h.valid_iff hstored).mpr (hall kind pattern hasked), h.compiles hstored⟩

/-- The builder that notes what it is asked for. -/
def tokens : Builder := fun kind pattern target =>
  .ok
    { source := []
      name := []
      group := []
      ruleType := kind
      pattern := pattern
      target := target
      enabled := true
      priority := 0 }

/-- A line of the text asks for a rule of the type with the pattern. -/
def TextAsks (text defaultTarget kind pattern : Str) : Prop :=
  ∃ entry ∈ entries [] (lines text), ∃ token,
    parseOneLine tokens entry.body (usedTarget defaultTarget) = .ok token ∧
      token.ruleType = kind ∧ token.pattern = pattern

/-- The patterns of a text, for a type. -/
def typedPatterns (kind : Str) (rows : List Str) : List Str :=
  rows.flatMap fun raw =>
    if trim raw = [] ∨ startsWith (trim raw) "#".toList = true ∨ (splitLineAndName raw).1 = [] then []
    else typedTokens kind (splitLineAndName raw).1

variable {line defaultTarget : Str}

/-- What a line gives when rules are built, and what it asks for. -/
theorem parseOneLine_built (htarget : IsTarget defaultTarget)
    (h : parseOneLine (buildRule host) line defaultTarget = .ok rule) :
    ∃ token, parseOneLine tokens line defaultTarget = .ok token ∧
      Built host token.ruleType token.pattern rule := by
  rcases @parseOneLine_requests line _ htarget with
    herror | ⟨source, kind, pattern, target, hsource, hasked, hread⟩
  · obtain ⟨message, hmessage⟩ := herror (buildRule host)
    rw [hmessage] at h
    cases h
  rw [hread] at h
  obtain ⟨built, hbuilt, rfl⟩ := map_eq_ok.mp h
  obtain ⟨stored, hstored, rfl⟩ := (buildRule_ok hasked.kind).mp hbuilt
  refine ⟨_, hread tokens, ?_⟩
  rw [withSource_eq rfl, withSource_eq rfl]
  exact ⟨rfl, hstored, hasked.target, hsource, rfl⟩

/-- What a line asks for is built if its pattern is accepted. -/
theorem parseOneLine_tokens {token : RoutingRule}
    (htarget : IsTarget defaultTarget)
    (h : parseOneLine tokens line defaultTarget = .ok token) :
    token.ruleType ∈ storedKinds ∧ ∀ {host : HostParser} {stored : Str},
      buildPattern host token.ruleType token.pattern = .ok stored →
        ∃ rule, parseOneLine (buildRule host) line defaultTarget = .ok rule := by
  rcases @parseOneLine_requests line _ htarget with
    herror | ⟨source, kind, pattern, target, hsource, hasked, hread⟩
  · obtain ⟨message, hmessage⟩ := herror tokens
    rw [hmessage] at h
    cases h
  rw [hread] at h
  obtain ⟨built, hbuilt, rfl⟩ := map_eq_ok.mp h
  obtain rfl := Except.ok.inj hbuilt
  rw [withSource_eq rfl]
  refine ⟨hasked.kind, fun {host stored} hstored => ?_⟩
  have hrule : buildRule host kind pattern target =
      .ok ⟨[], [], [], kind, stored, target, true, 0⟩ :=
    (buildRule_ok hasked.kind).mpr ⟨stored, hstored, rfl⟩
  exact ⟨_, (hread (buildRule host)).trans (map_eq_ok.mpr ⟨_, hrule, rfl⟩)⟩

theorem Built.dress (h : Built host kind pattern rule) (name group : Str) :
    Built host kind pattern (dressRule rule name group) :=
  ⟨h.ruleType, h.stored, h.target, h.source, h.enabled⟩

theorem soundIff_parseBatchRules (host : HostParser) (text defaultTarget : Str) :
    SoundIff (· ∈ (parseBatchRules host text defaultTarget).rules)
      (∀ kind pattern, TextAsks text defaultTarget kind pattern →
        Publishable host kind pattern) := by
  have htarget := isTarget_usedTarget defaultTarget
  refine soundIff_of_built ?_ ?_ ?_
  · rintro kind pattern ⟨entry, -, token, htoken, rfl, rfl⟩
    exact (parseOneLine_tokens htarget htoken).1
  · intro rule hrule
    obtain ⟨entry, hentry, hrule⟩ := mem_batchLoop_rules.mp hrule
    obtain ⟨parsed, hparsed, rfl⟩ := map_eq_ok.mp hrule
    obtain ⟨token, htoken, hbuilt⟩ := parseOneLine_built htarget hparsed
    exact ⟨_, _, ⟨entry, hentry, token, htoken, rfl, rfl⟩, hbuilt.dress _ _⟩
  · rintro kind pattern stored ⟨entry, hentry, token, htoken, rfl, rfl⟩ hstored
    obtain ⟨parsed, hparsed⟩ := (parseOneLine_tokens htarget htoken).2 hstored
    obtain ⟨token', htoken', hbuilt⟩ := parseOneLine_built htarget hparsed
    obtain rfl := Except.ok.inj (htoken.symm.trans htoken')
    refine ⟨dressRule parsed entry.name entry.group, ?_, hbuilt.dress _ _⟩
    exact mem_batchLoop_rules.mpr ⟨entry, hentry, map_eq_ok.mpr ⟨parsed, hparsed, rfl⟩⟩

variable {group : Str}

variable {number : Nat}

theorem mem_typedLine_rules {patterns : List Str} :
    rule ∈ (typedLine host kind target group number patterns).rules ↔
      ∃ pattern ∈ patterns, ∃ built, buildRule host kind pattern target = .ok built ∧
        rule = { built with group := group } := by
  induction patterns with
  | nil => simp [typedLine]
  | cons pattern rest ih =>
    rw [typedLine]
    simp only [mem_cons, exists_eq_or_imp]
    cases buildRule host kind pattern target with
    | error message | ok built => simp [ih]

theorem mem_typedLoop_rules {rows : List Str} :
    rule ∈ (typedLoop host kind target group number rows).rules ↔
      ∃ pattern ∈ typedPatterns kind rows, ∃ built,
        buildRule host kind pattern target = .ok built ∧ rule = { built with group := group } := by
  induction rows generalizing number with
  | nil => simp [typedLoop, typedPatterns]
  | cons raw rest ih =>
    rw [typedLoop, typedPatterns, flatMap_cons]
    split
    · rw [nil_append]
      exact ih
    · simp only [mem_append, mem_typedLine_rules, ih, or_and_right, exists_or]
      rfl

/-- What `build_rule` makes of a type, in any group. -/
theorem built_of_buildRule {ruleType : Str}
    (h : buildRule host (normalizeType ruleType) pattern (usedTarget target) = .ok rule) :
    Built host (normalizeType ruleType) pattern { rule with group := group } := by
  obtain ⟨stored, hstored, rfl⟩ := (buildRule_ok (normalizeType_mem ruleType)).mp h
  exact ⟨rfl, hstored, isTarget_usedTarget target, isNormalized_nil, rfl⟩

theorem soundIff_parseTypedPatterns (host : HostParser) (text ruleType target group : Str) :
    SoundIff (· ∈ (parseTypedPatterns host text ruleType target group).rules)
      (∀ pattern ∈ typedPatterns (normalizeType ruleType) (lines text),
        Publishable host (normalizeType ruleType) pattern) := by
  have hsound := @soundIff_of_built host
    (· ∈ (parseTypedPatterns host text ruleType target group).rules)
    (fun kind pattern => kind = normalizeType ruleType ∧
      pattern ∈ typedPatterns (normalizeType ruleType) (lines text)) ?_ ?_ ?_
  · refine ⟨hsound.1, hsound.2.trans ⟨fun h pattern hpattern => h _ _ ⟨rfl, hpattern⟩, ?_⟩⟩
    rintro h kind pattern ⟨rfl, hpattern⟩
    exact h pattern hpattern
  · rintro kind pattern ⟨rfl, -⟩
    exact normalizeType_mem ruleType
  · intro rule hrule
    obtain ⟨pattern, hpattern, built, hbuilt, rfl⟩ := mem_typedLoop_rules.mp hrule
    exact ⟨_, pattern, ⟨rfl, hpattern⟩, built_of_buildRule hbuilt⟩
  · rintro kind pattern stored ⟨rfl, hpattern⟩ hstored
    have hbuilt : buildRule host (normalizeType ruleType) pattern (usedTarget target) =
        .ok ⟨[], [], [], normalizeType ruleType, stored, usedTarget target, true, 0⟩ :=
      (buildRule_ok (normalizeType_mem ruleType)).mpr ⟨stored, hstored, rfl⟩
    exact ⟨_, mem_typedLoop_rules.mpr ⟨pattern, hpattern, _, hbuilt, rfl⟩,
      built_of_buildRule hbuilt⟩

theorem soundIff_makeTypedRule (host : HostParser) (ruleType pattern target group : Str) :
    SoundIff (fun rule => makeTypedRule host ruleType pattern target group = .ok rule)
      (Publishable host (normalizeType ruleType) (trim pattern)) := by
  have hbuilt : ∀ rule, makeTypedRule host ruleType pattern target group = .ok rule →
      Built host (normalizeType ruleType) (trim pattern) rule := by
    intro rule hrule
    unfold makeTypedRule at hrule
    split at hrule
    · cases hrule
    · rename_i built hbuilt
      obtain rfl := Except.ok.inj hrule
      exact built_of_buildRule hbuilt
  have hmem := normalizeType_mem ruleType
  refine ⟨fun rule hrule => (hbuilt rule hrule).compiles hmem, fun hsound => ?_,
    fun hpublishable rule hrule => ?_⟩
  · cases hpattern : buildPattern host (normalizeType ruleType) (trim pattern) with
    | error message => exact publishable_of_error hpattern
    | ok stored =>
      have hrule : makeTypedRule host ruleType pattern target group =
          .ok ⟨[], [], trim group, normalizeType ruleType, stored, usedTarget target, true, 0⟩ := by
        unfold makeTypedRule
        rw [(buildRule_ok hmem).mpr ⟨stored, hpattern, rfl⟩]
      exact ((hbuilt _ hrule).valid_iff hmem).mp (hsound _ hrule).1
  · exact ⟨((hbuilt rule hrule).valid_iff hmem).mpr hpublishable, (hbuilt rule hrule).compiles hmem⟩

/-- Every rule of an import compiles to one entry. All of them pass validation exactly if the two
checks agree on every pattern the import asks for. -/
theorem importer_sound (host : HostParser) :
    (∀ text defaultTarget, SoundIff (· ∈ (parseBatchRules host text defaultTarget).rules)
        (∀ kind pattern, TextAsks text defaultTarget kind pattern →
          Publishable host kind pattern)) ∧
      (∀ text ruleType target group,
        SoundIff (· ∈ (parseTypedPatterns host text ruleType target group).rules)
          (∀ pattern ∈ typedPatterns (normalizeType ruleType) (lines text),
            Publishable host (normalizeType ruleType) pattern)) ∧
      (∀ ruleType pattern target group,
        SoundIff (fun rule => makeTypedRule host ruleType pattern target group = .ok rule)
          (Publishable host (normalizeType ruleType) (trim pattern))) :=
  ⟨soundIff_parseBatchRules host, soundIff_parseTypedPatterns host, soundIff_makeTypedRule host⟩

/-- The importer accepts port zero, which the validator rejects. -/
theorem importer_sound_port_zero :
    (parseBatchRules (fun _ => none) "DST-PORT,0,PROXY".toList "proxy".toList).errors = [] ∧
      ∃ rule ∈ (parseBatchRules (fun _ => none) "DST-PORT,0,PROXY".toList
        "proxy".toList).rules, validateRule rule ≠ .ok () := by
  decide

end Sockrocket
