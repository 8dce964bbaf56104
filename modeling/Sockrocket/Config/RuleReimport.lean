import Sockrocket.Config.RuleExport

/-!
# Which rules survive an export

For each type of rule, the patterns that are stored again with the same compiled form, and from that
the condition under which a valid rule is read back from its own export (`export_import`).
-/

namespace Sockrocket

open Rust List

/-! ## Domains -/

/-- No character of the text is white space. -/
def Unspaced (s : Str) : Prop :=
  ∀ c ∈ s, isWhitespace c = false

variable {s : Str}

theorem Unspaced.trim_eq (h : Unspaced s) : trim s = s :=
  Trimmed.trim_eq ⟨fun c hc => h c (mem_of_mem_head? hc), fun c hc => h c (mem_of_getLast? hc)⟩

theorem unspaced_toLowercase (h : Unspaced s) : Unspaced (toLowercase s) := by
  intro c hc
  by_contra hspace
  rw [Bool.not_eq_false] at hspace
  rw [h c (isWhitespace_of_mem_toLowercase hc hspace)] at hspace
  cases hspace

theorem unspaced_trimStartMatches (h : Unspaced s) :
    Unspaced (trimStartMatches '.' s) :=
  fun c hc => h c ((dropWhile_suffix _).subset hc)

theorem looksLikeDomain_unspaced (h : Unspaced s) :
    looksLikeDomain s = domainShape (trimStartMatches '.' s) := by
  rw [looksLikeDomain, h.trim_eq]

/-- The characters of a text that looks like a domain. -/
theorem looksLikeDomain_chars (h : looksLikeDomain s) {c : Char} (hc : c ∈ s) :
    isWhitespace c ∨ isAsciiAlphanumeric c ∨ c = '-' ∨ c = '.' := by
  rcases mem_trim_of_mem hc with hspace | hc
  · exact .inl hspace
  right
  rw [← takeWhile_append_dropWhile (p := (· == '.')) (l := trim s), mem_append] at hc
  rcases hc with hc | hc
  · have hdot := mem_takeWhile_imp hc
    exact .inr (.inr (by simpa using hdot))
  · exact (domainShape_chars h).2.2 c hc

theorem isAscii_of_mem_lowerImage {c x : Char} (hc : isAscii c) (hx : x ∈ lowerImage c) :
    isAscii x := by
  rw [lowerImage, if_neg (ne_sigma_of_isAscii hc), lowerChar_of_isAscii hc, mem_singleton] at hx
  rw [hx, isAscii_asciiLowerChar]
  exact hc

section Domains

variable {host : HostParser} {kind pattern stored : Str}

section

variable (hkind : kind = "domain".toList ∨ kind = "domain-suffix".toList)

include hkind

variable {x : Char}

/-- Two domains that compile alike have the same characters, except for dots. -/
theorem mem_of_compilePattern_eq
    (h : compilePattern kind stored = compilePattern kind pattern)
    (hx : x ∈ toLowercase pattern) (hdot : x ≠ '.') : x ∈ toLowercase stored := by
  rcases hkind with rfl | rfl
  · rw [compilePattern_domain, compilePattern_domain, Option.some.injEq,
      MatchRule.domain.injEq] at h
    rwa [h]
  rw [compilePattern_suffix, compilePattern_suffix, Option.some.injEq,
    MatchRule.domainSuffix.injEq] at h
  have hmem : x ∈ dotted (toLowercase stored) := by
    rw [h]
    unfold dotted
    split
    · exact hx
    · exact mem_append_right _ hx
  unfold dotted at hmem
  split at hmem
  · exact hmem
  · rcases mem_append.mp hmem with hmem | hmem
    · exact absurd (by simpa using hmem) hdot
    · exact hmem

/-- A domain that compiles like the pattern it was stored for was not converted. -/
theorem stored_eq_toLowercase (hpattern : Unspaced pattern)
    (hascii : asciiDomain host (toLowercase (trimStartMatches '.' pattern)) = some stored)
    (hlooks : looksLikeDomain stored)
    (h : compilePattern kind stored = compilePattern kind pattern) :
    stored = toLowercase (trimStartMatches '.' pattern) := by
  unfold asciiDomain at hascii
  split at hascii
  · exact (Option.some.inj hascii).symm
  rename_i hnot
  exfalso
  obtain ⟨x, hx, hnon⟩ : ∃ x ∈ toLowercase (trimStartMatches '.' pattern),
      isAscii x = false := by
    simpa using hnot
  -- a character outside ASCII would have to be in what is stored, where there is none
  rw [toLowercase_trimStartMatches] at hx
  have hx' : x ∈ toLowercase pattern := (dropWhile_suffix _).subset hx
  have hdot : x ≠ '.' := by
    rintro rfl
    exact absurd hnon (by decide)
  obtain ⟨c, hc, himage⟩ := mem_lowerAfter (mem_of_compilePattern_eq hkind h hx' hdot)
  rcases looksLikeDomain_chars hlooks hc with hspace | hletter
  · have hwhite := isWhitespace_of_mem_lowerImage hspace himage
    rw [unspaced_toLowercase hpattern x hx'] at hwhite
    cases hwhite
  have hcascii : isAscii c := by
    rcases hletter with hletter | rfl | rfl
    · exact decide_eq_true (lt_of_isAsciiAlphanumeric hletter)
    · decide
    · decide
  rw [isAscii_of_mem_lowerImage hcascii himage] at hnon
  cases hnon

/-- A domain that compiles like its pattern has no marks of the format. -/
theorem not_mem_of_compilePattern_eq (hlooks : looksLikeDomain stored)
    (h : compilePattern kind stored = compilePattern kind pattern)
    (hx : x = ',' ∨ x = '#') : x ∉ pattern := by
  intro hmem
  have hmark : isAscii x ∧ asciiLowerChar x = x ∧ x ≠ '.' ∧ ¬ ('a' ≤ x ∧ x ≤ 'z') ∧
      isWhitespace x = false ∧ isAsciiAlphanumeric x = false ∧ x ≠ '-' := by
    rcases hx with rfl | rfl <;> decide
  obtain ⟨hascii, hlower, hdot, hletter, hspace, halpha, hdash⟩ := hmark
  have hstored := mem_of_compilePattern_eq hkind h (mem_toLowercase_of_mem hmem hascii hlower) hdot
  rcases looksLikeDomain_chars hlooks (mem_of_mem_toLowercase hstored hascii hletter) with
    hc | hc | hc | hc
  · rw [hspace] at hc
    cases hc
  · rw [halpha] at hc
    cases hc
  · exact hdash hc
  · exact hdot hc

end

/-- Leading dots do not count for the look of a domain. -/
theorem looksLikeDomain_lower (hpattern : Unspaced pattern) :
    looksLikeDomain (toLowercase (trimStartMatches '.' pattern)) =
      looksLikeDomain (toLowercase pattern) := by
  rw [looksLikeDomain_unspaced (unspaced_toLowercase (unspaced_trimStartMatches hpattern)),
    looksLikeDomain_unspaced (unspaced_toLowercase hpattern), toLowercase_trimStartMatches,
    trimStartMatches_idem]

/-- What is stored for a domain that is not converted. -/
theorem buildDomain_lower (hpattern : Unspaced pattern)
    (h : looksLikeDomain (toLowercase pattern)) :
    buildDomain host pattern = .ok (toLowercase (trimStartMatches '.' pattern)) := by
  rw [buildDomain_ok, hpattern.trim_eq, looksLikeDomain_lower hpattern]
  refine ⟨if_pos (all_eq_true.mpr fun c hc => ?_), h⟩
  rw [toLowercase_trimStartMatches] at hc
  rw [looksLikeDomain_unspaced (unspaced_toLowercase hpattern)] at h
  rcases (domainShape_chars h).2.2 c hc with hletter | rfl | rfl
  · exact decide_eq_true (lt_of_isAsciiAlphanumeric hletter)
  · rfl
  · rfl

/-- What a domain is stored as if it compiles like its pattern. -/
theorem buildDomain_same (hkind : kind = "domain".toList ∨ kind = "domain-suffix".toList)
    (hpattern : Unspaced pattern) (hbuild : buildDomain host pattern = .ok stored)
    (h : compilePattern kind stored = compilePattern kind pattern) :
    stored = toLowercase (trimStartMatches '.' pattern) ∧
      looksLikeDomain (toLowercase pattern) := by
  rw [buildDomain_ok, hpattern.trim_eq] at hbuild
  obtain rfl := stored_eq_toLowercase hkind hpattern hbuild.1 hbuild.2 h
  rw [looksLikeDomain_lower hpattern] at hbuild
  exact ⟨rfl, hbuild.2⟩

/-- Domains that are stored with the same compiled form. -/
theorem domain_iff (hpattern : Unspaced pattern) :
    (∃ stored, buildPattern host "domain".toList pattern = .ok stored ∧
      compilePattern "domain".toList stored = compilePattern "domain".toList pattern) ↔
      looksLikeDomain (toLowercase pattern) ∧ pattern.head? ≠ some '.' := by
  rw [buildPattern_domain (.inl rfl)]
  constructor
  · rintro ⟨stored, hbuild, hsame⟩
    obtain ⟨rfl, hlooks⟩ := buildDomain_same (.inl rfl) hpattern hbuild hsame
    refine ⟨hlooks, fun hhead => ?_⟩
    rw [compilePattern_domain, compilePattern_domain, Option.some.injEq, MatchRule.domain.injEq,
      toLowercase_idem, toLowercase_trimStartMatches] at hsame
    have hdot := head?_toLowercase.mpr hhead
    rw [← hsame] at hdot
    exact head?_trimStartMatches '.' _ hdot
  · rintro ⟨hlooks, hhead⟩
    refine ⟨_, buildDomain_lower hpattern hlooks, ?_⟩
    rw [compilePattern_domain, compilePattern_domain, toLowercase_idem,
      trimStartMatches_eq_self hhead]

theorem dotted_dot (s : Str) : dotted ('.' :: s) = '.' :: s :=
  if_pos (startsWith_singleton.mpr rfl)

theorem dotted_of_head {s : Str} (h : s.head? ≠ some '.') : dotted s = '.' :: s :=
  if_neg fun hstart => h (startsWith_singleton.mp hstart)

/-- Suffixes that are stored with the same compiled form. -/
theorem suffix_iff (hpattern : Unspaced pattern) :
    (∃ stored, buildPattern host "domain-suffix".toList pattern = .ok stored ∧
      compilePattern "domain-suffix".toList stored =
        compilePattern "domain-suffix".toList pattern) ↔
      looksLikeDomain (toLowercase pattern) ∧ startsWith pattern "..".toList = false := by
  have hbare : (toLowercase (trimStartMatches '.' pattern)).head? ≠ some '.' := fun h =>
    head?_trimStartMatches '.' pattern (head?_toLowercase.mp h)
  rw [buildPattern_domain (.inr rfl)]
  constructor
  · rintro ⟨stored, hbuild, hsame⟩
    obtain ⟨rfl, hlooks⟩ := buildDomain_same (.inr rfl) hpattern hbuild hsame
    refine ⟨hlooks, Bool.eq_false_iff.mpr fun hstart => ?_⟩
    rw [compilePattern_suffix, compilePattern_suffix, Option.some.injEq,
      MatchRule.domainSuffix.injEq, toLowercase_idem, dotted_of_head hbare] at hsame
    -- with two dots in front the stored suffix has one of them too few
    obtain ⟨rest, rfl⟩ := isPrefixOf_iff_prefix.mp hstart
    change _ = dotted (toLowercase ('.' :: '.' :: rest)) at hsame
    rw [toLowercase_dot, toLowercase_dot, dotted_dot, cons.injEq] at hsame
    exact hbare (by rw [hsame.2]; rfl)
  · rintro ⟨hlooks, hstart⟩
    refine ⟨_, buildDomain_lower hpattern hlooks, ?_⟩
    rw [compilePattern_suffix, compilePattern_suffix, toLowercase_idem, dotted_of_head hbare]
    by_cases hhead : pattern.head? = some '.'
    · cases pattern with
      | nil => cases hhead
      | cons c rest =>
        obtain rfl : c = '.' := Option.some.inj hhead
        have hrest : rest.head? ≠ some '.' := by
          intro hdot
          cases rest with
          | nil => cases hdot
          | cons d rest =>
            obtain rfl : d = '.' := Option.some.inj hdot
            cases hstart
        rw [trimStartMatches_cons, trimStartMatches_eq_self hrest, toLowercase_dot, dotted_dot]
    · rw [trimStartMatches_eq_self hhead, dotted_of_head fun h => hhead (head?_toLowercase.mp h)]

end Domains

/-! ## Other patterns -/

section Patterns

variable {host : HostParser} {pattern : Str}

theorem keyword_stored (hne : pattern ≠ []) (hpattern : Unspaced pattern) :
    ∃ stored, buildPattern host "domain-keyword".toList pattern = .ok stored ∧
      compilePattern "domain-keyword".toList stored =
        compilePattern "domain-keyword".toList pattern := by
  refine ⟨toLowercase pattern, ?_, ?_⟩
  · rw [buildPattern_keyword, hpattern.trim_eq, if_neg]
    rintro (hnil | hspace)
    · exact hne (toLowercase_eq_nil.mp hnil)
    · obtain ⟨c, hc, hwhite⟩ := any_eq_true.mp hspace
      rw [unspaced_toLowercase hpattern c hc] at hwhite
      cases hwhite
  · rw [compilePattern_keyword, compilePattern_keyword, toLowercase_idem]

theorem splitn_two_eq {c : Char} {s before after : Str} (h : splitn 2 c s = [before, after]) :
    s = before ++ c :: after ∧ c ∉ before := by
  unfold splitn at h
  cases hsplit : splitOnce [c] s with
  | none =>
    rw [hsplit] at h
    cases h
  | some parts =>
    obtain ⟨first, second⟩ := parts
    rw [hsplit] at h
    obtain ⟨rfl, hrest⟩ := cons.inj h
    obtain ⟨rfl, -⟩ := cons.inj hrest
    exact splitOnce_eq_some.mp hsplit

/-- What a network is that compiles. -/
theorem parseCidr_some {ip : IpAddr} {n : Nat} (h : parseCidr pattern = some (ip, n)) :
    ∃ addr bits, pattern = addr ++ '/' :: bits ∧ '/' ∉ addr ∧ parseIp addr = some ip ∧
      parseUnsigned 255 bits = some n := by
  unfold parseCidr at h
  split at h
  · rename_i addr bits hsplit
    simp only [Option.bind_eq_bind, Option.bind_eq_some_iff] at h
    obtain ⟨addr', hip, n', hn, hmatch⟩ := h
    have hnetwork : addr' = ip ∧ n' = n := by
      cases addr' <;> simpa using (Option.ite_none_left_eq_some.mp hmatch).2
    obtain ⟨rfl, rfl⟩ := hnetwork
    obtain ⟨hpattern, hslash⟩ := splitn_two_eq hsplit
    exact ⟨addr, bits, hpattern, hslash, hip, hn⟩
  · cases h

theorem plain_slash : Plain '/' :=
  ⟨by decide, by decide, by decide⟩

theorem plain_dash : Plain '-' :=
  ⟨by decide, by decide, by decide⟩

theorem cidr_stored (h : (parseCidr pattern).isSome) :
    IsCell pattern ∧ ∃ stored, buildPattern host "ip-cidr".toList pattern = .ok stored ∧
      compilePattern "ip-cidr".toList stored = compilePattern "ip-cidr".toList pattern := by
  obtain ⟨⟨ip, n⟩, hparse⟩ := Option.isSome_iff_exists.mp h
  obtain ⟨addr, bits, rfl, hslash, hip, hn⟩ := parseCidr_some hparse
  have hle := parseCidr_bits_le hparse
  refine ⟨IsCell.of_plain (by simp) fun c hc => ?_, addr ++ "/".toList ++ decimal n, ?_, ?_⟩
  · rcases mem_append.mp hc with hc | hc
    · exact plain_of_isIpChar (isIpChar_of_parseIp hip c hc)
    rcases mem_cons.mp hc with rfl | hc
    · exact plain_slash
    · exact plain_of_mem_parseUnsigned hn c hc
  · have hwidth : (if ip.isIpv4 then 32 else 128) = addressBits ip := by cases ip <;> rfl
    have hsplit : splitOnce "/".toList (addr ++ '/' :: bits) = some (addr, bits) :=
      splitOnce_append hslash bits
    rw [buildPattern_cidr, normalizeCidr, hsplit]
    simp only [hip, hn, hwidth, if_neg (not_lt.mpr hle)]
  · have hstored : parseCidr (addr ++ "/".toList ++ decimal n) = some (ip, n) := by
      rw [append_assoc]
      exact parseCidr_append hslash hip (parseUnsigned_bits hle) hle
    rw [compilePattern_cidr, compilePattern_cidr, hstored, hparse]

theorem asciiUpperChar_idem (c : Char) : asciiUpperChar (asciiUpperChar c) = asciiUpperChar c := by
  have hall : ∀ n < 128, asciiUpperChar (asciiUpperChar (Char.ofNat n)) =
      asciiUpperChar (Char.ofNat n) := by
    decide
  by_cases hlower : 'a' ≤ c ∧ c ≤ 'z'
  · have hle : c.toNat ≤ 122 := hlower.2
    have hc := hall c.toNat (by omega)
    rwa [Char.ofNat_toNat] at hc
  · have hfixed : asciiUpperChar c = c := if_neg hlower
    rw [hfixed, hfixed]

theorem geoip_iff (h : Unspaced pattern) :
    (∃ stored, buildPattern host "geoip".toList pattern = .ok stored ∧
      compilePattern "geoip".toList stored = compilePattern "geoip".toList pattern) ↔
      len pattern = 2 ∧ pattern.all isAsciiAlphabetic := by
  rw [buildPattern_geoip, h.trim_eq]
  by_cases hcode : len pattern = 2 ∧ pattern.all isAsciiAlphabetic
  · rw [if_pos hcode]
    refine iff_of_true ⟨_, rfl, ?_⟩ hcode
    obtain ⟨hupper, hletters, -⟩ := toUppercase_alphabetic hcode.2
    rw [compilePattern_geoip, compilePattern_geoip, hupper, (toUppercase_alphabetic hletters).1,
      map_map]
    have hidem : asciiUpperChar ∘ asciiUpperChar = asciiUpperChar := funext asciiUpperChar_idem
    rw [hidem]
  · rw [if_neg hcode]
    exact iff_of_false (fun ⟨_, hbuild, _⟩ => nomatch hbuild) hcode

theorem port_iff :
    (∃ stored, buildPattern host "dst-port".toList (trim pattern) = .ok stored ∧
      compilePattern "dst-port".toList stored = compilePattern "dst-port".toList pattern) ↔
      validPortPattern (trim pattern) := by
  have hrange : parsePortRange (trim pattern) = parsePortRange pattern := by
    simp [parsePortRange, trim_idem]
  rw [buildPattern_port, trim_idem]
  by_cases hvalid : validPortPattern (trim pattern)
  · rw [if_pos hvalid]
    refine iff_of_true ⟨_, rfl, ?_⟩ hvalid
    rw [compilePattern_port, compilePattern_port, hrange]
  · rw [if_neg hvalid]
    refine iff_of_false ?_ hvalid
    rintro ⟨_, hbuild, -⟩
    cases hbuild

/-- The characters of a port pattern that compiles. -/
theorem parsePortRange_chars (h : (parsePortRange pattern).isSome) :
    trim pattern ≠ [] ∧ ∀ c ∈ pattern, isWhitespace c ∨ Plain c := by
  obtain ⟨range, hrange⟩ := Option.isSome_iff_exists.mp h
  simp only [parsePortRange] at hrange
  split at hrange
  · cases hrange
  rename_i hne
  refine ⟨hne, fun c hc => ?_⟩
  rcases mem_trim_of_mem hc with hspace | hc
  · exact .inl hspace
  cases hsplit : splitOnce "-".toList (trim pattern) with
  | none =>
    rw [hsplit] at hrange
    obtain ⟨port, hport, -⟩ := Option.map_eq_some_iff.mp hrange
    exact .inr (plain_of_mem_parseUnsigned hport c hc)
  | some parts =>
    obtain ⟨a, b⟩ := parts
    obtain ⟨htrim, -⟩ := splitOnce_eq_some.mp hsplit
    rw [hsplit] at hrange
    simp only [Option.bind_eq_bind, Option.bind_eq_some_iff] at hrange
    obtain ⟨min, hmin, max, hmax, -⟩ := hrange
    rw [htrim] at hc
    rcases mem_append.mp hc with hc | hc
    · exact (mem_trim_of_mem hc).imp_right (plain_of_mem_parseUnsigned hmin c)
    rcases mem_cons.mp hc with rfl | hc
    · exact .inr plain_dash
    · exact (mem_trim_of_mem hc).imp_right (plain_of_mem_parseUnsigned hmax c)

end Patterns

/-! ## Types -/

/-- The type is written as the exporter knows it. -/
def ExportableType (ruleType : Str) : Prop :=
  ruleType ∈ ruleKinds ∨ toAsciiLowercase ruleType = "domain-suffix".toList

instance (ruleType : Str) : Decidable (ExportableType ruleType) :=
  inferInstanceAs (Decidable (_ ∨ _))

/-- The type of a rule, in the form that rules are stored with. -/
def canonicalType (ruleType : Str) : Str :=
  storedType (toAsciiLowercase ruleType)

variable {ruleType : Str}

theorem canonicalType_mem (h : toAsciiLowercase ruleType ∈ ruleKinds) :
    canonicalType ruleType ∈ storedKinds := by
  have hall : ∀ kind ∈ ruleKinds, storedType kind ∈ storedKinds := by decide
  exact hall _ h

theorem compilePattern_canonical (h : toAsciiLowercase ruleType ∈ ruleKinds) (pattern : Str) :
    compilePattern ruleType pattern = compilePattern (canonicalType ruleType) pattern := by
  have hlower := toLowercase_eq_of_toAsciiLowercase rfl (isAscii_of_ruleKinds _ h)
  have hcanonical : toLowercase (canonicalType ruleType) = canonicalType ruleType := by
    have hall : storedKinds.all (fun kind => toLowercase kind == kind) := by decide
    exact eq_of_beq (all_eq_true.mp hall _ (canonicalType_mem h))
  unfold compilePattern
  rw [hlower, hcanonical, canonicalType]
  simp only [ruleKinds, mem_cons, not_mem_nil, or_false] at h
  rcases h with h | h | h | h | h | h | h | h | h <;> rw [h] <;> rfl

theorem exportType_of_not_mem (h : ruleType ∉ ruleKinds) :
    normalizeType (exportType ruleType) = "domain-suffix".toList := by
  have hkeys : ∀ entry ∈ typeLabels, entry.1 ∈ ruleKinds := by decide
  unfold exportType
  cases hlabel : typeLabels.lookup ruleType with
  | none => decide
  | some label =>
    obtain ⟨before, after, htable, -⟩ := lookup_eq_some_iff.mp hlabel
    have hentry : (ruleType, label) ∈ typeLabels := by
      rw [htable]
      exact mem_append_right _ mem_cons_self
    exact absurd (hkeys _ hentry) h

theorem normalizeType_exportType_canonical (h : ExportableType ruleType) :
    normalizeType (exportType ruleType) = canonicalType ruleType := by
  by_cases hmem : ruleType ∈ ruleKinds
  · have hall : ∀ kind ∈ ruleKinds, normalizeType (exportType kind) = canonicalType kind := by
      decide
    exact hall ruleType hmem
  · rw [exportType_of_not_mem hmem, canonicalType, h.resolve_left hmem]
    decide

/-! ## The condition -/

/-- The text format can carry the pattern of a rule of the type. -/
def ExportablePattern (kind pattern : Str) : Prop :=
  if kind = "domain".toList then
    looksLikeDomain (toLowercase pattern) = true ∧ pattern.head? ≠ some '.'
  else if kind = "domain-suffix".toList then
    looksLikeDomain (toLowercase pattern) = true ∧ startsWith pattern "..".toList = false
  else if kind = "domain-keyword".toList then ',' ∉ pattern ∧ '#' ∉ pattern
  else if kind = "geoip".toList then len pattern = 2 ∧ pattern.all isAsciiAlphabetic = true
  else if kind = "dst-port".toList then validPortPattern (trim pattern) = true ∧ '\n' ∉ pattern
  else True

instance (kind pattern : Str) : Decidable (ExportablePattern kind pattern) := by
  unfold ExportablePattern
  infer_instance

/-- The text format can carry the rule. -/
structure Exportable (rule : RoutingRule) : Prop where
  group : SilentTail (trim rule.group)
  ruleType : ExportableType rule.ruleType
  target : ExportableTarget rule.target
  pattern : ExportablePattern (canonicalType rule.ruleType) rule.pattern

/-- A line feed in front of the last comma leaves a row of its own. -/
theorem exists_visible_row {before after : Str} (h : '#' ∉ before) :
    ∃ raw ∈ (before ++ ',' :: after).splitOn '\n',
      ¬ (trim raw = [] ∨ (trim raw).head? = some '#') := by
  induction before with
  | nil =>
    obtain ⟨first, more, hfirst⟩ := exists_cons_of_ne_nil (splitOn_ne_nil after)
    have hrows := @splitOn_append [','] after first more (by decide) hfirst
    refine ⟨',' :: first, hrows ▸ mem_cons_self, ?_⟩
    have hcomma : trim (',' :: first) = ',' :: trimEnd first :=
      trim_append_left (IsWord.trimmed (by decide : IsWord [','])) (by decide)
    rw [hcomma]
    simp
  | cons c before ih =>
    rw [mem_cons, not_or] at h
    obtain ⟨raw, hraw, hvisible⟩ := ih h.2
    rw [splitOn] at hraw
    rw [cons_append, splitOn, splitOnP_cons_eq_if_modifyHead]
    split
    · exact ⟨raw, mem_cons_of_mem _ hraw, hvisible⟩
    cases hrows : (before ++ ',' :: after).splitOnP (· == '\n') with
    | nil => exact absurd hrows (splitOnP_ne_nil _ _)
    | cons first more =>
      rw [hrows, mem_cons] at hraw
      rcases hraw with rfl | hraw
      · refine ⟨c :: raw, mem_cons_self, ?_⟩
        by_cases hspace : isWhitespace c
        · have htrim : trim (c :: raw) = trim raw := by
            unfold trim trimStart
            rw [dropWhile_cons_of_pos hspace]
          rwa [htrim]
        · have hword : IsWord [c] := ⟨by simp, by simpa using hspace⟩
          have htrim : trim (c :: raw) = c :: trimEnd raw :=
            trim_append_left hword.trimmed hword.1
          rw [htrim]
          simpa using Ne.symm h.1
      · exact ⟨raw, mem_cons_of_mem _ hraw, hvisible⟩

section Condition

variable {host : HostParser} {defaultTarget : Str} {rule : RoutingRule}

/-- What is known of a rule that was read back, whatever its pattern holds. -/
theorem reimports_first (henabled : rule.enabled) (hvalid : validateRule rule = .ok ())
    (hsource : IsNormalized rule.source) (h : Reimports host defaultTarget rule) :
    SilentTail (exportRest rule) ∧ ∃ cell stored, ',' ∉ cell ∧ '#' ∉ cell ∧
      buildPattern host (normalizeType (exportType rule.ruleType)) cell = .ok stored ∧
      compilePattern (normalizeType (exportType rule.ruleType)) stored =
        compilePattern rule.ruleType rule.pattern := by
  obtain ⟨-, hvalidPattern, -⟩ := validateRule_ok hvalid henabled
  obtain ⟨-, hsilent, first, body, name, imported, -, -, hhash, hparse, hsame⟩ :=
    (reimports_iff henabled hsource).mp h
  obtain ⟨cell, stored, target, hcomma, hcell, hstored, rfl⟩ :=
    parse_exportHead hsource hhash hparse
  have hcompiled := (compileEntry_eq_iff (by rfl) (compileSource_isSome hsource)
    (compilePattern_isSome hvalidPattern)).mp hsame
  exact ⟨hsilent, cell, stored, hcomma, hcell, hstored, hcompiled.1⟩

theorem exportableType_of_reimports (henabled : rule.enabled)
    (hvalid : validateRule rule = .ok ()) (hsource : IsNormalized rule.source)
    (h : Reimports host defaultTarget rule) : ExportableType rule.ruleType := by
  obtain ⟨-, hvalidPattern, -⟩ := validateRule_ok hvalid henabled
  have hlow := validatePattern_kind hvalidPattern
  obtain ⟨-, cell, stored, -, -, -, hsame⟩ := reimports_first henabled hvalid hsource h
  by_cases hmem : rule.ruleType ∈ ruleKinds
  · exact .inl hmem
  right
  rw [exportType_of_not_mem hmem, compilePattern_suffix, compilePattern_canonical hlow] at hsame
  have hcanonical : canonicalType rule.ruleType = "domain-suffix".toList := by
    have hkind := canonicalType_mem hlow
    simp only [storedKinds, mem_cons, not_mem_nil, or_false] at hkind
    rcases hkind with hk | hk | hk | hk | hk | hk | hk <;> rw [hk] at hsame
    · rw [compilePattern_domain] at hsame
      cases hsame
    · exact hk
    · rw [compilePattern_keyword] at hsame
      cases hsame
    · rw [compilePattern_cidr] at hsame
      cases hcidr : parseCidr rule.pattern <;> rw [hcidr] at hsame <;> cases hsame
    · rw [compilePattern_geoip] at hsame
      cases hsame
    · rw [compilePattern_port] at hsame
      cases hport : parsePortRange rule.pattern <;> rw [hport] at hsame <;> cases hsame
    · rw [compilePattern_match] at hsame
      cases hsame
  have hkinds : ∀ kind ∈ ruleKinds, storedType kind = "domain-suffix".toList →
      kind = "domain-suffix".toList := by decide
  exact hkinds _ hlow hcanonical

/-- A pattern with a line feed breaks the line of its rule in two. -/
theorem not_mem_feed (hsilent : SilentTail (exportRest rule))
    (hmatch : ¬ IsCatchAll rule.ruleType) (hhash : '#' ∉ rule.pattern) :
    '\n' ∉ rule.pattern := by
  intro hmem
  obtain ⟨before, after, hpattern, hbefore⟩ := eq_append_cons_of_mem hmem
  have hrest : exportRest rule =
      before ++ '\n' :: (after ++ ',' :: (exportTarget rule.target ++ nameSuffix rule)) := by
    unfold exportRest exportTail
    rw [if_neg hmatch, hpattern]
    simp
  have hrows : (exportRest rule).splitOn '\n' =
      before :: (after ++ ',' :: (exportTarget rule.target ++ nameSuffix rule)).splitOn '\n' := by
    rw [hrest, splitOn, splitOnP_append_cons _ _ (by rfl)]
    exact congrArg (· ++ _) (splitOn_of_not_mem hbefore)
  have hafter : '#' ∉ after := fun hc => hhash (by rw [hpattern]; simp [hc])
  obtain ⟨raw, hraw, hvisible⟩ := exists_visible_row hafter
  unfold SilentTail at hsilent
  rw [hrows] at hsilent
  exact hvisible (hsilent raw hraw)

/-- A valid domain or keyword. -/
theorem valid_domain (hvalid : validatePattern (toAsciiLowercase rule.ruleType) rule.pattern = .ok ())
    (hkind : canonicalType rule.ruleType = "domain".toList ∨
      canonicalType rule.ruleType = "domain-suffix".toList ∨
      canonicalType rule.ruleType = "domain-keyword".toList) :
    rule.pattern ≠ [] ∧ Unspaced rule.pattern := by
  have hkinds : ∀ kind ∈ ruleKinds, storedType kind = "domain".toList ∨
      storedType kind = "domain-suffix".toList ∨ storedType kind = "domain-keyword".toList →
      kind = "domain".toList ∨ kind = "domain-suffix".toList ∨ kind = "domain-keyword".toList := by
    decide
  obtain ⟨⟨c, hc, -⟩, hspace⟩ :=
    (validatePattern_domain (hkinds _ (validatePattern_kind hvalid) hkind)).mp hvalid
  refine ⟨ne_nil_of_mem hc, fun c hc => ?_⟩
  simpa using any_eq_false.mp hspace c hc

theorem carried_of_unspaced (hne : rule.pattern ≠ []) (hspace : Unspaced rule.pattern)
    (hcomma : ',' ∉ rule.pattern) (hhash : '#' ∉ rule.pattern) : Carried rule.pattern :=
  ⟨hcomma, hhash, fun hc => absurd (hspace _ hc) (by decide), hspace.trim_eq.symm ▸ hne⟩

/-- The rule is read back exactly if each of its parts can be written. -/
def ReadBack (host : HostParser) (defaultTarget : Str) (rule : RoutingRule) : Prop :=
  Reimports host defaultTarget rule ↔
    SilentTail (trim rule.group) ∧ ExportableTarget rule.target ∧
      ExportablePattern (canonicalType rule.ruleType) rule.pattern

section ByType

variable (henabled : rule.enabled = true) (hvalid : validateRule rule = .ok ())
  (hsource : IsNormalized rule.source) (htype : ExportableType rule.ruleType)

include henabled hvalid hsource htype

/-- A rule whose type is exported and whose pattern can be carried. -/
theorem reimports_canonical (hmatch : canonicalType rule.ruleType ≠ "match".toList)
    (hcarried : Carried rule.pattern) :
    Reimports host defaultTarget rule ↔
      SilentTail (trim rule.group) ∧ ExportableTarget rule.target ∧
        ∃ stored, buildPattern host (canonicalType rule.ruleType) (trim rule.pattern) =
            .ok stored ∧
          compilePattern (canonicalType rule.ruleType) stored =
            compilePattern (canonicalType rule.ruleType) rule.pattern := by
  obtain ⟨-, hvalidPattern, -⟩ := validateRule_ok hvalid henabled
  have hlow := validatePattern_kind hvalidPattern
  have hkind := normalizeType_exportType_canonical htype
  have hcatch : ¬ IsCatchAll rule.ruleType := by
    rw [← catchAll_iff, hkind]
    exact hmatch
  rw [reimports_carried henabled hvalid hsource (.inr hcarried), hkind, sentPattern,
    if_neg hcatch, compilePattern_canonical hlow]

/-- The rules for domains. -/
theorem reimports_domain (hkind : canonicalType rule.ruleType = "domain".toList ∨
      canonicalType rule.ruleType = "domain-suffix".toList) :
    ReadBack host defaultTarget rule := by
  unfold ReadBack
  obtain ⟨-, hvalidPattern, -⟩ := validateRule_ok hvalid henabled
  obtain ⟨hne, hspace⟩ := valid_domain hvalidPattern (hkind.imp_right .inl)
  have hlow := validatePattern_kind hvalidPattern
  by_cases hmarks : ',' ∉ rule.pattern ∧ '#' ∉ rule.pattern
  · rw [reimports_canonical henabled hvalid hsource htype
      (by rcases hkind with h | h <;> rw [h] <;> decide)
      (carried_of_unspaced hne hspace hmarks.1 hmarks.2), hspace.trim_eq]
    rcases hkind with h | h <;> rw [h]
    · rw [domain_iff hspace]
      rfl
    · rw [suffix_iff hspace]
      rfl
  · -- neither side holds: what is stored for a domain has no marks
    have hnone : ∀ stored, looksLikeDomain stored →
        compilePattern (canonicalType rule.ruleType) stored =
          compilePattern (canonicalType rule.ruleType) rule.pattern → False := by
      intro stored hlooks hsame
      exact hmarks ⟨not_mem_of_compilePattern_eq hkind hlooks hsame (.inl rfl),
        not_mem_of_compilePattern_eq hkind hlooks hsame (.inr rfl)⟩
    refine iff_of_false (fun h => ?_) fun ⟨_, _, hpattern⟩ => ?_
    · obtain ⟨-, cell, stored, -, -, hbuild, hsame⟩ := reimports_first henabled hvalid hsource h
      rw [normalizeType_exportType_canonical htype] at hbuild hsame
      rw [compilePattern_canonical hlow] at hsame
      rw [buildPattern_domain hkind, buildDomain_ok] at hbuild
      exact hnone stored hbuild.2 hsame
    · rcases hkind with h | h <;> rw [h] at hpattern hnone
      · refine hnone (toLowercase rule.pattern) hpattern.1 ?_
        rw [compilePattern_domain, compilePattern_domain, toLowercase_idem]
      · refine hnone (toLowercase rule.pattern) hpattern.1 ?_
        rw [compilePattern_suffix, compilePattern_suffix, toLowercase_idem]

/-- The rules for keywords. -/
theorem reimports_keyword (hkind : canonicalType rule.ruleType = "domain-keyword".toList) :
    ReadBack host defaultTarget rule := by
  unfold ReadBack
  obtain ⟨-, hvalidPattern, -⟩ := validateRule_ok hvalid henabled
  obtain ⟨hne, hspace⟩ := valid_domain hvalidPattern (.inr (.inr hkind))
  have hlow := validatePattern_kind hvalidPattern
  by_cases hmarks : ',' ∉ rule.pattern ∧ '#' ∉ rule.pattern
  · rw [reimports_canonical henabled hvalid hsource htype (by rw [hkind]; decide)
      (carried_of_unspaced hne hspace hmarks.1 hmarks.2), hspace.trim_eq, hkind]
    exact and_congr_right fun _ => and_congr_right fun _ =>
      iff_of_true (keyword_stored hne hspace) hmarks
  · refine iff_of_false (fun h => hmarks ?_) fun ⟨_, _, hpattern⟩ => hmarks ?_
    · obtain ⟨-, cell, stored, hcomma, hhash, hbuild, hsame⟩ :=
        reimports_first henabled hvalid hsource h
      rw [normalizeType_exportType_canonical htype, hkind] at hbuild hsame
      rw [compilePattern_canonical hlow, hkind, compilePattern_keyword, compilePattern_keyword,
        Option.some.injEq, MatchRule.domainKeyword.injEq] at hsame
      rw [buildPattern_keyword] at hbuild
      split at hbuild
      · cases hbuild
      obtain rfl := Except.ok.inj hbuild
      rw [toLowercase_idem] at hsame
      -- a mark of the pattern would be in the cell that was read
      have hmark : ∀ x, isAscii x → asciiLowerChar x = x → ¬ ('a' ≤ x ∧ x ≤ 'z') →
          x ∈ rule.pattern → x ∈ cell := by
        intro x hascii hlower hletter hx
        have hlow := mem_toLowercase_of_mem hx hascii hlower
        rw [← hsame] at hlow
        exact mem_of_mem_trim (mem_of_mem_toLowercase hlow hascii hletter)
      exact ⟨fun hc => hcomma (hmark ',' (by decide) (by decide) (by decide) hc),
        fun hc => hhash (hmark '#' (by decide) (by decide) (by decide) hc)⟩
    · rw [hkind] at hpattern
      exact hpattern

/-- The rules for networks. -/
theorem reimports_cidr (hkind : canonicalType rule.ruleType = "ip-cidr".toList) :
    ReadBack host defaultTarget rule := by
  unfold ReadBack
  obtain ⟨-, hvalidPattern, -⟩ := validateRule_ok hvalid henabled
  have hkinds : ∀ kind ∈ ruleKinds, storedType kind = "ip-cidr".toList →
      kind = "ip-cidr".toList := by decide
  rw [hkinds _ (validatePattern_kind hvalidPattern) hkind, validatePattern_cidr] at hvalidPattern
  obtain ⟨hcell, hstored⟩ := @cidr_stored host _ hvalidPattern
  rw [reimports_canonical henabled hvalid hsource htype (by rw [hkind]; decide)
    ⟨hcell.comma, hcell.hash, hcell.not_mem_feed, hcell.trim_eq.symm ▸ hcell.word.1⟩,
    hcell.trim_eq, hkind]
  exact and_congr_right fun _ => and_congr_right fun _ => iff_of_true hstored trivial

/-- The rules for countries. -/
theorem reimports_geoip (hkind : canonicalType rule.ruleType = "geoip".toList) :
    ReadBack host defaultTarget rule := by
  unfold ReadBack
  obtain ⟨-, hvalidPattern, -⟩ := validateRule_ok hvalid henabled
  have hkinds : ∀ kind ∈ ruleKinds, storedType kind = "geoip".toList → kind = "geoip".toList := by
    decide
  rw [hkinds _ (validatePattern_kind hvalidPattern) hkind, validatePattern_geoip] at hvalidPattern
  have hcell : IsCell rule.pattern := by
    rcases hvalidPattern with hprivate | ⟨hlen, hletters⟩
    · have hlower : toAsciiLowercase rule.pattern = "private".toList := eq_of_beq hprivate
      refine isCell_of_toAsciiLowercase (by rw [hlower]; decide) ?_
      rw [hlower]
      exact all_eq_true.mp (by decide)
    · refine IsCell.of_plain ?_ fun c hc => ?_
      · intro hnil
        rw [hnil] at hlen
        cases hlen
      · refine plain_of_isAsciiAlphanumeric ?_
        rw [isAsciiAlphanumeric, all_eq_true.mp hletters c hc]
        rfl
  rw [reimports_canonical henabled hvalid hsource htype (by rw [hkind]; decide)
    ⟨hcell.comma, hcell.hash, hcell.not_mem_feed, hcell.trim_eq.symm ▸ hcell.word.1⟩,
    hcell.trim_eq, hkind, geoip_iff hcell.word.2]
  rfl

/-- The rules for ports. -/
theorem reimports_port (hkind : canonicalType rule.ruleType = "dst-port".toList) :
    ReadBack host defaultTarget rule := by
  unfold ReadBack
  obtain ⟨-, hvalidPattern, -⟩ := validateRule_ok hvalid henabled
  have hkinds : ∀ kind ∈ ruleKinds, storedType kind = "dst-port".toList →
      kind = "dst-port".toList ∨ kind = "port".toList := by decide
  rw [validatePattern_port (hkinds _ (validatePattern_kind hvalidPattern) hkind)] at hvalidPattern
  have hsome : (parsePortRange rule.pattern).isSome := by
    cases hrange : parsePortRange rule.pattern with
    | none => rw [hrange] at hvalidPattern; cases hvalidPattern
    | some range => rfl
  obtain ⟨hvisible, hchars⟩ := parsePortRange_chars hsome
  have hcomma : ',' ∉ rule.pattern := by
    intro hc
    rcases hchars ',' hc with hspace | hplain
    · exact absurd hspace (by decide)
    · exact hplain.2.1 rfl
  have hhash : '#' ∉ rule.pattern := by
    intro hc
    rcases hchars '#' hc with hspace | hplain
    · exact absurd hspace (by decide)
    · exact hplain.2.2 rfl
  by_cases hfeed : '\n' ∈ rule.pattern
  · refine iff_of_false (fun h => ?_) fun ⟨_, _, hpattern⟩ => ?_
    · have hcatch : ¬ IsCatchAll rule.ruleType := by
        rw [← catchAll_iff, normalizeType_exportType_canonical htype, hkind]
        decide
      exact not_mem_feed (reimports_first henabled hvalid hsource h).1 hcatch hhash hfeed
    · rw [hkind] at hpattern
      exact hpattern.2 hfeed
  · rw [reimports_canonical henabled hvalid hsource htype (by rw [hkind]; decide)
      ⟨hcomma, hhash, hfeed, hvisible⟩, hkind, port_iff]
    exact and_congr_right fun _ => and_congr_right fun _ => (and_iff_left hfeed).symm

/-- The catch-all rules. -/
theorem reimports_match (hkind : canonicalType rule.ruleType = "match".toList) :
    ReadBack host defaultTarget rule := by
  unfold ReadBack
  obtain ⟨-, hvalidPattern, -⟩ := validateRule_ok hvalid henabled
  have hlow := validatePattern_kind hvalidPattern
  have hexport := normalizeType_exportType_canonical htype
  have hcatch : IsCatchAll rule.ruleType := by
    rw [← catchAll_iff, hexport, hkind]
  rw [reimports_carried henabled hvalid hsource (.inl hcatch), hexport,
    compilePattern_canonical hlow, hkind]
  refine and_congr_right fun _ => and_congr_right fun _ => iff_of_true ⟨_, buildPattern_match, ?_⟩
    trivial
  rw [compilePattern_match, compilePattern_match]

end ByType

/-- A valid rule is read back from its own export, as one rule that compiles to the same entry,
exactly if the text format can carry it. -/
theorem export_import (host : HostParser) (defaultTarget : Str) (rule : RoutingRule)
    (henabled : rule.enabled = true) (hvalid : validateRule rule = .ok ())
    (hsource : IsNormalized rule.source) :
    Reimports host defaultTarget rule ↔ Exportable rule := by
  suffices hcases : ExportableType rule.ruleType → ReadBack host defaultTarget rule by
    constructor
    · intro h
      have htype := exportableType_of_reimports henabled hvalid hsource h
      obtain ⟨hgroup, htarget, hpattern⟩ := (hcases htype).mp h
      exact ⟨hgroup, htype, htarget, hpattern⟩
    · rintro ⟨hgroup, htype, htarget, hpattern⟩
      exact (hcases htype).mpr ⟨hgroup, htarget, hpattern⟩
  intro htype
  have hkind := canonicalType_mem
    (validatePattern_kind (validateRule_ok hvalid henabled).2.1)
  simp only [storedKinds, mem_cons, not_mem_nil, or_false] at hkind
  rcases hkind with hk | hk | hk | hk | hk | hk | hk
  · exact reimports_domain henabled hvalid hsource htype (.inl hk)
  · exact reimports_domain henabled hvalid hsource htype (.inr hk)
  · exact reimports_keyword henabled hvalid hsource htype hk
  · exact reimports_cidr henabled hvalid hsource htype hk
  · exact reimports_geoip henabled hvalid hsource htype hk
  · exact reimports_port henabled hvalid hsource htype hk
  · exact reimports_match henabled hvalid hsource htype hk

end Condition

/-- A rule for a device with a name and a group. -/
theorem export_import_suffix :
    Reimports (fun _ => none) "proxy".toList
      ⟨"192.168.50.0/24".toList, "TV".toList, "Home".toList, "domain-suffix".toList,
        "example.com".toList, "direct".toList, true, 5⟩ :=
  (export_import _ _ _ rfl (by decide) (by decide)).mpr
    ⟨by decide, by decide, by decide, by decide⟩

/-- A rule to block a domain comes back as a rule for the proxy. -/
theorem export_import_block :
    validateRule ⟨[], [], [], "domain".toList, "example.com".toList, "block".toList, true, 0⟩ =
        .ok () ∧
      ¬ Reimports (fun _ => none) "proxy".toList
        ⟨[], [], [], "domain".toList, "example.com".toList, "block".toList, true, 0⟩ := by
  refine ⟨by decide, ?_⟩
  rintro ⟨-, imported, hrules, hsame⟩
  have hproxy : (parseBatchRules (fun _ => none) (formatRulesExport [⟨[], [], [],
      "domain".toList, "example.com".toList, "block".toList, true, 0⟩]) "proxy".toList).rules =
      [⟨[], [], [], "domain".toList, "example.com".toList, "proxy".toList, true, 0⟩] := by
    decide
  obtain rfl : imported = ⟨[], [], [], "domain".toList, "example.com".toList, "proxy".toList,
      true, 0⟩ := (cons.inj (hrules.symm.trans hproxy)).1
  revert hsame
  decide

end Sockrocket
