import Sockrocket.Config.RuleGroups

/-!
# Import and export of rules

`config/rules_batch.rs`: rules are pasted and saved as text, one rule a line. A line is a Clash
line `TYPE,pattern,TARGET`, an explicit form, or a bare domain or network; comments carry the names
of rules and switch groups.

The parser of the `url` crate is a parameter: `HostParser` is what `url::Host::parse` finds if the
host is a domain. The readers of lines take the function that builds a rule as an argument, because
it is the only one that needs that parser.
-/

namespace Sockrocket

open Rust

/-- The domain that `url::Host::parse` finds, if it finds one. -/
abbrev HostParser := Str → Option Str

/-- `build_rule`, for a type, a pattern and a target. -/
abbrev Builder := Str → Str → Str → Except Str RoutingRule

/-- A text between single quotes behind a message. -/
def quoted (message text : String) (value : Str) : Str :=
  message.toList ++ " '".toList ++ value ++ "'".toList ++ text.toList

/-! ## Words of the format -/

/-- The names a rule type has in the text, in lower case, and what they stand for. -/
def typeNames : List (Str × Str) :=
  [("domain".toList, "domain".toList),
    ("domain-suffix".toList, "domain-suffix".toList),
    ("domain_suffix".toList, "domain-suffix".toList),
    ("domainsuffix".toList, "domain-suffix".toList),
    ("domain-keyword".toList, "domain-keyword".toList),
    ("domain_keyword".toList, "domain-keyword".toList),
    ("domainkeyword".toList, "domain-keyword".toList),
    ("ip-cidr".toList, "ip-cidr".toList),
    ("ip_cidr".toList, "ip-cidr".toList),
    ("ipcidr".toList, "ip-cidr".toList),
    ("geoip".toList, "geoip".toList),
    ("dst-port".toList, "dst-port".toList),
    ("dst_port".toList, "dst-port".toList),
    ("port".toList, "dst-port".toList),
    ("match".toList, "match".toList),
    ("final".toList, "match".toList)]

/-- `looks_like_type`. -/
def looksLikeType (s : Str) : Bool :=
  (typeNames.lookup (toAsciiLowercase s)).isSome

/-- `normalize_type`. -/
def normalizeType (s : Str) : Str :=
  (typeNames.lookup (toAsciiLowercase s)).getD "domain-suffix".toList

/-- The names of the built-in targets, in lower case. -/
def targetNames : List (Str × Str) :=
  [("direct".toList, "direct".toList), ("dir".toList, "direct".toList),
    ("proxy".toList, "proxy".toList), ("proxied".toList, "proxy".toList),
    ("reject".toList, "reject".toList), ("block".toList, "reject".toList),
    ("deny".toList, "reject".toList)]

/-- `normalize_target`. -/
def normalizeTarget (s : Str) : Option Str :=
  if startsWith s "group:".toList = true ∧ validGroupName (s.drop 6) = true then some s
  else if (nodeTargetId s).isSome = true then some s
  else targetNames.lookup (toAsciiLowercase (trim s))

/-- The labels of the rule types. -/
def typeLabels : List (Str × Str) :=
  [("domain".toList, "DOMAIN".toList),
    ("domain-suffix".toList, "DOMAIN-SUFFIX".toList),
    ("domain-keyword".toList, "DOMAIN-KEYWORD".toList),
    ("ip-cidr".toList, "IP-CIDR".toList),
    ("geoip".toList, "GEOIP".toList),
    ("dst-port".toList, "DST-PORT".toList),
    ("port".toList, "DST-PORT".toList),
    ("match".toList, "MATCH".toList),
    ("final".toList, "MATCH".toList)]

/-- `export_type`. -/
def exportType (ruleType : Str) : Str :=
  (typeLabels.lookup ruleType).getD "DOMAIN-SUFFIX".toList

/-- `export_target`. -/
def exportTarget (target : Str) : Str :=
  if startsWith target "group:".toList = true ∨ (nodeTargetId target).isSome = true then target
  else if target = "direct".toList then "DIRECT".toList
  else if target = "reject".toList then "REJECT".toList
  else "PROXY".toList

/-! ## Patterns -/

/-- `char::is_ascii_alphanumeric`. -/
def isAsciiAlphanumeric (c : Char) : Bool :=
  isAsciiAlphabetic c || ('0' ≤ c && c ≤ '9')

/-- A label of a domain with several of them. -/
def domainLabel (label : Str) : Bool :=
  label ≠ [] && len label ≤ 63 && !startsWith label "-".toList && !endsWith label "-".toList

/-- What `looks_like_domain` asks of a text without white space and dots in front. -/
def domainShape (s : Str) : Bool :=
  if s = [] ∨ 253 < len s then false
  else if startsWith s "-".toList || endsWith s "-".toList || startsWith s ".".toList ||
      endsWith s ".".toList then false
  else if !contains s ".".toList then s.all fun c => isAsciiAlphanumeric c || c == '-'
  else
    (s.all fun c => isAsciiAlphanumeric c || c == '-' || c == '.') &&
      (s.splitOn '.').all domainLabel

/-- `looks_like_domain`. -/
def looksLikeDomain (s : Str) : Bool :=
  domainShape (trimStartMatches '.' (trim s))

/-- `looks_like_ipv4`. -/
def looksLikeIpv4 (s : Str) : Bool :=
  (parseIpv4 s).isSome

/-- `normalize_cidr`. -/
def normalizeCidr (s : Str) : Except Str Str :=
  match splitOnce "/".toList s with
  | none => .error ("CIDR needs a prefix (e.g. ".toList ++ s ++ "/32)".toList)
  | some (addr, bits) =>
    match parseIp addr with
    | none => .error (quoted "Invalid IP address" "" addr)
    | some ip =>
      match parseUnsigned 255 bits with
      | none => .error (quoted "Invalid prefix" "" bits)
      | some n =>
        if (if ip.isIpv4 then 32 else 128) < n then
          .error ("Prefix length must be 0-".toList ++
            decimal (if ip.isIpv4 then 32 else 128))
        else .ok (addr ++ "/".toList ++ decimal n)

/-- `looks_like_cidr`. -/
def looksLikeCidr (s : Str) : Bool :=
  contains s "/".toList && (normalizeCidr s).isOk

/-- `valid_port_pattern`. -/
def validPortPattern (s : Str) : Bool :=
  match splitOnce "-".toList s with
  | some (a, b) =>
    match parseUnsigned 65535 a, parseUnsigned 65535 b with
    | some min, some max => min ≤ max
    | _, _ => false
  | none => (parseUnsigned 65535 s).isSome

/-- The ASCII form of a domain. -/
def asciiDomain (host : HostParser) (s : Str) : Option Str :=
  if s.all isAscii = true then some s else host s

/-- The arm of `build_rule` for domains. -/
def buildDomain (host : HostParser) (pattern : Str) : Except Str Str :=
  match asciiDomain host (toLowercase (trimStartMatches '.' (trim pattern))) with
  | some s => if looksLikeDomain s then .ok s else .error (quoted "Invalid domain" "" pattern)
  | none => .error (quoted "Invalid domain" "" pattern)

/-- The pattern `build_rule` stores. -/
def buildPattern (host : HostParser) (kind pattern : Str) : Except Str Str :=
  if kind = "match".toList ∨ kind = "final".toList then .ok "*".toList
  else if kind = "geoip".toList then
    if len (trim pattern) = 2 ∧ (trim pattern).all isAsciiAlphabetic = true then
      .ok (toUppercase (trim pattern))
    else .error (quoted "Invalid GeoIP code" "" pattern)
  else if kind = "ip-cidr".toList then normalizeCidr pattern
  else if kind = "domain".toList ∨ kind = "domain-suffix".toList then buildDomain host pattern
  else if kind = "domain-keyword".toList then
    if toLowercase (trim pattern) = [] ∨
        (toLowercase (trim pattern)).any isWhitespace = true then
      .error "Keyword must be non-empty without spaces".toList
    else .ok (toLowercase (trim pattern))
  else if kind = "dst-port".toList ∨ kind = "port".toList then
    if validPortPattern (trim pattern) then .ok (trim pattern)
    else .error (quoted "Invalid port" " (e.g. 443 or 1000-2000)" pattern)
  else .error (quoted "Unsupported rule type" "" kind)

/-- The type `build_rule` stores. -/
def storedType (kind : Str) : Str :=
  if kind = "port".toList then "dst-port".toList
  else if kind = "final".toList then "match".toList
  else kind

/-- `build_rule`. -/
def buildRule (host : HostParser) : Builder := fun kind pattern target =>
  match buildPattern host kind pattern with
  | .error message => .error message
  | .ok stored =>
    .ok
      { source := []
        name := []
        group := []
        ruleType := storedType kind
        pattern := stored
        target := target
        enabled := true
        priority := 0 }

/-! ## Lines -/

/-- The cells of a line with commas; empty ones do not count. -/
def cells (line : Str) : List Str :=
  ((line.splitOn ',').map trim).filter (· ≠ [])

/-- The target of a Clash line. Targets that are not known stand for policy groups of other
programs. -/
def clashTarget (defaultTarget : Str) : Option Str → Str
  | none => defaultTarget
  | some action =>
    if eqIgnoreAsciiCase action "no-resolve".toList then defaultTarget
    else (normalizeTarget action).getD "proxy".toList

/-- `parse_clash_line`. -/
def parseClashLine (build : Builder) (line defaultTarget : Str) : Except Str RoutingRule :=
  match cells line with
  | [] => .error "Empty rule".toList
  | kind :: rest =>
    if !looksLikeType kind then .error (quoted "Unknown rule type" "" kind)
    else if normalizeType kind = "match".toList ∨ normalizeType kind = "final".toList then
      match rest.head?.bind normalizeTarget with
      | some target => build (normalizeType kind) "*".toList target
      | none => .error "MATCH/FINAL requires a target".toList
    else
      match rest with
      | [] => .error (normalizeType kind ++ " requires a pattern".toList)
      | pattern :: more =>
        build (normalizeType kind) pattern (clashTarget defaultTarget more.head?)

/-- The part of `parse_typed_left` without a colon. -/
def parseTypedWords (build : Builder) (left target : Str) : Except Str RoutingRule :=
  match splitWhitespace left with
  | [] => .error (quoted "Cannot parse typed rule" "" left)
  | [kind] =>
    if looksLikeType kind then build (normalizeType kind) "*".toList target
    else .error (quoted "Cannot parse typed rule" "" left)
  | kind :: pattern :: _ =>
    if looksLikeType kind then build (normalizeType kind) pattern target
    else .error (quoted "Cannot parse typed rule" "" left)

/-- `parse_typed_left`. -/
def parseTypedLeft (build : Builder) (left target : Str) : Except Str RoutingRule :=
  match splitOnce ":".toList left with
  | some (kind, pattern) =>
    if looksLikeType kind then build (normalizeType kind) (trim pattern) target
    else parseTypedWords build left target
  | none => parseTypedWords build left target

/-- `auto_detect`. -/
def autoDetect (build : Builder) (value target : Str) : Except Str RoutingRule :=
  if looksLikeCidr (trim value) then
    match normalizeCidr (trim value) with
    | .error message => .error message
    | .ok cidr => build "ip-cidr".toList cidr target
  else if looksLikeIpv4 (trim value) then
    build "ip-cidr".toList (trim value ++ "/32".toList) target
  else if looksLikeDomain (trim value) then
    build "domain-suffix".toList (toLowercase (trimStartMatches '.' (trim value))) target
  else
    .error (quoted "Unrecognized pattern" " (use domain, CIDR, or TYPE,pattern,TARGET)" (trim value))

/-- A line that is one word, or `type:pattern`. -/
def parseColonLine (build : Builder) (line defaultTarget : Str) : Except Str RoutingRule :=
  match splitOnce ":".toList line with
  | some (kind, pattern) =>
    if looksLikeType kind then build (normalizeType kind) (trim pattern) defaultTarget
    else autoDetect build line defaultTarget
  | none => autoDetect build line defaultTarget

/-- A line without commas and arrows. -/
def parsePlainLine (build : Builder) (line defaultTarget : Str) : Except Str RoutingRule :=
  match splitWhitespace line with
  | kind :: pattern :: more =>
    if looksLikeType kind then
      match more with
      | [] => build (normalizeType kind) pattern defaultTarget
      | action :: _ =>
        match normalizeTarget action with
        | some target => build (normalizeType kind) pattern target
        | none => .error (quoted "Unknown target" "" action)
    else parseColonLine build line defaultTarget
  | _ => parseColonLine build line defaultTarget

/-- The line has the prefix of a device scope. -/
def isSourceLine (line : Str) : Bool :=
  (getTo line 7).any fun head => eqIgnoreAsciiCase head "SOURCE,".toList

/-- A line with a device scope. -/
def parseSourceLine (build : Builder) (line defaultTarget : Str) : Except Str RoutingRule :=
  match splitn 3 ',' line with
  | [_, scope, rest] =>
    if isSourceLine rest then .error "Nested SOURCE is not supported".toList
    else
      match parseClashLine build rest defaultTarget with
      | .error message => .error message
      | .ok rule =>
        match normalizeRuleSource scope with
        | .error message => .error message
        | .ok source =>
          if source = [] then .error "SOURCE requires an IP address or network".toList
          else .ok { rule with source := source }
  | _ => .error "SOURCE requires an address and a complete rule".toList

/-- `parse_one_line`. -/
def parseOneLine (build : Builder) (line defaultTarget : Str) : Except Str RoutingRule :=
  if isSourceLine line then parseSourceLine build line defaultTarget
  else if contains line ",".toList then parseClashLine build line defaultTarget
  else
    match splitOnce "->".toList line with
    | some (left, right) =>
      match normalizeTarget (trim right) with
      | some target => parseTypedLeft build (trim left) target
      | none => .error (quoted "Unknown target" "" (trim right))
    | none => parsePlainLine build line defaultTarget

/-! ## Texts -/

/-- One failed line, counted from one. -/
structure BatchLineError where
  line : Nat
  message : Str
deriving DecidableEq

structure BatchParseResult where
  rules : List RoutingRule
  errors : List BatchLineError
deriving DecidableEq

/-- The name behind `@group`, which may be written in any case. -/
def groupName (rest : Str) : Option Str :=
  (stripPrefix "@group".toList (toAsciiLowercase rest)).map fun after =>
    trim (rest.drop (rest.length - after.length))

/-- `parse_group_directive`. -/
def parseGroupDirective (trimmed : Str) : Option Str :=
  if startsWith (trim trimmed) "#".toList then
    groupName (trim (trimStartMatches '#' (trim trimmed)))
  else none

/-- `split_line_and_name`. -/
def splitLineAndName (raw : Str) : Str × Str :=
  if trim raw = [] ∨ startsWith (trim raw) "#".toList = true then ([], [])
  else
    match splitOnce "#".toList (trim raw) with
    | some (body, name) => (trim body, trim name)
    | none => (trim raw, [])

/-- The rule of a line, with its name and the active group. -/
def dressRule (rule : RoutingRule) (name activeGroup : Str) : RoutingRule :=
  { rule with
    name := if name = [] then rule.name else name
    group := if rule.group = [] ∧ activeGroup ≠ [] then activeGroup else rule.group }

/-- The loop of `parse_batch_rules_in_group`, from a line with the given number on. -/
def batchLoop (build : Builder) (defaultTarget : Str) : Str → Nat → List Str → BatchParseResult
  | _, _, [] => ⟨[], []⟩
  | activeGroup, number, raw :: rest =>
    if trim raw = [] then batchLoop build defaultTarget activeGroup (number + 1) rest
    else
      match parseGroupDirective (trim raw) with
      | some group => batchLoop build defaultTarget group (number + 1) rest
      | none =>
        if (splitLineAndName raw).1 = [] then
          batchLoop build defaultTarget activeGroup (number + 1) rest
        else
          match parseOneLine build (splitLineAndName raw).1 defaultTarget with
          | .ok rule =>
            ⟨dressRule rule (splitLineAndName raw).2 activeGroup ::
                (batchLoop build defaultTarget activeGroup (number + 1) rest).rules,
              (batchLoop build defaultTarget activeGroup (number + 1) rest).errors⟩
          | .error message =>
            ⟨(batchLoop build defaultTarget activeGroup (number + 1) rest).rules,
              ⟨number, message⟩ ::
                (batchLoop build defaultTarget activeGroup (number + 1) rest).errors⟩

/-- The default target as the parser uses it. -/
def usedTarget (defaultTarget : Str) : Str :=
  (normalizeTarget defaultTarget).getD "proxy".toList

/-- `parse_batch_rules_in_group`. -/
def parseBatchRulesInGroup (host : HostParser) (text defaultTarget defaultGroup : Str) :
    BatchParseResult :=
  batchLoop (buildRule host) (usedTarget defaultTarget) (trim defaultGroup) 1 (lines text)

/-- `parse_batch_rules`. -/
def parseBatchRules (host : HostParser) (text defaultTarget : Str) : BatchParseResult :=
  parseBatchRulesInGroup host text defaultTarget []

/-! ## Typed patterns -/

/-- `make_typed_rule`. -/
def makeTypedRule (host : HostParser) (ruleType pattern target group : Str) :
    Except Str RoutingRule :=
  match buildRule host (normalizeType ruleType) (trim pattern) (usedTarget target) with
  | .error message => .error message
  | .ok rule => .ok { rule with group := trim group }

/-- The patterns of a line, for a type. -/
def typedTokens (kind line : Str) : List Str :=
  if kind = "domain".toList ∨ kind = "domain-suffix".toList ∨ kind = "domain-keyword".toList ∨
      kind = "geoip".toList then
    ((line.splitOnP fun c => c == ',' || c == ';' || isWhitespace c).map trim).filter (· ≠ [])
  else cells line

/-- The rules and errors of the patterns of one line. -/
def typedLine (host : HostParser) (kind target group : Str) (number : Nat) :
    List Str → BatchParseResult
  | [] => ⟨[], []⟩
  | token :: rest =>
    match buildRule host kind token target with
    | .ok rule =>
      ⟨{ rule with group := group } :: (typedLine host kind target group number rest).rules,
        (typedLine host kind target group number rest).errors⟩
    | .error message =>
      ⟨(typedLine host kind target group number rest).rules,
        ⟨number, message⟩ :: (typedLine host kind target group number rest).errors⟩

/-- The loop of `parse_typed_patterns`. -/
def typedLoop (host : HostParser) (kind target group : Str) : Nat → List Str → BatchParseResult
  | _, [] => ⟨[], []⟩
  | number, raw :: rest =>
    if trim raw = [] ∨ startsWith (trim raw) "#".toList = true ∨
        (splitLineAndName raw).1 = [] then
      typedLoop host kind target group (number + 1) rest
    else
      ⟨(typedLine host kind target group number
            (typedTokens kind (splitLineAndName raw).1)).rules ++
          (typedLoop host kind target group (number + 1) rest).rules,
        (typedLine host kind target group number
            (typedTokens kind (splitLineAndName raw).1)).errors ++
          (typedLoop host kind target group (number + 1) rest).errors⟩

/-- `parse_typed_patterns`. -/
def parseTypedPatterns (host : HostParser) (text ruleType target group : Str) : BatchParseResult :=
  typedLoop host (normalizeType ruleType) (usedTarget target) (trim group) 1 (lines text)

/-! ## Export -/

/-- `format_rule_destination_line`. -/
def formatRuleDestinationLine (rule : RoutingRule) : Str :=
  if rule.ruleType = "match".toList ∨ rule.ruleType = "final".toList then
    exportType rule.ruleType ++ ",".toList ++ exportTarget rule.target
  else
    exportType rule.ruleType ++ ",".toList ++ rule.pattern ++ ",".toList ++
      exportTarget rule.target

/-- `format_rule_clash_line`. -/
def formatRuleClashLine (rule : RoutingRule) : Str :=
  if rule.source = [] then formatRuleDestinationLine rule
  else "SOURCE,".toList ++ rule.source ++ ",".toList ++ formatRuleDestinationLine rule

/-- `str::replace` of line feeds by spaces. -/
def spaceLineFeeds (s : Str) : Str :=
  s.map fun c => if c = '\n' then ' ' else c

/-- The comment that carries the name of a rule. -/
def nameSuffix (rule : RoutingRule) : Str :=
  if rule.name = [] then [] else "  # ".toList ++ spaceLineFeeds rule.name

/-- The line of a rule in an export. -/
def exportLine (rule : RoutingRule) : Str :=
  (if rule.enabled then [] else "# disabled: ".toList) ++ formatRuleClashLine rule ++
    nameSuffix rule

/-- The lines of a display group in an export. -/
def exportBucket (rules : List RoutingRule) (bucket : RuleGroupView) : List Str :=
  ("# @group ".toList ++ bucket.name) ::
    (bucket.indices.filterMap fun index => rules[index]?).map exportLine

/-- The first two lines of every export. -/
def exportHeader : List Str :=
  ["# Sockrocket rules export — one rule per line".toList,
    "# @group Name switches group; trailing # is rule name".toList]

/-- `format_rules_export`. -/
def formatRulesExport (rules : List RoutingRule) : Str :=
  ['\n'].intercalate
    (exportHeader ++ (groupRulesForDisplay rules).flatMap (exportBucket rules))

end Sockrocket
