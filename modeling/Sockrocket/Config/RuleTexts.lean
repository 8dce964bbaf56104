import Sockrocket.Config.RuleLines

/-!
# Texts of rules

The loop over a pasted text does two things at once. `entries` says which of its lines ask for a
rule and under which group, and each of these lines is read on its own (`Entry.rule`). A text is
imported without errors exactly if every entry is (`batchLoop_eq`).

`entries_lines` and `splitOn_intercalate` lead from a text to its rows: trailing carriage returns
and a final line feed make no difference.
-/

namespace Sockrocket

open Rust List

/-- What the loop does with a line. -/
inductive Row where
  | silent
  | directive (group : Str)
  | entry (body name : Str)
deriving DecidableEq

/-- The kind of a line. -/
def row (raw : Str) : Row :=
  if trim raw = [] then .silent
  else
    match parseGroupDirective (trim raw) with
    | some group => .directive group
    | none =>
      if (splitLineAndName raw).1 = [] then .silent
      else .entry (splitLineAndName raw).1 (splitLineAndName raw).2

/-- A line that asks for a rule, with the group that is active there. -/
structure Entry where
  group : Str
  body : Str
  name : Str
deriving DecidableEq

/-- The lines that ask for rules. -/
def entries : Str → List Str → List Entry
  | _, [] => []
  | activeGroup, raw :: rest =>
    match row raw with
    | .silent => entries activeGroup rest
    | .directive group => entries group rest
    | .entry body name => ⟨activeGroup, body, name⟩ :: entries activeGroup rest

/-- The rule of an entry, or why there is none. -/
def Entry.rule (build : Builder) (defaultTarget : Str) (entry : Entry) : Except Str RoutingRule :=
  (parseOneLine build entry.body defaultTarget).map fun rule =>
    dressRule rule entry.name entry.group

/-! ## The loop -/

section Loop

variable {build : Builder} {defaultTarget : Str}

theorem batchLoop_cons (activeGroup : Str) (number : Nat) (raw : Str) (rest : List Str) :
    batchLoop build defaultTarget activeGroup number (raw :: rest) =
      match row raw with
      | .silent => batchLoop build defaultTarget activeGroup (number + 1) rest
      | .directive group => batchLoop build defaultTarget group (number + 1) rest
      | .entry body name =>
        match Entry.rule build defaultTarget ⟨activeGroup, body, name⟩ with
        | .ok rule =>
          ⟨rule :: (batchLoop build defaultTarget activeGroup (number + 1) rest).rules,
            (batchLoop build defaultTarget activeGroup (number + 1) rest).errors⟩
        | .error message =>
          ⟨(batchLoop build defaultTarget activeGroup (number + 1) rest).rules, ⟨number, message⟩ ::
              (batchLoop build defaultTarget activeGroup (number + 1) rest).errors⟩ := by
  rw [batchLoop, row]
  by_cases hblank : trim raw = []
  · rw [if_pos hblank, if_pos hblank]
  rw [if_neg hblank, if_neg hblank]
  cases hdirective : parseGroupDirective (trim raw) with
  | some group => rfl
  | none =>
    simp only []
    by_cases hbody : (splitLineAndName raw).1 = []
    · rw [if_pos hbody, if_pos hbody]
    rw [if_neg hbody, if_neg hbody]
    simp only [Entry.rule]
    cases parseOneLine build (splitLineAndName raw).1 defaultTarget with
    | ok rule | error message => rfl

variable {activeGroup : Str} {number : Nat} {rows : List Str}

/-- The rules of a text are those of its entries. -/
theorem mem_batchLoop_rules
    {rule : RoutingRule} :
    rule ∈ (batchLoop build defaultTarget activeGroup number rows).rules ↔
      ∃ entry ∈ entries activeGroup rows, entry.rule build defaultTarget = .ok rule := by
  induction rows generalizing activeGroup number with
  | nil => simp [batchLoop, entries]
  | cons raw rest ih =>
    rw [batchLoop_cons, entries]
    cases row raw with
    | silent | directive group => exact ih
    | entry body name =>
      simp only [mem_cons, exists_eq_or_imp]
      cases hrule : Entry.rule build defaultTarget ⟨activeGroup, body, name⟩ with
      | ok first =>
        simp [ih, eq_comm]
      | error message =>
        simp [ih]

/-- A text gives rules and no errors exactly if its entries give these rules. -/
theorem batchLoop_eq
    {rules : List RoutingRule} :
    ((batchLoop build defaultTarget activeGroup number rows).errors = [] ∧
        (batchLoop build defaultTarget activeGroup number rows).rules = rules) ↔
      (entries activeGroup rows).map (Entry.rule build defaultTarget) = rules.map .ok := by
  induction rows generalizing activeGroup number rules with
  | nil => simp [batchLoop, entries, eq_comm]
  | cons raw rest ih =>
    rw [batchLoop_cons, entries]
    cases row raw with
    | silent | directive group => exact ih
    | entry body name =>
      simp only [map_cons]
      cases hrule : Entry.rule build defaultTarget ⟨activeGroup, body, name⟩ with
      | error message =>
        simp only [reduceCtorEq, false_and, false_iff]
        cases rules with
        | nil | cons first others => simp
      | ok first =>
        cases rules with
        | nil => simp
        | cons first' others =>
          have hrest := @ih activeGroup (number + 1) others
          simp only [map_cons, cons.injEq, Except.ok.injEq, ← hrest]
          tauto

end Loop

/-! ## Rows -/

variable {raw : Str}

/-- Only the trimmed text of a line matters. -/
theorem row_congr {raw' : Str} (h : trim raw = trim raw') : row raw = row raw' := by
  unfold row splitLineAndName
  rw [h]

theorem entries_directive {group : Str} (h : row raw = .directive group) (activeGroup : Str)
    (rest : List Str) : entries activeGroup (raw :: rest) = entries group rest := by
  rw [entries, h]

variable {body name : Str}

theorem entries_entry (h : row raw = .entry body name) (activeGroup : Str)
    (rest : List Str) :
    entries activeGroup (raw :: rest) = ⟨activeGroup, body, name⟩ :: entries activeGroup rest := by
  rw [entries, h]

/-- Lines and pieces between line feeds ask for the same rules. -/
theorem entries_lines (activeGroup text : Str) :
    entries activeGroup (lines text) = entries activeGroup (text.splitOn '\n') := by
  unfold lines
  generalize text.splitOn '\n' = pieces
  induction pieces generalizing activeGroup with
  | nil => rfl
  | cons piece rest ih =>
    cases rest with
    | nil =>
      unfold linesOfPieces
      split
      · rename_i hnil
        rw [hnil]
        rfl
      · rfl
    | cons next rest =>
      rw [linesOfPieces, entries, entries, row_congr (trim_stripCarriageReturn piece)]
      simp only [ih]
      · exact cons_ne_nil _ _

theorem splitOn_intercalate {rows : List Str} (h : rows ≠ []) :
    (['\n'].intercalate rows).splitOn '\n' = rows.flatMap fun raw => raw.splitOn '\n' := by
  induction rows with
  | nil => exact absurd rfl h
  | cons raw rest ih =>
    cases rest with
    | nil => simp [intercalate]
    | cons next rest =>
      have hcons : ['\n'].intercalate (raw :: next :: rest) =
          raw ++ '\n' :: ['\n'].intercalate (next :: rest) := by
        simp [intercalate]
      rw [hcons, flatMap_cons, ← ih (by simp), splitOn, splitOnP_append_cons _ _ (by rfl)]
      rfl

/-! ## Kinds of rows -/

theorem startsWith_hash {s : Str} : startsWith s "#".toList ↔ s.head? = some '#' :=
  startsWith_singleton

theorem parseGroupDirective_eq_none {s : Str} (h : (trim s).head? ≠ some '#') :
    parseGroupDirective s = none := by
  unfold parseGroupDirective
  rw [if_neg fun hstart => h (startsWith_hash.mp hstart)]

/-- A blank line or a comment asks for nothing. -/
theorem row_comment (h : trim raw = [] ∨ (trim raw).head? = some '#')
    (body name : Str) : row raw ≠ .entry body name := by
  have hsplit : splitLineAndName raw = ([], []) :=
    if_pos (h.imp_right startsWith_hash.mpr)
  unfold row
  rw [hsplit]
  split
  · nofun
  split
  · nofun
  · rw [if_pos rfl]
    nofun

/-- A line without a comment asks for a rule. -/
theorem row_plain (hne : trim raw ≠ []) (hhash : '#' ∉ trim raw) :
    row raw = .entry (trim raw) [] := by
  have hhead : (trim raw).head? ≠ some '#' := fun h => hhash (mem_of_mem_head? h)
  have hsplit : splitLineAndName raw = (trim raw, []) := by
    unfold splitLineAndName
    rw [if_neg (not_or.mpr ⟨hne, fun h => hhead (startsWith_hash.mp h)⟩),
      show "#".toList = ['#'] from rfl, splitOnce_eq_none.mpr hhash]
  unfold row
  rw [if_neg hne, parseGroupDirective_eq_none (by rwa [trim_idem]), hsplit]
  exact if_neg hne

/-- A line with a comment behind its text asks for a rule with a name. -/
theorem row_hash (h : trim raw = body ++ '#' :: name) (hne : body ≠ [])
    (hhash : '#' ∉ body) : row raw = .entry (trim body) (trim name) := by
  obtain ⟨c, rest, rfl⟩ := exists_cons_of_ne_nil hne
  have hhead : (trim raw).head? = some c := by
    rw [h]
    rfl
  have hc : c ≠ '#' := fun heq => hhash (heq ▸ mem_cons_self)
  have hblank : trim raw ≠ [] := by
    rw [h]
    nofun
  have hcomment : (trim raw).head? ≠ some '#' := by
    rw [hhead]
    exact fun heq => hc (Option.some.inj heq)
  have hsplit : splitLineAndName raw = (trim (c :: rest), trim name) := by
    unfold splitLineAndName
    rw [if_neg (not_or.mpr ⟨hblank, fun hs => hcomment (startsWith_hash.mp hs)⟩), h,
      show "#".toList = ['#'] from rfl, splitOnce_append hhash]
  -- the body begins with the first visible character of the line
  have hbody : trim (c :: rest) ≠ [] := by
    intro hnil
    have hwhite := trim_eq_nil.mp hnil c mem_cons_self
    rw [(trimmed_trim raw).head c hhead] at hwhite
    cases hwhite
  unfold row
  rw [if_neg hblank, parseGroupDirective_eq_none (by rwa [trim_idem]), hsplit]
  exact if_neg hbody

/-- A line asks for a rule exactly if it is neither blank nor a comment. -/
theorem row_visible (hne : trim raw ≠ []) (hhead : (trim raw).head? ≠ some '#') :
    ∃ body name, row raw = .entry body name := by
  by_cases hhash : '#' ∈ trim raw
  · obtain ⟨body, name, hraw, hbody⟩ := eq_append_cons_of_mem hhash
    refine ⟨_, _, row_hash hraw ?_ hbody⟩
    rintro rfl
    exact hhead (by rw [hraw]; rfl)
  · exact ⟨_, _, row_plain hne hhash⟩

/-- The name of a rule is read back. -/
theorem row_name (hne : body ≠ []) (htrim : Trimmed body) (hhash : '#' ∉ body)
    (name : Str) : row (body ++ "  # ".toList ++ name) = .entry body (trim name) := by
  have hmark : Trimmed (body ++ "  #".toList) := by
    constructor
    · intro c hc
      rw [head?_append_of_ne_nil _ hne] at hc
      exact htrim.head c hc
    · intro c hc
      rw [getLast?_append_of_ne_nil _ (by decide)] at hc
      obtain rfl : '#' = c := Option.some.inj hc
      decide
  have htext : trim (body ++ "  # ".toList ++ name) =
      (body ++ "  ".toList) ++ '#' :: trimEnd (' ' :: name) := by
    have hraw : body ++ "  # ".toList ++ name = (body ++ "  #".toList) ++ ' ' :: name := by
      simp
    rw [hraw, trim_append_left hmark (by simp)]
    simp
  have hspaces : ∀ c ∈ "  ".toList, isWhitespace c := by
    intro c hc
    obtain rfl : c = ' ' := by simpa using hc
    decide
  rw [row_hash htext (by simp) (by simpa using hhash), trim_append_right hspaces, htrim.trim_eq,
    trim_trimEnd, trim_space]

theorem groupName_append (rest : Str) : groupName ("@group".toList ++ rest) = some (trim rest) := by
  have hstrip : stripPrefix "@group".toList (toAsciiLowercase ("@group".toList ++ rest)) =
      some (toAsciiLowercase rest) := by
    refine isPrefixOf?_eq_some_iff_append_eq.mpr ?_
    unfold toAsciiLowercase
    rw [map_append]
    rfl
  have hlength : ("@group".toList ++ rest).length - (toAsciiLowercase rest).length = 6 := by
    rw [toAsciiLowercase, length_map, length_append, Nat.add_sub_cancel]
    rfl
  unfold groupName
  rw [hstrip, Option.map_some, hlength]
  rfl

/-- A line that switches groups. -/
theorem row_group (name : Str) : row ("# @group ".toList ++ name) = .directive (trim name) := by
  have hmark : Trimmed "# @group".toList := by
    constructor
    · intro c hc
      obtain rfl : '#' = c := Option.some.inj hc
      decide
    · intro c hc
      obtain rfl : 'p' = c := Option.some.inj hc
      decide
  have htext : trim ("# @group ".toList ++ name) = "# @group".toList ++ trimEnd (' ' :: name) :=
    trim_append_left hmark (by decide)
  have hrest : trim (trimStartMatches '#' ("# @group".toList ++ trimEnd (' ' :: name))) =
      "@group".toList ++ trimEnd (trimEnd (' ' :: name)) := by
    change trim (' ' :: ("@group".toList ++ trimEnd (' ' :: name))) = _
    rw [trim_space]
    exact trim_append_left (IsWord.trimmed (by decide)) (by decide)
  have hgroup : parseGroupDirective (trim ("# @group ".toList ++ name)) = some (trim name) := by
    unfold parseGroupDirective
    rw [trim_idem, htext, if_pos (startsWith_hash.mpr rfl), hrest, groupName_append, trim_trimEnd, trim_trimEnd,
      trim_space]
  unfold row
  rw [if_neg (by rw [htext]; nofun), hgroup]

end Sockrocket
