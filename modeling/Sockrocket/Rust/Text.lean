import Mathlib
import Sockrocket.Rust.Unicode

/-!
# String methods

The `str` methods the program calls, on the list of scalar values of a string. Byte counts and
byte slices follow the UTF-8 encoding. Each method carries the lemmas its callers need: how it
acts on a concatenation, and what its result can contain.
-/

namespace Rust

open List Option

/-- `str::len`: the number of bytes of the encoding. -/
def len (s : Str) : Nat :=
  (s.map Char.utf8Size).sum

/-- `str::trim_start`. -/
def trimStart (s : Str) : Str :=
  s.dropWhile isWhitespace

/-- `str::trim_end`. -/
def trimEnd (s : Str) : Str :=
  s.rdropWhile isWhitespace

/-- `str::trim`. -/
def trim (s : Str) : Str :=
  trimEnd (trimStart s)

/-- `str::trim_start_matches` for one character. -/
def trimStartMatches (c : Char) (s : Str) : Str :=
  s.dropWhile (· == c)

/-- `str::trim_end_matches` for one character. -/
def trimEndMatches (c : Char) (s : Str) : Str :=
  s.rdropWhile (· == c)

/-- `str::trim_matches` for one character. -/
def trimMatches (c : Char) (s : Str) : Str :=
  trimEndMatches c (trimStartMatches c s)

/-- `str::strip_prefix`. -/
def stripPrefix (head s : Str) : Option Str :=
  head.isPrefixOf? s

/-- `str::starts_with`. -/
def startsWith (s head : Str) : Bool :=
  head.isPrefixOf s

/-- `str::ends_with`. -/
def endsWith (s tail : Str) : Bool :=
  tail.isSuffixOf s

/-- `str::contains`. -/
def contains (s pattern : Str) : Bool :=
  decide (pattern <:+: s)

/-- `str::eq_ignore_ascii_case`. -/
def eqIgnoreAsciiCase (s t : Str) : Bool :=
  toAsciiLowercase s == toAsciiLowercase t

/-- `str::split_once`: the text before and after the first occurrence of `sep`. -/
def splitOnce (sep : Str) (s : Str) : Option (Str × Str) :=
  match sep.isPrefixOf? s with
  | some rest => some ([], rest)
  | none =>
    match s with
    | [] => none
    | c :: rest => (splitOnce sep rest).map fun (before, after) => (c :: before, after)

/-- `str::splitn` at one character: at most `n` parts, the last one unsplit. -/
def splitn (n : Nat) (c : Char) (s : Str) : List Str :=
  match n with
  | 0 => []
  | 1 => [s]
  | n + 2 =>
    match splitOnce [c] s with
    | some (before, after) => before :: splitn (n + 1) c after
    | none => [s]

/-- `str::split_whitespace`. -/
def splitWhitespace (s : Str) : List Str :=
  (s.splitOnP isWhitespace).filter (· ≠ [])

/-- A line without the carriage return in front of its line feed. -/
def stripCarriageReturn (line : Str) : Str :=
  if line.getLast? = some '\r' then line.dropLast else line

/-- The lines of a text split at its line feeds. The piece after the last line feed is a line
only when it is not empty, and it keeps a final carriage return. -/
def linesOfPieces : List Str → List Str
  | [] => []
  | [last] => if last = [] then [] else [last]
  | piece :: rest => stripCarriageReturn piece :: linesOfPieces rest

/-- `str::lines`. -/
def lines (text : Str) : List Str :=
  linesOfPieces (text.splitOn '\n')

/-- `str::get(..n)`: the first `n` bytes, when they end at a character boundary. -/
def getTo : Str → Nat → Option Str
  | [], n => if n = 0 then some [] else none
  | c :: rest, n =>
    if n = 0 then some []
    else if c.utf8Size ≤ n then (getTo rest (n - c.utf8Size)).map (c :: ·)
    else none

variable {c : Char} {s : Str}

theorem startsWith_singleton :
    startsWith s [c] ↔ s.head? = some c := by
  rw [startsWith, isPrefixOf_iff_prefix]
  cases s with
  | nil => simp
  | cons x rest =>
    rw [cons_prefix_cons, head?_cons]
    simp only [ nil_prefix, and_true, some.injEq]
    exact eq_comm

theorem trimStartMatches_cons (c : Char) (s : Str) :
    trimStartMatches c (c :: s) = trimStartMatches c s := by
  unfold trimStartMatches
  rw [dropWhile_cons_of_pos (by simp)]

theorem trimStartMatches_eq_self (h : s.head? ≠ some c) :
    trimStartMatches c s = s := by
  cases s with
  | nil => rfl
  | cons x rest =>
    unfold trimStartMatches
    rw [dropWhile_cons_of_neg (by simpa using h)]

theorem head?_trimStartMatches (c : Char) (s : Str) : (trimStartMatches c s).head? ≠ some c := by
  intro h
  have hhead := head?_dropWhile_not (· == c) s
  unfold trimStartMatches at h
  rw [h] at hhead
  simp at hhead

theorem trimStartMatches_idem (c : Char) (s : Str) :
    trimStartMatches c (trimStartMatches c s) = trimStartMatches c s :=
  trimStartMatches_eq_self (head?_trimStartMatches c s)

/-- Leading dots may be stripped before or after lowercasing. -/
theorem toLowercase_trimStartMatches (s : Str) :
    toLowercase (trimStartMatches '.' s) = trimStartMatches '.' (toLowercase s) := by
  induction s with
  | nil => rfl
  | cons c rest ih =>
    by_cases hdot : c = '.'
    · subst hdot
      rw [trimStartMatches_cons, toLowercase_dot, trimStartMatches_cons, ih]
    · have hhead : (c :: rest).head? ≠ some '.' := by simpa using hdot
      rw [trimStartMatches_eq_self hhead,
        trimStartMatches_eq_self fun h => hhead (head?_toLowercase.mp h)]

/-! ## Splitting at a character -/

theorem splitOnce_cons (c x : Char) (rest : Str) :
    splitOnce [c] (x :: rest) =
      if x = c then some ([], rest)
      else (splitOnce [c] rest).map fun (before, after) => (x :: before, after) := by
  by_cases h : x = c
  · simp [splitOnce, isPrefixOf?, h]
  · have hne : (c == x) = false := by
      simpa using fun heq => h heq.symm
    simp [splitOnce, isPrefixOf?, h, hne]

variable {before after : Str}

/-- What `split_once` finds: the text up to the first occurrence, and the text behind it. -/
theorem splitOnce_eq_some :
    splitOnce [c] s = some (before, after) ↔ s = before ++ c :: after ∧ c ∉ before := by
  induction s generalizing before with
  | nil => simp [splitOnce, isPrefixOf?]
  | cons x rest ih =>
    rw [splitOnce_cons]
    by_cases hx : x = c
    · subst hx
      cases before with
      | nil => simp [eq_comm]
      | cons y before =>
        simp only [if_true, some.injEq, Prod.mk.injEq, cons_append,
          cons.injEq, mem_cons, not_or]
        constructor
        · rintro ⟨hnil, -⟩
          cases hnil
        · rintro ⟨⟨rfl, -⟩, hne, -⟩
          exact absurd rfl hne
    · cases before with
      | nil => simp [hx]
      | cons y before =>
        simp only [if_neg hx, map_eq_some_iff, Prod.exists, Prod.mk.injEq,
          cons.injEq, cons_append, mem_cons, not_or]
        constructor
        · rintro ⟨a, b, hsplit, ⟨rfl, rfl⟩, rfl⟩
          obtain ⟨rfl, hmem⟩ := ih.mp hsplit
          exact ⟨⟨rfl, rfl⟩, fun heq => hx heq.symm, hmem⟩
        · rintro ⟨⟨rfl, hrest⟩, -, hmem⟩
          exact ⟨before, after, ih.mpr ⟨hrest, hmem⟩, ⟨rfl, rfl⟩, rfl⟩

theorem splitOnce_append (h : c ∉ before) (after : Str) :
    splitOnce [c] (before ++ c :: after) = some (before, after) :=
  splitOnce_eq_some.mpr ⟨rfl, h⟩

theorem splitOnce_eq_none : splitOnce [c] s = none ↔ c ∉ s := by
  constructor
  · intro h hmem
    obtain ⟨before, after, rfl, hbefore⟩ := eq_append_cons_of_mem hmem
    rw [splitOnce_append hbefore] at h
    cases h
  · intro h
    cases hsplit : splitOnce [c] s with
    | none => rfl
    | some parts =>
      obtain ⟨rfl, -⟩ := splitOnce_eq_some.mp hsplit
      exact absurd (by simp) h

/-- The text before the first occurrence of a separator is part of the whole. -/
theorem mem_of_splitOnce {sep : Str} {parts : Str × Str} (h : splitOnce sep s = some parts)
    (hc : c ∈ parts.1) : c ∈ s := by
  induction s generalizing parts with
  | nil =>
    unfold splitOnce at h
    split at h
    · obtain rfl := some.inj h
      cases hc
    · cases h
  | cons x rest ih =>
    unfold splitOnce at h
    split at h
    · obtain rfl := some.inj h
      cases hc
    obtain ⟨tail, htail, rfl⟩ := map_eq_some_iff.mp h
    rcases mem_cons.mp hc with rfl | hc
    · exact mem_cons_self
    · exact mem_cons_of_mem x (ih htail hc)

variable {n : Nat}

/-- The parts of a text are made of its characters. -/
theorem mem_of_mem_splitn {sep : Char} {part : Str} (h : part ∈ splitn n sep s) (hc : c ∈ part) :
    c ∈ s := by
  induction n generalizing s with
  | zero => cases h
  | succ n ih =>
    cases n with
    | zero =>
      obtain rfl : part = s := by simpa [splitn] using h
      exact hc
    | succ n =>
      unfold splitn at h
      cases hsplit : splitOnce [sep] s with
      | none =>
        rw [hsplit] at h
        obtain rfl : part = s := by simpa using h
        exact hc
      | some parts =>
        rw [hsplit] at h
        obtain ⟨rfl, -⟩ := splitOnce_eq_some.mp hsplit
        rcases mem_cons.mp h with rfl | h
        · exact mem_append_left _ hc
        · exact mem_append_right _ (mem_cons_of_mem _ (ih h))

/-! ## Words -/

/-- A text `split_whitespace` keeps whole. -/
def IsWord (s : Str) : Prop :=
  s ≠ [] ∧ ∀ c ∈ s, isWhitespace c = false

instance (s : Str) : Decidable (IsWord s) :=
  decidable_of_iff (s ≠ [] ∧ s.all (fun c => !isWhitespace c) = true) (by simp [IsWord])

variable {p : Char → Bool} {piece : Str}

/-- The pieces between separators hold no separator. -/
theorem not_sep_of_mem_splitOnP (h : piece ∈ s.splitOnP p) :
    ∀ c ∈ piece, p c = false := by
  induction s generalizing piece with
  | nil =>
    obtain rfl : piece = [] := by simpa using h
    simp
  | cons x rest ih =>
    rw [splitOnP_cons_eq_if_modifyHead] at h
    by_cases hx : p x
    · rw [if_pos hx, mem_cons] at h
      rcases h with rfl | h
      · simp
      · exact ih h
    · rw [if_neg hx] at h
      -- the first piece grows by the character that is not a separator
      cases hpieces : rest.splitOnP p with
      | nil => rw [hpieces] at h; cases h
      | cons head tail =>
        rw [hpieces, modifyHead_cons, mem_cons] at h
        rcases h with rfl | h
        · intro c hc
          rcases mem_cons.mp hc with rfl | hc
          · simpa using hx
          · exact ih (hpieces ▸ mem_cons_self) c hc
        · exact ih (hpieces ▸ mem_cons_of_mem _ h)

/-- The pieces hold nothing but characters of the text. -/
theorem mem_of_mem_splitOnP (h : piece ∈ s.splitOnP p)
    (hc : c ∈ piece) : c ∈ s := by
  induction s generalizing piece with
  | nil =>
    obtain rfl : piece = [] := by simpa using h
    exact hc
  | cons x rest ih =>
    rw [splitOnP_cons_eq_if_modifyHead] at h
    by_cases hx : p x
    · rw [if_pos hx, mem_cons] at h
      rcases h with rfl | h
      · cases hc
      · exact mem_cons_of_mem x (ih h hc)
    · rw [if_neg hx] at h
      cases hpieces : rest.splitOnP p with
      | nil => rw [hpieces] at h; cases h
      | cons head tail =>
        rw [hpieces, modifyHead_cons, mem_cons] at h
        rcases h with rfl | h
        · rcases mem_cons.mp hc with rfl | hc
          · exact mem_cons_self
          · exact mem_cons_of_mem x (ih (hpieces ▸ mem_cons_self) hc)
        · exact mem_cons_of_mem x (ih (hpieces ▸ mem_cons_of_mem _ h) hc)

theorem isWord_of_mem_splitWhitespace {word : Str} (h : word ∈ splitWhitespace s) :
    IsWord word := by
  obtain ⟨hpiece, hne⟩ := mem_filter.mp h
  exact ⟨by simpa using hne, not_sep_of_mem_splitOnP hpiece⟩

/-- Two words with a space between them are split into the two. -/
theorem splitWhitespace_pair {first second : Str} (hfirst : IsWord first)
    (hsecond : IsWord second) : splitWhitespace (first ++ ' ' :: second) = [first, second] := by
  unfold splitWhitespace
  rw [splitOnP_append_cons_of_forall_mem hfirst.2 ' ' (by decide), splitOnP_eq_singleton hsecond.2]
  simp [hfirst.1, hsecond.1]

theorem isWhitespace_asciiLowerChar (c : Char) :
    isWhitespace (asciiLowerChar c) = isWhitespace c := by
  have hall : ∀ n < 128, isWhitespace (asciiLowerChar (Char.ofNat n)) =
      isWhitespace (Char.ofNat n) := by
    decide
  by_cases hupper : 'A' ≤ c ∧ c ≤ 'Z'
  · have hle : c.toNat ≤ 90 := hupper.2
    simpa using hall c.toNat (by omega)
  · rw [asciiLowerChar, if_neg hupper]

theorem IsWord.toAsciiLowercase (h : IsWord s) : IsWord (toAsciiLowercase s) := by
  refine ⟨by simpa [Rust.toAsciiLowercase] using h.1, ?_⟩
  intro c hc
  obtain ⟨x, hx, rfl⟩ := mem_map.mp hc
  rw [isWhitespace_asciiLowerChar]
  exact h.2 x hx

/-! ## Trimming and lines -/

/-- Nothing is trimmed from a text whose ends are not white space. -/
theorem trim_eq_self (hhead : ∀ c, s.head? = some c → isWhitespace c = false)
    (hlast : ∀ c, s.getLast? = some c → isWhitespace c = false) : trim s = s := by
  have hstart : trimStart s = s := by
    cases s with
    | nil => rfl
    | cons c rest => simp [trimStart, hhead c rfl]
  rw [trim, hstart, trimEnd, rdropWhile_eq_self_iff]
  intro hne
  have h := hlast (s.getLast hne) (getLast?_eq_getLast_of_ne_nil hne)
  simp [h]

/-- Neither end of the text is white space. -/
structure Trimmed (s : Str) : Prop where
  head : ∀ c, s.head? = some c → isWhitespace c = false
  last : ∀ c, s.getLast? = some c → isWhitespace c = false

theorem Trimmed.trim_eq (h : Trimmed s) : trim s = s :=
  trim_eq_self h.head h.last

theorem mem_of_mem_trim (h : c ∈ trim s) : c ∈ s :=
  (dropWhile_suffix _).subset (( rdropWhile_prefix _ _).subset h)

theorem rdropWhile_dropWhile_eq_nil :
    (s.dropWhile p).rdropWhile p = [] ↔ ∀ c ∈ s, p c := by
  rw [rdropWhile_eq_nil_iff]
  constructor
  · intro h
    -- what is left at the start is not dropped, so nothing is left
    have hnil : s.dropWhile p = [] := by
      by_contra hne
      have hhead := head_dropWhile_not p hne
      rw [h _ (head_mem hne)] at hhead
      cases hhead
    exact dropWhile_eq_nil_iff.mp hnil
  · intro h c hc
    exact h c ((dropWhile_suffix _).subset hc)

theorem trim_eq_nil : trim s = [] ↔ ∀ c ∈ s, isWhitespace c :=
  rdropWhile_dropWhile_eq_nil

theorem trimMatches_eq_nil {x : Char} : trimMatches x s = [] ↔ ∀ c ∈ s, c = x := by
  unfold trimMatches trimEndMatches trimStartMatches
  rw [rdropWhile_dropWhile_eq_nil]
  simp

theorem trimmed_trim (s : Str) : Trimmed (trim s) := by
  constructor
  · intro c hc
    -- the first character is the first one of the text without its white space in front
    obtain ⟨tail, htail⟩ := rdropWhile_prefix isWhitespace (trimStart s)
    have hfirst : (trimStart s).head? = some c := by
      rw [← htail, head?_append]
      change ((trim s).head?).or _ = _
      rw [hc]
      rfl
    have hhead := head?_dropWhile_not isWhitespace s
    unfold trimStart at hfirst
    rw [hfirst] at hhead
    exact hhead
  · intro c hc
    have hself : rdropWhile isWhitespace (trim s) = trim s :=
      rdropWhile_idempotent isWhitespace _
    rw [rdropWhile_eq_self_iff] at hself
    have hne : trim s ≠ [] := by
      intro hnil
      rw [hnil] at hc
      cases hc
    have hlast := hself hne
    rw [getLast?_eq_getLast_of_ne_nil hne, some.injEq] at hc
    rw [hc] at hlast
    simpa using hlast

theorem trim_idem (s : Str) : trim (trim s) = trim s :=
  (trimmed_trim s).trim_eq

/-- White space around a text is trimmed. -/
theorem trim_append (hs : Trimmed s) (hne : s ≠ []) (hbefore : ∀ c ∈ before, isWhitespace c)
    (hafter : ∀ c ∈ after, isWhitespace c) :
    trim (before ++ s ++ after) = s := by
  have hstart : trimStart (before ++ s ++ after) = s ++ after := by
    unfold trimStart
    rw [append_assoc, dropWhile_append, dropWhile_eq_nil_iff.mpr hbefore]
    cases s with
    | nil => exact absurd rfl hne
    | cons c rest => simp [hs.head c rfl]
  have hend : trimEnd (s ++ after) = s := by
    unfold trimEnd rdropWhile
    have hreverse : after.reverse.dropWhile isWhitespace = [] :=
      dropWhile_eq_nil_iff.mpr fun c hc => hafter c (mem_reverse.mp hc)
    rw [reverse_append, dropWhile_append, hreverse]
    have hself : rdropWhile isWhitespace s = s := by
      rw [rdropWhile_eq_self_iff]
      intro hl
      simp [hs.last _ (getLast?_eq_getLast_of_ne_nil hl)]
    simpa [rdropWhile] using hself
  rw [trim, hstart, hend]

/-- What is trimmed from a text is white space. -/
theorem exists_trim (s : Str) : ∃ before after, s = before ++ trim s ++ after ∧
    (∀ c ∈ before, isWhitespace c) ∧ ∀ c ∈ after, isWhitespace c := by
  refine ⟨s.takeWhile isWhitespace, ((trimStart s).reverse.takeWhile isWhitespace).reverse,
    ?_, fun c hc => mem_takeWhile_imp hc, fun c hc => ?_⟩
  · have hend : trim s ++ ((trimStart s).reverse.takeWhile isWhitespace).reverse = trimStart s := by
      unfold trim trimEnd rdropWhile
      rw [← reverse_append, takeWhile_append_dropWhile, reverse_reverse]
    rw [append_assoc, hend]
    exact takeWhile_append_dropWhile.symm
  · exact mem_takeWhile_imp (mem_reverse.mp hc)

theorem mem_trim_of_mem (hc : c ∈ s) :
    isWhitespace c ∨ c ∈ trim s := by
  obtain ⟨before, after, hs, hbefore, hafter⟩ := exists_trim s
  rw [hs, mem_append, mem_append] at hc
  rcases hc with (hc | hc) | hc
  · exact .inl (hbefore c hc)
  · exact .inr hc
  · exact .inl (hafter c hc)

/-- White space behind a text is trimmed. -/
theorem trim_append_right (hafter : ∀ c ∈ after, isWhitespace c) :
    trim (s ++ after) = trim s := by
  obtain ⟨before, tail, hs, hbefore, htail⟩ := exists_trim s
  by_cases hne : trim s = []
  · rw [hne, trim_eq_nil]
    intro c hc
    rcases mem_append.mp hc with hc | hc
    · exact trim_eq_nil.mp hne c hc
    · exact hafter c hc
  · have hsplit : s ++ after = before ++ trim s ++ (tail ++ after) := by
      rw [← append_assoc, ← hs]
    rw [hsplit]
    refine trim_append (trimmed_trim s) hne hbefore fun c hc => ?_
    rcases mem_append.mp hc with hc | hc
    · exact htail c hc
    · exact hafter c hc

theorem trim_stripCarriageReturn (line : Str) : trim (stripCarriageReturn line) = trim line := by
  unfold stripCarriageReturn
  split
  · rename_i hlast
    have hline : line.dropLast ++ ['\r'] = line := dropLast_append_getLast? '\r' hlast
    have htrim : trim (line.dropLast ++ ['\r']) = trim line.dropLast := by
      refine trim_append_right fun c hc => ?_
      rw [mem_singleton.mp hc]
      decide
    rw [← htrim, hline]
  · rfl

/-- Trimming behind a text that ends in something visible. -/
theorem trim_append_left {head rest : Str} (hhead : Trimmed head) (hne : head ≠ []) :
    trim (head ++ rest) = head ++ trimEnd rest := by
  have hstart : trimStart (head ++ rest) = head ++ rest := by
    cases head with
    | nil => exact absurd rfl hne
    | cons c tail => simp [trimStart, hhead.head c rfl]
  have hlast : head.reverse.dropWhile isWhitespace = head.reverse := by
    have hself : rdropWhile isWhitespace head = head := by
      rw [rdropWhile_eq_self_iff]
      intro hl
      simp [hhead.last _ (getLast?_eq_getLast_of_ne_nil hl)]
    simpa [rdropWhile, reverse_eq_iff] using hself
  rw [trim, hstart, trimEnd, rdropWhile, reverse_append, dropWhile_append]
  split
  · rename_i hempty
    rw [hlast, reverse_reverse, trimEnd, rdropWhile, isEmpty_iff.mp hempty]
    simp
  · rw [reverse_append, reverse_reverse]
    rfl

theorem trim_space (s : Str) : trim (' ' :: s) = trim s := by
  unfold trim trimStart
  rw [dropWhile_cons_of_pos (by decide)]

/-- White space that is left in front makes no difference to trimming. -/
theorem trim_trimEnd (s : Str) : trim (trimEnd s) = trim s := by
  have hend : trimEnd s ++ (s.reverse.takeWhile isWhitespace).reverse = s := by
    unfold trimEnd rdropWhile
    rw [← reverse_append, takeWhile_append_dropWhile, reverse_reverse]
  have htrim : trim (trimEnd s ++ (s.reverse.takeWhile isWhitespace).reverse) =
      trim (trimEnd s) :=
    trim_append_right fun c hc => mem_takeWhile_imp (mem_reverse.mp hc)
  rw [← htrim, hend]

theorem IsWord.trimmed (h : IsWord s) : Trimmed s :=
  ⟨fun c hc => h.2 c (mem_of_mem_head? hc), fun c hc => h.2 c (mem_of_getLast? hc)⟩

/-- The lines of a text whose every line ends in a line feed. -/
theorem lines_flatMap {rows : List Str} (h : ∀ row ∈ rows, '\n' ∉ row) :
    lines (rows.flatMap fun row => row ++ ['\n']) = rows.map stripCarriageReturn := by
  unfold lines
  induction rows with
  | nil => rfl
  | cons row rest ih =>
    have hrow : ∀ c ∈ row, (c == '\n') = false := by
      intro c hc
      have hne : c ≠ '\n' := fun heq => h row mem_cons_self (heq ▸ hc)
      simpa using hne
    rw [flatMap_cons, append_assoc, singleton_append]
    rw [splitOn, splitOnP_append_cons_of_forall_mem hrow '\n' (by decide)]
    have hrest := ih fun row hmem => h row (mem_cons_of_mem _ hmem)
    rw [splitOn] at hrest
    -- what follows a line feed is never the empty list of pieces
    cases hpieces : (rest.flatMap fun row => row ++ ['\n']).splitOnP (· == '\n') with
    | nil => exact absurd hpieces (splitOnP_ne_nil _ _)
    | cons piece pieces =>
      rw [hpieces] at hrest
      rw [linesOfPieces, hrest, map_cons]
      simp

/-! ## Byte slices -/

theorem getTo_append (head rest : Str) : getTo (head ++ rest) (len head) = some head := by
  induction head with
  | nil => cases rest <;> rfl
  | cons c head ih =>
    have hpos : 0 < c.utf8Size := Char.utf8Size_pos c
    have hlen : len (c :: head) = c.utf8Size + len head := rfl
    rw [hlen, cons_append, getTo, if_neg (by omega), if_pos (Nat.le_add_right _ _),
      Nat.add_sub_cancel_left, ih]
    rfl

theorem prefix_of_getTo {head : Str} (h : getTo s n = some head) : head <+: s := by
  induction s generalizing n head with
  | nil =>
    unfold getTo at h
    split at h
    · obtain rfl := some.inj h
      exact nil_prefix
    · cases h
  | cons c rest ih =>
    unfold getTo at h
    split at h
    · obtain rfl := some.inj h
      exact nil_prefix
    split at h
    · obtain ⟨tail, htail, rfl⟩ := map_eq_some_iff.mp h
      exact cons_prefix_cons.mpr ⟨rfl, ih htail⟩
    · cases h

/-! ## Numbers -/

/-- The value of an alphanumeric ASCII character read as a digit of a large radix. -/
def digitValue (c : Char) : Option Nat :=
  if '0' ≤ c ∧ c ≤ '9' then some (c.toNat - '0'.toNat)
  else if 'a' ≤ c ∧ c ≤ 'z' then some (c.toNat - 'a'.toNat + 10)
  else if 'A' ≤ c ∧ c ≤ 'Z' then some (c.toNat - 'A'.toNat + 10)
  else none

/-- `char::to_digit`: the value of a digit below `radix`. -/
def toDigit (radix : Nat) (c : Char) : Option Nat :=
  (digitValue c).filter (· < radix)

/-- The character is a digit below `radix`. -/
def isDigit (radix : Nat) (c : Char) : Bool :=
  (toDigit radix c).isSome

/-- The value of a sequence of digits, most significant first. -/
def digitsValue (radix : Nat) (digits : Str) : Nat :=
  digits.foldl (fun value c => value * radix + (toDigit radix c).getD 0) 0

/-- `str::parse` for an unsigned integer type whose largest value is `max`. One plus sign is
allowed in front of the digits. -/
def parseUnsigned (max : Nat) (s : Str) : Option Nat :=
  let digits := match s with
    | '+' :: rest => rest
    | _ => s
  if digits ≠ [] ∧ digits.all (isDigit 10) = true ∧ digitsValue 10 digits ≤ max then
    some (digitsValue 10 digits)
  else none

/-- The decimal text of a number. -/
def decimal (n : Nat) : Str :=
  Nat.toDigits 10 n

variable {radix : Nat}

/-- A digit character below `radix` reads back as its value. -/
theorem toDigit_digitChar {d : Nat} (hradix : radix ≤ 16) (hd : d < radix) :
    toDigit radix (Nat.digitChar d) = some d := by
  have hall : ∀ n < 16, digitValue (Nat.digitChar n) = some n := by decide
  simp [toDigit, hall d (by omega), hd]

theorem isDigit_of_mem_toDigits (hlow : 1 < radix) (hradix : radix ≤ 16)
    (hc : c ∈ Nat.toDigits radix n) : isDigit radix c := by
  induction n using Nat.strong_induction_on with
  | h n ih =>
    rw [Nat.toDigits_eq_if hlow] at hc
    split at hc
    · rename_i hn
      obtain rfl : c = Nat.digitChar n := by simpa using hc
      simp [isDigit, toDigit_digitChar hradix hn]
    rename_i hn
    rw [mem_append, mem_singleton] at hc
    rcases hc with hc | rfl
    · exact ih (n / radix) (Nat.div_lt_self (by omega) hlow) hc
    · simp [isDigit, toDigit_digitChar hradix (Nat.mod_lt n (by omega))]

theorem digitsValue_append (radix : Nat) (digits : Str) (c : Char) :
    digitsValue radix (digits ++ [c]) = digitsValue radix digits * radix + (toDigit radix c).getD 0 := by
  simp [digitsValue]

/-- The digits of a number have the number as their value. -/
theorem digitsValue_toDigits (hlow : 1 < radix) (hradix : radix ≤ 16) (n : Nat) :
    digitsValue radix (Nat.toDigits radix n) = n := by
  induction n using Nat.strong_induction_on with
  | h n ih =>
    rw [Nat.toDigits_eq_if hlow]
    split
    · rename_i hn
      simp [digitsValue, toDigit_digitChar hradix hn]
    rename_i hn
    rw [digitsValue_append, ih (n / radix) (Nat.div_lt_self (by omega) hlow),
      toDigit_digitChar hradix (Nat.mod_lt n (by omega)), getD_some]
    exact Nat.div_add_mod' n radix

/-- A number written with a leading zero is zero. -/
theorem eq_zero_of_head_toDigits (hlow : 1 < radix) (hradix : radix ≤ 16)
    (h : (Nat.toDigits radix n).head? = some '0') : n = 0 := by
  have hzero : ∀ d < 16, Nat.digitChar d = '0' → d = 0 := by decide
  induction n using Nat.strong_induction_on with
  | h n ih =>
    rw [Nat.toDigits_eq_if hlow] at h
    split at h
    · rename_i hn
      exact hzero n (by omega) (by simpa using h)
    rename_i hn
    rw [head?_append_of_ne_nil _ Nat.toDigits_ne_nil] at h
    have hquot := ih (n / radix) (Nat.div_lt_self (by omega) hlow) h
    have hpos : 0 < n / radix := Nat.div_pos (by omega) (by omega)
    omega

theorem decimal_ne_nil (n : Nat) : decimal n ≠ [] :=
  Nat.toDigits_ne_nil

theorem isDigit_of_mem_decimal (hc : c ∈ decimal n) : isDigit 10 c :=
  isDigit_of_mem_toDigits (by decide) (by decide) hc

theorem digitsValue_decimal (n : Nat) : digitsValue 10 (decimal n) = n :=
  digitsValue_toDigits (by decide) (by decide) n

variable {max : Nat}

theorem parseUnsigned_digits (hne : s ≠ []) (hall : s.all (isDigit 10)) :
    parseUnsigned max s = if digitsValue 10 s ≤ max then some (digitsValue 10 s) else none := by
  unfold parseUnsigned
  split
  · rename_i rest
    exact absurd (all_eq_true.mp hall '+' mem_cons_self) (by decide)
  · simp [hne, hall]

/-- A number is read back from its decimal text. -/
theorem parseUnsigned_decimal (h : n ≤ max) :
    parseUnsigned max (decimal n) = some n := by
  have hall : (decimal n).all (isDigit 10) :=
    all_eq_true.mpr fun c hc => isDigit_of_mem_decimal hc
  rw [parseUnsigned_digits (decimal_ne_nil n) hall, digitsValue_decimal, if_pos h]

end Rust
