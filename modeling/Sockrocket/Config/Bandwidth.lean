import Sockrocket.Rust.Text

/-!
# Bandwidth

`parse_mbps` reads a rate in decimal and returns whole bytes per second. `bandwidth_exact` says that
the 128-bit arithmetic is exact: a text is accepted when it writes a rate within the limit, and the
result is the rate rounded up. What `canonical_mbps` writes reads back as the same rate.
-/

namespace Sockrocket.Bandwidth

open Rust List

def outOfRange : Str := "Bandwidth out of range".toList

def stripSuffix (tail s : Str) : Option Str :=
  tail.isSuffixOf? s

/-- The number and the bits of its unit. -/
def splitUnit (value : Str) : Str × Nat :=
  if let some number := stripSuffix "gbps".toList value then (number, 1000000000)
  else if let some number := stripSuffix "mbps".toList value then (number, 1000000)
  else if let some number := stripSuffix "kbps".toList value then (number, 1000)
  else if let some number := stripSuffix "bps".toList value then (number, 1)
  else (value, 1000000)

/-- A `u128` that may overflow. -/
def checked (n : Nat) : Except Str Nat :=
  if n < 2 ^ 128 then .ok n else .error outOfRange

/-- A part of the number as a `u128`. The fraction is too short to be out of range. -/
def parsePart (digits : Str) : Except Str Nat :=
  if digits = [] then .ok 0
  else
    match parseUnsigned (2 ^ 128 - 1) digits with
    | some n => .ok n
    | none => .error outOfRange

def parseMbps (value : Str) : Except Str Nat :=
  let (number, unit) := splitUnit (toAsciiLowercase (trim value))
  let parts := (trim number).splitOn '.'
  let whole := parts.headD []
  let fraction := parts.tail.headD []
  if parts.length ≤ 2 ∧ (whole ≠ [] ∨ fraction ≠ []) ∧ fraction.length ≤ 9 ∧
      whole.all (isDigit 10) = true ∧ fraction.all (isDigit 10) = true then do
    let scale := 10 ^ fraction.length
    let whole ← parsePart whole
    let fraction ← parsePart fraction
    let scaled ← checked (whole * scale)
    let sum ← checked (scaled + fraction)
    let bits ← checked (sum * unit)
    let bytes := bits ⌈/⌉ (scale * 8)
    if bytes ≤ 125000000000 then .ok bytes else .error outOfRange
  else .error "Invalid bandwidth".toList

def displayMbps (bytes : Nat) : Str :=
  let whole := bytes / 125000
  let fraction := bytes % 125000 * 8
  if fraction = 0 then decimal whole
  else trimEndMatches '0' (decimal whole ++ '.' :: (decimal fraction).leftpad 6 '0')

def canonicalMbps (value : Str) : Except Str Str :=
  (parseMbps value).map displayMbps

/-! ## What a text writes -/

/-- The units by name. Without one the rate is in megabits. -/
def units : List (Str × Nat) :=
  [("gbps".toList, 1000000000), ("mbps".toList, 1000000), ("kbps".toList, 1000),
    ("bps".toList, 1), ([], 1000000)]

def IsDigits (s : Str) : Prop :=
  ∀ c ∈ s, isDigit 10 c = true

/-- The digits before and behind the point of a number. -/
structure IsDecimal (text whole fraction : Str) : Prop where
  text : text = whole ∧ fraction = [] ∨ text = whole ++ '.' :: fraction
  ne : whole ≠ [] ∨ fraction ≠ []
  whole : IsDigits whole
  fraction : IsDigits fraction

/-- A decimal number, with blanks around it and a unit behind it in either case. -/
def Written (value whole fraction : Str) (unit : Nat) : Prop :=
  ∃ number suffix, toAsciiLowercase (trim value) = number ++ suffix ∧ (suffix, unit) ∈ units ∧
    IsDecimal (trim number) whole fraction

/-- The rate, in bytes per second. -/
def rate (whole fraction : Str) (unit : Nat) : ℚ :=
  (digitsValue 10 whole + digitsValue 10 fraction / 10 ^ fraction.length) * unit / 8

variable {value number suffix whole fraction : Str} {unit bytes : Nat}

theorem splitUnit_spec (h : splitUnit value = (number, unit)) :
    ∃ suffix, value = number ++ suffix ∧ (suffix, unit) ∈ units := by
  have happend {tail rest : Str} (hstrip : stripSuffix tail value = some rest) :
      value = rest ++ tail :=
    (isSuffixOf?_eq_some_iff_append_eq.mp hstrip).symm
  unfold splitUnit at h
  repeat' split at h
  all_goals obtain ⟨rfl, rfl⟩ := Prod.mk.inj h
  · exact ⟨_, happend ‹_›, by decide⟩
  · exact ⟨_, happend ‹_›, by decide⟩
  · exact ⟨_, happend ‹_›, by decide⟩
  · exact ⟨_, happend ‹_›, by decide⟩
  · exact ⟨[], (append_nil _).symm, by decide⟩

/-- A unit is all that stands behind a number. -/
theorem stripSuffix_append {tail : Str} (htail : ∀ c ∈ tail, c.isLower)
    (hnumber : ∀ c ∈ number, c.isLower = false) :
    stripSuffix tail (number ++ suffix) = (stripSuffix tail suffix).map (number ++ ·) := by
  refine Option.ext fun rest => ?_
  simp only [stripSuffix, Option.map_eq_some_iff, isSuffixOf?_eq_some_iff_append_eq]
  constructor
  · intro h
    rcases append_eq_append_iff.mp h with ⟨more, rfl, hmore⟩ | ⟨more, rfl, rfl⟩
    · cases more with
      | nil => exact ⟨[], by simpa using hmore, by simp⟩
      | cons c more =>
        have hlower := htail c (by simp [hmore])
        rw [hnumber c (by simp)] at hlower
        cases hlower
    · exact ⟨more, rfl, rfl⟩
  · rintro ⟨more, rfl, rfl⟩
    simp

theorem splitUnit_append (hunit : (suffix, unit) ∈ units)
    (hnumber : ∀ c ∈ number, c.isLower = false) :
    splitUnit (number ++ suffix) = (number, unit) := by
  unfold splitUnit
  rw [stripSuffix_append (by simp) hnumber, stripSuffix_append (by simp) hnumber,
    stripSuffix_append (by simp) hnumber, stripSuffix_append (by simp) hnumber]
  simp only [units, mem_cons, Prod.mk.injEq, not_mem_nil, or_false] at hunit
  rcases hunit with ⟨rfl, rfl⟩ | ⟨rfl, rfl⟩ | ⟨rfl, rfl⟩ | ⟨rfl, rfl⟩ | ⟨rfl, rfl⟩ <;>
    simp [stripSuffix, isSuffixOf?, isPrefixOf?]

/-! ## Reading -/

variable {c : Char}

theorem toNat_of_isDigit (h : isDigit 10 c) : 48 ≤ c.toNat ∧ c.toNat ≤ 57 := by
  unfold isDigit toDigit digitValue at h
  split at h
  · rename_i hc
    exact hc
  · split at h
    · simp at h
    · split at h <;> simp at h

theorem not_isLower (h : c.toNat < 97 ∨ 122 < c.toNat) : c.isLower = false := by
  rw [Bool.eq_false_iff]
  intro hlower
  simp only [Char.isLower, Bool.and_eq_true, decide_eq_true_eq] at hlower
  have hle : 97 ≤ c.toNat ∧ c.toNat ≤ 122 := hlower
  omega

variable {text : Str}

/-- The characters of a number. -/
theorem IsDecimal.toNat (h : IsDecimal text whole fraction) (hc : c ∈ text) :
    46 ≤ c.toNat ∧ c.toNat ≤ 57 := by
  have hdigit : isDigit 10 c ∨ c = '.' := by
    rcases h.text with ⟨rfl, -⟩ | rfl
    · exact .inl (h.whole c hc)
    · rcases mem_append.mp hc with hc | hc
      · exact .inl (h.whole c hc)
      · exact (mem_cons.mp hc).symm.imp_left (h.fraction c)
  rcases hdigit with hdigit | rfl
  · have hbounds := toNat_of_isDigit hdigit
    omega
  · decide

theorem IsDecimal.isWord (h : IsDecimal text whole fraction) : IsWord text := by
  have hpoints : ∀ n ∈ Unicode.whitespacePoints, n < 46 ∨ 57 < n := by decide
  refine ⟨?_, fun c hc => ?_⟩
  · rcases h.text with ⟨rfl, hempty⟩ | rfl
    · exact h.ne.resolve_right (not_not.mpr hempty)
    · simp
  · rw [Bool.eq_false_iff]
    intro hspace
    have hpoint := hpoints _ (Unicode.inBounds_whitespace.mp hspace)
    have hbounds := h.toNat hc
    omega

/-- A plain number is a rate in megabits. -/
theorem IsDecimal.written (h : IsDecimal text whole fraction) :
    Written text whole fraction 1000000 := by
  have htrim := h.isWord.trimmed.trim_eq
  have hlower : toAsciiLowercase text = text := by
    refine (map_congr_left fun c hc => if_neg fun hupper => ?_).trans (map_id text)
    have hle : 65 ≤ c.toNat := hupper.1
    have hbounds := h.toNat hc
    omega
  exact ⟨text, [], by rw [htrim, hlower, append_nil], by decide, by rwa [htrim]⟩

theorem not_isLower_of_mem (h : IsDecimal (trim number) whole fraction)
    (hc : c ∈ number) : c.isLower = false := by
  refine not_isLower ?_
  rcases mem_trim_of_mem hc with hspace | hc
  · have hpoints : ∀ n ∈ Unicode.whitespacePoints, n < 97 ∨ 122 < n := by decide
    exact hpoints _ (Unicode.inBounds_whitespace.mp hspace)
  · have hbounds := h.toNat hc
    omega

theorem parsePart_eq (h : IsDigits whole) : parsePart whole = checked (digitsValue 10 whole) := by
  unfold parsePart checked
  by_cases hne : whole = []
  · rw [hne]
    rfl
  rw [if_neg hne, parseUnsigned_digits hne (all_eq_true.mpr h)]
  by_cases hmax : digitsValue 10 whole < 2 ^ 128
  · rw [if_pos hmax, if_pos (show _ ≤ 2 ^ 128 - 1 by omega)]
  · rw [if_neg hmax, if_neg (by omega)]

/-- The steps of the arithmetic. An overflow is far beyond the limit. -/
theorem checked_steps {whole scale fraction unit : Nat} (hscale : 0 < scale) (hle : scale ≤ 10 ^ 9)
    (hunit : 0 < unit) :
    (do
      let whole ← checked whole
      let fraction ← checked fraction
      let scaled ← checked (whole * scale)
      let sum ← checked (scaled + fraction)
      let bits ← checked (sum * unit)
      let bytes := bits ⌈/⌉ (scale * 8)
      if bytes ≤ 125000000000 then .ok bytes else .error outOfRange : Except Str Nat) =
    let bytes := (whole * scale + fraction) * unit ⌈/⌉ (scale * 8)
    if bytes ≤ 125000000000 then .ok bytes else .error outOfRange := by
  have hwhole : whole ≤ whole * scale := Nat.le_mul_of_pos_right _ hscale
  have hsum : whole * scale + fraction ≤ (whole * scale + fraction) * unit :=
    Nat.le_mul_of_pos_right _ hunit
  simp only [checked, bind, Except.bind]
  by_cases hbits : (whole * scale + fraction) * unit < 2 ^ 128
  · have hpass : whole < 2 ^ 128 ∧ fraction < 2 ^ 128 ∧ whole * scale < 2 ^ 128 ∧
        whole * scale + fraction < 2 ^ 128 := by omega
    simp only [hpass.1, hpass.2.1, hpass.2.2.1, hpass.2.2.2, hbits, if_true]
  have hlarge : ¬ (whole * scale + fraction) * unit ⌈/⌉ (scale * 8) ≤ 125000000000 := by
    rw [ceilDiv_le_iff_le_mul (by omega)]
    have hlimit : scale * 8 * 125000000000 ≤ 10 ^ 9 * 8 * 125000000000 := by gcongr
    omega
  rw [if_neg hlarge]
  by_cases hfirst : whole < 2 ^ 128 <;> by_cases hsecond : fraction < 2 ^ 128 <;>
    by_cases hscaled : whole * scale < 2 ^ 128 <;>
    by_cases htotal : whole * scale + fraction < 2 ^ 128 <;>
    simp only [hfirst, hsecond, hscaled, htotal, hbits, if_true, if_false]

theorem ceil_rate : ⌈rate whole fraction unit⌉₊ =
    (digitsValue 10 whole * 10 ^ fraction.length + digitsValue 10 fraction) * unit ⌈/⌉
      (10 ^ fraction.length * 8) := by
  refine eq_of_forall_ge_iff fun n => ?_
  rw [Nat.ceil_le, ceilDiv_le_iff_le_mul (by positivity), rate, ← Nat.cast_le (α := ℚ)]
  push_cast
  rw [div_le_iff₀ (by norm_num), add_div' _ _ _ (by positivity), div_mul_eq_mul_div,
    div_le_iff₀ (by positivity)]
  ring_nf

/-- The parts that the point separates. -/
theorem IsDecimal.parts (h : IsDecimal text whole fraction) :
    text.splitOn '.' = [whole] ∧ fraction = [] ∨ text.splitOn '.' = [whole, fraction] := by
  have hpoint {part : Str} (hpart : IsDigits part) : '.' ∉ part :=
    fun hmem => absurd (hpart '.' hmem) (by decide)
  have hsplit (parts : List Str) (hparts : ∀ part ∈ parts, IsDigits part) (hne : parts ≠ []) :
      (['.'].intercalate parts).splitOn '.' = parts :=
    splitOn_intercalate '.' (fun part hpart => hpoint (hparts part hpart)) hne
  rcases h.text with ⟨rfl, hempty⟩ | rfl
  · exact .inl ⟨by simpa using hsplit [text] (by simpa using h.whole) (by simp), hempty⟩
  · right
    simpa [intercalate] using
      hsplit [whole, fraction] (by simpa using ⟨h.whole, h.fraction⟩) (by simp)

/-- A text that writes a rate is read, unless the rate is beyond the limit. -/
theorem parseMbps_of_written (h : Written value whole fraction unit) (hlen : fraction.length ≤ 9) :
    parseMbps value =
      if ⌈rate whole fraction unit⌉₊ ≤ 125000000000 then .ok ⌈rate whole fraction unit⌉₊
      else .error outOfRange := by
  obtain ⟨number, suffix, hvalue, hunit, hdecimal⟩ := h
  have hpositive : ∀ entry ∈ units, 0 < entry.2 := by decide
  have hwhole := all_eq_true.mpr hdecimal.whole
  have hfraction := all_eq_true.mpr hdecimal.fraction
  rw [ceil_rate, ← checked_steps (by positivity) (Nat.pow_le_pow_right (by decide) hlen)
    (hpositive _ hunit), ← parsePart_eq hdecimal.whole, ← parsePart_eq hdecimal.fraction, parseMbps,
    hvalue, splitUnit_append hunit fun c hc => not_isLower_of_mem hdecimal hc]
  rcases hdecimal.parts with ⟨hparts, rfl⟩ | hparts
  · simp only [hparts]
    exact if_pos ⟨by simp, hdecimal.ne, hlen, hwhole, hfraction⟩
  · simp only [hparts]
    exact if_pos ⟨by simp, hdecimal.ne, hlen, hwhole, hfraction⟩

theorem written_of_parseMbps (h : parseMbps value = .ok bytes) :
    ∃ whole fraction unit, Written value whole fraction unit ∧ fraction.length ≤ 9 := by
  unfold parseMbps at h
  cases hsplit : splitUnit (toAsciiLowercase (trim value)) with
  | mk number unit =>
    obtain ⟨suffix, hvalue, hunit⟩ := splitUnit_spec hsplit
    simp only [hsplit] at h
    split at h
    · rename_i hvalid
      obtain ⟨hparts, hne, hlen, hwhole, hfraction⟩ := hvalid
      have htext : ['.'].intercalate ((trim number).splitOn '.') = trim number :=
        intercalate_splitOn '.'
      refine ⟨_, _, unit, ⟨number, suffix, hvalue, hunit, ?_, hne, all_eq_true.mp hwhole,
        all_eq_true.mp hfraction⟩, hlen⟩
      match (trim number).splitOn '.', hparts, htext with
      | [], _, htext => exact .inl ⟨htext.symm, rfl⟩
      | [whole], _, htext => exact .inl ⟨by simpa using htext.symm, rfl⟩
      | [whole, fraction], _, htext => exact .inr (by simpa [intercalate] using htext.symm)
    · cases h

/-! ## Writing -/

/-- Trailing zeros are a power of ten. -/
theorem digitsValue_rdropWhile (s : Str) :
    (s.rdropWhile (· == '0')).length ≤ s.length ∧ digitsValue 10 s =
      digitsValue 10 (s.rdropWhile (· == '0')) *
        10 ^ (s.length - (s.rdropWhile (· == '0')).length) := by
  induction s using reverseRecOn with
  | nil => simp
  | append_singleton s c ih =>
    by_cases hc : (c == '0')
    · rw [rdropWhile_concat_pos (· == '0') s c hc, length_append, length_singleton,
        Nat.sub_add_comm ih.1, pow_succ, ← mul_assoc, ← ih.2, digitsValue_append, eq_of_beq hc]
      exact ⟨ih.1.trans (Nat.le_succ _), rfl⟩
    · rw [rdropWhile_concat_neg (· == '0') s c hc]
      simp

theorem rdropWhile_point (whole s : Str) :
    (whole ++ '.' :: s).rdropWhile (· == '0') = whole ++ '.' :: s.rdropWhile (· == '0') := by
  simp only [rdropWhile, reverse_append, reverse_cons, append_assoc, dropWhile_append]
  split
  · rename_i hzeros
    rw [isEmpty_iff.mp hzeros]
    simp
  · simp

theorem leftpad_digits (n width : Nat) :
    digitsValue 10 ((decimal n).leftpad width '0') = n ∧ IsDigits ((decimal n).leftpad width '0') := by
  unfold leftpad
  refine ⟨?_, fun c hc => ?_⟩
  · induction width - (decimal n).length with
    | zero => exact digitsValue_decimal n
    | succ count ih => exact ih
  · rcases mem_append.mp hc with hc | hc
    · rw [eq_of_mem_replicate hc]
      decide
    · exact isDigit_of_mem_decimal hc

/-- A rate in megabits, to six places. -/
theorem rate_mega (hlen : fraction.length ≤ 6)
    (h : digitsValue 10 whole * 1000000 + digitsValue 10 fraction * 10 ^ (6 - fraction.length) =
      bytes * 8) : rate whole fraction 1000000 = bytes := by
  have hpow : (10 : ℚ) ^ fraction.length * 10 ^ (6 - fraction.length) = 1000000 := by
    rw [← pow_add, Nat.add_sub_cancel' hlen]
    norm_num
  have hrate : (digitsValue 10 whole * 1000000 +
      digitsValue 10 fraction * 10 ^ (6 - fraction.length) : ℚ) = bytes * 8 := by
    exact_mod_cast h
  rw [rate]
  push_cast
  rw [div_eq_iff (by norm_num), ← hrate, add_mul, ← hpow]
  field_simp

/-- The text of a rate is a decimal number with the rate's value. -/
theorem displayMbps_decimal (bytes : Nat) :
    ∃ whole fraction, IsDecimal (displayMbps bytes) whole fraction ∧ fraction.length ≤ 6 ∧
      rate whole fraction 1000000 = bytes := by
  have hdigits : IsDigits (decimal (bytes / 125000)) := fun c hc => isDigit_of_mem_decimal hc
  unfold displayMbps
  refine ⟨decimal (bytes / 125000), ?_⟩
  by_cases hzero : bytes % 125000 * 8 = 0
  · rw [if_pos hzero]
    refine ⟨[], ⟨.inl ⟨rfl, rfl⟩, .inl (decimal_ne_nil _), hdigits, by simp [IsDigits]⟩,
      by simp, rate_mega (by simp) ?_⟩
    rw [digitsValue_decimal]
    simp only [digitsValue, foldl_nil]
    omega
  · rw [if_neg hzero]
    obtain ⟨hvalue, hpad⟩ := leftpad_digits (bytes % 125000 * 8) 6
    obtain ⟨hle, hdrop⟩ := digitsValue_rdropWhile ((decimal (bytes % 125000 * 8)).leftpad 6 '0')
    have hlength : ((decimal (bytes % 125000 * 8)).leftpad 6 '0').length = 6 := by
      rw [length_leftpad]
      refine max_eq_left (Nat.toDigits_length 10 _ 6 (Nat.succ_pos 5) ?_)
      omega
    rw [hlength] at hle hdrop
    refine ⟨_, ⟨.inr (rdropWhile_point _ _), .inl (decimal_ne_nil _), hdigits, fun c hc =>
      hpad c (( rdropWhile_prefix _ _).subset hc)⟩, hle, rate_mega hle ?_⟩
    rw [digitsValue_decimal, ← hdrop, hvalue]
    omega

theorem bandwidth_exact :
    (∀ value bytes, parseMbps value = .ok bytes ↔
      ∃ whole fraction unit, Written value whole fraction unit ∧ fraction.length ≤ 9 ∧
        bytes = ⌈rate whole fraction unit⌉₊ ∧ bytes ≤ 125000000000) ∧
      ∀ value text, canonicalMbps value = .ok text →
        parseMbps text = parseMbps value ∧ canonicalMbps text = .ok text := by
  have hread (value : Str) (bytes : Nat) : parseMbps value = .ok bytes ↔
      ∃ whole fraction unit, Written value whole fraction unit ∧ fraction.length ≤ 9 ∧
        bytes = ⌈rate whole fraction unit⌉₊ ∧ bytes ≤ 125000000000 := by
    constructor
    · intro h
      obtain ⟨whole, fraction, unit, hwritten, hlen⟩ := written_of_parseMbps h
      rw [parseMbps_of_written hwritten hlen] at h
      split at h
      · rename_i hle
        obtain rfl := Except.ok.inj h
        exact ⟨whole, fraction, unit, hwritten, hlen, rfl, hle⟩
      · cases h
    · rintro ⟨whole, fraction, unit, hwritten, hlen, rfl, hle⟩
      rw [parseMbps_of_written hwritten hlen, if_pos hle]
  refine ⟨hread, fun value text h => ?_⟩
  unfold canonicalMbps at h ⊢
  cases hparse : parseMbps value with
  | error message => simp [hparse, Except.map] at h
  | ok bytes =>
    obtain rfl : displayMbps bytes = text := by simpa [hparse, Except.map] using h
    obtain ⟨-, -, -, -, -, -, hle⟩ := (hread value bytes).mp hparse
    obtain ⟨whole, fraction, hdecimal, hlen, hrate⟩ := displayMbps_decimal bytes
    have hback : parseMbps (displayMbps bytes) = .ok bytes :=
      (hread _ bytes).mpr ⟨whole, fraction, _, hdecimal.written, hlen.trans (by decide),
        by rw [hrate, Nat.ceil_natCast], hle⟩
    rw [hback]
    exact ⟨rfl, rfl⟩

end Sockrocket.Bandwidth
