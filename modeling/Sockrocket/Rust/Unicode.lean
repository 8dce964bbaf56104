import Mathlib
import Sockrocket.Rust.UnicodeData

/-!
# Character classes and case conversion

The `char` and `str` methods of the Rust standard library that depend on Unicode data. Strings
are lists of scalar values, so `Str` is `List Char` and a byte length is computed from the
encoded sizes. `toLowercase` follows the standard library in treating a capital sigma by its
context. The results used elsewhere are `toLowercase_idem`, `toLowercase_of_ascii`, and the
three facts about the ASCII characters that can occur in a lowercase image.
-/

namespace Rust

/-- A Rust string, as its sequence of Unicode scalar values. -/
abbrev Str := List Char

instance : LawfulBEq Str := inferInstance

namespace Unicode

/-- `inBounds bounds n` says an odd number of the ascending `bounds` are at most `n`. -/
def inBounds (bounds : List Nat) (n : Nat) : Bool :=
  (bounds.countP fun bound => bound ≤ n) % 2 == 1

/-- The run maps the code point `n`. -/
def CaseRun.contains (run : CaseRun) (n : Nat) : Bool :=
  run.lo ≤ n && n ≤ run.hi && (n - run.lo) % run.stride == 0

/-- The image of a code point under the first run that contains it, or the code point itself. -/
def mapCase (runs : List CaseRun) (n : Nat) : Nat :=
  match runs.find? (·.contains n) with
  | some run => run.image + (n - run.lo)
  | none => n

end Unicode

open Unicode List

/-- `char::is_whitespace`. -/
def isWhitespace (c : Char) : Bool :=
  inBounds whitespaceBounds c.toNat

/-- `char::is_alphanumeric`. -/
def isAlphanumeric (c : Char) : Bool :=
  inBounds alphanumericBounds c.toNat

/-- `char::to_lowercase`. The dotted capital I is the only character with a longer image. -/
def lowerChar (c : Char) : Str :=
  if c.toNat = 0x130 then ['i', Char.ofNat 0x307] else [Char.ofNat (mapCase lowerRuns c.toNat)]

/-- `char::to_uppercase`. -/
def upperChar (c : Char) : Str :=
  match upperExpansions.lookup c.toNat with
  | some image => image.map Char.ofNat
  | none => [Char.ofNat (mapCase upperRuns c.toNat)]

/-- The first character that is not case-ignorable is cased. -/
def caseIgnorableThenCased (s : Str) : Bool :=
  match s.dropWhile fun c => inBounds caseIgnorableBounds c.toNat with
  | c :: _ => inBounds casedBounds c.toNat
  | [] => false

/-- Lowercase `rest`, where `before` holds the characters already passed, latest first. A capital
sigma becomes a final sigma after a cased character when no cased character follows. -/
def lowerAfter (before : Str) : Str → Str
  | [] => []
  | c :: rest =>
    (if c = 'Σ' then
      if caseIgnorableThenCased before && !caseIgnorableThenCased rest then ['ς'] else ['σ']
    else lowerChar c) ++ lowerAfter (c :: before) rest

/-- `str::to_lowercase`. -/
def toLowercase (s : Str) : Str :=
  lowerAfter [] s

/-- `str::to_uppercase`. -/
def toUppercase (s : Str) : Str :=
  s.flatMap upperChar

/-- `char::is_ascii`. -/
def isAscii (c : Char) : Bool :=
  c.toNat < 128

/-- `char::to_ascii_lowercase`. -/
def asciiLowerChar (c : Char) : Char :=
  if 'A' ≤ c ∧ c ≤ 'Z' then Char.ofNat (c.toNat + 32) else c

/-- `str::to_ascii_lowercase`. -/
def toAsciiLowercase (s : Str) : Str :=
  s.map asciiLowerChar

/-- `char::to_ascii_uppercase`. -/
def asciiUpperChar (c : Char) : Char :=
  if 'a' ≤ c ∧ c ≤ 'z' then Char.ofNat (c.toNat - 32) else c

namespace Unicode

/-- The image of the last character of a run. -/
def CaseRun.last (run : CaseRun) : Nat :=
  run.image + (run.hi - run.lo)

variable {n : Nat}

variable {run : CaseRun}

theorem CaseRun.contains_iff :
    run.contains n ↔ (run.lo ≤ n ∧ n ≤ run.hi) ∧ (n - run.lo) % run.stride = 0 := by
  simp [CaseRun.contains]

/-- The code points that a run maps. -/
def CaseRun.members (run : CaseRun) : List Nat :=
  List.range' run.lo ((run.hi - run.lo) / run.stride + 1) run.stride

/-- Where a run maps them to. -/
def CaseRun.images (run : CaseRun) : List Nat :=
  run.members.map fun n => run.image + (n - run.lo)

theorem CaseRun.mem_members (h : run.contains n) :
    n ∈ run.members := by
  obtain ⟨⟨hlo, hhi⟩, hmod⟩ := CaseRun.contains_iff.mp h
  refine mem_range'.mpr ⟨(n - run.lo) / run.stride, ?_, ?_⟩
  · exact Nat.lt_succ_of_le (Nat.div_le_div_right (by omega))
  · rw [Nat.mul_div_cancel' (Nat.dvd_of_mod_eq_zero hmod)]
    omega

variable {runs : List CaseRun}

theorem mem_flatMap_members (hrun : run ∈ runs)
    (h : run.contains n) : n ∈ runs.flatMap CaseRun.members :=
  mem_flatMap.mpr ⟨run, hrun, CaseRun.mem_members h⟩

theorem mem_flatMap_images (hrun : run ∈ runs)
    (h : run.contains n) : run.image + (n - run.lo) ∈ runs.flatMap CaseRun.images :=
  mem_flatMap.mpr ⟨run, hrun, mem_map.mpr ⟨n, CaseRun.mem_members h, rfl⟩⟩

/-- A set of code points as a number: bit `n` stands for the code point `n`. The kernel intersects two
such numbers in one step. -/
def bitset (points : List Nat) : Nat :=
  points.foldr (fun n set => set ||| 1 <<< n) 0

theorem testBit_bitset {points : List Nat} :
    (bitset points).testBit n ↔ n ∈ points := by
  induction points with
  | nil => simp [bitset]
  | cons point rest ih =>
    have hcons : bitset (point :: rest) = bitset rest ||| 1 <<< point := rfl
    rw [hcons, Nat.testBit_or, Bool.or_eq_true, ih, Nat.testBit_shiftLeft, mem_cons, or_comm]
    refine or_congr_left ?_
    simp only [ge_iff_le, Bool.and_eq_true, decide_eq_true_eq,
      Nat.testBit_one_eq_true_iff_self_eq_zero]
    omega

/-- Sets without a common bit have no common element. -/
theorem not_mem_of_bitset {points others : List Nat} (h : bitset points &&& bitset others = 0)
    (hn : n ∈ points) : n ∉ others := by
  intro hother
  have hbit : (bitset points &&& bitset others).testBit n := by
    rw [Nat.testBit_and, testBit_bitset.mpr hn, testBit_bitset.mpr hother]
    rfl
  rw [h, Nat.zero_testBit] at hbit
  cases hbit

/-- The code points that are white space. -/
def whitespacePoints : List Nat :=
  [9, 10, 11, 12, 13, 32, 0x85, 0xa0, 0x1680, 0x2000, 0x2001, 0x2002, 0x2003, 0x2004, 0x2005, 0x2006,
    0x2007, 0x2008, 0x2009, 0x200a, 0x2028, 0x2029, 0x202f, 0x205f, 0x3000]

set_option maxRecDepth 10000 in
/-- No image of a lowercase run is mapped again, and none is white space. -/
theorem lowerRuns_images : bitset (lowerRuns.flatMap CaseRun.images) &&&
    bitset (0x130 :: whitespacePoints ++ lowerRuns.flatMap CaseRun.members) = 0 := by
  decide

set_option maxRecDepth 10000 in
/-- No lowercase run maps white space. -/
theorem lowerRuns_points :
    bitset whitespacePoints &&& bitset (lowerRuns.flatMap CaseRun.members) = 0 := by
  decide

/-- Every image of a lowercase run is a scalar value. -/
theorem lowerRuns_scalar : lowerRuns.all (fun run =>
    run.last < 0xd800 || (0xe000 ≤ run.image && run.last < 0x110000)) := by
  decide

/-- A lowercase run starts in ASCII only for the ASCII capitals, and only the Kelvin sign is
mapped into ASCII from outside. -/
theorem lowerRuns_ascii :
    lowerRuns.all (fun run =>
      run.hi < 128 || (128 ≤ run.lo && (128 ≤ run.image || (run.image == 0x6b && run.lo == run.hi))))
      := by
  decide

/-- Where `mapCase` sends a code point: to itself, or to its image in a run. -/
theorem mapCase_cases (runs : List CaseRun) (n : Nat) :
    ((∀ run ∈ runs, run.contains n = false) ∧ mapCase runs n = n) ∨
      ∃ run ∈ runs, run.contains n ∧ mapCase runs n = run.image + (n - run.lo) := by
  unfold mapCase
  cases h : runs.find? (·.contains n) with
  | none =>
    refine .inl ⟨fun run hrun => ?_, rfl⟩
    simpa using find?_eq_none.mp h run hrun
  | some run =>
    have hcontains := find?_some h
    exact .inr ⟨run, mem_of_find?_eq_some h, hcontains, rfl⟩

theorem mapCase_of_not_contains (h : ∀ run ∈ runs, run.contains n = false) :
    mapCase runs n = n := by
  unfold mapCase
  rw [find?_eq_none.mpr (fun run hrun => by simp [h run hrun])]

theorem toNat_ofNat_of_isValid (h : n < 0xd800 ∨ (0xe000 ≤ n ∧ n < 0x110000)) :
    (Char.ofNat n).toNat = n := by
  have hvalid : n.isValidChar := by
    unfold Nat.isValidChar
    omega
  simp [Char.ofNat, hvalid, Char.toNat, Char.ofNatAux]

/-- The lowercase image of a code point is a fixed point of the lowercase runs. -/
theorem mapCase_lowerRuns (c : Char) (hc : c.toNat ≠ 0x130) :
    let image := Char.ofNat (mapCase lowerRuns c.toNat)
    image.toNat = mapCase lowerRuns c.toNat ∧ image.toNat ≠ 0x130 ∧
      mapCase lowerRuns image.toNat = image.toNat := by
  intro image
  rcases mapCase_cases lowerRuns c.toNat with ⟨hnone, heq⟩ | ⟨run, hrun, hcontains, heq⟩
  · have himage : image = c := by simp [image, heq]
    rw [himage]
    exact ⟨heq.symm, hc, heq⟩
  have hvalid := all_eq_true.mp lowerRuns_scalar run hrun
  simp only [Bool.and_eq_true, Bool.or_eq_true, decide_eq_true_eq] at hvalid
  obtain ⟨⟨hlo, hhi⟩, -⟩ := CaseRun.contains_iff.mp hcontains
  have htoNat : image.toNat = mapCase lowerRuns c.toNat := by
    refine toNat_ofNat_of_isValid ?_
    unfold CaseRun.last at hvalid
    rw [heq]
    omega
  have hclosed := not_mem_of_bitset lowerRuns_images (mem_flatMap_images hrun hcontains)
  rw [← heq, ← htoNat, cons_append, mem_cons, mem_append, not_or, not_or] at hclosed
  refine ⟨htoNat, hclosed.1, mapCase_of_not_contains fun other hother => ?_⟩
  rw [Bool.eq_false_iff]
  intro hmapped
  exact hclosed.2.2 (mem_flatMap_members hother hmapped)

/-- Outside ASCII, only the Kelvin sign has an ASCII image in the lowercase runs. -/
theorem mapCase_lowerRuns_nonascii (hn : 128 ≤ n) :
    128 ≤ mapCase lowerRuns n ∨ mapCase lowerRuns n = 0x6b := by
  rcases mapCase_cases lowerRuns n with ⟨-, heq⟩ | ⟨run, hrun, hcontains, heq⟩
  · rw [heq]
    exact .inl hn
  have hascii := all_eq_true.mp lowerRuns_ascii run hrun
  obtain ⟨⟨hlo, hhi⟩, -⟩ := CaseRun.contains_iff.mp hcontains
  simp only [Bool.and_eq_true, Bool.or_eq_true, decide_eq_true_eq, beq_iff_eq] at hascii
  omega

end Unicode

/-- A character that lowercasing leaves alone in every context. -/
def IsLower (c : Char) : Prop :=
  lowerChar c = [c] ∧ c ≠ 'Σ'

variable {c x : Char}

theorem isLower_of_mem_lowerChar (h : x ∈ lowerChar c) : IsLower x := by
  unfold lowerChar at h
  split at h
  · simp only [mem_cons, not_mem_nil, or_false] at h
    rcases h with rfl | rfl <;> exact ⟨by decide, by decide⟩
  rename_i hc
  obtain rfl : x = Char.ofNat (mapCase lowerRuns c.toNat) := by simpa using h
  obtain ⟨-, hne, hfixed⟩ := mapCase_lowerRuns c hc
  refine ⟨?_, fun hsigma => ?_⟩
  · unfold lowerChar
    rw [if_neg hne, hfixed, Char.ofNat_toNat]
  · rw [hsigma] at hfixed
    exact absurd hfixed (by decide)

theorem lowerChar_ne_nil (c : Char) : lowerChar c ≠ [] := by
  unfold lowerChar
  split <;> simp

/-- The characters that lowercasing puts in the place of `c`. -/
def lowerImage (c : Char) : Str :=
  if c = 'Σ' then ['σ', 'ς'] else lowerChar c

variable {before s : Str}

theorem mem_lowerAfter (h : x ∈ lowerAfter before s) :
    ∃ c ∈ s, x ∈ lowerImage c := by
  induction s generalizing before with
  | nil => simp [lowerAfter] at h
  | cons c rest ih =>
    simp only [lowerAfter, mem_append] at h
    rcases h with h | h
    · refine ⟨c, by simp, ?_⟩
      unfold lowerImage
      by_cases hsigma : c = 'Σ'
      · simp only [hsigma, if_true] at h ⊢
        split at h <;> simp_all
      · simpa [hsigma] using h
    · obtain ⟨c', hc', hx⟩ := ih h
      exact ⟨c', by simp [hc'], hx⟩

theorem isLower_of_mem_lowerImage (h : x ∈ lowerImage c) : IsLower x := by
  unfold lowerImage at h
  split at h
  · simp only [mem_cons, not_mem_nil, or_false] at h
    rcases h with rfl | rfl <;> exact ⟨by decide, by decide⟩
  · exact isLower_of_mem_lowerChar h

theorem lowerAfter_of_isLower (h : ∀ c ∈ s, IsLower c) :
    lowerAfter before s = s := by
  induction s generalizing before with
  | nil => rfl
  | cons c rest ih =>
    obtain ⟨hfixed, hsigma⟩ := h c (by simp)
    rw [lowerAfter, if_neg hsigma, hfixed, ih (fun x hx => h x (by simp [hx]))]
    rfl

/-- Lowercasing twice is lowercasing once. -/
theorem toLowercase_idem (s : Str) : toLowercase (toLowercase s) = toLowercase s := by
  refine lowerAfter_of_isLower fun x hx => ?_
  obtain ⟨c, -, hc⟩ := mem_lowerAfter hx
  exact isLower_of_mem_lowerImage hc

/-! ## ASCII -/

theorem lowerChar_of_isAscii (h : isAscii c) :
    lowerChar c = [asciiLowerChar c] := by
  have hlt : c.toNat < 128 := by simpa [isAscii] using h
  -- the first run holds the ASCII capitals, and the others start outside ASCII
  have htail : lowerRuns.tail.all (fun run => Nat.ble 128 run.lo) := by decide
  have hmap : mapCase lowerRuns c.toNat =
      if 0x41 ≤ c.toNat ∧ c.toNat ≤ 0x5a then c.toNat + 32 else c.toNat := by
    rcases mapCase_cases lowerRuns c.toNat with ⟨hnone, heq⟩ | ⟨run, hrun, hcontains, heq⟩
    · have hfirst := hnone ⟨0x41, 0x5a, 1, 0x61⟩ mem_cons_self
      rw [heq, if_neg]
      rintro ⟨hlo, hhi⟩
      rw [CaseRun.contains_iff.mpr ⟨⟨hlo, hhi⟩, Nat.mod_one _⟩] at hfirst
      cases hfirst
    · obtain ⟨⟨hlo, hhi⟩, -⟩ := CaseRun.contains_iff.mp hcontains
      rcases mem_cons.mp (show run ∈ ⟨0x41, 0x5a, 1, 0x61⟩ :: lowerRuns.tail from hrun)
        with rfl | hother
      · rw [heq, if_pos ⟨hlo, hhi⟩]
        dsimp only
        change 0x41 ≤ c.toNat at hlo
        omega
      · have hbound := Nat.ble_eq.mp (all_eq_true.mp htail run hother)
        omega
  have hupper : ('A' ≤ c ∧ c ≤ 'Z') ↔ 0x41 ≤ c.toNat ∧ c.toNat ≤ 0x5a := Iff.rfl
  rw [lowerChar, if_neg (by omega), hmap, asciiLowerChar]
  by_cases hletter : 0x41 ≤ c.toNat ∧ c.toNat ≤ 0x5a
  · rw [if_pos hletter, if_pos (hupper.mpr hletter)]
  · rw [if_neg hletter, if_neg fun h => hletter (hupper.mp h), Char.ofNat_toNat]

theorem ne_sigma_of_isAscii (h : isAscii c) : c ≠ 'Σ' := by
  rintro rfl
  exact absurd h (by decide)

/-- On an ASCII string the two lowercase conversions agree. -/
theorem toLowercase_of_ascii (h : ∀ c ∈ s, isAscii c) :
    toLowercase s = toAsciiLowercase s := by
  have hafter : ∀ before, lowerAfter before s = s.map asciiLowerChar := by
    induction s with
    | nil => exact fun _ => rfl
    | cons c rest ih =>
      intro before
      have hc := h c (by simp)
      rw [lowerAfter, if_neg (ne_sigma_of_isAscii hc), lowerChar_of_isAscii hc,
        ih (fun x hx => h x (by simp [hx]))]
      rfl
  exact hafter []

theorem asciiLowerChar_idem (c : Char) : asciiLowerChar (asciiLowerChar c) = asciiLowerChar c := by
  have hall : ∀ n < 128, asciiLowerChar (asciiLowerChar (Char.ofNat n)) =
      asciiLowerChar (Char.ofNat n) := by
    decide
  by_cases hupper : 'A' ≤ c ∧ c ≤ 'Z'
  · have hle : c.toNat ≤ 90 := hupper.2
    simpa using hall c.toNat (by omega)
  · have hself : asciiLowerChar c = c := if_neg hupper
    rw [hself, hself]

theorem toAsciiLowercase_idem (s : Str) :
    toAsciiLowercase (toAsciiLowercase s) = toAsciiLowercase s := by
  simp [toAsciiLowercase, asciiLowerChar_idem]

theorem isAscii_asciiLowerChar : isAscii (asciiLowerChar c) = isAscii c := by
  unfold asciiLowerChar
  split
  · rename_i h
    have hle : c.toNat ≤ 90 := h.2
    have hvalid : (Char.ofNat (c.toNat + 32)).toNat = c.toNat + 32 :=
      toNat_ofNat_of_isValid (by omega)
    simp only [isAscii, hvalid, decide_eq_decide]
    omega
  · rfl

/-- A string whose ASCII lowercase form is ASCII has that form as its lowercase form too. -/
theorem toLowercase_eq_of_toAsciiLowercase {t : Str} (h : toAsciiLowercase s = t)
    (ht : ∀ c ∈ t, isAscii c) : toLowercase s = t := by
  rw [← h]
  refine toLowercase_of_ascii fun c hc => ?_
  rw [← isAscii_asciiLowerChar]
  refine ht _ ?_
  rw [← h]
  exact mem_map_of_mem hc

/-- An ASCII character of a lowercase image comes from an ASCII character, from the Kelvin sign
or from the dotted capital I. -/
theorem ascii_of_mem_lowerImage (h : x ∈ lowerImage c) (hx : isAscii x) :
    (isAscii c ∧ x = asciiLowerChar c) ∨ x = 'k' ∨ x = 'i' := by
  unfold lowerImage at h
  split at h
  · simp only [mem_cons, not_mem_nil, or_false] at h
    rcases h with rfl | rfl <;> exact absurd hx (by decide)
  cases hc : isAscii c with
  | true =>
    rw [lowerChar_of_isAscii hc] at h
    exact .inl ⟨rfl, by simpa using h⟩
  | false =>
    unfold lowerChar at h
    split at h
    · simp only [mem_cons, not_mem_nil, or_false] at h
      rcases h with rfl | rfl
      · exact .inr (.inr rfl)
      · exact absurd hx (by decide)
    · rename_i hdot
      obtain rfl : x = Char.ofNat (mapCase lowerRuns c.toNat) := by simpa using h
      have hn : 128 ≤ c.toNat := by simpa [isAscii] using hc
      obtain ⟨htoNat, -, -⟩ := mapCase_lowerRuns c hdot
      rcases mapCase_lowerRuns_nonascii hn with hle | hk
      · simp only [isAscii, htoNat, decide_eq_true_eq] at hx
        omega
      · exact .inr (.inl (by rw [hk]))

/-- The lowercase image of a character outside ASCII keeps one outside ASCII, or is a `k`. -/
theorem exists_mem_lowerImage (hc : isAscii c = false) :
    (∀ x ∈ lowerImage c, x = 'k') ∨ ∃ x ∈ lowerImage c, isAscii x = false := by
  unfold lowerImage
  split
  · exact .inr ⟨'σ', by simp, by decide⟩
  unfold lowerChar
  split
  · exact .inr ⟨Char.ofNat 0x307, by simp, by decide⟩
  rename_i hdot
  have hn : 128 ≤ c.toNat := by simpa [isAscii] using hc
  obtain ⟨htoNat, -, -⟩ := mapCase_lowerRuns c hdot
  rcases mapCase_lowerRuns_nonascii hn with hle | hk
  · refine .inr ⟨_, mem_singleton.mpr rfl, ?_⟩
    simpa [isAscii, htoNat] using hle
  · refine .inl fun x hx => ?_
    rw [mem_singleton.mp hx, hk]

/-! ## White space -/

namespace Unicode

/-- The set behind bounds, below a width. A bound turns around every bit from it on. -/
def bitsetOfBounds (width : Nat) (bounds : List Nat) : Nat :=
  bounds.foldr (fun bound set => set ^^^ ((1 <<< width - 1) >>> bound) <<< bound) 0

theorem testBit_bitsetOfBounds (bounds : List Nat) {width n : Nat} (hn : n < width) :
    (bitsetOfBounds width bounds).testBit n = inBounds bounds n := by
  induction bounds with
  | nil => exact Nat.zero_testBit n
  | cons bound rest ih =>
    have hcons : bitsetOfBounds width (bound :: rest) =
        bitsetOfBounds width rest ^^^ ((1 <<< width - 1) >>> bound) <<< bound := rfl
    have hparity := Nat.mod_two_eq_zero_or_one (rest.countP fun bound => bound ≤ n)
    rw [hcons, Nat.testBit_xor, ih, Nat.testBit_shiftLeft, Nat.testBit_shiftRight,
      Nat.one_shiftLeft, Nat.testBit_two_pow_sub_one]
    unfold inBounds
    rw [countP_cons]
    by_cases hbound : bound ≤ n
    · rcases hparity with h | h <;> simp [hbound, hn, h, Nat.add_mod]
    · simp [hbound]

set_option maxRecDepth 10000 in
theorem inBounds_whitespace {n : Nat} :
    inBounds whitespaceBounds n ↔ n ∈ whitespacePoints := by
  by_cases hn : n < 0x3001
  · have hset : bitsetOfBounds 0x3001 whitespaceBounds = bitset whitespacePoints := by decide
    rw [← testBit_bitsetOfBounds _ hn, hset, testBit_bitset]
  -- all bounds are passed, and their number is even
  have hbounds : ∀ bound ∈ whitespaceBounds, bound ≤ 0x3001 := by decide
  have hpoints : ∀ point ∈ whitespacePoints, point < 0x3001 := by decide
  have hcount : whitespaceBounds.countP (fun bound => bound ≤ n) = whitespaceBounds.length := by
    refine countP_eq_length.mpr fun bound hbound => decide_eq_true ?_
    exact (hbounds bound hbound).trans (not_lt.mp hn)
  have hout : inBounds whitespaceBounds n = false := by
    rw [inBounds, hcount]
    rfl
  rw [hout]
  exact iff_of_false Bool.false_ne_true fun hmem => hn (hpoints n hmem)

set_option maxRecDepth 60000 in
theorem whitespacePoints_alphanumeric :
    bitset whitespacePoints &&& bitsetOfBounds 0x3001 alphanumericBounds = 0 := by
  decide

end Unicode

theorem not_isWhitespace_of_isAlphanumeric (h : isAlphanumeric c) :
    isWhitespace c = false := by
  rw [Bool.eq_false_iff]
  intro hspace
  have hpoint : c.toNat ∈ whitespacePoints := inBounds_whitespace.mp hspace
  have hlt : c.toNat < 0x3001 := by
    have hall : ∀ point ∈ whitespacePoints, point < 0x3001 := by decide
    exact hall _ hpoint
  have hbit : (bitset whitespacePoints &&& bitsetOfBounds 0x3001 alphanumericBounds).testBit c.toNat =
      true := by
    rw [Nat.testBit_and, testBit_bitset.mpr hpoint, testBit_bitsetOfBounds _ hlt]
    exact h
  rw [whitespacePoints_alphanumeric, Nat.zero_testBit] at hbit
  cases hbit

/-- White space in a lowercase image was there before. -/
theorem eq_of_isWhitespace_of_mem_lowerImage (hx : x ∈ lowerImage c)
    (hspace : isWhitespace x) : x = c := by
  unfold lowerImage at hx
  split at hx
  · simp only [mem_cons, not_mem_nil, or_false] at hx
    rcases hx with rfl | rfl <;> exact absurd hspace (by decide)
  unfold lowerChar at hx
  split at hx
  · simp only [mem_cons, not_mem_nil, or_false] at hx
    rcases hx with rfl | rfl <;> exact absurd hspace (by decide)
  rename_i hdotted
  obtain rfl : x = Char.ofNat (mapCase lowerRuns c.toNat) := by simpa using hx
  rcases mapCase_cases lowerRuns c.toNat with ⟨-, heq⟩ | ⟨run, hrun, hcontains, heq⟩
  · rw [heq, Char.ofNat_toNat]
  have hvalue := (mapCase_lowerRuns c hdotted).1
  have hpoint : run.image + (c.toNat - run.lo) ∈ whitespacePoints := by
    rw [← heq, ← hvalue]
    exact inBounds_whitespace.mp hspace
  refine absurd ?_ (not_mem_of_bitset lowerRuns_images (mem_flatMap_images hrun hcontains))
  exact mem_append_left _ (mem_cons_of_mem _ hpoint)

theorem isWhitespace_of_mem_toLowercase (hx : x ∈ toLowercase s) (hspace : isWhitespace x) :
    x ∈ s := by
  obtain ⟨c, hc, himage⟩ := mem_lowerAfter hx
  rwa [eq_of_isWhitespace_of_mem_lowerImage himage hspace]

theorem asciiLowerChar_cases (c : Char) :
    asciiLowerChar c = c ∨ ('a' ≤ asciiLowerChar c ∧ asciiLowerChar c ≤ 'z') := by
  have hall : ∀ n < 128, asciiLowerChar (Char.ofNat n) = Char.ofNat n ∨
      ('a' ≤ asciiLowerChar (Char.ofNat n) ∧ asciiLowerChar (Char.ofNat n) ≤ 'z') := by
    decide
  by_cases hupper : 'A' ≤ c ∧ c ≤ 'Z'
  · have hle : c.toNat ≤ 90 := hupper.2
    simpa using hall c.toNat (by omega)
  · exact .inl (if_neg hupper)

/-- An ASCII character other than a letter is the image of itself only. -/
theorem eq_of_mem_lowerImage (hx : x ∈ lowerImage c) (hascii : isAscii x)
    (hletter : ¬ ('a' ≤ x ∧ x ≤ 'z')) : x = c := by
  rcases ascii_of_mem_lowerImage hx hascii with ⟨-, rfl⟩ | rfl | rfl
  · exact (asciiLowerChar_cases c).resolve_right hletter
  · exact absurd (by decide) hletter
  · exact absurd (by decide) hletter

/-- An ASCII character other than a letter in a lowercase image was there before. -/
theorem mem_of_mem_toLowercase (hx : x ∈ toLowercase s) (hascii : isAscii x)
    (hletter : ¬ ('a' ≤ x ∧ x ≤ 'z')) : x ∈ s := by
  obtain ⟨c, hc, himage⟩ := mem_lowerAfter hx
  rwa [eq_of_mem_lowerImage himage hascii hletter]

/-- Every character leaves something of its image behind. -/
theorem exists_mem_toLowercase (hc : c ∈ s) :
    ∃ x ∈ toLowercase s, x ∈ lowerImage c := by
  have hafter : ∀ before, ∃ x ∈ lowerAfter before s, x ∈ lowerImage c := by
    induction s with
    | nil => cases hc
    | cons head rest ih =>
      intro before
      rw [lowerAfter]
      rcases mem_cons.mp hc with rfl | hc
      · unfold lowerImage
        by_cases hsigma : c = 'Σ'
        · rw [if_pos hsigma, if_pos hsigma]
          split
          · exact ⟨'ς', by simp, by simp⟩
          · exact ⟨'σ', by simp, by simp⟩
        · rw [if_neg hsigma, if_neg hsigma]
          obtain ⟨x, hx⟩ := exists_mem_of_ne_nil _ (lowerChar_ne_nil c)
          exact ⟨x, mem_append_left _ hx, hx⟩
      · obtain ⟨x, hx, himage⟩ := ih hc (head :: before)
        exact ⟨x, mem_append_right _ hx, himage⟩
  exact hafter []

theorem toLowercase_eq_nil : toLowercase s = [] ↔ s = [] := by
  constructor
  · intro h
    by_contra hne
    obtain ⟨c, hc⟩ := exists_mem_of_ne_nil s hne
    obtain ⟨x, hx, -⟩ := exists_mem_toLowercase hc
    rw [h] at hx
    cases hx
  · rintro rfl
    rfl

/-- An ASCII character other than a capital letter stays. -/
theorem mem_toLowercase_of_mem (hx : x ∈ s) (hascii : isAscii x)
    (hlower : asciiLowerChar x = x) : x ∈ toLowercase s := by
  have hafter : ∀ before, x ∈ lowerAfter before s := by
    induction s with
    | nil => cases hx
    | cons c rest ih =>
      intro before
      rw [lowerAfter, mem_append]
      rcases mem_cons.mp hx with rfl | hx
      · left
        rw [if_neg (ne_sigma_of_isAscii hascii), lowerChar_of_isAscii hascii, hlower]
        exact mem_singleton_self x
      · exact .inr (ih hx _)
  exact hafter []

/-! ## Dots in front -/

set_option maxRecDepth 8000 in
/-- A dot is passed over in the search for a cased character. -/
theorem caseIgnorableThenCased_dot (s : Str) :
    caseIgnorableThenCased (s ++ ['.']) = caseIgnorableThenCased s := by
  have hignorable : inBounds caseIgnorableBounds '.'.toNat := by
    decide
  unfold caseIgnorableThenCased
  generalize hp : (fun c : Char => inBounds caseIgnorableBounds c.toNat) = p
  have hdot : p '.' := by
    rw [← hp]
    exact hignorable
  rw [dropWhile_append, dropWhile_cons_of_pos hdot]
  cases s.dropWhile p with
  | nil | cons c rest => rfl

theorem lowerAfter_congr {before' : Str}
    (h : ∀ s, caseIgnorableThenCased (s ++ before) = caseIgnorableThenCased (s ++ before'))
    (s : Str) :
    lowerAfter before s = lowerAfter before' s := by
  induction s generalizing before before' with
  | nil => rfl
  | cons c rest ih =>
    have hbefore : caseIgnorableThenCased before = caseIgnorableThenCased before' := h []
    have hrest : lowerAfter (c :: before) rest = lowerAfter (c :: before') rest :=
      ih fun s => by
        have hs := h (s ++ [c])
        rwa [append_assoc, append_assoc] at hs
    rw [lowerAfter, lowerAfter, hbefore, hrest]

/-- A dot in front of a text has no effect on its lower case. -/
theorem toLowercase_dot (s : Str) : toLowercase ('.' :: s) = '.' :: toLowercase s := by
  have hrest : lowerAfter ['.'] s = lowerAfter [] s :=
    lowerAfter_congr (fun s => by rw [caseIgnorableThenCased_dot, append_nil]) s
  have hdot : lowerChar '.' = ['.'] := by decide
  rw [toLowercase, lowerAfter, hrest, if_neg (by decide), hdot]
  rfl

theorem head?_toLowercase : (toLowercase s).head? = some '.' ↔ s.head? = some '.' := by
  cases s with
  | nil => exact Iff.rfl
  | cons c rest =>
    constructor
    · intro h
      -- the first character comes from the image of the first one
      have himage : '.' ∈ lowerImage c := by
        rw [toLowercase, lowerAfter] at h
        unfold lowerImage
        by_cases hsigma : c = 'Σ'
        · rw [if_pos hsigma] at h
          split at h <;> exact absurd (Option.some.inj h) (by decide)
        · rw [if_neg hsigma] at h ⊢
          rw [head?_append_of_ne_nil _ (lowerChar_ne_nil c)] at h
          exact mem_of_mem_head? h
      rw [← eq_of_mem_lowerImage himage (by decide) (by decide)]
      rfl
    · intro h
      obtain rfl : c = '.' := Option.some.inj h
      rw [toLowercase_dot]
      rfl

/-- White space stays white space. -/
theorem isWhitespace_of_mem_lowerImage (hc : isWhitespace c) (hx : x ∈ lowerImage c) :
    isWhitespace x := by
  have hpoint : c.toNat ∈ whitespacePoints := inBounds_whitespace.mp hc
  have hsigma : c ≠ 'Σ' := by
    rintro rfl
    exact absurd hpoint (by decide)
  have hdotted : c.toNat ≠ 0x130 := by
    intro hdotted
    rw [hdotted] at hpoint
    exact absurd hpoint (by decide)
  have hfixed : mapCase lowerRuns c.toNat = c.toNat := by
    refine mapCase_of_not_contains fun run hrun => ?_
    rw [Bool.eq_false_iff]
    intro hmapped
    exact not_mem_of_bitset lowerRuns_points hpoint (mem_flatMap_members hrun hmapped)
  rw [lowerImage, if_neg hsigma, lowerChar, if_neg hdotted, hfixed, Char.ofNat_toNat,
    mem_singleton] at hx
  rw [hx]
  exact hc

end Rust
