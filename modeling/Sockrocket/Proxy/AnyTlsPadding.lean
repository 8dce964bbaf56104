import Sockrocket.Proxy.Bytes

/-!
# Padding policies of AnyTLS

`proxy/anytls/padding.rs`. A policy says into which sizes the first packets of a session are cut. The
built-in one can be replaced by the server at any time, so `parse` bounds whatever it accepts. A
range of sizes carries its bounds; the sizes themselves are drawn at random.

The texts of the errors go nowhere, because both callers replace them.
-/

namespace Sockrocket

open Rust Dns

/-- Why a policy is refused, in the order of the checks. -/
inductive PaddingError where
  | tooLarge
  | notUtf8
  | invalidPolicy
  | duplicateStop
  | notANumber
  | invalidIndex
  | tooManySegments
  | invalidRange
  | invalidSize
  | budgetExceeded
  | missingStop
  | stopExceedsLimit
deriving DecidableEq, Repr

/-- The sizes `lo..=hi` of a record. -/
structure PadRange where
  lo : Nat
  hi : Nat
  pos : 0 < lo
  le : lo ≤ hi
  max : hi ≤ 16384
deriving DecidableEq, Repr

namespace PadRange

/-- `random_range(lo..=hi)`, with a random number. -/
def draw (range : PadRange) (random : Nat) : Nat :=
  range.lo + random % (range.hi - range.lo + 1)

theorem draw_le (range : PadRange) (random : Nat) : range.draw random ≤ 16384 := by
  have hmod : random % (range.hi - range.lo + 1) < range.hi - range.lo + 1 :=
    Nat.mod_lt _ (Nat.succ_pos _)
  have hle := range.le
  have hmax := range.max
  rw [draw]
  omega

end PadRange

/-- `Padding`. A segment is a range of sizes, or `none` for the mark at which a packet without more
data ends. `md5` is the digest whose text the source keeps. -/
structure Padding where
  stop : Nat
  rules : List (Nat × List (Option PadRange))
  md5 : Vector UInt8 16
deriving DecidableEq, Repr

namespace Padding

/-- `str::parse::<u32>`. -/
def parseU32 (s : Str) : Except PaddingError Nat :=
  (parseUnsigned (2 ^ 32 - 1) s).elim (.error .notANumber) .ok

/-- `str::parse::<usize>`. -/
def parseUsize (s : Str) : Except PaddingError Nat :=
  (parseUnsigned (2 ^ 64 - 1) s).elim (.error .notANumber) .ok

/-- One segment with a range. -/
def parseRange (part : Str) : Except PaddingError PadRange := do
  let some (lo, hi) := splitOnce ['-'] part | .error .invalidRange
  let lo ← parseUsize lo
  let hi ← parseUsize hi
  if h : 0 < lo ∧ lo ≤ hi ∧ hi ≤ 16384 then .ok ⟨lo, hi, h.1, h.2.1, h.2.2⟩
  else .error .invalidSize

/-- The segments of a line, with those before them and the sum of their sizes. -/
def parseSegments : List Str → List (Option PadRange) → Nat →
    Except PaddingError (List (Option PadRange))
  | [], ranges, _ => .ok ranges
  | part :: parts, ranges, budget =>
    if 16 ≤ ranges.length then .error .tooManySegments
    else if part = ['c'] then parseSegments parts (ranges ++ [none]) budget
    else do
      let range ← parseRange part
      if 65536 < budget + range.hi then .error .budgetExceeded
      else parseSegments parts (ranges ++ [some range]) (budget + range.hi)

/-- One line that is not blank. -/
def parseLine (policy : Option Nat × List (Nat × List (Option PadRange))) (line : Str) :
    Except PaddingError (Option Nat × List (Nat × List (Option PadRange))) := do
  let some (key, value) := splitOnce ['='] (trim line) | .error .invalidPolicy
  let (stop, rules) := policy
  if key = "stop".toList then
    if stop.isSome then .error .duplicateStop else .ok (some (← parseU32 value), rules)
  else
    let index ← parseU32 key
    if 128 ≤ index || (rules.lookup index).isSome then .error .invalidIndex
    else .ok (stop, rules ++ [(index, ← parseSegments (value.splitOn ',') [] 0)])

/-- The lines of a policy: the packet at which padding stops, and the rules before it. -/
def parseLines (text : Str) : Except PaddingError (Nat × List (Nat × List (Option PadRange))) := do
  let (stop, rules) ←
    ((lines text).filter fun line => !(trim line).isEmpty).foldlM parseLine (none, [])
  let some stop := stop | .error .missingStop
  if 128 < stop then .error .stopExceedsLimit else .ok (stop, rules)

/-- `DEFAULT`. -/
def defaultText : Str :=
  ("stop=8\n0=30-30\n1=100-400\n2=400-500,c,500-1000,c,500-1000,c,500-1000,c,500-1000\n" ++
    "3=9-9,500-1000\n4=500-1000\n5=500-1000\n6=500-1000\n7=500-1000").toList

section Parse

-- `Md5::digest` is a function of a third-party crate.
variable (md5 : Bytes → Vector UInt8 16)

/-- `Padding::parse`. -/
def parse (raw : Bytes) : Except PaddingError Padding :=
  if 8192 < raw.length then .error .tooLarge
  else
    match fromUtf8 raw with
    | none => .error .notUtf8
    | some text => (parseLines text).map fun policy => ⟨policy.1, policy.2, md5 raw⟩

/-- The built-in policy is accepted, so `Padding::default` does not panic. -/
theorem isSome_parse_default : (parse md5 (utf8Encode defaultText)).toOption.isSome := by
  have hutf8 : fromUtf8 (utf8Encode defaultText) = some defaultText := by decide +kernel
  have hlines : (parseLines defaultText).toOption.isSome := by decide +kernel
  rw [parse, if_neg (by decide +kernel), hutf8]
  dsimp only
  cases hparse : parseLines defaultText with
  | error e =>
    rw [hparse] at hlines
    cases hlines
  | ok policy =>
    rw [Except.map]
    rfl

/-- `Padding::default`. -/
def default : Padding :=
  (parse md5 (utf8Encode defaultText)).toOption.get (isSome_parse_default md5)

end Parse

/-- The text of the digest, `format!("{:x}", _)`. -/
def md5Text (padding : Padding) : Str :=
  padding.md5.toList.flatMap fun b => [Nat.digitChar (b.toNat / 16), Nat.digitChar (b.toNat % 16)]

theorem length_md5Text (padding : Padding) : padding.md5Text.length = 32 := by
  rw [md5Text, List.length_flatMap]
  simp

/-- `Padding::sizes`, with the random numbers for the segments. -/
def sizes (padding : Padding) (packet : Nat) (random : Nat → Nat) : List (Option Nat) :=
  if padding.stop ≤ packet then []
  else ((padding.rules.lookup packet).getD []).mapIdx fun i range => range.map (·.draw (random i))

/-- A size leaves room for its padding in a field of two bytes. -/
theorem size_le {padding : Padding} {packet size : Nat} {random : Nat → Nat}
    (h : some size ∈ padding.sizes packet random) : size ≤ 16384 := by
  rw [sizes] at h
  split at h
  · cases h
  · obtain ⟨i, hi, hsize⟩ := List.mem_mapIdx.mp h
    obtain ⟨range, -, rfl⟩ := Option.map_eq_some_iff.mp hsize
    exact range.draw_le (random i)

end Padding

end Sockrocket
