import Sockrocket.Rust.Text

/-!
# IP addresses

`std::net::{Ipv4Addr, Ipv6Addr, IpAddr}`: the textual form the standard library writes, and the
parser it runs on addresses. The parser reads from the front of the input and hands back what is
left, so each reader returns a value together with the remaining text.

Read `parseIp_display` first: every address is read back from its own text. `parseIp_toLowercase`
says the letter case of an address text is irrelevant.
-/

namespace Rust

open List

/-- `std::net::Ipv4Addr`, as the number `u32::from` gives. -/
abbrev Ipv4Addr := BitVec 32

/-- `std::net::Ipv6Addr`, as the number `u128::from` gives. -/
abbrev Ipv6Addr := BitVec 128

/-- `std::net::IpAddr`. -/
inductive IpAddr where
  | v4 (ip : Ipv4Addr)
  | v6 (ip : Ipv6Addr)
deriving DecidableEq, Repr

/-- `IpAddr::is_ipv4`. -/
def IpAddr.isIpv4 : IpAddr → Bool
  | .v4 _ => true
  | .v6 _ => false

/-- `Ipv4Addr::octets`. -/
def Ipv4Addr.octets (ip : Ipv4Addr) : List Nat :=
  [ip.toNat / 2 ^ 24, ip.toNat / 2 ^ 16 % 256, ip.toNat / 2 ^ 8 % 256, ip.toNat % 256]

/-- The address with the given octets. -/
def Ipv4Addr.ofOctets (octets : List Nat) : Ipv4Addr :=
  BitVec.ofNat 32 (octets.foldl (fun value octet => value * 256 + octet) 0)

/-- `Ipv6Addr::segments`. -/
def Ipv6Addr.segments (ip : Ipv6Addr) : List Nat :=
  (List.range 8).map fun i => ip.toNat / 65536 ^ (7 - i) % 65536

/-- The address with the given segments. -/
def Ipv6Addr.ofSegments (segments : List Nat) : Ipv6Addr :=
  BitVec.ofNat 128 (segments.foldl (fun value segment => value * 65536 + segment) 0)

/-- `Ipv6Addr::to_ipv4_mapped`: the IPv4 address inside `::ffff:0:0/96`. -/
def Ipv6Addr.toIpv4Mapped (ip : Ipv6Addr) : Option Ipv4Addr :=
  if ip.toNat / 2 ^ 32 = 0xffff then some (BitVec.ofNat 32 ip.toNat) else none

/-! ## Text -/

/-- `Display` for `Ipv4Addr`. -/
def Ipv4Addr.display (ip : Ipv4Addr) : Str :=
  ['.'].intercalate (ip.octets.map decimal)

/-- Advance the search for a run of zero segments: the run that ends here and the longest run so
far, each as its start and its length. -/
def zeroSpanStep (spans : (Nat × Nat) × (Nat × Nat)) (entry : Bool × Nat) :
    (Nat × Nat) × (Nat × Nat) :=
  let (current, longest) := spans
  let (isZero, index) := entry
  if isZero then
    let current := (if current.2 = 0 then index else current.1, current.2 + 1)
    (current, if longest.2 < current.2 then current else longest)
  else ((0, 0), longest)

/-- The first longest run of zero segments, as its start and its length. -/
def zeroSpan (zeros : List Bool) : Nat × Nat :=
  (zeros.zipIdx.foldl zeroSpanStep ((0, 0), (0, 0))).2

/-- Segments in hexadecimal, separated by colons. -/
def hexGroups (segments : List Nat) : Str :=
  [':'].intercalate (segments.map (Nat.toDigits 16))

/-- `Display` for `Ipv6Addr`. -/
def Ipv6Addr.display (ip : Ipv6Addr) : Str :=
  match ip.toIpv4Mapped with
  | some v4 => "::ffff:".toList ++ v4.display
  | none =>
    let segments := ip.segments
    let (start, length) := zeroSpan (segments.map (· == 0))
    if 1 < length then
      hexGroups (segments.take start) ++ "::".toList ++ hexGroups (segments.drop (start + length))
    else hexGroups segments

/-- `Display` for `IpAddr`. -/
def IpAddr.display : IpAddr → Str
  | .v4 ip => ip.display
  | .v6 ip => ip.display

/-! ## Parser -/

/-- Read the given character. -/
def readChar (c : Char) : Str → Option Str
  | [] => none
  | head :: rest => if head = c then some rest else none

/-- Read a number of at most `maxDigits` digits that fits below `bound`. -/
def readNumber (radix maxDigits : Nat) (allowZeroPrefix : Bool) (bound : Nat) (s : Str) :
    Option (Nat × Str) :=
  let digits := s.takeWhile (isDigit radix)
  if digits.length = 0 ∨ maxDigits < digits.length then none
  else if !allowZeroPrefix && digits.head? == some '0' && 1 < digits.length then none
  else if digitsValue radix digits < bound then
    some (digitsValue radix digits, s.dropWhile (isDigit radix))
  else none

/-- Read a dotted IPv4 address. -/
def readIpv4 (s : Str) : Option (List Nat × Str) := do
  let (a, s) ← readNumber 10 3 false 256 s
  let (b, s) ← readChar '.' s >>= readNumber 10 3 false 256
  let (c, s) ← readChar '.' s >>= readNumber 10 3 false 256
  let (d, s) ← readChar '.' s >>= readNumber 10 3 false 256
  pure ([a, b, c, d], s)

/-- The two segments an embedded IPv4 address fills. -/
def embeddedSegments (octets : List Nat) : List Nat :=
  match octets with
  | [a, b, c, d] => [a * 256 + b, c * 256 + d]
  | _ => []

/-- Read at most `limit` colon-separated groups, the last two of which may be an embedded IPv4
address. Returns the groups, whether an embedded address was read, and the remaining text. -/
def readGroups (limit : Nat) (first : Bool) (s : Str) : List Nat × Bool × Str :=
  match limit with
  | 0 => ([], false, s)
  | limit + 1 =>
    let start := if first then some s else readChar ':' s
    match if 0 < limit then start >>= readIpv4 else none with
    | some (octets, rest) => (embeddedSegments octets, true, rest)
    | none =>
      match start >>= readNumber 16 4 true 65536 with
      | some (group, rest) =>
        let (groups, embedded, rest) := readGroups limit false rest
        (group :: groups, embedded, rest)
      | none => ([], false, s)

/-- Read an IPv6 address. The `::` stands for at least one zero segment. -/
def readIpv6 (s : Str) : Option (List Nat × Str) :=
  let (head, embedded, rest) := readGroups 8 true s
  if head.length = 8 then some (head, rest)
  else if embedded then none
  else do
    let rest ← readChar ':' rest
    let rest ← readChar ':' rest
    let (tail, _, rest) := readGroups (8 - (head.length + 1)) true rest
    pure (head ++ List.replicate (8 - head.length - tail.length) 0 ++ tail, rest)

/-- `str::parse::<Ipv4Addr>`. -/
def parseIpv4 (s : Str) : Option Ipv4Addr :=
  match readIpv4 s with
  | some (octets, []) => some (Ipv4Addr.ofOctets octets)
  | _ => none

/-- `str::parse::<IpAddr>`. -/
def parseIp (s : Str) : Option IpAddr :=
  match readIpv4 s with
  | some (octets, []) => some (.v4 (Ipv4Addr.ofOctets octets))
  | some (_, _ :: _) => none
  | none =>
    match readIpv6 s with
    | some (segments, []) => some (.v6 (Ipv6Addr.ofSegments segments))
    | _ => none

/-! ## Reading back the text of an address -/

/-- The text does not go on with a digit of the radix. -/
def EndsNumber (radix : Nat) (rest : Str) : Prop :=
  ∀ c, rest.head? = some c → isDigit radix c = false

theorem endsNumber_nil (radix : Nat) : EndsNumber radix [] := by
  intro c h
  simp at h

variable {c : Char} {radix : Nat} {rest : Str}

theorem endsNumber_cons (h : isDigit radix c = false) :
    EndsNumber radix (c :: rest) := by
  intro c' hc'
  obtain rfl : c = c' := by simpa using hc'
  exact h

variable {digits : Str}

theorem takeWhile_digits (hdigits : ∀ c ∈ digits, isDigit radix c)
    (hrest : EndsNumber radix rest) :
    (digits ++ rest).takeWhile (isDigit radix) = digits := by
  rw [takeWhile_append_of_pos hdigits]
  cases rest with
  | nil => simp
  | cons c rest => simp [hrest c rfl]

theorem dropWhile_digits (hdigits : ∀ c ∈ digits, isDigit radix c)
    (hrest : EndsNumber radix rest) :
    (digits ++ rest).dropWhile (isDigit radix) = rest := by
  rw [dropWhile_append_of_pos hdigits]
  cases rest with
  | nil => simp
  | cons c rest => simp [hrest c rfl]

variable {maxDigits bound n : Nat}

variable {zeros : Bool}

/-- A number written in its radix is read back, and the rest is left. -/
theorem readNumber_toDigits (hlow : 1 < radix) (hradix : radix ≤ 16)
    (hmax : 0 < maxDigits) (hlen : n < radix ^ maxDigits) (hbound : n < bound)
    (hrest : EndsNumber radix rest) :
    readNumber radix maxDigits zeros bound (Nat.toDigits radix n ++ rest) = some (n, rest) := by
  have hdigits : ∀ c ∈ Nat.toDigits radix n, isDigit radix c :=
    fun c hc => isDigit_of_mem_toDigits hlow hradix hc
  have hlength : (Nat.toDigits radix n).length ≤ maxDigits :=
    (Nat.length_toDigits_le_iff hlow hmax).mpr hlen
  have hpos : 0 < (Nat.toDigits radix n).length := Nat.length_toDigits_pos
  have hleading : ¬ ((!zeros && (Nat.toDigits radix n).head? == some '0' &&
      decide (1 < (Nat.toDigits radix n).length))) := by
    intro h
    simp only [Bool.and_eq_true, beq_iff_eq, decide_eq_true_eq] at h
    have hzero := eq_zero_of_head_toDigits hlow hradix h.1.2
    simp [hzero, Nat.toDigits_of_lt_base (show 0 < radix by omega)] at h
  unfold readNumber
  simp only [takeWhile_digits hdigits hrest, dropWhile_digits hdigits hrest,
    digitsValue_toDigits hlow hradix]
  rw [if_neg (by omega), if_neg hleading, if_pos hbound]

variable {s : Str}

/-- A number reader consumes exactly the leading digits. -/
theorem readNumber_eq_some
    (h : readNumber radix maxDigits zeros bound s = some (n, rest)) :
    n = digitsValue radix (s.takeWhile (isDigit radix)) ∧ rest = s.dropWhile (isDigit radix) := by
  unfold readNumber at h
  simp only [Option.ite_none_left_eq_some, Option.ite_none_right_eq_some, Option.some.injEq,
    Prod.mk.injEq] at h
  obtain ⟨-, -, -, rfl, rfl⟩ := h
  exact ⟨rfl, rfl⟩

theorem readChar_eq_none (h : s.head? ≠ some c) : readChar c s = none := by
  cases s with
  | nil => rfl
  | cons head rest => exact if_neg (by simpa using h)

/-- Without a dot after the leading digits there is no IPv4 address. -/
theorem readIpv4_eq_none (h : (s.dropWhile (isDigit 10)).head? ≠ some '.') :
    readIpv4 s = none := by
  unfold readIpv4
  cases hfirst : readNumber 10 3 false 256 s with
  | none => rfl
  | some first =>
    obtain ⟨n, rest⟩ := first
    obtain ⟨-, rfl⟩ := readNumber_eq_some hfirst
    simp [readChar_eq_none h]

theorem readNumber_eq_none (h : EndsNumber radix s) :
    readNumber radix maxDigits zeros bound s = none := by
  have hnil : s.takeWhile (isDigit radix) = [] := by
    cases s with
    | nil => rfl
    | cons c rest => simp [h c rfl]
  simp [readNumber, hnil]

theorem octet_lt {ip : Ipv4Addr} : ∀ octet ∈ ip.octets, octet < 256 := by
  have hlt := ip.isLt
  simp only [Ipv4Addr.octets, mem_cons, not_mem_nil, or_false]
  rintro octet (rfl | rfl | rfl | rfl) <;> omega

theorem ofOctets_octets (ip : Ipv4Addr) : Ipv4Addr.ofOctets ip.octets = ip := by
  have hlt := ip.isLt
  apply BitVec.eq_of_toNat_eq
  simp only [Ipv4Addr.ofOctets, Ipv4Addr.octets, foldl_cons, foldl_nil, BitVec.toNat_ofNat]
  omega

theorem readIpv4_octets {a b c d : Nat} (ha : a < 256) (hb : b < 256) (hc : c < 256) (hd : d < 256)
    (hrest : EndsNumber 10 rest) :
    readIpv4 (['.'].intercalate ([a, b, c, d].map decimal) ++ rest) = some ([a, b, c, d], rest) := by
  have hread : ∀ (octet : Nat) (tail : Str), octet < 256 → EndsNumber 10 tail →
      readNumber 10 3 false 256 (Nat.toDigits 10 octet ++ tail) = some (octet, tail) :=
    fun octet tail hoctet htail =>
      readNumber_toDigits (by decide) (by decide) (by decide) (by omega) hoctet htail
  have hdot : ∀ tail, EndsNumber 10 ('.' :: tail) := fun tail => endsNumber_cons (by decide)
  simp [readIpv4, intercalate, decimal, readChar, hread _ _ ha (hdot _),
    hread _ _ hb (hdot _), hread _ _ hc (hdot _), hread _ _ hd hrest]

/-- An IPv4 address is read back from its text. -/
theorem readIpv4_display (ip : Ipv4Addr) (hrest : EndsNumber 10 rest) :
    readIpv4 (ip.display ++ rest) = some (ip.octets, rest) := by
  have hlt := @octet_lt ip
  simp only [Ipv4Addr.octets, forall_mem_cons] at hlt
  obtain ⟨ha, hb, hc, hd, -⟩ := hlt
  exact readIpv4_octets ha hb hc hd hrest

theorem parseIpv4_display (ip : Ipv4Addr) : parseIpv4 ip.display = some ip := by
  have h := readIpv4_display ip (endsNumber_nil 10)
  rw [append_nil] at h
  simp [parseIpv4, h, ofOctets_octets]

/-- The groups after the first one, each behind its colon. -/
def colonGroups (segments : List Nat) : Str :=
  segments.flatMap fun segment => ':' :: Nat.toDigits 16 segment

theorem hexGroups_cons (segment : Nat) (segments : List Nat) :
    hexGroups (segment :: segments) = Nat.toDigits 16 segment ++ colonGroups segments := by
  unfold hexGroups colonGroups
  induction segments generalizing segment with
  | nil => simp
  | cons next rest ih =>
    rw [map_cons, map_cons, intercalate_cons_cons, ← map_cons, ih next]
    simp

/-- A text on which no further group is read: the end of the input, or a double colon. -/
def StopsGroups (rest : Str) : Prop :=
  rest = [] ∨ ∃ tail, rest = ':' :: ':' :: tail

theorem StopsGroups.endsNumber (h : StopsGroups rest) : EndsNumber 16 rest := by
  rcases h with rfl | ⟨tail, rfl⟩
  · exact endsNumber_nil 16
  · exact endsNumber_cons (by decide)

theorem readIpv4_colon (tail : Str) : readIpv4 (':' :: tail) = none :=
  readIpv4_eq_none (by simp [show isDigit 10 ':' = false by decide])

variable {segment : Nat}

/-- After a group comes a colon or the end, never the dot of an IPv4 address. -/
theorem readIpv4_hex (h : rest = [] ∨ ∃ tail, rest = ':' :: tail) :
    readIpv4 (Nat.toDigits 16 segment ++ rest) = none := by
  refine readIpv4_eq_none fun hdot => ?_
  have hrest : (rest.dropWhile (isDigit 10)).head? ≠ some '.' := by
    rcases h with rfl | ⟨tail, rfl⟩
    · simp
    · simp [show isDigit 10 ':' = false by decide]
  rw [dropWhile_append] at hdot
  split at hdot
  · exact hrest hdot
  rename_i hne
  rw [head?_append_of_ne_nil _ (by simpa using hne)] at hdot
  have hmem := (dropWhile_sublist _).mem (mem_of_head? hdot)
  have hdigit := isDigit_of_mem_toDigits (by decide) (by decide) hmem
  exact absurd hdigit (by decide)

variable {limit : Nat}

theorem readGroups_stop (h : StopsGroups rest) :
    readGroups limit false rest = ([], false, rest) := by
  cases limit with
  | zero => rfl
  | succ limit =>
    rcases h with rfl | ⟨tail, rfl⟩
    · simp [readGroups, readChar]
    · have hnumber : readNumber 16 4 true 65536 (':' :: tail) = none :=
        readNumber_eq_none (endsNumber_cons (by decide))
      simp [readGroups, readChar, readIpv4_colon, hnumber]

theorem colonGroups_cons (segment : Nat) (segments : List Nat) (rest : Str) :
    colonGroups (segment :: segments) ++ rest =
      ':' :: (Nat.toDigits 16 segment ++ (colonGroups segments ++ rest)) := by
  simp [colonGroups]

variable {segments : List Nat}

/-- What follows a group in the text of an address. -/
theorem colonGroups_append_cases (h : StopsGroups rest) :
    colonGroups segments ++ rest = [] ∨ ∃ tail, colonGroups segments ++ rest = ':' :: tail := by
  cases segments with
  | nil =>
    rcases h with rfl | ⟨tail, rfl⟩
    · exact .inl rfl
    · exact .inr ⟨':' :: tail, rfl⟩
  | cons segment segments => exact .inr ⟨_, colonGroups_cons segment segments rest⟩

variable {last : Str} {groups : List Nat}

/-- One group in front of a text that a group reader handles in the given way. -/
theorem readGroups_hex (hsegment : segment < 65536)
    (hrest : rest = [] ∨ ∃ tail, rest = ':' :: tail)
    (hread : readGroups limit false rest = (groups, false, last)) :
    readGroups (limit + 1) true (Nat.toDigits 16 segment ++ rest) = (segment :: groups, false, last) := by
  have hends : EndsNumber 16 rest := by
    rcases hrest with rfl | ⟨tail, rfl⟩
    · exact endsNumber_nil 16
    · exact endsNumber_cons (by decide)
  have hnumber : readNumber 16 4 true 65536 (Nat.toDigits 16 segment ++ rest) = some (segment, rest) :=
    readNumber_toDigits (by decide) (by decide) (by decide) (by omega) hsegment hends
  simp [readGroups, readIpv4_hex hrest, hnumber, hread]

variable {embedded : Bool}

/-- Reading a further group is reading its colon and then a first group. -/
theorem readGroups_colon (hgroups : groups ≠ [])
    (h : readGroups limit true s = (groups, embedded, last)) :
    readGroups limit false (':' :: s) = (groups, embedded, last) := by
  cases limit with
  | zero => simp_all [readGroups]
  | succ limit =>
    simp only [readGroups, if_true, Bool.false_eq_true, if_false, readChar] at h ⊢
    revert h
    split
    · exact id
    split
    · exact id
    · rintro h
      simp_all

/-- The groups behind their colons are read back. -/
theorem readGroups_colonGroups (hsegments : ∀ segment ∈ segments, segment < 65536)
    (hlimit : segments.length ≤ limit) (hrest : StopsGroups rest) :
    readGroups limit false (colonGroups segments ++ rest) = (segments, false, rest) := by
  induction segments generalizing limit with
  | nil => exact readGroups_stop hrest
  | cons segment segments ih =>
    cases limit with
    | zero => simp at hlimit
    | succ limit =>
      rw [colonGroups_cons]
      refine readGroups_colon (cons_ne_nil _ _) ?_
      exact readGroups_hex (hsegments segment (by simp)) (colonGroups_append_cases hrest)
        (ih (fun s hs => hsegments s (by simp [hs])) (by simpa using hlimit))

/-- Colon-separated groups are read back, up to a text that stops the reader. -/
theorem readGroups_hexGroups (limit : Nat) (segments : List Nat) (rest : Str)
    (hsegments : ∀ segment ∈ segments, segment < 65536) (hlimit : segments.length ≤ limit)
    (hrest : StopsGroups rest) :
    readGroups limit true (hexGroups segments ++ rest) = (segments, false, rest) := by
  cases segments with
  | nil =>
    have hnumber : readNumber 16 4 true 65536 rest = none := readNumber_eq_none hrest.endsNumber
    have hipv4 : readIpv4 rest = none := by
      rcases hrest with rfl | ⟨tail, rfl⟩
      · rfl
      · exact readIpv4_colon _
    cases limit <;> simp [hexGroups, readGroups, hnumber, hipv4]
  | cons segment segments =>
    cases limit with
    | zero => simp at hlimit
    | succ limit =>
      rw [hexGroups_cons, append_assoc]
      exact readGroups_hex (hsegments segment (by simp)) (colonGroups_append_cases hrest)
        (readGroups_colonGroups (fun s hs => hsegments s (by simp [hs]))
          (by simpa using hlimit) hrest)

theorem segments_eq (ip : Ipv6Addr) :
    ip.segments = [ip.toNat / 65536 ^ 7 % 65536, ip.toNat / 65536 ^ 6 % 65536,
      ip.toNat / 65536 ^ 5 % 65536, ip.toNat / 65536 ^ 4 % 65536, ip.toNat / 65536 ^ 3 % 65536,
      ip.toNat / 65536 ^ 2 % 65536, ip.toNat / 65536 % 65536, ip.toNat % 65536] := by
  simp [Ipv6Addr.segments, range_succ]

theorem segments_length (ip : Ipv6Addr) : ip.segments.length = 8 := by
  simp [Ipv6Addr.segments]

variable {ip : Ipv6Addr}

theorem segment_lt : ∀ segment ∈ ip.segments, segment < 65536 := by
  intro segment hsegment
  simp only [Ipv6Addr.segments, mem_map] at hsegment
  obtain ⟨i, -, rfl⟩ := hsegment
  exact Nat.mod_lt _ (by decide)

/-- One more segment from the front of a number. -/
theorem div_pow_succ_mul_add (n k : Nat) :
    n / 65536 ^ (k + 1) * 65536 + n / 65536 ^ k % 65536 = n / 65536 ^ k := by
  rw [Nat.pow_succ, ← Nat.div_div_eq_div_mul]
  exact Nat.div_add_mod' _ _

theorem ofSegments_segments (ip : Ipv6Addr) : Ipv6Addr.ofSegments ip.segments = ip := by
  have hlt := ip.isLt
  have htop : ip.toNat / 65536 ^ 7 % 65536 = ip.toNat / 65536 ^ 7 :=
    Nat.mod_eq_of_lt (Nat.div_lt_of_lt_mul (by simpa using hlt))
  have hstep := div_pow_succ_mul_add ip.toNat
  apply BitVec.eq_of_toNat_eq
  rw [Ipv6Addr.ofSegments, segments_eq, BitVec.toNat_ofNat]
  simp only [foldl_cons, foldl_nil, Nat.zero_mul, zero_add]
  have h0 := hstep 0
  have h1 := hstep 1
  simp only [zero_add, Nat.pow_zero, Nat.div_one, Nat.pow_one] at h0 h1
  rw [htop, hstep 6, hstep 5, hstep 4, hstep 3, hstep 2, h1, h0]
  exact Nat.mod_eq_of_lt hlt

/-- The run of zeros that the text leaves out lies inside the address and holds only zeros. -/
theorem zeroSpan_spec (zeros : List Bool) (h : zeros.length = 8) :
    (zeroSpan zeros).1 + (zeroSpan zeros).2 ≤ 8 ∧
      ((zeros.drop (zeroSpan zeros).1).take (zeroSpan zeros).2).all id := by
  have hall : ∀ z0 z1 z2 z3 z4 z5 z6 z7 : Bool,
      let zeros := [z0, z1, z2, z3, z4, z5, z6, z7]
      (zeroSpan zeros).1 + (zeroSpan zeros).2 ≤ 8 ∧
        ((zeros.drop (zeroSpan zeros).1).take (zeroSpan zeros).2).all id := by
    decide
  match zeros, h with
  | [z0, z1, z2, z3, z4, z5, z6, z7], _ => exact hall z0 z1 z2 z3 z4 z5 z6 z7

variable {start length : Nat}

/-- Putting the left-out zeros back restores the segments. -/
theorem segments_eq_of_zeroSpan (h : segments.length = 8)
    (hspan : zeroSpan (segments.map (· == 0)) = (start, length)) :
    start + length ≤ 8 ∧ segments =
      segments.take start ++ replicate length 0 ++ segments.drop (start + length) := by
  obtain ⟨hle, hzeros⟩ := zeroSpan_spec (segments.map (· == 0)) (by simpa using h)
  rw [hspan] at hle hzeros
  refine ⟨hle, ?_⟩
  have hmiddle : (segments.drop start).take length = replicate length 0 := by
    refine eq_replicate_iff.mpr ⟨?_, fun segment hsegment => ?_⟩
    · simp only [length_take, length_drop]
      omega
    · rw [← map_drop, ← map_take, all_map, all_eq_true] at hzeros
      simpa using hzeros segment hsegment
  rw [← hmiddle, ← drop_drop, append_assoc, take_append_drop, take_append_drop]

theorem dropWhile_head_ne {p : Char → Bool} (h : c ∉ s) :
    (s.dropWhile p).head? ≠ some c :=
  fun hhead => h ((dropWhile_sublist p).mem (mem_of_head? hhead))

theorem not_mem_hexGroups : '.' ∉ hexGroups segments := by
  intro hmem
  cases segments with
  | nil => simp [hexGroups] at hmem
  | cons segment segments =>
    have hdigits : ∀ n, '.' ∉ Nat.toDigits 16 n := fun n hn =>
      absurd (isDigit_of_mem_toDigits (by decide) (by decide) hn) (by decide)
    simp [hexGroups_cons, colonGroups, hdigits] at hmem

/-- The groups around a double colon, with the zeros it stands for. -/
theorem readIpv6_double_colon {head tail : List Nat}
    (hhead : readGroups 8 true s = (head, false, ':' :: ':' :: rest)) (hlength : head.length ≠ 8)
    (htail : readGroups (8 - (head.length + 1)) true rest = (tail, embedded, [])) :
    readIpv6 s = some (head ++ replicate (8 - head.length - tail.length) 0 ++ tail, []) := by
  unfold readIpv6
  rw [hhead]
  simp only [if_neg hlength, Bool.false_eq_true, if_false, readChar, if_true, Option.bind_eq_bind,
    Option.bind_some]
  rw [htail]
  rfl

/-- The two halves around a double colon are read back with the zeros between them. -/
theorem readIpv6_halves (h : segments.length = 8)
    (hlt : ∀ segment ∈ segments, segment < 65536) (hlength : 1 < length) (hle : start + length ≤ 8)
    (heq : segments =
      segments.take start ++ replicate length 0 ++ segments.drop (start + length)) :
    readIpv6 (hexGroups (segments.take start) ++ "::".toList ++
      hexGroups (segments.drop (start + length))) = some (segments, []) := by
  have hstart : (segments.take start).length = start := by
    simp only [length_take]
    omega
  have htailLength : (segments.drop (start + length)).length = 8 - (start + length) := by
    rw [length_drop, h]
  have hhead := readGroups_hexGroups 8 (segments.take start)
    ("::".toList ++ hexGroups (segments.drop (start + length)))
    (fun s hs => hlt s (mem_of_mem_take hs)) (by omega) (.inr ⟨_, rfl⟩)
  have htail := readGroups_hexGroups (8 - ((segments.take start).length + 1))
    (segments.drop (start + length)) []
    (fun s hs => hlt s (mem_of_mem_drop hs)) (by omega) (.inl rfl)
  rw [append_nil] at htail
  rw [append_assoc, readIpv6_double_colon hhead (by omega) htail, hstart, htailLength,
    show 8 - start - (8 - (start + length)) = length by omega, ← heq]

/-- A mapped address is read back from its mixed text. -/
theorem readIpv6_mapped (v4 : Ipv4Addr) :
    readIpv6 ("::ffff:".toList ++ v4.display) =
      some ([0, 0, 0, 0, 0, 0xffff] ++ embeddedSegments v4.octets, []) := by
  have hipv4 := readIpv4_display v4 (endsNumber_nil 10)
  rw [append_nil] at hipv4
  have hembedded : readGroups 6 false (':' :: v4.display) =
      (embeddedSegments v4.octets, true, []) := by
    simp [readGroups, readChar, hipv4]
  have hnumber : readNumber 16 4 true 65536 (Nat.toDigits 16 0xffff ++ ':' :: v4.display) =
      some (0xffff, ':' :: v4.display) :=
    readNumber_toDigits (by decide) (by decide) (by decide) (by decide) (by decide)
      (endsNumber_cons (by decide))
  have hnone : readIpv4 (Nat.toDigits 16 0xffff ++ ':' :: v4.display) = none :=
    readIpv4_hex (.inr ⟨v4.display, rfl⟩)
  have htail : readGroups 7 true ("ffff:".toList ++ v4.display) =
      (0xffff :: embeddedSegments v4.octets, true, []) := by
    show readGroups 7 true (Nat.toDigits 16 0xffff ++ ':' :: v4.display) = _
    rw [readGroups]
    simp [hnone, hnumber, hembedded]
  have hhead : readGroups 8 true ("::ffff:".toList ++ v4.display) =
      ([], false, "::ffff:".toList ++ v4.display) :=
    readGroups_hexGroups 8 [] _ (by simp) (by simp) (.inr ⟨_, rfl⟩)
  rw [readIpv6_double_colon hhead (by simp) htail]
  rfl

/-- The segments of a mapped address. -/
theorem segments_of_mapped {v4 : Ipv4Addr} (h : ip.toIpv4Mapped = some v4) :
    ip.segments = [0, 0, 0, 0, 0, 0xffff] ++ embeddedSegments v4.octets := by
  simp only [Ipv6Addr.toIpv4Mapped, Option.ite_none_right_eq_some, Option.some.injEq] at h
  obtain ⟨hhigh, rfl⟩ := h
  rw [segments_eq]
  simp only [Ipv4Addr.octets, embeddedSegments, BitVec.toNat_ofNat, cons_append,
    nil_append, cons.injEq, and_true]
  norm_num only at hhigh ⊢
  refine ⟨?_, ?_, ?_, ?_, ?_, ?_, ?_, ?_⟩ <;> omega

theorem readIpv6_display (ip : Ipv6Addr) : readIpv6 ip.display = some (ip.segments, []) := by
  unfold Ipv6Addr.display
  cases hmapped : ip.toIpv4Mapped with
  | none =>
    rcases hspan : zeroSpan (ip.segments.map (· == 0)) with ⟨start, length⟩
    obtain ⟨hle, heq⟩ := segments_eq_of_zeroSpan (segments_length ip) hspan
    simp only [hspan]
    split
    · rename_i hlength
      exact readIpv6_halves (segments_length ip) segment_lt hlength hle heq
    have hread := readGroups_hexGroups 8 ip.segments [] segment_lt
      (by rw [segments_length ip]) (.inl rfl)
    rw [append_nil] at hread
    simp [readIpv6, hread, segments_length]
  | some v4 =>
    rw [segments_of_mapped hmapped]
    exact readIpv6_mapped v4

/-- The text of an IPv6 address is not the text of an IPv4 address. -/
theorem readIpv4_displayV6 (ip : Ipv6Addr) : readIpv4 ip.display = none := by
  unfold Ipv6Addr.display
  split
  · exact readIpv4_colon _
  · refine readIpv4_eq_none (dropWhile_head_ne ?_)
    simp only
    split <;> simp [not_mem_hexGroups]

/-- Every address is read back from its own text. -/
theorem parseIp_display (ip : IpAddr) : parseIp ip.display = some ip := by
  cases ip with
  | v4 ip =>
    have h := readIpv4_display ip (endsNumber_nil 10)
    rw [append_nil] at h
    simp [parseIp, IpAddr.display, h, ofOctets_octets]
  | v6 ip =>
    simp [parseIp, IpAddr.display, readIpv4_displayV6, readIpv6_display, ofSegments_segments]

/-! ## The characters of an address -/

/-- A character that can occur in the text of an address. -/
def isIpChar (c : Char) : Bool :=
  isDigit 16 c || c == '.' || c == ':'

/-- A reader that leaves `rest` of `s` has passed over characters of addresses only. -/
def Reads (s rest : Str) : Prop :=
  ∀ c ∈ s, isIpChar c = true ∨ c ∈ rest

theorem Reads.refl (s : Str) : Reads s s :=
  fun _ hc => .inr hc

theorem Reads.trans {t u : Str} (hst : Reads s t) (htu : Reads t u) : Reads s u := by
  intro c hc
  rcases hst c hc with h | h
  · exact .inl h
  · exact htu c h

theorem isDigit_mono {radix' : Nat} (hle : radix ≤ radix') (h : isDigit radix c) :
    isDigit radix' c := by
  simp only [isDigit, toDigit, Option.isSome_iff_exists, Option.filter_eq_some_iff,
    decide_eq_true_eq] at h ⊢
  obtain ⟨d, hd, hlt⟩ := h
  exact ⟨d, hd, by omega⟩

theorem readChar_reads (hc : isIpChar c) (h : readChar c s = some rest) : Reads s rest := by
  cases s with
  | nil => simp [readChar] at h
  | cons head tail =>
    simp only [readChar, Option.ite_none_right_eq_some, Option.some.injEq] at h
    obtain ⟨rfl, rfl⟩ := h
    intro x hx
    rcases mem_cons.mp hx with rfl | hx
    · exact .inl hc
    · exact .inr hx

theorem readNumber_reads (hradix : radix ≤ 16)
    (h : readNumber radix maxDigits zeros bound s = some (n, rest)) :
    Reads s rest := by
  obtain ⟨-, rfl⟩ := readNumber_eq_some h
  intro c hc
  rw [← takeWhile_append_dropWhile (p := isDigit radix) (l := s), mem_append] at hc
  refine hc.imp (fun hdigit => ?_) id
  simp [isIpChar, isDigit_mono hradix (mem_takeWhile_imp hdigit)]

theorem readIpv4_reads {octets : List Nat} (h : readIpv4 s = some (octets, rest)) :
    Reads s rest := by
  simp only [readIpv4, Option.bind_eq_bind, Option.bind_eq_some_iff, Option.pure_def,
    Option.some.injEq, Prod.mk.injEq, Prod.exists] at h
  obtain ⟨a, sa, ha, b, sb, ⟨ta, hta, hb⟩, c, sc, ⟨tb, htb, hc⟩, d, sd, ⟨tc, htc, hd⟩, -, rfl⟩ := h
  have hten : (10 : Nat) ≤ 16 := by decide
  have hdot : isIpChar '.' := by decide
  exact (readNumber_reads hten ha).trans <| (readChar_reads hdot hta).trans <|
    (readNumber_reads hten hb).trans <| (readChar_reads hdot htb).trans <|
    (readNumber_reads hten hc).trans <| (readChar_reads hdot htc).trans (readNumber_reads hten hd)

theorem readGroups_reads (limit : Nat) (first : Bool) (s : Str) :
    Reads s (readGroups limit first s).2.2 := by
  induction limit generalizing first s with
  | zero => exact Reads.refl s
  | succ limit ih =>
    have hstart : ∀ t, (if first then some s else readChar ':' s) = some t → Reads s t := by
      intro t ht
      cases first with
      | true =>
        obtain rfl : s = t := by simpa using ht
        exact Reads.refl s
      | false => exact readChar_reads (show isIpChar ':' = true by decide) (by simpa using ht)
    rw [readGroups]
    split
    · rename_i octets rest hipv4
      simp only [Option.ite_none_right_eq_some, Option.bind_eq_bind,
        Option.bind_eq_some_iff] at hipv4
      obtain ⟨-, t, ht, hread⟩ := hipv4
      exact (hstart t ht).trans (readIpv4_reads hread)
    · split
      · rename_i group rest hnumber
        obtain ⟨t, ht, hread⟩ := Option.bind_eq_some_iff.mp hnumber
        exact (hstart t ht).trans ((readNumber_reads (by decide) hread).trans (ih false rest))
      · exact Reads.refl s

theorem readIpv6_reads (h : readIpv6 s = some (segments, rest)) : Reads s rest := by
  have hhead := readGroups_reads 8 true s
  unfold readIpv6 at h
  rcases hgroups : readGroups 8 true s with ⟨head, embedded, t⟩
  rw [hgroups] at h hhead
  simp only [Option.bind_eq_bind, Option.pure_def] at h
  split at h
  · obtain ⟨-, rfl⟩ : head = segments ∧ t = rest := by simpa using h
    exact hhead
  simp only [Option.ite_none_left_eq_some, Option.bind_eq_some_iff, Option.some.injEq,
    Prod.mk.injEq] at h
  obtain ⟨-, t1, h1, t2, h2, -, rfl⟩ := h
  have hcolon : isIpChar ':' := by decide
  exact hhead.trans <| (readChar_reads hcolon h1).trans <| (readChar_reads hcolon h2).trans
    (readGroups_reads _ true t2)

/-- An address text has no other characters than hexadecimal digits, dots and colons. -/
theorem isIpChar_of_parseIp {ip : IpAddr} (h : parseIp s = some ip) :
    ∀ c ∈ s, isIpChar c := by
  have hreads : Reads s [] := by
    unfold parseIp at h
    split at h
    · rename_i octets hread
      exact readIpv4_reads hread
    · simp at h
    split at h
    · rename_i segments hread
      exact readIpv6_reads hread
    · simp at h
  intro c hc
  simpa using hreads c hc

theorem isIpChar_of_mem_display {ip : IpAddr} : ∀ c ∈ ip.display, isIpChar c :=
  isIpChar_of_parseIp (parseIp_display ip)

/-! ## Letter case -/

theorem digitValue_asciiLowerChar (c : Char) : digitValue (asciiLowerChar c) = digitValue c := by
  by_cases h : 'A' ≤ c ∧ c ≤ 'Z'
  · have hall : ∀ n < 128, digitValue (asciiLowerChar (Char.ofNat n)) = digitValue (Char.ofNat n) := by
      decide
    have hlt : c.toNat < 128 := by
      have hle : c.toNat ≤ 90 := h.2
      omega
    simpa using hall c.toNat hlt
  · rw [asciiLowerChar, if_neg h]

variable {x : Char}

/-- Lowercasing neither makes nor removes a character that is not a letter. -/
theorem asciiLowerChar_eq_iff (hx : ¬ ('a' ≤ x ∧ x ≤ 'z')) (hx' : ¬ ('A' ≤ x ∧ x ≤ 'Z'))
    : asciiLowerChar c = x ↔ c = x := by
  unfold asciiLowerChar
  split
  · rename_i h
    have hlow : 65 ≤ c.toNat := h.1
    have hhigh : c.toNat ≤ 90 := h.2
    have hvalid : (Char.ofNat (c.toNat + 32)).toNat = c.toNat + 32 :=
      Unicode.toNat_ofNat_of_isValid (by omega)
    constructor
    · rintro rfl
      refine absurd ⟨?_, ?_⟩ hx
      · show 97 ≤ (Char.ofNat (c.toNat + 32)).toNat
        omega
      · show (Char.ofNat (c.toNat + 32)).toNat ≤ 122
        omega
    · rintro rfl
      exact absurd h hx'
  · exact Iff.rfl

theorem isDigit_asciiLowerChar (radix : Nat) (c : Char) :
    isDigit radix (asciiLowerChar c) = isDigit radix c := by
  simp [isDigit, toDigit, digitValue_asciiLowerChar]

/-- The result of a reader on a text in lower case, from its result on the text. -/
def lowerRest {α : Type} (result : α × Str) : α × Str :=
  (result.1, toAsciiLowercase result.2)

theorem readChar_lower (hx : ¬ ('a' ≤ x ∧ x ≤ 'z')) (hx' : ¬ ('A' ≤ x ∧ x ≤ 'Z'))
    (s : Str) : readChar x (toAsciiLowercase s) = (readChar x s).map toAsciiLowercase := by
  cases s with
  | nil => rfl
  | cons c rest =>
    show (if asciiLowerChar c = x then _ else _) = _
    simp only [asciiLowerChar_eq_iff hx hx', readChar]
    split <;> rfl

theorem readNumber_lower (radix maxDigits : Nat) (zeros : Bool) (bound : Nat) (s : Str) :
    readNumber radix maxDigits zeros bound (toAsciiLowercase s) =
      (readNumber radix maxDigits zeros bound s).map lowerRest := by
  have hcomp : isDigit radix ∘ asciiLowerChar = isDigit radix :=
    funext fun c => isDigit_asciiLowerChar radix c
  have hvalue : ∀ digits, digitsValue radix (digits.map asciiLowerChar) =
      digitsValue radix digits := by
    intro digits
    simp [digitsValue, foldl_map, toDigit, digitValue_asciiLowerChar]
  have hzero : ∀ digits : Str, ((digits.map asciiLowerChar).head? == some '0') =
      (digits.head? == some '0') := by
    intro digits
    cases digits with
    | nil => rfl
    | cons c rest => simp [asciiLowerChar_eq_iff (x := '0') (by decide) (by decide)]
  unfold readNumber toAsciiLowercase
  simp only [takeWhile_map, dropWhile_map, hcomp, length_map, hvalue, hzero]
  split
  · rfl
  · split
    · rfl
    · split <;> rfl

/-- Reading one thing after another commutes with lowercasing when each reading does. -/
theorem bind_lower {α β : Type} {x x' : Option (α × Str)} {k : α × Str → Option (β × Str)}
    (hx : x' = x.map lowerRest) (hk : ∀ r, k (lowerRest r) = (k r).map lowerRest) :
    x'.bind k = (x.bind k).map lowerRest := by
  subst hx
  cases x with
  | none => rfl
  | some r => exact hk r

theorem readIpv4_lower (s : Str) :
    readIpv4 (toAsciiLowercase s) = (readIpv4 s).map lowerRest := by
  have hnext : ∀ t, (readChar '.' (toAsciiLowercase t)).bind (readNumber 10 3 false 256) =
      ((readChar '.' t).bind (readNumber 10 3 false 256)).map lowerRest := by
    intro t
    rw [readChar_lower (by decide) (by decide)]
    cases readChar '.' t with
    | none => rfl
    | some u => exact readNumber_lower 10 3 false 256 u
  refine bind_lower (readNumber_lower 10 3 false 256 s) fun ⟨a, t⟩ => ?_
  refine bind_lower (hnext t) fun ⟨b, t⟩ => ?_
  refine bind_lower (hnext t) fun ⟨c, t⟩ => ?_
  exact bind_lower (hnext t) fun ⟨d, t⟩ => rfl

theorem readGroups_lower (limit : Nat) (first : Bool) (s : Str) :
    readGroups limit first (toAsciiLowercase s) =
      ((readGroups limit first s).1, (readGroups limit first s).2.1,
        toAsciiLowercase (readGroups limit first s).2.2) := by
  induction limit generalizing first s with
  | zero => rfl
  | succ limit ih =>
    have hstart : (if first then some (toAsciiLowercase s) else readChar ':' (toAsciiLowercase s)) =
        (if first then some s else readChar ':' s).map toAsciiLowercase := by
      cases first with
      | true => rfl
      | false => exact readChar_lower (by decide) (by decide) s
    simp only [readGroups, hstart, Option.bind_eq_bind]
    cases (if first then some s else readChar ':' s) with
    | none => simp
    | some t =>
      simp only [Option.map_some, Option.bind_some, readIpv4_lower, readNumber_lower]
      have hmap : (if 0 < limit then (readIpv4 t).map lowerRest else none) =
          (if 0 < limit then readIpv4 t else none).map lowerRest := by
        split <;> rfl
      rw [hmap]
      cases (if 0 < limit then readIpv4 t else none) with
      | some result => rfl
      | none =>
        cases readNumber 16 4 true 65536 t with
        | none => rfl
        | some result => simp [lowerRest, ih false result.2]

theorem readIpv6_lower (s : Str) :
    readIpv6 (toAsciiLowercase s) = (readIpv6 s).map lowerRest := by
  have hcolon : ∀ t, readChar ':' (toAsciiLowercase t) = (readChar ':' t).map toAsciiLowercase :=
    readChar_lower (by decide) (by decide)
  unfold readIpv6
  rw [readGroups_lower]
  rcases readGroups 8 true s with ⟨head, embedded, t⟩
  simp only [Option.bind_eq_bind, hcolon]
  split
  · rfl
  split
  · rfl
  cases readChar ':' t with
  | none => rfl
  | some t =>
    simp only [Option.map_some, Option.bind_some, hcolon]
    cases readChar ':' t with
    | none => rfl
    | some t =>
      simp only [Option.map_some, Option.bind_some, readGroups_lower]
      rfl

theorem parseIp_toAsciiLowercase (s : Str) : parseIp (toAsciiLowercase s) = parseIp s := by
  unfold parseIp
  rw [readIpv4_lower, readIpv6_lower]
  rcases readIpv4 s with _ | ⟨octets, _ | ⟨c, rest⟩⟩
  · rcases readIpv6 s with _ | ⟨segments, _ | ⟨c, rest⟩⟩ <;> rfl
  · rfl
  · rfl

theorem isAscii_of_isIpChar (h : isIpChar c) : isAscii c := by
  simp only [isIpChar, Bool.or_eq_true, beq_iff_eq] at h
  rcases h with (h | rfl) | rfl
  · have hle : c.toNat ≤ 122 := by
      by_contra hgt
      have hnine : ¬ c ≤ '9' := fun hle => hgt (le_trans (show c.toNat ≤ 57 from hle) (by decide))
      have hz : ¬ c ≤ 'z' := fun hle => hgt (show c.toNat ≤ 122 from hle)
      have hZ : ¬ c ≤ 'Z' := fun hle => hgt (le_trans (show c.toNat ≤ 90 from hle) (by decide))
      simp [isDigit, toDigit, digitValue, hnine, hz, hZ] at h
    simp only [isAscii, decide_eq_true_eq]
    omega
  · decide
  · decide

theorem parseIp_eq_none (hc : c ∈ s) (h : isIpChar c = false) :
    parseIp s = none := by
  cases hparse : parseIp s with
  | none => rfl
  | some ip => simp [isIpChar_of_parseIp hparse c hc] at h

/-- A character outside ASCII leaves a character behind that no address has. -/
theorem exists_mem_lowerAfter (before : Str) (hc : c ∈ s) (hascii : isAscii c = false) :
    ∃ x ∈ lowerAfter before s, isIpChar x = false := by
  induction s generalizing before with
  | nil => simp at hc
  | cons head rest ih =>
    rcases mem_cons.mp hc with rfl | hc
    · by_cases hsigma : c = 'Σ'
      · -- either form of the small sigma is outside ASCII
        rw [lowerAfter, if_pos hsigma]
        split
        · exact ⟨'ς', by simp, by decide⟩
        · exact ⟨'σ', by simp, by decide⟩
      · rw [lowerAfter, if_neg hsigma]
        have himage : lowerImage c = lowerChar c := if_neg hsigma
        rcases exists_mem_lowerImage hascii with hk | ⟨x, hx, hnon⟩
        · obtain ⟨x, hx⟩ := exists_mem_of_ne_nil _ (lowerChar_ne_nil c)
          rw [himage] at hk
          exact ⟨x, by simp [hx], by rw [hk x hx]; decide⟩
        rw [himage] at hx
        refine ⟨x, by simp [hx], ?_⟩
        rw [Bool.eq_false_iff]
        intro hip
        rw [isAscii_of_isIpChar hip] at hnon
        cases hnon
    · obtain ⟨x, hx, hbad⟩ := ih (head :: before) hc
      exact ⟨x, by simp [lowerAfter, hx], hbad⟩

/-- The letter case of an address text is irrelevant. -/
theorem parseIp_toLowercase (s : Str) : parseIp (toLowercase s) = parseIp s := by
  by_cases hascii : ∀ c ∈ s, isAscii c
  · rw [toLowercase_of_ascii hascii, parseIp_toAsciiLowercase]
  simp only [not_forall, Bool.not_eq_true] at hascii
  obtain ⟨c, hc, hnon⟩ := hascii
  obtain ⟨x, hx, hbad⟩ := exists_mem_lowerAfter [] hc hnon
  have hip : isIpChar c = false := by
    rw [Bool.eq_false_iff]
    intro hip
    rw [isAscii_of_isIpChar hip] at hnon
    cases hnon
  rw [parseIp_eq_none hc hip, toLowercase, parseIp_eq_none hx hbad]

end Rust
