import Sockrocket.Rust.Net

/-!
# DNS messages

`dns/wire.rs`: the codec the resolver runs on queries and replies. Messages are byte lists, and a
reader is at a position of the whole message, because a compression pointer may only point back.
Every reader checks its bounds before it looks at a byte, so the default of `byteAt` is never read.
The loops of the source walk over labels and records; a name is at most 254 bytes long, so 255
turns are enough for its labels.
-/

namespace Dns

open Rust

abbrev Bytes := List UInt8

def byteAt (data : Bytes) (i : Nat) : Nat :=
  (data.getD i 0).toNat

/-- `u16::from_be_bytes` at a position. -/
def u16At (data : Bytes) (i : Nat) : Nat :=
  byteAt data i * 256 + byteAt data (i + 1)

/-- `u32::from_be_bytes` at a position. -/
def u32At (data : Bytes) (i : Nat) : Nat :=
  u16At data i * 65536 + u16At data (i + 2)

theorem byteAt_lt (data : Bytes) (i : Nat) : byteAt data i < 256 :=
  UInt8.toNat_lt _

theorem u16At_lt (data : Bytes) (i : Nat) : u16At data i < 65536 := by
  have h := byteAt_lt data i
  have h' := byteAt_lt data (i + 1)
  unfold u16At
  omega

theorem u32At_lt (data : Bytes) (i : Nat) : u32At data i < 4294967296 := by
  have h := u16At_lt data i
  have h' := u16At_lt data (i + 2)
  unfold u32At
  omega

/-- A number of three bytes, such as the length of a TLS handshake message. -/
def u24 (a b c : UInt8) : Nat :=
  a.toNat * 65536 + b.toNat * 256 + c.toNat

/-- `u16::to_be_bytes`. -/
def be16 (n : Nat) : Bytes :=
  [UInt8.ofNat (n / 256), UInt8.ofNat n]

/-- Two bytes hold a number of two bytes. -/
theorem u16At_be16 {n : Nat} (hn : n < 65536) : u16At (be16 n) 0 = n := by
  show (UInt8.ofNat (n / 256)).toNat * 256 + (UInt8.ofNat n).toNat = n
  rw [UInt8.toNat_ofNat', UInt8.toNat_ofNat']
  omega

/-- `u32::to_be_bytes`. -/
def be32 (n : Nat) : Bytes :=
  be16 (n / 65536) ++ be16 n

/-- Four bytes hold the low bytes of a number. -/
theorem u32At_be32_mod (n : Nat) : u32At (be32 n) 0 = n % 4294967296 := by
  show ((UInt8.ofNat (n / 65536 / 256)).toNat * 256 + (UInt8.ofNat (n / 65536)).toNat) * 65536 +
    ((UInt8.ofNat (n / 256)).toNat * 256 + (UInt8.ofNat n).toNat) = _
  rw [UInt8.toNat_ofNat', UInt8.toNat_ofNat', UInt8.toNat_ofNat', UInt8.toNat_ofNat']
  omega

theorem u32At_be32 {n : Nat} (hn : n < 4294967296) : u32At (be32 n) 0 = n :=
  (u32At_be32_mod n).trans (Nat.mod_eq_of_lt hn)

/-! ## UTF-8 -/

/-- `str::as_bytes`. -/
def utf8Encode (s : Str) : Bytes :=
  s.flatMap String.utf8EncodeChar

/-- How many bytes a scalar value with this first byte takes. -/
def utf8Width (b : UInt8) : Nat :=
  if b.toNat < 0x80 then 1 else if b.toNat < 0xe0 then 2 else if b.toNat < 0xf0 then 3 else 4

/-- The number a sequence of one to four bytes stands for. -/
def utf8Scalar : Bytes → Nat
  | [a] => a.toNat
  | [a, b] => a.toNat % 32 * 64 + b.toNat % 64
  | [a, b, c] => (a.toNat % 16 * 64 + b.toNat % 64) * 64 + c.toNat % 64
  | [a, b, c, d] => ((a.toNat % 8 * 64 + b.toNat % 64) * 64 + c.toNat % 64) * 64 + d.toNat % 64
  | _ => 0

/-- Read scalar values one after the other. A sequence counts only if it is the encoding of its
value, which rules out surrogates and forms longer than needed. -/
def utf8DecodeFrom : Nat → Bytes → Option Str
  | _, [] => some []
  | 0, _ :: _ => none
  | turns + 1, b :: rest =>
    let taken := (b :: rest).take (utf8Width b)
    let c := Char.ofNat (utf8Scalar taken)
    if String.utf8EncodeChar c = taken then
      (utf8DecodeFrom turns ((b :: rest).drop (utf8Width b))).map (c :: ·)
    else none

/-- `std::str::from_utf8`. -/
def fromUtf8 (data : Bytes) : Option Str :=
  utf8DecodeFrom data.length data

/-! ## Names and questions -/

/-- The loop of `skip_dns_name`, for a name that starts at `start`. -/
def skipLabels (data : Bytes) (start : Nat) : Nat → Nat → Option Nat
  | 0, _ => none
  | turns + 1, pos =>
    if data.length ≤ pos then none
    else if byteAt data pos = 0 then some (pos + 1)
    else if byteAt data pos &&& 0xc0 = 0xc0 then
      if data.length ≤ pos + 1 then none
      else if pos ≤ (byteAt data pos &&& 0x3f) * 256 + byteAt data (pos + 1) then none
      else some (pos + 2)
    else if 63 < byteAt data pos ∨ data.length < pos + 1 + byteAt data pos ∨
        254 < pos + 1 + byteAt data pos - start then none
    else skipLabels data start turns (pos + 1 + byteAt data pos)

/-- `skip_dns_name`: the position behind a name. -/
def skipDnsName (data : Bytes) (pos : Nat) : Option Nat :=
  skipLabels data pos 255 pos

structure Question where
  domain : Str
  qtype : Nat
  «end» : Nat
deriving DecidableEq

/-- The label loop of `question`: the labels from a position on, and the position behind them. -/
def questionLabels (data : Bytes) : Nat → Nat → Option (List Str × Nat)
  | 0, _ => none
  | turns + 1, pos =>
    if data.length ≤ pos then none
    else if byteAt data pos = 0 then some ([], pos + 1)
    else if 63 < byteAt data pos ∨ data.length < pos + 1 + byteAt data pos ∨
        254 < pos + 1 + byteAt data pos - 12 then none
    else
      match fromUtf8 ((data.drop (pos + 1)).take (byteAt data pos)),
        questionLabels data turns (pos + 1 + byteAt data pos) with
      | some label, some (labels, pos) => some (label :: labels, pos)
      | _, _ => none

/-- `question`. -/
def question (data : Bytes) : Option Question :=
  if data.length < 12 ∨ byteAt data 2 &&& 0xf8 ≠ 0 ∨ u16At data 4 ≠ 1 then none
  else
    match questionLabels data 255 12 with
    | none => none
    | some (labels, pos) =>
      if data.length < pos + 4 ∨ u16At data (pos + 2) ≠ 1 then none
      else some { domain := ['.'].intercalate labels, qtype := u16At data pos, «end» := pos + 4 }

/-- `build_dns_query`, with the transaction ID it draws. -/
def buildDnsQuery (id : Nat) (domain : Str) (qtype : Nat) : Bytes :=
  be16 id ++ [1, 0, 0, 1, 0, 0, 0, 0, 0, 0] ++
    (((trimEndMatches '.' domain).splitOn '.').filter (· ≠ [])).flatMap (fun label =>
      UInt8.ofNat (utf8Encode label).length :: utf8Encode label) ++
    [0] ++ be16 qtype ++ [0, 1]

/-! ## Records -/

/-- `ANCOUNT + NSCOUNT + ARCOUNT`. -/
def recordCount (message : Bytes) : Nat :=
  u16At message 6 + u16At message 8 + u16At message 10

/-- The loop of `validate_records`. -/
def walkRecords (message : Bytes) : Nat → Nat → Option Nat
  | 0, pos => some pos
  | count + 1, pos =>
    match skipDnsName message pos with
    | none => none
    | some pos =>
      if message.length < pos + 10 then none
      else if message.length < pos + 10 + u16At message (pos + 8) then none
      else walkRecords message count (pos + 10 + u16At message (pos + 8))

/-- `validate_records`. -/
def validateRecords (message : Bytes) : Bool :=
  match skipDnsName message 12 with
  | none => false
  | some pos =>
    decide (pos + 4 ≤ message.length) &&
      walkRecords message (recordCount message) (pos + 4) == some message.length

/-- `validate_response`. -/
def validateResponse (query response : Bytes) : Bool :=
  if response.length < 12 ∨ query.length < 12 ∨ response.take 2 ≠ query.take 2 ∨
      byteAt response 2 &&& 0x80 = 0 ∨ byteAt response 2 &&& 0x02 ≠ 0 then false
  else
    validateRecords response &&
      match question query,
        question (response.set 2 (UInt8.ofNat (byteAt response 2 &&& 0x07))) with
      | some expected, some actual =>
        eqIgnoreAsciiCase expected.domain actual.domain && expected.qtype == actual.qtype
      | _, _ => false

/-- The address an answer record holds. -/
def recordAddress (kind : Nat) (rdata : Bytes) : Option IpAddr :=
  if kind = 1 ∧ rdata.length = 4 then some (.v4 (Ipv4Addr.ofOctets (rdata.map UInt8.toNat)))
  else if kind = 28 ∧ rdata.length = 16 then
    some (.v6 (BitVec.ofNat 128 (rdata.foldl (fun value octet => value * 256 + octet.toNat) 0)))
  else none

/-- The answer loop of `parse_dns_response`. -/
def parseAnswers (data : Bytes) : Nat → Nat → Option (List IpAddr)
  | 0, _ => some []
  | count + 1, pos =>
    if data.length ≤ pos then none
    else
      match skipDnsName data pos with
      | none => none
      | some pos =>
        if data.length < pos + 10 then none
        else if data.length < pos + 10 + u16At data (pos + 8) then none
        else
          (parseAnswers data count (pos + 10 + u16At data (pos + 8))).map fun rest =>
            (recordAddress (u16At data pos)
              ((data.drop (pos + 10)).take (u16At data (pos + 8)))).toList ++ rest

/-- The question loop of `parse_dns_response`. -/
def skipQuestions (data : Bytes) : Nat → Nat → Option Nat
  | 0, pos => some pos
  | count + 1, pos =>
    match skipDnsName data pos with
    | none => none
    | some pos => if data.length < pos + 4 then none else skipQuestions data count (pos + 4)

/-- `parse_dns_response`. -/
def parseDnsResponse (data : Bytes) : Option (List IpAddr) :=
  if data.length < 12 then none
  else if byteAt data 2 &&& 0x80 = 0 ∨ byteAt data 2 &&& 0x02 ≠ 0 then none
  else if byteAt data 3 &&& 0x0f ≠ 0 then none
  else
    match skipQuestions data (u16At data 4) 12 with
    | none => none
    | some pos => parseAnswers data (u16At data 6) pos

/-- Overwrite the bytes from a position on. -/
def overwrite (data : Bytes) (pos : Nat) (bytes : Bytes) : Bytes :=
  data.take pos ++ bytes ++ data.drop (pos + bytes.length)

/-- Lower the time to live of the record whose fixed part is at a position. -/
def capRecord (message : Bytes) (max pos : Nat) : Bytes :=
  if u16At message pos ≠ 41 then
    overwrite message (pos + 4) (be32 (min (u32At message (pos + 4)) max))
  else message

/-- The loop of `cap_ttl`. -/
def capLoop (max : Nat) : Nat → Bytes → Nat → Option Bytes
  | 0, message, _ => some message
  | count + 1, message, pos =>
    match skipDnsName message pos with
    | none => none
    | some pos =>
      capLoop max count (capRecord message max pos) (pos + 10 + u16At message (pos + 8))

/-- `cap_ttl`. -/
def capTtl (message : Bytes) (max : Nat) : Option Bytes :=
  if validateRecords message then
    match skipDnsName message 12 with
    | none => none
    | some pos => capLoop max (recordCount message) message (pos + 4)
  else none

/-! ## Replies of the resolver's own -/

/-- The sixteen octets of an IPv6 address. -/
def v6Bytes (ip : Ipv6Addr) : Bytes :=
  (List.range 16).map fun i => UInt8.ofNat (ip.toNat / 256 ^ (15 - i))

/-- One answer record: a pointer to the question, the type, the class, the time to live and the
address. -/
def answerRecord (ttl : Nat) : IpAddr → Bytes
  | .v4 ip => [0xc0, 0x0c, 0, 1, 0, 1] ++ be32 ttl ++ [0, 4] ++ ip.octets.map UInt8.ofNat
  | .v6 ip => [0xc0, 0x0c, 0, 0x1c, 0, 1] ++ be32 ttl ++ [0, 16] ++ v6Bytes ip

/-- `build_dns_response_with_ttl`. -/
def buildDnsResponseWithTtl (query : Bytes) (addresses : List IpAddr) (ttl : Nat) :
    Option Bytes :=
  match question query with
  | none => none
  | some q =>
    if 65535 < addresses.length then none
    else
      some (query.take 2 ++ [UInt8.ofNat (0x80 ||| (byteAt query 2 &&& 1)), 0x80] ++ be16 1 ++
        be16 addresses.length ++ [0, 0, 0, 0] ++ (query.take q.end).drop 12 ++
        addresses.flatMap (answerRecord ttl))

end Dns
