import Sockrocket.Rust.Net
import Sockrocket.Lib.Lru

/-!
# The fake-IP pool

`dns/fakeip.rs`: the addresses of `198.18.0.0/16` the resolver answers with in place of real ones,
the table that maps them back to names, and the text store that carries the table over a restart.

The two hash maps are finite maps with extensional equality, the queue of `VecDeque` is a list with
its front at the head, and the file is the text it holds. What `maybe_persist` does after an
allocation is left to the writer that runs beside the pool.
-/

namespace FakeIp

open Rust List

/-! ## The fake range -/

def fakeIpBase : Nat := 0xC6120000

def fakeIpMask : Nat := 0xFFFF0000

def firstHostOffset : Nat := 2

def maxEntries : Nat := 8192

def domesticMaxEntries : Nat := 16384

/-- The largest `u32`. -/
def u32Max : Nat := 4294967295

/-- `is_fake_ip`. -/
def isFakeIp (ip : Ipv4Addr) : Bool :=
  ip &&& BitVec.ofNat 32 fakeIpMask == BitVec.ofNat 32 fakeIpBase

/-- `Ipv4Addr::from(FAKE_IP_BASE | offset)`. -/
def fakeAddress (offset : Nat) : Ipv4Addr :=
  BitVec.ofNat 32 (fakeIpBase ||| offset)

/-- The six segments in front of an embedded fake address. -/
def fakeV6Segments : List Nat :=
  [0x2001, 2, 0, 0x4765, 0, 0]

/-- `Ipv6Addr::octets`. -/
def v6Octets (ip : Ipv6Addr) : List Nat :=
  (List.range 16).map fun i => ip.toNat / 256 ^ (15 - i) % 256

/-- `fake_ipv4`: the pool address behind an address of either family. -/
def fakeIpv4 : IpAddr → Option Ipv4Addr
  | .v4 ip => if isFakeIp ip then some ip else none
  | .v6 ip =>
    if ip.segments.take 6 = fakeV6Segments then
      if isFakeIp (Ipv4Addr.ofOctets ((v6Octets ip).drop 12)) then
        some (Ipv4Addr.ofOctets ((v6Octets ip).drop 12))
      else none
    else none

/-- The IPv6 form of a pool address. -/
def embedV6 (ip : Ipv4Addr) : Ipv6Addr :=
  Ipv6Addr.ofSegments (fakeV6Segments ++ [ip.toNat / 65536 % 65536, ip.toNat % 65536])

/-! ## The pool -/

/-- The state behind the pool's lock. -/
structure Inner where
  next : Nat
  byDomain : Finmap fun _ : Str => Ipv4Addr
  byIp : Finmap fun _ : Ipv4Addr => Str
  order : List Str
  domestic : LruCache IpAddr Str domesticMaxEntries

namespace Inner

/-- The pool `FakeIpPool::new` starts from. -/
def new : Inner where
  next := firstHostOffset
  byDomain := ∅
  byIp := ∅
  order := []
  domestic := LruCache.empty

/-- `by_domain.len()`. -/
def len (inner : Inner) : Nat :=
  inner.byDomain.keys.card

/-- Bind a domain and an address to each other and queue the domain for eviction. -/
def bind (inner : Inner) (domain : Str) (ip : Ipv4Addr) : Inner :=
  { inner with
    byDomain := inner.byDomain.insert domain ip
    byIp := inner.byIp.insert ip domain
    order := inner.order ++ [domain] }

/-- Make room in a full pool: the front of the queue leaves, and its binding with it. -/
def evictOldest (inner : Inner) : Inner :=
  if maxEntries ≤ inner.len then
    match inner.order with
    | [] => inner
    | oldest :: rest =>
      match inner.byDomain.lookup oldest with
      | some ip =>
        { inner with
          byDomain := inner.byDomain.erase oldest
          byIp := inner.byIp.erase ip
          order := rest }
      | none => { inner with order := rest }
  else inner

/-- Move the cursor to the next host offset. -/
def advance (inner : Inner) : Inner :=
  { inner with
    next := if maxEntries + firstHostOffset ≤ inner.next then firstHostOffset
      else inner.next + 1 }

/-- Drop what an address still stands for. The queue is not touched. -/
def dropStale (inner : Inner) (ip : Ipv4Addr) : Inner :=
  match inner.byIp.lookup ip with
  | some old =>
    { inner with
      byDomain := inner.byDomain.erase old
      byIp := inner.byIp.erase ip }
  | none => inner

/-- Give a domain the address under the cursor. -/
def assignNext (inner : Inner) (domain : Str) : Ipv4Addr × Inner :=
  (fakeAddress inner.next,
    (inner.advance.dropStale (fakeAddress inner.next)).bind domain (fakeAddress inner.next))

/-- `FakeIpPool::allocate`. -/
def allocate (inner : Inner) (name : Str) : Ipv4Addr × Inner :=
  match inner.byDomain.lookup (toAsciiLowercase name) with
  | some ip => (ip, inner)
  | none => inner.evictOldest.assignNext (toAsciiLowercase name)

/-- `FakeIpPool::allocate_v6`. -/
def allocateV6 (inner : Inner) (name : Str) : Ipv6Addr × Inner :=
  (embedV6 (inner.allocate name).1, (inner.allocate name).2)

/-- `FakeIpPool::lookup`. -/
def lookup (inner : Inner) (ip : Ipv4Addr) : Option Str :=
  if isFakeIp ip then inner.byIp.lookup ip else none

/-- `FakeIpPool::record_domestic`. -/
def recordDomestic (inner : Inner) (ip : IpAddr) (name : Str) : Inner :=
  { inner with domestic := inner.domestic.put ip (toAsciiLowercase name) }

/-- `FakeIpPool::lookup_domestic`. -/
def lookupDomestic (inner : Inner) (ip : IpAddr) : Option Str :=
  inner.domestic.peek? ip

/-! ## The store -/

/-- The rows of a snapshot, oldest binding first. -/
def rows (inner : Inner) : List (Ipv4Addr × Str) :=
  inner.order.filterMap fun domain => (inner.byDomain.lookup domain).map (·, domain)

/-- The line of the store for one binding. -/
def rowText (row : Ipv4Addr × Str) : Str :=
  row.1.display ++ ' ' :: row.2

/-- `persist_snapshot`: the text written to the store. -/
def persistSnapshot (inner : Inner) : Str :=
  ("# sockrocket fake-ip store v1".toList :: ("next=".toList ++ decimal inner.next) ::
    inner.rows.map rowText).flatMap (· ++ ['\n'])

/-- Take over one row of the store; `none` ends the loading. -/
def loadRow (inner : Inner) (ip : Ipv4Addr) (domain : Str) : Option Inner :=
  if maxEntries ≤ inner.len then none
  else if domain ∈ inner.byDomain ∨ ip ∈ inner.byIp then some inner
  else some (inner.bind domain ip)

/-- Read the address and the domain of a line. -/
def loadWords (inner : Inner) : List Str → Option Inner
  | ipText :: domain :: _ =>
    match parseIpv4 ipText with
    | some ip => if isFakeIp ip then inner.loadRow ip (toAsciiLowercase domain) else some inner
    | none => some inner
  | _ => some inner

/-- Take over one trimmed line of the store; `none` ends the loading. -/
def loadLine (inner : Inner) (line : Str) : Option Inner :=
  if line = [] ∨ startsWith line ['#'] = true then some inner
  else
    match stripPrefix "next=".toList line with
    | some rest =>
      match parseUnsigned u32Max rest with
      | some n => some { inner with next := max n firstHostOffset }
      | none => some inner
    | none => inner.loadWords (splitWhitespace line)

/-- The loop of `load_from`. -/
def loadLines (inner : Inner) : List Str → Inner
  | [] => inner
  | raw :: rest =>
    match inner.loadLine (trim raw) with
    | some inner => inner.loadLines rest
    | none => inner

/-- `FakeIpPool::load_from`, on the text of the file. -/
def loadFrom (inner : Inner) (text : Str) : Inner :=
  inner.loadLines (lines text)

/-- `FakeIpPool::load_or_new`: the pool of a process that finds the given file, if any. -/
def loadOrNew (file : Option Str) : Inner :=
  match file with
  | some text => new.loadFrom text
  | none => new

end Inner

/-! ## Addresses of the range -/

/-- The mask of a /16 keeps the upper half. -/
theorem and_mask (ip : Ipv4Addr) : ip &&& 0xFFFF0000#32 = (ip >>> 16) <<< 16 := by
  have hall : ∀ i : Fin 32, (0xFFFF0000#32).getLsbD i = decide (16 ≤ i.val) := by decide
  ext i hi
  have hbit := hall ⟨i, hi⟩
  simp only [BitVec.getElem_and, BitVec.getElem_shiftLeft]
  rw [← BitVec.getLsbD_eq_getElem, ← BitVec.getLsbD_eq_getElem, hbit]
  by_cases h : 16 ≤ i
  · have hlow : ¬ i < 16 := by omega
    simp [h, hlow]
  · have hlow : i < 16 := by omega
    simp [h, hlow]

/-- An address is fake when its upper half is that of the range. -/
theorem isFakeIp_iff {ip : Ipv4Addr} : isFakeIp ip ↔ ip.toNat / 65536 = 0xC612 := by
  have hlt := ip.isLt
  rw [isFakeIp, beq_iff_eq]
  show ip &&& 0xFFFF0000#32 = 0xC6120000#32 ↔ _
  rw [and_mask, ← BitVec.toNat_inj]
  simp only [BitVec.toNat_shiftLeft, BitVec.toNat_ushiftRight, Nat.shiftRight_eq_div_pow,
    Nat.shiftLeft_eq, BitVec.toNat_ofNat]
  omega

variable {offset : Nat}

theorem toNat_fakeAddress (h : offset < 65536) :
    (fakeAddress offset).toNat = fakeIpBase + offset := by
  have hor := Nat.two_pow_add_eq_or_of_lt (i := 16) (b := offset) (by omega) 0xC612
  norm_num only at hor
  rw [fakeAddress, fakeIpBase, ← hor, BitVec.toNat_ofNat]
  omega

theorem isFakeIp_fakeAddress (h : offset < 65536) :
    isFakeIp (fakeAddress offset) := by
  rw [isFakeIp_iff, toNat_fakeAddress h, fakeIpBase]
  omega

theorem fakeAddress_inj {offset' : Nat} (h : offset < 65536) (h' : offset' < 65536)
    (heq : fakeAddress offset = fakeAddress offset') : offset = offset' := by
  have hnat := congrArg BitVec.toNat heq
  rw [toNat_fakeAddress h, toNat_fakeAddress h'] at hnat
  omega

/-- The IPv6 form of an address stands for the address. -/
theorem fakeIpv4_embedV6 (ip : Ipv4Addr) : fakeIpv4 (.v6 (embedV6 ip)) = fakeIpv4 (.v4 ip) := by
  have hlt := ip.isLt
  have hvalue : (embedV6 ip).toNat =
      0x20010002000047650000000000000000 + ip.toNat := by
    simp only [embedV6, Ipv6Addr.ofSegments, fakeV6Segments, cons_append, nil_append,
      foldl_cons, foldl_nil, BitVec.toNat_ofNat]
    omega
  have hsegments : (embedV6 ip).segments.take 6 = fakeV6Segments := by
    simp only [segments_eq, hvalue, take_succ_cons, take_zero, fakeV6Segments, cons.injEq, and_true]
    omega
  have hoctets : Ipv4Addr.ofOctets ((v6Octets (embedV6 ip)).drop 12) = ip := by
    apply BitVec.eq_of_toNat_eq
    simp only [v6Octets, hvalue, Ipv4Addr.ofOctets, range_succ, range_zero,
      nil_append, map_cons, map_nil, cons_append,
      drop_succ_cons, drop_zero, foldl_cons, foldl_nil, BitVec.toNat_ofNat]
    omega
  simp [fakeIpv4, hsegments, hoctets]

end FakeIp
