import Sockrocket.Lib.Pieces
import Sockrocket.Proxy.Bytes

/-!
# Datagrams over QUIC

`proxy/quic_datagram.rs`: the UDP packets of Hysteria2 and TUIC. A packet that does not fit into a
QUIC datagram is cut into fragments, whose headers differ between the protocols. The receiver decodes
whatever arrives and gathers the fragments of a packet in a small table: an assembly is dropped after
five seconds, and a third one empties the table.

`decode` and `assemble` index their slices without checks, so `outOfRange` is a panic; an error of the
source is its message. Times are in nanoseconds.
-/

namespace Sockrocket

open Rust Dns Slice Pieces
open List hiding utf8Encode

/-- `Protocol`. -/
inductive QuicProtocol where
  | hysteria2
  | tuic
deriving DecidableEq, Repr

/-! ## Sending -/

/-- `str::parse::<Ipv6Addr>` succeeds. -/
def isIpv6 (s : Str) : Bool :=
  match readIpv6 s with
  | some (_, []) => true
  | _ => false

/-- `format_host_port`. -/
def formatHostPort (host : Str) (port : Nat) : Str :=
  let bracket (c : Char) : Bool := c == '[' || c == ']'
  let bare := (host.dropWhile bracket).rdropWhile bracket
  if isIpv6 bare then ['['] ++ bare ++ [']', ':'] ++ decimal port else host ++ [':'] ++ decimal port

/-- `put_varint`. -/
def putVarint (value : Nat) : Bytes :=
  if value < 64 then [UInt8.ofNat value] else be16 (value % 65536 ||| 0x4000)

/-- `address`. -/
def quicAddress (protocol : QuicProtocol) (host : Str) (port : Nat) : Except Str Bytes :=
  match protocol with
  | .hysteria2 =>
    let address := utf8Encode (formatHostPort host port)
    if address.length < 16384 then .ok (putVarint address.length ++ address)
    else .error "UDP address too long".toList
  | .tuic =>
    match parseIp host with
    | some (.v4 ip) => .ok ([1] ++ ip.octets.map UInt8.ofNat ++ be16 port)
    | some (.v6 ip) => .ok ([2] ++ ipv6Octets ip ++ be16 port)
    | none =>
      if (utf8Encode host).length ≤ 255 then
        .ok ([0, UInt8.ofNat (utf8Encode host).length] ++ utf8Encode host ++ be16 port)
      else .error "UDP domain too long".toList

/-- `header`. -/
def quicHeader (protocol : QuicProtocol) (session packet index total : Nat) (address : Bytes)
    (length : Nat) : Bytes :=
  match protocol with
  | .hysteria2 =>
    be32 session ++ be16 packet ++ [UInt8.ofNat index, UInt8.ofNat total] ++ address
  | .tuic =>
    [5, 2] ++ be16 session ++ be16 packet ++ [UInt8.ofNat total, UInt8.ofNat index] ++
      be16 length ++ address

/-- `Session`, with the number that the next packet takes. -/
structure QuicSession where
  protocol : QuicProtocol
  id : Nat
  address : Bytes
  packet : Nat
deriving DecidableEq, Repr

/-- The frame of one fragment. -/
def QuicSession.frame (session : QuicSession) (index total : Nat) (data : Bytes) : Bytes :=
  quicHeader session.protocol session.id session.packet index total session.address data.length ++
    data

/-- `Session::send`: the frames it emits. `max` is `max_datagram_size`. -/
def QuicSession.send (session : QuicSession) (max : Option Nat) (packet : Bytes) :
    Except Str (List Bytes) :=
  if 65535 < packet.length then .error "UDP payload too large".toList
  else
    match max with
    | none => .error "UDP unavailable".toList
    | some max =>
      let overhead := (quicHeader session.protocol session.id 0 0 1 session.address 0).length
      if max ≤ overhead then .error "UDP address exceeds QUIC MTU".toList
      else
        let chunk := max - overhead
        let total := (Nat.max packet.length 1 + chunk - 1) / chunk
        if 255 < total then .error "Too many UDP fragments".toList
        else .ok <| (List.range total).map fun index =>
          let start := min (index * chunk) packet.length
          let stop := min (start + chunk) packet.length
          session.frame index total ((packet.drop start).take (stop - start))

/-! ## Receiving -/

/-- `Fragment`. -/
structure QuicFragment where
  session : Nat
  packet : Nat
  index : Nat
  total : Nat
  data : Bytes
deriving DecidableEq, Repr

/-- The session in a header. -/
def quicSession (protocol : QuicProtocol) (frame : Bytes) : Read (Except Str Nat) :=
  match protocol with
  | .hysteria2 => do
      let word ← slice frame 0 4
      pure (.ok (u32At word 0))
  | .tuic => do
      let command ← slice frame 0 2
      if command ≠ [5, 2] then pure (.error "Unexpected TUIC command".toList)
      else do
        let word ← slice frame 2 4
        pure (.ok (u16At word 0))

/-- The length of an address of Hysteria2, of which `bytes` follow the first byte. -/
def varintValue (first : UInt8) (bytes : Bytes) : Nat :=
  bytes.foldl (fun length b => length * 256 + b.toNat) (first.toNat % 64)

/-- Where the address of a TUIC header of this kind ends. -/
def tuicStop (kind : UInt8) (frame : Bytes) : Read (Except Str Nat) :=
  if kind = 0 then
    if frame.length < 12 then pure (.error "Missing domain length".toList)
    else do
      let size ← index frame 11
      pure (.ok (12 + size.toNat + 2))
  else if kind = 1 then pure (.ok 17)
  else if kind = 2 then pure (.ok 29)
  else pure (.error "Invalid TUIC address".toList)

/-- The rest of a header: `index`, `total`, `pos` and `expected`. -/
def quicLayout (protocol : QuicProtocol) (frame : Bytes) :
    Read (Except Str (Nat × Nat × Nat × Option Nat)) :=
  match protocol with
  | .hysteria2 => do
      let first ← index frame 8
      let n := 2 ^ (first.toNat / 64)
      if frame.length < 8 + n then pure (.error "Truncated address length".toList)
      else do
        let length := varintValue first (← slice frame 9 (8 + n))
        if 65535 < length then pure (.error "Oversized address".toList)
        else do
          let index' ← index frame 6
          let total ← index frame 7
          pure (.ok (index'.toNat, total.toNat, 8 + n + length, none))
  | .tuic =>
    if frame.length < 11 then pure (.error "Truncated TUIC header".toList)
    else do
      let length := u16At (← slice frame 8 10) 0
      let kind ← index frame 10
      match ← tuicStop kind frame with
      | .error message => pure (.error message)
      | .ok stop => do
          let index' ← index frame 7
          let total ← index frame 6
          pure (.ok (index'.toNat, total.toNat, stop, some length))

/-- `decode`. -/
def quicDecode (protocol : QuicProtocol) (frame : Bytes) : Read (Except Str QuicFragment) :=
  if frame.length < 9 then pure (.error "Truncated UDP header".toList)
  else do
    match ← quicSession protocol frame with
    | .error message => pure (.error message)
    | .ok session =>
      let packet := u16At (← slice frame 4 6) 0
      match ← quicLayout protocol frame with
      | .error message => pure (.error message)
      | .ok (index, total, pos, expected) =>
        if ¬ (0 < total ∧ index < total ∧ pos ≤ frame.length) then
          pure (.error "Invalid UDP fragment".toList)
        else do
          let data ← slice frame pos frame.length
          if ¬ (data.length ≤ 65535 ∧ (expected = none ∨ expected = some data.length)) then
            pure (.error "Invalid UDP payload length".toList)
          else pure (.ok ⟨session, packet, index, total, data⟩)

/-- `Assembly`. -/
structure Assembly where
  created : Nat
  total : Nat
  bytes : Nat
  parts : List (Option Bytes)
deriving DecidableEq, Repr

/-- `Reassembler`. -/
structure Reassembler where
  pending : List (Nat × Assembly)
deriving DecidableEq, Repr

/-- How long an assembly is kept. -/
def assemblyTime : Nat := 5 * 10 ^ 9

namespace Reassembler

/-- `HashMap::remove`. -/
def remove (this : Reassembler) (packet : Nat) : Reassembler :=
  ⟨this.pending.filter (·.1 ≠ packet)⟩

/-- `HashMap::insert`. -/
def insert (this : Reassembler) (packet : Nat) (item : Assembly) : Reassembler :=
  ⟨(packet, item) :: (this.remove packet).pending⟩

/-- The table without the assemblies that are too old. -/
def retain (this : Reassembler) (now : Nat) : Reassembler :=
  ⟨this.pending.filter fun entry => now - entry.2.created < assemblyTime⟩

/-- The table with room for a fragment of this packet. -/
def makeRoom (this : Reassembler) (packet : Nat) : Reassembler :=
  if 2 ≤ this.pending.length && (this.pending.lookup packet).isNone then ⟨[]⟩ else this

/-- The assembly of a fragment, a new one if there is none. -/
def entry (this : Reassembler) (now : Nat) (fragment : QuicFragment) : Assembly :=
  (this.pending.lookup fragment.packet).getD
    ⟨now, fragment.total, 0, List.replicate fragment.total none⟩

/-- The end of `assemble`, with the assembly as it is now. -/
def finish (this : Reassembler) (packet : Nat) (item : Assembly) :
    Except Str (Option Bytes) × Reassembler :=
  if item.parts.all Option.isSome then
    (.ok (some (item.parts.filterMap id).flatten), this.remove packet)
  else (.ok none, this.insert packet item)

/-- The part of `assemble` after the lookup of the assembly. -/
def add (this : Reassembler) (item : Assembly) (fragment : QuicFragment) :
    Read (Except Str (Option Bytes) × Reassembler) :=
  if item.total ≠ fragment.total then
    pure (.error "UDP fragment count changed".toList, this.insert fragment.packet item)
  else do
    match ← index item.parts fragment.index with
    | some _ => pure (this.finish fragment.packet item)
    | none =>
      let bytes := item.bytes + fragment.data.length
      if 65535 < bytes then
        pure (.error "Oversized UDP fragments".toList,
          this.insert fragment.packet { item with bytes })
      else
        pure (this.finish fragment.packet
          { item with bytes, parts := item.parts.set fragment.index (some fragment.data) })

/-- `Reassembler::assemble`, at a time. -/
def assemble (this : Reassembler) (now : Nat) (fragment : QuicFragment) :
    Read (Except Str (Option Bytes) × Reassembler) :=
  let this := this.retain now
  if fragment.total = 1 then pure (.ok (some fragment.data), this)
  else
    let this := this.makeRoom fragment.packet
    this.add (this.entry now fragment) fragment

/-- What the task of the hub does with a frame, for one session: the packet it delivers. -/
def receive (this : Reassembler) (protocol : QuicProtocol) (session now : Nat) (frame : Bytes) :
    Read (Option Bytes × Reassembler) := do
  match ← quicDecode protocol frame with
  | .error _ => pure (none, this)
  | .ok fragment =>
    if fragment.session = session then do
      match ← this.assemble now fragment with
      | (.ok packet, this) => pure (packet, this)
      | (.error _, this) => pure (none, this)
    else pure (none, this)

/-- Frames one after the other, with their times: what is delivered at each. -/
def receiveAll (this : Reassembler) (protocol : QuicProtocol) (session : Nat) :
    List (Nat × Bytes) → Read (List (Option Bytes) × Reassembler)
  | [] => pure ([], this)
  | (now, frame) :: frames => do
      let (packet, this) ← this.receive protocol session now frame
      let (packets, this) ← this.receiveAll protocol session frames
      pure (packet :: packets, this)

end Reassembler

/-! ## Frames of arbitrary bytes -/

/-- The header is long enough for what is read of it. -/
theorem returns_quicSession (protocol : QuicProtocol) (frame : Bytes) (h : 9 ≤ frame.length) :
    Returns (quicSession protocol frame) := by
  cases protocol with
  | hysteria2 => exact (returns_slice (by omega) (by omega)).bind fun _ _ => returns_ok _
  | tuic =>
    refine (returns_slice (by omega) (by omega)).bind fun command _ => ?_
    split
    · exact returns_ok _
    · exact (returns_slice (by omega) (by omega)).bind fun _ _ => returns_ok _

theorem returns_tuicStop (kind : UInt8) (frame : Bytes) : Returns (tuicStop kind frame) := by
  unfold tuicStop
  split
  · split
    · exact returns_ok _
    · exact (returns_index (by omega)).bind fun _ _ => returns_ok _
  · split
    · exact returns_ok _
    · split <;> exact returns_ok _

theorem returns_quicLayout (protocol : QuicProtocol) (frame : Bytes) (h : 9 ≤ frame.length) :
    Returns (quicLayout protocol frame) := by
  cases protocol with
  | hysteria2 =>
    refine (returns_index (by omega)).bind fun first _ => ?_
    dsimp only
    split
    · exact returns_ok _
    have hpos : 1 ≤ 2 ^ (first.toNat / 64) := Nat.one_le_two_pow
    refine (returns_slice (by omega) (by omega)).bind fun bytes _ => ?_
    split
    · exact returns_ok _
    · exact (returns_index (by omega)).bind fun _ _ =>
        (returns_index (by omega)).bind fun _ _ => returns_ok _
  | tuic =>
    unfold quicLayout
    dsimp only
    split
    · exact returns_ok _
    refine (returns_slice (by omega) (by omega)).bind fun word _ =>
      (returns_index (by omega)).bind fun kind _ =>
      (returns_tuicStop kind frame).bind fun stop _ => ?_
    cases stop with
    | error message => exact returns_ok _
    | ok stop =>
      exact (returns_index (by omega)).bind fun _ _ =>
        (returns_index (by omega)).bind fun _ _ => returns_ok _

/-- `decode` reads nothing out of range, and what it accepts is a fragment. -/
theorem quicDecode_spec (protocol : QuicProtocol) (frame : Bytes) :
    ∃ result, quicDecode protocol frame = .ok result ∧ ∀ fragment, result = .ok fragment →
      fragment.index < fragment.total ∧ fragment.data.length ≤ 65535 := by
  unfold quicDecode
  split
  · exact ⟨_, rfl, nofun⟩
  obtain ⟨session, hsession⟩ := returns_quicSession protocol frame (by omega)
  obtain ⟨layout, hlayout⟩ := returns_quicLayout protocol frame (by omega)
  obtain ⟨word, hword⟩ : Returns (slice frame 4 6) := returns_slice (by omega) (by omega)
  rw [hsession]
  dsimp only [Bind.bind, Except.bind]
  cases session with
  | error message => exact ⟨_, rfl, nofun⟩
  | ok session =>
    dsimp only
    rw [hword, hlayout]
    dsimp only
    cases layout with
    | error message => exact ⟨_, rfl, nofun⟩
    | ok layout =>
      obtain ⟨index, total, pos, expected⟩ := layout
      dsimp only
      split
      · exact ⟨_, rfl, nofun⟩
      rename_i hvalid
      rw [not_not] at hvalid
      rw [slice_of_le hvalid.2.2 le_rfl]
      dsimp only
      split
      · exact ⟨_, rfl, nofun⟩
      rename_i hlength
      rw [not_not] at hlength
      refine ⟨_, rfl, fun fragment hfragment => ?_⟩
      obtain rfl := Except.ok.inj hfragment
      exact ⟨hvalid.2.1, hlength.1⟩

/-! ## Frames of a sender -/

/-- The two bytes of a longer varint. -/
theorem putVarint_long {n : Nat} (hsmall : ¬ n < 64) (hn : n < 16384) :
    putVarint n = [UInt8.ofNat (64 + n / 256), UInt8.ofNat n] := by
  have hor : n % 65536 ||| 0x4000 = 16384 + n := by
    rw [Nat.mod_eq_of_lt (by omega), Nat.or_comm]
    exact (Nat.two_pow_add_eq_or_of_lt (show n < 2 ^ 14 by omega) 1).symm
  rw [putVarint, if_neg hsmall, hor, be16]
  congr 1
  · congr 1
    omega
  · congr 1
    apply UInt8.toNat_inj.mp
    rw [UInt8.toNat_ofNat', UInt8.toNat_ofNat']
    omega

variable {frame address data : Bytes}

variable {part total : UInt8}

/-- The varint in front of an address says where it ends. -/
theorem quicLayout_hysteria2
    (hframe : frame.drop 6 = part :: total :: (putVarint address.length ++ address ++ data))
    (haddress : address.length < 16384) :
    ∃ pos, quicLayout .hysteria2 frame = .ok (.ok (part.toNat, total.toNat, pos, none)) ∧
      pos ≤ frame.length ∧ frame.drop pos = data := by
  have hseven : frame.drop 7 = total :: (putVarint address.length ++ address ++ data) := by
    rw [← drop_drop (i := 1) (j := 6), hframe]
    rfl
  have height : frame.drop 8 = putVarint address.length ++ address ++ data := by
    rw [← drop_drop (i := 2) (j := 6), hframe]
    rfl
  have hlength : frame.length = 8 + (putVarint address.length ++ address ++ data).length := by
    have h := congrArg List.length hframe
    rw [length_drop, length_cons, length_cons] at h
    omega
  have hindex := index_of_drop hframe
  have htotal := index_of_drop hseven
  -- the value of the varint, and the place after it
  have hvarint : ∃ first more, putVarint address.length = first :: more ∧
      more.length + 1 = 2 ^ (first.toNat / 64) ∧ varintValue first more = address.length := by
    by_cases hsmall : address.length < 64
    · refine ⟨_, [], by rw [putVarint, if_pos hsmall], ?_, ?_⟩
      · rw [UInt8.toNat_ofNat', Nat.div_eq_of_lt (by omega)]
        rfl
      · show (UInt8.ofNat address.length).toNat % 64 = address.length
        rw [UInt8.toNat_ofNat']
        omega
    · refine ⟨_, _, putVarint_long hsmall haddress, ?_, ?_⟩
      · rw [UInt8.toNat_ofNat', show (64 + address.length / 256) % 2 ^ 8 / 64 = 1 by omega]
        rfl
      · show (UInt8.ofNat (64 + address.length / 256)).toNat % 64 * 256 +
          (UInt8.ofNat address.length).toNat = address.length
        rw [UInt8.toNat_ofNat', UInt8.toNat_ofNat']
        omega
  obtain ⟨first, more, hput, hsize, hvalue⟩ := hvarint
  rw [hput] at height hlength
  rw [cons_append, cons_append, append_assoc] at height hlength
  rw [length_cons, length_append, length_append] at hlength
  have hfirst := index_of_drop height
  have hnine : frame.drop 9 = more ++ (address ++ data) := by
    rw [← drop_drop (i := 1) (j := 8), height]
    rfl
  have hmore : slice frame 9 (8 + 2 ^ (first.toNat / 64)) = .ok more := by
    rw [← hsize, show 8 + (more.length + 1) = 9 + more.length by omega]
    exact slice_of_drop (by omega) hnine rfl
  refine ⟨8 + 2 ^ (first.toNat / 64) + address.length, ?_, by omega, ?_⟩
  · rw [quicLayout, hfirst]
    dsimp only [Bind.bind, Except.bind]
    rw [if_neg (by omega), hmore]
    dsimp only
    rw [hvalue, if_neg (by omega), hindex, htotal]
    rfl
  · rw [← hsize, show 8 + (more.length + 1) + address.length = 9 + (more ++ address).length by
      rw [length_append]; omega, ← drop_drop, hnine, ← append_assoc, drop_left]

/-- The kinds of TUIC addresses. -/
inductive TuicAddress : Bytes → Prop where
  | domain {size : UInt8} {rest : Bytes} : rest.length = size.toNat + 2 →
      TuicAddress (0 :: size :: rest)
  | v4 {rest : Bytes} : rest.length = 6 → TuicAddress (1 :: rest)
  | v6 {rest : Bytes} : rest.length = 18 → TuicAddress (2 :: rest)

theorem tuicAddress_of_quicAddress {host : Str} {port : Nat}
    (h : quicAddress .tuic host port = .ok address) : TuicAddress address := by
  unfold quicAddress at h
  dsimp only at h
  split at h
  · obtain rfl := Except.ok.inj h
    exact .v4 rfl
  · rename_i ip _
    obtain rfl := Except.ok.inj h
    refine .v6 ?_
    show (ipv6Octets ip ++ be16 port).length = 18
    rw [length_append, length_ipv6Octets]
    rfl
  · split at h
    · rename_i hlength
      obtain rfl := Except.ok.inj h
      refine .domain ?_
      show (utf8Encode host ++ be16 port).length = (UInt8.ofNat (utf8Encode host).length).toNat + 2
      rw [length_append, UInt8.toNat_ofNat', Nat.mod_eq_of_lt (by omega)]
      rfl
    · cases h

/-- The kind of an address says where it ends. -/
theorem tuicStop_address (haddress : TuicAddress address) (hframe : frame.drop 10 = address ++ data)
    (hten : 10 ≤ frame.length) :
    ∃ kind, index frame 10 = .ok kind ∧ 11 ≤ frame.length ∧
      tuicStop kind frame = .ok (.ok (10 + address.length)) := by
  have hlength := le_of_drop_append hten hframe
  cases haddress with
  | @domain size rest hrest =>
    have heleven : frame.drop 11 = size :: (rest ++ data) := by
      rw [← drop_drop (i := 1) (j := 10), hframe]
      rfl
    rw [length_cons, length_cons] at hlength
    refine ⟨0, index_of_drop hframe, by omega, ?_⟩
    rw [tuicStop, if_pos rfl, if_neg (by omega), index_of_drop heleven, length_cons,
      length_cons, hrest]
    show Except.ok (Except.ok _) = _
    congr 2
    omega
  | v4 hrest =>
    rw [length_cons, hrest] at hlength
    refine ⟨1, index_of_drop hframe, by omega, ?_⟩
    rw [tuicStop, length_cons, hrest]
    rfl
  | v6 hrest =>
    rw [length_cons, hrest] at hlength
    refine ⟨2, index_of_drop hframe, by omega, ?_⟩
    rw [tuicStop, length_cons, hrest]
    rfl

theorem quicLayout_tuic {length : Nat} (haddress : TuicAddress address)
    (hlength : length < 65536)
    (hframe : frame.drop 6 = total :: part :: (be16 length ++ (address ++ data))) :
    quicLayout .tuic frame =
        .ok (.ok (part.toNat, total.toNat, 10 + address.length, some length)) ∧
      10 + address.length ≤ frame.length ∧ frame.drop (10 + address.length) = data := by
  have hseven : frame.drop 7 = part :: (be16 length ++ (address ++ data)) := by
    rw [← drop_drop (i := 1) (j := 6), hframe]
    rfl
  have height : frame.drop 8 = be16 length ++ (address ++ data) := by
    rw [← drop_drop (i := 2) (j := 6), hframe]
    rfl
  have hten : frame.drop 10 = address ++ data := by
    rw [← drop_drop (i := 4) (j := 6), hframe]
    rfl
  have htotal : frame.length = 10 + (address ++ data).length := by
    have h := congrArg List.length hframe
    rw [length_drop, length_cons, length_cons, length_append] at h
    have htwo : (be16 length).length = 2 := rfl
    omega
  obtain ⟨kind, hkind, heleven, hstop⟩ := tuicStop_address haddress hten (by omega)
  have hword : slice frame 8 10 = .ok (be16 length) := slice_of_drop (n := 2) (by omega) height rfl
  refine ⟨?_, ?_, ?_⟩
  · rw [quicLayout]
    dsimp only
    rw [if_neg (by omega), hword, hkind]
    dsimp only [Bind.bind, Except.bind]
    rw [hstop]
    dsimp only
    rw [index_of_drop hseven, index_of_drop hframe, u16At_be16 hlength]
    rfl
  · rw [length_append] at htotal
    omega
  · rw [← drop_drop, hten, drop_left]

/-- The range of the session numbers. -/
def QuicProtocol.sessions : QuicProtocol → Nat
  | .hysteria2 => 2 ^ 32
  | .tuic => 2 ^ 16

/-- A session as `associate` makes it, with its packet counter. -/
structure QuicSession.Valid (session : QuicSession) : Prop where
  id : session.id < session.protocol.sessions
  packet : session.packet < 65536
  address : ∃ host port, quicAddress session.protocol host port = .ok session.address

/-- What is left of `decode` once the header is read. -/
theorem quicDecode_of_header {protocol : QuicProtocol} {session packet part total pos : Nat}
    {expected : Option Nat} (hnine : 9 ≤ frame.length)
    (hsession : quicSession protocol frame = .ok (.ok session))
    (hpacket : slice frame 4 6 = .ok (be16 packet)) (hrange : packet < 65536)
    (hlayout : quicLayout protocol frame = .ok (.ok (part, total, pos, expected)))
    (hpart : part < total) (hpos : pos ≤ frame.length) (hdata : frame.drop pos = data)
    (hlength : data.length ≤ 65535) (hexpected : expected = none ∨ expected = some data.length) :
    quicDecode protocol frame = .ok (.ok ⟨session, packet, part, total, data⟩) := by
  have hslice : slice frame pos frame.length = .ok data := by
    rw [slice_of_le hpos le_rfl, hdata, take_of_length_le (by rw [← hdata, length_drop])]
  rw [quicDecode, if_neg (by omega), hsession]
  dsimp only [Bind.bind, Except.bind]
  rw [hpacket, hlayout]
  dsimp only
  rw [if_neg (not_not.mpr ⟨by omega, hpart, hpos⟩), hslice]
  dsimp only
  rw [if_neg (not_not.mpr ⟨hlength, hexpected⟩), u16At_be16 hrange]
  rfl

variable {session : QuicSession}

/-- A frame that the session sends is decoded to its fragment. -/
theorem quicDecode_frame (hvalid : session.Valid) {part total : Nat}
    (hpart : part < total) (htotal : total ≤ 255) (hdata : data.length ≤ 65535) :
    quicDecode session.protocol (session.frame part total data) =
      .ok (.ok ⟨session.id, session.packet, part, total, data⟩) := by
  obtain ⟨protocol, id, address, packet⟩ := session
  obtain ⟨hid, hpacket, host, port, haddress⟩ := hvalid
  dsimp only at hid hpacket haddress
  have hpart' : (UInt8.ofNat part).toNat = part := by
    rw [UInt8.toNat_ofNat']
    omega
  have htotal' : (UInt8.ofNat total).toNat = total := by
    rw [UInt8.toNat_ofNat']
    omega
  cases protocol with
  | hysteria2 =>
    obtain ⟨text, htext, rfl⟩ : ∃ text : Bytes, text.length < 16384 ∧
        address = putVarint text.length ++ text := by
      unfold quicAddress at haddress
      dsimp only at haddress
      split at haddress
      · rename_i hlength
        exact ⟨_, hlength, (Except.ok.inj haddress).symm⟩
      · cases haddress
    have hframe : (QuicSession.frame ⟨.hysteria2, id, putVarint text.length ++ text, packet⟩ part
        total data) = be32 id ++ (be16 packet ++ (UInt8.ofNat part :: UInt8.ofNat total ::
          (putVarint text.length ++ text ++ data))) := by
      rfl
    rw [hframe]
    generalize hbytes : be32 id ++ (be16 packet ++ (UInt8.ofNat part :: UInt8.ofNat total ::
          (putVarint text.length ++ text ++ data))) = frame
    have hlength : 9 ≤ frame.length := by
      have hput : 1 ≤ (putVarint text.length).length := by
        unfold putVarint
        split
        · exact le_rfl
        · exact Nat.le_succ 1
      have hall := congrArg List.length hbytes
      simp only [length_append, length_cons] at hall
      have hfour : (be32 id).length = 4 := rfl
      have htwo : (be16 packet).length = 2 := rfl
      omega
    have hsix : frame.drop 6 = UInt8.ofNat part :: UInt8.ofNat total ::
        (putVarint text.length ++ text ++ data) := by
      rw [← hbytes]
      rfl
    obtain ⟨pos, hlayout, hpos, hrest⟩ := quicLayout_hysteria2 hsix htext
    rw [hpart', htotal'] at hlayout
    have hsession : quicSession .hysteria2 frame = .ok (.ok id) := by
      have hword : slice frame 0 4 = .ok (be32 id) :=
        slice_of_drop (n := 4) (Nat.zero_le _) hbytes.symm rfl
      rw [quicSession, hword]
      show Except.ok (Except.ok (u32At (be32 id) 0)) = _
      rw [u32At_be32 hid]
    have hnumber : slice frame 4 6 = .ok (be16 packet) :=
      slice_of_drop (n := 2) (by omega) (by rw [← hbytes]; rfl) rfl
    exact quicDecode_of_header hlength hsession hnumber hpacket hlayout hpart hpos hrest hdata
      (.inl rfl)
  | tuic =>
    have hframe : (QuicSession.frame ⟨.tuic, id, address, packet⟩ part total data) =
        [5, 2] ++ (be16 id ++ (be16 packet ++ (UInt8.ofNat total :: UInt8.ofNat part ::
          (be16 data.length ++ (address ++ data))))) := by
      show ([5, 2] ++ be16 id ++ be16 packet ++ [UInt8.ofNat total, UInt8.ofNat part] ++
        be16 data.length ++ address) ++ data = _
      simp
    rw [hframe]
    generalize hbytes : [5, 2] ++ (be16 id ++ (be16 packet ++ (UInt8.ofNat total ::
      UInt8.ofNat part :: (be16 data.length ++ (address ++ data))))) = frame
    have hsix : frame.drop 6 = UInt8.ofNat total :: UInt8.ofNat part ::
        (be16 data.length ++ (address ++ data)) := by
      rw [← hbytes]
      rfl
    obtain ⟨hlayout, hpos, hrest⟩ :=
      quicLayout_tuic (tuicAddress_of_quicAddress haddress) (by omega) hsix
    rw [hpart', htotal'] at hlayout
    have hsession : quicSession .tuic frame = .ok (.ok id) := by
      have hcommand : slice frame 0 2 = .ok [5, 2] :=
        slice_of_drop (n := 2) (Nat.zero_le _) hbytes.symm rfl
      have hword : slice frame 2 4 = .ok (be16 id) :=
        slice_of_drop (n := 2) (by omega) (by rw [← hbytes]; rfl) rfl
      rw [quicSession, hcommand]
      dsimp only [Bind.bind, Except.bind]
      rw [if_neg (not_not.mpr rfl), hword]
      show Except.ok (Except.ok (u16At (be16 id) 0)) = _
      rw [u16At_be16 hid]
    have hnumber : slice frame 4 6 = .ok (be16 packet) :=
      slice_of_drop (n := 2) (by omega) (by rw [← hbytes]; rfl) rfl
    exact quicDecode_of_header (by omega) hsession hnumber hpacket hlayout hpart hpos hrest hdata
      (.inr rfl)

theorem length_quicHeader (protocol : QuicProtocol) (session packet part total : Nat)
    (address : Bytes) (length : Nat) :
    (quicHeader protocol session packet part total address length).length =
      (match protocol with | .hysteria2 => 8 | .tuic => 10) + address.length := by
  cases protocol with
  | hysteria2 =>
    show (be32 session ++ be16 packet ++ [_, _] ++ address).length = _
    rw [length_append]
    rfl
  | tuic =>
    show ([5, 2] ++ be16 session ++ be16 packet ++ [_, _] ++ be16 length ++ address).length = _
    rw [length_append]
    rfl

/-- What `send` makes of a packet: pieces of it, each in a frame. -/
structure Sent (session : QuicSession) (max : Nat) (packet : Bytes) (pieces frames : List Bytes) :
    Prop where
  count : 1 ≤ pieces.length ∧ pieces.length ≤ 255
  whole : pieces.flatten = packet
  framed : frames = pieces.mapIdx fun part data => session.frame part pieces.length data
  fits : ∀ frame ∈ frames, frame.length ≤ max

theorem QuicSession.sent_of_send {max : Option Nat} {packet : Bytes}
    {frames : List Bytes} (h : session.send max packet = .ok frames) :
    packet.length ≤ 65535 ∧
      ∃ size pieces, max = some size ∧ Sent session size packet pieces frames := by
  unfold send at h
  split at h
  · cases h
  rename_i hpacket
  refine ⟨by omega, ?_⟩
  cases max with
  | none => cases h
  | some size =>
    dsimp only at h
    rw [length_quicHeader] at h
    generalize hoverhead : (match session.protocol with | .hysteria2 => 8 | .tuic => 10) +
      session.address.length = overhead at h
    split at h
    · cases h
    split at h
    · cases h
    rename_i hroom hfew
    generalize hchunk : size - overhead = chunk at h hfew
    generalize htotal : (Nat.max packet.length 1 + chunk - 1) / chunk = total at h hfew
    have hpos : 0 < chunk := by omega
    have hceil : packet.length ≤ total * chunk ∧ 1 ≤ total := by
      have hdiv := Nat.div_add_mod (Nat.max packet.length 1 + chunk - 1) chunk
      have hmod := Nat.mod_lt (Nat.max packet.length 1 + chunk - 1) hpos
      have hleft : packet.length ≤ Nat.max packet.length 1 := Nat.le_max_left _ _
      have hright : 1 ≤ Nat.max packet.length 1 := Nat.le_max_right _ _
      rw [htotal, mul_comm] at hdiv
      refine ⟨by omega, ?_⟩
      rw [← htotal]
      exact Nat.div_pos (by omega) hpos
    have hlength := length_cut chunk total packet
    -- a piece up to the end of the packet, in the words of the source
    have hpiece (part : Nat) : (packet.drop (min (part * chunk) packet.length)).take
        (min (min (part * chunk) packet.length + chunk) packet.length -
          min (part * chunk) packet.length) = (packet.drop (part * chunk)).take chunk := by
      by_cases hin : part * chunk ≤ packet.length
      · rw [min_eq_left hin]
        refine take_eq_take_iff.mpr ?_
        rw [length_drop]
        omega
      · rw [drop_of_length_le (by omega), drop_of_length_le (by omega), take_nil, take_nil]
    have hframes : frames = (cut chunk total packet).mapIdx fun part data =>
        session.frame part total data := by
      rw [← Except.ok.inj h]
      refine ext_getElem (by rw [length_map, length_range,
        length_mapIdx, hlength]) fun part h₁ h₂ => ?_
      simp [cut, hpiece]
    refine ⟨size, cut chunk total packet, rfl, ⟨by omega, by omega⟩, flatten_cut hceil.1,
      by rw [hlength]; exact hframes, fun frame hframe => ?_⟩
    rw [hframes] at hframe
    obtain ⟨part, hpart, rfl⟩ := mem_mapIdx.mp hframe
    rw [frame, length_append, length_quicHeader, hoverhead]
    have hsmall : (cut chunk total packet)[part].length ≤ chunk := by
      simp [cut]
    omega

end Sockrocket
