import Sockrocket.Lib.AsyncIo
import Sockrocket.Lib.Run
import Sockrocket.Proxy.Bytes

/-!
# Datagrams over a stream

`proxy/stream_datagram.rs`: a packet is written to a stream as a frame, in several writes that may
each take long. The caller may drop the call at any of them, and a frame torn that way would make the
server read every later byte wrongly. `poisoned` is set before the first write and cleared after the
last flush, under the lock of the writer, so a torn frame stays the last.

A call in progress is what it still has to write. Calls that wait for the lock have no part in the
state: dropped there, they leave nothing behind.
-/

namespace Sockrocket

open Rust Dns AsyncIo Transition Option
open List hiding utf8Encode

/-- `Framing`. -/
inductive Framing where
  | length16
  | xudp (address : Bytes)
  | trojan (address : Bytes)
  | nativeChunks (max : Nat)
deriving DecidableEq, Repr

/-- The address of a Trojan request, as `connect_datagram` cuts it from `build_trojan_request`. -/
def trojanAddress (host : Str) (port : Nat) : Except Str Bytes :=
  match parseIp host with
  | some (.v4 ip) => .ok ([1] ++ ip.octets.map UInt8.ofNat ++ be16 port)
  | some (.v6 ip) => .ok ([4] ++ ipv6Octets ip ++ be16 port)
  | none =>
    if (utf8Encode host).length ≤ 255 then
      .ok ([3, UInt8.ofNat (utf8Encode host).length] ++ utf8Encode host ++ be16 port)
    else
      .error ("Domain name too long for Trojan: ".toList ++ decimal (utf8Encode host).length ++
        " bytes (max 255)".toList)

/-! ## Sending -/

/-- What a call has to do: `status` stands for the five bytes of an XUDP header that depend on
`request_started` at the time. -/
inductive WritePart where
  | bytes (bytes : Bytes)
  | status
  | flush
deriving DecidableEq, Repr

/-- The writes of `send`, in order. -/
def Framing.parts (framing : Framing) (packet : Bytes) : List WritePart :=
  match framing with
  | .length16 => [.bytes (be16 packet.length), .bytes packet, .flush]
  | .xudp address =>
    [.bytes (be16 (5 + address.length)), .status, .bytes address, .bytes (be16 packet.length),
      .bytes packet, .flush]
  | .trojan address =>
    [.bytes address, .bytes (be16 packet.length), .bytes [13, 10], .bytes packet, .flush]
  | .nativeChunks _ => [.bytes packet, .flush]

/-- The bytes an XUDP header has for its status. -/
def statusBytes (started : Bool) : Bytes :=
  [0, 0, if started then 2 else 1, 1, 2]

/-- How a call to `send` ended: `broken` if it failed or was dropped after it took the stream. -/
inductive SendOutcome where
  | sent (packet : Bytes)
  | broken
  | refused (message : Str)
deriving DecidableEq, Repr

/-- The writer with the bytes that went out, the call that holds its lock and the calls that
ended. -/
structure DatagramState where
  poisoned : Bool
  requestStarted : Bool
  stream : Bytes
  holder : Option (Bytes × List WritePart)
  outcomes : List SendOutcome
deriving DecidableEq, Repr

/-- `StreamDatagram::boxed`. -/
def DatagramState.new : DatagramState :=
  ⟨false, false, [], none, []⟩

/-- The steps: a call that gets the lock, a write of some bytes, a write or flush that fails, the last
flush, the drop of the call in progress. -/
inductive DatagramStep where
  | send (packet : Bytes)
  | write (size : Nat)
  | fail
  | flushed
  | cancel
deriving DecidableEq, Repr

namespace DatagramState

/-- End of a call. -/
def finish (state : DatagramState) (outcome : SendOutcome) : DatagramState :=
  { state with holder := none, outcomes := state.outcomes ++ [outcome] }

/-- The checks of `send` before it asks for the lock. -/
def checkSize (framing : Framing) (packet : Bytes) : Except Str Unit :=
  if 65535 < packet.length then .error "UDP payload too large".toList
  else
    match framing with
    | .nativeChunks max =>
      if packet ≠ [] ∧ packet.length ≤ max then .ok ()
      else .error "VMess UDP packet exceeds negotiated chunk size or is empty".toList
    | _ => .ok ()

/-- One step, `none` if it is not the turn of the step. -/
def apply (framing : Framing) (state : DatagramState) : DatagramStep → Option DatagramState
  | .send packet =>
    match checkSize framing packet, state.holder with
    | .error message, _ =>
      some { state with outcomes := state.outcomes ++ [.refused message] }
    | .ok (), some _ => none
    | .ok (), none =>
      if state.poisoned then
        some (state.finish (.refused "Previous UDP frame write was cancelled".toList))
      else
        some { state with poisoned := true, holder := some (packet, framing.parts packet) }
  | .write size =>
    match state.holder with
    | some (packet, .bytes bytes :: parts) =>
      let count := min (max 1 size) bytes.length
      let rest := bytes.drop count
      some { state with
        stream := state.stream ++ bytes.take count
        holder := some (packet, if rest = [] then parts else .bytes rest :: parts) }
    | some (packet, .status :: parts) =>
      some { state with
        requestStarted := true
        holder := some (packet, .bytes (statusBytes state.requestStarted) :: parts) }
    | _ => none
  | .fail | .cancel =>
    match state.holder with
    | some _ => some (state.finish .broken)
    | none => none
  | .flushed =>
    match state.holder with
    | some (packet, [.flush]) => some ({ state with poisoned := false }.finish (.sent packet))
    | _ => none

end DatagramState

/-- The transition relation. -/
def DatagramMoves (framing : Framing) (state : DatagramState) (step : DatagramStep)
    (next : DatagramState) : Prop :=
  state.apply framing step = some next

/-! ## Reading -/

/-- `read_exact` with the error of an early end. -/
def readBytes (n : Nat) (chunks : List Bytes) : Except Str (Bytes × List Bytes) :=
  match readExact n chunks with
  | some result => .ok result
  | none => .error "early eof".toList

/-- `ensure!`. -/
def ensure (condition : Bool) (message : String) : Except Str Unit :=
  if condition then .ok () else .error message.toList

/-- The checks on an XUDP header. -/
def checkXudp (header : Bytes) : Except Str Unit := do
  ensure (header.take 2 == [0, 0]) "Unexpected XUDP session"
  ensure (2 ≤ byteAt header 2 && byteAt header 2 ≤ 4 && byteAt header 3 / 4 == 0 &&
    byteAt header 3 &&& 2 == 0) "XUDP session closed or invalid status"
  ensure (byteAt header 2 != 3) "XUDP session ended"
  if 4 < header.length then do
    ensure (8 ≤ header.length && byteAt header 4 == 2) "Invalid XUDP address"
    let address := header.drop 5
    let length ← match byteAt address 2 with
      | 1 => pure 7
      | 3 => pure 19
      | 2 => do
          ensure (4 ≤ address.length) "Invalid XUDP domain"
          pure (4 + byteAt address 3)
      | _ => .error "Invalid XUDP address family".toList
    ensure (address.length == length) "Invalid XUDP address length"

/-- The loop of `read_packet` over XUDP frames without data, of six bytes or more each. -/
def readXudp : Nat → List Bytes → Except Str (Bytes × List Bytes)
  | 0, _ => .error "early eof".toList
  | turns + 1, chunks => do
      let (size, chunks) ← readBytes 2 chunks
      ensure (4 ≤ u16At size 0 && u16At size 0 ≤ 512) "Invalid XUDP header length"
      let (header, chunks) ← readBytes (u16At size 0) chunks
      checkXudp header
      if byteAt header 3 &&& 1 = 0 then readXudp turns chunks
      else do
        let (size, chunks) ← readBytes 2 chunks
        readBytes (u16At size 0) chunks

/-- The address in front of a Trojan packet. -/
def skipTrojanAddress (chunks : List Bytes) : Except Str (List Bytes) := do
  let (kind, chunks) ← readBytes 1 chunks
  let (count, chunks) ← match byteAt kind 0 with
    | 1 => pure (4, chunks)
    | 4 => pure (16, chunks)
    | 3 => do
        let (length, chunks) ← readBytes 1 chunks
        pure (byteAt length 0, chunks)
    | _ => .error "Invalid Trojan UDP address".toList
  let (_, chunks) ← readBytes (count + 2) chunks
  pure chunks

/-- `read_packet`, on what of the stream has arrived and will arrive. -/
def readPacket (framing : Framing) (chunks : List Bytes) : Except Str (Bytes × List Bytes) :=
  match framing with
  | .length16 => do
      let (length, chunks) ← readBytes 2 chunks
      readBytes (u16At length 0) chunks
  | .trojan _ => do
      let chunks ← skipTrojanAddress chunks
      let (length, chunks) ← readBytes 2 chunks
      let (crlf, chunks) ← readBytes 2 chunks
      ensure (crlf == [13, 10]) "Invalid Trojan UDP delimiter"
      readBytes (u16At length 0) chunks
  | .xudp _ => readXudp (chunks.flatten.length + 1) chunks
  | .nativeChunks max =>
    match chunks with
    | (a :: chunk) :: chunks =>
      let rest := (a :: chunk).drop (max + 16)
      .ok ((a :: chunk).take (max + 16), if rest = [] then chunks else rest :: chunks)
    | _ => .error "UDP stream closed".toList

/-- The receiving task, for as many packets. -/
def readPackets (framing : Framing) : Nat → List Bytes → Except Str (List Bytes × List Bytes)
  | 0, chunks => .ok ([], chunks)
  | n + 1, chunks => do
      let (packet, chunks) ← readPacket framing chunks
      let (packets, chunks) ← readPackets framing n chunks
      pure (packet :: packets, chunks)

/-! ## Frames -/

/-- The bytes of the parts that are still to be written. -/
def render (started : Bool) : List WritePart → Bytes
  | [] => []
  | .bytes bytes :: parts => bytes ++ render started parts
  | .status :: parts => statusBytes started ++ render started parts
  | .flush :: parts => render started parts

/-- The frame of a packet. -/
def Framing.frame (framing : Framing) (started : Bool) (packet : Bytes) : Bytes :=
  render started (framing.parts packet)

/-- The frames of packets one after the other. -/
def Framing.frames (framing : Framing) (started : Bool) : List Bytes → Bytes
  | [] => []
  | packet :: packets => framing.frame started packet ++ framing.frames true packets

/-- The packets of the calls that succeeded. -/
def sentPackets (outcomes : List SendOutcome) : List Bytes :=
  outcomes.filterMap fun
    | .sent packet => some packet
    | _ => none

theorem render_congr {parts : List WritePart} (h : .status ∉ parts) (a b : Bool) :
    render a parts = render b parts := by
  induction parts with
  | nil => rfl
  | cons part parts ih =>
    have hrest := ih fun hmem => h (mem_cons_of_mem _ hmem)
    cases part with
    | bytes bytes => exact congrArg (bytes ++ ·) hrest
    | status => exact absurd mem_cons_self h
    | flush => exact hrest

theorem frames_concat (framing : Framing) (packets : List Bytes) (packet : Bytes) :
    framing.frames false (packets ++ [packet]) =
      framing.frames false packets ++ framing.frame (!packets.isEmpty) packet := by
  have htrue : ∀ packets : List Bytes, framing.frames true (packets ++ [packet]) =
      framing.frames true packets ++ framing.frame true packet := by
    intro packets
    induction packets with
    | nil => exact append_nil _
    | cons first packets ih =>
      show framing.frame true first ++ framing.frames true (packets ++ [packet]) = _
      rw [ih, ← append_assoc]
      rfl
  cases packets with
  | nil => exact append_nil _
  | cons first packets =>
    show framing.frame false first ++ framing.frames true (packets ++ [packet]) = _
    rw [htrue, ← append_assoc]
    rfl

/-- The status is written once in a frame. -/
theorem count_status_parts (framing : Framing) (packet : Bytes) :
    (framing.parts packet).count .status ≤ 1 := by
  cases framing <;> simp [Framing.parts]

/-- A frame without a status does not depend on `request_started`. -/
theorem frame_congr {framing : Framing} {packet : Bytes}
    (h : .status ∉ framing.parts packet) (a b : Bool) (other : Bytes) :
    framing.frame a other = framing.frame b other := by
  refine render_congr ?_ a b
  cases framing <;> simp [Framing.parts] at h ⊢

theorem sentPackets_append (outcomes : List SendOutcome) (outcome : SendOutcome) :
    sentPackets (outcomes ++ [outcome]) =
      sentPackets outcomes ++ sentPackets [outcome] :=
  filterMap_append

/-! ## The invariant -/

namespace DatagramState

variable {framing : Framing} {sent : List Bytes} {state next : DatagramState}

/-- Whole frames are on the stream, and the next frame has the right status. -/
structure Idle (framing : Framing) (sent : List Bytes) (state : DatagramState) : Prop where
  healthy : state.poisoned = false
  unbroken : .broken ∉ state.outcomes
  stream : state.stream = framing.frames false sent
  started : ∀ packet,
    framing.frame state.requestStarted packet = framing.frame (!sent.isEmpty) packet

/-- Whole frames are on the stream and the part of another that the call in progress has written. -/
structure Holding (framing : Framing) (sent : List Bytes) (state : DatagramState) (packet : Bytes)
    (parts : List WritePart) : Prop where
  poisoned : state.poisoned = true
  unbroken : .broken ∉ state.outcomes
  stream : ∃ written, state.stream = framing.frames false sent ++ written ∧
    written ++ render state.requestStarted parts = framing.frame (!sent.isEmpty) packet
  once : parts.count .status ≤ 1
  started : .status ∉ parts →
    ∀ other, framing.frame state.requestStarted other = framing.frame true other

/-- Whole frames are on the stream and a torn one, the last. -/
structure Torn (framing : Framing) (sent : List Bytes) (state : DatagramState) : Prop where
  poisoned : state.poisoned = true
  stream : ∃ packet written, state.stream = framing.frames false sent ++ written ∧
    written <+: framing.frame (!sent.isEmpty) packet

/-- What holds of the stream, by the call in progress. -/
def Phase (framing : Framing) (sent : List Bytes) (state : DatagramState) : Prop :=
  match state.holder with
  | some (packet, parts) => state.Holding framing sent packet parts
  | none => state.Idle framing sent ∨ state.Torn framing sent

/-- A call that succeeded does not come after one that broke. -/
def Ordered (outcomes : List SendOutcome) : Prop :=
  outcomes.Pairwise fun first second => first = .broken → ∀ packet, second ≠ .sent packet

/-- The invariant of the writer. -/
structure Orderly (framing : Framing) (state : DatagramState) : Prop where
  ordered : Ordered state.outcomes
  phase : state.Phase framing (sentPackets state.outcomes)

variable {outcomes : List SendOutcome} {outcome : SendOutcome}

theorem Ordered.append (h : Ordered outcomes) (hlast : .broken ∈ outcomes → ∀ packet, outcome ≠ .sent packet) :
    Ordered (outcomes ++ [outcome]) := by
  refine pairwise_append.mpr ⟨h, pairwise_singleton _ _, ?_⟩
  intro first hfirst second hsecond
  obtain rfl := mem_singleton.mp hsecond
  rintro rfl
  exact hlast hfirst

theorem not_broken_append
    (h : .broken ∉ outcomes) (hlast : outcome ≠ .broken) :
    .broken ∉ outcomes ++ [outcome] := by
  intro hmem
  rcases mem_append.mp hmem with hmem | hmem
  · exact h hmem
  · exact hlast (mem_singleton.mp hmem).symm

/-- A refused call changes nothing but the list of calls. -/
theorem Orderly.refuse (h : state.Orderly framing) (message : Str) :
    ({ state with outcomes := state.outcomes ++ [.refused message] } : DatagramState).Orderly
      framing := by
  have hsent : sentPackets (state.outcomes ++ [.refused message]) =
      sentPackets state.outcomes := by
    rw [sentPackets_append]
    exact append_nil _
  have hrefused : SendOutcome.refused message ≠ .broken := nofun
  refine ⟨h.ordered.append nofun, ?_⟩
  rw [hsent]
  have hphase := h.phase
  unfold Phase at hphase ⊢
  cases hholder : state.holder with
  | some call =>
    rw [hholder] at hphase
    exact ⟨hphase.poisoned, not_broken_append hphase.unbroken hrefused, hphase.stream,
      hphase.once, hphase.started⟩
  | none =>
    rw [hholder] at hphase
    rcases hphase with hidle | htorn
    · exact .inl ⟨hidle.healthy, not_broken_append hidle.unbroken hrefused, hidle.stream,
        hidle.started⟩
    · exact .inr ⟨htorn.poisoned, htorn.stream⟩

variable {packet : Bytes}

variable {parts : List WritePart}

/-- A call that ends early leaves a torn frame. -/
theorem Holding.broken
    (h : state.Holding framing (sentPackets state.outcomes) packet parts)
    (hordered : Ordered state.outcomes) : (state.finish .broken).Orderly framing := by
  have hsent : sentPackets (state.outcomes ++ [.broken]) = sentPackets state.outcomes := by
    rw [sentPackets_append]
    exact append_nil _
  obtain ⟨written, hstream, hwritten⟩ := h.stream
  refine ⟨hordered.append nofun, ?_⟩
  show Phase framing (sentPackets (state.outcomes ++ [.broken])) _
  rw [hsent]
  exact .inr ⟨h.poisoned, packet, written, hstream, hwritten ▸ prefix_append _ _⟩

/-- The last flush completes the frame. -/
theorem Holding.flushed (h : state.Holding framing (sentPackets state.outcomes) packet [.flush])
    (hordered : Ordered state.outcomes) :
    (({ state with poisoned := false } : DatagramState).finish (.sent packet)).Orderly framing := by
  have hsent : sentPackets (state.outcomes ++ [.sent packet]) =
      sentPackets state.outcomes ++ [packet] :=
    sentPackets_append _ _
  obtain ⟨written, hstream, hwritten⟩ := h.stream
  refine ⟨hordered.append fun hbroken => absurd hbroken h.unbroken, ?_⟩
  show Phase framing (sentPackets (state.outcomes ++ [.sent packet])) _
  rw [hsent]
  refine .inl ⟨rfl, not_broken_append h.unbroken nofun, ?_, fun other => ?_⟩
  · show state.stream = _
    rw [frames_concat, hstream, ← hwritten]
    exact congrArg _ (append_nil written).symm
  · rw [show (!(sentPackets state.outcomes ++ [packet]).isEmpty) = true by simp]
    exact h.started (by simp) other

/-- A write moves bytes from what is to be written to the stream. -/
theorem Holding.write {bytes : Bytes} {rest : List WritePart}
    (h : state.Holding framing sent packet (.bytes bytes :: parts)) {count : Nat}
    (hrest : rest = if bytes.drop count = [] then parts else .bytes (bytes.drop count) :: parts)
    (holder : Option (Bytes × List WritePart)) :
    Holding framing sent { state with
      stream := state.stream ++ bytes.take count
      holder := holder } packet rest := by
  obtain ⟨written, hstream, hwritten⟩ := h.stream
  have hrender : bytes.take count ++ render state.requestStarted rest =
      bytes ++ render state.requestStarted parts := by
    rw [hrest]
    split
    · rename_i hdone
      exact congrArg (· ++ _) (take_of_length_le (drop_eq_nil_iff.mp hdone))
    · show _ ++ (bytes.drop count ++ render state.requestStarted parts) = _
      rw [← append_assoc, take_append_drop]
  have hcount : rest.count .status = parts.count .status := by
    rw [hrest]
    split
    · rfl
    · exact count_cons_of_ne (fun heq => by cases heq)
  have hcount' : (WritePart.bytes bytes :: parts).count .status = parts.count .status :=
    count_cons_of_ne (fun heq => by cases heq)
  refine ⟨h.poisoned, h.unbroken, ⟨written ++ bytes.take count, ?_, ?_⟩, ?_, fun hnot => ?_⟩
  · show state.stream ++ _ = _
    rw [hstream, append_assoc]
  · rw [append_assoc, hrender]
    exact hwritten
  · rw [hcount, ← hcount']
    exact h.once
  · refine h.started (count_eq_zero.mp ?_)
    rw [hcount', ← hcount]
    exact count_eq_zero.mpr hnot

/-- The status of the frame is settled when its header comes. -/
theorem Holding.status
    (h : state.Holding framing sent packet (.status :: parts))
    (holder : Option (Bytes × List WritePart)) :
    Holding framing sent { state with requestStarted := true, holder := holder } packet
      (.bytes (statusBytes state.requestStarted) :: parts) := by
  have hlast : .status ∉ parts := by
    have honce := h.once
    rw [count_cons_self] at honce
    exact count_eq_zero.mp (by omega)
  obtain ⟨written, hstream, hwritten⟩ := h.stream
  refine ⟨h.poisoned, h.unbroken, ⟨written, hstream, ?_⟩, ?_, fun _ other => rfl⟩
  · rw [← hwritten]
    show written ++ (_ ++ render true parts) = written ++ (_ ++ render state.requestStarted parts)
    rw [render_congr hlast true state.requestStarted]
  · rw [count_cons_of_ne (fun heq => by cases heq), count_eq_zero.mpr hlast]
    exact Nat.zero_le 1

/-- A call that gets the stream has its whole frame to write. -/
theorem Idle.send (h : state.Idle framing sent) (packet : Bytes)
    (holder : Option (Bytes × List WritePart)) :
    Holding framing sent { state with poisoned := true, holder := holder } packet
      (framing.parts packet) := by
  refine ⟨rfl, h.unbroken, ⟨[], ?_, h.started packet⟩, count_status_parts framing packet,
    fun hnot other => frame_congr hnot _ _ other⟩
  rw [append_nil]
  exact h.stream

/-- Every step keeps the invariant. -/
theorem Orderly.step (h : state.Orderly framing) {step : DatagramStep}
    (hmove : DatagramMoves framing state step next) : next.Orderly framing := by
  have hphase := h.phase
  unfold Phase at hphase
  unfold DatagramMoves apply at hmove
  cases step with
  | send packet =>
    dsimp only at hmove
    split at hmove
    · obtain rfl := some.inj hmove
      exact h.refuse _
    · cases hmove
    rename_i hholder
    rw [hholder] at hphase
    split at hmove
    · obtain rfl := some.inj hmove
      have hrefused := h.refuse "Previous UDP frame write was cancelled".toList
      rw [finish, ← hholder]
      exact hrefused
    · rename_i hhealthy
      obtain rfl := some.inj hmove
      rcases hphase with hidle | htorn
      · exact ⟨h.ordered, hidle.send packet _⟩
      · exact absurd htorn.poisoned hhealthy
  | write size =>
    dsimp only at hmove
    split at hmove
    · rename_i packet bytes parts hholder
      rw [hholder] at hphase
      obtain rfl := some.inj hmove
      exact ⟨h.ordered, hphase.write rfl _⟩
    · rename_i packet parts hholder
      rw [hholder] at hphase
      obtain rfl := some.inj hmove
      exact ⟨h.ordered, hphase.status _⟩
    · cases hmove
  | fail | cancel =>
    dsimp only at hmove
    split at hmove
    · rename_i call hholder
      rw [hholder] at hphase
      obtain rfl := some.inj hmove
      exact Holding.broken hphase h.ordered
    · cases hmove
  | flushed =>
    dsimp only at hmove
    split at hmove
    · rename_i packet hholder
      rw [hholder] at hphase
      obtain rfl := some.inj hmove
      exact Holding.flushed hphase h.ordered
    · cases hmove

/-- The invariant along runs. -/
theorem Orderly.run {steps : List DatagramStep}
    (hrun : Run (DatagramMoves framing) DatagramState.new steps state) : state.Orderly framing := by
  refine hrun.invariant (Orderly framing) ?_ fun s e t hs hstep => hs.step hstep
  refine ⟨List.Pairwise.nil, .inl ⟨rfl, not_mem_nil, rfl, fun packet => rfl⟩⟩

/-- Only packets of at most 65535 bytes are written. -/
structure Bounded (state : DatagramState) : Prop where
  sent : ∀ packet ∈ sentPackets state.outcomes, packet.length ≤ 65535
  holder : ∀ packet parts, state.holder = some (packet, parts) → packet.length ≤ 65535

theorem length_of_checkSize (h : checkSize framing packet = .ok ()) :
    packet.length ≤ 65535 := by
  unfold checkSize at h
  split at h
  · cases h
  · rename_i hlength
    exact not_lt.mp hlength

theorem Bounded.finish (h : state.Bounded)
    (hlast : ∀ packet, outcome = .sent packet → packet.length ≤ 65535) :
    ∀ packet ∈ sentPackets (state.outcomes ++ [outcome]), packet.length ≤ 65535 := by
  intro packet hmem
  rw [sentPackets_append] at hmem
  rcases mem_append.mp hmem with hmem | hmem
  · exact h.sent packet hmem
  cases outcome with
  | sent last =>
    obtain rfl := mem_singleton.mp hmem
    exact hlast packet rfl
  | broken | refused message => cases hmem

theorem Bounded.step (h : state.Bounded) {step : DatagramStep}
    (hmove : DatagramMoves framing state step next) : next.Bounded := by
  unfold DatagramMoves apply at hmove
  cases step with
  | send packet =>
    dsimp only at hmove
    split at hmove
    · obtain rfl := some.inj hmove
      exact ⟨h.finish nofun, h.holder⟩
    · cases hmove
    rename_i hsize hholder
    split at hmove
    · obtain rfl := some.inj hmove
      exact ⟨h.finish nofun, nofun⟩
    obtain rfl := some.inj hmove
    refine ⟨h.sent, fun packet parts hcall => ?_⟩
    obtain ⟨rfl, -⟩ := Prod.mk.inj (some.inj hcall)
    exact length_of_checkSize hsize
  | write size =>
    dsimp only at hmove
    split at hmove
    · rename_i hholder
      obtain rfl := some.inj hmove
      refine ⟨h.sent, fun packet parts hcall => ?_⟩
      obtain ⟨rfl, -⟩ := Prod.mk.inj (some.inj hcall)
      exact h.holder _ _ hholder
    · rename_i hholder
      obtain rfl := some.inj hmove
      refine ⟨h.sent, fun packet parts hcall => ?_⟩
      obtain ⟨rfl, -⟩ := Prod.mk.inj (some.inj hcall)
      exact h.holder _ _ hholder
    · cases hmove
  | fail | cancel =>
    dsimp only at hmove
    split at hmove
    · obtain rfl := some.inj hmove
      exact ⟨h.finish nofun, nofun⟩
    · cases hmove
  | flushed =>
    dsimp only at hmove
    split at hmove
    · rename_i packet hholder
      obtain rfl := some.inj hmove
      refine ⟨h.finish fun last heq => ?_, nofun⟩
      obtain rfl := SendOutcome.sent.inj heq
      exact h.holder _ _ hholder
    · cases hmove

theorem Bounded.run {steps : List DatagramStep}
    (hrun : Run (DatagramMoves framing) DatagramState.new steps state) : state.Bounded := by
  refine hrun.invariant Bounded ⟨?_, ?_⟩ fun s e t hs hstep => hs.step hstep
  · exact nofun
  · exact nofun

end DatagramState

/-! ## Reading back -/

/-- The rest of the stream, in chunks. -/
structure CutInto (chunks : List Bytes) (bytes : Bytes) : Prop where
  nonempty : ∀ chunk ∈ chunks, chunk ≠ []
  flatten : chunks.flatten = bytes

variable {tail : Bytes} {chunks : List Bytes}

theorem readBytes_append (bytes : Bytes) {n : Nat} (h : CutInto chunks (bytes ++ tail))
    (hn : bytes.length = n) :
    ∃ rest, readBytes n chunks = .ok (bytes, rest) ∧ CutInto rest tail := by
  subst hn
  obtain ⟨rest, hread, hne, hflat⟩ := readExact_append h.nonempty h.flatten
  refine ⟨rest, ?_, hne, hflat⟩
  rw [readBytes, hread]

/-- The part of an address behind its type and length. -/
theorem readBytes_address {body : Bytes} {port count : Nat}
    (h : CutInto chunks (body ++ be16 port ++ tail)) (hcount : body.length = count) :
    ∃ rest, readBytes (count + 2) chunks = .ok (body ++ be16 port, rest) ∧ CutInto rest tail :=
  readBytes_append _ h (by rw [length_append, hcount]; rfl)

/-- An address as the request has it is read to its end. -/
theorem skipTrojanAddress_append {host : Str} {port : Nat} {address : Bytes}
    (haddress : trojanAddress host port = .ok address) (h : CutInto chunks (address ++ tail)) :
    ∃ rest, skipTrojanAddress chunks = .ok rest ∧ CutInto rest tail := by
  unfold trojanAddress at haddress
  unfold skipTrojanAddress
  split at haddress
  · rename_i ip hip
    obtain rfl := Except.ok.inj haddress
    change CutInto chunks ([1] ++ (ip.octets.map UInt8.ofNat ++ be16 port ++ tail)) at h
    obtain ⟨rest, hkind, h⟩ := readBytes_append [1] h (show _ = 1 from rfl)
    obtain ⟨rest', hbody, h⟩ := readBytes_address h (show _ = 4 from rfl)
    refine ⟨rest', ?_, h⟩
    rw [hkind]
    show (readBytes (4 + 2) rest >>= _) = _
    rw [hbody]
    rfl
  · rename_i ip hip
    obtain rfl := Except.ok.inj haddress
    obtain ⟨rest, hkind, h⟩ := readBytes_append [4] h (show _ = 1 from rfl)
    obtain ⟨rest', hbody, h⟩ := readBytes_address h (length_ipv6Octets ip)
    refine ⟨rest', ?_, h⟩
    rw [hkind]
    show (readBytes (16 + 2) rest >>= _) = _
    rw [hbody]
    rfl
  · split at haddress
    · rename_i hname
      obtain rfl := Except.ok.inj haddress
      change CutInto chunks ([3] ++ ([UInt8.ofNat (utf8Encode host).length] ++
        (utf8Encode host ++ be16 port ++ tail))) at h
      obtain ⟨rest, hkind, h⟩ := readBytes_append [3] h (show _ = 1 from rfl)
      obtain ⟨rest', hsize, h⟩ := readBytes_append _ h (show _ = 1 from rfl)
      obtain ⟨rest'', hbody, h⟩ := readBytes_address h rfl
      refine ⟨rest'', ?_, h⟩
      have hlength : byteAt [UInt8.ofNat (utf8Encode host).length] 0 = (utf8Encode host).length := by
        show (UInt8.ofNat (utf8Encode host).length).toNat = _
        rw [UInt8.toNat_ofNat']
        omega
      rw [hkind]
      show (readBytes 1 rest >>= _) = _
      rw [hsize]
      show (readBytes (byteAt [UInt8.ofNat (utf8Encode host).length] 0 + 2) rest' >>= _) = _
      rw [hlength, hbody]
      rfl
    · cases haddress

/-- The framings whose packets `read_packet` is claimed to give back. -/
def Framing.Plain (framing : Framing) : Prop :=
  framing = .length16 ∨
    ∃ host port address, trojanAddress host port = .ok address ∧ framing = .trojan address

variable {started : Bool}

/-- A frame is read as its packet. -/
theorem readPacket_frame {framing : Framing} (hplain : framing.Plain)
    {packet : Bytes} (hpacket : packet.length ≤ 65535)
    (h : CutInto chunks (framing.frame started packet ++ tail)) :
    ∃ rest, readPacket framing chunks = .ok (packet, rest) ∧ CutInto rest tail := by
  have hlength : u16At (be16 packet.length) 0 = packet.length := u16At_be16 (by omega)
  rcases hplain with rfl | ⟨host, port, address, haddress, rfl⟩
  · have hframe : Framing.length16.frame started packet ++ tail =
        be16 packet.length ++ (packet ++ tail) := by
      simp [Framing.frame, Framing.parts, render]
    rw [hframe] at h
    obtain ⟨rest, hsize, h⟩ := readBytes_append _ h (show _ = 2 from rfl)
    obtain ⟨rest', hbody, h⟩ := readBytes_append _ h rfl
    refine ⟨rest', ?_, h⟩
    show (readBytes 2 chunks >>= _) = _
    rw [hsize]
    show readBytes (u16At (be16 packet.length) 0) rest = _
    rw [hlength, hbody]
  · have hframe : (Framing.trojan address).frame started packet ++ tail =
        address ++ (be16 packet.length ++ ([13, 10] ++ (packet ++ tail))) := by
      simp [Framing.frame, Framing.parts, render]
    rw [hframe] at h
    obtain ⟨rest, hskip, h⟩ := skipTrojanAddress_append haddress h
    obtain ⟨rest', hsize, h⟩ := readBytes_append _ h (show _ = 2 from rfl)
    obtain ⟨rest'', hcrlf, h⟩ := readBytes_append _ h (show _ = 2 from rfl)
    obtain ⟨last, hbody, h⟩ := readBytes_append _ h rfl
    refine ⟨last, ?_, h⟩
    show (skipTrojanAddress chunks >>= _) = _
    rw [hskip]
    show (readBytes 2 rest >>= _) = _
    rw [hsize]
    show (readBytes 2 rest' >>= _) = _
    rw [hcrlf]
    show readBytes (u16At (be16 packet.length) 0) rest'' = _
    rw [hlength, hbody]

/-- Frames are read as their packets, in order. -/
theorem readPackets_frames {framing : Framing} (hplain : framing.Plain) (packets : List Bytes)
    (hpackets : ∀ packet ∈ packets, packet.length ≤ 65535)
    (h : CutInto chunks (framing.frames started packets ++ tail)) :
    ∃ rest, readPackets framing packets.length chunks = .ok (packets, rest) ∧
      CutInto rest tail := by
  induction packets generalizing started chunks with
  | nil => exact ⟨chunks, rfl, h⟩
  | cons packet packets ih =>
    rw [Framing.frames, append_assoc] at h
    obtain ⟨rest, hfirst, h⟩ := readPacket_frame hplain (hpackets packet mem_cons_self) h
    obtain ⟨rest', hrest, h⟩ := ih (fun p hp => hpackets p (mem_cons_of_mem _ hp)) h
    refine ⟨rest', ?_, h⟩
    show (readPacket framing chunks >>= _) = _
    rw [hfirst]
    show (readPackets framing packets.length rest >>= _) = _
    rw [hrest]
    rfl

/-- In every run of calls that complete, fail or are dropped anywhere, the stream carries the frames
of the packets that were sent and then at most a part of one frame; no call succeeds after one that
broke; and the frames are read back as the packets, however they arrive. -/
theorem datagram_framing (framing : Framing) {steps : List DatagramStep} {state : DatagramState}
    (hrun : Run (DatagramMoves framing) DatagramState.new steps state) :
    (∃ packet torn, state.stream =
        framing.frames false (sentPackets state.outcomes) ++ torn ∧
        torn <+: framing.frame (!(sentPackets state.outcomes).isEmpty) packet) ∧
      (∀ (i j : Nat) (packet : Bytes), i < j → state.outcomes[i]? = some .broken →
        state.outcomes[j]? ≠ some (.sent packet)) ∧
      (framing.Plain → ∀ chunks tail,
        CutInto chunks (framing.frames false (sentPackets state.outcomes) ++ tail) →
        ∃ rest, readPackets framing (sentPackets state.outcomes).length chunks =
          .ok (sentPackets state.outcomes, rest) ∧ CutInto rest tail) := by
  have horderly := DatagramState.Orderly.run hrun
  have hbounded := DatagramState.Bounded.run hrun
  refine ⟨?_, fun i j packet hij hbroken hsent => ?_, fun hplain chunks tail h =>
    readPackets_frames hplain _ hbounded.sent h⟩
  · have hphase := horderly.phase
    unfold DatagramState.Phase at hphase
    split at hphase
    · rename_i packet parts hholder
      obtain ⟨written, hstream, hwritten⟩ := hphase.stream
      exact ⟨packet, written, hstream, hwritten ▸ prefix_append _ _⟩
    · rcases hphase with hidle | htorn
      · exact ⟨[], [], by rw [append_nil]; exact hidle.stream, nil_prefix⟩
      · exact htorn.stream
  · obtain ⟨hi, hfirst⟩ := List.getElem?_eq_some_iff.mp hbroken
    obtain ⟨hj, hsecond⟩ := List.getElem?_eq_some_iff.mp hsent
    exact pairwise_iff_getElem.mp horderly.ordered i j hi hj hij hfirst packet hsecond

/-- Two packets, the second one cut short: the first is read back from the stream. -/
theorem datagram_framing_cut :
    ∃ steps state, Run (DatagramMoves .length16) DatagramState.new steps state ∧
      state.stream = [0, 1, 7, 0] ∧
      ∃ rest, readPackets .length16 1 [[0], [1, 7, 0]] = .ok ([[7]], rest) := by
  have hrun := Run.of_foldlM (DatagramState.apply .length16)
    (show [DatagramStep.send [7], .write 1, .write 9, .write 1, .flushed, .send [8, 9], .write 1,
      .cancel].foldlM (DatagramState.apply .length16) DatagramState.new =
      some ⟨true, false, [0, 1, 7, 0], none, [.sent [7], .broken]⟩ by decide)
  obtain ⟨-, -, hread⟩ := datagram_framing .length16 hrun
  have harrives : CutInto [[0], [1, 7, 0]] ([0, 1, 7] ++ [0]) := ⟨by decide, rfl⟩
  obtain ⟨rest, hrest, -⟩ := hread (.inl rfl) [[0], [1, 7, 0]] [0] harrives
  exact ⟨_, _, hrun, rfl, rest, hrest⟩

end Sockrocket
