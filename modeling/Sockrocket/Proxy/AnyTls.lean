import Sockrocket.Proxy.AnyTlsSession

/-!
# AnyTLS streams and their sessions

The rest of `proxy/anytls/mod.rs`. A session carries one stream after the other over a TLS
connection. A client opens a stream on an idle session, if there is one, and on a new one otherwise;
when the stream is dropped, a finalizer tells the server and gives the session back, and a reaper
reads what arrives at idle sessions and closes those that are too old.

A client is what its calls and tasks share, with the sessions that each of them holds. An action is
one poll of one of them, under the lock that the source takes for it. Making a connection can fail
at any time, so the permits that bound the number of sessions are left out.
-/

namespace Sockrocket

open Rust Dns AsyncIo

/-- `IDLE_LIMIT`. -/
def idleLimit : Nat := 4

/-- `IDLE_TTL`, in milliseconds. -/
def idleTtl : Nat := 30000

/-- `MAX_PAYLOAD`. -/
def maxPayload : Nat := 16 * 1024

/-- `char::is_control`. -/
def isControl (c : Char) : Bool :=
  c.toNat < 32 || (127 ≤ c.toNat && c.toNat < 160)

/-- `socks_address`. -/
def socksAddress (host : Str) (port : UInt16) : Option Bytes :=
  if host.isEmpty || host.any (fun c => isControl c || isWhitespace c) then none
  else
    match parseIp host with
    | some (.v4 ip) => some (1 :: ip.octets.map UInt8.ofNat ++ be16 port.toNat)
    | some (.v6 ip) => some (4 :: ipv6Octets ip ++ be16 port.toNat)
    | none =>
      if 255 < len host then none
      else some ([3, UInt8.ofNat (len host)] ++ utf8Encode host ++ be16 port.toNat)

/-- The destinations of `connect` and of `connect_datagram`. -/
inductive AnyTlsTarget where
  | stream (host : Str) (port : UInt16)
  | datagram (host : Str) (port : UInt16)
deriving DecidableEq, Repr

/-- The first data of a stream: the address, and the bytes that follow it. -/
def AnyTlsTarget.address : AnyTlsTarget → Option Bytes
  | .stream host port => socksAddress host port
  | .datagram host port => do
      let request ← socksAddress host port
      let address ← socksAddress "sp.v2.udp-over-tcp.arpa".toList 0
      some (address ++ 1 :: request)

namespace AnyTlsSession

/-! ## Reading frames -/

/-- The loops of `poll_frame`: read until there are so many bytes. -/
def fillLoop (want : Nat) : List Behaviour → Bytes → AnyTlsRaw →
    AnyTlsPoll Unit × Bytes × AnyTlsRaw × List Behaviour
  | [], got, raw => (if got.length < want then none else some (.ok ()), got, raw, [])
  | turn :: turns, got, raw =>
    if got.length < want then
      match turn.read raw.incoming (want - got.length) with
      | (.pending, _) => (none, got, raw, turns)
      | (.failed, _) => (some (.error .io), got, raw, turns)
      | (.ready bytes, incoming) =>
        if bytes.isEmpty then (some (.error .unexpectedEof), got, raw, turns)
        else fillLoop want turns (got ++ bytes)
          { raw with taken := raw.taken ++ bytes, incoming }
    else (some (.ok ()), got, raw, turn :: turns)

/-- `Session::poll_frame`. -/
def pollFrame (s : AnyTlsSession) (turns : List Behaviour) :
    AnyTlsPoll (UInt8 × Nat × Bytes) × AnyTlsSession × List Behaviour :=
  match fillLoop 7 turns s.header s.raw with
  | (none, header, raw, turns) => (none, { s with header, raw }, turns)
  | (some (.error e), header, raw, turns) =>
    (some (.error e), { s.note .failed with header, raw }, turns)
  | (some (.ok ()), header, raw, turns) =>
    match fillLoop (u16At header 5) turns s.body raw with
    | (none, body, raw, turns) => (none, { s with header, body, raw }, turns)
    | (some (.error e), body, raw, turns) =>
      (some (.error e), { s.note .failed with header, body, raw }, turns)
    | (some (.ok ()), body, raw, turns) =>
      (some (.ok (header.getD 0 0, u32At header 1, body)),
        { s.note (.received (header.getD 0 0) (u32At header 1) body) with
          header := [], body := [], raw }, turns)

section Apply

variable (md5 : Bytes → Vector UInt8 16)

/-- The version in the settings of the server. -/
def serverVersion (text : Str) : Option Nat :=
  ((lines text).findSome? (stripPrefix "v=".toList)).bind (parseUnsigned (2 ^ 32 - 1))

/-- The match of `Session::apply`, with the random numbers for an answer. -/
def applyFrame (s : AnyTlsSession) (command : UInt8) (id : Nat) (data : Bytes)
    (random : Nat → Nat) : Except AnyTlsError AnyTlsSession :=
  if command = 0 then .ok s
  else if command = 2 ∧ id = s.id then
    if 65535 < s.content.length - s.contentPos + data.length then .error .earlyDataLimit
    else .ok { s with content := s.content.drop s.contentPos ++ data, contentPos := 0 }
  else if command = 3 ∧ id = s.id ∧ data = [] then .ok { s with peerFinished := true }
  else if command = 7 ∧ id = s.id then
    if data ≠ [] then .error (.destinationRejected data) else .ok { s with acked := true }
  else if (command = 2 ∨ command = 3 ∨ command = 7) ∧ 0 < id ∧ id < s.id then
    -- a late frame of a stream before
    .ok s
  else if command = 5 then .error (.sessionRejected data)
  else if command = 6 ∧ id = 0 then
    match Padding.parse md5 data with
    | .ok padding => .ok { s with padding }
    | .error _ => .error .invalidPaddingUpdate
  else if command = 8 ∧ data = [] then
    if 16 ≤ s.wire.length then .error .controlBacklog
    else .ok (s.queue (frame [] 9 id []) random)
  else if command = 9 ∧ data = [] then .ok s
  else if command = 10 ∧ id = 0 then
    match fromUtf8 data with
    | none => .error .invalidSettings
    | some text =>
      match serverVersion text with
      | none => .error .invalidVersion
      | some version => .ok { s with serverSettings := 2 ≤ version }
  else .error .unexpectedFrame

/-- `Session::apply`. -/
def apply (s : AnyTlsSession) (command : UInt8) (id : Nat) (data : Bytes) (random : Nat → Nat) :
    Except AnyTlsError Unit × AnyTlsSession :=
  match s.applyFrame md5 command id data random with
  | .ok s => (.ok (), s)
  | .error e => (.error e, s.note .failed)

-- The random numbers of one action, by the packet and the segment that they are drawn for.
variable (random : Nat → Nat → Nat)

/-- The turn that the loops of `poll_ready` and `poll_read` share: flush, read a frame, apply it. -/
def pollApply (s : AnyTlsSession) (turns : List Behaviour) :
    AnyTlsPoll Unit × AnyTlsSession × List Behaviour :=
  match s.pollFrame turns with
  | (none, s, turns) => (none, s, turns)
  | (some (.error e), s, turns) => (some (.error e), { s with healthy := false }, turns)
  | (some (.ok (command, id, data)), s, turns) =>
    match s.apply md5 command id data (random s.packet) with
    | (.error e, s) => (some (.error e), { s with healthy := false }, turns)
    | (.ok (), s) => (some (.ok ()), s, turns)

/-- The loop of `Session::poll_ready`. -/
def readyLoop : Nat → AnyTlsSession → List Behaviour →
    AnyTlsPoll Unit × AnyTlsSession × List Behaviour
  | 0, s, turns => (none, s, turns)
  | count + 1, s, turns =>
    match s.pollFlushWire turns with
    | (some (.error e), s, turns) => (some (.error e), s, turns)
    | (_, s, turns) =>
      if s.acked && s.serverSettings then (some (.ok ()), s, turns)
      else
        match s.pollApply md5 random turns with
        | (some (.ok ()), s, turns) =>
          if s.peerFinished then (some (.error .closedBeforeAck), s.breakDown, turns)
          else readyLoop count s turns
        | other => other

/-- `Session::poll_open_ready`. -/
def pollOpenReady (s : AnyTlsSession) (turns : List Behaviour) :
    AnyTlsPoll Unit × AnyTlsSession × List Behaviour :=
  if !s.serverSettings then (some (.ok ()), s, turns) else readyLoop md5 random 16 s turns

/-! ## Streams -/

/-- `CARGO_PKG_VERSION`. -/
def cargoPkgVersion : Str :=
  "0.1.0".toList

/-- The settings in the first request of a session. -/
def settings (padding : Padding) : Bytes :=
  utf8Encode ("v=2\nclient=sockrocket/".toList ++ cargoPkgVersion ++ "\npadding-md5=".toList ++
    padding.md5Text ++ "\n".toList)

/-- The request for a stream, on a session with its number. -/
def request (s : AnyTlsSession) (address : Bytes) : Bytes :=
  let settings := if s.id = 1 then frame [] 4 0 (settings s.padding) else []
  frame (frame settings 1 s.id []) 2 s.id address

/-- A stream with the next number. -/
def renumber (s : AnyTlsSession) : AnyTlsSession :=
  { s.note (.opened s.nextId) with
    id := s.nextId
    nextId := s.nextId + 1
    acked := false
    peerFinished := false
    localFinished := false
    content := []
    contentPos := 0 }

/-- The part of `open_initial` that puts a stream on a session. -/
def openStream (s : AnyTlsSession) (address : Bytes) : AnyTlsSession :=
  let s := s.renumber
  s.queue (s.request address) (random s.packet)

/-- The loop of `AnyTlsStream::poll_read`, for at most `room` bytes. -/
def readLoop (room : Nat) : Nat → AnyTlsSession → List Behaviour → AnyTlsPoll Bytes × AnyTlsSession
  | 0, s, _ => (none, s)
  | count + 1, s, turns =>
    if s.contentPos < s.content.length then
      let bytes := (s.content.drop s.contentPos).take (min room (s.content.length - s.contentPos))
      (some (.ok bytes),
        { s.note (.delivered bytes) with contentPos := s.contentPos + bytes.length })
    else
      let s := { s with content := [], contentPos := 0 }
      if s.peerFinished then (some (.ok []), s)
      else
        match s.pollFlushWire turns with
        | (some (.error e), s, _) => (some (.error e), s)
        | (_, s, turns) =>
          match s.pollApply md5 random turns with
          | (none, s, _) => (none, s)
          | (some (.error e), s, _) => (some (.error e), s)
          | (some (.ok ()), s, turns) => readLoop room count s turns

/-- `AnyTlsStream::poll_read`. -/
def pollRead (s : AnyTlsSession) (room : Nat) (turns : List Behaviour) :
    AnyTlsPoll Bytes × AnyTlsSession :=
  if room = 0 then (some (.ok []), s) else readLoop md5 random room 16 s turns

/-- `AnyTlsStream::poll_write`: how many bytes were accepted. -/
def pollWrite (s : AnyTlsSession) (data : Bytes) (turns : List Behaviour) :
    AnyTlsPoll Nat × AnyTlsSession :=
  if s.localFinished || s.peerFinished then (some (.error .brokenPipe), s)
  else
    match s.pollFlushWire turns with
    | (none, s, _) => (none, s)
    | (some (.error e), s, _) => (some (.error e), s)
    | (some (.ok ()), s, _) =>
      let n := min data.length maxPayload
      if n = 0 then (some (.ok 0), s)
      else (some (.ok n), s.queue (frame [] 2 s.id (data.take n)) (random s.packet))

/-- The end of a stream is queued. -/
def queueFin (s : AnyTlsSession) : AnyTlsSession :=
  { s.queue (frame [] 3 s.id []) (random s.packet) with localFinished := true }

/-- `AnyTlsStream::poll_shutdown`. -/
def pollShutdown (s : AnyTlsSession) (turns : List Behaviour) : AnyTlsPoll Unit × AnyTlsSession :=
  let s := if !s.localFinished then s.queueFin random else s
  let (answer, s, _) := s.pollFlushWire turns
  (answer, s)

/-- A poll of the finalizer that a dropped stream leaves behind. Polls after the first find the end
of the stream queued. -/
def pollFinalizer (s : AnyTlsSession) (turns : List Behaviour) : AnyTlsPoll Unit × AnyTlsSession :=
  let s := if !s.localFinished && !s.peerFinished then s.queueFin random else s
  let (answer, s, _) := s.pollFlushWire turns
  (answer, s)

/-- The loop of the reaper over what arrived at an idle session, and whether it keeps the session. -/
def reapLoop : Nat → AnyTlsSession → List Behaviour → Bool × AnyTlsSession
  | 0, s, _ => (true, s)
  | count + 1, s, turns =>
    match s.pollFlushWire turns with
    | (some (.error _), s, _) => (false, s)
    | (_, s, turns) =>
      match s.pollFrame turns with
      | (none, s, _) => (true, s)
      | (some (.error _), s, _) => (false, s)
      | (some (.ok (command, id, data)), s, turns) =>
        match s.apply md5 command id data (random s.packet) with
        | (.error _, s) => (false, s)
        | (.ok (), s) => reapLoop count { s with content := [], contentPos := 0 } turns

end Apply

end AnyTlsSession

/-! ## The client -/

/-- A call of `open_initial` that waits for its session. -/
structure AnyTlsOpening where
  address : Bytes
  attempt : Nat
  flushed : Bool
  session : AnyTlsSession
deriving DecidableEq, Repr

/-- `Client`, with the sessions that calls, streams and finalizers hold, and those that are closed.
`now` is the time in milliseconds. -/
structure AnyTlsClient where
  keepIdle : Bool
  padding : Padding
  idle : List AnyTlsSession
  sequence : Nat
  now : Nat
  opening : List AnyTlsOpening
  streams : List AnyTlsSession
  finalizers : List AnyTlsSession
  closed : List AnyTlsSession
deriving DecidableEq, Repr

namespace AnyTlsClient

/-- `AnyTlsOutbound::new`. -/
def new (padding : Padding) (keepIdle : Bool) : AnyTlsClient :=
  ⟨keepIdle, padding, [], 0, 0, [], [], [], []⟩

/-- All sessions of the client, the closed ones too. -/
def sessions (c : AnyTlsClient) : List AnyTlsSession :=
  c.idle ++ c.opening.map (·.session) ++ c.streams ++ c.finalizers ++ c.closed

/-- A session with the policy of the client, which its sessions share. -/
def lend (c : AnyTlsClient) (s : AnyTlsSession) : AnyTlsSession :=
  { s with padding := c.padding }

/-- The age of an idle session is below the limit. -/
def fresh (c : AnyTlsClient) (s : AnyTlsSession) : Bool :=
  c.now - s.idleSince < idleTtl

/-- The loop of `Client::take_idle`, from the end of the list, with the sessions that it closes. -/
def takeLoop (c : AnyTlsClient) : List AnyTlsSession →
    Option AnyTlsSession × List AnyTlsSession × List AnyTlsSession
  | [] => (none, [], [])
  | s :: rest =>
    if c.fresh s then (some s, rest, [])
    else
      let (taken, rest, closed) := c.takeLoop rest
      (taken, rest, s :: closed)

/-- `Client::take_idle`. -/
def takeIdle (c : AnyTlsClient) : Option AnyTlsSession × AnyTlsClient :=
  let (taken, rest, closed) := c.takeLoop c.idle.reverse
  (taken, { c with idle := rest.reverse, closed := c.closed ++ closed })

/-- `Client::recycle`. -/
def recycle (c : AnyTlsClient) (s : AnyTlsSession) : AnyTlsClient :=
  if !c.keepIdle || !s.healthy then { c with closed := c.closed ++ [s] }
  else
    let s := { s.note .recycled with idleSince := c.now }
    let idle := (c.idle ++ [s]).mergeSort fun a b => a.sequence ≤ b.sequence
    if idleLimit < idle.length then
      { c with idle := idle.tail, closed := c.closed ++ idle.take 1 }
    else { c with idle }

section Actions

variable (md5 : Bytes → Vector UInt8 16)

/-- What others decide in one action: the answers of the connection, the random numbers, and what
the server will send over a connection made in this action, `none` if there is none. -/
structure Choices where
  turns : List Behaviour
  random : Nat → Nat → Nat
  incoming : Option Bytes

/-- An attempt of `open_initial` on a session. -/
def attempt (c : AnyTlsClient) (n : Nat) (address : Bytes) (choices : Choices)
    (s : AnyTlsSession) : AnyTlsClient :=
  { c with
    opening := c.opening ++ [⟨address, n, false, (c.lend s).openStream choices.random address⟩] }

/-- An attempt of `open_initial` with `create_session`. -/
def attemptNew (c : AnyTlsClient) (n : Nat) (address : Bytes) (choices : Choices) : AnyTlsClient :=
  match choices.incoming with
  | none => c
  | some incoming =>
    let s := AnyTlsSession.create c.padding incoming c.sequence c.now
    { c with sequence := c.sequence + 1 }.attempt n address choices s

/-- The first attempt of `open_initial`. A session without numbers left is closed. -/
def openFirst (c : AnyTlsClient) (address : Bytes) (choices : Choices) : AnyTlsClient :=
  match c.takeIdle with
  | (none, c) => c.attemptNew 0 address choices
  | (some s, c) =>
    if s.nextId = 2 ^ 32 - 1 then
      { c with closed := c.closed ++ [s] }.attemptNew 1 address choices
    else c.attempt 0 address choices s

/-- The polls of an opening: flush the request, then wait for the server. -/
def pollReady (o : AnyTlsOpening) (choices : Choices) : AnyTlsPoll Unit × AnyTlsOpening :=
  if o.flushed then
    let (answer, s, _) := o.session.pollOpenReady md5 choices.random choices.turns
    (answer, { o with session := s })
  else
    match o.session.pollFlushWire choices.turns with
    | (none, s, _) => (none, { o with session := s })
    | (some (.error e), s, _) => (some (.error e), { o with session := s })
    | (some (.ok ()), s, turns) =>
      let (answer, s, _) := s.pollOpenReady md5 choices.random turns
      (answer, { o with flushed := true, session := s })

/-- A poll of the `i`-th opening. -/
def pollOpening (c : AnyTlsClient) (i : Nat) (choices : Choices) : AnyTlsClient :=
  match c.opening[i]? with
  | none => c
  | some o =>
    let (answer, o) := pollReady md5 { o with session := c.lend o.session } choices
    let c := { c with padding := o.session.padding }
    match answer with
    | none => { c with opening := c.opening.set i o }
    | some (.ok ()) =>
      { c with opening := c.opening.eraseIdx i, streams := c.streams ++ [o.session] }
    | some (.error _) =>
      let c := { c with opening := c.opening.eraseIdx i, closed := c.closed ++ [o.session] }
      if o.attempt = 0 then c.attemptNew 1 o.address choices else c

/-- A poll of the `i`-th stream. -/
def pollStream (c : AnyTlsClient) (i : Nat) (poll : AnyTlsSession → AnyTlsSession) : AnyTlsClient :=
  match c.streams[i]? with
  | none => c
  | some s =>
    let s := poll (c.lend s)
    { c with padding := s.padding, streams := c.streams.set i s }

/-- `AnyTlsStream::drop`; `runtime` tells whether there is one to run the finalizer. -/
def dropStream (c : AnyTlsClient) (i : Nat) (runtime : Bool) : AnyTlsClient :=
  match c.streams[i]? with
  | none => c
  | some s =>
    let c := { c with streams := c.streams.eraseIdx i }
    if !s.healthy || !c.keepIdle || !runtime then { c with closed := c.closed ++ [s] }
    else { c with finalizers := c.finalizers ++ [s] }

/-- A poll of the `i`-th finalizer. -/
def pollFinalizer (c : AnyTlsClient) (i : Nat) (choices : Choices) : AnyTlsClient :=
  match c.finalizers[i]? with
  | none => c
  | some s =>
    match (c.lend s).pollFinalizer choices.random choices.turns with
    | (none, s) => { c with finalizers := c.finalizers.set i s }
    | (some (.ok ()), s) => { c with finalizers := c.finalizers.eraseIdx i }.recycle s
    | (some (.error _), s) =>
      { c with finalizers := c.finalizers.eraseIdx i, closed := c.closed ++ [s] }

/-- The reaper polls the idle sessions one after the other. -/
def reapAll (random : Nat → Nat → Nat) : List AnyTlsSession → List (List Behaviour) →
    AnyTlsClient → AnyTlsClient
  | [], _, c => c
  | s :: rest, turns, c =>
    let (keep, s) := (c.lend s).reapLoop md5 random 16 (turns.headD [])
    let c := { c with padding := s.padding }
    reapAll random rest turns.tail
      (if keep then { c with idle := c.idle ++ [s] } else { c with closed := c.closed ++ [s] })

/-- What can happen to a client. -/
inductive Action where
  | start (target : AnyTlsTarget) (choices : Choices)
  | pollOpening (i : Nat) (choices : Choices)
  | cancelOpening (i : Nat)
  | read (i room : Nat) (choices : Choices)
  | write (i : Nat) (data : Bytes) (choices : Choices)
  | flush (i : Nat) (choices : Choices)
  | shutdown (i : Nat) (choices : Choices)
  | drop (i : Nat) (runtime : Bool)
  | pollFinalizer (i : Nat) (choices : Choices)
  | cancelFinalizer (i : Nat)
  | reap (turns : List (List Behaviour)) (random : Nat → Nat → Nat)
  | expire
  | wait (time : Nat)

/-- One action. -/
def step (c : AnyTlsClient) : Action → AnyTlsClient
  | .start target choices =>
    match target.address with
    | none => c
    | some address => c.openFirst address choices
  | .pollOpening i choices => c.pollOpening md5 i choices
  | .cancelOpening i =>
    match c.opening[i]? with
    | none => c
    | some o => { c with opening := c.opening.eraseIdx i, closed := c.closed ++ [o.session] }
  | .read i room choices =>
    c.pollStream i fun s => (s.pollRead md5 choices.random room choices.turns).2
  | .write i data choices =>
    c.pollStream i fun s => (s.pollWrite choices.random data choices.turns).2
  | .flush i choices => c.pollStream i fun s => (s.pollFlushWire choices.turns).2.1
  | .shutdown i choices => c.pollStream i fun s => (s.pollShutdown choices.random choices.turns).2
  | .drop i runtime => c.dropStream i runtime
  | .pollFinalizer i choices => c.pollFinalizer i choices
  | .cancelFinalizer i =>
    match c.finalizers[i]? with
    | none => c
    | some s => { c with finalizers := c.finalizers.eraseIdx i, closed := c.closed ++ [s] }
  | .reap turns random => reapAll md5 random c.idle turns { c with idle := [] }
  | .expire =>
    { c with
      idle := c.idle.filter c.fresh
      closed := c.closed ++ c.idle.filter fun s => !c.fresh s }
  | .wait time => { c with now := c.now + time }

end Actions

end AnyTlsClient

end Sockrocket
