import Sockrocket.Proxy.Bytes
import Sockrocket.Lib.Outgoing
import Sockrocket.Lib.Pieces
import Sockrocket.Lib.Run

/-!
# shadow-tls

`ShadowTlsIo` of `proxy/shadow_tls.rs`: after the handshake, it has the bytes of the caller in frames
that look like TLS records; a frame has four bytes of an HMAC over everything before it in its
direction.

HMAC and SHA-256 are those of libraries. A failed index is `Fault.outOfRange`. Each poll comes with the
turns of the stream below, as in `Proxy.VMess`.
-/

namespace Sockrocket

open Rust Dns AsyncIo Transition Slice

/-! ## Hashes -/

/-- What shadow-tls takes from libraries. -/
structure ShadowCrypto where
  hmacSha1 : (key data : Bytes) → Bytes
  length_hmacSha1 : ∀ key data, (hmacSha1 key data).length = 20
  sha256 : Bytes → Bytes
  length_sha256 : ∀ data, (sha256 data).length = 32

/-- `HmacSha1`: the key, and what was hashed so far. -/
structure HmacSha1 where
  key : Bytes
  data : Bytes
deriving DecidableEq, Repr

namespace HmacSha1

/-- `Mac::update`. -/
def update (mac : HmacSha1) (bytes : Bytes) : HmacSha1 :=
  { mac with data := mac.data ++ bytes }

end HmacSha1

/-- `hmac_password`. -/
def hmacPassword (password : Bytes) (parts : List Bytes) : HmacSha1 :=
  parts.foldl .update ⟨password, []⟩

/-- `mac4`. -/
def mac4 (crypto : ShadowCrypto) (mac : HmacSha1) : Bytes :=
  (crypto.hmacSha1 mac.key mac.data).take 4

theorem length_mac4 (crypto : ShadowCrypto) (mac : HmacSha1) : (mac4 crypto mac).length = 4 := by
  rw [mac4, List.length_take, crypto.length_hmacSha1]
  rfl

/-! ## Record types -/

/-- `TLS_APPLICATION_DATA`. -/
def tlsApplicationData : UInt8 := 0x17

/-- `TLS_ALERT`. -/
def tlsAlert : UInt8 := 0x15

/-! ## Frames -/

/-- `FrameRole`. -/
inductive FrameRole where
  | client
  | server
deriving DecidableEq, Repr

namespace FrameRole

/-- `write_label`. -/
def writeLabel : FrameRole → Bytes
  | client => [0x43]
  | server => [0x53]

/-- `read_label`. -/
def readLabel : FrameRole → Bytes
  | client => [0x53]
  | server => [0x43]

end FrameRole

/-- The errors of a stream. -/
inductive ShadowError where
  | io
  | shortFrame
  | eofInFrame
  | contentType (kind : UInt8)
  | hmacMismatch
  | writeZero
deriving DecidableEq, Repr

/-- The answer to a poll, `none` for `Poll::Pending`. -/
abbrev ShadowPoll (β : Type) :=
  Option (Except ShadowError β)

/-- `ShadowTlsIo`. Of `hdr` and `body` only what is filled is kept. `incoming` is what the stream below
still brings, and `sent` what it took. -/
structure ShadowTlsIo where
  incoming : Bytes
  payload : Bytes
  payloadPos : Nat
  hdr : Bytes
  body : Bytes
  writeHmac : HmacSha1
  readHmac : HmacSha1
  ignoreHmac : Option HmacSha1
  writePending : Bytes
  writePos : Nat
  sawAlert : Bool
  sent : Bytes
deriving DecidableEq, Repr

/-- How an iteration of the loop of `poll_read` ends. -/
inductive ShadowTurn where
  | again (io : ShadowTlsIo) (turns : List Behaviour)
  | answer (answer : ShadowPoll Bytes) (io : ShadowTlsIo)

/-- A frame with these four bytes of an HMAC. -/
def shadowFrame (tag payload : Bytes) : Bytes :=
  [tlsApplicationData, 3, 3] ++ be16 (4 + payload.length) ++ tag ++ payload

namespace ShadowTlsIo

/-- `ShadowTlsIo::new`. -/
def new (incoming password serverRandom : Bytes) (role : FrameRole) : ShadowTlsIo where
  incoming
  payload := []
  payloadPos := 0
  hdr := []
  body := []
  writeHmac := hmacPassword password [serverRandom, role.writeLabel]
  readHmac := hmacPassword password [serverRandom, role.readLabel]
  ignoreHmac := some (hmacPassword password [serverRandom])
  writePending := []
  writePos := 0
  sawAlert := false
  sent := []

/-! ### Reading -/

/-- Verified bytes go to the caller. -/
def deliver (io : ShadowTlsIo) (room : Nat) : ShadowTurn :=
  let n := min room (io.payload.length - io.payloadPos)
  .answer (some (.ok ((io.payload.drop io.payloadPos).take n)))
    { io with payloadPos := io.payloadPos + n }

/-- The rolling HMAC of a frame is checked. -/
def verifyFrame (crypto : ShadowCrypto) (io : ShadowTlsIo) (turns : List Behaviour) : ShadowTurn :=
  let readHmac := io.readHmac.update (io.body.drop 4)
  let expected := mac4 crypto readHmac
  let io := { io with readHmac := readHmac.update expected }
  if expected = io.body.take 4 then
    .again { io with payload := io.body, body := io.payload, payloadPos := 4 } turns
  else .answer (some (.error .hmacMismatch)) io

/-- A frame that is there as a whole. -/
def handleFrame (crypto : ShadowCrypto) (io : ShadowTlsIo) (turns : List Behaviour) : ShadowTurn :=
  let kind := io.hdr.headD 0
  let version := (io.hdr.drop 1).take 2
  let io := { io with hdr := [] }
  if kind = tlsAlert then .answer (some (.ok [])) { io with sawAlert := true }
  else if kind ≠ tlsApplicationData ∨ version ≠ [3, 3] then
    .answer (some (.error (.contentType kind))) io
  else
    match io.ignoreHmac with
    | some ignore =>
      -- a control frame of the server
      if mac4 crypto (ignore.update (io.body.drop 4)) = io.body.take 4 then .again io turns
      else verifyFrame crypto { io with ignoreHmac := none } turns
    | none => verifyFrame crypto io turns

/-- The body of a frame, after its header. -/
def readBody (crypto : ShadowCrypto) (io : ShadowTlsIo) (turns : List Behaviour) : ShadowTurn :=
  let bodyLen := u16At io.hdr 3
  if bodyLen < 4 then .answer (some (.error .shortFrame)) io
  else
    match AsyncIo.fill bodyLen io.body io.incoming turns with
    | (.pending, body, incoming, _) => .answer none { io with body, incoming }
    | (.failed, body, incoming, _) => .answer (some (.error .io)) { io with body, incoming }
    | (.ended, body, incoming, _) =>
      .answer (some (.error .eofInFrame)) { io with body, incoming }
    | (.full, body, incoming, turns) => handleFrame crypto { io with body, incoming } turns

/-- An iteration of the loop of `poll_read`. -/
def readTurn (crypto : ShadowCrypto) (io : ShadowTlsIo) (room : Nat) (turns : List Behaviour) :
    ShadowTurn :=
  if io.payloadPos < io.payload.length then io.deliver room
  else if room = 0 ∨ io.sawAlert then .answer (some (.ok [])) io
  else
    -- the start of a frame
    let io := if io.hdr = [] then { io with body := [] } else io
    match AsyncIo.fill 5 io.hdr io.incoming turns with
    | (.pending, hdr, incoming, _) => .answer none { io with hdr, incoming }
    | (.failed, hdr, incoming, _) => .answer (some (.error .io)) { io with hdr, incoming }
    | (.ended, hdr, incoming, _) =>
      .answer (some (.ok [])) { io with hdr, incoming, sawAlert := true }
    | (.full, hdr, incoming, turns) => readBody crypto { io with hdr, incoming } turns

/-- The loop of `poll_read`, at most a given number of iterations. -/
def readLoop (crypto : ShadowCrypto) (room : Nat) :
    Nat → ShadowTlsIo → List Behaviour → ShadowPoll Bytes × ShadowTlsIo
  | 0, io, _ => (none, io)
  | fuel + 1, io, turns =>
    match io.readTurn crypto room turns with
    | .again io turns => readLoop crypto room fuel io turns
    | .answer answer io => (answer, io)

/-- `poll_read`. -/
def pollRead (crypto : ShadowCrypto) (io : ShadowTlsIo) (room : Nat) (turns : List Behaviour) :
    ShadowPoll Bytes × ShadowTlsIo :=
  readLoop crypto room (io.incoming.length + io.hdr.length + 1) io turns

/-! ### Writing -/

/-- One frame of `queue_frame`. -/
def queueChunk (crypto : ShadowCrypto) (io : ShadowTlsIo) (chunk : Bytes) : ShadowTlsIo :=
  let writeHmac := io.writeHmac.update chunk
  let tag := mac4 crypto writeHmac
  { io with
    writeHmac := writeHmac.update tag
    writePending := io.writePending ++ shadowFrame tag chunk }

/-- `queue_frame`. -/
def queueFrame (crypto : ShadowCrypto) (io : ShadowTlsIo) (payload : Bytes) : ShadowTlsIo :=
  let io := { io with writePending := [] }
  { (Pieces.chunks 65531 payload).foldl (queueChunk crypto) io with writePos := 0 }

/-- The loop that writes `write_pending` to the stream below. -/
def writeOut (io : ShadowTlsIo) : List Behaviour → FlushAnswer × ShadowTlsIo × List Behaviour
  | [] => (if io.writePos < io.writePending.length then .pending else .done, io, [])
  | turn :: turns =>
    if io.writePos < io.writePending.length then
      match turn with
      | .pending => (.pending, io, turns)
      | .failed => (.failed, io, turns)
      | .ready size =>
        let n := min size (io.writePending.length - io.writePos)
        if n = 0 then (.zero, io, turns)
        else
          writeOut
            { io with
              writePos := io.writePos + n
              sent := io.sent ++ (io.writePending.drop io.writePos).take n } turns
    else (.done, io, turn :: turns)

/-- `poll_write`. -/
def pollWrite (crypto : ShadowCrypto) (io : ShadowTlsIo) (buf : Bytes) (turns : List Behaviour) :
    ShadowPoll Nat × ShadowTlsIo :=
  if buf = [] then (some (.ok 0), io)
  else
    let io := if io.writePos = io.writePending.length then io.queueFrame crypto buf else io
    match io.writeOut turns with
    | (.pending, io, _) => (none, io)
    | (.failed, io, _) => (some (.error .io), io)
    | (.zero, io, _) => (some (.error .writeZero), io)
    | (.done, io, _) => (some (.ok buf.length), { io with writePending := [], writePos := 0 })

/-- A call to the stream below that only answers. -/
def callBelow : List Behaviour → ShadowPoll Unit × List Behaviour
  | [] => (none, [])
  | .pending :: turns => (none, turns)
  | .failed :: turns => (some (.error .io), turns)
  | .ready _ :: turns => (some (.ok ()), turns)

/-- `poll_flush`. -/
def pollFlush (io : ShadowTlsIo) (turns : List Behaviour) :
    ShadowPoll Unit × ShadowTlsIo × List Behaviour :=
  match io.writeOut turns with
  | (.pending, io, turns) => (none, io, turns)
  | (.failed, io, turns) => (some (.error .io), io, turns)
  | (.zero, io, turns) => (some (.error .writeZero), io, turns)
  | (.done, io, turns) => ((callBelow turns).1, io, (callBelow turns).2)

/-- `poll_shutdown`. -/
def pollShutdown (io : ShadowTlsIo) (turns : List Behaviour) : ShadowPoll Unit × ShadowTlsIo :=
  match io.pollFlush turns with
  | (none, io, _) => (none, io)
  | (some (.error e), io, _) => (some (.error e), io)
  | (some (.ok ()), io, turns) => ((callBelow turns).1, io)

end ShadowTlsIo

/-! ## Runs -/

/-- A poll by the caller, with the turns of the stream below. -/
inductive ShadowEvent where
  | read (room : Nat) (turns : List Behaviour)
  | write (buf : Bytes) (turns : List Behaviour)
  | flush (turns : List Behaviour)
  | shutdown (turns : List Behaviour)
deriving DecidableEq, Repr

/-- The turns of the stream below in a poll. -/
def ShadowEvent.turns : ShadowEvent → List Behaviour
  | read _ turns => turns
  | write _ turns => turns
  | flush turns => turns
  | shutdown turns => turns

/-- A stream with what its caller saw: the answers to reads that had room, the bytes whose write it
was told, and the buffer of a write that pends. -/
structure ShadowRun where
  io : ShadowTlsIo
  reads : List (Except ShadowError Bytes)
  acks : List Bytes
  pended : Option Bytes
deriving DecidableEq

namespace ShadowRun

/-- Before the first poll. -/
def new (io : ShadowTlsIo) : ShadowRun :=
  ⟨io, [], [], none⟩

/-- The caller got an answer, or none. -/
def afterRead (r : ShadowRun) (room : Nat) : ShadowPoll Bytes × ShadowTlsIo → ShadowRun
  | (none, io) => { r with io }
  | (some answer, io) =>
    { r with io, reads := if room = 0 then r.reads else r.reads ++ [answer] }

/-- The caller learned what became of its buffer. -/
def afterWrite (r : ShadowRun) (buf : Bytes) : ShadowPoll Nat × ShadowTlsIo → ShadowRun
  | (none, io) => { r with io, pended := some buf }
  | (some (.ok n), io) => { r with io, acks := r.acks ++ [buf.take n], pended := none }
  | (some (.error _), io) => { r with io, pended := none }

/-- A poll. -/
def poll (crypto : ShadowCrypto) (r : ShadowRun) : ShadowEvent → ShadowRun
  | .read room turns => r.afterRead room (r.io.pollRead crypto room turns)
  | .write buf turns => r.afterWrite buf (r.io.pollWrite crypto buf turns)
  | .flush turns => { r with io := (r.io.pollFlush turns).2.1 }
  | .shutdown turns => { r with io := (r.io.pollShutdown turns).2 }

/-- A write that pended is tried again with a buffer that begins with the same bytes. -/
def Retries (r : ShadowRun) : ShadowEvent → Prop
  | .write buf _ => ∀ pended ∈ r.pended, pended <+: buf
  | _ => True

end ShadowRun

end Sockrocket
