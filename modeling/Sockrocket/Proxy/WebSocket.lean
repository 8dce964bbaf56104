import Sockrocket.Proxy.WebSocketFrame
import Sockrocket.Lib.Outgoing
import Sockrocket.Lib.Run

/-!
# The WebSocket transport

`WsStream` of `proxy/ws.rs`, after the handshake. The data frames of the server are read as a stream
of bytes, straight into the buffer of the caller; pings and the close of the server are answered
from the read path. What is written becomes binary frames. Both directions share the queue of frames
to the server, which the stream below takes a part at a time.

The stream below is reliable: `incoming` is what it still brings. Each poll
comes with the `turns` of the stream below, one for each time it is polled, and pends once they are
used up. `WsRun` adds to a stream what its caller saw.
-/

namespace Sockrocket

open Rust Dns AsyncIo Transition

/-- `WRITE_BUF_SIZE`. -/
def wsWriteBufSize : Nat := 16384

/-- The opcodes whose payload belongs to the stream: `OPCODE_CONT`, `OPCODE_TEXT` and
`OPCODE_BINARY`. -/
def dataOpcode (opcode : UInt8) : Bool :=
  opcode == 2 || opcode == 0 || opcode == 1

/-- The answer to a poll, `none` for `Poll::Pending`. -/
abbrev WsPoll (β : Type) :=
  Option (Except WsError β)

/-- `WsStream`. Of `read_pending`, the header and the payload only the part in use is kept, so that
the positions are their lengths. `wire` is `out` with `out_pos` and the stream below. -/
structure WsStream where
  incoming : Bytes
  readPending : Bytes
  hdr : Bytes
  hdrLen : Nat
  payload : Bytes
  frameRead : Nat
  closing : Bool
  readEof : Bool
  wire : Outgoing WsFrame UInt8
  writeInFlight : Option Nat
  ctrlFlush : Bool
  closeSent : Bool
  writeClosed : Bool
deriving DecidableEq, Repr

/-- How an iteration of the loop of `poll_read` ends. -/
inductive ReadTurn where
  | again (s : WsStream) (turns : List Behaviour)
  | answer (answer : WsPoll Bytes) (s : WsStream) (turns : List Behaviour)

namespace WsStream

/-- `WsStream::new`, over a stream that brings `incoming`. -/
def new (leftover incoming : Bytes) : WsStream :=
  ⟨incoming, leftover, [], 2, [], 0, false, false, .empty, none, false, false, false⟩

/-- `reset_frame`. -/
def resetFrame (s : WsStream) : WsStream :=
  { s with payload := [], frameRead := 0, hdr := [], hdrLen := 2 }

/-- `encode_client_frame_into`, at the end of `out`. -/
def queueFrame (s : WsStream) (opcode : UInt8) (payload : Bytes) (key : WsKey) : WsStream :=
  { s with
    wire := s.wire.queue (clientFrame opcode payload key)
      (encodeClientFrameInto [] opcode payload key) }

/-- A close frame is queued, unless there was one. -/
def queueClose (s : WsStream) (key : WsKey) : WsStream :=
  if s.closeSent then s else { s.queueFrame 8 [] key with closeSent := true }

/-! ## Flushing -/

/-- The answer of `poll_flush_out`. -/
def flushAnswer : FlushAnswer → WsPoll Unit
  | .pending => none
  | .failed => some (.error .io)
  | .zero => some (.error .writeZero)
  | .done => some (.ok ())

/-- `poll_flush_out`. -/
def pollFlushOut (s : WsStream) (turns : List Behaviour) :
    WsPoll Unit × WsStream × List Behaviour :=
  let (answer, wire, turns) := s.wire.flush turns
  (flushAnswer answer, { s with wire }, turns)

/-! ## Reading -/

/-- The loops that assemble a header or the payload of a control frame: the bytes of the handshake
come first. -/
def fill (want : Nat) (got readPending incoming : Bytes) (turns : List Behaviour) :
    FillAnswer × Bytes × Bytes × Bytes × List Behaviour :=
  let n := want - got.length
  let (answer, got, incoming, turns) :=
    AsyncIo.fill want (got ++ readPending.take n) incoming turns
  (answer, got, readPending.drop n, incoming, turns)

/-- Assemble the header. -/
def fillHeader (s : WsStream) (turns : List Behaviour) : FillAnswer × WsStream × List Behaviour :=
  let (answer, hdr, readPending, incoming, turns) :=
    fill s.hdrLen s.hdr s.readPending s.incoming turns
  (answer, { s with hdr, readPending, incoming }, turns)

/-- Assemble the payload of a control frame. -/
def fillPayload (s : WsStream) (len : Nat) (turns : List Behaviour) :
    FillAnswer × WsStream × List Behaviour :=
  let (answer, payload, readPending, incoming, turns) :=
    fill len s.payload s.readPending s.incoming turns
  (answer, { s with payload, readPending, incoming }, turns)

/-- The end of `poll_read` with bytes of a data frame, unmasked. -/
def deliver (s : WsStream) (len : Nat) (mask : Option WsKey) (bytes : Bytes)
    (turns : List Behaviour) : ReadTurn :=
  if bytes = [] then .answer (some (.error .closedInPayload)) s turns
  else
    let plain := maskWith mask s.frameRead bytes
    let s := { s with frameRead := s.frameRead + bytes.length }
    .answer (some (.ok plain)) (if s.frameRead = len then s.resetFrame else s) turns

/-- A data frame: its bytes go straight to the caller. -/
def readData (s : WsStream) (room len : Nat) (mask : Option WsKey) (turns : List Behaviour) :
    ReadTurn :=
  if len = 0 then .again s.resetFrame turns
  else
    let count := min room (len - s.frameRead)
    if s.readPending ≠ [] then
      deliver { s with readPending := s.readPending.drop count } len mask
        (s.readPending.take count) turns
    else
      match turns with
      | [] => .answer none s []
      | turn :: turns =>
        match turn.read s.incoming count with
        | (.pending, _) => .answer none s turns
        | (.failed, _) => .answer (some (.error .io)) s turns
        | (.ready bytes, rest) => deliver { s with incoming := rest } len mask bytes turns

/-- What a control frame does, once its payload is there. -/
def handleControl (s : WsStream) (opcode : UInt8) (payload : Bytes) (key : WsKey) : WsStream :=
  if opcode = 9 then
    { (s.queueFrame 10 payload key).resetFrame with ctrlFlush := true }
  else if opcode = 8 then
    { (s.queueClose key).resetFrame with ctrlFlush := true, closing := true }
  else s.resetFrame

/-- A control frame: its payload is assembled first. -/
def readControl (s : WsStream) (opcode : UInt8) (len : Nat) (mask : Option WsKey) (key : WsKey)
    (turns : List Behaviour) : ReadTurn :=
  match s.fillPayload len turns with
  | (.pending, s, turns) => .answer none s turns
  | (.failed, s, turns) => .answer (some (.error .io)) s turns
  | (.ended, s, turns) => .answer (some (.error .closedInPayload)) s turns
  | (.full, s, turns) =>
    .again (s.handleControl opcode (maskWith mask 0 s.payload) key) turns

/-- An iteration of `poll_read` with a header that has as many bytes as it asked for. -/
def readBody (s : WsStream) (room : Nat) (key : WsKey) (turns : List Behaviour) : ReadTurn :=
  let full := wsHeaderSize (s.hdr.getD 1 0)
  if s.hdrLen = 2 ∧ 2 < full then .again { s with hdrLen := full } turns
  else
    match parseHeader s.hdr with
    | .error e => .answer (some (.error e)) s turns
    | .ok (opcode, len, mask) =>
      if dataOpcode opcode then s.readData room len mask turns
      else s.readControl opcode len mask key turns

/-- An iteration of `poll_read` without a control frame to flush. -/
def readFrame (s : WsStream) (room : Nat) (key : WsKey) (turns : List Behaviour) : ReadTurn :=
  if s.closing then .answer (some (.ok [])) { s with readEof := true } turns
  else
    match s.fillHeader turns with
    | (.pending, s, turns) => .answer none s turns
    | (.failed, s, turns) => .answer (some (.error .io)) s turns
    | (.ended, s, turns) =>
      if s.hdr = [] then .answer (some (.ok [])) { s with readEof := true } turns
      else .answer (some (.error .closedInHeader)) s turns
    | (.full, s, turns) => s.readBody room key turns

/-- An iteration of the loop of `poll_read`, with room for so many bytes. -/
def readTurn (s : WsStream) (room : Nat) (key : WsKey) (turns : List Behaviour) : ReadTurn :=
  if room = 0 ∨ s.readEof then .answer (some (.ok [])) s turns
  else if s.ctrlFlush then
    match s.pollFlushOut turns with
    | (none, s, turns) => .answer none s turns
    | (some (.error e), s, turns) =>
      -- the peer is gone either way
      if s.closing then
        .answer (some (.ok [])) { s with ctrlFlush := false, readEof := true } turns
      else .answer (some (.error e)) { s with ctrlFlush := false } turns
    | (some (.ok ()), s, turns) => { s with ctrlFlush := false }.readFrame room key turns
  else s.readFrame room key turns

/-- The loop of `poll_read`, at most a given number of iterations, each with a key for the frame it
may queue. -/
def readLoop (room : Nat) (keys : Nat → WsKey) :
    Nat → WsStream → List Behaviour → WsPoll Bytes × WsStream
  | 0, s, _ => (none, s)
  | fuel + 1, s, turns =>
    match s.readTurn room (keys fuel) turns with
    | .again s turns => readLoop room keys fuel s turns
    | .answer answer s _ => (answer, s)

/-- The bytes of the server that no finished frame has. -/
def unfinished (s : WsStream) : Nat :=
  s.hdr.length + s.payload.length + s.readPending.length + s.incoming.length

/-- `poll_read`. An iteration finishes a frame or learns the size of a header, so these are enough of
them: `readLoop_answers`. -/
def pollRead (s : WsStream) (room : Nat) (keys : Nat → WsKey) (turns : List Behaviour) :
    WsPoll Bytes × WsStream :=
  readLoop room keys (s.unfinished + 2) s turns

/-! ## Writing -/

/-- The part of `poll_write` that takes bytes of the caller, with nothing left to write before. -/
def writeFrame (s : WsStream) (buf : Bytes) (key : WsKey) (turns : List Behaviour) :
    WsPoll Nat × WsStream :=
  if buf = [] then (some (.ok 0), s)
  else
    let n := min buf.length wsWriteBufSize
    match { s.queueFrame 2 (buf.take n) key with writeInFlight := some n }.pollFlushOut turns with
    | (none, s, _) => (none, s)
    | (some (.error e), s, _) => (some (.error e), { s with writeInFlight := none })
    | (some (.ok ()), s, _) => (some (.ok n), { s with writeInFlight := none })

/-- `poll_write`. -/
def pollWrite (s : WsStream) (buf : Bytes) (key : WsKey) (turns : List Behaviour) :
    WsPoll Nat × WsStream :=
  if s.writeClosed then (some (.error .closed), s)
  else if s.writeInFlight.isSome ∨ s.wire.pos < s.wire.out.length then
    match s.pollFlushOut turns with
    | (none, s, _) => (none, s)
    | (some (.error e), s, _) => (some (.error e), { s with writeInFlight := none })
    | (some (.ok ()), s, turns) =>
      match s.writeInFlight with
      | some n => (some (.ok n), { s with writeInFlight := none })
      | none => s.writeFrame buf key turns
  else s.writeFrame buf key turns

/-- `poll_flush`. -/
def pollFlush (s : WsStream) (turns : List Behaviour) : WsPoll Unit × WsStream :=
  match s.pollFlushOut turns with
  | (answer, s, _) => (answer, s)

/-- `poll_shutdown`. -/
def pollShutdown (s : WsStream) (key : WsKey) (turns : List Behaviour) : WsPoll Unit × WsStream :=
  match (s.queueClose key).pollFlushOut turns with
  | (none, s, _) => (none, s)
  | (some (.error e), s, _) => (some (.error e), s)
  | (some (.ok ()), s, turns) =>
    -- the shutdown of the stream below
    match turns with
    | [] => (none, s)
    | .pending :: _ => (none, s)
    | .failed :: _ => (some (.error .io), s)
    | .ready _ :: _ => (some (.ok ()), { s with writeClosed := true })

end WsStream

/-! ## Runs -/

/-- A poll by the caller, with the keys of the frames it may queue and the turns of the stream
below. -/
inductive WsEvent where
  | read (room : Nat) (keys : Nat → WsKey) (turns : List Behaviour)
  | write (buf : Bytes) (key : WsKey) (turns : List Behaviour)
  | flush (turns : List Behaviour)
  | shutdown (key : WsKey) (turns : List Behaviour)

namespace WsEvent

/-- The turns of the stream below in a poll. -/
def turns : WsEvent → List Behaviour
  | read _ _ turns => turns
  | write _ _ turns => turns
  | flush turns => turns
  | shutdown _ turns => turns

end WsEvent

/-- A stream with what its caller saw: the bytes it was given, the bytes whose writes it was told, the
buffer of a write that pends, and the buffers of the writes that were refused. -/
structure WsRun where
  stream : WsStream
  delivered : Bytes
  acks : List Bytes
  pended : Option Bytes
  refused : List Bytes
deriving DecidableEq, Repr

namespace WsRun

/-- After the handshake. -/
def new (leftover incoming : Bytes) : WsRun :=
  ⟨.new leftover incoming, [], [], none, []⟩

/-- The bytes that the caller was told were written. -/
def accepted (r : WsRun) : Bytes :=
  r.acks.flatten

/-- The caller was given bytes, or none. -/
def afterRead (r : WsRun) : WsPoll Bytes × WsStream → WsRun
  | (some (.ok bytes), s) => { r with stream := s, delivered := r.delivered ++ bytes }
  | (_, s) => { r with stream := s }

/-- The caller learned what became of its buffer. -/
def afterWrite (r : WsRun) (buf : Bytes) : WsPoll Nat × WsStream → WsRun
  | (none, s) => { r with stream := s, pended := some buf }
  | (some (.ok n), s) =>
    { r with
      stream := s, acks := if n = 0 then r.acks else r.acks ++ [buf.take n], pended := none }
  | (some (.error _), s) => { r with stream := s, pended := none, refused := r.refused ++ [buf] }

/-- A poll. -/
def poll (r : WsRun) : WsEvent → WsRun
  | .read room keys turns => r.afterRead (r.stream.pollRead room keys turns)
  | .write buf key turns => r.afterWrite buf (r.stream.pollWrite buf key turns)
  | .flush turns => { r with stream := (r.stream.pollFlush turns).2 }
  | .shutdown key turns => { r with stream := (r.stream.pollShutdown key turns).2 }

/-- A write that pended is tried again with the same buffer; other polls may come in between. -/
def Retries (r : WsRun) : WsEvent → Prop
  | .write buf _ _ => ∀ pended ∈ r.pended, buf = pended
  | _ => True

/-- A poll that the caller may make. -/
def Step (r : WsRun) (e : WsEvent) (r' : WsRun) : Prop :=
  r.Retries e ∧ r' = r.poll e

end WsRun

end Sockrocket
