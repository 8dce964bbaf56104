import Sockrocket.Proxy.Bytes
import Sockrocket.Lib.Outgoing
import Sockrocket.Lib.Run

/-!
# The VMess stream

`VMessStream` of `proxy/vmess.rs`, after the request header was written. What is written becomes
chunks: two bytes for the length, then the bytes of the caller under an AEAD whose nonce counts the
chunks. Reading first verifies the header of the response, and then opens the chunks of the server,
which are of the same form.

The ciphers, MD5 and the key derivation are those of libraries: `Aead` is a cipher under a key. Each
poll comes with the turns of the stream below, as in `Proxy.WebSocket`.
-/

namespace Sockrocket

open Rust Dns AsyncIo Transition

/-! ## Ciphers -/

/-- An AEAD under a key, without associated data; the tag has sixteen bytes. -/
structure Aead where
  encrypt : (nonce plain : Bytes) → Bytes
  decrypt : (nonce data : Bytes) → Option Bytes
  length_encrypt : ∀ nonce plain, (encrypt nonce plain).length = plain.length + 16

/-- What the stream takes from libraries. -/
structure VMessCrypto where
  aes128Gcm : (key : Bytes) → Aead
  chacha20Poly1305 : (key : Bytes) → Aead
  md5 : Bytes → Bytes
  kdf : (key : Bytes) → (path : Bytes) → Bytes

/-- `VMessSecurity`. -/
inductive VMessSecurity where
  | aes128Gcm
  | chacha20Poly1305
  | auto
  | none
  | zero
deriving DecidableEq, Repr

/-- `VMessChunkCipher`. -/
inductive VMessChunkCipher where
  | aes128Gcm (cipher : Aead) (iv : Vector UInt8 16)
  | chacha20Poly1305 (cipher : Aead) (iv : Vector UInt8 16)
  | none

/-- `make_aead_nonce`. -/
def makeAeadNonce (iv : Vector UInt8 16) (count : Nat) : Bytes :=
  be16 count ++ (iv.toList.drop 2).take 10

/-- `generate_chacha_key`. -/
def generateChachaKey (crypto : VMessCrypto) (key : Bytes) : Bytes :=
  let h1 := crypto.md5 key
  h1 ++ crypto.md5 h1

namespace VMessChunkCipher

/-- `VMessChunkCipher::new`. -/
def new (crypto : VMessCrypto) (security : VMessSecurity) (key : Bytes) (iv : Vector UInt8 16) :
    VMessChunkCipher :=
  match security with
  | .aes128Gcm | .auto => .aes128Gcm (crypto.aes128Gcm key) iv
  | .chacha20Poly1305 =>
    .chacha20Poly1305 (crypto.chacha20Poly1305 (generateChachaKey crypto key)) iv
  | .none | .zero => .none

/-- `decrypt_in_place`. -/
def decrypt (cipher : VMessChunkCipher) (count : Nat) (data : Bytes) : Option Bytes :=
  match cipher with
  | .aes128Gcm cipher iv => cipher.decrypt (makeAeadNonce iv count) data
  | .chacha20Poly1305 cipher iv => cipher.decrypt (makeAeadNonce iv count) data
  | .none => some data

/-- `encrypt_payload_in_place`, of the payload. The ciphers do not fail on payloads of this size. -/
def encrypt (cipher : VMessChunkCipher) (count : Nat) (payload : Bytes) : Bytes :=
  match cipher with
  | .aes128Gcm cipher iv => cipher.encrypt (makeAeadNonce iv count) payload
  | .chacha20Poly1305 cipher iv => cipher.encrypt (makeAeadNonce iv count) payload
  | .none => payload

/-- `overhead`. -/
def overhead : VMessChunkCipher → Nat
  | .aes128Gcm _ _ => 16
  | .chacha20Poly1305 _ _ => 16
  | .none => 0

theorem overhead_le (cipher : VMessChunkCipher) : cipher.overhead ≤ 16 := by
  cases cipher with
  | aes128Gcm cipher iv | chacha20Poly1305 cipher iv => exact Nat.le_refl 16
  | none => exact Nat.zero_le 16

theorem length_encrypt (cipher : VMessChunkCipher) (count : Nat) (payload : Bytes) :
    (cipher.encrypt count payload).length = payload.length + cipher.overhead := by
  cases cipher with
  | aes128Gcm cipher iv | chacha20Poly1305 cipher iv => exact cipher.length_encrypt _ _
  | none => rfl

/-- A chunk on the wire: the length of what follows, and the payload under the cipher. -/
def chunk (cipher : VMessChunkCipher) (count : Nat) (payload : Bytes) : Bytes :=
  be16 (cipher.encrypt count payload).length ++ cipher.encrypt count payload

end VMessChunkCipher

/-! ## The stream -/

/-- The errors of a stream. -/
inductive VMessError where
  | io
  | closedMidRead
  | headerLength
  | headerTooLarge (size : Nat)
  | headerPayload
  | authMismatch (expected got : UInt8)
  | invalidHeader (cause : VMessError)
  | writeZero
  | closed
deriving DecidableEq, Repr

/-- `ReadState`. -/
inductive VMessReadState where
  | respHeaderLen
  | respHeaderPayload
  | chunkLen
  | chunkPayload
  | plain
deriving DecidableEq, Repr

/-- The answer to a poll, `none` for `Poll::Pending`. -/
abbrev VMessPoll (β : Type) :=
  Option (Except VMessError β)

/-- `VMessStream`. Of `len_buf` only what is filled is kept. `incoming` is what the stream below still
brings; `wire` is `out` with `out_pos` and what the stream below took, where a chunk is marked with
its counter and its payload. -/
structure VMessStream where
  incoming : Bytes
  readCipher : VMessChunkCipher
  state : VMessReadState
  respBuf : Bytes
  respPayloadLen : Nat
  respKey : Bytes
  respIv : Bytes
  respAuth : UInt8
  lenBuf : Bytes
  chunkLen : Nat
  chunk : Bytes
  plainPos : Nat
  readCount : Nat
  fatal : Option VMessError
  readEof : Bool
  writeCipher : VMessChunkCipher
  maxChunk : Nat
  wire : Outgoing (Nat × Bytes) UInt8
  writeInFlight : Option Nat
  writeCount : Nat
  writeClosed : Bool

/-- How an iteration of the loop of `poll_read` ends. -/
inductive VMessTurn where
  | again (s : VMessStream) (turns : List Behaviour)
  | answer (answer : VMessPoll Bytes) (s : VMessStream)

/-- `decrypt_resp_header_len`. -/
def decryptRespHeaderLen (crypto : VMessCrypto) (encLen respKey respIv : Bytes) :
    Except VMessError Nat :=
  let lenKey := crypto.kdf respKey (utf8Encode "AEAD Resp Header Len Key".toList)
  let lenIv := crypto.kdf respIv (utf8Encode "AEAD Resp Header Len IV".toList)
  match (crypto.aes128Gcm (lenKey.take 16)).decrypt (lenIv.take 12) encLen with
  | none => .error .headerLength
  | some plainLen =>
    let payloadLen := u16At plainLen 0
    if payloadLen ≤ 256 then .ok payloadLen else .error (.headerTooLarge payloadLen)

/-- `verify_resp_header_payload`. -/
def verifyRespHeaderPayload (crypto : VMessCrypto) (encPayload : Bytes) (expectedAuth : UInt8)
    (respKey respIv : Bytes) : Except VMessError Unit :=
  let payloadKey := crypto.kdf respKey (utf8Encode "AEAD Resp Header Key".toList)
  let payloadIv := crypto.kdf respIv (utf8Encode "AEAD Resp Header IV".toList)
  match (crypto.aes128Gcm (payloadKey.take 16)).decrypt (payloadIv.take 12) encPayload with
  | none => .error .headerPayload
  | some payload =>
    let respAuth := payload.headD 0
    if respAuth = expectedAuth then .ok () else .error (.authMismatch expectedAuth respAuth)

namespace VMessStream

/-- `VMessStream::new`, over a stream that brings `incoming`, after the header was written. -/
def new (crypto : VMessCrypto) (incoming reqKey : Bytes) (reqIv : Vector UInt8 16)
    (respKey : Bytes) (respIv : Vector UInt8 16) (respAuth : UInt8) (security : VMessSecurity) :
    VMessStream :=
  let writeCipher := VMessChunkCipher.new crypto security reqKey reqIv
  { incoming
    readCipher := VMessChunkCipher.new crypto security respKey respIv
    state := .respHeaderLen
    respBuf := []
    respPayloadLen := 0
    respKey
    respIv := respIv.toList
    respAuth
    lenBuf := []
    chunkLen := 0
    chunk := []
    plainPos := 0
    readCount := 0
    fatal := none
    readEof := false
    writeCipher
    maxChunk := 16384 - writeCipher.overhead
    wire := .empty
    writeInFlight := none
    writeCount := 0
    writeClosed := false }

/-! ### Reading -/

/-- The header of the response is not what was agreed on: the error comes with the next read. -/
def failHeader (s : VMessStream) (cause : VMessError) : VMessStream :=
  { s with fatal := some (.invalidHeader cause) }

/-- The end of the stream. -/
def endRead (s : VMessStream) : VMessTurn :=
  .answer (some (.ok [])) { s with readEof := true }

/-- `ReadState::Plain`. -/
def readPlain (s : VMessStream) (room : Nat) : VMessTurn :=
  let n := min room (s.chunk.length - s.plainPos)
  let bytes := (s.chunk.drop s.plainPos).take n
  let s := { s with plainPos := s.plainPos + n }
  .answer (some (.ok bytes))
    (if s.plainPos = s.chunk.length then { s with chunk := [], plainPos := 0, state := .chunkLen }
      else s)

/-- The two blocks of the header: `poll_fill_inner` for as many bytes, and what is done with them. -/
def readHeaderBlock (s : VMessStream) (want : Nat)
    (check : Bytes → Except VMessError (VMessStream → VMessStream)) (turns : List Behaviour) :
    VMessTurn :=
  match AsyncIo.fill want s.respBuf s.incoming turns with
  | (.pending, respBuf, incoming, _) => .answer none { s with respBuf, incoming }
  | (.failed, respBuf, incoming, turns) =>
    .again (failHeader { s with respBuf, incoming } .io) turns
  | (.ended, respBuf, incoming, turns) =>
    .again (failHeader { s with respBuf, incoming } .closedMidRead) turns
  | (.full, respBuf, incoming, turns) =>
    match check respBuf with
    | .error cause => .again (failHeader { s with respBuf, incoming } cause) turns
    | .ok update => .again (update { s with respBuf := [], incoming }) turns

/-- `ReadState::RespHeaderLen`. -/
def readRespHeaderLen (crypto : VMessCrypto) (s : VMessStream) (turns : List Behaviour) :
    VMessTurn :=
  s.readHeaderBlock 18
    (fun block => do
      let len ← decryptRespHeaderLen crypto block s.respKey s.respIv
      return fun s => { s with respPayloadLen := len, state := .respHeaderPayload })
    turns

/-- `ReadState::RespHeaderPayload`. -/
def readRespHeaderPayload (crypto : VMessCrypto) (s : VMessStream) (turns : List Behaviour) :
    VMessTurn :=
  s.readHeaderBlock (s.respPayloadLen + 16)
    (fun block => do
      verifyRespHeaderPayload crypto block s.respAuth s.respKey s.respIv
      return fun s => { s with state := .chunkLen })
    turns

/-- `ReadState::ChunkLen`: any failure to read the length is the end of the stream. -/
def readChunkLen (s : VMessStream) (turns : List Behaviour) : VMessTurn :=
  match AsyncIo.fill 2 s.lenBuf s.incoming turns with
  | (.pending, lenBuf, incoming, _) => .answer none { s with lenBuf, incoming }
  | (.failed, lenBuf, incoming, _) => endRead { s with lenBuf, incoming }
  | (.ended, lenBuf, incoming, _) => endRead { s with lenBuf, incoming }
  | (.full, lenBuf, incoming, turns) =>
    let chunkLen := u16At lenBuf 0
    if chunkLen = 0 then endRead { s with lenBuf := [], incoming }
    else
      .again { s with lenBuf := [], incoming, chunkLen, chunk := [], state := .chunkPayload } turns

/-- `ReadState::ChunkPayload`. -/
def readChunkPayload (s : VMessStream) (turns : List Behaviour) : VMessTurn :=
  match AsyncIo.fill s.chunkLen s.chunk s.incoming turns with
  | (.pending, chunk, incoming, _) => .answer none { s with chunk, incoming }
  | (.failed, chunk, incoming, _) => endRead { s with chunk, incoming }
  | (.ended, chunk, incoming, _) => endRead { s with chunk, incoming }
  | (.full, chunk, incoming, turns) =>
    match s.readCipher.decrypt s.readCount chunk with
    | none => endRead { s with chunk, incoming }
    | some plain =>
      let s := { s with
        incoming, chunk := plain, readCount := (s.readCount + 1) % 65536, plainPos := 0 }
      -- a chunk without bytes is skipped, because no bytes would mean the end
      .again { s with state := if plain = [] then .chunkLen else .plain } turns

/-- An iteration of the loop of `poll_read`, with room for so many bytes. -/
def readTurn (crypto : VMessCrypto) (s : VMessStream) (room : Nat) (turns : List Behaviour) :
    VMessTurn :=
  if room = 0 ∨ s.readEof then .answer (some (.ok [])) s
  else
    match s.fatal with
    | some e => .answer (some (.error e)) { s with fatal := none, readEof := true }
    | none =>
      match s.state with
      | .plain => s.readPlain room
      | .respHeaderLen => s.readRespHeaderLen crypto turns
      | .respHeaderPayload => s.readRespHeaderPayload crypto turns
      | .chunkLen => s.readChunkLen turns
      | .chunkPayload => s.readChunkPayload turns

/-- The loop of `poll_read`, at most a given number of iterations. -/
def readLoop (crypto : VMessCrypto) (room : Nat) :
    Nat → VMessStream → List Behaviour → VMessPoll Bytes × VMessStream
  | 0, s, _ => (none, s)
  | fuel + 1, s, turns =>
    match s.readTurn crypto room turns with
    | .again s turns => readLoop crypto room fuel s turns
    | .answer answer s => (answer, s)

/-- The bytes of the server that are not done with. -/
def unfinished (s : VMessStream) : Nat :=
  s.incoming.length + s.respBuf.length + s.lenBuf.length + s.chunk.length

/-- `poll_read`. Each iteration but the last is done with some bytes: `readLoop_succ`. -/
def pollRead (crypto : VMessCrypto) (s : VMessStream) (room : Nat) (turns : List Behaviour) :
    VMessPoll Bytes × VMessStream :=
  readLoop crypto room (s.unfinished + 2) s turns

/-! ### Writing -/

/-- The answer of `poll_flush_out`. -/
def flushAnswer : FlushAnswer → VMessPoll Unit
  | .pending => none
  | .failed => some (.error .io)
  | .zero => some (.error .writeZero)
  | .done => some (.ok ())

/-- `poll_flush_out`. -/
def pollFlushOut (s : VMessStream) (turns : List Behaviour) :
    VMessPoll Unit × VMessStream × List Behaviour :=
  let (answer, wire, turns) := s.wire.flush turns
  (flushAnswer answer, { s with wire }, turns)

/-- The chunk in flight is on the wire: the nonce counter advances. -/
def completeWrite (s : VMessStream) : VMessStream :=
  { s with writeInFlight := none, writeCount := (s.writeCount + 1) % 65536 }

/-- The part of `poll_write` that takes bytes of the caller. `out` is empty then, because a flush
clears it. -/
def writeChunk (s : VMessStream) (buf : Bytes) (turns : List Behaviour) :
    VMessPoll Nat × VMessStream :=
  if buf = [] then (some (.ok 0), s)
  else
    let n := min buf.length s.maxChunk
    let s := { s with
      wire := s.wire.queue (s.writeCount, buf.take n)
        (s.writeCipher.chunk s.writeCount (buf.take n))
      writeInFlight := some n }
    match s.pollFlushOut turns with
    | (none, s, _) => (none, s)
    | (some (.error e), s, _) => (some (.error e), { s with writeInFlight := none })
    | (some (.ok ()), s, _) => (some (.ok n), s.completeWrite)

/-- `poll_write`. -/
def pollWrite (s : VMessStream) (buf : Bytes) (turns : List Behaviour) :
    VMessPoll Nat × VMessStream :=
  if s.writeClosed then (some (.error .closed), s)
  else if s.writeInFlight.isSome ∨ s.wire.pos < s.wire.out.length then
    match s.pollFlushOut turns with
    | (none, s, _) => (none, s)
    | (some (.error e), s, _) => (some (.error e), { s with writeInFlight := none })
    | (some (.ok ()), s, turns) =>
      match s.writeInFlight with
      | some n => (some (.ok n), s.completeWrite)
      | none => s.writeChunk buf turns
  else s.writeChunk buf turns

/-- `poll_flush`. -/
def pollFlush (s : VMessStream) (turns : List Behaviour) : VMessPoll Unit × VMessStream :=
  match s.pollFlushOut turns with
  | (answer, s, _) => (answer, s)

/-- `poll_shutdown`. -/
def pollShutdown (s : VMessStream) (turns : List Behaviour) : VMessPoll Unit × VMessStream :=
  match s.pollFlushOut turns with
  | (none, s, _) => (none, s)
  | (some (.error e), s, _) => (some (.error e), s)
  | (some (.ok ()), s, turns) =>
    -- the shutdown of the stream below
    match turns with
    | [] => (none, s)
    | .pending :: _ => (none, s)
    | .failed :: _ => (some (.error .io), s)
    | .ready _ :: _ => (some (.ok ()), { s with writeClosed := true })

end VMessStream

/-! ## Runs -/

/-- A poll by the caller, with the turns of the stream below. -/
inductive VMessEvent where
  | read (room : Nat) (turns : List Behaviour)
  | write (buf : Bytes) (turns : List Behaviour)
  | flush (turns : List Behaviour)
  | shutdown (turns : List Behaviour)
deriving DecidableEq, Repr

namespace VMessEvent

/-- The turns of the stream below in a poll. -/
def turns : VMessEvent → List Behaviour
  | read _ turns => turns
  | write _ turns => turns
  | flush turns => turns
  | shutdown turns => turns

/-- The poll is one of `poll_write`. -/
def isWrite : VMessEvent → Bool
  | write _ _ => true
  | _ => false

end VMessEvent

/-- A stream with what its caller saw: the answers to reads that had room, the bytes whose write it
was told, and the buffer of a write that pends. -/
structure VMessRun where
  stream : VMessStream
  reads : List (Except VMessError Bytes)
  acks : List Bytes
  pended : Option Bytes

namespace VMessRun

/-- Before the first poll. -/
def new (stream : VMessStream) : VMessRun :=
  ⟨stream, [], [], none⟩

/-- The bytes that the caller was given. -/
def delivered (r : VMessRun) : Bytes :=
  r.reads.flatMap fun
    | .ok bytes => bytes
    | .error _ => []

/-- The caller got an answer, or none. -/
def afterRead (r : VMessRun) (room : Nat) : VMessPoll Bytes × VMessStream → VMessRun
  | (none, s) => { r with stream := s }
  | (some answer, s) =>
    { r with stream := s, reads := if room = 0 then r.reads else r.reads ++ [answer] }

/-- The caller learned what became of its buffer. -/
def afterWrite (r : VMessRun) (buf : Bytes) : VMessPoll Nat × VMessStream → VMessRun
  | (none, s) => { r with stream := s, pended := some buf }
  | (some (.ok n), s) =>
    { r with
      stream := s, acks := if n = 0 then r.acks else r.acks ++ [buf.take n], pended := none }
  | (some (.error _), s) => { r with stream := s, pended := none }

/-- A poll. -/
def poll (crypto : VMessCrypto) (r : VMessRun) : VMessEvent → VMessRun
  | .read room turns => r.afterRead room (r.stream.pollRead crypto room turns)
  | .write buf turns => r.afterWrite buf (r.stream.pollWrite buf turns)
  | .flush turns => { r with stream := (r.stream.pollFlush turns).2 }
  | .shutdown turns => { r with stream := (r.stream.pollShutdown turns).2 }

/-- A write that pended is tried again with the same buffer; other polls may come in between. -/
def Retries (r : VMessRun) : VMessEvent → Prop
  | .write buf _ => ∀ pended ∈ r.pended, buf = pended
  | _ => True

end VMessRun

end Sockrocket
