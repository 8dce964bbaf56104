import Sockrocket.Proxy.VisionRecords

/-!
# Vision streams

The second half of `proxy/vision.rs`. The first writes of a connection travel in frames with padding,
to hide the sizes of the inner TLS handshake. The last frame carries a command: with 1 the bytes go
on as they are through the outer TLS layer, with 2 they go around it, over the connection below. The
reader undoes this, whatever pieces the bytes come in.

The outer TLS layer is a reliable byte stream in both directions, and so is the connection below it.
How much they take or bring at a poll, and when they wait or fail, is up to them.
-/

namespace Sockrocket

open Dns AsyncIo Slice List

/-- `CHUNK`. -/
def visionChunk : Nat := 16 * 1024

/-- `MAX_FRAME`. -/
def visionMaxFrame : Nat := 21 + 2 * 65535

/-- The errors of a Vision stream. `io` is one of the layers below. -/
inductive VisionError where
  | io
  | streamFailed
  | writeZero
  | unexpectedEof
  | invalidResponse
  | invalidUuid
  | invalidCommand
  | insideRecord
  | exceedsLimit
  | truncatedFrame
deriving DecidableEq, Repr

/-- The answer to a poll, `none` for `Poll::Pending`. -/
abbrev VisionPoll (β : Type) :=
  Option (Except VisionError β)

/-- The TLS layer and the connection below: the plain bytes to come through the layer, the raw bytes
to come after them, what the layer accepted, how much of that is flushed, and what went around it. -/
structure TlsLayer where
  plain : Bytes
  raw : Bytes
  sent : Bytes
  flushed : Nat
  sentRaw : Bytes
deriving DecidableEq, Repr

/-- The sixteen bytes of a user. -/
structure Uuid where
  bytes : Bytes
  size : bytes.length = 16
deriving DecidableEq, Repr

/-- `VisionStream`. Every path sets `ready_at` to 0, so it is left out. -/
structure VisionStream where
  tls : TlsLayer
  uuid : Uuid
  response : Bytes
  responseLeft : Option Nat
  responseDone : Bool
  encoded : Bytes
  firstRead : Bool
  readingPadding : Bool
  rawRead : Bool
  ready : Bytes
  wire : Bytes
  wireAt : Nat
  writeCommand : UInt8
  firstWrite : Bool
  writingPadding : Bool
  rawWrite : Bool
  inbound : Records
  outbound : Records
  writes : Nat
  failed : Bool
deriving DecidableEq, Repr

/-- `Records::feed` where it answers, which is everywhere by `Records.returns_feed`. -/
def Records.fed (records : Records) (bytes : Bytes) (server : Bool) : Bool × Records :=
  match records.feed bytes server with
  | .ok fed => fed
  | .error _ => (false, records)

namespace VisionStream

/-- `VisionStream::new`. -/
def new (plain raw : Bytes) (uuid : Uuid) : VisionStream where
  tls := ⟨plain, raw, [], 0, []⟩
  uuid := uuid
  response := []
  responseLeft := none
  responseDone := false
  encoded := []
  firstRead := true
  readingPadding := true
  rawRead := false
  ready := []
  wire := []
  wireAt := 0
  writeCommand := 0
  firstWrite := true
  writingPadding := true
  rawWrite := false
  inbound := .default
  outbound := .default
  writes := 0
  failed := false

/-! ## Writing -/

/-- The TLS layer takes some of these bytes. -/
def send (this : VisionStream) (bytes : Bytes) : VisionStream :=
  { this with tls := { this.tls with sent := this.tls.sent ++ bytes } }

/-- The connection below takes some of these bytes. -/
def sendRaw (this : VisionStream) (bytes : Bytes) : VisionStream :=
  { this with tls := { this.tls with sentRaw := this.tls.sentRaw ++ bytes } }

/-- The TLS layer has passed on everything. -/
def flushTls (this : VisionStream) : VisionStream :=
  { this with tls := { this.tls with flushed := this.tls.sent.length } }

/-- The loop of `drain_wire`, over the answers of the TLS layer to its writes. -/
def drainLoop : List Behaviour → VisionStream → VisionPoll Unit × VisionStream
  | [], this => (if this.wireAt < this.wire.length then none else some (.ok ()), this)
  | answer :: answers, this =>
    if this.wireAt < this.wire.length then
      match answer with
      | .pending => (none, this)
      | .failed => (some (.error .io), this)
      | .ready size =>
        let n := min size (this.wire.length - this.wireAt)
        if n = 0 then (some (.error .writeZero), this)
        else drainLoop answers
          { this.send ((this.wire.drop this.wireAt).take n) with wireAt := this.wireAt + n }
    else (some (.ok ()), this)

/-- What the layers answer to the calls of one poll: to the writes of `drain_wire`, to its flush, to
the write or flush after it, and to a shutdown. -/
structure WriteAnswers where
  writes : List Behaviour
  flush : Behaviour
  last : Behaviour
  shutdown : Behaviour
deriving DecidableEq, Repr

/-- The end of `drain_wire`. -/
def clearWire (this : VisionStream) : VisionStream :=
  { this with wire := [], wireAt := 0 }

/-- `VisionStream::drain_wire`. -/
def drainWire (this : VisionStream) (answers : WriteAnswers) : VisionPoll Unit × VisionStream :=
  match drainLoop answers.writes this with
  | (some (.ok ()), this) =>
    if !this.wire.isEmpty && this.writeCommand == 2 then
      match answers.flush with
      | .pending => (none, this)
      | .failed => (some (.error .io), this)
      | .ready _ => (some (.ok ()), { this.flushTls with rawWrite := true }.clearWire)
    else (some (.ok ()), this.clearWire)
  | other => other

/-- The frame of a padded write. -/
def frame (command : UInt8) (padding : Nat) (content : Bytes) : Bytes :=
  command :: be16 content.length ++ be16 padding ++ content ++ List.replicate padding 0

/-- The part of `poll_write` that puts a frame on the wire, with the random byte of its padding. -/
def writeFrame (this : VisionStream) (content : Bytes) (random : UInt8) : VisionStream :=
  let writes := this.writes + 1
  let (application, outbound) := this.outbound.fed content false
  let command : UInt8 :=
    if application then if this.inbound.enabled then 2 else 1
    else if 8 ≤ writes then 1 else 0
  let padding :=
    if outbound.seenTls && content.length < 900 then 900 - content.length + random.toNat
    else random.toNat
  let head := if this.firstWrite then this.uuid.bytes else []
  { this with
    writes, outbound
    firstWrite := false
    wire := this.wire ++ head ++ frame command padding content
    writeCommand := command
    writingPadding := if command ≠ 0 then false else this.writingPadding }

/-- `VisionStream::poll_write`: the number of bytes it accepted. -/
def pollWrite (this : VisionStream) (buf : Bytes) (random : UInt8) (answers : WriteAnswers) :
    VisionPoll Nat × VisionStream :=
  if this.failed then (some (.error .streamFailed), this)
  else
    match this.drainWire answers with
    | (none, this) => (none, this)
    | (some (.error e), this) => (some (.error e), this)
    | (some (.ok ()), this) =>
      if this.rawWrite || !this.writingPadding then
        match answers.last with
        | .pending => (none, this)
        | .failed => (some (.error .io), this)
        | .ready size =>
          let n := min size buf.length
          (some (.ok n),
            if this.rawWrite then this.sendRaw (buf.take n) else this.send (buf.take n))
      else if buf.isEmpty then (some (.ok 0), this)
      else
        let n := min buf.length visionChunk
        (some (.ok n), this.writeFrame (buf.take n) random)

/-- The answer of a layer to a call that moves no bytes of the stream. -/
def answerOf : Behaviour → VisionPoll Unit
  | .pending => none
  | .failed => some (.error .io)
  | .ready _ => some (.ok ())

/-- A flush of the TLS layer. -/
def pollFlushTls (this : VisionStream) (answer : Behaviour) : VisionPoll Unit × VisionStream :=
  match answer with
  | .ready _ => (some (.ok ()), this.flushTls)
  | other => (answerOf other, this)

/-- `VisionStream::poll_flush`. -/
def pollFlush (this : VisionStream) (answers : WriteAnswers) : VisionPoll Unit × VisionStream :=
  match this.drainWire answers with
  | (some (.ok ()), this) =>
    if this.rawWrite then (answerOf answers.last, this) else this.pollFlushTls answers.last
  | other => other

/-- `VisionStream::poll_shutdown`. -/
def pollShutdown (this : VisionStream) (answers : WriteAnswers) : VisionPoll Unit × VisionStream :=
  match this.drainWire answers with
  | (some (.ok ()), this) =>
    if this.rawRead && !this.rawWrite then
      match this.pollFlushTls answers.last with
      | (some (.ok ()), this) => (answerOf answers.shutdown, this)
      | other => other
    else (answerOf answers.shutdown, this)
  | other => other

/-! ## Reading -/

/-- `VisionStream::decode`; `boundary` is the answer of `at_boundary`. -/
def decode (this : VisionStream) (boundary : Bool) : Except VisionError Bool × VisionStream :=
  if !this.readingPadding then
    (.ok (!this.encoded.isEmpty), { this with ready := this.encoded, encoded := [] })
  else
    let start := if this.firstRead then 16 else 0
    if this.encoded.length < start + 5 then (.ok false, this)
    else if this.firstRead && this.encoded.take 16 != this.uuid.bytes then
      (.error .invalidUuid, this)
    else
      let command := byteAt this.encoded start
      if 2 < command then (.error .invalidCommand, this)
      else
        let content := u16At this.encoded (start + 1)
        let padding := u16At this.encoded (start + 3)
        let size := start + 5 + content + padding
        if this.encoded.length < size then (.ok false, this)
        else
          let ready := (this.encoded.drop (start + 5)).take content
          let (_, inbound) := this.inbound.fed ready true
          let rest := this.encoded.drop size
          if command = 0 then
            (.ok (!ready.isEmpty), { this with ready, inbound, encoded := rest, firstRead := false })
          else
            let this := { this with
              inbound
              ready := ready ++ rest
              encoded := []
              firstRead := false
              readingPadding := false }
            if command = 2 then
              if !boundary then (.error .insideRecord, this)
              else (.ok (!this.ready.isEmpty), { this with rawRead := true })
            else (.ok (!this.ready.isEmpty), this)

/-- What the layers answer in one turn of `poll_read`: a read of the TLS layer, a read of the
connection below, and `at_boundary` with these plain bytes to come. -/
structure ReadAnswers where
  tls : Behaviour
  below : Behaviour
  boundary : Bytes → Bool

/-- The state with these plain bytes to come. -/
def withPlain (this : VisionStream) (plain : Bytes) : VisionStream :=
  { this with tls := { this.tls with plain } }

/-- A turn on the head of a VLESS response, `none` to go on. -/
def responseTurn (this : VisionStream) (answers : ReadAnswers) :
    Option (VisionPoll Bytes) × VisionStream :=
  let need := this.responseLeft.getD (2 - this.response.length)
  if need = 0 then (none, { this with responseDone := true })
  else
    match answers.tls.read this.tls.plain need with
    | (.pending, _) => (some none, this)
    | (.failed, _) => (some (some (.error .io)), this)
    | (.ready chunk, plain) =>
      let this := this.withPlain plain
      if chunk.isEmpty then (some (some (.error .unexpectedEof)), this)
      else
        match this.responseLeft with
        | some left => (none, { this with responseLeft := some (left - chunk.length) })
        | none =>
          let response := this.response ++ chunk
          if response.length = 2 then
            if byteAt response 0 ≠ 0 then
              (some (some (.error .invalidResponse)), { this with response })
            else (none, { this with response, responseLeft := some (byteAt response 1) })
          else (none, { this with response })

/-- A turn after the change to raw bytes: first the plain bytes that the TLS layer still holds, then
the connection. The layer was at the end of a record, so it holds all the plain bytes there are and
its reader does not wait for more. -/
def rawTurn (this : VisionStream) (room : Nat) (answers : ReadAnswers) :
    VisionPoll Bytes × VisionStream :=
  if answers.tls = .failed then (some (.error .io), this)
  else if !this.tls.plain.isEmpty then
    let size := match answers.tls with
      | .ready size => max 1 size
      | _ => 1
    let n := min size (min room visionChunk)
    (some (.ok (this.tls.plain.take n)), this.withPlain (this.tls.plain.drop n))
  else
    match answers.below.read this.tls.raw room with
    | (.pending, _) => (none, this)
    | (.failed, _) => (some (.error .io), this)
    | (.ready bytes, raw) => (some (.ok bytes), { this with tls := { this.tls with raw } })

/-- A read of the TLS layer for more of a frame, `none` to go on. -/
def moreTurn (this : VisionStream) (answers : ReadAnswers) :
    Option (VisionPoll Bytes) × VisionStream :=
  match answers.tls.read this.tls.plain 4096 with
  | (.pending, _) => (some none, this)
  | (.failed, _) => (some (some (.error .io)), this)
  | (.ready chunk, plain) =>
    let this := this.withPlain plain
    if chunk.isEmpty then
      if this.encoded.isEmpty then (some (some (.ok [])), this)
      else (some (some (.error .truncatedFrame)), this)
    else (none, { this with encoded := this.encoded ++ chunk })

/-- A turn on frames, `none` to go on. -/
def frameTurn (this : VisionStream) (answers : ReadAnswers) :
    Option (VisionPoll Bytes) × VisionStream :=
  match this.decode (answers.boundary this.tls.plain) with
  | (.error e, next) => (some (some (.error e)), next)
  | (.ok true, next) => (none, next)
  | (.ok false, next) =>
    if next.encoded.length < this.encoded.length then (none, next)
    else if next.rawRead then (none, next)
    else if visionMaxFrame < next.encoded.length then
      (some (some (.error .exceedsLimit)), next)
    else next.moreTurn answers

/-- One turn of the loop of `poll_read`, `none` to go on. -/
def readTurn (this : VisionStream) (room : Nat) (answers : ReadAnswers) :
    Option (VisionPoll Bytes) × VisionStream :=
  if !this.ready.isEmpty then
    let n := min room this.ready.length
    (some (some (.ok (this.ready.take n))), { this with ready := this.ready.drop n })
  else if !this.responseDone then this.responseTurn answers
  else if this.rawRead then
    let (answer, next) := this.rawTurn room answers
    (some answer, next)
  else this.frameTurn answers

/-- The loop of `poll_read`. After its last turn the task wakes itself. -/
def readLoop (room : Nat) (answers : Nat → ReadAnswers) :
    Nat → VisionStream → VisionPoll Bytes × VisionStream
  | 0, this => (none, this)
  | turns + 1, this =>
    match this.readTurn room (answers turns) with
    | (some answer, next) => (answer, next)
    | (none, next) => readLoop room answers turns next

/-- `VisionStream::poll_read`, for a buffer with `room` bytes of room. -/
def pollRead (this : VisionStream) (room : Nat) (answers : Nat → ReadAnswers) :
    VisionPoll Bytes × VisionStream :=
  if room = 0 then (some (.ok []), this)
  else if this.failed then (some (.error .streamFailed), this)
  else
    match readLoop room answers 64 this with
    | (some (.error e), next) => (some (.error e), { next with failed := true })
    | other => other

/-- The polls of a Vision stream. -/
inductive Event where
  | read (room : Nat) (answers : Nat → ReadAnswers)
  | write (buf : Bytes) (random : UInt8) (answers : WriteAnswers)
  | flush (answers : WriteAnswers)
  | shutdown (answers : WriteAnswers)

/-- One poll: the bytes it accepted, and the state it leaves. -/
def handle (this : VisionStream) : Event → Bytes × VisionStream
  | .read room answers => ([], (this.pollRead room answers).2)
  | .write buf random answers =>
    match this.pollWrite buf random answers with
    | (some (.ok n), next) => (buf.take n, next)
    | (_, next) => ([], next)
  | .flush answers => ([], (this.pollFlush answers).2)
  | .shutdown answers => ([], (this.pollShutdown answers).2)

/-- Polls one after the other. -/
def serve (this : VisionStream) : List Event → Bytes × VisionStream
  | [] => ([], this)
  | event :: events =>
    let (bytes, next) := this.handle event
    let (more, last) := next.serve events
    (bytes ++ more, last)

end VisionStream

/-! ## What a writer puts on the wire -/

/-- A frame of a padded write. -/
structure VisionFrame where
  command : UInt8
  padding : Nat
  content : Bytes
deriving DecidableEq, Repr

/-- The bytes of a frame. -/
def VisionFrame.encode (frame : VisionFrame) : Bytes :=
  VisionStream.frame frame.command frame.padding frame.content

/-- Both length fields hold the length. -/
structure VisionFrame.Exact (frame : VisionFrame) : Prop where
  content : u16At (be16 frame.content.length) 0 = frame.content.length
  padding : u16At (be16 frame.padding) 0 = frame.padding

/-- The frames of a connection, the first with the user in front. -/
def encodeFrames (uuid : Uuid) : List VisionFrame → Bytes
  | [] => []
  | frame :: frames => uuid.bytes ++ (frame :: frames).flatMap VisionFrame.encode

theorem encodeFrames_snoc (uuid : Uuid) (frames : List VisionFrame) (frame : VisionFrame) :
    encodeFrames uuid (frames ++ [frame]) = encodeFrames uuid frames ++
      ((if frames.isEmpty then uuid.bytes else []) ++ frame.encode) := by
  cases frames with
  | nil =>
    show uuid.bytes ++ (frame.encode ++ []) = [] ++ (uuid.bytes ++ frame.encode)
    rw [append_nil, nil_append]
  | cons first frames =>
    show uuid.bytes ++ ((first :: frames) ++ [frame]).flatMap VisionFrame.encode =
      uuid.bytes ++ (first :: frames).flatMap VisionFrame.encode ++ ([] ++ frame.encode)
    rw [flatMap_append, flatMap_singleton, nil_append, append_assoc]

namespace VisionStream

/-- What went into the TLS layer and what waits to go there. -/
def produced (this : VisionStream) : Bytes :=
  this.tls.sent ++ this.wire.drop this.wireAt

/-- The commands of the frames so far: no command while writes are padded, and then one, in the last
frame. -/
def Commands (this : VisionStream) (frames : List VisionFrame) : Prop :=
  (this.writingPadding = true ∧ this.writeCommand = 0 ∧ frames.length < 8 ∧
    ∀ frame ∈ frames, frame.command = 0) ∨
  (this.writingPadding = false ∧ frames.length ≤ 8 ∧ ∃ before last, frames = before ++ [last] ∧
    (∀ frame ∈ before, frame.command = 0) ∧ (last.command = 1 ∨ last.command = 2) ∧
    this.writeCommand = last.command)

/-- The state of the writer after it accepted some bytes: `frames` of them, then `direct` ones. -/
structure Written (this : VisionStream) (uuid : Uuid) (accepted : Bytes) (frames : List VisionFrame)
    (direct : Bytes) : Prop where
  user : this.uuid = uuid
  accepted : accepted = frames.flatMap VisionFrame.content ++ direct
  produced : this.produced =
    encodeFrames uuid frames ++ if this.writeCommand = 2 then [] else direct
  raw : this.tls.sentRaw = if this.writeCommand = 2 then direct else []
  writes : this.writes = frames.length
  first : this.firstWrite = frames.isEmpty
  exact : ∀ frame ∈ frames, frame.Exact
  commands : this.Commands frames
  padded : this.writingPadding = true → direct = []
  drained : direct ≠ [] → this.wire = []
  position : this.wire = [] → this.wireAt = 0
  rawWrite : this.rawWrite = true →
    this.writeCommand = 2 ∧ this.wire = [] ∧ this.tls.flushed = this.tls.sent.length
  turned : this.writeCommand = 2 → this.wire = [] → this.rawWrite = true

/-- The part of the state that a read leaves alone. -/
def writeSide (this : VisionStream) :=
  (this.uuid, this.wire, this.wireAt, this.writeCommand, this.firstWrite, this.writingPadding,
    this.rawWrite, this.writes, this.tls.sent, this.tls.flushed, this.tls.sentRaw)

theorem Written.of_writeSide {this next : VisionStream} {uuid : Uuid} {accepted direct : Bytes}
    {frames : List VisionFrame} (h : this.Written uuid accepted frames direct)
    (hside : next.writeSide = this.writeSide) : next.Written uuid accepted frames direct := by
  simp only [writeSide, Prod.mk.injEq] at hside
  obtain ⟨huuid, hwire, hwireAt, hcommand, hfirst, hpadding, hraw, hwrites, hsent, hflushed,
    hsentRaw⟩ := hside
  constructor
  · exact huuid.trans h.user
  · exact h.accepted
  · rw [VisionStream.produced, hsent, hwire, hwireAt, hcommand]
    exact h.produced
  · rw [hsentRaw, hcommand]
    exact h.raw
  · rw [hwrites]
    exact h.writes
  · rw [hfirst]
    exact h.first
  · exact h.exact
  · rw [Commands, hpadding, hcommand]
    exact h.commands
  · rw [hpadding]
    exact h.padded
  · rw [hwire]
    exact h.drained
  · rw [hwire, hwireAt]
    exact h.position
  · rw [hraw, hcommand, hwire, hflushed, hsent]
    exact h.rawWrite
  · rw [hraw, hcommand, hwire]
    exact h.turned

/-! ## Reads leave the writer alone -/

theorem decode_writeSide (this : VisionStream) (boundary : Bool) :
    (this.decode boundary).2.writeSide = this.writeSide := by
  unfold decode
  dsimp only
  repeat' split
  all_goals rfl

theorem responseTurn_writeSide (this : VisionStream) (answers : ReadAnswers) :
    (this.responseTurn answers).2.writeSide = this.writeSide := by
  unfold responseTurn withPlain
  dsimp only
  repeat' split
  all_goals rfl

theorem rawTurn_writeSide (this : VisionStream) (room : Nat) (answers : ReadAnswers) :
    (this.rawTurn room answers).2.writeSide = this.writeSide := by
  unfold rawTurn withPlain
  dsimp only
  repeat' split
  all_goals rfl

theorem moreTurn_writeSide (this : VisionStream) (answers : ReadAnswers) :
    (this.moreTurn answers).2.writeSide = this.writeSide := by
  unfold moreTurn withPlain
  dsimp only
  repeat' split
  all_goals rfl

theorem frameTurn_writeSide (this : VisionStream) (answers : ReadAnswers) :
    (this.frameTurn answers).2.writeSide = this.writeSide := by
  have hdecode := this.decode_writeSide (answers.boundary this.tls.plain)
  unfold frameTurn
  split
  · rename_i heq
    rw [heq] at hdecode
    exact hdecode
  · rename_i heq
    rw [heq] at hdecode
    exact hdecode
  rename_i heq
  rw [heq] at hdecode
  split
  · exact hdecode
  split
  · exact hdecode
  · split
    · exact hdecode
    · exact (moreTurn_writeSide _ answers).trans hdecode

theorem readTurn_writeSide (this : VisionStream) (room : Nat) (answers : ReadAnswers) :
    (this.readTurn room answers).2.writeSide = this.writeSide := by
  unfold readTurn
  split
  · rfl
  split
  · exact this.responseTurn_writeSide answers
  · split
    · exact this.rawTurn_writeSide room answers
    · exact this.frameTurn_writeSide answers

theorem readLoop_writeSide (room : Nat) (answers : Nat → ReadAnswers) (turns : Nat)
    (this : VisionStream) : (readLoop room answers turns this).2.writeSide = this.writeSide := by
  induction turns generalizing this with
  | zero => rfl
  | succ turns ih =>
    have hturn := this.readTurn_writeSide room (answers turns)
    rw [readLoop]
    split
    · rename_i heq
      rw [heq] at hturn
      exact hturn
    · rename_i heq
      rw [heq] at hturn
      exact (ih _).trans hturn

theorem pollRead_writeSide (this : VisionStream) (room : Nat) (answers : Nat → ReadAnswers) :
    (this.pollRead room answers).2.writeSide = this.writeSide := by
  have hloop := readLoop_writeSide room answers 64 this
  unfold pollRead
  split
  · rfl
  split
  · rfl
  split
  · rename_i heq
    rw [heq] at hloop
    exact hloop
  · exact hloop

/-! ## What the writer keeps -/

namespace Written

variable {this : VisionStream} {uuid : Uuid} {accepted direct : Bytes} {frames : List VisionFrame}

theorem start (plain raw : Bytes) (uuid : Uuid) (inbound : Records) :
    Written { new plain raw uuid with inbound } uuid [] [] [] where
  user := rfl
  accepted := rfl
  produced := rfl
  raw := rfl
  writes := rfl
  first := rfl
  exact := nofun
  commands := .inl ⟨rfl, rfl, by decide, nofun⟩
  padded := fun _ => rfl
  drained := fun _ => rfl
  position := fun _ => rfl
  rawWrite := nofun
  turned := nofun

section

variable (h : this.Written uuid accepted frames direct)

include h

/-- A write of the loop moves bytes from the wire to the TLS layer. -/
theorem sendWire (hmore : this.wireAt < this.wire.length)
    (n : Nat) :
    Written { this.send ((this.wire.drop this.wireAt).take n) with wireAt := this.wireAt + n }
      uuid accepted frames direct := by
  have hwire : this.wire ≠ [] := by
    intro hnil
    rw [hnil] at hmore
    exact absurd hmore (Nat.not_lt_zero _)
  refine { h with
    produced := ?_
    position := fun hnil => absurd hnil hwire
    rawWrite := fun hraw => absurd (h.rawWrite hraw).2.1 hwire }
  show this.tls.sent ++ (this.wire.drop this.wireAt).take n ++ this.wire.drop (this.wireAt + n) = _
  rw [append_assoc, ← drop_drop, take_append_drop]
  exact h.produced

theorem drainLoop (answers : List Behaviour) :
    (VisionStream.drainLoop answers this).2.Written uuid accepted frames direct ∧
      ((VisionStream.drainLoop answers this).1 = some (.ok ()) →
        (VisionStream.drainLoop answers this).2.wire.length ≤
          (VisionStream.drainLoop answers this).2.wireAt) := by
  induction answers generalizing this with
  | nil =>
    refine ⟨h, fun hdone => ?_⟩
    change (if this.wireAt < this.wire.length then none else some (Except.ok ())) = _ at hdone
    show this.wire.length ≤ this.wireAt
    split at hdone
    · cases hdone
    · omega
  | cons answer answers ih =>
    unfold VisionStream.drainLoop
    split
    · rename_i hmore
      cases answer with
      | pending | failed => exact ⟨h, nofun⟩
      | ready size =>
        dsimp only
        split
        · exact ⟨h, nofun⟩
        · exact ih (h.sendWire hmore _)
    · rename_i hless
      exact ⟨h, fun _ => not_lt.mp hless⟩

/-- The wire is cleared once the TLS layer has all of it. -/
theorem clearWire (hdone : this.wire.length ≤ this.wireAt)
    (hturned : this.writeCommand = 2 → this.rawWrite) :
    this.clearWire.Written uuid accepted frames direct := by
  refine { h with
    produced := ?_
    drained := fun _ => rfl
    position := fun _ => rfl
    rawWrite := ?_
    turned := fun hc _ => hturned hc }
  · have hproduced := h.produced
    rw [VisionStream.produced, drop_of_length_le hdone] at hproduced
    exact hproduced
  · intro hraw
    obtain ⟨hcommand, -, hflushed⟩ := h.rawWrite hraw
    exact ⟨hcommand, rfl, hflushed⟩

/-- A flush of the TLS layer. -/
theorem flushTls :
    this.flushTls.Written uuid accepted frames direct := by
  refine { h with rawWrite := fun hraw => ?_ }
  obtain ⟨hcommand, hwire, -⟩ := h.rawWrite hraw
  exact ⟨hcommand, hwire, rfl⟩

/-- The change to raw writes, after a frame with command 2. -/
theorem turn (hdone : this.wire.length ≤ this.wireAt)
    (hcommand : this.writeCommand = 2) :
    Written { this.flushTls with rawWrite := true }.clearWire uuid accepted frames direct := by
  refine { h with
    produced := ?_
    drained := fun _ => rfl
    position := fun _ => rfl
    rawWrite := fun _ => ⟨hcommand, rfl, rfl⟩
    turned := fun _ _ => rfl }
  have hproduced := h.produced
  rw [VisionStream.produced, drop_of_length_le hdone] at hproduced
  exact hproduced

theorem drainWire (answers : WriteAnswers) :
    (this.drainWire answers).2.Written uuid accepted frames direct ∧
      ((this.drainWire answers).1 = some (.ok ()) → (this.drainWire answers).2.wire = []) := by
  obtain ⟨hloop, hdone⟩ := h.drainLoop answers.writes
  unfold VisionStream.drainWire
  split
  · rename_i next heq
    rw [heq] at hloop hdone
    have hdone := hdone rfl
    dsimp only at hloop hdone
    split
    · rename_i hturn
      rw [Bool.and_eq_true, beq_iff_eq] at hturn
      split
      · exact ⟨hloop, nofun⟩
      · exact ⟨hloop, nofun⟩
      · exact ⟨hloop.turn hdone hturn.2, fun _ => rfl⟩
    · rename_i hturn
      refine ⟨hloop.clearWire hdone fun hcommand => hloop.turned hcommand ?_, fun _ => rfl⟩
      by_contra hwire
      refine hturn ?_
      rw [Bool.and_eq_true, Bool.not_eq_true', isEmpty_eq_false_iff, beq_iff_eq]
      exact ⟨hwire, hcommand⟩
  · rename_i hother
    exact ⟨hloop, fun hready => (hother _ (Prod.ext hready rfl)).elim⟩

/-- Bytes that go on as they are. -/
theorem sendDirect (hwire : this.wire = [])
    (hmode : this.rawWrite ∨ this.writingPadding = false) (bytes : Bytes) :
    (if this.rawWrite then this.sendRaw bytes else this.send bytes).Written uuid
      (accepted ++ bytes) frames (direct ++ bytes) := by
  have hpadding : this.writingPadding = false := by
    rcases hmode with hraw | hpadding
    · rcases h.commands with ⟨-, hcommand, -⟩ | ⟨hpadding, -⟩
      · rw [(h.rawWrite hraw).1] at hcommand
        cases hcommand
      · exact hpadding
    · exact hpadding
  have hproduced := h.produced
  have haccepted : accepted ++ bytes = frames.flatMap VisionFrame.content ++ (direct ++ bytes) := by
    rw [h.accepted, append_assoc]
  have hpadded : this.writingPadding → direct ++ bytes = [] := by
    rw [hpadding]
    intro hfalse
    cases hfalse
  rw [VisionStream.produced, hwire, drop_nil, append_nil] at hproduced
  split
  · rename_i hraw
    obtain ⟨hcommand, -, hflushed⟩ := h.rawWrite hraw
    refine { h with
      accepted := haccepted
      produced := ?_
      raw := ?_
      padded := hpadded
      drained := fun _ => hwire
      rawWrite := fun _ => ⟨hcommand, hwire, hflushed⟩ }
    · show this.tls.sent ++ this.wire.drop this.wireAt =
        encodeFrames uuid frames ++ if this.writeCommand = 2 then [] else direct ++ bytes
      rw [hwire, drop_nil, append_nil, hproduced, if_pos hcommand, if_pos hcommand]
    · have hsent := h.raw
      rw [if_pos hcommand] at hsent
      show this.tls.sentRaw ++ bytes = if this.writeCommand = 2 then direct ++ bytes else []
      rw [if_pos hcommand, hsent]
  · rename_i hraw
    have hcommand : ¬ this.writeCommand = 2 := fun hc => hraw (h.turned hc hwire)
    refine { h with
      accepted := haccepted
      produced := ?_
      raw := ?_
      padded := hpadded
      drained := fun _ => hwire
      rawWrite := fun hc => absurd hc hraw }
    · show this.tls.sent ++ bytes ++ this.wire.drop this.wireAt =
        encodeFrames uuid frames ++ if this.writeCommand = 2 then [] else direct ++ bytes
      rw [hwire, drop_nil, append_nil, hproduced, if_neg hcommand, if_neg hcommand, append_assoc]
    · have hsent := h.raw
      rw [if_neg hcommand] at hsent
      show this.tls.sentRaw = if this.writeCommand = 2 then direct ++ bytes else []
      rw [if_neg hcommand, hsent]

end

variable {content : Bytes}

/-- The fields of a frame hold its lengths: the padding is at most 900 and a byte. -/
theorem exact_frame (hcontent : content.length ≤ visionChunk) (command : UInt8)
    (seen : Bool) (random : UInt8) :
    VisionFrame.Exact ⟨command, if seen && content.length < 900 then
      900 - content.length + random.toNat else random.toNat, content⟩ := by
  have hrandom := random.toNat_lt
  refine ⟨u16At_be16 ?_, u16At_be16 ?_⟩
  · exact lt_of_le_of_lt hcontent (by decide)
  · dsimp only
    split <;> omega

/-- A padded write. -/
theorem writeFrame (h : this.Written uuid accepted frames direct) (hwire : this.wire = [])
    (hpadding : this.writingPadding)
    (hcontent : content.length ≤ visionChunk) (random : UInt8) :
    ∃ frame, (this.writeFrame content random).Written uuid (accepted ++ content) (frames ++ [frame]) [] := by
  obtain rfl := h.padded hpadding
  obtain ⟨hcommand, hlength, hzero⟩ : this.writeCommand = 0 ∧ frames.length < 8 ∧
      ∀ frame ∈ frames, frame.command = 0 := by
    rcases h.commands with ⟨-, hrest⟩ | ⟨hfalse, -⟩
    · exact hrest
    · rw [hpadding] at hfalse
      cases hfalse
  have hproduced := h.produced
  rw [VisionStream.produced, hwire, drop_nil, append_nil, if_neg (by rw [hcommand]; decide),
    append_nil] at hproduced
  have hraw : ¬ this.rawWrite := by
    intro hraw
    rw [(h.rawWrite hraw).1] at hcommand
    cases hcommand
  unfold VisionStream.writeFrame
  generalize this.outbound.fed content false = fed
  obtain ⟨application, outbound⟩ := fed
  dsimp only
  generalize hpad : (if outbound.seenTls && content.length < 900 then
    900 - content.length + random.toNat else random.toNat) = padding
  generalize hcmd : (if application then if this.inbound.enabled then (2 : UInt8) else 1
    else if 8 ≤ this.writes + 1 then 1 else 0) = command
  have hcases : command = 0 ∧ this.writes + 1 < 8 ∨ command = 1 ∨ command = 2 := by
    subst hcmd
    split
    · split
      · exact .inr (.inr rfl)
      · exact .inr (.inl rfl)
    split
    · exact .inr (.inl rfl)
    · rename_i hwrites
      exact .inl ⟨rfl, not_le.mp hwrites⟩
  refine ⟨⟨command, padding, content⟩, ?_⟩
  constructor
  · exact h.user
  · rw [h.accepted, flatMap_append, flatMap_singleton, append_nil, append_nil]
  · show this.tls.sent ++ (this.wire ++ (if this.firstWrite then this.uuid.bytes else []) ++
      VisionStream.frame command padding content).drop this.wireAt = _
    rw [hwire, h.position hwire, drop_zero, nil_append, hproduced, h.first, h.user,
      encodeFrames_snoc, ite_self, append_nil]
    rfl
  · have hsent := h.raw
    rw [if_neg (by rw [hcommand]; decide)] at hsent
    rw [hsent, ite_self]
  · show this.writes + 1 = _
    rw [h.writes, length_append, length_singleton]
  · exact (isEmpty_eq_false_iff.mpr (append_ne_nil_of_right_ne_nil _ (by simp))).symm
  · intro frame hframe
    rcases mem_append.mp hframe with hframe | hframe
    · exact h.exact frame hframe
    · rw [mem_singleton.mp hframe, ← hpad]
      exact exact_frame hcontent command outbound.seenTls random
  · rcases hcases with ⟨rfl, hwrites⟩ | hend
    · refine .inl ⟨hpadding, rfl, ?_, ?_⟩
      · rw [length_append, length_singleton, ← h.writes]
        exact hwrites
      · intro frame hframe
        rcases mem_append.mp hframe with hframe | hframe
        · exact hzero frame hframe
        · rw [mem_singleton.mp hframe]
    · have hne : command ≠ 0 := by
        rcases hend with rfl | rfl <;> decide
      refine .inr ⟨if_pos hne, ?_, frames, _, rfl, hzero, hend, rfl⟩
      rw [length_append, length_singleton]
      omega
  · exact fun _ => rfl
  · exact fun hne => absurd rfl hne
  · exact fun hnil => absurd (append_eq_nil_iff.mp hnil).2 (cons_ne_nil _ _)
  · exact fun hc => absurd hc hraw
  · exact fun _ hnil => absurd (append_eq_nil_iff.mp hnil).2 (cons_ne_nil _ _)

/-- What a poll keeps of the writer. -/
theorem handle (h : this.Written uuid accepted frames direct) (event : Event) :
    ∃ frames' direct', (this.handle event).2.Written uuid (accepted ++ (this.handle event).1)
      frames' direct' := by
  cases event with
  | read room answers =>
    refine ⟨frames, direct, ?_⟩
    show (this.pollRead room answers).2.Written uuid (accepted ++ []) frames direct
    rw [append_nil]
    exact h.of_writeSide (this.pollRead_writeSide room answers)
  | write buf random answers =>
    have hsame {next : VisionStream} (hnext : next.Written uuid accepted frames direct) :
        ∃ frames' direct', next.Written uuid (accepted ++ []) frames' direct' := by
      rw [append_nil]
      exact ⟨frames, direct, hnext⟩
    obtain ⟨hdrain, hwire⟩ := h.drainWire answers
    unfold VisionStream.handle VisionStream.pollWrite
    dsimp only
    by_cases hfailed : this.failed
    · rw [if_pos hfailed]
      exact hsame h
    rw [if_neg hfailed]
    generalize this.drainWire answers = drained at hdrain hwire
    obtain ⟨answer, next⟩ := drained
    dsimp only at hdrain hwire
    match answer with
    | none | some (.error e) => exact hsame hdrain
    | some (.ok ()) =>
      have hwire := hwire rfl
      dsimp only
      by_cases hmode : (next.rawWrite || !next.writingPadding)
      · rw [if_pos hmode]
        rw [Bool.or_eq_true, Bool.not_eq_true'] at hmode
        match answers.last with
        | .pending | .failed => exact hsame hdrain
        | .ready size => exact ⟨frames, _, hdrain.sendDirect hwire hmode _⟩
      · rw [if_neg hmode]
        have hpadding : next.writingPadding := by
          rw [Bool.or_eq_true, Bool.not_eq_true', not_or, Bool.not_eq_false] at hmode
          exact hmode.2
        by_cases hempty : buf.isEmpty
        · rw [if_pos hempty]
          exact hsame hdrain
        rw [if_neg hempty]
        obtain ⟨frame, hframe⟩ := hdrain.writeFrame hwire hpadding
          (show (buf.take (min buf.length visionChunk)).length ≤ visionChunk by
            rw [length_take]; omega) random
        exact ⟨_, _, hframe⟩
  | flush answers =>
    refine ⟨frames, direct, ?_⟩
    show (this.pollFlush answers).2.Written uuid (accepted ++ []) frames direct
    rw [append_nil]
    have hdrain := (h.drainWire answers).1
    unfold VisionStream.pollFlush VisionStream.pollFlushTls
    split
    · rename_i heq
      rw [heq] at hdrain
      split
      · exact hdrain
      · split
        · exact hdrain.flushTls
        · exact hdrain
    · exact hdrain
  | shutdown answers =>
    refine ⟨frames, direct, ?_⟩
    show (this.pollShutdown answers).2.Written uuid (accepted ++ []) frames direct
    rw [append_nil]
    have hdrain := (h.drainWire answers).1
    unfold VisionStream.pollShutdown VisionStream.pollFlushTls
    split
    · rename_i heq
      rw [heq] at hdrain
      split
      · match answers.last with
        | .pending | .failed => exact hdrain
        | .ready _ => exact hdrain.flushTls
      · exact hdrain
    · exact hdrain

/-- What a run keeps of the writer. -/
theorem serve (h : this.Written uuid accepted frames direct) (events : List Event) :
    ∃ frames' direct', (this.serve events).2.Written uuid (accepted ++ (this.serve events).1)
      frames' direct' := by
  induction events generalizing this accepted frames direct with
  | nil =>
    refine ⟨frames, direct, ?_⟩
    show this.Written uuid (accepted ++ []) frames direct
    rwa [append_nil]
  | cons event events ih =>
    obtain ⟨frames', direct', hevent⟩ := h.handle event
    obtain ⟨frames'', direct'', hrest⟩ := ih hevent
    rw [append_assoc] at hrest
    exact ⟨frames'', direct'', hrest⟩

end Written

end VisionStream

end Sockrocket
