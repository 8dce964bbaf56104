import Sockrocket.Proxy.WebSocket

/-!
# What a WebSocket stream keeps

`Reads` says where a stream is in the frames of the server, and `Writes` what it queued for it. The
frames that were read are those `done`; of the frame after them the header and a part of the payload
may have been read. Read `Sound` first.

The two loops over the stream below, `pollFlushOut` and `fill`, have one specification each,
`flushed` and `filled`, from those of `Outgoing.flush` and `AsyncIo.fill`.
-/

namespace Sockrocket

open Rust Dns AsyncIo Transition List

/-! ## Frames -/

/-- The bytes of the stream that frames carry. -/
def dataOf (frames : List WsFrame) : Bytes :=
  frames.flatMap fun f => if dataOpcode f.opcode then f.payload else []

/-- The payloads of the frames with an opcode. -/
def payloadsOf (opcode : UInt8) (frames : List WsFrame) : List Bytes :=
  (frames.filter fun f => f.opcode = opcode).map WsFrame.payload

/-- No frame is a close. -/
def NoClose (frames : List WsFrame) : Prop :=
  ∀ f ∈ frames, f.opcode ≠ 8

theorem dataOf_append (frames more : List WsFrame) :
    dataOf (frames ++ more) = dataOf frames ++ dataOf more :=
  flatMap_append

theorem dataOf_singleton (f : WsFrame) :
    dataOf [f] = if dataOpcode f.opcode then f.payload else [] := by
  rw [dataOf, flatMap_cons, flatMap_nil, append_nil]

theorem payloadsOf_append (opcode : UInt8) (frames more : List WsFrame) :
    payloadsOf opcode (frames ++ more) = payloadsOf opcode frames ++ payloadsOf opcode more := by
  rw [payloadsOf, filter_append, map_append]
  rfl

theorem payloadsOf_singleton (opcode : UInt8) (f : WsFrame) :
    payloadsOf opcode [f] = if f.opcode = opcode then [f.payload] else [] := by
  by_cases h : f.opcode = opcode
  · rw [if_pos h, payloadsOf, filter_singleton, decide_eq_true h]
    rfl
  · rw [if_neg h, payloadsOf, filter_singleton, decide_eq_false h]
    rfl

theorem NoClose.append_singleton {frames : List WsFrame} (h : NoClose frames) {f : WsFrame}
    (hf : f.opcode ≠ 8) : NoClose (frames ++ [f]) := by
  intro g hg
  rcases mem_append.mp hg with hg | hg
  · exact h g hg
  · rwa [mem_singleton.mp hg]

/-! ## Headers -/

/-- A header that has all of its bytes. -/
def HeaderComplete (hdr : Bytes) : Prop :=
  wsHeaderSize (hdr.getD 1 0) = hdr.length

variable {hdr : Bytes}

theorem HeaderComplete.two_le (h : HeaderComplete hdr) : 2 ≤ hdr.length := by
  rw [← h]
  exact WsFrame.two_le_wsHeaderSize _

variable {opcode : UInt8}

/-- What a header says about the opcode and the length. -/
theorem parseHeader_ok {len : Nat} {mask : Option WsKey}
    (h : parseHeader hdr = .ok (opcode, len, mask)) :
    knownOpcode opcode ∧ (8 ≤ opcode → len ≤ 125) := by
  rw [parseHeader] at h
  simp only at h
  split at h
  · cases h
  rename_i hknown
  split at h
  · cases h
  split at h
  · cases h
  rename_i hcontrol
  obtain ⟨rfl, hrest⟩ := Prod.mk.inj (Except.ok.inj h)
  obtain ⟨rfl, -⟩ := Prod.mk.inj hrest
  refine ⟨by simpa using hknown, fun hop => ?_⟩
  by_contra hlong
  exact hcontrol ⟨hop, .inl (by omega)⟩

/-- The opcodes that are not for data. -/
theorem control_opcode (hknown : knownOpcode opcode)
    (hdata : dataOpcode opcode = false) : opcode = 8 ∨ opcode = 9 ∨ opcode = 10 := by
  simp only [knownOpcode, dataOpcode, Bool.or_eq_true, Bool.or_eq_false_iff, beq_iff_eq,
    beq_eq_false_iff_ne] at hknown hdata
  grind

/-! ## Flushing -/

namespace WsStream

/-- What `poll_flush_out` does. -/
structure Flushed (s : WsStream) (turns : List Behaviour) (answer : WsPoll Unit) (s' : WsStream)
    (turns' : List Behaviour) : Prop where
  same : s' = { s with wire := s'.wire }
  valid : s'.wire.Valid
  suffix : turns' <:+ turns
  calm : (∀ t ∈ turns, t.Calm) →
    s'.wire.sent ++ s'.wire.unsent = s.wire.sent ++ s.wire.unsent ∧
    (answer = none ∨ answer = some (.ok ()))
  cleared : answer = some (.ok ()) → s'.wire.unsent = []
  prompt : (∀ t ∈ turns, t.Prompt) → s.wire.unsent.length < turns.length →
    answer = some (.ok ()) ∧ turns.length ≤ turns'.length + (s.wire.unsent.length + 1)

theorem flushed {s : WsStream} (h : s.wire.Valid) (turns : List Behaviour) :
    s.Flushed turns (s.pollFlushOut turns).1 (s.pollFlushOut turns).2.1
      (s.pollFlushOut turns).2.2 := by
  have hflush := Outgoing.flushed h turns
  rw [pollFlushOut]
  generalize s.wire.flush turns = result at *
  obtain ⟨answer, wire, turns'⟩ := result
  refine ⟨rfl, hflush.valid, hflush.suffix, fun hcalm => ?_, fun hdone => ?_, fun hprompt hlen => ?_⟩
  · obtain ⟨hflow, hanswer⟩ := hflush.calm hcalm
    refine ⟨hflow, ?_⟩
    rcases hanswer with rfl | rfl
    · exact .inl rfl
    · exact .inr rfl
  · refine hflush.unsent ?_
    rintro rfl
    cases hdone
  · obtain ⟨rfl, hused⟩ := hflush.prompt hprompt hlen
    exact ⟨rfl, hused⟩

/-! ## Filling -/

theorem fill_suffix (want : Nat) (got readPending incoming : Bytes) (turns : List Behaviour) :
    (fill want got readPending incoming turns).2.2.2.2 <:+ turns :=
  AsyncIo.fill_suffix _ _ _ _

/-- What `fill` does: it moves bytes to those it has. -/
structure Filled (want : Nat) (got readPending incoming : Bytes) (turns : List Behaviour)
    (answer : FillAnswer) (got' readPending' incoming' : Bytes) (turns' : List Behaviour) :
    Prop where
  moved : ∃ moved, got' = got ++ moved ∧
    readPending ++ incoming = moved ++ (readPending' ++ incoming')
  le : got'.length ≤ want
  full : answer = .full → want ≤ got'.length
  short : answer ≠ .full → got'.length < want
  ended : answer = .ended → readPending' = [] ∧ incoming' = []
  failed : answer = .failed → ¬ ∀ t ∈ turns, t.Calm
  prompt : (∀ t ∈ turns, t.Prompt) → incoming.length < turns.length → answer ≠ .pending ∧
    (answer = .full → turns.length + incoming'.length ≤ turns'.length + incoming.length)

theorem filled {want : Nat} {got : Bytes} (hle : got.length ≤ want) (readPending incoming : Bytes)
    (turns : List Behaviour) :
    Filled want got readPending incoming turns (fill want got readPending incoming turns).1
      (fill want got readPending incoming turns).2.1
      (fill want got readPending incoming turns).2.2.1
      (fill want got readPending incoming turns).2.2.2.1
      (fill want got readPending incoming turns).2.2.2.2 := by
  generalize hn : want - got.length = n
  have htake : (got ++ readPending.take n).length = got.length + min n readPending.length := by
    rw [length_append, length_take]
  have hfits : (got ++ readPending.take n).length ≤ want := by omega
  obtain ⟨⟨moved, hgot, hmoved⟩, le, full, short, ended, failed, prompt⟩ :=
    AsyncIo.filled hfits incoming turns
  rw [fill]
  dsimp only
  rw [hn]
  generalize AsyncIo.fill want (got ++ readPending.take n) incoming turns = result at *
  obtain ⟨answer, got', incoming', turns'⟩ := result
  dsimp only at *
  have hlength : got'.length = (got ++ readPending.take n).length + moved.length := by
    rw [hgot, length_append]
  -- bytes of the handshake are left only if there were enough of them
  have hleft : readPending.drop n = [] ∨ moved = [] ∧ want ≤ got'.length := by
    by_cases hlong : readPending.length ≤ n
    · exact .inl (drop_eq_nil_of_le hlong)
    · exact .inr ⟨eq_nil_of_length_eq_zero (by omega), by omega⟩
  refine ⟨⟨readPending.take n ++ moved, ?_, ?_⟩, le, full, short, ?_, failed, prompt⟩
  · rw [hgot, append_assoc]
  · rcases hleft with hnil | ⟨rfl, -⟩
    · nth_rewrite 1 [← take_append_drop n readPending]
      rw [hnil, append_nil, append_assoc, hmoved]
      rfl
    · rw [append_nil, ← append_assoc, take_append_drop, hmoved]
      rfl
  · intro hended
    obtain hnil | ⟨-, henough⟩ := hleft
    · exact ⟨hnil, ended hended⟩
    · have hshort := short (by rw [hended]; intro h; cases h)
      omega

end WsStream

/-! ## The invariant -/

/-- How far the frame after those done was read: the bytes that were read of its payload, and those
that the caller has of it. -/
inductive Part (hdr payload : Bytes) (frameRead : Nat) : Bytes → Bytes → Prop where
  | header (payload_nil : payload = []) (read : frameRead = 0) : Part hdr payload frameRead [] []
  | data {got : Bytes} {opcode : UInt8} {len : Nat} {mask : Option WsKey}
      (complete : HeaderComplete hdr) (parsed : parseHeader hdr = .ok (opcode, len, mask))
      (isData : dataOpcode opcode = true) (lt : got.length < len) (payload_nil : payload = [])
      (read : frameRead = got.length) : Part hdr payload frameRead got (maskWith mask 0 got)
  | control {opcode : UInt8} {len : Nat} {mask : Option WsKey}
      (complete : HeaderComplete hdr) (parsed : parseHeader hdr = .ok (opcode, len, mask))
      (isControl : dataOpcode opcode = false) (lt : payload.length < len)
      (read : frameRead = 0) : Part hdr payload frameRead payload []

/-- Of the bytes of the server these frames were read, and the caller was given these bytes. -/
structure Reads (all : Bytes) (s : WsStream) (done : List WsFrame) (delivered : Bytes) : Prop where
  part : ∃ got current,
    WsFrame.Decodes all done (s.hdr ++ (got ++ (s.readPending ++ s.incoming))) ∧
      Part s.hdr s.payload s.frameRead got current ∧ delivered = dataOf done ++ current
  hdr_le : s.hdr.length ≤ s.hdrLen
  hdrLen : s.hdrLen = 2 ∨ 2 ≤ s.hdr.length ∧ s.hdrLen = wsHeaderSize (s.hdr.getD 1 0)
  noClose : s.closing = false → NoClose done
  close : s.closing = true →
    ∃ init f, done = init ++ [f] ∧ NoClose init ∧ f.opcode = 8 ∧ delivered = dataOf init
  eof : s.readEof = true →
    s.closing = true ∨ s.hdr = [] ∧ s.readPending = [] ∧ s.incoming = []

/-- These frames were queued for the server. The bytes in `flight` are those of a write whose frame
was queued and whose caller was not told so: it pends, or it was refused because the stream had been
shut down in the meantime. -/
structure Writes (r : WsRun) (done queued : List WsFrame) (flight : Bytes) : Prop where
  wire : r.stream.wire.sent ++ r.stream.wire.unsent = WsFrame.encodeAll queued
  client : ∀ f ∈ queued, f.Valid ∧ f.fin = true ∧ f.mask.isSome = true ∧
    (f.opcode = 2 ∨ f.opcode = 8 ∨ f.opcode = 10)
  binary : (payloadsOf 2 queued).flatten = r.accepted ++ flight
  pongs : payloadsOf 10 queued = payloadsOf 9 done
  closes : (payloadsOf 8 queued).length = if r.stream.closeSent then 1 else 0
  free : r.stream.writeInFlight = none → flight = []
  held : ∀ n ∈ r.stream.writeInFlight, ∃ buf, n = min buf.length wsWriteBufSize ∧
    flight = buf.take n ∧ (r.pended = some buf ∨ r.stream.writeClosed = true ∧ buf ∈ r.refused)

/-- What holds between polls; `calm` says that the stream below never fails. -/
structure Sound (calm : Prop) (all : Bytes) (r : WsRun) (done : List WsFrame) : Prop where
  reads : Reads all r.stream done r.delivered
  valid : r.stream.wire.Valid
  writes : calm → ∃ queued flight, Writes r done queued flight

theorem Sound.new (calm : Prop) (leftover incoming : Bytes) :
    Sound calm (leftover ++ incoming) (.new leftover incoming) [] where
  reads :=
    { part := ⟨[], [], .nil, .header rfl rfl, rfl⟩
      hdr_le := Nat.zero_le 2
      hdrLen := .inl rfl
      noClose := nofun
      close := nofun
      eof := nofun }
  valid := Outgoing.valid_empty
  writes := fun _ => ⟨[], [],
    { wire := rfl
      client := nofun
      binary := rfl
      pongs := rfl
      closes := rfl
      free := fun _ => rfl
      held := nofun }⟩

variable {calm : Prop} {all : Bytes} {r : WsRun} {done : List WsFrame}

/-- A flush changes nothing but where the queued bytes are. -/
theorem Sound.flush
    (h : Sound calm all r done) {turns turns' : List Behaviour} {answer : WsPoll Unit}
    {s' : WsStream} (hflush : r.stream.Flushed turns answer s' turns')
    (hcalm : calm → ∀ t ∈ turns, t.Calm) : Sound calm all { r with stream := s' } done := by
  obtain ⟨reads, -, writes⟩ := h
  have hvalid := hflush.valid
  have hwire := hflush.calm
  rw [hflush.same] at hvalid hwire ⊢
  refine ⟨{ reads with }, hvalid, fun hc => ?_⟩
  obtain ⟨queued, flight, hwrites⟩ := writes hc
  refine ⟨queued, flight, { hwrites with wire := ?_ }⟩
  exact (hwire (hcalm hc)).1.trans hwrites.wire

/-- The fields that writing is about. -/
def WsStream.writing (s : WsStream) : Outgoing WsFrame UInt8 × Option Nat × Bool × Bool :=
  (s.wire, s.writeInFlight, s.closeSent, s.writeClosed)

/-- Reading changes nothing about writing, unless it finishes a ping. -/
theorem Sound.read
    (h : Sound calm all r done) {s : WsStream} {done' : List WsFrame} {delivered : Bytes}
    (hreads : Reads all s done' delivered) (hwriting : s.writing = r.stream.writing)
    (hpings : payloadsOf 9 done' = payloadsOf 9 done) :
    Sound calm all { r with stream := s, delivered } done' := by
  obtain ⟨-, hvalid, writes⟩ := h
  simp only [WsStream.writing, Prod.mk.injEq] at hwriting
  obtain ⟨hwire, hflight, hclose, hclosed⟩ := hwriting
  refine ⟨hreads, by rw [hwire]; exact hvalid, fun hc => ?_⟩
  obtain ⟨queued, flight, hw⟩ := writes hc
  refine ⟨queued, flight, ?_, hw.client, hw.binary, hw.pongs.trans hpings.symm, ?_, ?_, ?_⟩
  · rw [hwire]
    exact hw.wire
  · rw [hclose]
    exact hw.closes
  · rw [hflight]
    exact hw.free
  · rw [hflight, hclosed]
    exact hw.held

variable {queued : List WsFrame} {flight : Bytes}

/-- A frame of the client after those queued. -/
theorem Writes.queue
    (h : Writes r done queued flight) (hvalid : r.stream.wire.Valid)
    (opcode : UInt8) (payload : Bytes) (key : WsKey) :
    (r.stream.queueFrame opcode payload key).wire.sent ++
        (r.stream.queueFrame opcode payload key).wire.unsent =
      WsFrame.encodeAll (queued ++ [clientFrame opcode payload key]) := by
  rw [WsFrame.encodeAll_append, ← h.wire]
  show r.stream.wire.sent ++ (r.stream.wire.queue _ _).unsent = _
  rw [Outgoing.unsent_queue hvalid.pos_le, encodeClientFrameInto_eq, nil_append, append_assoc]
  show _ = _ ++ (_ ++ [clientFrame opcode payload key].flatMap WsFrame.encode)
  rw [flatMap_cons, flatMap_nil, append_nil]

variable {payload : Bytes}

/-- The frames that the client queues are valid. -/
theorem clientFrame_valid
    (h : opcode = 2 ∧ payload.length ≤ wsWriteBufSize ∨
      (opcode = 8 ∨ opcode = 10) ∧ payload.length ≤ 125) (key : WsKey) :
    (clientFrame opcode payload key).Valid := by
  rcases h with ⟨rfl, hlen⟩ | ⟨rfl | rfl, hlen⟩
  · exact ⟨rfl, hlen.trans (by decide), fun h => absurd (show (8 : UInt8) ≤ 2 from h) (by decide)⟩
  · exact ⟨rfl, hlen.trans (by decide), fun _ => ⟨rfl, hlen⟩⟩
  · exact ⟨rfl, hlen.trans (by decide), fun _ => ⟨rfl, hlen⟩⟩

theorem Writes.client_queue
    (h : Writes r done queued flight)
    (hframe : opcode = 2 ∧ payload.length ≤ wsWriteBufSize ∨
      (opcode = 8 ∨ opcode = 10) ∧ payload.length ≤ 125) (key : WsKey) :
    ∀ f ∈ queued ++ [clientFrame opcode payload key], f.Valid ∧ f.fin ∧
      f.mask.isSome ∧ (f.opcode = 2 ∨ f.opcode = 8 ∨ f.opcode = 10) := by
  intro f hf
  rcases mem_append.mp hf with hf | hf
  · exact h.client f hf
  · rw [mem_singleton.mp hf]
    exact ⟨clientFrame_valid hframe key, rfl, rfl, hframe.imp And.left And.left⟩

theorem payloadsOf_clientFrame (opcode other : UInt8) (payload : Bytes) (key : WsKey) :
    payloadsOf opcode [clientFrame other payload key] = if other = opcode then [payload] else [] :=
  payloadsOf_singleton opcode _

end Sockrocket
