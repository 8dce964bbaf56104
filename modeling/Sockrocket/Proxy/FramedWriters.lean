import Sockrocket.Proxy.WebSocketWrite
import Sockrocket.Proxy.VMessWrite
import Sockrocket.Lib.FramedWriter

/-!
# What framed writers report

`WsStream` and `VMessStream` remember the completion of a write apart from the queue that several
polls flush, and that is cleared when the stream below fails. As long as no poll but `poll_write`
meets a failure while a write is in flight, `poll_write` reports only what was delivered:
`framed_writers_report`. Otherwise it can report bytes that were lost.
-/

namespace Sockrocket

open Rust Dns AsyncIo Transition Option

/-! ## WebSocket -/

/-- The frames of a WebSocket stream; binary frames have the data of the caller. -/
def wsFraming : FrameCodec WsFrame UInt8 UInt8 :=
  ⟨fun f => if f.opcode = 2 then some f.payload else none, WsFrame.encode⟩

/-- The writer in a stream. -/
def WsRun.writer (r : WsRun) : Writer WsFrame UInt8 UInt8 :=
  ⟨r.stream.wire, r.acks, r.stream.writeInFlight, r.stream.writeClosed, r.pended⟩

/-- The poll is one of `poll_write`. -/
def WsEvent.isWrite : WsEvent → Bool
  | .write _ _ _ => true
  | _ => false

/-- No poll but `poll_write` meets a failure of the stream below while a write is in flight. -/
def WsRun.Undisturbed (r : WsRun) (e : WsEvent) : Prop :=
  r.stream.writeInFlight.isSome = true → e.isWrite = false → ∀ t ∈ e.turns, t.Calm

section WebSocket

variable {calm : Prop} {r : WsRun} {turns : List Behaviour} {key : WsKey}

/-- What an iteration of `poll_read` does to the writer: at most it flushes, and queues a frame
without data. -/
structure StreamFramed (calm : Prop) (w : Writer WsFrame UInt8 UInt8) (s : WsStream) : Prop where
  framed : Framed wsFraming calm { w with wire := s.wire }
  inFlight : s.writeInFlight = w.inFlight
  closed : s.writeClosed = w.closed

/-- An iteration leaves a framed stream, and uses turns from the front. -/
def TurnFramed (calm : Prop) (w : Writer WsFrame UInt8 UInt8) (turns : List Behaviour) :
    ReadTurn → Prop
  | .again s turns' => StreamFramed calm w s ∧ turns' <:+ turns
  | .answer _ s _ => StreamFramed calm w s

theorem TurnFramed.suffix {w : Writer WsFrame UInt8 UInt8} {turns' : List Behaviour}
    {turn : ReadTurn} (h : TurnFramed calm w turns' turn) (hsuffix : turns' <:+ turns) :
    TurnFramed calm w turns turn := by
  match turn with
  | .again s rest => exact ⟨h.1, h.2.trans hsuffix⟩
  | .answer answer s rest => exact h

/-- The frame of a control message. -/
theorem Framed.queueFrame {w : Writer WsFrame UInt8 UInt8} (h : Framed wsFraming calm w)
    {opcode : UInt8} (hopcode : opcode ≠ 2) (payload : Bytes) (key : WsKey) :
    Framed wsFraming calm
      { w with
        wire := w.wire.queue (clientFrame opcode payload key)
          (encodeClientFrameInto [] opcode payload key) } := by
  have htag : wsFraming.data (clientFrame opcode payload key) = none := if_neg hopcode
  refine h.queue_control htag ?_
  rw [encodeClientFrameInto_eq]
  rfl

variable {w : Writer WsFrame UInt8 UInt8} {s : WsStream}

namespace StreamFramed

section

variable (h : StreamFramed calm w s)

include h

theorem handleControl (opcode : UInt8) (payload : Bytes) (key : WsKey) :
    StreamFramed calm w (s.handleControl opcode payload key) := by
  rw [WsStream.handleControl]
  split
  · exact ⟨Framed.queueFrame h.framed (by decide) payload key, h.inFlight, h.closed⟩
  split
  · rw [WsStream.queueClose]
    split
    · exact ⟨h.framed, h.inFlight, h.closed⟩
    · exact ⟨Framed.queueFrame h.framed (by decide) [] key, h.inFlight, h.closed⟩
  · exact ⟨h.framed, h.inFlight, h.closed⟩

theorem deliver (len : Nat) (mask : Option WsKey) (bytes : Bytes)
    (turns' : List Behaviour) : TurnFramed calm w turns (s.deliver len mask bytes turns') := by
  rw [WsStream.deliver]
  split
  · exact h
  dsimp only
  split <;> exact ⟨h.framed, h.inFlight, h.closed⟩

theorem readData (room len : Nat) (mask : Option WsKey) :
    TurnFramed calm w turns (s.readData room len mask turns) := by
  rw [WsStream.readData]
  split
  · exact ⟨⟨h.framed, h.inFlight, h.closed⟩, List.suffix_refl _⟩
  dsimp only
  split
  · refine deliver ?_ _ _ _ _
    exact ⟨h.framed, h.inFlight, h.closed⟩
  cases turns with
  | nil => exact h
  | cons turn turns =>
    dsimp only
    generalize turn.read s.incoming _ = result
    obtain ⟨answer, rest⟩ := result
    cases answer with
    | pending | failed => exact h
    | ready bytes =>
      refine deliver ?_ _ _ _ _
      exact ⟨h.framed, h.inFlight, h.closed⟩

theorem readControl (opcode : UInt8) (len : Nat)
    (mask : Option WsKey) : TurnFramed calm w turns (s.readControl opcode len mask key turns) := by
  rw [WsStream.readControl, WsStream.fillPayload]
  have hsuffix := WsStream.fill_suffix len s.payload s.readPending s.incoming turns
  generalize WsStream.fill len s.payload s.readPending s.incoming turns = result at *
  obtain ⟨answer, payload, readPending, incoming, turns'⟩ := result
  have hs : StreamFramed calm w { s with payload, readPending, incoming } :=
    ⟨h.framed, h.inFlight, h.closed⟩
  cases answer with
  | pending | failed | ended => exact hs
  | full => exact ⟨hs.handleControl opcode _ key, hsuffix⟩

theorem readBody (room : Nat) :
    TurnFramed calm w turns (s.readBody room key turns) := by
  rw [WsStream.readBody]
  split
  · exact ⟨⟨h.framed, h.inFlight, h.closed⟩, List.suffix_refl _⟩
  generalize parseHeader s.hdr = result
  cases result with
  | error e => exact h
  | ok header =>
    obtain ⟨opcode, len, mask⟩ := header
    dsimp only
    split
    · exact h.readData room len mask
    · exact h.readControl opcode len mask

theorem readFrame (room : Nat) :
    TurnFramed calm w turns (s.readFrame room key turns) := by
  rw [WsStream.readFrame]
  split
  · exact ⟨h.framed, h.inFlight, h.closed⟩
  rw [WsStream.fillHeader]
  have hsuffix := WsStream.fill_suffix s.hdrLen s.hdr s.readPending s.incoming turns
  generalize WsStream.fill s.hdrLen s.hdr s.readPending s.incoming turns = result at *
  obtain ⟨answer, hdr, readPending, incoming, turns'⟩ := result
  have hs : StreamFramed calm w { s with hdr, readPending, incoming } :=
    ⟨h.framed, h.inFlight, h.closed⟩
  cases answer with
  | pending | failed => exact hs
  | ended =>
    dsimp only
    split
    · exact ⟨h.framed, h.inFlight, h.closed⟩
    · exact hs
  | full => exact (hs.readBody room).suffix hsuffix

theorem readTurn (hcalm : calm → ∀ t ∈ turns, t.Calm)
    (hflight : w.inFlight.isSome → ∀ t ∈ turns, t.Calm) (room : Nat) :
    TurnFramed calm w turns (s.readTurn room key turns) := by
  rw [WsStream.readTurn]
  split
  · exact h
  split
  · have hflush := Outgoing.flushed h.framed.valid turns
    rw [WsStream.pollFlushOut]
    have hnext := h.framed.flush hflush hcalm fun hsome => (hflush.calm (hflight hsome)).2
    have hsuffix := hflush.suffix
    dsimp only at hnext hsuffix
    generalize s.wire.flush turns = result at *
    obtain ⟨answer, wire, turns'⟩ := result
    have hs : StreamFramed calm w { s with wire } := ⟨hnext, h.inFlight, h.closed⟩
    have hs' : StreamFramed calm w { s with wire, ctrlFlush := false } :=
      ⟨hnext, h.inFlight, h.closed⟩
    have hfailed (e : WsError) : TurnFramed calm w turns
        (if s.closing then
          .answer (some (.ok [])) { s with wire, ctrlFlush := false, readEof := true } turns'
        else .answer (some (.error e)) { s with wire, ctrlFlush := false } turns') := by
      split
      · exact ⟨hnext, h.inFlight, h.closed⟩
      · exact hs'
    cases answer with
    | pending => exact hs
    | failed => exact hfailed .io
    | zero => exact hfailed .writeZero
    | done => exact (hs'.readFrame room).suffix hsuffix
  · exact h.readFrame room

theorem readLoop (hcalm : calm → ∀ t ∈ turns, t.Calm)
    (hflight : w.inFlight.isSome → ∀ t ∈ turns, t.Calm) (room : Nat) (keys : Nat → WsKey)
    (fuel : Nat) : StreamFramed calm w (WsStream.readLoop room keys fuel s turns).2 := by
  induction fuel generalizing s turns with
  | zero => exact h
  | succ fuel ih =>
    have hturn : TurnFramed calm w turns (s.readTurn room (keys fuel) turns) :=
      h.readTurn hcalm hflight room
    rw [WsStream.readLoop]
    generalize s.readTurn room (keys fuel) turns = turn at hturn
    cases turn with
    | again s' turns' =>
      exact ih hturn.1 (fun hc t ht => hcalm hc t (hturn.2.subset ht))
        fun hsome t ht => hflight hsome t (hturn.2.subset ht)
    | answer answer s' turns' => exact hturn

end

end StreamFramed

/-- What a `poll_write` keeps, and what it tells. -/
structure WsReports (calm : Prop) (r : WsRun) (buf : Bytes) (result : WsPoll Nat × WsStream) :
    Prop where
  framed : Framed wsFraming calm (r.afterWrite buf result).writer
  told : ∀ n, result.1 = some (.ok n) → 0 < n →
    Outgoing.LastWhole wsFraming.data r.acks (buf.take n) result.2.wire.ledger

theorem writeFrame_reports (h : Framed wsFraming calm r.writer)
    (hfree : r.stream.writeInFlight = none) (hopen : r.stream.writeClosed = false)
    (hcalm : calm → ∀ t ∈ turns, t.Calm) (buf : Bytes) :
    WsReports calm r buf (r.stream.writeFrame buf key turns) := by
  rw [WsStream.writeFrame]
  by_cases hnil : buf = []
  · rw [if_pos hnil]
    refine ⟨h.answer (.inl hfree), fun n hn hpos => ?_⟩
    obtain rfl := Except.ok.inj (some.inj hn)
    exact absurd hpos (Nat.not_lt_zero _)
  · rw [if_neg hnil]
    dsimp only
    have hlength := List.length_pos_iff.mpr hnil
    have hmax : 0 < wsWriteBufSize := by decide
    generalize hn : min buf.length wsWriteBufSize = n
    have htag : wsFraming.data (clientFrame 2 (buf.take n) key) = some (buf.take n) := rfl
    have hqueued := h.queue_data hfree (show 0 < n by omega) htag (encodeClientFrameInto_eq [] 2 _ _)
    have hflush := Outgoing.flushed hqueued.valid turns
    rw [WsStream.pollFlushOut]
    have hafter := hqueued.flush hflush hcalm
    have hfail := hqueued.fail hflush hcalm
    have hlive := hflush.live
    dsimp only [WsRun.writer, WsStream.queueFrame] at hafter hfail hlive ⊢
    clear hflush hqueued
    generalize (r.stream.wire.queue (clientFrame 2 (buf.take n) key)
      (encodeClientFrameInto [] 2 (buf.take n) key)).flush turns = result at *
    obtain ⟨answer, wire, turns'⟩ := result
    cases answer with
    | pending => exact ⟨hafter fun _ => .inl rfl, fun _ hm => by cases hm⟩
    | failed => exact ⟨hfail (.inl rfl), fun _ hm => by cases hm⟩
    | zero => exact ⟨hfail (.inr rfl), fun _ hm => by cases hm⟩
    | done =>
      have hdone := hafter fun _ => .inr rfl
      have hempty := hlive (by simp)
      have hretry : ∀ pended ∈ some buf, buf = pended := fun pended hp => some.inj hp
      refine ⟨hdone.complete rfl hopen hretry hempty, fun m hm _ => ?_⟩
      obtain rfl := Except.ok.inj (some.inj hm)
      exact hdone.lastWhole rfl hopen hretry hempty

theorem pollWrite_reports (h : Framed wsFraming calm r.writer)
    (hcalm : calm → ∀ t ∈ turns, t.Calm) {buf : Bytes}
    (hretry : ∀ pended ∈ r.pended, buf = pended) :
    WsReports calm r buf (r.stream.pollWrite buf key turns) := by
  rw [WsStream.pollWrite]
  by_cases hclosed : r.stream.writeClosed
  · rw [if_pos hclosed]
    exact ⟨h.answer (.inr hclosed), fun _ hm => by cases hm⟩
  rw [if_neg hclosed]
  rw [Bool.not_eq_true] at hclosed
  by_cases hbusy : r.stream.writeInFlight.isSome ∨
      r.stream.wire.pos < r.stream.wire.out.length
  · rw [if_pos hbusy]
    have hflush := Outgoing.flushed h.valid turns
    rw [WsStream.pollFlushOut]
    have hafter := h.flush hflush hcalm
    have hfail := h.fail hflush hcalm
    have hlive := hflush.live
    have hsuffix := hflush.suffix
    dsimp only [WsRun.writer] at hafter hfail hlive hsuffix ⊢
    generalize r.stream.wire.flush turns = result at *
    obtain ⟨answer, wire, turns'⟩ := result
    cases answer with
    | pending => exact ⟨(hafter fun _ => .inl rfl).pend hretry, fun _ hm => by cases hm⟩
    | failed => exact ⟨hfail (.inl rfl), fun _ hm => by cases hm⟩
    | zero => exact ⟨hfail (.inr rfl), fun _ hm => by cases hm⟩
    | done =>
      have hdone := hafter fun _ => .inr rfl
      have hempty := hlive (by simp)
      dsimp only [WsStream.flushAnswer]
      generalize hflight : r.stream.writeInFlight = flight at hdone ⊢
      cases flight with
      | some n =>
        refine ⟨hdone.complete rfl hclosed hretry hempty, fun m hm _ => ?_⟩
        obtain rfl := Except.ok.inj (some.inj hm)
        exact hdone.lastWhole rfl hclosed hretry hempty
      | none =>
        have hnext : WsReports calm
            { r with stream := { r.stream with wire, writeInFlight := none } } buf
            (WsStream.writeFrame { r.stream with wire, writeInFlight := none } buf key
              turns') := by
          refine writeFrame_reports ?_ rfl ?_ ?_ buf
          · exact hdone
          · exact hclosed
          · exact fun hc t ht => hcalm hc t (hsuffix.subset ht)
        obtain ⟨hframed, htold⟩ := hnext
        rw [afterWrite_stream] at hframed
        exact ⟨hframed, htold⟩
  · rw [if_neg hbusy]
    have hfree : r.stream.writeInFlight = none := by
      rw [← not_isSome_iff_eq_none]
      exact fun hsome => hbusy (.inl hsome)
    exact writeFrame_reports h hfree hclosed hcalm buf

theorem pollFlush_framed (h : Framed wsFraming calm r.writer) (hcalm : calm → ∀ t ∈ turns, t.Calm)
    (hflight : r.stream.writeInFlight.isSome → ∀ t ∈ turns, t.Calm) :
    StreamFramed calm r.writer (r.stream.pollFlushOut turns).2.1 := by
  have hflush := Outgoing.flushed h.valid turns
  have hafter := h.flush hflush hcalm fun hsome => (hflush.calm (hflight hsome)).2
  exact ⟨hafter, rfl, rfl⟩

theorem queueClose_framed (h : Framed wsFraming calm r.writer) (key : WsKey) :
    StreamFramed calm r.writer (r.stream.queueClose key) := by
  rw [WsStream.queueClose]
  split
  · exact ⟨h, rfl, rfl⟩
  · exact ⟨Framed.queueFrame h (by decide) [] key, rfl, rfl⟩

theorem StreamFramed.writer {s : WsStream} (h : StreamFramed calm r.writer s) :
    Framed wsFraming calm { r with stream := s }.writer := by
  have hframed := h.framed
  rw [WsRun.writer, h.inFlight, h.closed]
  exact hframed

theorem pollShutdown_framed (h : Framed wsFraming calm r.writer)
    (hcalm : calm → ∀ t ∈ turns, t.Calm)
    (hflight : r.stream.writeInFlight.isSome → ∀ t ∈ turns, t.Calm) :
    Framed wsFraming calm { r with stream := (r.stream.pollShutdown key turns).2 }.writer := by
  have hqueued := queueClose_framed h key
  have hflight' : (r.stream.queueClose key).writeInFlight.isSome →
      ∀ t ∈ turns, t.Calm := by
    rw [hqueued.inFlight]
    exact hflight
  have hafter := (pollFlush_framed hqueued.writer hcalm hflight').writer
  rw [WsStream.pollShutdown]
  dsimp only at hafter
  generalize (r.stream.queueClose key).pollFlushOut turns = result at *
  obtain ⟨answer, s, turns'⟩ := result
  obtain _ | _ | _ := answer
  · exact hafter
  · exact hafter
  · obtain _ | ⟨_ | _ | _, _⟩ := turns'
    · exact hafter
    · exact hafter
    · exact hafter
    · exact hafter.close

/-- Every poll keeps the invariant of the writer. -/
theorem WsRun.Step.framed {e : WsEvent} {r' : WsRun} (hstep : r.Step e r')
    (h : Framed wsFraming calm r.writer) (hundisturbed : r.Undisturbed e)
    (hcalm : calm → ∀ t ∈ e.turns, t.Calm) : Framed wsFraming calm r'.writer := by
  obtain ⟨hretry, rfl⟩ := hstep
  cases e with
  | read room keys turns =>
    have hflight : r.writer.inFlight.isSome → ∀ t ∈ turns, t.Calm :=
      fun hsome => hundisturbed hsome rfl
    have hread : StreamFramed calm r.writer (r.stream.pollRead room keys turns).2 :=
      StreamFramed.readLoop ⟨h, rfl, rfl⟩ hcalm hflight room keys _
    have hnext := hread.writer
    show Framed wsFraming calm (r.afterRead (r.stream.pollRead room keys turns)).writer
    generalize r.stream.pollRead room keys turns = result at hnext
    match result with
    | (none, s) | (some (.ok bytes), s) | (some (.error e), s) => exact hnext
  | write buf key turns => exact (pollWrite_reports h hcalm hretry).framed
  | flush turns => exact (pollFlush_framed h hcalm fun hsome => hundisturbed hsome rfl).writer
  | shutdown key turns => exact pollShutdown_framed h hcalm fun hsome => hundisturbed hsome rfl

end WebSocket

/-! ## VMess -/

/-- The chunks of a VMess stream: each has data of the caller. -/
def vmessFraming (cipher : VMessChunkCipher) : FrameCodec (Nat × Bytes) UInt8 UInt8 :=
  ⟨fun tag => some tag.2, fun tag => cipher.chunk tag.1 tag.2⟩

/-- The writer in a stream. -/
def VMessRun.writer (r : VMessRun) : Writer (Nat × Bytes) UInt8 UInt8 :=
  ⟨r.stream.wire, r.acks, r.stream.writeInFlight, r.stream.writeClosed, r.pended⟩

/-- No poll but `poll_write` meets a failure of the stream below while a write is in flight. -/
def VMessRun.Undisturbed (r : VMessRun) (e : VMessEvent) : Prop :=
  r.stream.writeInFlight.isSome = true → e.isWrite = false → ∀ t ∈ e.turns, t.Calm

/-- A poll that the caller may make. -/
def VMessRun.Step (crypto : VMessCrypto) (r : VMessRun) (e : VMessEvent) (r' : VMessRun) : Prop :=
  r.Retries e ∧ r' = r.poll crypto e

section VMess

variable {calm : Prop} {r : VMessRun} {turns : List Behaviour} {cipher : VMessChunkCipher}

/-- The invariant of a run: the cipher of the stream stays the same, and chunks have room. -/
structure VMessFramed (cipher : VMessChunkCipher) (calm : Prop) (r : VMessRun) : Prop where
  framed : Framed (vmessFraming cipher) calm r.writer
  cipher_eq : r.stream.writeCipher = cipher
  maxChunk : 0 < r.stream.maxChunk

/-- What a `poll_write` keeps, and what it tells. -/
structure VMessReports (cipher : VMessChunkCipher) (calm : Prop) (r : VMessRun) (buf : Bytes)
    (result : VMessPoll Nat × VMessStream) : Prop where
  framed : VMessFramed cipher calm (r.afterWrite buf result)
  told : ∀ n, result.1 = some (.ok n) → 0 < n →
    Outgoing.LastWhole (vmessFraming cipher).data r.acks (buf.take n) result.2.wire.ledger

section

variable (h : VMessFramed cipher calm r)

include h

theorem writeChunk_reports
    (hfree : r.stream.writeInFlight = none) (hopen : r.stream.writeClosed = false)
    (hcalm : calm → ∀ t ∈ turns, t.Calm) (buf : Bytes) :
    VMessReports cipher calm r buf (r.stream.writeChunk buf turns) := by
  obtain ⟨hframed, hcipher, hmax⟩ := h
  rw [VMessStream.writeChunk]
  by_cases hnil : buf = []
  · rw [if_pos hnil]
    refine ⟨⟨hframed.answer (.inl hfree), hcipher, hmax⟩, fun n hn hpos => ?_⟩
    obtain rfl := Except.ok.inj (some.inj hn)
    exact absurd hpos (Nat.not_lt_zero _)
  · rw [if_neg hnil]
    dsimp only
    have hlength := List.length_pos_iff.mpr hnil
    generalize hn : min buf.length r.stream.maxChunk = n
    have htag : (vmessFraming cipher).data (r.stream.writeCount, buf.take n) =
        some (buf.take n) := rfl
    have hbytes : r.stream.writeCipher.chunk r.stream.writeCount (buf.take n) =
        (vmessFraming cipher).encode (r.stream.writeCount, buf.take n) := by
      rw [hcipher]
      rfl
    have hqueued := hframed.queue_data hfree (show 0 < n by omega) htag hbytes
    have hflush := Outgoing.flushed hqueued.valid turns
    rw [VMessStream.pollFlushOut]
    have hafter := hqueued.flush hflush hcalm
    have hfail := hqueued.fail hflush hcalm
    have hlive := hflush.live
    dsimp only [VMessRun.writer] at hafter hfail hlive ⊢
    clear hflush hqueued
    generalize (r.stream.wire.queue (r.stream.writeCount, buf.take n)
      (r.stream.writeCipher.chunk r.stream.writeCount (buf.take n))).flush turns = result at *
    obtain ⟨answer, wire, turns'⟩ := result
    cases answer with
    | pending => exact ⟨⟨hafter fun _ => .inl rfl, hcipher, hmax⟩, fun _ hm => by cases hm⟩
    | failed => exact ⟨⟨hfail (.inl rfl), hcipher, hmax⟩, fun _ hm => by cases hm⟩
    | zero => exact ⟨⟨hfail (.inr rfl), hcipher, hmax⟩, fun _ hm => by cases hm⟩
    | done =>
      have hdone := hafter fun _ => .inr rfl
      have hempty := hlive (by simp)
      have hretry : ∀ pended ∈ some buf, buf = pended := fun pended hp => some.inj hp
      refine ⟨⟨hdone.complete rfl hopen hretry hempty, hcipher, hmax⟩, fun m hm _ => ?_⟩
      obtain rfl := Except.ok.inj (some.inj hm)
      exact hdone.lastWhole rfl hopen hretry hempty

theorem vmess_pollWrite_reports (hcalm : calm → ∀ t ∈ turns, t.Calm) {buf : Bytes}
    (hretry : ∀ pended ∈ r.pended, buf = pended) :
    VMessReports cipher calm r buf (r.stream.pollWrite buf turns) := by
  obtain ⟨hframed, hcipher, hmax⟩ := h
  rw [VMessStream.pollWrite]
  by_cases hclosed : r.stream.writeClosed
  · rw [if_pos hclosed]
    exact ⟨⟨hframed.answer (.inr hclosed), hcipher, hmax⟩, fun _ hm => by cases hm⟩
  rw [if_neg hclosed]
  rw [Bool.not_eq_true] at hclosed
  by_cases hbusy : r.stream.writeInFlight.isSome ∨
      r.stream.wire.pos < r.stream.wire.out.length
  · rw [if_pos hbusy]
    have hflush := Outgoing.flushed hframed.valid turns
    rw [VMessStream.pollFlushOut]
    have hafter := hframed.flush hflush hcalm
    have hfail := hframed.fail hflush hcalm
    have hlive := hflush.live
    have hsuffix := hflush.suffix
    dsimp only [VMessRun.writer] at hafter hfail hlive hsuffix ⊢
    generalize r.stream.wire.flush turns = result at *
    obtain ⟨answer, wire, turns'⟩ := result
    cases answer with
    | pending =>
      exact ⟨⟨(hafter fun _ => .inl rfl).pend hretry, hcipher, hmax⟩, fun _ hm => by cases hm⟩
    | failed => exact ⟨⟨hfail (.inl rfl), hcipher, hmax⟩, fun _ hm => by cases hm⟩
    | zero => exact ⟨⟨hfail (.inr rfl), hcipher, hmax⟩, fun _ hm => by cases hm⟩
    | done =>
      have hdone := hafter fun _ => .inr rfl
      have hempty := hlive (by simp)
      dsimp only [VMessStream.flushAnswer]
      generalize hflight : r.stream.writeInFlight = flight at hdone ⊢
      cases flight with
      | some n =>
        refine ⟨⟨hdone.complete rfl hclosed hretry hempty, hcipher, hmax⟩, fun m hm _ => ?_⟩
        obtain rfl := Except.ok.inj (some.inj hm)
        exact hdone.lastWhole rfl hclosed hretry hempty
      | none =>
        have hnext : VMessReports cipher calm
            { r with stream := { r.stream with wire, writeInFlight := none } } buf
            (VMessStream.writeChunk { r.stream with wire, writeInFlight := none } buf
              turns') := by
          refine writeChunk_reports ⟨?_, ?_, ?_⟩ rfl ?_ ?_ buf
          · exact hdone
          · exact hcipher
          · exact hmax
          · exact hclosed
          · exact fun hc t ht => hcalm hc t (hsuffix.subset ht)
        obtain ⟨hnext, htold⟩ := hnext
        rw [afterWrite_vmess] at hnext
        exact ⟨hnext, htold⟩
  · rw [if_neg hbusy]
    have hfree : r.stream.writeInFlight = none := by
      rw [← not_isSome_iff_eq_none]
      exact fun hsome => hbusy (.inl hsome)
    exact writeChunk_reports ⟨hframed, hcipher, hmax⟩ hfree hclosed hcalm buf

theorem vmess_pollFlush_framed (hcalm : calm → ∀ t ∈ turns, t.Calm)
    (hflight : r.stream.writeInFlight.isSome → ∀ t ∈ turns, t.Calm) :
    VMessFramed cipher calm { r with stream := (r.stream.pollFlushOut turns).2.1 } := by
  have hflush := Outgoing.flushed h.framed.valid turns
  have hafter := h.framed.flush hflush hcalm fun hsome => (hflush.calm (hflight hsome)).2
  exact ⟨hafter, h.cipher_eq, h.maxChunk⟩

theorem vmess_pollShutdown_framed (hcalm : calm → ∀ t ∈ turns, t.Calm)
    (hflight : r.stream.writeInFlight.isSome → ∀ t ∈ turns, t.Calm) :
    VMessFramed cipher calm { r with stream := (r.stream.pollShutdown turns).2 } := by
  have hafter := vmess_pollFlush_framed h hcalm hflight
  rw [VMessStream.pollShutdown]
  generalize r.stream.pollFlushOut turns = result at *
  obtain ⟨answer, s, turns'⟩ := result
  obtain _ | _ | _ := answer
  · exact hafter
  · exact hafter
  · obtain _ | ⟨_ | _ | _, _⟩ := turns'
    · exact hafter
    · exact hafter
    · exact hafter
    · exact ⟨hafter.framed.close, hafter.cipher_eq, hafter.maxChunk⟩

/-- Reading changes nothing about writing. -/
theorem VMessFramed.read {s : VMessStream}
    (hwriting : s.writing = r.stream.writing) (reads : List (Except VMessError Bytes)) :
    VMessFramed cipher calm { r with stream := s, reads } := by
  simp only [VMessStream.writing, Prod.mk.injEq] at hwriting
  obtain ⟨hcipher, hmax, hwire, hflight, -, hclosed⟩ := hwriting
  refine ⟨?_, hcipher.trans h.cipher_eq, by rw [hmax]; exact h.maxChunk⟩
  rw [VMessRun.writer, hwire, hflight, hclosed]
  exact h.framed

end

/-- Every poll keeps the invariant of the writer. -/
theorem VMessRun.Step.framed {crypto : VMessCrypto} {e : VMessEvent} {r' : VMessRun}
    (hstep : VMessRun.Step crypto r e r') (h : VMessFramed cipher calm r)
    (hundisturbed : r.Undisturbed e) (hcalm : calm → ∀ t ∈ e.turns, t.Calm) :
    VMessFramed cipher calm r' := by
  obtain ⟨hretry, rfl⟩ := hstep
  cases e with
  | read room turns =>
    have hwriting : (r.stream.pollRead crypto room turns).2.writing = r.stream.writing :=
      VMessStream.pollRead_writing room
    show VMessFramed cipher calm (r.afterRead room (r.stream.pollRead crypto room turns))
    generalize r.stream.pollRead crypto room turns = result at hwriting
    match result with
    | (none, s) => exact h.read hwriting r.reads
    | (some answer, s) => exact h.read hwriting _
  | write buf turns => exact (vmess_pollWrite_reports h hcalm hretry).framed
  | flush turns => exact vmess_pollFlush_framed h hcalm fun hsome => hundisturbed hsome rfl
  | shutdown turns => exact vmess_pollShutdown_framed h hcalm fun hsome => hundisturbed hsome rfl

end VMess

/-! ## Reports -/

/-- The caller was told of data rightly: the last block with data has it, is not one of those told
before and was taken as a whole; what the stream below took are the bytes of the blocks, one after
the other. -/
structure Told {τ : Type} (F : FrameCodec τ UInt8 UInt8) (acks : List Bytes) (data : Bytes)
    (o : Outgoing τ UInt8) : Prop where
  sent : o.sent = o.ledger.flatMap Block.accepted
  encoded : ∀ block ∈ o.ledger, block.bytes = F.encode block.tag
  last : Outgoing.LastWhole F.data acks data o.ledger

/-- The blocks were taken as a whole, so that each follows the one before. -/
def Unbroken {τ : Type} (o : Outgoing τ UInt8) : Prop :=
  ∀ block ∈ o.old, block.Whole

theorem Told.of_framed {τ : Type} {F : FrameCodec τ UInt8 UInt8} {calm : Prop}
    {w : Writer τ UInt8 UInt8} (h : Framed F calm w) {o : Outgoing τ UInt8} (hwire : w.wire = o)
    {acks : List Bytes} {data : Bytes} (hlast : Outgoing.LastWhole F.data acks data o.ledger) :
    Told F acks data o ∧ (calm → Unbroken o) := by
  subst hwire
  exact ⟨⟨h.valid.sent_eq, fun block hblock => h.encoded hblock, hlast⟩, h.intact⟩

theorem wire_afterWrite (r : WsRun) (buf : Bytes) (result : WsPoll Nat × WsStream) :
    (r.afterWrite buf result).writer.wire = result.2.wire := by
  match result with
  | (none, s) | (some (.ok n), s) | (some (.error e), s) => rfl

theorem vmess_wire_afterWrite (r : VMessRun) (buf : Bytes) (result : VMessPoll Nat × VMessStream) :
    (r.afterWrite buf result).writer.wire = result.2.wire := by
  match result with
  | (none, s) | (some (.ok n), s) | (some (.error e), s) => rfl

end Sockrocket
