import Sockrocket.Proxy.ShadowTls
import Sockrocket.Proxy.TlsRecord

/-!
# Writing to a shadow-tls stream

Which bytes the frames on the wire have. `ShadowTlsIo` does not remember for which buffer the frames in
`write_pending` were made: `poll_write` takes them for those of its own buffer if there is something
left of them, and makes new ones otherwise. `shadow_writes_once` is the condition under which this is
right: the buffer of a retry is the one from before, and nobody else wrote the frames out in the
meantime.
-/

namespace Sockrocket

open Rust Dns AsyncIo Transition Decode List

/-! ## Frames -/

/-- The rolling HMAC after some frames. -/
def rolled (crypto : ShadowCrypto) (mac : HmacSha1) (frames : List Bytes) : HmacSha1 :=
  frames.foldl (fun mac frame => (mac.update frame).update (mac4 crypto (mac.update frame))) mac

/-- The bytes of a frame after others. -/
def encodeFrame (crypto : ShadowCrypto) (mac : HmacSha1) (done : List Bytes) (frame : Bytes) :
    Bytes :=
  shadowFrame (mac4 crypto ((rolled crypto mac done).update frame)) frame

/-- Frames have some bytes, and not more than their length can tell. -/
def FrameSize (frame : Bytes) : Prop :=
  0 < frame.length ∧ frame.length ≤ 65531

theorem rolled_append (crypto : ShadowCrypto) (mac : HmacSha1) (xs ys : List Bytes) :
    rolled crypto mac (xs ++ ys) = rolled crypto (rolled crypto mac xs) ys :=
  foldl_append

section Frame

variable {tag frame : Bytes}

theorem length_shadowFrame (htag : tag.length = 4) :
    (shadowFrame tag frame).length = 9 + frame.length := by
  simp only [shadowFrame, be16, length_append, length_cons, length_nil, htag]

/-- The length in a frame is exact. -/
theorem u16At_shadowFrame (hsize : frame.length ≤ 65531) :
    u16At (shadowFrame tag frame) 3 = 4 + frame.length := by
  rw [shadowFrame, append_assoc, append_assoc]
  have hright := u16At_append_right [tlsApplicationData, 3, 3]
    (be16 (4 + frame.length) ++ (tag ++ frame)) 0
  rw [u16At_append (x := be16 (4 + frame.length)) (by exact Nat.lt_succ_self 1),
    u16At_be16 (by omega)] at hright
  exact hright

theorem isRecord_shadowFrame (htag : tag.length = 4) (hsize : frame.length ≤ 65531) :
    IsTlsRecord 4 (shadowFrame tag frame) :=
  ⟨by rw [u16At_shadowFrame hsize, length_shadowFrame htag]; omega,
    by rw [u16At_shadowFrame hsize]; omega⟩

theorem drop_shadowFrame (htag : tag.length = 4) : (shadowFrame tag frame).drop 9 = frame := by
  have hlength : ([tlsApplicationData, 3, 3] ++ be16 (4 + frame.length) ++ tag).length = 9 := by
    simp [be16, htag]
  rw [shadowFrame, ← hlength, drop_left]

end Frame

/-- The payload of the first frame of a stream. -/
def takeFrame (done : List Bytes) (input : Bytes) : Option (Bytes × Bytes) :=
  (takeRecord 4 done input).map fun (record, rest) => (record.drop 9, rest)

variable {crypto : ShadowCrypto} {mac : HmacSha1}

theorem takeFrame_encodeFrame (done : List Bytes) {frame : Bytes} (hsize : FrameSize frame)
    (more : Bytes) :
    takeFrame done (encodeFrame crypto mac done frame ++ more) = some (frame, more) := by
  rw [takeFrame, encodeFrame,
    takeRecord_record (isRecord_shadowFrame (length_mac4 crypto _) hsize.2)]
  exact congrArg (fun data => some (data, more)) (drop_shadowFrame (length_mac4 crypto _))

/-- The bytes tell the frames. -/
theorem encodeFrames_inj {xs ys : List Bytes} (hxs : ∀ x ∈ xs, FrameSize x)
    (hys : ∀ y ∈ ys, FrameSize y)
    (h : encodeAll (encodeFrame crypto mac) [] xs = encodeAll (encodeFrame crypto mac) [] ys) :
    xs = ys :=
  encodeAll_inj (fun done => congrArg (Option.map _) (takeRecord_nil done)) takeFrame_encodeFrame
    hxs hys h

/-! ## The queue of frames -/

/-- What is still to be written. -/
def ShadowTlsIo.unsent (io : ShadowTlsIo) : Bytes :=
  io.writePending.drop io.writePos

/-- The frames that were made, on the wire and in the queue. -/
structure Writing (crypto : ShadowCrypto) (mac : HmacSha1) (io : ShadowTlsIo)
    (frames : List Bytes) : Prop where
  sizes : ∀ frame ∈ frames, FrameSize frame
  bytes : io.sent ++ io.unsent = encodeAll (encodeFrame crypto mac) [] frames
  hmac : io.writeHmac = rolled crypto mac frames
  pos_le : io.writePos ≤ io.writePending.length

/-- The queue of an idle writer is written. -/
theorem unsent_eq_nil {io : ShadowTlsIo} (h : io.writePos = io.writePending.length) :
    io.unsent = [] := by
  rw [ShadowTlsIo.unsent, h, drop_length]

theorem foldl_queueChunk (crypto : ShadowCrypto) (mac : HmacSha1) (io : ShadowTlsIo)
    (chunks : List Bytes) {frames : List Bytes} (hmac : io.writeHmac = rolled crypto mac frames) :
    chunks.foldl (ShadowTlsIo.queueChunk crypto) io =
      { io with
        writeHmac := rolled crypto mac (frames ++ chunks)
        writePending := io.writePending ++ encodeAll (encodeFrame crypto mac) frames chunks } := by
  induction chunks generalizing io frames with
  | nil => rw [foldl_nil, append_nil, encodeAll, append_nil, ← hmac]
  | cons chunk chunks ih =>
    have hnext : (io.queueChunk crypto chunk).writeHmac = rolled crypto mac (frames ++ [chunk]) := by
      rw [rolled_append, ← hmac]
      rfl
    have hframe : shadowFrame (mac4 crypto (io.writeHmac.update chunk)) chunk =
        encodeFrame crypto mac frames chunk := by
      rw [encodeFrame, hmac]
    rw [foldl_cons, ih _ hnext, append_assoc, singleton_append, encodeAll, ← append_assoc, ← hframe]
    rfl

namespace Writing

variable {io : ShadowTlsIo} {frames : List Bytes}

theorem new (crypto : ShadowCrypto) (incoming password serverRandom : Bytes) (role : FrameRole) :
    Writing crypto (hmacPassword password [serverRandom, role.writeLabel])
      (.new incoming password serverRandom role) [] :=
  ⟨nofun, rfl, rfl, Nat.le_refl 0⟩

theorem queueFrame (h : Writing crypto mac io frames) (hidle : io.writePos = io.writePending.length)
    (buf : Bytes) :
    Writing crypto mac (io.queueFrame crypto buf) (frames ++ Pieces.chunks 65531 buf) := by
  have hqueue := foldl_queueChunk crypto mac { io with writePending := [] }
    (Pieces.chunks 65531 buf) h.hmac
  rw [ShadowTlsIo.queueFrame, hqueue]
  refine ⟨fun frame hf => ?_, ?_, rfl, Nat.zero_le _⟩
  · rcases mem_append.mp hf with hf | hf
    · exact h.sizes frame hf
    · exact Pieces.length_of_mem_chunks (by decide) hf
  · have hbytes := h.bytes
    rw [unsent_eq_nil hidle, append_nil] at hbytes
    rw [encodeAll_append, nil_append, ← hbytes]
    rfl

end Writing

/-- What the loop of a write does: it moves bytes to the stream below. -/
structure WroteOut (io : ShadowTlsIo) (turns : List Behaviour) (answer : FlushAnswer)
    (io' : ShadowTlsIo) : Prop where
  moved : ∃ pos sent, io' = { io with writePos := pos, sent := sent } ∧
    sent ++ io'.unsent = io.sent ++ io.unsent ∧ pos ≤ io.writePending.length
  done : answer = .done → io'.writePos = io.writePending.length
  calm : (∀ t ∈ turns, t.Calm) → answer = .pending ∨ answer = .done

theorem wroteOut {io : ShadowTlsIo} (hle : io.writePos ≤ io.writePending.length)
    (turns : List Behaviour) :
    WroteOut io turns (io.writeOut turns).1 (io.writeOut turns).2.1 := by
  have hstay {io : ShadowTlsIo} (hle : io.writePos ≤ io.writePending.length) :
      ∃ pos sent, io = { io with writePos := pos, sent := sent } ∧
        sent ++ io.unsent = io.sent ++ io.unsent ∧ pos ≤ io.writePending.length :=
    ⟨io.writePos, io.sent, rfl, rfl, hle⟩
  induction turns generalizing io with
  | nil =>
    rw [ShadowTlsIo.writeOut]
    by_cases hless : io.writePos < io.writePending.length
    · rw [if_pos hless]
      exact ⟨hstay hle, nofun, fun _ => .inl rfl⟩
    · rw [if_neg hless]
      exact ⟨hstay hle, fun _ => le_antisymm hle (not_lt.mp hless), fun _ => .inr rfl⟩
  | cons turn turns ih =>
    rw [ShadowTlsIo.writeOut.eq_def]
    dsimp only
    by_cases hless : io.writePos < io.writePending.length
    · rw [if_pos hless]
      match turn with
      | .pending => exact ⟨hstay hle, nofun, fun _ => .inl rfl⟩
      | .failed =>
        exact ⟨hstay hle, nofun, fun hcalm => absurd rfl (hcalm _ mem_cons_self).1⟩
      | .ready size =>
        dsimp only
        generalize hn : min size (io.writePending.length - io.writePos) = n
        by_cases hzero : n = 0
        · rw [if_pos hzero]
          refine ⟨hstay hle, nofun, fun hcalm => ?_⟩
          obtain rfl : size = 0 := by omega
          exact absurd rfl (hcalm _ mem_cons_self).2
        · rw [if_neg hzero]
          have hnext : WroteOut { io with
              writePos := io.writePos + n
              sent := io.sent ++ (io.writePending.drop io.writePos).take n } turns _ _ :=
            ih (show io.writePos + n ≤ io.writePending.length by omega)
          obtain ⟨⟨pos, sent, hio, hbytes, hpos⟩, done, calm⟩ := hnext
          refine ⟨⟨pos, sent, hio, ?_, hpos⟩, done, fun hcalm => ?_⟩
          · refine hbytes.trans ?_
            show io.sent ++ (io.writePending.drop io.writePos).take n ++
              io.writePending.drop (io.writePos + n) = io.sent ++ io.unsent
            rw [append_assoc, ← drop_drop, take_append_drop]
            rfl
          · exact calm fun t ht => hcalm t (mem_cons_of_mem _ ht)
    · rw [if_neg hless]
      exact ⟨hstay hle, fun _ => le_antisymm hle (not_lt.mp hless), fun _ => .inr rfl⟩

/-! ## Polls -/

section Polls

variable {io : ShadowTlsIo} {frames : List Bytes} {turns : List Behaviour}

variable {io' : ShadowTlsIo}

theorem Writing.writeOut (h : Writing crypto mac io frames) {answer : FlushAnswer} (hwrote : WroteOut io turns answer io') : Writing crypto mac io' frames := by
  obtain ⟨⟨pos, sent, rfl, hbytes, hpos⟩, -, -⟩ := hwrote
  exact ⟨h.sizes, hbytes.trans h.bytes, h.hmac, hpos⟩

/-- A `poll_write` over a stream that does not fail: it makes frames of its buffer only if nothing was
left of the frames before, and reports its buffer in any case. -/
theorem pollWrite_writing (h : Writing crypto mac io frames) {buf : Bytes} (hbuf : buf ≠ [])
    (hcalm : ∀ t ∈ turns, t.Calm) :
    ∃ io', Writing crypto mac io'
        (if io.writePos = io.writePending.length then frames ++ Pieces.chunks 65531 buf
          else frames) ∧
      (io.pollWrite crypto buf turns = (none, io') ∨
        io.pollWrite crypto buf turns = (some (.ok buf.length), io') ∧
          io'.writePos = io'.writePending.length) := by
  have hqueued : Writing crypto mac
      (if io.writePos = io.writePending.length then io.queueFrame crypto buf else io)
      (if io.writePos = io.writePending.length then frames ++ Pieces.chunks 65531 buf
        else frames) := by
    by_cases hidle : io.writePos = io.writePending.length
    · rw [if_pos hidle, if_pos hidle]
      exact h.queueFrame hidle buf
    · rw [if_neg hidle, if_neg hidle]
      exact h
  rw [ShadowTlsIo.pollWrite, if_neg hbuf]
  dsimp only
  generalize (if io.writePos = io.writePending.length then io.queueFrame crypto buf else io) =
    queued at *
  have hwrote := wroteOut hqueued.pos_le turns
  have hafter := hqueued.writeOut hwrote
  generalize queued.writeOut turns = result at *
  obtain ⟨answer, io', turns'⟩ := result
  dsimp only at hwrote hafter
  rcases hwrote.calm hcalm with rfl | rfl
  · exact ⟨io', hafter, .inl rfl⟩
  refine ⟨{ io' with writePending := [], writePos := 0 }, ?_, .inr ⟨rfl, rfl⟩⟩
  have hidle : io'.writePos = io'.writePending.length := by
    rw [hwrote.done rfl]
    obtain ⟨pos, sent, rfl, -⟩ := hwrote.moved
    rfl
  have hbytes := hafter.bytes
  rw [unsent_eq_nil hidle] at hbytes
  exact ⟨hafter.sizes, hbytes, hafter.hmac, Nat.le_refl 0⟩

theorem pollFlush_writing (h : Writing crypto mac io frames) (turns : List Behaviour) :
    Writing crypto mac (io.pollFlush turns).2.1 frames ∧
      (io.writePos = io.writePending.length →
        (io.pollFlush turns).2.1.writePos = (io.pollFlush turns).2.1.writePending.length) := by
  have hwrote := wroteOut h.pos_le turns
  have hafter := h.writeOut hwrote
  have hidle : io.writePos = io.writePending.length → io.writeOut turns = (.done, io, turns) := by
    intro hidle
    cases turns with
    | nil => rw [ShadowTlsIo.writeOut, if_neg (by omega)]
    | cons turn turns =>
      rw [ShadowTlsIo.writeOut.eq_def]
      exact if_neg (by omega)
  rw [ShadowTlsIo.pollFlush]
  generalize io.writeOut turns = result at *
  obtain ⟨answer, io', turns'⟩ := result
  have hsame : io.writePos = io.writePending.length → io'.writePos = io'.writePending.length := by
    intro h
    obtain ⟨-, hsame⟩ := Prod.mk.inj (hidle h)
    rw [(Prod.mk.inj hsame).1]
    exact h
  cases answer with
  | pending | failed | zero | done => exact ⟨hafter, hsame⟩

theorem pollShutdown_io (io : ShadowTlsIo) (turns : List Behaviour) :
    (io.pollShutdown turns).2 = (io.pollFlush turns).2.1 := by
  rw [ShadowTlsIo.pollShutdown]
  generalize io.pollFlush turns = result
  obtain ⟨answer, io', turns'⟩ := result
  match answer with
  | none | some (.error e) | some (.ok ()) => rfl

/-- The fields that writing is about. -/
def ShadowTlsIo.writing (io : ShadowTlsIo) : HmacSha1 × Bytes × Nat × Bytes :=
  (io.writeHmac, io.writePending, io.writePos, io.sent)

theorem Writing.congr (h : Writing crypto mac io frames)
    (hsame : io'.writing = io.writing) : Writing crypto mac io' frames := by
  simp only [ShadowTlsIo.writing, Prod.mk.injEq] at hsame
  obtain ⟨hmac, hpending, hpos, hsent⟩ := hsame
  refine ⟨h.sizes, ?_, hmac.trans h.hmac, ?_⟩
  · rw [ShadowTlsIo.unsent, hsent, hpending, hpos]
    exact h.bytes
  · rw [hpos, hpending]
    exact h.pos_le

/-- An iteration of the loop of `poll_read` changes nothing about writing. -/
def ShadowTlsIo.KeepsWriting (io : ShadowTlsIo) : ShadowTurn → Prop
  | .again io' _ => io'.writing = io.writing
  | .answer _ io' => io'.writing = io.writing

namespace ShadowTlsIo

theorem handleFrame_writing (crypto : ShadowCrypto) (io : ShadowTlsIo) (turns : List Behaviour) :
    io.KeepsWriting (io.handleFrame crypto turns) := by
  have hverify (io' : ShadowTlsIo) (hsame : io'.writing = io.writing) :
      io.KeepsWriting (io'.verifyFrame crypto turns) := by
    rw [verifyFrame]
    dsimp only
    split <;> exact hsame
  rw [handleFrame]
  dsimp only
  split
  · rfl
  split
  · rfl
  split
  · split
    · rfl
    · exact hverify _ rfl
  · exact hverify _ rfl

theorem readTurn_writing (crypto : ShadowCrypto) (io : ShadowTlsIo) (room : Nat)
    (turns : List Behaviour) : io.KeepsWriting (io.readTurn crypto room turns) := by
  rw [readTurn]
  split
  · rfl
  split
  · rfl
  dsimp only
  have hstart : (if io.hdr = [] then { io with body := [] } else io).writing = io.writing := by
    split <;> rfl
  generalize (if io.hdr = [] then { io with body := [] } else io) = start at hstart
  generalize AsyncIo.fill 5 start.hdr start.incoming turns = result
  obtain ⟨answer, hdr, incoming, turns'⟩ := result
  cases answer with
  | pending | failed | ended => exact hstart
  | full =>
    dsimp only
    rw [readBody]
    dsimp only
    split
    · exact hstart
    generalize AsyncIo.fill (u16At hdr 3) start.body incoming turns' = result
    obtain ⟨answer, body, incoming', turns''⟩ := result
    cases answer with
    | pending | failed | ended => exact hstart
    | full =>
      dsimp only
      have hframe := handleFrame_writing crypto
        { start with hdr, body, incoming := incoming' } turns''
      generalize handleFrame crypto { start with hdr, body, incoming := incoming' } turns'' =
        turn at hframe
      match turn with
      | .again io' _ | .answer _ io' => exact hframe.trans hstart

theorem pollRead_writing (crypto : ShadowCrypto) (io : ShadowTlsIo) (room : Nat)
    (turns : List Behaviour) : (io.pollRead crypto room turns).2.writing = io.writing := by
  rw [pollRead]
  generalize io.incoming.length + io.hdr.length + 1 = fuel
  induction fuel generalizing io turns with
  | zero => rfl
  | succ fuel ih =>
    have hturn := readTurn_writing crypto io room turns
    rw [readLoop]
    generalize io.readTurn crypto room turns = turn at hturn
    match turn with
    | .again io' turns' => exact (ih io' turns').trans hturn
    | .answer answer io' => exact hturn

end ShadowTlsIo

end Polls

/-! ## Every byte once -/

/-- The frames on the wire and in the queue have the bytes that were reported, and those of the write
that pends; their lengths are exact, and if no write pends, all of them are on the wire. -/
def WritesOnce (crypto : ShadowCrypto) (mac : HmacSha1) (r : ShadowRun) : Prop :=
  ∃ frames : List Bytes,
    (∀ frame ∈ frames, FrameSize frame ∧
      ∀ done, u16At (encodeFrame crypto mac done frame) 3 = 4 + frame.length) ∧
    r.io.sent ++ r.io.unsent = encodeAll (encodeFrame crypto mac) [] frames ∧
    frames.flatten = r.acks.flatten ++ r.pended.getD [] ∧
    (r.pended = none → r.io.unsent = [])

/-- A retry has the buffer from before, and something is left of its frames. -/
def ShadowRun.WritesSoundly (r : ShadowRun) : ShadowEvent → Prop
  | .write buf _ => ∀ pended ∈ r.pended, buf = pended ∧ r.io.writePos < r.io.writePending.length
  | _ => True

/-- A poll that the caller may make, over a stream that does not fail. -/
def ShadowRun.Step (crypto : ShadowCrypto) (r : ShadowRun) (e : ShadowEvent) (r' : ShadowRun) :
    Prop :=
  r.Retries e ∧ (∀ t ∈ e.turns, t.Calm) ∧ r' = r.poll crypto e

/-- The frames of the writes that were reported, and of the one that pends. -/
def ShadowRun.frames (r : ShadowRun) : List Bytes :=
  (r.acks ++ r.pended.toList).flatMap (Pieces.chunks 65531)

theorem flatten_frames (r : ShadowRun) : r.frames.flatten = r.acks.flatten ++ r.pended.getD [] := by
  have hchunks (bufs : List Bytes) : (bufs.flatMap (Pieces.chunks 65531)).flatten = bufs.flatten := by
    induction bufs with
    | nil => rfl
    | cons buf bufs ih =>
      rw [flatMap_cons, flatten_append, ih, Pieces.flatten_chunks (by decide), flatten_cons]
  rw [ShadowRun.frames, hchunks, flatten_append]
  cases r.pended with
  | none => rfl
  | some pended => rw [Option.toList_some, flatten_singleton, Option.getD_some]

/-- The invariant behind `WritesOnce`. -/
structure Once (crypto : ShadowCrypto) (mac : HmacSha1) (r : ShadowRun) : Prop where
  writing : Writing crypto mac r.io r.frames
  idle : r.pended = none → r.io.writePos = r.io.writePending.length
  nonempty : ∀ pended ∈ r.pended, pended ≠ []

namespace Once

variable {r : ShadowRun}

/-- The frames of a stream are determined by its bytes. -/
theorem reported_iff {frames : List Bytes} (hwriting : Writing crypto mac r.io frames)
    (hidle : r.pended = none → r.io.writePos = r.io.writePending.length) :
    WritesOnce crypto mac r ↔ frames.flatten = r.acks.flatten ++ r.pended.getD [] := by
  constructor
  · rintro ⟨frames', hsizes, hbytes, hreported, -⟩
    rw [encodeFrames_inj hwriting.sizes (fun frame hf => (hsizes frame hf).1)
      (hwriting.bytes.symm.trans hbytes)]
    exact hreported
  · intro hreported
    refine ⟨frames, fun frame hf => ⟨hwriting.sizes frame hf, fun done => ?_⟩, hwriting.bytes,
      hreported, fun hnone => unsent_eq_nil (hidle hnone)⟩
    exact u16At_shadowFrame (hwriting.sizes frame hf).2

section

variable (h : Once crypto mac r)

include h

theorem writesOnce : WritesOnce crypto mac r :=
  (reported_iff h.writing h.idle).mpr (flatten_frames r)

/-- A poll that does not write keeps everything. -/
theorem keep {io : ShadowTlsIo} (hwriting : Writing crypto mac io r.frames)
    (hidle : r.io.writePos = r.io.writePending.length → io.writePos = io.writePending.length)
    (reads : List (Except ShadowError Bytes)) : Once crypto mac { r with io, reads } :=
  ⟨hwriting, fun hnone => hidle (h.idle hnone), h.nonempty⟩

theorem pollRead (room : Nat) (turns : List Behaviour) :
    Once crypto mac (r.afterRead room (r.io.pollRead crypto room turns)) := by
  have hsame := ShadowTlsIo.pollRead_writing crypto r.io room turns
  generalize r.io.pollRead crypto room turns = result at hsame
  obtain ⟨answer, io⟩ := result
  have hidle : r.io.writePos = r.io.writePending.length →
      io.writePos = io.writePending.length := by
    simp only [ShadowTlsIo.writing, Prod.mk.injEq] at hsame
    rw [hsame.2.1, hsame.2.2.1]
    exact id
  match answer with
  | none => exact h.keep (h.writing.congr hsame) hidle r.reads
  | some answer => exact h.keep (h.writing.congr hsame) hidle _

variable {buf : Bytes}

/-- A `poll_write` of some bytes: what it makes of the frames and of the reports. -/
theorem pollWrite {turns : List Behaviour}
    (hbuf : buf ≠ []) (hcalm : ∀ t ∈ turns, t.Calm) :
    Writing crypto mac (r.poll crypto (.write buf turns)).io
        (if r.io.writePos = r.io.writePending.length then r.frames ++ Pieces.chunks 65531 buf
          else r.frames) ∧
      ((r.poll crypto (.write buf turns)).pended = none →
        (r.poll crypto (.write buf turns)).io.writePos =
          (r.poll crypto (.write buf turns)).io.writePending.length) ∧
      (∀ pended ∈ (r.poll crypto (.write buf turns)).pended, pended ≠ []) ∧
      (r.poll crypto (.write buf turns)).frames =
        r.acks.flatMap (Pieces.chunks 65531) ++ Pieces.chunks 65531 buf := by
  have hframes : (r.acks ++ [buf]).flatMap (Pieces.chunks 65531) =
      r.acks.flatMap (Pieces.chunks 65531) ++ Pieces.chunks 65531 buf := by
    rw [flatMap_append, flatMap_singleton]
  obtain ⟨io', hwriting, hpoll | ⟨hpoll, hidle⟩⟩ := pollWrite_writing h.writing hbuf hcalm
  · rw [ShadowRun.poll, hpoll]
    refine ⟨hwriting, nofun, fun pended hp => ?_, hframes⟩
    obtain rfl := Option.some.inj hp
    exact hbuf
  · rw [ShadowRun.poll, hpoll]
    refine ⟨hwriting, fun _ => hidle, nofun, ?_⟩
    show (r.acks ++ [buf.take buf.length] ++ []).flatMap _ = _
    rw [take_length, append_nil, hframes]

/-- A write keeps every byte once exactly if it is sound. -/
theorem write_iff {turns : List Behaviour}
    (hretries : r.Retries (.write buf turns)) (hcalm : ∀ t ∈ turns, t.Calm) :
    (r.WritesSoundly (.write buf turns) → Once crypto mac (r.poll crypto (.write buf turns))) ∧
    (WritesOnce crypto mac (r.poll crypto (.write buf turns)) →
      r.WritesSoundly (.write buf turns)) := by
  by_cases hbuf : buf = []
  · -- nothing happens; a write that pends is not retried without bytes
    subst hbuf
    have hnone : r.pended = none := by
      rw [Option.eq_none_iff_forall_ne_some]
      intro pended hp
      exact h.nonempty pended hp (prefix_nil.mp (hretries pended hp))
    have hpoll : r.poll crypto (.write [] turns) =
        { r with acks := r.acks ++ [[]], pended := none } := by
      rw [ShadowRun.poll, ShadowTlsIo.pollWrite, if_pos rfl]
      rfl
    refine ⟨fun _ => ?_, fun _ pended hp => ?_⟩
    · have hframes : (r.poll crypto (.write [] turns)).frames = r.frames := by
        rw [hpoll, ShadowRun.frames, ShadowRun.frames, hnone]
        simp only [flatMap_append, flatMap_singleton]
        exact append_nil _
      refine ⟨?_, ?_, ?_⟩
      · rw [hframes, hpoll]
        exact h.writing
      · rw [hpoll]
        exact fun _ => h.idle hnone
      · rw [hpoll]
        exact nofun
    · cases hnone.symm.trans hp
  · obtain ⟨hwriting, hidle, hnonempty, hframes⟩ := h.pollWrite hbuf hcalm
    have hbefore : r.frames = r.acks.flatMap (Pieces.chunks 65531) ++
        r.pended.toList.flatMap (Pieces.chunks 65531) := flatMap_append
    generalize hpended : r.pended = pended at hbefore
    match pended with
    | none =>
      refine ⟨fun _ => ⟨?_, hidle, hnonempty⟩, fun _ pended hp => ?_⟩
      · rw [if_pos (h.idle hpended)] at hwriting
        rw [hframes]
        rw [hbefore] at hwriting
        exact (append_nil (r.acks.flatMap (Pieces.chunks 65531))) ▸ hwriting
      · cases hpended.symm.trans hp
    | some pended =>
      have hbefore : r.frames = r.acks.flatMap (Pieces.chunks 65531) ++
          Pieces.chunks 65531 pended := by
        rw [hbefore, Option.toList_some, flatMap_singleton]
      refine ⟨fun hsound => ⟨?_, hidle, hnonempty⟩, fun honce other hp => ?_⟩
      · obtain ⟨rfl, hbusy⟩ := hsound pended hpended
        rw [if_neg (Nat.ne_of_lt hbusy), hbefore, ← hframes] at hwriting
        exact hwriting
      · obtain rfl := Option.some.inj (hpended.symm.trans hp)
        have hreports := flatten_frames (r.poll crypto (.write buf turns))
        have hreported := flatten_frames r
        rw [hpended, Option.getD_some] at hreported
        have hchunks : (Pieces.chunks 65531 buf).flatten = buf :=
          Pieces.flatten_chunks (by decide) buf
        have hacks : (r.acks.flatMap (Pieces.chunks 65531)).flatten = r.acks.flatten := by
          rw [hbefore, flatten_append, Pieces.flatten_chunks (by decide)] at hreported
          exact append_cancel_right hreported
        rw [reported_iff hwriting hidle, ← hreports, hframes, flatten_append, hacks,
          hchunks] at honce
        have hpos := length_pos_iff.mpr (h.nonempty pended hpended)
        by_cases hfull : r.io.writePos = r.io.writePending.length
        · -- the frames were written by others: they are made again
          rw [if_pos hfull, flatten_append, hchunks, hreported] at honce
          have hlength := congrArg length honce
          simp only [length_append] at hlength
          omega
        · rw [if_neg hfull, hreported] at honce
          have hle := h.writing.pos_le
          exact ⟨(append_cancel_left honce).symm, by omega⟩

/-- A poll keeps every byte once exactly if it is sound. -/
theorem step_iff {e : ShadowEvent} (hretries : r.Retries e)
    (hcalm : ∀ t ∈ e.turns, t.Calm) :
    (r.WritesSoundly e → Once crypto mac (r.poll crypto e)) ∧
    (WritesOnce crypto mac (r.poll crypto e) → r.WritesSoundly e) := by
  cases e with
  | read room turns => exact ⟨fun _ => h.pollRead room turns, fun _ => trivial⟩
  | write buf turns => exact h.write_iff hretries hcalm
  | flush turns =>
    obtain ⟨hwriting, hidle⟩ := pollFlush_writing h.writing turns
    exact ⟨fun _ => h.keep hwriting hidle r.reads, fun _ => trivial⟩
  | shutdown turns =>
    obtain ⟨hwriting, hidle⟩ := pollFlush_writing h.writing turns
    rw [← pollShutdown_io] at hwriting hidle
    exact ⟨fun _ => h.keep hwriting hidle r.reads, fun _ => trivial⟩

end

end Once

/-- The frames of a run whose writes are sound. -/
theorem once_of_run {incoming password serverRandom : Bytes} {role : FrameRole}
    {events : List ShadowEvent} {r : ShadowRun}
    (hrun : Run (fun r e r' => ShadowRun.Step crypto r e r' ∧ r.WritesSoundly e)
      (.new (.new incoming password serverRandom role)) events r) :
    Once crypto (hmacPassword password [serverRandom, role.writeLabel]) r := by
  refine hrun.invariant (Once crypto (hmacPassword password [serverRandom, role.writeLabel])) ?_ ?_
  · exact ⟨.new crypto incoming password serverRandom role, fun _ => rfl,
      nofun⟩
  · rintro r e r' h ⟨⟨hretries, hcalm, rfl⟩, hsound⟩
    exact (h.step_iff hretries hcalm).1 hsound

/-- As long as all polls are sound, the frames on the wire have every reported byte once; and a
further poll keeps this exactly if it is sound. -/
theorem shadow_writes_once (crypto : ShadowCrypto) (incoming password serverRandom : Bytes)
    (role : FrameRole) {events : List ShadowEvent} {r : ShadowRun}
    (hrun : Run (fun r e r' => ShadowRun.Step crypto r e r' ∧ r.WritesSoundly e)
      (.new (.new incoming password serverRandom role)) events r) :
    WritesOnce crypto (hmacPassword password [serverRandom, role.writeLabel]) r ∧
    ∀ e, r.Retries e → (∀ t ∈ e.turns, t.Calm) →
      (WritesOnce crypto (hmacPassword password [serverRandom, role.writeLabel])
        (r.poll crypto e) ↔ r.WritesSoundly e) := by
  have h := once_of_run hrun
  refine ⟨h.writesOnce, fun e hretries hcalm => ⟨(h.step_iff hretries hcalm).2, fun hsound => ?_⟩⟩
  exact ((h.step_iff hretries hcalm).1 hsound).writesOnce

/-- Hashes for tests. -/
def zeroHashes : ShadowCrypto :=
  ⟨fun _ _ => List.replicate 20 0, fun _ _ => rfl, fun _ => List.replicate 32 0, fun _ => rfl⟩

/-- A write that pends is retried with the same buffer, after a flush that pends as well. -/
theorem shadow_writes_once_retry :
    let events : List ShadowEvent := [.write [1, 2] [.ready 3], .flush [.ready 1],
      .write [1, 2] [.ready 100]]
    let r := events.foldl (ShadowRun.poll zeroHashes) (.new (.new [] [] [] .client))
    r.acks = [[1, 2]] ∧
      WritesOnce zeroHashes (hmacPassword [] [[], FrameRole.client.writeLabel]) r := by
  intro events r
  have hacks : r.acks = [[1, 2]] := by decide
  have hpended : ((events.take 2).foldl (ShadowRun.poll zeroHashes)
      (.new (.new [] [] [] .client))).pended = some [1, 2] := by decide
  have hleft : ((events.take 2).foldl (ShadowRun.poll zeroHashes)
      (.new (.new [] [] [] .client))).io.writePos <
      ((events.take 2).foldl (ShadowRun.poll zeroHashes)
        (.new (.new [] [] [] .client))).io.writePending.length := by decide
  have hrun : Run (fun r e r' => ShadowRun.Step zeroHashes r e r' ∧ r.WritesSoundly e)
      (.new (.new [] [] [] .client)) events r := by
    refine .head_foldl ⟨⟨nofun, by decide, rfl⟩, nofun⟩
      (.head_foldl ⟨⟨trivial, by decide, rfl⟩, trivial⟩
        (.head_foldl ⟨⟨fun pended hp => ?_, by decide, rfl⟩, fun pended hp => ?_⟩ (.nil_foldl _)))
    · rw [← Option.some.inj (hpended.symm.trans hp)]
    · exact ⟨Option.some.inj (hpended.symm.trans hp), hleft⟩
  exact ⟨hacks, (shadow_writes_once zeroHashes [] [] [] .client hrun).1⟩

/-- A retry with a longer buffer loses the new bytes, and a retry after a flush has written the frames
has the old bytes twice. -/
theorem shadow_writes_lost_and_twice :
    let start := ShadowRun.new (.new [] [] [] .client)
    let longer : List ShadowEvent := [.write [1] [], .write [1, 2] [.ready 100]]
    let flushed : List ShadowEvent := [.write [1] [], .flush [.ready 100, .ready 1],
      .write [1] [.ready 100]]
    let lost := longer.foldl (ShadowRun.poll zeroHashes) start
    let twice := flushed.foldl (ShadowRun.poll zeroHashes) start
    (Run (ShadowRun.Step zeroHashes) start longer lost ∧ lost.acks = [[1, 2]] ∧
      lost.pended = none ∧
      ¬ WritesOnce zeroHashes (hmacPassword [] [[], FrameRole.client.writeLabel]) lost) ∧
    (Run (ShadowRun.Step zeroHashes) start flushed twice ∧ twice.acks = [[1]] ∧
      twice.pended = none ∧
      ¬ WritesOnce zeroHashes (hmacPassword [] [[], FrameRole.client.writeLabel]) twice) := by
  intro start longer flushed lost twice
  have hsize : ∀ frame ∈ ([[1], [1]] : List Bytes), FrameSize frame := by
    intro frame hf
    rw [show frame = [1] by simpa using hf]
    exact ⟨by decide, by decide⟩
  have hpended : ((flushed.take 2).foldl (ShadowRun.poll zeroHashes) start).pended = some [1] := by
    decide
  refine ⟨⟨?_, by decide, by decide, ?_⟩, ?_, by decide, by decide, ?_⟩
  · refine .head_foldl ⟨nofun, by decide, rfl⟩
      (.head_foldl ⟨fun pended hp => ?_, by decide, rfl⟩ (.nil_foldl _))
    obtain rfl : [1] = pended := Option.some.inj hp
    exact ⟨[2], rfl⟩
  · rintro ⟨frames, hsizes, hbytes, hreported, -⟩
    have hwire : lost.io.sent ++ lost.io.unsent =
        encodeAll (encodeFrame zeroHashes (hmacPassword [] [[], FrameRole.client.writeLabel])) []
          [[1]] := by decide
    have hframes := encodeFrames_inj (fun frame hf => hsize frame (mem_cons_of_mem _ hf))
      (fun frame hf => (hsizes frame hf).1) (hwire.symm.trans hbytes)
    have hacks : lost.acks.flatten ++ lost.pended.getD [] = [1, 2] := by decide
    rw [hacks, ← hframes] at hreported
    cases hreported
  · refine .head_foldl ⟨nofun, by decide, rfl⟩
      (.head_foldl ⟨trivial, by decide, rfl⟩
        (.head_foldl ⟨fun pended hp => ?_, by decide, rfl⟩ (.nil_foldl _)))
    rw [← Option.some.inj (hpended.symm.trans hp)]
  · rintro ⟨frames, hsizes, hbytes, hreported, -⟩
    have hwire : twice.io.sent ++ twice.io.unsent =
        encodeAll (encodeFrame zeroHashes (hmacPassword [] [[], FrameRole.client.writeLabel])) []
          [[1], [1]] := by decide
    have hframes := encodeFrames_inj hsize (fun frame hf => (hsizes frame hf).1)
      (hwire.symm.trans hbytes)
    have hacks : twice.acks.flatten ++ twice.pended.getD [] = [1] := by decide
    rw [hacks, ← hframes] at hreported
    cases hreported

end Sockrocket
