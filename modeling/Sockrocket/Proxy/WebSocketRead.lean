import Sockrocket.Proxy.WebSocketInvariant

/-!
# Reading from a WebSocket stream

`poll_read` keeps `Sound`, whatever the server sends and however the stream below behaves: one lemma
for each part of its loop, `readLoop_sound` for the loop. An answer without bytes is the end of the
stream, and an error is one of the stream below or names the place where the bytes of the server end
or are wrong. `readLoop_answers` says that the loop does not wait without reason.
-/

namespace Sockrocket

open Rust Dns AsyncIo Transition List

variable {calm : Prop} {all : Bytes} {r : WsRun} {done : List WsFrame}

/-- Where reading stops with an error that is not one of the stream below: the bytes end in the
middle of a frame, or a header is wrong. -/
inductive Stops (all : Bytes) (done : List WsFrame) : WsError → Prop where
  | truncated {rest : Bytes} {e : WsError} (decodes : WsFrame.Decodes all done rest)
      (ne : rest ≠ []) (part : WsFrame.take rest = none)
      (error : e = .closedInHeader ∨ e = .closedInPayload) : Stops all done e
  | invalid {hdr tail : Bytes} {e : WsError} (decodes : WsFrame.Decodes all done (hdr ++ tail))
      (complete : HeaderComplete hdr) (error : parseHeader hdr = .error e) : Stops all done e

/-- What the answer to a read says. -/
structure AnswerSound (calm : Prop) (all : Bytes) (r : WsRun) (room : Nat) (answer : WsPoll Bytes)
    (s : WsStream) (done : List WsFrame) : Prop where
  sound : Sound calm all (r.afterRead (answer, s)) done
  eof : 0 < room → answer = some (.ok []) → s.readEof = true
  error : ∀ e, answer = some (.error e) → calm → NoClose done ∧ Stops all done e

/-- What an iteration of the loop keeps. -/
def TurnSound (calm : Prop) (all : Bytes) (r : WsRun) (room : Nat) : ReadTurn → Prop
  | .again s turns =>
    (∃ done, Sound calm all { r with stream := s } done) ∧ (calm → ∀ t ∈ turns, t.Calm)
  | .answer answer s _ => ∃ done, AnswerSound calm all r room answer s done

/-- An answer without bytes leaves the caller with what it had. -/
theorem afterRead_nil (r : WsRun) (s : WsStream) :
    r.afterRead (some (.ok []), s) = { r with stream := s } := by
  rw [WsRun.afterRead, append_nil]

theorem TurnSound.pending {s : WsStream} (h : Sound calm all { r with stream := s } done)
    (room : Nat) (turns : List Behaviour) : TurnSound calm all r room (.answer none s turns) :=
  ⟨done, h, nofun, nofun⟩

theorem TurnSound.failed {s : WsStream} (h : Sound calm all { r with stream := s } done)
    (room : Nat) (turns : List Behaviour) {e : WsError}
    (he : calm → NoClose done ∧ Stops all done e) :
    TurnSound calm all r room (.answer (some (.error e)) s turns) := by
  refine ⟨done, h, nofun, fun e' h => ?_⟩
  obtain rfl := Except.error.inj (Option.some.inj h)
  exact he

theorem TurnSound.ended {s : WsStream} (h : Sound calm all { r with stream := s } done)
    (heof : s.readEof) (room : Nat) (turns : List Behaviour) :
    TurnSound calm all r room (.answer (some (.ok [])) s turns) := by
  refine ⟨done, ?_, fun _ _ => heof, nofun⟩
  rwa [afterRead_nil]

/-- What an iteration keeps does not depend on the state that a part of it started from. -/
theorem TurnSound.of_stream {s : WsStream} {room : Nat} {turn : ReadTurn}
    (h : TurnSound calm all { r with stream := s } room turn) : TurnSound calm all r room turn := by
  match turn with
  | .again s turns => exact h
  | .answer none s turns | .answer (some (.ok bytes)) s turns | .answer (some (.error e)) s turns =>
    obtain ⟨done, hsound, heof, herror⟩ := h
    exact ⟨done, hsound, heof, herror⟩

theorem maskWith_nil (mask : Option WsKey) (i : Nat) : maskWith mask i [] = [] := by
  cases mask with
  | none | some key => rfl

/-! ## The frame that is read -/

namespace Reads

variable {s : WsStream} {delivered : Bytes}

section

variable (h : Reads all s done delivered)

include h

/-- A complete header has the length that was asked for. -/
theorem length_hdr (hcomplete : HeaderComplete s.hdr) :
    s.hdr.length = s.hdrLen := by
  have hle := h.hdr_le
  have htwo := hcomplete.two_le
  rcases h.hdrLen with hlen | ⟨-, hlen⟩
  · omega
  · rw [hlen]
    exact hcomplete.symm

/-- A header that has as many bytes as were asked for is complete, once it is not the fixed part
only. -/
theorem headerComplete (hfull : s.hdrLen ≤ s.hdr.length)
    (hlong : ¬ (s.hdrLen = 2 ∧ 2 < wsHeaderSize (s.hdr.getD 1 0))) : HeaderComplete s.hdr := by
  have hle := h.hdr_le
  have htwo := WsFrame.two_le_wsHeaderSize (s.hdr.getD 1 0)
  rw [HeaderComplete]
  rcases h.hdrLen with hlen | ⟨-, hlen⟩
  · have hsmall : ¬ 2 < wsHeaderSize (s.hdr.getD 1 0) := fun hsize => hlong ⟨hlen, hsize⟩
    omega
  · omega

/-- A header that has less bytes than were asked for is not the header of a frame that is read
further. -/
theorem inHeader (hless : s.hdr.length < s.hdrLen) :
    WsFrame.Decodes all done (s.hdr ++ (s.readPending ++ s.incoming)) ∧ s.payload = [] ∧
      s.frameRead = 0 ∧ delivered = dataOf done := by
  obtain ⟨got, current, hdecodes, hpart, hdelivered⟩ := h.part
  cases hpart with
  | header payload_nil read =>
    exact ⟨hdecodes, payload_nil, read, by rw [hdelivered, append_nil]⟩
  | data complete parsed isData lt payload_nil read | control complete parsed isControl lt read =>
    have hlength := h.length_hdr complete
    omega

/-- A part of a header is no frame. -/
theorem take_hdr (hless : s.hdr.length < s.hdrLen) :
    WsFrame.take s.hdr = none := by
  have htwo := WsFrame.two_le_wsHeaderSize (s.hdr.getD 1 0)
  rw [WsFrame.take, if_neg]
  rcases h.hdrLen with hlen | ⟨-, hlen⟩ <;> omega

/-- More bytes of the header. -/
theorem fillHeader (heof : s.readEof = false)
    {hdr readPending incoming moved : Bytes} (hhdr : hdr = s.hdr ++ moved)
    (hmoved : s.readPending ++ s.incoming = moved ++ (readPending ++ incoming))
    (hle : hdr.length ≤ s.hdrLen) :
    Reads all { s with hdr, readPending, incoming } done delivered := by
  have hnotEof : ({ s with hdr, readPending, incoming } : WsStream).readEof ≠ true := by
    rw [show _ = false from heof]
    decide
  by_cases hnil : moved = []
  · subst hnil
    rw [append_nil] at hhdr
    subst hhdr
    obtain ⟨got, current, hdecodes, hpart⟩ := h.part
    rw [hmoved] at hdecodes
    exact { h with part := ⟨got, current, hdecodes, hpart⟩, eof := fun h => absurd h hnotEof }
  · have hpos := length_pos_iff.mpr hnil
    have hlength : hdr.length = s.hdr.length + moved.length := by rw [hhdr, length_append]
    obtain ⟨hdecodes, hpayload, hread, hdelivered⟩ := h.inHeader (by omega)
    refine { h with part := ?_, hdr_le := hle, hdrLen := ?_, eof := fun h => absurd h hnotEof }
    · rw [hmoved, ← append_assoc, ← hhdr] at hdecodes
      exact ⟨[], [], hdecodes, .header hpayload hread, by rw [append_nil, hdelivered]⟩
    · refine h.hdrLen.imp id fun ⟨htwo, hlen⟩ => ?_
      refine ⟨show 2 ≤ hdr.length by omega, ?_⟩
      rw [hlen, hhdr, getD_append _ _ _ _ (by omega)]

end

variable {opcode : UInt8} {len : Nat} {mask : Option WsKey}

/-- In a data frame, the caller has what was read of it. -/
theorem inData (h : Reads all s done delivered)
    (parsed : parseHeader s.hdr = .ok (opcode, len, mask)) (isData : dataOpcode opcode) :
    ∃ got, WsFrame.Decodes all done (s.hdr ++ (got ++ (s.readPending ++ s.incoming))) ∧
      s.payload = [] ∧ s.frameRead = got.length ∧ (got.length < len ∨ len = 0 ∧ got = []) ∧
      delivered = dataOf done ++ maskWith mask 0 got := by
  obtain ⟨got, current, hdecodes, hpart, hdelivered⟩ := h.part
  cases hpart with
  | header payload_nil read =>
    refine ⟨[], hdecodes, payload_nil, read, ?_, by rw [maskWith_nil]; exact hdelivered⟩
    exact (Nat.eq_zero_or_pos len).symm.imp id fun hzero => ⟨hzero, rfl⟩
  | data complete parsed' isData' lt payload_nil read =>
    obtain ⟨-, hrest⟩ := Prod.mk.inj (Except.ok.inj (parsed.symm.trans parsed'))
    obtain ⟨rfl, rfl⟩ := Prod.mk.inj hrest
    exact ⟨got, hdecodes, payload_nil, read, .inl lt, hdelivered⟩
  | control complete parsed' isControl lt read =>
    obtain ⟨rfl, -⟩ := Prod.mk.inj (Except.ok.inj (parsed.symm.trans parsed'))
    rw [isData] at isControl
    cases isControl

/-- In a control frame, the caller has nothing of it. -/
theorem inControl (h : Reads all s done delivered)
    (parsed : parseHeader s.hdr = .ok (opcode, len, mask)) (isControl : dataOpcode opcode = false) :
    WsFrame.Decodes all done (s.hdr ++ (s.payload ++ (s.readPending ++ s.incoming))) ∧
      s.payload.length ≤ len ∧ s.frameRead = 0 ∧ delivered = dataOf done := by
  obtain ⟨got, current, hdecodes, hpart, hdelivered⟩ := h.part
  cases hpart with
  | header payload_nil read =>
    rw [append_nil] at hdelivered
    rw [payload_nil]
    exact ⟨hdecodes, Nat.zero_le _, read, hdelivered⟩
  | data complete parsed' isData lt payload_nil read =>
    obtain ⟨rfl, -⟩ := Prod.mk.inj (Except.ok.inj (parsed.symm.trans parsed'))
    rw [isData] at isControl
    cases isControl
  | control complete parsed' isControl' lt read =>
    obtain ⟨-, hrest⟩ := Prod.mk.inj (Except.ok.inj (parsed.symm.trans parsed'))
    obtain ⟨rfl, -⟩ := Prod.mk.inj hrest
    rw [append_nil] at hdelivered
    exact ⟨hdecodes, le_of_lt lt, read, hdelivered⟩

/-- After a frame that is not a close. -/
theorem finish {f : WsFrame} (hdecodes : WsFrame.Decodes all (done ++ [f])
      (s.readPending ++ s.incoming)) (hnoClose : NoClose done) (hf : f.opcode ≠ 8)
    (hclosing : s.closing = false) (heof : s.readEof = false)
    (hdelivered : delivered = dataOf (done ++ [f])) :
    Reads all s.resetFrame (done ++ [f]) delivered where
  part := ⟨[], [], hdecodes, .header rfl rfl, by rw [append_nil, hdelivered]⟩
  hdr_le := Nat.zero_le 2
  hdrLen := .inl rfl
  noClose := fun _ => hnoClose.append_singleton hf
  close := fun h => by rw [show s.resetFrame.closing = false from hclosing] at h; cases h
  eof := fun h => by rw [show s.resetFrame.readEof = false from heof] at h; cases h

end Reads

variable {hdr got : Bytes}

/-- A header and its payload are the next frame. -/
theorem decodes_frame {rest : Bytes} {opcode : UInt8} {mask : Option WsKey}
    (hdecodes : WsFrame.Decodes all done (hdr ++ (got ++ rest))) (hcomplete : HeaderComplete hdr)
    (hparsed : parseHeader hdr = .ok (opcode, got.length, mask)) :
    ∃ f : WsFrame, f.opcode = opcode ∧ f.payload = maskWith mask 0 got ∧
      WsFrame.Decodes all (done ++ [f]) rest :=
  ⟨_, rfl, rfl, hdecodes.snoc (WsFrame.take_parts hcomplete hparsed rest)⟩

/-- A header with less than its payload is no frame. -/
theorem take_short {opcode : UInt8} {len : Nat} {mask : Option WsKey}
    (hcomplete : HeaderComplete hdr) (hparsed : parseHeader hdr = .ok (opcode, len, mask))
    (hshort : got.length < len) : WsFrame.take (hdr ++ got) = none := by
  have htwo := hcomplete.two_le
  have hget : (hdr ++ got).getD 1 0 = hdr.getD 1 0 := getD_append _ _ _ _ (by omega)
  rw [WsFrame.take, hget, hcomplete, if_pos (by rw [length_append]; omega), take_left, hparsed]
  exact if_neg (by rw [length_append]; omega)

theorem ne_of_dataOpcode {opcode : UInt8} (h : dataOpcode opcode) :
    opcode ≠ 8 ∧ opcode ≠ 9 := by
  constructor
  · rintro rfl
    cases h
  · rintro rfl
    cases h

/-! ## Answers to the server -/

variable {queued : List WsFrame} {flight : Bytes}

/-- A ping is answered by a pong. -/
theorem Writes.pong {r : WsRun}
    (h : Writes r done queued flight) (hvalid : r.stream.wire.Valid) {f : WsFrame}
    (hf : f.opcode = 9) (hlength : f.payload.length ≤ 125) (key : WsKey) :
    Writes
      { r with stream :=
          { (r.stream.queueFrame 10 f.payload key).resetFrame with ctrlFlush := true } }
      (done ++ [f]) (queued ++ [clientFrame 10 f.payload key]) flight where
  wire := h.queue hvalid 10 f.payload key
  client := h.client_queue (.inr ⟨.inr rfl, hlength⟩) key
  binary := by
    rw [payloadsOf_append, payloadsOf_clientFrame, if_neg (by decide), append_nil]
    exact h.binary
  pongs := by
    rw [payloadsOf_append, payloadsOf_append, payloadsOf_clientFrame, if_pos rfl,
      payloadsOf_singleton, if_pos hf, h.pongs]
  closes := by
    rw [payloadsOf_append, payloadsOf_clientFrame, if_neg (by decide), append_nil]
    exact h.closes
  free := h.free
  held := h.held

/-- A close is queued once. -/
theorem Writes.queueClose {r : WsRun}
    (h : Writes r done queued flight) (hvalid : r.stream.wire.Valid) (key : WsKey) :
    ∃ queued', Writes { r with stream := r.stream.queueClose key } done queued' flight := by
  rw [WsStream.queueClose]
  by_cases hsent : r.stream.closeSent
  · rw [if_pos hsent]
    exact ⟨queued, h⟩
  rw [if_neg hsent]
  have hcount := h.closes
  rw [if_neg hsent] at hcount
  refine ⟨queued ++ [clientFrame 8 [] key], h.queue hvalid 8 [] key,
    h.client_queue (.inr ⟨.inl rfl, Nat.zero_le _⟩) key, ?_, ?_, ?_, h.free, h.held⟩
  · rw [payloadsOf_append, payloadsOf_clientFrame, if_neg (by decide), append_nil]
    exact h.binary
  · rw [payloadsOf_append, payloadsOf_clientFrame, if_neg (by decide), append_nil]
    exact h.pongs
  · rw [payloadsOf_append, payloadsOf_clientFrame, if_pos rfl, length_append, hcount]
    rfl

theorem queueClose_eq (s : WsStream) (key : WsKey) :
    s.queueClose key = { s with wire := (s.queueClose key).wire, closeSent := true } := by
  rw [WsStream.queueClose]
  by_cases hsent : s.closeSent
  · rw [if_pos hsent, ← hsent]
  · rw [if_neg hsent]
    rfl

theorem Sound.queueClose (h : Sound calm all r done) (key : WsKey) :
    Sound calm all { r with stream := r.stream.queueClose key } done := by
  refine ⟨?_, ?_, fun hc => ?_⟩
  · rw [queueClose_eq]
    exact { h.reads with }
  · rw [WsStream.queueClose]
    split
    · exact h.valid
    · exact h.valid.queue _ _
  · obtain ⟨queued, flight, hw⟩ := h.writes hc
    obtain ⟨queued', hw'⟩ := hw.queueClose h.valid key
    exact ⟨queued', flight, hw'⟩

/-! ## The parts of the loop -/

namespace WsStream

variable {room len : Nat} {opcode : UInt8} {mask : Option WsKey} {key : WsKey}
  {turns : List Behaviour}

section

variable (h : Sound calm all r done) (hclosing : r.stream.closing = false)
  (heof : r.stream.readEof = false) (hcomplete : HeaderComplete r.stream.hdr)

include h hclosing heof hcomplete

variable {readPending incoming : Bytes}

/-- The bytes of a data frame go to the caller, unmasked from where the last ones ended. -/
theorem deliver_sound (hparsed : parseHeader r.stream.hdr = .ok (opcode, len, mask))
    (hdata : dataOpcode opcode) (hlen : 0 < len) {bytes : Bytes}
    (hmoved : r.stream.readPending ++ r.stream.incoming = bytes ++ (readPending ++ incoming))
    (hcount : bytes.length ≤ len - r.stream.frameRead)
    (hend : bytes = [] → readPending ++ incoming = []) :
    TurnSound calm all r room
      (deliver { r.stream with readPending, incoming } len mask bytes turns) := by
  have reads := h.reads
  obtain ⟨got, hdecodes, hpayload, hread, hwithin, hdelivered⟩ := reads.inData hparsed hdata
  have hlt : got.length < len := by
    rcases hwithin with hlt | ⟨hzero, -⟩
    · exact hlt
    · omega
  have hnoClose := reads.noClose hclosing
  have hnotEof {P : Prop} (h : r.stream.readEof) : P := by
    rw [heof] at h
    cases h
  rw [hmoved] at hdecodes
  rw [deliver]
  by_cases hbytes : bytes = []
  · -- the stream ended
    subst hbytes
    rw [if_pos rfl]
    have hnil := hend rfl
    rw [nil_append] at hmoved
    have hs : Reads all { r.stream with readPending, incoming } done r.delivered := by
      obtain ⟨got, current, hpart⟩ := reads.part
      rw [hmoved] at hpart
      exact { reads with part := ⟨got, current, hpart⟩, eof := hnotEof }
    refine TurnSound.failed (h.read hs rfl rfl) _ _ fun _ => ?_
    rw [hnil, append_nil, append_nil] at hdecodes
    have htwo := hcomplete.two_le
    refine ⟨hnoClose, .truncated hdecodes ?_ (take_short hcomplete hparsed hlt) (.inr rfl)⟩
    exact ne_nil_of_length_pos (by rw [length_append]; omega)
  · rw [if_neg hbytes]
    dsimp only
    have hpos := length_pos_iff.mpr hbytes
    have hgot : (got ++ bytes).length = r.stream.frameRead + bytes.length := by
      rw [length_append, hread]
    have hnext : maskWith mask 0 got ++ maskWith mask r.stream.frameRead bytes =
        maskWith mask 0 (got ++ bytes) := by
      rw [maskWith_append, zero_add, hread]
    have hanswer {s : WsStream} {done' : List WsFrame}
        (hs : Sound calm all
          { r with stream := s, delivered := r.delivered ++ maskWith mask r.stream.frameRead bytes }
          done') :
        TurnSound calm all r room
          (.answer (some (.ok (maskWith mask r.stream.frameRead bytes))) s turns) := by
      refine ⟨done', hs, fun _ hnil => ?_, nofun⟩
      have hlength := length_maskWith mask r.stream.frameRead bytes
      rw [Except.ok.inj (Option.some.inj hnil), length_nil] at hlength
      omega
    rw [← append_assoc got] at hdecodes
    by_cases hlast : r.stream.frameRead + bytes.length = len
    · -- the last bytes of the frame
      rw [if_pos hlast]
      rw [← hlast, ← hgot] at hparsed
      obtain ⟨f, rfl, hpayload, hframe⟩ := decodes_frame hdecodes hcomplete hparsed
      have hf := ne_of_dataOpcode hdata
      refine hanswer (h.read (Reads.finish hframe hnoClose hf.1 hclosing heof ?_) rfl ?_)
      · rw [hdelivered, dataOf_append, dataOf_singleton, if_pos hdata, hpayload, append_assoc,
          hnext]
      · rw [payloadsOf_append, payloadsOf_singleton, if_neg hf.2, append_nil]
    · rw [if_neg hlast]
      refine hanswer (h.read { reads with part := ?_, close := ?_, eof := hnotEof } rfl rfl)
      · refine ⟨got ++ bytes, _, hdecodes,
          .data hcomplete hparsed hdata (by omega) hpayload hgot.symm, ?_⟩
        rw [hdelivered, append_assoc, hnext]
      · intro hclose
        rw [hclosing] at hclose
        cases hclose

theorem readData_sound (hparsed : parseHeader r.stream.hdr = .ok (opcode, len, mask))
    (hdata : dataOpcode opcode) (hroom : 0 < room) (hcalm : calm → ∀ t ∈ turns, t.Calm) :
    TurnSound calm all r room (r.stream.readData room len mask turns) := by
  obtain ⟨got, hdecodes, hpayload, hread, hwithin, hdelivered⟩ := h.reads.inData hparsed hdata
  have hopcode := ne_of_dataOpcode hdata
  rw [readData]
  by_cases hzero : len = 0
  · -- an empty frame
    rw [if_pos hzero]
    obtain rfl : got = [] := by
      rcases hwithin with hlt | ⟨-, hnil⟩
      · omega
      · exact hnil
    subst hzero
    obtain ⟨f, rfl, hfp, hframe⟩ := decodes_frame hdecodes hcomplete hparsed
    refine ⟨⟨done ++ [f], h.read (Reads.finish hframe (h.reads.noClose hclosing) hopcode.1 hclosing
      heof ?_) rfl ?_⟩, hcalm⟩
    · rw [hdelivered, dataOf_append, dataOf_singleton, if_pos hdata, hfp]
    · rw [payloadsOf_append, payloadsOf_singleton, if_neg hopcode.2, append_nil]
  · rw [if_neg hzero]
    dsimp only
    have hlen : 0 < len := by omega
    generalize hcount : min room (len - r.stream.frameRead) = count
    by_cases hpending : r.stream.readPending ≠ []
    · rw [if_pos hpending]
      have hmoved : r.stream.readPending ++ r.stream.incoming = r.stream.readPending.take count ++
          (r.stream.readPending.drop count ++ r.stream.incoming) := by
        rw [← append_assoc, take_append_drop]
      refine deliver_sound h hclosing heof hcomplete hparsed hdata hlen hmoved ?_ fun hnil => ?_
      · rw [length_take]
        omega
      · have hlength := congrArg length hnil
        have hpos := length_pos_iff.mpr hpending
        rw [length_take, length_nil] at hlength
        omega
    · rw [if_neg hpending]
      have hnil := not_not.mp hpending
      match turns, hcalm with
      | [], hcalm => exact TurnSound.pending h _ _
      | turn :: turns, hcalm =>
        dsimp only
        generalize hturn : turn.read r.stream.incoming count = result
        obtain ⟨answer, rest⟩ := result
        match answer with
        | .pending => exact TurnSound.pending h _ _
        | .failed =>
          obtain rfl := Behaviour.eq_failed_of_read hturn
          exact TurnSound.failed h _ _ fun hc => absurd rfl (hcalm hc _ mem_cons_self).1
        | .ready bytes =>
          have hsource := Behaviour.append_of_read hturn
          have hmoved : r.stream.readPending ++ r.stream.incoming =
              bytes ++ (r.stream.readPending ++ rest) := by
            rw [hnil, nil_append, nil_append, hsource]
          have hfits := Behaviour.length_of_read hturn
          refine deliver_sound h hclosing heof hcomplete hparsed hdata hlen hmoved (by omega)
            fun hbytes => ?_
          subst hbytes
          have hend := Behaviour.source_of_read_nil (by omega) hturn
          rw [hnil, nil_append]
          exact hsource.trans hend

/-- A control frame that is there as a whole. -/
theorem handleControl_sound {payload : Bytes}
    (hparsed : parseHeader r.stream.hdr = .ok (opcode, payload.length, mask))
    (hcontrol : dataOpcode opcode = false)
    (hdecodes : WsFrame.Decodes all done (r.stream.hdr ++ (payload ++ (readPending ++ incoming))))
    (hdelivered : r.delivered = dataOf done) :
    ∃ done, Sound calm all
      { r with stream := handleControl { r.stream with payload, readPending, incoming } opcode
                (maskWith mask 0 payload) key } done := by
  obtain ⟨hknown, hlength⟩ := parseHeader_ok hparsed
  have hnoClose := h.reads.noClose hclosing
  obtain ⟨f, rfl, hpayload, hframe⟩ := decodes_frame hdecodes hcomplete hparsed
  have hdone : r.delivered = dataOf (done ++ [f]) := by
    rw [dataOf_append, dataOf_singleton, hcontrol, hdelivered]
    exact (append_nil _).symm
  have hshort : 8 ≤ f.opcode → f.payload.length ≤ 125 := by
    rw [hpayload, length_maskWith]
    exact hlength
  refine ⟨done ++ [f], ?_⟩
  rw [← hpayload]
  rcases control_opcode hknown hcontrol with h8 | h9 | h10
  · -- a close
    have hwriting : ({ r.stream with payload, readPending, incoming }.handleControl f.opcode
        f.payload key).writing = (r.stream.queueClose key).writing := by
      rw [handleControl, if_neg (by rw [h8]; decide), if_pos h8]
      rw [queueClose, queueClose]
      by_cases hsent : r.stream.closeSent
      · rw [if_pos hsent, if_pos hsent]
        rfl
      · rw [if_neg hsent, if_neg hsent]
        rfl
    refine (h.queueClose key).read ?_ hwriting ?_
    · rw [handleControl, if_neg (by rw [h8]; decide), if_pos h8, queueClose_eq]
      exact
        { part := ⟨[], [], hframe, .header rfl rfl, by rw [append_nil, hdone]⟩
          hdr_le := Nat.zero_le 2
          hdrLen := .inl rfl
          noClose := nofun
          close := fun _ => ⟨done, f, rfl, hnoClose, h8, hdelivered⟩
          eof := fun _ => .inl rfl }
    · rw [payloadsOf_append, payloadsOf_singleton, if_neg (by rw [h8]; decide), append_nil]
  · -- a ping
    rw [handleControl, if_pos h9]
    have hreads : Reads all { r.stream with payload, readPending, incoming }.resetFrame
        (done ++ [f]) r.delivered :=
      Reads.finish hframe hnoClose (by rw [h9]; decide) hclosing heof hdone
    refine ⟨{ hreads with }, ?_, fun hc => ?_⟩
    · exact h.valid.queue _ _
    · obtain ⟨queued, flight, hw⟩ := h.writes hc
      have hpong := hw.pong h.valid h9 (hshort (by rw [h9]; decide)) key
      exact ⟨_, _, { hpong with }⟩
  · -- a pong
    rw [handleControl, if_neg (by rw [h10]; decide), if_neg (by rw [h10]; decide)]
    refine h.read (Reads.finish hframe hnoClose (by rw [h10]; decide) hclosing heof hdone) rfl ?_
    rw [payloadsOf_append, payloadsOf_singleton, if_neg (by rw [h10]; decide), append_nil]

theorem readControl_sound (hparsed : parseHeader r.stream.hdr = .ok (opcode, len, mask))
    (hcontrol : dataOpcode opcode = false) (hcalm : calm → ∀ t ∈ turns, t.Calm) :
    TurnSound calm all r room (r.stream.readControl opcode len mask key turns) := by
  obtain ⟨hdecodes, hle, hread, hdelivered⟩ := h.reads.inControl hparsed hcontrol
  have hnoClose := h.reads.noClose hclosing
  rw [readControl, fillPayload]
  obtain ⟨⟨moved, hgot, hmoved⟩, hfits, hfull, hshort, hended, hfailed, -⟩ :=
    filled hle r.stream.readPending r.stream.incoming turns
  have hsuffix := fill_suffix len r.stream.payload r.stream.readPending r.stream.incoming turns
  generalize fill len r.stream.payload r.stream.readPending r.stream.incoming turns = result at *
  obtain ⟨answer, payload, readPending, incoming, turns'⟩ := result
  dsimp only at *
  rw [hmoved, ← append_assoc r.stream.payload, ← hgot] at hdecodes
  have hs (part : Part r.stream.hdr payload r.stream.frameRead payload []) :
      Reads all { r.stream with payload, readPending, incoming } done r.delivered :=
    { h.reads with
      part := ⟨payload, [], hdecodes, part, by rw [append_nil, hdelivered]⟩
      eof := fun h => by rw [show _ = false from heof] at h; cases h }
  match answer with
  | .pending =>
    have hless := hshort nofun
    exact TurnSound.pending (h.read (hs (.control hcomplete hparsed hcontrol hless hread)) rfl rfl)
      _ _
  | .failed =>
    have hless := hshort nofun
    exact TurnSound.failed (h.read (hs (.control hcomplete hparsed hcontrol hless hread)) rfl rfl)
      _ _ fun hc => absurd (hcalm hc) (hfailed rfl)
  | .ended =>
    have hless := hshort nofun
    obtain ⟨rfl, rfl⟩ := hended rfl
    refine TurnSound.failed
      (h.read (hs (.control hcomplete hparsed hcontrol hless hread)) rfl rfl) _ _ fun _ => ?_
    rw [append_nil, append_nil] at hdecodes
    have htwo := hcomplete.two_le
    refine ⟨hnoClose, .truncated hdecodes ?_ (take_short hcomplete hparsed hless) (.inr rfl)⟩
    exact ne_nil_of_length_pos (by rw [length_append]; omega)
  | .full =>
    have hlength : len = payload.length := le_antisymm (hfull rfl) hfits
    rw [hlength] at hparsed
    refine ⟨handleControl_sound h hclosing heof hcomplete hparsed hcontrol hdecodes hdelivered, ?_⟩
    exact fun hc t ht => hcalm hc t (hsuffix.subset ht)

end

theorem readBody_sound (h : Sound calm all r done) (hclosing : r.stream.closing = false)
    (heof : r.stream.readEof = false) (hfull : r.stream.hdrLen ≤ r.stream.hdr.length)
    (hroom : 0 < room) (hcalm : calm → ∀ t ∈ turns, t.Calm) :
    TurnSound calm all r room (r.stream.readBody room key turns) := by
  rw [readBody]
  by_cases hlong : r.stream.hdrLen = 2 ∧ 2 < wsHeaderSize (r.stream.hdr.getD 1 0)
  · -- the fixed part tells the size of the header
    rw [if_pos hlong]
    have hle := h.reads.hdr_le
    have hs : Reads all
        { r.stream with hdrLen := wsHeaderSize (r.stream.hdr.getD 1 0) } done r.delivered :=
      { h.reads with
        hdr_le := show r.stream.hdr.length ≤ wsHeaderSize (r.stream.hdr.getD 1 0) by omega
        hdrLen := .inr ⟨show 2 ≤ r.stream.hdr.length by omega, rfl⟩ }
    exact ⟨⟨done, h.read hs rfl rfl⟩, hcalm⟩
  · rw [if_neg hlong]
    have hcomplete := h.reads.headerComplete hfull hlong
    generalize hparsed : parseHeader r.stream.hdr = result
    match result with
    | .error e =>
      obtain ⟨got, current, hdecodes, -⟩ := h.reads.part
      exact TurnSound.failed h _ _ fun _ =>
        ⟨h.reads.noClose hclosing, .invalid hdecodes hcomplete hparsed⟩
    | .ok (opcode, len, mask) =>
      dsimp only
      split
      · rename_i hdata
        exact readData_sound h hclosing heof hcomplete hparsed hdata hroom hcalm
      · rename_i hcontrol
        exact readControl_sound h hclosing heof hcomplete hparsed
          (Bool.eq_false_iff.mpr hcontrol) hcalm

theorem readFrame_sound (h : Sound calm all r done) (heof : r.stream.readEof = false)
    (hroom : 0 < room) (hcalm : calm → ∀ t ∈ turns, t.Calm) :
    TurnSound calm all r room (r.stream.readFrame room key turns) := by
  rw [readFrame]
  by_cases hclosing : r.stream.closing
  · rw [if_pos hclosing]
    have hs : Reads all { r.stream with readEof := true } done r.delivered :=
      { h.reads with eof := fun _ => .inl hclosing }
    exact TurnSound.ended (h.read hs rfl rfl) rfl _ _
  · rw [if_neg hclosing, fillHeader]
    rw [Bool.not_eq_true] at hclosing
    obtain ⟨⟨moved, hgot, hmoved⟩, hfits, hfull, hshort, hended, hfailed, -⟩ :=
      filled h.reads.hdr_le r.stream.readPending r.stream.incoming turns
    have hsuffix :=
      fill_suffix r.stream.hdrLen r.stream.hdr r.stream.readPending r.stream.incoming turns
    generalize fill r.stream.hdrLen r.stream.hdr r.stream.readPending r.stream.incoming turns =
      result at *
    obtain ⟨answer, hdr, readPending, incoming, turns'⟩ := result
    dsimp only at *
    have hreads := h.reads.fillHeader heof hgot hmoved hfits
    have hs : Sound calm all
        { r with stream := { r.stream with hdr, readPending, incoming } } done :=
      h.read hreads rfl rfl
    match answer with
    | .pending => exact TurnSound.pending hs _ _
    | .failed => exact TurnSound.failed hs _ _ fun hc => absurd (hcalm hc) (hfailed rfl)
    | .ended =>
      obtain ⟨rfl, rfl⟩ := hended rfl
      dsimp only
      by_cases hnil : hdr = []
      · -- the end of the stream between two frames
        rw [if_pos hnil]
        have hend : Reads all
            { r.stream with hdr, readPending := [], incoming := [], readEof := true } done
            r.delivered :=
          { hreads with eof := fun _ => .inr ⟨hnil, rfl, rfl⟩ }
        exact TurnSound.ended (h.read hend rfl rfl) rfl _ _
      · rw [if_neg hnil]
        have hless := hshort nofun
        obtain ⟨hdecodes, -⟩ := hreads.inHeader hless
        rw [append_nil, append_nil] at hdecodes
        exact TurnSound.failed hs _ _ fun _ => ⟨h.reads.noClose hclosing,
          .truncated hdecodes hnil (hreads.take_hdr hless) (.inl rfl)⟩
    | .full =>
      exact (readBody_sound hs hclosing heof (hfull rfl) hroom
        fun hc t ht => hcalm hc t (hsuffix.subset ht)).of_stream

theorem readTurn_sound (h : Sound calm all r done) (hcalm : calm → ∀ t ∈ turns, t.Calm) :
    TurnSound calm all r room (r.stream.readTurn room key turns) := by
  rw [readTurn]
  by_cases hdone : room = 0 ∨ r.stream.readEof
  · rw [if_pos hdone]
    refine ⟨done, ?_, fun hroom _ => ?_, nofun⟩
    · rwa [afterRead_nil]
    · exact hdone.resolve_left (by omega)
  · rw [if_neg hdone]
    obtain ⟨hroom, heof⟩ := not_or.mp hdone
    rw [Bool.not_eq_true] at heof
    by_cases hctrl : r.stream.ctrlFlush
    · rw [if_pos hctrl]
      have hflush := flushed h.valid turns
      have hsound := h.flush hflush hcalm
      generalize r.stream.pollFlushOut turns = result at *
      obtain ⟨answer, s, turns'⟩ := result
      dsimp only at *
      have heof' : s.readEof = false := by
        rw [hflush.same]
        exact heof
      match answer with
      | none => exact TurnSound.pending hsound _ _
      | some (.error e) =>
        dsimp only
        by_cases hclosing : s.closing
        · rw [if_pos hclosing]
          have hend : Reads all { s with ctrlFlush := false, readEof := true } done r.delivered :=
            { hsound.reads with eof := fun _ => .inl hclosing }
          exact (TurnSound.ended (hsound.read hend rfl rfl) rfl _ _).of_stream
        · rw [if_neg hclosing]
          have hs : Reads all { s with ctrlFlush := false } done r.delivered :=
            { hsound.reads with }
          refine (TurnSound.failed (hsound.read hs rfl rfl) _ _ fun hc => ?_).of_stream
          rcases (hflush.calm (hcalm hc)).2 with hnone | hok
          · cases hnone
          · cases hok
      | some (.ok ()) =>
        have hs : Reads all { s with ctrlFlush := false } done r.delivered :=
          { hsound.reads with }
        have hnext : Sound calm all { r with stream := { s with ctrlFlush := false } } done :=
          hsound.read hs rfl rfl
        exact (readFrame_sound hnext heof' (Nat.pos_of_ne_zero hroom)
          fun hc t ht => hcalm hc t (hflush.suffix.subset ht)).of_stream
    · rw [if_neg hctrl]
      exact readFrame_sound h heof (Nat.pos_of_ne_zero hroom) hcalm

variable {keys : Nat → WsKey}

/-- The loop keeps what an iteration keeps. -/
theorem readLoop_sound (fuel : Nat) (h : Sound calm all r done)
    (hcalm : calm → ∀ t ∈ turns, t.Calm) :
    ∃ done, AnswerSound calm all r room (readLoop room keys fuel r.stream turns).1
      (readLoop room keys fuel r.stream turns).2 done := by
  induction fuel generalizing r done turns with
  | zero => exact ⟨done, h, nofun, nofun⟩
  | succ fuel ih =>
    have hturn : TurnSound calm all r room (r.stream.readTurn room (keys fuel) turns) :=
      readTurn_sound h hcalm
    rw [readLoop]
    generalize r.stream.readTurn room (keys fuel) turns = turn at hturn
    match turn with
    | .again s turns =>
      obtain ⟨⟨done', hs⟩, hcalm'⟩ := hturn
      obtain ⟨last, hlast⟩ := ih hs hcalm'
      have hsame : TurnSound calm all r room
          (.answer (readLoop room keys fuel s turns).1 (readLoop room keys fuel s turns).2 []) :=
        TurnSound.of_stream ⟨last, hlast⟩
      exact hsame
    | .answer answer s turns => exact hturn

/-! ## Progress -/

/-- Turns that are enough to answer a read: each takes a byte of what is queued, or brings one. -/
def cost (s : WsStream) : Nat :=
  s.wire.unsent.length + (if s.ctrlFlush then 1 else 0) + 142 * s.unfinished + s.incoming.length + 1

/-- A bound for the iterations of the loop. -/
def iterations (s : WsStream) : Nat :=
  s.unfinished + (if s.hdrLen = 2 then 1 else 0) + 1

/-- The stream below answers at once, often enough. -/
structure Enough (s : WsStream) (turns : List Behaviour) : Prop where
  prompt : ∀ t ∈ turns, t.Prompt
  cost_le : s.cost ≤ turns.length

/-- An iteration answers, or there is enough left for the next. -/
def TurnAnswers (bound : Nat) : ReadTurn → Prop
  | .again s turns => Enough s turns ∧ s.iterations < bound
  | .answer answer _ _ => answer ≠ none

variable {payload : Bytes}

theorem length_clientFrame (h : payload.length ≤ 125) (opcode : UInt8)
    (key : WsKey) : (clientFrame opcode payload key).encode.length = payload.length + 6 := by
  have hlength : (clientFrame opcode payload key).lengthBytes.length = 1 :=
    congrArg length (if_pos (show payload.length < 126 by omega))
  rw [WsFrame.encode, length_append, length_maskWith, WsFrame.header, length_append,
    length_cons, hlength]
  show 1 + 1 + key.toList.length + payload.length = _
  rw [Vector.length_toList]
  omega

theorem length_unsent_queueFrame {s : WsStream} (h : s.wire.Valid)
    (hlength : payload.length ≤ 125) (opcode : UInt8) (key : WsKey) :
    (s.queueFrame opcode payload key).wire.unsent.length ≤ s.wire.unsent.length + 131 := by
  show (s.wire.queue _ _).unsent.length ≤ _
  rw [Outgoing.unsent_queue h.pos_le, length_append, encodeClientFrameInto_eq,
    nil_append, length_clientFrame hlength]
  omega

theorem deliver_answers (s : WsStream) (bound len : Nat) (mask : Option WsKey) (bytes : Bytes)
    (turns : List Behaviour) : TurnAnswers bound (s.deliver len mask bytes turns) := by
  rw [deliver]
  split <;> exact nofun

theorem readData_answers {s : WsStream} (h : Enough s turns) (hcomplete : HeaderComplete s.hdr) :
    TurnAnswers s.iterations (s.readData room len mask turns) := by
  have hcost := h.cost_le
  rw [cost] at hcost
  rw [readData]
  split
  · have htwo := hcomplete.two_le
    have hunfinished : s.resetFrame.unfinished + 2 ≤ s.unfinished := by
      show 0 + 0 + s.readPending.length + s.incoming.length + 2 ≤ _
      rw [unfinished]
      omega
    refine ⟨⟨h.prompt, ?_⟩, ?_⟩
    · show s.wire.unsent.length + (if s.ctrlFlush then 1 else 0) + 142 * s.resetFrame.unfinished +
        s.incoming.length + 1 ≤ _
      omega
    · show s.resetFrame.unfinished + 1 + 1 < s.unfinished + _ + 1
      omega
  · dsimp only
    split
    · exact deliver_answers _ _ _ _ _ _
    match turns, h with
    | [], _ =>
      rw [length_nil] at hcost
      omega
    | turn :: turns, h =>
      obtain ⟨size, rfl⟩ := h.prompt turn mem_cons_self
      exact deliver_answers _ _ _ _ _ _

theorem handleControl_answers {s : WsStream} (h : Enough s turns)
    (hvalid : s.wire.Valid) (hcomplete : HeaderComplete s.hdr)
    (hlength : payload.length ≤ 125) :
    TurnAnswers s.iterations (.again (s.handleControl opcode payload key) turns) := by
  have hcost := h.cost_le
  rw [cost] at hcost
  have htwo := hcomplete.two_le
  have hreset : s.resetFrame.unfinished + 2 ≤ s.unfinished := by
    show 0 + 0 + s.readPending.length + s.incoming.length + 2 ≤ _
    rw [unfinished]
    omega
  -- a frame was finished, and at most one of its answers was queued
  have hnext {s' : WsStream} (hunfinished : s'.unfinished = s.resetFrame.unfinished)
      (hunsent : s'.wire.unsent.length ≤ s.wire.unsent.length + 131) (hincoming : s'.incoming = s.incoming)
      (hhdrLen : s'.hdrLen = 2) : TurnAnswers s.iterations (.again s' turns) := by
    refine ⟨⟨h.prompt, ?_⟩, ?_⟩
    · rw [cost, hunfinished, hincoming]
      have hflag : (if s'.ctrlFlush then 1 else 0) ≤ 1 := by split <;> omega
      omega
    · rw [iterations, hunfinished, hhdrLen, iterations, if_pos rfl]
      omega
  rw [handleControl]
  split
  · exact hnext rfl (length_unsent_queueFrame hvalid hlength 10 key) rfl rfl
  split
  · rw [queueClose]
    split
    · exact hnext rfl (Nat.le_add_right _ _) rfl rfl
    · exact hnext rfl (length_unsent_queueFrame hvalid (Nat.zero_le _) 8 key) rfl rfl
  · exact hnext rfl (Nat.le_add_right _ _) rfl rfl

theorem readControl_answers {s : WsStream} (h : Enough s turns) (hvalid : s.wire.Valid)
    (hcomplete : HeaderComplete s.hdr) (hparsed : parseHeader s.hdr = .ok (opcode, len, mask))
    (hcontrol : dataOpcode opcode = false) (hlength : s.payload.length ≤ len) :
    TurnAnswers s.iterations (s.readControl opcode len mask key turns) := by
  have hcost := h.cost_le
  rw [cost] at hcost
  rw [readControl, fillPayload]
  obtain ⟨⟨moved, hgot, hmoved⟩, hfits, hfull, -, -, -, hprompt⟩ :=
    filled hlength s.readPending s.incoming turns
  have hsuffix := fill_suffix len s.payload s.readPending s.incoming turns
  generalize fill len s.payload s.readPending s.incoming turns = result at *
  obtain ⟨answer, payload, readPending, incoming, turns'⟩ := result
  dsimp only at *
  obtain ⟨hsome, hused⟩ := hprompt h.prompt (by omega)
  match answer with
  | .pending => exact absurd rfl hsome
  | .failed | .ended => exact nofun
  | .full =>
    have hmovedLength := congrArg length hmoved
    have hgotLength := congrArg length hgot
    simp only [length_append] at hmovedLength hgotLength
    have hsame : ({ s with payload, readPending, incoming } : WsStream).unfinished =
        s.unfinished := by
      simp only [unfinished]
      omega
    have hturns := hused rfl
    have henough : Enough { s with payload, readPending, incoming } turns' := by
      refine ⟨fun t ht => h.prompt t (hsuffix.subset ht), ?_⟩
      rw [cost, hsame]
      dsimp only
      omega
    have hcontrolLength : (maskWith mask 0 payload).length ≤ 125 := by
      obtain ⟨hknown, hshort⟩ := parseHeader_ok hparsed
      rw [length_maskWith]
      refine Nat.le_trans hfits (hshort ?_)
      rcases control_opcode hknown hcontrol with rfl | rfl | rfl <;> decide
    have hnext : TurnAnswers ({ s with payload, readPending, incoming } : WsStream).iterations
        (.again (handleControl { s with payload, readPending, incoming } opcode
          (maskWith mask 0 payload) key) turns') :=
      handleControl_answers henough hvalid hcomplete hcontrolLength
    rwa [iterations, hsame] at hnext

theorem readBody_answers (h : Enough r.stream turns) (hsound : Sound calm all r done)
    (hfull : r.stream.hdrLen ≤ r.stream.hdr.length) :
    TurnAnswers r.stream.iterations (r.stream.readBody room key turns) := by
  rw [readBody]
  by_cases hlong : r.stream.hdrLen = 2 ∧ 2 < wsHeaderSize (r.stream.hdr.getD 1 0)
  · rw [if_pos hlong]
    refine ⟨⟨h.prompt, h.cost_le⟩, ?_⟩
    show r.stream.unfinished + (if wsHeaderSize _ = 2 then 1 else 0) + 1 < _
    rw [if_neg (by omega), iterations, if_pos hlong.1]
    omega
  · rw [if_neg hlong]
    have hcomplete := hsound.reads.headerComplete hfull hlong
    generalize hparsed : parseHeader r.stream.hdr = result
    match result with
    | .error e => exact nofun
    | .ok (opcode, len, mask) =>
      dsimp only
      split
      · exact readData_answers h hcomplete
      rename_i hcontrol
      rw [Bool.not_eq_true] at hcontrol
      obtain ⟨-, hlength, -⟩ := hsound.reads.inControl hparsed hcontrol
      exact readControl_answers h hsound.valid hcomplete hparsed hcontrol hlength

theorem readFrame_answers (h : Enough r.stream turns) (hsound : Sound calm all r done)
    (heof : r.stream.readEof = false) :
    TurnAnswers r.stream.iterations (r.stream.readFrame room key turns) := by
  have hcost := h.cost_le
  rw [cost] at hcost
  rw [readFrame]
  split
  · exact nofun
  rw [fillHeader]
  obtain ⟨⟨moved, hgot, hmoved⟩, hfits, hfull, -, -, -, hprompt⟩ :=
    filled hsound.reads.hdr_le r.stream.readPending r.stream.incoming turns
  have hsuffix :=
    fill_suffix r.stream.hdrLen r.stream.hdr r.stream.readPending r.stream.incoming turns
  generalize fill r.stream.hdrLen r.stream.hdr r.stream.readPending r.stream.incoming turns =
    result at *
  obtain ⟨answer, hdr, readPending, incoming, turns'⟩ := result
  dsimp only at *
  obtain ⟨hsome, hused⟩ := hprompt h.prompt (by omega)
  match answer with
  | .pending => exact absurd rfl hsome
  | .failed => exact nofun
  | .ended =>
    dsimp only
    split <;> exact nofun
  | .full =>
    have hreads := hsound.reads.fillHeader heof hgot hmoved hfits
    have hmovedLength := congrArg length hmoved
    have hgotLength := congrArg length hgot
    simp only [length_append] at hmovedLength hgotLength
    have hsame : ({ r.stream with hdr, readPending, incoming } : WsStream).unfinished =
        r.stream.unfinished := by
      simp only [unfinished]
      omega
    have hturns := hused rfl
    have henough : Enough { r.stream with hdr, readPending, incoming } turns' := by
      refine ⟨fun t ht => h.prompt t (hsuffix.subset ht), ?_⟩
      rw [cost, hsame]
      dsimp only
      omega
    have hnext : TurnAnswers
        ({ r.stream with hdr, readPending, incoming } : WsStream).iterations
        (readBody { r.stream with hdr, readPending, incoming } room key turns') :=
      readBody_answers (r := { r with stream := { r.stream with hdr, readPending, incoming } })
        henough (hsound.read hreads rfl rfl) (hfull rfl)
    rwa [iterations, hsame] at hnext

theorem readTurn_answers (h : Enough r.stream turns) (hsound : Sound False all r done) :
    TurnAnswers r.stream.iterations (r.stream.readTurn room key turns) := by
  have hcost := h.cost_le
  rw [cost] at hcost
  rw [readTurn]
  by_cases hdone : room = 0 ∨ r.stream.readEof
  · rw [if_pos hdone]
    exact nofun
  rw [if_neg hdone]
  have heof := Bool.eq_false_iff.mpr (not_or.mp hdone).2
  by_cases hctrl : r.stream.ctrlFlush
  · rw [if_pos hctrl]
    rw [if_pos hctrl] at hcost
    have hflush := flushed hsound.valid turns
    have hafter := hsound.flush hflush fun h => h.elim
    obtain ⟨hok, hused⟩ := hflush.prompt h.prompt (by omega)
    generalize r.stream.pollFlushOut turns = result at *
    obtain ⟨answer, s, turns'⟩ := result
    dsimp only at hflush hok hused hafter
    subst hok
    dsimp only
    have hsame := hflush.same
    have hunfinished : s.unfinished = r.stream.unfinished := by rw [hsame]; rfl
    have hhdrLen : s.hdrLen = r.stream.hdrLen := by rw [hsame]
    have hincoming : s.incoming = r.stream.incoming := by rw [hsame]
    have heof' : s.readEof = false := by rw [hsame]; exact heof
    have henough : Enough { s with ctrlFlush := false } turns' := by
      refine ⟨fun t ht => h.prompt t (hflush.suffix.subset ht), ?_⟩
      show s.wire.unsent.length + 0 + 142 * s.unfinished + s.incoming.length + 1 ≤ _
      rw [hflush.cleared rfl, hunfinished, hincoming, length_nil]
      omega
    have hreads : Reads all { s with ctrlFlush := false } done r.delivered :=
      { hafter.reads with }
    have hnext : TurnAnswers ({ s with ctrlFlush := false } : WsStream).iterations
        (readFrame { s with ctrlFlush := false } room key turns') :=
      readFrame_answers (r := { r with stream := { s with ctrlFlush := false } }) henough
        (hafter.read hreads rfl rfl) heof'
    have hiterations : ({ s with ctrlFlush := false } : WsStream).iterations =
        r.stream.iterations := by
      show s.unfinished + (if s.hdrLen = 2 then 1 else 0) + 1 = _
      rw [hunfinished, hhdrLen]
      rfl
    rwa [hiterations] at hnext
  · rw [if_neg hctrl]
    exact readFrame_answers h hsound heof

/-- A read is answered, if the stream below answers at once and often enough. -/
theorem readLoop_answers {fuel : Nat} (hfuel : r.stream.iterations ≤ fuel)
    (h : Enough r.stream turns) (hsound : Sound False all r done) :
    (readLoop room keys fuel r.stream turns).1 ≠ none := by
  induction fuel generalizing r done turns with
  | zero =>
    rw [iterations] at hfuel
    omega
  | succ fuel ih =>
    have hturn : TurnSound False all r room (r.stream.readTurn room (keys fuel) turns) :=
      readTurn_sound hsound fun h => h.elim
    have hanswers : TurnAnswers r.stream.iterations
        (r.stream.readTurn room (keys fuel) turns) := readTurn_answers h hsound
    rw [readLoop]
    generalize r.stream.readTurn room (keys fuel) turns = turn at hturn hanswers
    cases turn with
    | again s turns =>
      obtain ⟨⟨done', hs⟩, -⟩ := hturn
      obtain ⟨henough, hless⟩ := hanswers
      exact ih (r := { r with stream := s }) (show s.iterations ≤ fuel by omega) henough hs
    | answer answer s turns => exact hanswers

end WsStream

end Sockrocket
