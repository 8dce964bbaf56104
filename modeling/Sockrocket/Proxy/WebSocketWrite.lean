import Sockrocket.Proxy.WebSocketRead

/-!
# Transparency of the WebSocket transport

`poll_write`, `poll_flush` and `poll_shutdown` keep `Sound` as `poll_read` does, so it holds in every
run. `ws_transparent` says what follows for the caller and for the server.
-/

namespace Sockrocket

open Rust Dns AsyncIo Transition List

variable {calm : Prop} {all : Bytes} {r : WsRun} {done : List WsFrame}

/-! ## Polls -/

/-- What became of a buffer replaces the stream. -/
theorem afterWrite_stream (r : WsRun) (s : WsStream) (buf : Bytes) (result : WsPoll Nat × WsStream) :
    { r with stream := s }.afterWrite buf result = r.afterWrite buf result := by
  match result with
  | (none, s) | (some (.ok n), s) | (some (.error e), s) => rfl

/-- The caller of the write in flight is told. -/
theorem Sound.complete (h : Sound calm all r done) {buf : Bytes} {n : Nat}
    (hpended : r.pended = none ∨ r.pended = some buf) (hflight : r.stream.writeInFlight = some n)
    (hopen : r.stream.writeClosed = false) :
    Sound calm all
      (r.afterWrite buf (some (.ok n), { r.stream with writeInFlight := none })) done := by
  refine ⟨{ h.reads with }, h.valid, fun hc => ?_⟩
  obtain ⟨queued, flight, hw⟩ := h.writes hc
  obtain ⟨buf', -, rfl, hbuf⟩ := hw.held n hflight
  have hsame : buf' = buf := by
    rcases hbuf with hbuf | ⟨hclosed, -⟩
    · rcases hpended with hnone | hsome
      · rw [hnone] at hbuf
        cases hbuf
      · exact Option.some.inj (hbuf.symm.trans hsome)
    · rw [hopen] at hclosed
      cases hclosed
  subst hsame
  refine ⟨queued, [], { hw with binary := ?_, free := fun _ => rfl, held := ?_ }⟩
  · rw [append_nil, hw.binary, WsRun.accepted, WsRun.accepted]
    show _ = (if n = 0 then r.acks else r.acks ++ [buf'.take n]).flatten
    by_cases hzero : n = 0
    · rw [if_pos hzero, hzero, take_zero, append_nil]
    · rw [if_neg hzero, flatten_append, flatten_singleton]
  · intro m hm
    cases hm

namespace WsStream

variable {buf : Bytes} {key : WsKey} {turns : List Behaviour}

/-- The bytes of the caller become a frame. -/
theorem writeFrame_sound (h : Sound calm all r done) (hfree : r.stream.writeInFlight = none)
    (hopen : r.stream.writeClosed = false) (hcalm : calm → ∀ t ∈ turns, t.Calm) :
    Sound calm all (r.afterWrite buf (r.stream.writeFrame buf key turns)) done := by
  rw [writeFrame]
  by_cases hnil : buf = []
  · rw [if_pos hnil]
    refine ⟨{ h.reads with }, h.valid, fun hc => ?_⟩
    obtain ⟨queued, flight, hw⟩ := h.writes hc
    refine ⟨queued, flight, { hw with held := fun n hn => ?_ }⟩
    cases hfree.symm.trans hn
  · rw [if_neg hnil]
    dsimp only
    generalize hn : min buf.length wsWriteBufSize = n
    -- the frame is queued, and the caller does not know yet
    have hqueued : Sound calm all
        { r with
          stream := { r.stream.queueFrame 2 (buf.take n) key with writeInFlight := some n }
          pended := some buf } done := by
      refine ⟨{ h.reads with }, ?_, fun hc => ?_⟩
      · exact h.valid.queue _ _
      · obtain ⟨queued, flight, hw⟩ := h.writes hc
        have hflight := hw.free hfree
        have hframe : (buf.take n).length ≤ wsWriteBufSize := by
          rw [length_take]
          omega
        refine ⟨_, buf.take n, hw.queue h.valid 2 (buf.take n) key,
          hw.client_queue (.inl ⟨rfl, hframe⟩) key, ?_, ?_, ?_, nofun, ?_⟩
        · rw [payloadsOf_append, payloadsOf_clientFrame, if_pos rfl, flatten_append, hw.binary,
            hflight, append_nil, flatten_singleton]
          rfl
        · rw [payloadsOf_append, payloadsOf_clientFrame, if_neg (by decide), append_nil]
          exact hw.pongs
        · rw [payloadsOf_append, payloadsOf_clientFrame, if_neg (by decide), append_nil]
          exact hw.closes
        · intro m hm
          obtain rfl := Option.some.inj hm
          exact ⟨buf, hn.symm, rfl, .inl rfl⟩
    have hflush := flushed hqueued.valid turns
    have hafter := hqueued.flush hflush hcalm
    dsimp only at hflush hafter
    generalize pollFlushOut _ turns = result at *
    obtain ⟨answer, s, turns'⟩ := result
    dsimp only at *
    have hsame := hflush.same
    match answer with
    | none => exact hafter
    | some (.error e) =>
      refine ⟨{ hafter.reads with }, hafter.valid, fun hc => ?_⟩
      rcases (hflush.calm (hcalm hc)).2 with hnone | hok
      · cases hnone
      · cases hok
    | some (.ok ()) =>
      exact hafter.complete (.inr rfl) (by rw [hsame]) (by rw [hsame]; exact hopen)

theorem pollWrite_sound (h : Sound calm all r done) (hretry : ∀ pended ∈ r.pended, buf = pended)
    (hcalm : calm → ∀ t ∈ turns, t.Calm) :
    Sound calm all (r.afterWrite buf (r.stream.pollWrite buf key turns)) done := by
  have hpended : r.pended = none ∨ r.pended = some buf := by
    cases hp : r.pended with
    | none => exact .inl rfl
    | some pended => exact .inr (by rw [hretry pended hp])
  rw [pollWrite]
  by_cases hclosed : r.stream.writeClosed
  · -- the bytes of a write that pended are lost for its caller
    rw [if_pos hclosed]
    refine ⟨{ h.reads with }, h.valid, fun hc => ?_⟩
    obtain ⟨queued, flight, hw⟩ := h.writes hc
    refine ⟨queued, flight, { hw with held := fun n hn => ?_ }⟩
    obtain ⟨buf', hlength, hflight, hbuf⟩ := hw.held n hn
    refine ⟨buf', hlength, hflight, .inr ⟨hclosed, mem_append.mpr ?_⟩⟩
    rcases hbuf with hbuf | ⟨-, hrefused⟩
    · rw [hretry buf' hbuf]
      exact .inr (mem_singleton.mpr rfl)
    · exact .inl hrefused
  · rw [if_neg hclosed]
    rw [Bool.not_eq_true] at hclosed
    by_cases hbusy : r.stream.writeInFlight.isSome ∨ r.stream.wire.pos < r.stream.wire.out.length
    · rw [if_pos hbusy]
      have hflush := flushed h.valid turns
      have hafter := h.flush hflush hcalm
      generalize r.stream.pollFlushOut turns = result at *
      obtain ⟨answer, s, turns'⟩ := result
      dsimp only at *
      have hsame := hflush.same
      have hopen : s.writeClosed = false := by rw [hsame]; exact hclosed
      match answer with
      | none =>
        refine ⟨{ hafter.reads with }, hafter.valid, fun hc => ?_⟩
        obtain ⟨queued, flight, hw⟩ := hafter.writes hc
        refine ⟨queued, flight, { hw with held := fun n hn => ?_ }⟩
        obtain ⟨buf', hlength, hflight, hbuf⟩ := hw.held n hn
        refine ⟨buf', hlength, hflight, .inl ?_⟩
        rcases hbuf with hbuf | ⟨hclosed', -⟩
        · rw [hretry buf' hbuf]
          rfl
        · cases hopen.symm.trans hclosed'
      | some (.error e) =>
        refine ⟨{ hafter.reads with }, hafter.valid, fun hc => ?_⟩
        rcases (hflush.calm (hcalm hc)).2 with hnone | hok
        · cases hnone
        · cases hok
      | some (.ok ()) =>
        dsimp only
        generalize hflight : s.writeInFlight = flight
        match flight with
        | some n =>
          have hdone := hafter.complete hpended hflight hopen
          rwa [afterWrite_stream] at hdone
        | none =>
          have hdone : Sound calm all
              ({ r with stream := s }.afterWrite buf (s.writeFrame buf key turns')) done :=
            writeFrame_sound hafter hflight hopen
              fun hc t ht => hcalm hc t (hflush.suffix.subset ht)
          rwa [afterWrite_stream] at hdone
    · rw [if_neg hbusy]
      have hfree : r.stream.writeInFlight = none := by
        rw [← Option.not_isSome_iff_eq_none]
        exact fun hsome => hbusy (.inl hsome)
      exact writeFrame_sound h hfree hclosed hcalm

theorem pollShutdown_sound (h : Sound calm all r done) (hcalm : calm → ∀ t ∈ turns, t.Calm) :
    Sound calm all { r with stream := (r.stream.pollShutdown key turns).2 } done := by
  have hqueued := h.queueClose key
  have hflush := flushed hqueued.valid turns
  have hafter := hqueued.flush hflush hcalm
  rw [pollShutdown]
  dsimp only at hflush hafter
  generalize (r.stream.queueClose key).pollFlushOut turns = result at *
  obtain ⟨answer, s, turns'⟩ := result
  dsimp only at *
  match answer with
  | none | some (.error e) => exact hafter
  | some (.ok ()) =>
    match turns' with
    | [] | .pending :: _ | .failed :: _ => exact hafter
    | .ready _ :: _ =>
      refine ⟨{ hafter.reads with }, hafter.valid, fun hc => ?_⟩
      obtain ⟨queued, flight, hw⟩ := hafter.writes hc
      refine ⟨queued, flight, { hw with held := fun n hn => ?_ }⟩
      obtain ⟨buf, hlength, hflight, hbuf⟩ := hw.held n hn
      exact ⟨buf, hlength, hflight, hbuf.imp id fun hclosed => ⟨rfl, hclosed.2⟩⟩

end WsStream

/-! ## Runs -/

theorem Sound.pollRead (h : Sound calm all r done) (room : Nat) (keys : Nat → WsKey)
    (turns : List Behaviour) (hcalm : calm → ∀ t ∈ turns, t.Calm) :
    ∃ done, AnswerSound calm all r room (r.stream.pollRead room keys turns).1
      (r.stream.pollRead room keys turns).2 done :=
  WsStream.readLoop_sound (r.stream.unfinished + 2) h hcalm

/-- Every poll keeps the invariant. -/
theorem Sound.step (h : Sound calm all r done) {e : WsEvent} {r' : WsRun} (hstep : r.Step e r')
    (hcalm : calm → ∀ t ∈ e.turns, t.Calm) : ∃ done, Sound calm all r' done := by
  obtain ⟨hretry, rfl⟩ := hstep
  cases e with
  | read room keys turns =>
    obtain ⟨done', hanswer⟩ := h.pollRead room keys turns hcalm
    exact ⟨done', hanswer.sound⟩
  | write buf key turns => exact ⟨done, WsStream.pollWrite_sound h hretry hcalm⟩
  | flush turns => exact ⟨done, h.flush (WsStream.flushed h.valid turns) hcalm⟩
  | shutdown key turns => exact ⟨done, WsStream.pollShutdown_sound h hcalm⟩

/-- The invariant holds after every run. -/
theorem Sound.of_run {leftover incoming : Bytes} {events : List WsEvent}
    (hrun : Run WsRun.Step (.new leftover incoming) events r) :
    ∃ done, Sound (∀ e ∈ events, ∀ t ∈ e.turns, t.Calm) (leftover ++ incoming) r done := by
  have hall : Run (fun r e r' => WsRun.Step r e r' ∧ e ∈ events) (.new leftover incoming) events r :=
    hrun.mono fun _ _ _ he hstep => ⟨hstep, he⟩
  refine hall.invariant (fun r => ∃ done, Sound _ (leftover ++ incoming) r done)
    ⟨[], .new _ _ _⟩ ?_
  rintro r e r' ⟨done, h⟩ ⟨hstep, he⟩
  exact h.step hstep fun hc => hc e he

/-! ## Frames of the server -/

/-- The bytes of the stream before the close. -/
def dataBeforeClose (frames : List WsFrame) : Bytes :=
  dataOf (frames.takeWhile fun f => f.opcode ≠ 8)

variable {frames : List WsFrame}

theorem dataBeforeClose_append (h : NoClose frames) (more : List WsFrame) :
    dataBeforeClose (frames ++ more) = dataOf frames ++ dataBeforeClose more := by
  rw [dataBeforeClose, takeWhile_append_of_pos fun f hf => decide_eq_true (h f hf), dataOf_append]
  rfl

theorem dataBeforeClose_of_noClose (h : NoClose frames) :
    dataBeforeClose frames = dataOf frames := by
  have happend := dataBeforeClose_append h []
  rw [append_nil] at happend
  exact happend.trans (append_nil _)

variable {f : WsFrame}

theorem dataBeforeClose_close (h : f.opcode = 8) (more : List WsFrame) :
    dataBeforeClose (f :: more) = [] := by
  rw [dataBeforeClose, takeWhile_cons_of_neg (by rw [h]; decide)]
  rfl

theorem dataBeforeClose_cons (h : dataOpcode f.opcode) (more : List WsFrame) :
    dataBeforeClose (f :: more) = f.payload ++ dataBeforeClose more := by
  have hclose : NoClose [f] := by
    intro g hg
    rw [mem_singleton.mp hg]
    exact (ne_of_dataOpcode h).1
  have happend := dataBeforeClose_append hclose more
  rwa [dataOf_singleton, if_pos h] at happend

/-- What follows a close does not matter. -/
theorem dataBeforeClose_append_of_close (h : ∃ f ∈ frames, f.opcode = 8) (more : List WsFrame) :
    dataBeforeClose (frames ++ more) = dataBeforeClose frames := by
  obtain ⟨f, hf, hclose⟩ := h
  rw [dataBeforeClose, takeWhile_append, if_neg]
  · rfl
  · intro hlength
    have hall := ( takeWhile_prefix _).eq_of_length hlength
    have hne := takeWhile_eq_self_iff.mp hall f hf
    rw [hclose] at hne
    cases hne

theorem eq_nil_of_encodeAll (h : WsFrame.encodeAll frames = []) :
    frames = [] := by
  match frames with
  | [] => rfl
  | f :: frames =>
    rw [WsFrame.encodeAll, flatMap_cons, WsFrame.encode, WsFrame.header] at h
    cases h

/-- The header at the front of valid frames is that of the first. -/
theorem header_of_encodeAll {hdr tail : Bytes} (hcomplete : HeaderComplete hdr)
    {left : List WsFrame} (h : hdr ++ tail = WsFrame.encodeAll left) :
    ∃ g rest, left = g :: rest ∧ hdr = g.header ∧
      tail = maskWith g.mask 0 g.payload ++ WsFrame.encodeAll rest := by
  have htwo := hcomplete.two_le
  match left with
  | [] =>
    have hlength := congrArg length h
    rw [length_append] at hlength
    change _ = 0 at hlength
    omega
  | g :: rest =>
    have hg := g.wsHeaderSize_header
    have hgtwo := HeaderComplete.two_le hg
    have hsplit : hdr ++ tail =
        g.header ++ (maskWith g.mask 0 g.payload ++ WsFrame.encodeAll rest) := by
      rw [h, WsFrame.encodeAll, flatMap_cons, WsFrame.encode, append_assoc]
      rfl
    have hsecond : hdr.getD 1 0 = g.header.getD 1 0 := by
      have hget := congrArg (fun bytes => bytes.getD 1 0) hsplit
      rwa [getD_append _ _ _ _ (by omega), getD_append _ _ _ _ (by omega)] at hget
    have hlength : hdr.length = g.header.length := by
      rw [← hcomplete, hsecond, hg]
    obtain ⟨hhdr, htail⟩ := append_inj hsplit hlength
    exact ⟨g, rest, rfl, hhdr, htail⟩

section Server

variable {frames : List WsFrame} {more : Bytes}

/-- The frames that were read are the first of those of the server, and the bytes are theirs. -/
theorem decodes_prefix {rest : Bytes} (hdecodes : WsFrame.Decodes all done rest)
    (hvalid : ∀ f ∈ frames, f.Valid) (hall : all ++ more = WsFrame.encodeAll frames) :
    ∃ left, frames = done ++ left ∧ rest ++ more = WsFrame.encodeAll left ∧
      all = WsFrame.encodeAll done ++ rest := by
  obtain ⟨left, rfl, hleft⟩ := hdecodes.of_encodeAll hvalid hall
  refine ⟨left, rfl, hleft, ?_⟩
  rw [WsFrame.encodeAll_append, ← hleft, ← append_assoc] at hall
  exact append_cancel_right hall

/-- What is read of a data frame are the first bytes of its payload. -/
theorem current_prefix {hdr got tail : Bytes} {opcode : UInt8} {len : Nat} {mask : Option WsKey}
    (hcomplete : HeaderComplete hdr) (hparsed : parseHeader hdr = .ok (opcode, len, mask))
    (hdata : dataOpcode opcode) (hshort : got.length < len) {left : List WsFrame}
    (hvalid : ∀ f ∈ left, f.Valid) (hleft : hdr ++ (got ++ tail) = WsFrame.encodeAll left) :
    maskWith mask 0 got <+: dataBeforeClose left := by
  obtain ⟨g, rest, rfl, rfl, hbody⟩ := header_of_encodeAll hcomplete hleft
  have hgvalid := hvalid g mem_cons_self
  have hg := WsFrame.parseHeader_header hgvalid []
  rw [append_nil] at hg
  obtain ⟨rfl, hrest⟩ := Prod.mk.inj (Except.ok.inj (hparsed.symm.trans hg))
  obtain ⟨rfl, rfl⟩ := Prod.mk.inj hrest
  have hgot : got <+: maskWith g.mask 0 g.payload :=
    prefix_of_prefix_length_le (hbody ▸ prefix_append _ _) (prefix_append _ _)
      (by rw [length_maskWith]; omega)
  obtain ⟨more, hmore⟩ := hgot
  have hplain := congrArg (maskWith g.mask 0) hmore
  rw [maskWith_append, maskWith_maskWith] at hplain
  rw [dataBeforeClose_cons hdata, ← hplain, append_assoc]
  exact prefix_append _ _

variable {s : WsStream} {delivered : Bytes}

/-- The caller was given the first bytes of the stream. -/
theorem Reads.delivered_prefix
    (h : Reads all s done delivered) (hvalid : ∀ f ∈ frames, f.Valid)
    (hall : all ++ more = WsFrame.encodeAll frames) : delivered <+: dataBeforeClose frames := by
  obtain ⟨got, current, hdecodes, hpart, hdelivered⟩ := h.part
  obtain ⟨left, rfl, hleft, -⟩ := decodes_prefix hdecodes hvalid hall
  cases hclosing : s.closing with
  | true =>
    obtain ⟨init, f, rfl, hinit, hf, rfl⟩ := h.close hclosing
    rw [append_assoc, dataBeforeClose_append hinit]
    exact prefix_append _ _
  | false =>
    rw [dataBeforeClose_append (h.noClose hclosing), hdelivered, prefix_append_right_inj]
    have hrest : ∀ f ∈ left, f.Valid := fun f hf => hvalid f (mem_append_right _ hf)
    cases hpart with
    | header payload_nil read => exact nil_prefix
    | data complete parsed isData lt payload_nil read =>
      rw [append_assoc, append_assoc] at hleft
      exact current_prefix complete parsed isData lt hrest hleft
    | control complete parsed isControl lt read => exact nil_prefix

/-- At the end of the stream the caller has all of it: the bytes of the server ended between two
frames, or with a close. -/
theorem Reads.at_eof (h : Reads all s done delivered)
    (heof : s.readEof) (hvalid : ∀ f ∈ frames, f.Valid)
    (hall : all ++ more = WsFrame.encodeAll frames) :
    done <+: frames ∧ delivered = dataBeforeClose done ∧
      (all = WsFrame.encodeAll done ∨ ∃ f ∈ done, f.opcode = 8) := by
  obtain ⟨got, current, hdecodes, hpart, hdelivered⟩ := h.part
  obtain ⟨left, rfl, -⟩ := decodes_prefix hdecodes hvalid hall
  refine ⟨prefix_append _ _, ?_⟩
  cases hclosing : s.closing with
  | true =>
    obtain ⟨init, f, rfl, hinit, hf, rfl⟩ := h.close hclosing
    refine ⟨?_, .inr ⟨f, mem_append_right _ (mem_singleton.mpr rfl), hf⟩⟩
    rw [dataBeforeClose_append hinit, dataBeforeClose_close hf, append_nil]
  | false =>
    rcases h.eof heof with hclose | ⟨hhdr, hpending, hincoming⟩
    · cases hclosing.symm.trans hclose
    have hless : s.hdr.length < s.hdrLen := by
      rw [hhdr, length_nil]
      rcases h.hdrLen with htwo | ⟨htwo, -⟩
      · omega
      · rw [hhdr, length_nil] at htwo
        omega
    obtain ⟨hrest, -, -, hdone⟩ := h.inHeader hless
    rw [hhdr, hpending, hincoming] at hrest
    obtain ⟨-, -, -, hbytes⟩ := decodes_prefix hrest hvalid hall
    rw [append_nil, append_nil, append_nil] at hbytes
    exact ⟨by rw [dataBeforeClose_of_noClose (h.noClose hclosing), hdone], .inl hbytes⟩

/-- Reading valid frames stops with an error only in the middle of a frame. -/
theorem Stops.inside_frame {e : WsError} (h : Stops all done e) (hvalid : ∀ f ∈ frames, f.Valid)
    (hall : all ++ more = WsFrame.encodeAll frames) :
    (e = .closedInHeader ∨ e = .closedInPayload) ∧ ∃ f part, done ++ [f] <+: frames ∧
      all = WsFrame.encodeAll done ++ part ∧ part ≠ [] ∧ part <+: f.encode ∧ part ≠ f.encode := by
  cases h with
  | @truncated rest _ decodes ne part error =>
    refine ⟨error, ?_⟩
    obtain ⟨left, rfl, hleft, hbytes⟩ := decodes_prefix decodes hvalid hall
    match left, hvalid, hleft with
    | [], _, hleft =>
      exact absurd (append_eq_nil_iff.mp hleft).1 ne
    | g :: left, hvalid, hleft =>
      have hg : g.Valid := hvalid g (mem_append_right _ mem_cons_self)
      have hnot : ¬ g.encode <+: rest := by
        rintro ⟨tail, rfl⟩
        rw [WsFrame.take_encode hg] at part
        cases part
      rw [WsFrame.encodeAll, flatMap_cons] at hleft
      have hfront : g.encode <+: rest ∨ rest <+: g.encode :=
        prefix_or_prefix_of_prefix (hleft.symm ▸ prefix_append _ _)
          (prefix_append _ _)
      refine ⟨g, rest, ?_, hbytes, ne, hfront.resolve_left hnot, ?_⟩
      · exact ⟨left, by rw [append_assoc, singleton_append]⟩
      · rintro rfl
        exact hnot (prefix_refl _)
  | @invalid hdr tail _ decodes complete error =>
    obtain ⟨left, rfl, hleft, -⟩ := decodes_prefix decodes hvalid hall
    rw [append_assoc] at hleft
    obtain ⟨g, rest, rfl, rfl, -⟩ := header_of_encodeAll complete hleft
    have hg := WsFrame.parseHeader_header (hvalid g (mem_append_right _ mem_cons_self)) []
    rw [append_nil, error] at hg
    cases hg

end Server

/-! ## Transparency -/

/-- The caller gets the bytes of the stream, in order, and then the end of it; a poll with room is
answered by bytes, by the end, or by an error. `all` are the bytes of the server that arrive. -/
structure ReadsThrough (frames : List WsFrame) (all : Bytes) (r : WsRun) : Prop where
  delivered : r.delivered <+: dataBeforeClose frames
  eof : ∀ room keys turns, 0 < room → (r.stream.pollRead room keys turns).1 = some (.ok []) →
    ∃ done, done <+: frames ∧ r.delivered = dataBeforeClose done ∧
      (all = WsFrame.encodeAll done ∨ ∃ f ∈ done, f.opcode = 8)
  whole : all = WsFrame.encodeAll frames → ∀ room keys turns, 0 < room →
    (r.stream.pollRead room keys turns).1 = some (.ok []) → r.delivered = dataBeforeClose frames
  answers : ∀ room keys, ∃ n, ∀ turns, (∀ t ∈ turns, t.Prompt) → n ≤ turns.length →
    (r.stream.pollRead room keys turns).1 ≠ none

/-- Over a stream that never fails, an error means that the bytes of the server end inside of a
frame, and the server gets whole frames: the bytes of the caller, a pong for each ping that was read,
and at most one close. -/
structure CalmThrough (frames : List WsFrame) (all : Bytes) (r : WsRun) : Prop where
  error : ∀ room keys turns e, (∀ t ∈ turns, t.Calm) →
    (r.stream.pollRead room keys turns).1 = some (.error e) →
    (e = .closedInHeader ∨ e = .closedInPayload) ∧ ∃ done f part, done ++ [f] <+: frames ∧
      all = WsFrame.encodeAll done ++ part ∧ part ≠ [] ∧ part <+: f.encode ∧ part ≠ f.encode
  frames : ∃ done queued flight, done <+: frames ∧ Reads all r.stream done r.delivered ∧
    Writes r done queued flight

theorem Sound.mono {calm' : Prop} (h : Sound calm all r done) (hcalm : calm' → calm) :
    Sound calm' all r done :=
  { h with writes := fun hc => h.writes (hcalm hc) }

theorem Sound.readsThrough {more : Bytes} (h : Sound False all r done)
    (hvalid : ∀ f ∈ frames, f.Valid) (hall : all ++ more = WsFrame.encodeAll frames) :
    ReadsThrough frames all r := by
  have heof : ∀ room keys turns, 0 < room →
      (r.stream.pollRead room keys turns).1 = some (.ok []) →
      ∃ done, done <+: frames ∧ r.delivered = dataBeforeClose done ∧
        (all = WsFrame.encodeAll done ∨ ∃ f ∈ done, f.opcode = 8) := by
    intro room keys turns hroom hanswer
    obtain ⟨done', hread⟩ := h.pollRead room keys turns fun hc => hc.elim
    have hreads := hread.sound.reads
    have hend := hread.eof hroom hanswer
    rw [hanswer, afterRead_nil] at hreads
    exact ⟨done', hreads.at_eof hend hvalid hall⟩
  refine ⟨h.reads.delivered_prefix hvalid hall, heof, ?_, ?_⟩
  · intro hwhole room keys turns hroom hanswer
    obtain ⟨done', ⟨left, rfl⟩, hdelivered, hend⟩ := heof room keys turns hroom hanswer
    rcases hend with hbytes | hclose
    · rw [hbytes, WsFrame.encodeAll_append] at hwhole
      have hnil := append_cancel_left ((append_nil _).trans hwhole)
      rw [eq_nil_of_encodeAll hnil.symm, append_nil]
      exact hdelivered
    · rw [dataBeforeClose_append_of_close hclose]
      exact hdelivered
  · intro room keys
    refine ⟨r.stream.cost, fun turns hprompt hlength => ?_⟩
    refine WsStream.readLoop_answers ?_ ⟨hprompt, hlength⟩ h
    rw [WsStream.iterations]
    split <;> omega

theorem Sound.calmThrough {more : Bytes} (h : Sound calm all r done) (hcalm : calm)
    (hvalid : ∀ f ∈ frames, f.Valid) (hall : all ++ more = WsFrame.encodeAll frames) :
    CalmThrough frames all r := by
  refine ⟨?_, ?_⟩
  · intro room keys turns e hturns hanswer
    obtain ⟨done', hread⟩ := h.pollRead room keys turns fun _ => hturns
    obtain ⟨-, hstops⟩ := hread.error e hanswer hcalm
    obtain ⟨herror, f, part, hpart⟩ := hstops.inside_frame hvalid hall
    exact ⟨herror, done', f, part, hpart⟩
  · obtain ⟨got, current, hdecodes, -⟩ := h.reads.part
    obtain ⟨left, rfl, -⟩ := decodes_prefix hdecodes hvalid hall
    obtain ⟨queued, flight, hw⟩ := h.writes hcalm
    exact ⟨done, queued, flight, prefix_append _ _, h.reads, hw⟩

/-- The transport is transparent, in every run: the bytes of the server are those of valid frames, of
which the end may be missing; a part of them came with the handshake. -/
theorem ws_transparent {frames : List WsFrame} (hvalid : ∀ f ∈ frames, f.Valid)
    {leftover incoming more : Bytes}
    (hbytes : leftover ++ incoming ++ more = WsFrame.encodeAll frames) {events : List WsEvent}
    {r : WsRun} (hrun : Run WsRun.Step (.new leftover incoming) events r) :
    ReadsThrough frames (leftover ++ incoming) r ∧
      ((∀ e ∈ events, ∀ t ∈ e.turns, t.Calm) → CalmThrough frames (leftover ++ incoming) r) := by
  obtain ⟨done, h⟩ := Sound.of_run hrun
  exact ⟨(h.mono fun hc => hc.elim).readsThrough hvalid hbytes,
    fun hcalm => h.calmThrough hcalm hvalid hbytes⟩

/-- A ping, a masked frame in two reads and a close, of which four bytes come with the handshake. -/
theorem ws_transparent_ping :
    let frames : List WsFrame := [⟨true, 9, none, [7]⟩, ⟨false, 2, some #v[1, 2, 3, 4], [5, 6]⟩,
      ⟨true, 8, none, []⟩]
    let leftover := (WsFrame.encodeAll frames).take 4
    let incoming := (WsFrame.encodeAll frames).drop 4
    let events : List WsEvent :=
      [.read 1 (fun _ => #v[9, 9, 9, 9]) (List.replicate 20 (.ready 1)),
        .read 8 (fun _ => #v[9, 9, 9, 9]) (List.replicate 20 (.ready 1))]
    let r := events.foldl WsRun.poll (.new leftover incoming)
    r.delivered = [5, 6] ∧ ReadsThrough frames (leftover ++ incoming) r ∧
      ((∀ e ∈ events, ∀ t ∈ e.turns, t.Calm) → CalmThrough frames (leftover ++ incoming) r) := by
  intro frames leftover incoming events r
  have hbytes : leftover ++ incoming ++ [] = WsFrame.encodeAll frames := by decide
  refine ⟨by decide, ws_transparent ?_ hbytes
    (.head ⟨trivial, rfl⟩ (.head ⟨trivial, rfl⟩ (.refl _)))⟩
  intro f hf
  rcases mem_cons.mp hf with rfl | hf
  · exact ⟨by decide, by decide, by decide⟩
  rcases mem_cons.mp hf with rfl | hf
  · exact ⟨by decide, by decide, by decide⟩
  · obtain rfl := mem_singleton.mp hf
    exact ⟨by decide, by decide, by decide⟩

/-- A shutdown can overtake a write that pends: its frame went out, its caller is told that the
stream is closed. -/
theorem ws_shutdown_overtakes_write :
    ∃ events r queued, Run WsRun.Step (.new [] []) events r ∧
      (∀ e ∈ events, ∀ t ∈ e.turns, t.Calm) ∧ r.pended = none ∧
      r.stream.wire.sent = WsFrame.encodeAll queued ∧ (∀ f ∈ queued, f.mask.isSome = true) ∧
      (payloadsOf 2 queued).flatten = [1] ∧ r.accepted = [] := by
  refine ⟨[.write [1] #v[1, 2, 3, 4] [],
      .shutdown #v[1, 2, 3, 4] [.ready 100, .ready 1, .ready 1], .write [1] #v[1, 2, 3, 4] []], _,
    [clientFrame 2 [1] #v[1, 2, 3, 4], clientFrame 8 [] #v[1, 2, 3, 4]],
    .head ⟨?_, rfl⟩ (.head ⟨trivial, rfl⟩ (.head ⟨?_, rfl⟩ (.refl _))), ?_, by decide,
    by decide, by decide, by decide, by decide⟩
  · intro pended hpended
    cases hpended
  · intro pended hpended
    have hsome : (WsRun.poll (WsRun.poll (.new [] []) (.write [1] #v[1, 2, 3, 4] []))
        (.shutdown #v[1, 2, 3, 4] [.ready 100, .ready 1, .ready 1])).pended = some [1] := by
      decide
    exact Option.some.inj (hsome.symm.trans hpended)
  · decide

end Sockrocket
