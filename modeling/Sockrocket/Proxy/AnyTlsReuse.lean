import Sockrocket.Proxy.AnyTls
import Sockrocket.Lib.History

/-!
# Streams of one AnyTLS session do not mix

What a session may do is a law for its history: each event is allowed by the events before it. The
reader of a stream gets what came for its stream since it was opened, data goes out under the number
of the stream, numbers grow, and a session that failed is not given back. `Allowed` says this for
one event; every function of a session adds allowed events only, and so does every action of a
client.
-/

namespace Sockrocket

open Rust Dns AsyncIo History
open List hiding Vector

/-! ## The law -/

/-- The latest stream of a history: its number, what came for it and what its reader got. -/
structure StreamView where
  id : Nat
  payload : Bytes
  delivered : Bytes

namespace SessionEvent

/-- The data of a stream in an event. -/
def payload (id : Nat) : SessionEvent → Bytes
  | .received command frameId data => if command = 2 ∧ frameId = id then data else []
  | _ => []

/-- The bytes that a reader got in an event. -/
def delivery : SessionEvent → Bytes
  | .delivered bytes => bytes
  | _ => []

/-- The bytes that an event put into the queue. -/
def queuedBytes : SessionEvent → Bytes
  | .queued data => data
  | _ => []

/-- The bytes of the frame that an event took from the connection. -/
def receivedBytes : SessionEvent → Bytes
  | .received command id data => frame [] command id data
  | _ => []

/-- The latest stream, after one more event. -/
def view (v : StreamView) : SessionEvent → StreamView
  | .opened id => ⟨id, [], []⟩
  | event => ⟨v.id, v.payload ++ event.payload v.id, v.delivered ++ event.delivery⟩

end SessionEvent

/-- The latest stream of a history. -/
def viewOf (log : List SessionEvent) : StreamView :=
  log.foldl SessionEvent.view ⟨0, [], []⟩

/-- The event may follow the past. -/
def Allowed (past : List SessionEvent) : SessionEvent → Prop
  | .opened id => ∀ k, .opened k ∈ past → k < id
  | .queued data => ∃ frames, data = AnyTlsFrame.encodeAll frames ∧
      ∀ f ∈ frames, f.command = 2 → f.id = (viewOf past).id
  | .received _ id data => id < 4294967296 ∧ data.length < 65536
  | .delivered bytes => (∃ k, .opened k ∈ past) ∧
      (viewOf past).delivered ++ bytes <+: (viewOf past).payload
  | .failed => True
  | .recycled => .failed ∉ past

theorem viewOf_snoc (log : List SessionEvent) (event : SessionEvent) :
    viewOf (log ++ [event]) = event.view (viewOf log) := by
  rw [viewOf, foldl_append]
  rfl

/-- The latest stream is the last that was opened, with the events since. -/
theorem viewOf_opened (before : List SessionEvent) (id : Nat) {since : List SessionEvent}
    (hsince : ∀ k, .opened k ∉ since) :
    viewOf (before ++ .opened id :: since) =
      ⟨id, since.flatMap (·.payload id), since.flatMap (·.delivery)⟩ := by
  induction since using reverseRecOn with
  | nil => rw [viewOf_snoc]; rfl
  | append_singleton since last ih =>
    have hlast : ∀ k, last ≠ .opened k := by
      rintro k rfl
      exact hsince k (mem_append_right _ mem_cons_self)
    have hview := ih fun k hk => hsince k (mem_append_left _ hk)
    rw [← cons_append, ← append_assoc, viewOf_snoc, hview, flatMap_append,
      flatMap_append, flatMap_singleton, flatMap_singleton]
    cases last with
    | opened k => exact absurd rfl (hlast k)
    | _ => rfl

/-- Only what is received and delivered changes the latest stream, and opening another. -/
theorem viewOf_failed (log : List SessionEvent) : viewOf (log ++ [.failed]) = viewOf log := by
  rw [viewOf_snoc]
  show StreamView.mk _ (_ ++ []) (_ ++ []) = _
  rw [append_nil, append_nil]

theorem viewOf_queued (log : List SessionEvent) (data : Bytes) :
    viewOf (log ++ [.queued data]) = viewOf log := by
  rw [viewOf_snoc]
  show StreamView.mk _ (_ ++ []) (_ ++ []) = _
  rw [append_nil, append_nil]

theorem viewOf_received (log : List SessionEvent) (command : UInt8) (id : Nat) (data : Bytes) :
    viewOf (log ++ [.received command id data]) =
      ⟨(viewOf log).id, (viewOf log).payload ++
        (if command = 2 ∧ id = (viewOf log).id then data else []), (viewOf log).delivered⟩ := by
  rw [viewOf_snoc]
  show StreamView.mk _ _ (_ ++ []) = _
  rw [append_nil]
  rfl

/-! ## Frames and bytes -/

theorem be16_u16At (a b : UInt8) : be16 (a.toNat * 256 + b.toNat) = [a, b] := by
  have ha := a.toNat_lt
  have hb := b.toNat_lt
  rw [be16]
  refine congrArg₂ (fun x y => [x, y]) (UInt8.toNat_inj.mp ?_) (UInt8.toNat_inj.mp ?_)
  · rw [UInt8.toNat_ofNat']
    omega
  · rw [UInt8.toNat_ofNat']
    omega

theorem be32_u32At (a b c d : UInt8) :
    be32 ((a.toNat * 256 + b.toNat) * 65536 + (c.toNat * 256 + d.toNat)) = [a, b, c, d] := by
  have hc := c.toNat_lt
  have hd := d.toNat_lt
  have hhigh : ((a.toNat * 256 + b.toNat) * 65536 + (c.toNat * 256 + d.toNat)) / 65536 =
      a.toNat * 256 + b.toNat := by omega
  have hlow : be16 ((a.toNat * 256 + b.toNat) * 65536 + (c.toNat * 256 + d.toNat)) =
      be16 (c.toNat * 256 + d.toNat) := by
    rw [be16, be16]
    refine congrArg₂ (fun x y => [x, y]) (UInt8.toNat_inj.mp ?_) (UInt8.toNat_inj.mp ?_)
    · rw [UInt8.toNat_ofNat', UInt8.toNat_ofNat']
      omega
    · rw [UInt8.toNat_ofNat', UInt8.toNat_ofNat']
      omega
  rw [be32, hhigh, hlow, be16_u16At, be16_u16At]
  rfl

/-- A header and a body of its length are the bytes of the frame that they are read as. -/
theorem frame_of_header {header body : Bytes} (hheader : header.length = 7)
    (hbody : body.length = u16At header 5) :
    frame [] (header.getD 0 0) (u32At header 1) body = header ++ body := by
  obtain ⟨a, b, c, d, e, f, g, rfl⟩ : ∃ a b c d e f g, header = [a, b, c, d, e, f, g] := by
    clear hbody
    match header, hheader with
    | [a, b, c, d, e, f, g], _ => exact ⟨a, b, c, d, e, f, g, rfl⟩
  have hid : be32 (u32At [a, b, c, d, e, f, g] 1) = [b, c, d, e] := be32_u32At b c d e
  have hlength : be16 body.length = [f, g] := by
    rw [hbody]
    exact be16_u16At f g
  rw [frame, hid, hlength]
  rfl

namespace AnyTlsSession

/-- A loop of `poll_frame` moves bytes from the connection to what is read, and not too many; it is
done when all are there. -/
theorem fillLoop_spec (want : Nat) (turns : List Behaviour) {got : Bytes} (raw : AnyTlsRaw)
    (hgot : got.length ≤ want) :
    ∃ bytes, (fillLoop want turns got raw).2.1 = got ++ bytes ∧
      (fillLoop want turns got raw).2.2.1.taken = raw.taken ++ bytes ∧
      (fillLoop want turns got raw).2.2.1.sent = raw.sent ∧
      if (fillLoop want turns got raw).1 = some (.ok ()) then (got ++ bytes).length = want
      else (got ++ bytes).length < want := by
  have hstay : got ++ [] = got := append_nil got
  induction turns generalizing got raw with
  | nil =>
    refine ⟨[], hstay.symm, (append_nil _).symm, rfl, ?_⟩
    rw [hstay, fillLoop]
    by_cases hlt : got.length < want
    · simp only [if_pos hlt, reduceCtorEq, if_false]
      exact hlt
    · simp only [if_neg hlt, if_true]
      omega
  | cons turn turns ih =>
    rw [fillLoop]
    by_cases hlt : got.length < want
    · rw [if_pos hlt]
      split
      · exact ⟨[], hstay.symm, (append_nil _).symm, rfl, by rw [hstay]; exact hlt⟩
      · exact ⟨[], hstay.symm, (append_nil _).symm, rfl, by rw [hstay]; exact hlt⟩
      rename_i bytes incoming hread
      split
      · exact ⟨[], hstay.symm, (append_nil _).symm, rfl, by rw [hstay]; exact hlt⟩
      have hroom := Behaviour.length_of_read hread
      have hmore : (got ++ bytes).length ≤ want := by
        rw [length_append]
        omega
      obtain ⟨more, hgot', htaken, hsent, hdone⟩ :=
        ih { raw with taken := raw.taken ++ bytes, incoming } hmore (append_nil _)
      rw [append_assoc] at hdone
      refine ⟨bytes ++ more, ?_, ?_, hsent, hdone⟩
      · rw [hgot', append_assoc]
      · rw [htaken, append_assoc]
    · rw [if_neg hlt]
      refine ⟨[], hstay.symm, (append_nil _).symm, rfl, ?_⟩
      rw [hstay]
      exact le_antisymm hgot (not_lt.mp hlt)

/-! ## What holds of a session -/

/-- The bytes taken from the connection are the frames of the history and a part of the next. -/
structure Decoded (s : AnyTlsSession) : Prop where
  taken : s.raw.taken = s.log.flatMap (·.receivedBytes) ++ s.header ++ s.body
  part : s.header.length < 7 ∧ s.body = [] ∨
    s.header.length = 7 ∧ s.body.length < u16At s.header 5

/-- What holds of every session, also of a closed one. -/
structure Sound (s : AnyTlsSession) : Prop where
  lawful : Lawful Allowed s.log
  view : (viewOf s.log).id = s.id
  opened : ∀ k, .opened k ∈ s.log → k < s.nextId
  id_lt : s.id < s.nextId
  next_lt : s.nextId < 4294967296
  decoded : s.Decoded
  framed : s.healthy = true →
    Framed s (AnyTlsFrame.parse (s.log.flatMap (·.queuedBytes))).1

/-- A session that failed is not healthy. -/
def Intact (s : AnyTlsSession) : Prop :=
  .failed ∈ s.log → s.healthy = false

/-- The reader of the stream has got what came for it, apart from what is buffered. If the session
is broken, some may be lost. -/
structure Live (s : AnyTlsSession) : Prop where
  opened : ∃ k, .opened k ∈ s.log
  buffered : (viewOf s.log).delivered ++ s.content.drop s.contentPos <+: (viewOf s.log).payload
  all : s.healthy = true →
    (viewOf s.log).delivered ++ s.content.drop s.contentPos = (viewOf s.log).payload

theorem sound_create (padding : Padding) (incoming : Bytes) (sequence now : Nat) :
    Sound (create padding incoming sequence now) where
  lawful := .nil
  view := rfl
  opened k h := by cases h
  id_lt := Nat.one_pos
  next_lt := by show 1 < 4294967296; decide
  decoded := ⟨rfl, .inl ⟨by show 0 < 7; decide, rfl⟩⟩
  framed _ := ⟨[], .nil, le_rfl, rfl⟩

/-- What `Sound` and `Intact` are about. -/
def core (s : AnyTlsSession) :=
  (s.log, s.id, s.nextId, s.healthy, s.raw, s.wire, s.wirePos, s.header, s.body)

variable {s t : AnyTlsSession}

theorem Sound.congr (h : Sound s) (hcore : t.core = s.core) : Sound t := by
  simp only [core, Prod.mk.injEq] at hcore
  obtain ⟨hlog, hid, hnext, hhealthy, hraw, hwire, hpos, hheader, hbody⟩ := hcore
  refine ⟨?_, ?_, ?_, ?_, ?_, ⟨?_, ?_⟩, ?_⟩
  · exact hlog ▸ h.lawful
  · exact hlog ▸ hid ▸ h.view
  · exact hlog ▸ hnext ▸ h.opened
  · exact hid ▸ hnext ▸ h.id_lt
  · exact hnext ▸ h.next_lt
  · rw [hraw, hlog, hheader, hbody, h.decoded.taken]
  · rw [hheader, hbody]
    exact h.decoded.part
  · rw [hhealthy, hlog]
    intro hs
    obtain ⟨padded, hpadded, hwired⟩ := h.framed hs
    refine ⟨padded, hpadded, ?_, ?_⟩
    · rw [hpos, hwire]
      exact hwired.pos
    · rw [unsent, hraw, hpos, hwire]
      exact hwired.all

/-- What is on the wire of a broken session does not matter. -/
theorem Sound.abandon (h : Sound s) (wire : List Bytes) :
    Sound { s with healthy := false, wire } :=
  { h with
    decoded := ⟨h.decoded.taken, h.decoded.part⟩
    framed := nofun }

variable {event : SessionEvent} {raw : AnyTlsRaw} {header body : Bytes}

/-- An event that neither opens a stream nor queues, while frames are read. -/
theorem Sound.noteReading (h : Sound s) (hallowed : Allowed s.log event) (hopened : ∀ k, event ≠ .opened k)
    (hview : (event.view (viewOf s.log)).id = (viewOf s.log).id) (hqueued : event.queuedBytes = [])
    (hsent : raw.sent = s.raw.sent) (hdecoded : Decoded { s.note event with raw, header, body }) :
    Sound { s.note event with raw, header, body } where
  lawful := h.lawful.snoc hallowed
  view := by
    show (viewOf (s.log ++ [event])).id = s.id
    rw [viewOf_snoc, hview, h.view]
  opened k hk := by
    rcases mem_append.mp hk with hk | hk
    · exact h.opened k hk
    · exact absurd (mem_singleton.mp hk).symm (hopened k)
  id_lt := h.id_lt
  next_lt := h.next_lt
  decoded := hdecoded
  framed hs := by
    obtain ⟨padded, hpadded, hwired⟩ := h.framed hs
    refine ⟨padded, ?_, hwired.pos, ?_⟩
    · show Padded (AnyTlsFrame.parse ((s.log ++ [event]).flatMap _)).1 _
      rwa [flatMap_append, flatMap_singleton, hqueued, append_nil]
    · rw [hsent]
      exact hwired.all

/-- An event that neither opens a stream nor moves bytes of the connection. -/
theorem Sound.note (h : Sound s) (hallowed : Allowed s.log event)
    (hopened : ∀ k, event ≠ .opened k) (hview : (event.view (viewOf s.log)).id = (viewOf s.log).id)
    (hqueued : event.queuedBytes = []) (hreceived : event.receivedBytes = []) :
    Sound (s.note event) := by
  refine h.noteReading hallowed hopened hview hqueued rfl
    ⟨?_, h.decoded.part⟩
  show s.raw.taken = (s.log ++ [event]).flatMap _ ++ s.header ++ s.body
  rw [flatMap_append, flatMap_singleton, hreceived, append_nil, h.decoded.taken]

theorem Sound.failed (h : Sound s) : Sound (s.note .failed) :=
  h.note trivial nofun rfl rfl rfl

theorem intact_unhealthy (s : AnyTlsSession) : Intact { s with healthy := false } :=
  fun _ => rfl

/-- The parts of a session that its reader depends on. -/
theorem Live.congr (h : Live s) (hview : viewOf t.log = viewOf s.log) (hlog : s.log <+: t.log)
    (hcontent : t.content.drop t.contentPos = s.content.drop s.contentPos)
    (hhealthy : t.healthy → s.healthy) : Live t where
  opened := h.opened.imp fun _ hk => hlog.subset hk
  buffered := by
    rw [hview, hcontent]
    exact h.buffered
  all ht := by
    rw [hview, hcontent]
    exact h.all (hhealthy ht)

/-! ## Flushing -/

variable {record : Bytes} {wire : List Bytes}

theorem Sound.send (h : Sound s)
    (hwire : s.wire = record :: wire) (n : Nat) :
    Sound (s.send ((record.drop s.wirePos).take n)) :=
  { h with
    decoded := ⟨h.decoded.taken, h.decoded.part⟩
    framed := fun hs => by
      obtain ⟨padded, hpadded, hwired⟩ := h.framed hs
      exact ⟨padded, hpadded, hwired.send hwire n⟩ }

theorem Sound.pop (h : Sound s)
    (hwire : s.wire = record :: wire) (hsent : ¬ s.wirePos < record.length) :
    Sound { s with wire, wirePos := 0 } :=
  { h with
    decoded := ⟨h.decoded.taken, h.decoded.part⟩
    framed := fun hs => by
      obtain ⟨padded, hpadded, hwired⟩ := h.framed hs
      exact ⟨padded, hpadded, hwired.pop hwire hsent⟩ }

/-- A session that no stream may read from. -/
structure Held (s : AnyTlsSession) : Prop where
  sound : s.Sound
  intact : s.Intact

theorem Held.breakDown (h : Held s) : Held s.breakDown :=
  ⟨h.sound.failed.abandon _, intact_unhealthy _⟩

theorem Held.flush (h : Held s) (turns : List Behaviour) :
    Held (s.pollFlushWire turns).2.1 := by
  rw [pollFlushWire]
  split
  · exact h
  · exact flushLoop_keeps (fun s record wire n hwire h => ⟨h.sound.send hwire n, h.intact⟩)
      (fun s record wire hwire hsent h => ⟨h.sound.pop hwire hsent, h.intact⟩)
      (fun s h => h.breakDown) turns h

theorem Live.breakDown (h : Live s) : Live s.breakDown :=
  h.congr (viewOf_failed s.log) (prefix_append _ _) rfl
    nofun

theorem Live.flush (h : Live s) (turns : List Behaviour) :
    Live (s.pollFlushWire turns).2.1 := by
  rw [pollFlushWire]
  split
  · exact h
  exact flushLoop_keeps
    (fun s record wire n hwire h => h.congr rfl (prefix_refl _) rfl fun hs => hs)
    (fun s record wire hwire hsent h => h.congr rfl (prefix_refl _) rfl fun hs => hs)
    (fun s h => h.breakDown) turns h

/-- After a flush that does not fail the session is healthy. -/
theorem healthy_after_flush {turns rest : List Behaviour} {answer : AnyTlsPoll Unit}
    (h : s.pollFlushWire turns = (answer, t, rest)) (hanswer : ∀ e, answer ≠ some (.error e)) :
    t.healthy := by
  rw [pollFlushWire] at h
  split at h
  · exact absurd (Prod.mk.inj h).1.symm (hanswer _)
  rename_i hhealthy
  have hloop := flushLoop_answer turns s
  have hs : s.healthy := by simpa using hhealthy
  rw [h] at hloop
  obtain _ | e | _ := answer
  · exact hloop.trans hs
  · exact absurd rfl (hanswer e)
  · exact hloop.1.trans hs

/-! ## Queueing -/

/-- `queue` adds to the wire, or breaks the session. -/
theorem queue_cases (s : AnyTlsSession) (data : Bytes) (random : Nat → Nat) :
    (∃ packet wire, s.queue data random = { s.note (.queued data) with packet, wire }) ∨
      ∃ packet, s.queue data random =
        { (s.note (.queued data)).note .failed with packet, healthy := false, wire := [] } := by
  rw [queue]
  split
  · exact .inr ⟨_, rfl⟩
  · exact .inl ⟨_, _, rfl⟩

/-- The queued bytes of a lawful history are whole frames. -/
theorem exists_queued {log : List SessionEvent} (h : Lawful Allowed log) :
    ∃ frames, log.flatMap (·.queuedBytes) = AnyTlsFrame.encodeAll frames := by
  induction h with
  | nil => exact ⟨[], rfl⟩
  | @snoc past event before allowed ih =>
    obtain ⟨frames, hframes⟩ := ih
    rw [flatMap_append, flatMap_singleton, hframes]
    cases event with
    | queued data =>
      obtain ⟨more, rfl, -⟩ := allowed
      exact ⟨frames ++ more, (AnyTlsFrame.encodeAll_append frames more).symm⟩
    | _ => exact ⟨frames, append_nil _⟩

variable {frames : List AnyTlsFrame}

theorem Sound.noteQueued (h : Sound s)
    (hown : ∀ f ∈ frames, f.command = 2 → f.id = s.id) :
    Sound { s.note (.queued (AnyTlsFrame.encodeAll frames)) with healthy := false } where
  lawful := by
    refine h.lawful.snoc ⟨frames, rfl, ?_⟩
    rw [h.view]
    exact hown
  view := by
    show (viewOf (s.log ++ [.queued _])).id = s.id
    rw [viewOf_queued, h.view]
  opened k hk := by
    rcases mem_append.mp hk with hk | hk
    · exact h.opened k hk
    · cases mem_singleton.mp hk
  id_lt := h.id_lt
  next_lt := h.next_lt
  decoded := by
    refine ⟨?_, h.decoded.part⟩
    show s.raw.taken = (s.log ++ [SessionEvent.queued _]).flatMap _ ++ s.header ++ s.body
    rw [flatMap_append, flatMap_singleton, h.decoded.taken]
    exact congrArg (· ++ s.header ++ s.body) (append_nil _).symm
  framed hfalse := absurd hfalse Bool.false_ne_true

/-- Whole frames are queued, of which those with data have the number of the stream. -/
theorem Sound.queue (h : Sound s)
    (hown : ∀ f ∈ frames, f.command = 2 → f.id = s.id) (random : Nat → Nat) :
    Sound (s.queue (AnyTlsFrame.encodeAll frames) random) := by
  have hnoted := h.noteQueued hown
  rcases queue_cases s (AnyTlsFrame.encodeAll frames) random with
    ⟨packet, wire, hqueue⟩ | ⟨packet, hqueue⟩
  · have hframed : (s.queue (AnyTlsFrame.encodeAll frames) random).healthy →
        Framed (s.queue (AnyTlsFrame.encodeAll frames) random)
          (AnyTlsFrame.parse ((s.log ++ [SessionEvent.queued (AnyTlsFrame.encodeAll frames)]).flatMap
            (·.queuedBytes))).1 := by
      intro hhealthy
      obtain ⟨before, hbefore⟩ := exists_queued h.lawful
      have hs := h.framed (queue_of_healthy hhealthy).1
      rw [hbefore, AnyTlsFrame.parse_encodeAll] at hs
      rw [flatMap_append, flatMap_singleton, hbefore]
      show Framed _ (AnyTlsFrame.parse (_ ++ AnyTlsFrame.encodeAll frames)).1
      rw [← AnyTlsFrame.encodeAll_append, AnyTlsFrame.parse_encodeAll]
      exact hs.queue frames random hhealthy
    rw [hqueue] at hframed ⊢
    exact { hnoted with
      decoded := ⟨hnoted.decoded.taken, hnoted.decoded.part⟩
      framed := hframed }
  · rw [hqueue]
    exact (hnoted.failed.abandon []).congr rfl

theorem Held.queue (h : Held s)
    (hown : ∀ f ∈ frames, f.command = 2 → f.id = s.id) (random : Nat → Nat) :
    Held (s.queue (AnyTlsFrame.encodeAll frames) random) := by
  refine ⟨h.sound.queue hown random, fun hfailed => ?_⟩
  rcases queue_cases s (AnyTlsFrame.encodeAll frames) random with
    ⟨packet, wire, hqueue⟩ | ⟨packet, hqueue⟩
  · rw [hqueue] at hfailed ⊢
    rcases mem_append.mp hfailed with hfailed | hfailed
    · exact h.intact hfailed
    · cases mem_singleton.mp hfailed
  · rw [hqueue]

theorem Live.queue (h : Live s) (data : Bytes) (random : Nat → Nat) :
    Live (s.queue data random) := by
  rcases queue_cases s data random with ⟨packet, wire, hqueue⟩ | ⟨packet, hqueue⟩
  · rw [hqueue]
    exact h.congr (viewOf_queued s.log data) (prefix_append _ _) rfl fun hs => hs
  rw [hqueue]
  refine h.congr ?_ ⟨[.queued data, .failed], ?_⟩ rfl nofun
  · show viewOf (s.log ++ [.queued data] ++ [.failed]) = _
    rw [viewOf_failed, viewOf_queued]
  · show _ = s.log ++ [.queued data] ++ [.failed]
    rw [append_assoc, singleton_append]

/-! ## Reading and applying frames -/

/-- More of a frame is read. -/
theorem Sound.reading (h : Sound s)
    (hsent : raw.sent = s.raw.sent) (hdecoded : Decoded { s with raw, header, body }) :
    Sound { s with raw, header, body } :=
  { h with
    decoded := hdecoded
    framed := fun hs => by
      obtain ⟨padded, hpadded, hwired⟩ := h.framed hs
      refine ⟨padded, hpadded, hwired.pos, ?_⟩
      show raw.sent ++ s.unsent = _
      rw [hsent]
      exact hwired.all }

/-- `poll_frame` reads a part of a frame, or notes an error, or notes the frame. -/
theorem pollFrame_spec (h : Sound s) (turns : List Behaviour) :
    Sound (s.pollFrame turns).2.1 ∧ ∃ raw header body,
      match (s.pollFrame turns).1 with
      | none => (s.pollFrame turns).2.1 = { s with raw, header, body }
      | some (.error _) => (s.pollFrame turns).2.1 = { s.note .failed with raw, header, body }
      | some (.ok (command, id, data)) => id < 4294967296 ∧
          (s.pollFrame turns).2.1 = { s.note (.received command id data) with raw, header, body } := by
  have hseven : s.header.length ≤ 7 := by
    rcases h.decoded.part with ⟨hlt, -⟩ | ⟨heq, -⟩
    · exact le_of_lt hlt
    · exact le_of_eq heq
  obtain ⟨more, hheader, htaken, hsent, hfull⟩ := fillLoop_spec 7 turns s.raw hseven
  rw [pollFrame]
  generalize fillLoop 7 turns s.header s.raw = filled at hheader htaken hsent hfull ⊢
  obtain ⟨answer, header, raw, rest⟩ := filled
  subst hheader
  -- as long as the header is not complete, there is no body
  have hstart : answer ≠ some (.ok ()) → Sound { s with raw, header := s.header ++ more } := by
    intro hanswer
    rw [if_neg hanswer] at hfull
    have hnone : s.body = [] := by
      rcases h.decoded.part with ⟨-, hnone⟩ | ⟨heq, -⟩
      · exact hnone
      · rw [length_append] at hfull
        omega
    refine h.reading hsent ⟨?_, .inl ⟨hfull, hnone⟩⟩
    rw [htaken, h.decoded.taken, hnone, append_nil, append_nil, append_assoc]
  match answer with
  | none => exact ⟨hstart (by simp), raw, _, s.body, rfl⟩
  | some (.error e) => exact ⟨(hstart (by simp)).failed, raw, _, s.body, rfl⟩
  | some (.ok ()) =>
    rw [if_pos rfl] at hfull
    have hfits : s.body.length ≤ u16At (s.header ++ more) 5 ∧
        s.header ++ s.body ++ more = s.header ++ more ++ s.body := by
      rcases h.decoded.part with ⟨-, hnone⟩ | ⟨heq, hlt⟩
      · rw [hnone, append_nil, append_nil]
        exact ⟨Nat.zero_le _, rfl⟩
      rw [length_append] at hfull
      obtain rfl : more = [] := eq_nil_of_length_eq_zero (by omega)
      rw [append_nil, append_nil]
      exact ⟨le_of_lt hlt, rfl⟩
    obtain ⟨last, hlast, htaken', hsent', hfull'⟩ :=
      fillLoop_spec (u16At (s.header ++ more) 5) rest raw hfits.1
    dsimp only
    generalize fillLoop (u16At (s.header ++ more) 5) rest s.body raw = filled
      at hlast htaken' hsent' hfull' ⊢
    obtain ⟨answer, body, raw', rest'⟩ := filled
    subst hlast
    have hbytes : raw'.taken =
        s.log.flatMap (·.receivedBytes) ++ (s.header ++ more) ++ (s.body ++ last) := by
      rw [htaken', htaken, h.decoded.taken, append_assoc (s.log.flatMap _) s.header,
        append_assoc (s.log.flatMap _), hfits.2]
      simp
    have hmore : answer ≠ some (.ok ()) →
        Sound { s with raw := raw', header := s.header ++ more, body := s.body ++ last } := by
      intro hanswer
      rw [if_neg hanswer] at hfull'
      exact h.reading (hsent'.trans hsent) ⟨hbytes, .inr ⟨hfull, hfull'⟩⟩
    match answer with
    | none => exact ⟨hmore (by simp), raw', _, _, rfl⟩
    | some (.error e) => exact ⟨(hmore (by simp)).failed, raw', _, _, rfl⟩
    | some (.ok ()) =>
      have hlength : (s.body ++ last).length = u16At (s.header ++ more) 5 := by
        rwa [if_pos rfl] at hfull'
      have hid := u32At_lt (s.header ++ more) 1
      refine ⟨h.noteReading ⟨hid, by rw [hlength]; exact u16At_lt _ _⟩ nofun
        rfl rfl (hsent'.trans hsent) ⟨?_, .inl ⟨by show 0 < 7; decide, rfl⟩⟩,
        raw', [], [], hid, rfl⟩
      show raw'.taken = (s.log ++ [SessionEvent.received _ _ _]).flatMap _ ++ [] ++ []
      rw [hbytes, append_nil, append_nil, flatMap_append, flatMap_singleton, append_assoc]
      exact congrArg (_ ++ ·) (frame_of_header hfull hlength).symm

section Apply

variable (md5 : Bytes → Vector UInt8 16)

/-- What a frame does to a session that accepts it: it is data for the stream, or sets what neither
the reader nor the writer of a stream depends on, or is answered. -/
inductive Applied (s : AnyTlsSession) (command : UInt8) (id : Nat) (data : Bytes)
    (random : Nat → Nat) : AnyTlsSession → Prop where
  | data (hown : command = 2 ∧ id = s.id) : Applied s command id data random
      { s with content := s.content.drop s.contentPos ++ data, contentPos := 0 }
  | other (hother : ¬ (command = 2 ∧ id = s.id)) (padding : Padding)
      (acked serverSettings peerFinished : Bool) : Applied s command id data random
      { s with padding, acked, serverSettings, peerFinished }
  | answered (hother : ¬ (command = 2 ∧ id = s.id)) : Applied s command id data random
      (s.queue (frame [] 9 id []) random)

variable {s t : AnyTlsSession} {data : Bytes} {command : UInt8}

variable {id : Nat}

theorem applied_of_applyFrame {random : Nat → Nat}
    (h : s.applyFrame md5 command id data random = .ok t) :
    Applied s command id data random t := by
  have hother : ¬ (command = 2 ∧ id = s.id) → Applied s command id data random s :=
    fun h2 => .other h2 s.padding s.acked s.serverSettings s.peerFinished
  rw [applyFrame] at h
  by_cases h0 : command = 0
  · rw [if_pos h0] at h
    cases h
    exact hother fun h2 => by rw [h0] at h2; cases h2.1
  rw [if_neg h0] at h
  by_cases h2 : command = 2 ∧ id = s.id
  · rw [if_pos h2] at h
    split at h
    · cases h
    · cases h
      exact .data h2
  rw [if_neg h2] at h
  by_cases h3 : command = 3 ∧ id = s.id ∧ data = []
  · rw [if_pos h3] at h
    cases h
    exact .other h2 s.padding s.acked s.serverSettings true
  rw [if_neg h3] at h
  by_cases h7 : command = 7 ∧ id = s.id
  · rw [if_pos h7] at h
    split at h
    · cases h
    · cases h
      exact .other h2 s.padding true s.serverSettings s.peerFinished
  rw [if_neg h7] at h
  by_cases hlate : (command = 2 ∨ command = 3 ∨ command = 7) ∧ 0 < id ∧ id < s.id
  · rw [if_pos hlate] at h
    cases h
    exact hother h2
  rw [if_neg hlate] at h
  by_cases h5 : command = 5
  · rw [if_pos h5] at h
    cases h
  rw [if_neg h5] at h
  by_cases h6 : command = 6 ∧ id = 0
  · rw [if_pos h6] at h
    split at h
    · cases h
      exact .other h2 _ s.acked s.serverSettings s.peerFinished
    · cases h
  rw [if_neg h6] at h
  by_cases h8 : command = 8 ∧ data = []
  · rw [if_pos h8] at h
    split at h
    · cases h
    · cases h
      exact .answered h2
  rw [if_neg h8] at h
  by_cases h9 : command = 9 ∧ data = []
  · rw [if_pos h9] at h
    cases h
    exact hother h2
  rw [if_neg h9] at h
  by_cases h10 : command = 10 ∧ id = 0
  · rw [if_pos h10] at h
    split at h
    · cases h
    split at h
    · cases h
    · cases h
      exact .other h2 s.padding s.acked _ s.peerFinished
  · rw [if_neg h10] at h
    cases h

/-- The answer to a ping. -/
def pongFrame (id : Nat) (h : id < 4294967296) : AnyTlsFrame :=
  ⟨9, id, [], h, by decide⟩

theorem Held.pong (h : Held s) (hid : id < 4294967296) (random : Nat → Nat) :
    Held (s.queue (frame [] 9 id []) random) := by
  have hframe : frame [] 9 id [] = AnyTlsFrame.encodeAll [pongFrame id hid] := by
    rw [AnyTlsFrame.encodeAll, flatMap_singleton]
    rfl
  rw [hframe]
  refine h.queue (fun f hf hcommand => ?_) random
  rw [mem_singleton.mp hf] at hcommand
  cases hcommand

theorem Held.applyFrame (hs : Held s) {random : Nat → Nat} (hid : id < 4294967296)
    (h : s.applyFrame md5 command id data random = .ok t) : Held t := by
  cases applied_of_applyFrame md5 h with
  | data hown => exact ⟨hs.sound.congr rfl, hs.intact⟩
  | other hother padding acked serverSettings peerFinished =>
    exact ⟨hs.sound.congr rfl, hs.intact⟩
  | answered hother => exact hs.pong hid random

variable {turns rest : List Behaviour}

theorem Held.received (h : Held s)
    (hframe : s.pollFrame turns = (some (.ok (command, id, data)), t, rest)) :
    Held t ∧ id < 4294967296 ∧ ∃ raw header body,
      t = { s.note (.received command id data) with raw, header, body } := by
  obtain ⟨hsound, raw, header, body, hspec⟩ := pollFrame_spec h.sound turns
  rw [hframe] at hsound hspec
  obtain ⟨hid, ht⟩ := hspec
  change t = _ at ht
  refine ⟨⟨hsound, ?_⟩, hid, raw, header, body, ht⟩
  intro hfailed
  rw [ht] at hfailed ⊢
  rcases mem_append.mp hfailed with hfailed | hfailed
  · exact h.intact hfailed
  · cases mem_singleton.mp hfailed

variable (random : Nat → Nat → Nat)

theorem Held.pollApply (h : Held s) (turns : List Behaviour) :
    Held (s.pollApply md5 random turns).2.1 := by
  rw [AnyTlsSession.pollApply]
  split
  · rename_i t rest hframe
    obtain ⟨hsound, raw, header, body, hspec⟩ := pollFrame_spec h.sound turns
    rw [hframe] at hsound hspec
    refine ⟨hsound, ?_⟩
    rw [show t = _ from hspec]
    exact h.intact
  · rename_i e t rest hframe
    obtain ⟨hsound, -⟩ := pollFrame_spec h.sound turns
    rw [hframe] at hsound
    exact ⟨(hsound.abandon _).congr rfl, intact_unhealthy _⟩
  · rename_i command id data t rest hframe
    obtain ⟨ht, hid, -⟩ := h.received hframe
    rw [AnyTlsSession.apply]
    cases happly : t.applyFrame md5 command id data (random t.packet) with
    | ok u => exact ht.applyFrame md5 hid happly
    | error e => exact ⟨(ht.sound.failed.abandon _).congr rfl, intact_unhealthy _⟩

variable {raw : AnyTlsRaw} {header body : Bytes}

/-- A frame that is read and applied reaches the buffer if it is data for the stream, and only
then. -/
theorem Live.applied {u : AnyTlsSession} (hsound : Sound s) (hlive : Live s)
    (hhealthy : s.healthy) {random : Nat → Nat} (ht : t = { s.note (.received command id data) with raw, header, body })
    (hu : Applied t command id data random u) : Live u := by
  have hopened : ∃ k, .opened k ∈ t.log := by
    rw [ht]
    exact hlive.opened.imp fun _ hk => mem_append_left _ hk
  have hview : viewOf t.log = ⟨s.id, (viewOf s.log).payload ++
      (if command = 2 ∧ id = s.id then data else []), (viewOf s.log).delivered⟩ := by
    rw [ht, ← hsound.view]
    exact viewOf_received s.log command id data
  have hid : t.id = s.id := by rw [ht]; rfl
  have hcontent : t.content.drop t.contentPos = s.content.drop s.contentPos := by rw [ht]; rfl
  have hall := hlive.all hhealthy
  have hunchanged : ¬ (command = 2 ∧ id = t.id) → Live t := by
    intro hother
    rw [hid] at hother
    rw [if_neg hother, append_nil] at hview
    have hsame : (viewOf t.log).delivered ++ t.content.drop t.contentPos = (viewOf t.log).payload := by
      rw [hview, hcontent]
      exact hall
    exact ⟨hopened, hsame ▸ prefix_refl _, fun _ => hsame⟩
  cases hu with
  | data hown =>
    rw [hid] at hown
    rw [if_pos hown] at hview
    have hmore : (viewOf t.log).delivered ++ (t.content.drop t.contentPos ++ data).drop 0 =
        (viewOf t.log).payload := by
      rw [hview, hcontent, drop_zero, ← append_assoc, hall]
    exact ⟨hopened, hmore ▸ prefix_refl _, fun _ => hmore⟩
  | other hother padding acked serverSettings peerFinished =>
    exact (hunchanged hother).congr rfl (prefix_refl _) rfl fun hs => hs
  | answered hother => exact (hunchanged hother).queue _ _

/-- If a frame is refused, the session is broken, and what was buffered is still the stream's. -/
theorem Live.refused (hlive : Live s)
    (ht : t = { s.note (.received command id data) with raw, header, body }) :
    Live { t.note .failed with healthy := false } := by
  have hview : viewOf (t.log ++ [.failed]) = ⟨(viewOf s.log).id, (viewOf s.log).payload ++
      (if command = 2 ∧ id = (viewOf s.log).id then data else []), (viewOf s.log).delivered⟩ := by
    rw [viewOf_failed, ht]
    exact viewOf_received s.log command id data
  refine ⟨?_, ?_, nofun⟩
  · rw [ht]
    exact hlive.opened.imp fun _ hk => mem_append_left _ (mem_append_left _ hk)
  · show (viewOf (t.log ++ [.failed])).delivered ++ t.content.drop t.contentPos <+:
      (viewOf (t.log ++ [.failed])).payload
    rw [hview, ht]
    exact hlive.buffered.trans (prefix_append _ _)

theorem Live.pollApply (h : Held s) (hlive : Live s) (hhealthy : s.healthy)
    (turns : List Behaviour) :
    Live (s.pollApply md5 random turns).2.1 := by
  rw [AnyTlsSession.pollApply]
  obtain ⟨-, raw, header, body, hspec⟩ := pollFrame_spec h.sound turns
  split
  · rename_i t rest hframe
    rw [hframe] at hspec
    rw [show t = _ from hspec]
    exact hlive.congr rfl (prefix_refl _) rfl fun hs => hs
  · rename_i e t rest hframe
    rw [hframe] at hspec
    rw [show t = _ from hspec]
    exact hlive.breakDown.congr rfl (prefix_refl _) rfl fun hs => hs
  · rename_i command id data t rest hframe
    rw [hframe] at hspec
    obtain ⟨-, ht⟩ := hspec
    rw [AnyTlsSession.apply]
    cases happly : t.applyFrame md5 command id data (random t.packet) with
    | ok u => exact hlive.applied h.sound hhealthy ht (applied_of_applyFrame md5 happly)
    | error e => exact hlive.refused ht

/-! ## Streams -/

/-- A session that carries a stream. -/
structure Good (s : AnyTlsSession) : Prop where
  held : Held s
  live : Live s

theorem Good.flush (h : Good s) (turns : List Behaviour) :
    Good (s.pollFlushWire turns).2.1 :=
  ⟨h.held.flush turns, h.live.flush turns⟩

/-- The buffer is emptied when all of it is read. -/
theorem Good.clear (h : Good s) (hread : ¬ s.contentPos < s.content.length) :
    Good { s with content := [], contentPos := 0 } := by
  refine ⟨⟨h.held.sound.congr rfl, h.held.intact⟩, h.live.congr rfl (prefix_refl _) ?_ fun hs => hs⟩
  rw [drop_eq_nil_of_le (not_lt.mp hread)]
  rfl

/-- The reader gets the next bytes of its stream. -/
theorem Good.deliver (h : Good s) (n : Nat) :
    let bytes := (s.content.drop s.contentPos).take n
    Good { s.note (.delivered bytes) with contentPos := s.contentPos + bytes.length } := by
  intro bytes
  have hsplit : bytes ++ s.content.drop (s.contentPos + bytes.length) =
      s.content.drop s.contentPos := by
    rw [← drop_drop, length_take]
    show take n _ ++ _ = _
    nth_rewrite 1 [take_eq_take_min]
    exact take_append_drop _ _
  have hview : viewOf (s.log ++ [.delivered bytes]) =
      ⟨(viewOf s.log).id, (viewOf s.log).payload, (viewOf s.log).delivered ++ bytes⟩ := by
    rw [viewOf_snoc]
    show StreamView.mk _ (_ ++ []) _ = _
    rw [append_nil]
    rfl
  have hallowed : Allowed s.log (.delivered bytes) := by
    refine ⟨h.live.opened, List.IsPrefix.trans ?_ h.live.buffered⟩
    rw [← hsplit, ← append_assoc]
    exact prefix_append _ _
  refine ⟨⟨?_, ?_⟩, ?_, ?_, ?_⟩
  · exact (h.held.sound.note hallowed nofun rfl rfl rfl).congr rfl
  · intro hfailed
    rcases mem_append.mp hfailed with hfailed | hfailed
    · exact h.held.intact hfailed
    · cases mem_singleton.mp hfailed
  · exact h.live.opened.imp fun _ hk => mem_append_left _ hk
  · show (viewOf (s.log ++ [.delivered bytes])).delivered ++
      s.content.drop (s.contentPos + bytes.length) <+: (viewOf (s.log ++ [.delivered bytes])).payload
    rw [hview, append_assoc, hsplit]
    exact h.live.buffered
  · intro hs
    show (viewOf (s.log ++ [.delivered bytes])).delivered ++
      s.content.drop (s.contentPos + bytes.length) = (viewOf (s.log ++ [.delivered bytes])).payload
    rw [hview, append_assoc, hsplit]
    exact h.live.all hs

/-- What a turn of the loops keeps, after a flush that does not fail. -/
theorem Good.pollApply (h : Good s) {answer : AnyTlsPoll Unit}
    (hflush : s.pollFlushWire turns = (answer, t, rest)) (hanswer : ∀ e, answer ≠ some (.error e)) :
    Good (t.pollApply md5 random rest).2.1 := by
  have ht := h.flush turns
  rw [hflush] at ht
  exact ⟨ht.held.pollApply md5 random rest,
    ht.live.pollApply md5 random ht.held (healthy_after_flush hflush hanswer) rest⟩

theorem Good.readyLoop (count : Nat) (h : Good s) (turns : List Behaviour) :
    Good (readyLoop md5 random count s turns).2.1 := by
  induction count generalizing s turns with
  | zero => exact h
  | succ count ih =>
    have hs := h.flush turns
    rw [AnyTlsSession.readyLoop]
    split
    · rename_i e t rest hflush
      rwa [hflush] at hs
    rename_i answer t rest hanswer hflush
    rw [hflush] at hs
    have happly := h.pollApply md5 random hflush fun e he => hanswer e (by rw [he])
    split
    · exact hs
    split
    · rename_i u rest' happlied
      rw [happlied] at happly
      split
      · exact ⟨happly.held.breakDown, happly.live.breakDown⟩
      · exact ih happly rest'
    · exact happly

theorem Good.pollOpenReady (h : Good s) (turns : List Behaviour) :
    Good (s.pollOpenReady md5 random turns).2.1 := by
  rw [AnyTlsSession.pollOpenReady]
  split
  · exact h
  · exact h.readyLoop md5 random 16 turns

theorem Good.readLoop (room count : Nat) (h : Good s) (turns : List Behaviour) :
    Good (readLoop md5 random room count s turns).2 := by
  induction count generalizing s turns with
  | zero => exact h
  | succ count ih =>
    rw [AnyTlsSession.readLoop]
    split
    · exact h.deliver _
    rename_i hread
    have hclear := h.clear hread
    have hflushed := hclear.flush turns
    dsimp only
    split
    · exact hclear
    split
    · rename_i e t rest hflush
      rwa [hflush] at hflushed
    rename_i answer t rest hanswer hflush
    have happly := hclear.pollApply md5 random hflush fun e he => hanswer e (by rw [he])
    split
    · rename_i u rest' happlied
      rwa [happlied] at happly
    · rename_i e u rest' happlied
      rwa [happlied] at happly
    · rename_i u rest' happlied
      rw [happlied] at happly
      exact ih happly rest'

theorem Good.pollRead (h : Good s) (room : Nat) (turns : List Behaviour) :
    Good (s.pollRead md5 random room turns).2 := by
  rw [AnyTlsSession.pollRead]
  split
  · exact h
  · exact h.readLoop md5 random room 16 turns

/-- A frame with the number of the stream. -/
def ownFrame {s : AnyTlsSession} (h : Sound s) (command : UInt8) (data : Bytes)
    (hdata : data.length < 65536) : AnyTlsFrame :=
  ⟨command, s.id, data, Nat.lt_trans h.id_lt h.next_lt, hdata⟩

theorem encodeAll_ownFrame (h : Sound s) (command : UInt8) (hdata : data.length < 65536) :
    AnyTlsFrame.encodeAll [ownFrame h command data hdata] = frame [] command s.id data := by
  rw [AnyTlsFrame.encodeAll, flatMap_singleton]
  rfl

/-- A frame of the stream is queued. -/
theorem Held.queueFrame (h : Held s) (command : UInt8) (hdata : data.length < 65536)
    (random : Nat → Nat) :
    Held (s.queue (frame [] command s.id data) random) := by
  rw [← encodeAll_ownFrame h.sound command hdata]
  refine h.queue (fun f hf _ => ?_) random
  rw [mem_singleton.mp hf]
  rfl

theorem Good.pollWrite (h : Good s) (data : Bytes) (turns : List Behaviour) :
    Good (s.pollWrite random data turns).2 := by
  have hflushed := h.flush turns
  rw [AnyTlsSession.pollWrite]
  split
  · exact h
  split
  · rename_i t rest hflush
    rwa [hflush] at hflushed
  · rename_i e t rest hflush
    rwa [hflush] at hflushed
  rename_i t rest hflush
  rw [hflush] at hflushed
  dsimp only
  split
  · exact hflushed
  · refine ⟨hflushed.held.queueFrame 2 ?_ _, hflushed.live.queue _ _⟩
    rw [length_take, maxPayload]
    omega

theorem Held.queueFin (h : Held s) : Held (s.queueFin random) := by
  have hqueued : Held (s.queue (frame [] 3 s.id []) (random s.packet)) :=
    h.queueFrame 3 (by decide) (random s.packet)
  exact ⟨hqueued.sound.congr rfl, hqueued.intact⟩

theorem Live.queueFin (h : Live s) : Live (s.queueFin random) :=
  (h.queue _ _).congr rfl (prefix_refl _) rfl fun hs => hs

theorem Good.pollShutdown (h : Good s) (turns : List Behaviour) :
    Good (s.pollShutdown random turns).2 := by
  rw [AnyTlsSession.pollShutdown]
  dsimp only
  split
  · exact Good.flush ⟨h.held.queueFin random, h.live.queueFin random⟩ turns
  · exact h.flush turns

theorem Held.pollFinalizer (h : Held s) (turns : List Behaviour) :
    Held (s.pollFinalizer random turns).2 := by
  rw [AnyTlsSession.pollFinalizer]
  dsimp only
  split
  · exact (h.queueFin random).flush turns
  · exact h.flush turns

/-- The reaper keeps a session only as long as nothing failed. -/
theorem Held.reapLoop (count : Nat) (h : Held s) (turns : List Behaviour) :
    Sound (reapLoop md5 random count s turns).2 ∧
      ((reapLoop md5 random count s turns).1 →
        Held (reapLoop md5 random count s turns).2) := by
  induction count generalizing s turns with
  | zero => exact ⟨h.sound, fun _ => h⟩
  | succ count ih =>
    have hflushed := h.flush turns
    rw [AnyTlsSession.reapLoop]
    split
    · rename_i e t rest hflush
      rw [hflush] at hflushed
      exact ⟨hflushed.sound, nofun⟩
    rename_i answer t rest hanswer hflush
    rw [hflush] at hflushed
    obtain ⟨hsound, raw, header, body, hspec⟩ := pollFrame_spec hflushed.sound rest
    split
    · rename_i u rest' hframe
      rw [hframe] at hsound hspec
      refine ⟨hsound, fun _ => ⟨hsound, ?_⟩⟩
      rw [show u = _ from hspec]
      exact hflushed.intact
    · rename_i e u rest' hframe
      rw [hframe] at hsound
      exact ⟨hsound, nofun⟩
    · rename_i command id data u rest' hframe
      obtain ⟨hu, hid, -⟩ := hflushed.received hframe
      rw [AnyTlsSession.apply]
      cases happly : u.applyFrame md5 command id data (random u.packet) with
      | ok v =>
        have hv := hu.applyFrame md5 hid happly
        have hclear : Held { v with content := [], contentPos := 0 } :=
          ⟨hv.sound.congr rfl, hv.intact⟩
        exact ih hclear rest'
      | error e => exact ⟨hu.sound.failed, nofun⟩

/-! ## Opening a stream -/

theorem length_settings_lt (padding : Padding) : (settings padding).length < 65536 := by
  have hmd5 := padding.length_md5Text
  have hbytes : (settings padding).length ≤ 4 * (22 + 5 + 13 + padding.md5Text.length + 1) := by
    rw [settings, length_utf8Encode]
    refine (len_le _).trans (le_of_eq ?_)
    rw [length_append, length_append, length_append, length_append]
    rfl
  omega

/-- The next stream starts with nothing for its reader. -/
theorem Held.renumber (h : Held s) (hnext : s.nextId ≠ 2 ^ 32 - 1) :
    Good s.renumber := by
  have hlt := h.sound.next_lt
  have hview : viewOf (s.log ++ [.opened s.nextId]) = ⟨s.nextId, [], []⟩ := by
    rw [viewOf_snoc]
    rfl
  refine ⟨⟨⟨?_, ?_, ?_, ?_, ?_, ?_, ?_⟩, ?_⟩, ?_, ?_, ?_⟩
  · exact h.sound.lawful.snoc h.sound.opened
  · show (viewOf (s.log ++ [.opened s.nextId])).id = s.nextId
    rw [hview]
  · intro k hk
    rcases mem_append.mp hk with hk | hk
    · exact Nat.lt_succ_of_lt (h.sound.opened k hk)
    · cases mem_singleton.mp hk
      exact Nat.lt_succ_self _
  · exact Nat.lt_succ_self _
  · show s.nextId + 1 < 4294967296
    omega
  · refine ⟨?_, h.sound.decoded.part⟩
    show s.raw.taken = (s.log ++ [SessionEvent.opened _]).flatMap _ ++ s.header ++ s.body
    rw [flatMap_append, flatMap_singleton, h.sound.decoded.taken]
    exact congrArg (· ++ s.header ++ s.body) (append_nil _).symm
  · intro hs
    obtain ⟨padded, hpadded, hwired⟩ := h.sound.framed hs
    refine ⟨padded, ?_, hwired.pos, hwired.all⟩
    show Padded (AnyTlsFrame.parse ((s.log ++ [SessionEvent.opened _]).flatMap _)).1 _
    rw [flatMap_append, flatMap_singleton]
    show Padded (AnyTlsFrame.parse (s.log.flatMap _ ++ [])).1 _
    rwa [append_nil]
  · intro hfailed
    rcases mem_append.mp hfailed with hfailed | hfailed
    · exact h.intact hfailed
    · cases mem_singleton.mp hfailed
  · exact ⟨s.nextId, mem_append_right _ mem_cons_self⟩
  · show (viewOf (s.log ++ [.opened s.nextId])).delivered ++ [] <+: (viewOf (s.log ++ _)).payload
    rw [hview]
    exact prefix_refl _
  · intro _
    show (viewOf (s.log ++ [.opened s.nextId])).delivered ++ [] = (viewOf (s.log ++ _)).payload
    rw [hview]
    rfl

variable {address : Bytes}

/-- A request is whole frames, and its data has the number of the stream. -/
theorem exists_request (h : Sound s) (haddress : address.length < 65536) :
    ∃ frames, s.request address = AnyTlsFrame.encodeAll frames ∧
      ∀ f ∈ frames, f.command = 2 → f.id = s.id := by
  have hframe (out : Bytes) (command : UInt8) (id : Nat) (data : Bytes) :
      frame out command id data = out ++ frame [] command id data := rfl
  have hown : ∀ out, frame (frame out 1 s.id []) 2 s.id address = out ++ AnyTlsFrame.encodeAll
      [ownFrame h 1 [] (by decide), ownFrame h 2 address haddress] := by
    intro out
    rw [hframe (frame out 1 s.id []), hframe out, AnyTlsFrame.encodeAll, flatMap_cons,
      flatMap_singleton, append_assoc]
    rfl
  rw [request]
  by_cases hfirst : s.id = 1
  · refine ⟨⟨4, 0, settings s.padding, by decide, length_settings_lt s.padding⟩ ::
      [ownFrame h 1 [] (by decide), ownFrame h 2 address haddress], ?_, ?_⟩
    · rw [if_pos hfirst, hown, AnyTlsFrame.encodeAll, AnyTlsFrame.encodeAll, flatMap_cons]
      rfl
    · intro f hf hcommand
      rcases mem_cons.mp hf with rfl | hf
      · cases hcommand
      rcases mem_cons.mp hf with rfl | hf
      · rfl
      · rw [mem_singleton.mp hf]
        rfl
  · refine ⟨[ownFrame h 1 [] (by decide), ownFrame h 2 address haddress], ?_, ?_⟩
    · rw [if_neg hfirst, hown, nil_append]
    · intro f hf _
      rcases mem_cons.mp hf with rfl | hf
      · rfl
      · rw [mem_singleton.mp hf]
        rfl

theorem Held.openStream (h : Held s) (hnext : s.nextId ≠ 2 ^ 32 - 1)
    (haddress : address.length < 65536) : Good (s.openStream random address) := by
  have hgood := h.renumber hnext
  obtain ⟨frames, hframes, hown⟩ := exists_request hgood.held.sound haddress
  refine ⟨?_, hgood.live.queue _ _⟩
  rw [AnyTlsSession.openStream, hframes]
  exact hgood.held.queue hown _

end Apply

end AnyTlsSession

end Sockrocket
