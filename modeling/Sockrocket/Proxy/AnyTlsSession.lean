import Sockrocket.Proxy.AnyTlsPadding
import Sockrocket.Lib.AsyncIo
import Sockrocket.Lib.Incremental

/-!
# Frames and writing of an AnyTLS session

The part of `proxy/anytls/mod.rs` that writes. A session queues frames; the padding policy cuts what
is queued into records, and fills records up with frames of command 0. The wire then takes the
records, a part at a time.

The TLS connection is reliable: `taken` and `incoming` are the bytes the server sends, of which
those in `taken` have been read, and `sent` is what the connection has taken after the
authentication. The policy is shared by the sessions of a client, so that it can change between any
two calls.
-/

namespace Sockrocket

open Rust Dns AsyncIo
open List hiding Vector

/-! ## Frames -/

/-- `frame`: a frame after the bytes that are there. -/
def frame (out : Bytes) (command : UInt8) (id : Nat) (data : Bytes) : Bytes :=
  out ++ command :: (be32 id ++ be16 data.length ++ data)

/-- A frame whose number and length fit their fields. -/
@[ext]
structure AnyTlsFrame where
  command : UInt8
  id : Nat
  data : Bytes
  id_lt : id < 4294967296
  length_lt : data.length < 65536
deriving DecidableEq, Repr

namespace AnyTlsFrame

/-- The bytes of a frame. -/
def encode (f : AnyTlsFrame) : Bytes :=
  frame [] f.command f.id f.data

/-- The first frame of a stream of bytes, once it is there as a whole. -/
def take (input : Bytes) : Option (AnyTlsFrame × Bytes) :=
  if 7 + u16At input 5 ≤ input.length then
    some (⟨input.getD 0 0, u32At input 1, (input.drop 7).take (u16At input 5), u32At_lt input 1,
      Nat.lt_of_le_of_lt (List.length_take_le _ _) (u16At_lt input 5)⟩,
      input.drop (7 + u16At input 5))
  else none

/-- Take a frame after others. -/
def step (frames : List AnyTlsFrame) (input : Bytes) : Option (List AnyTlsFrame × Bytes) :=
  (take input).map fun next => (frames ++ [next.1], next.2)

/-- The whole frames of a stream of bytes, and the bytes after them. -/
def parse (input : Bytes) : List AnyTlsFrame × Bytes :=
  Incremental.drain step [] input

/-- The bytes of frames in a row. -/
def encodeAll (frames : List AnyTlsFrame) : Bytes :=
  frames.flatMap encode

theorem encodeAll_append (frames more : List AnyTlsFrame) :
    encodeAll (frames ++ more) = encodeAll frames ++ encodeAll more :=
  flatMap_append

theorem length_encode (f : AnyTlsFrame) : f.encode.length = 7 + f.data.length := by
  rw [encode, frame, nil_append, length_cons, length_append]
  exact Nat.add_right_comm 6 f.data.length 1

theorem take_encode (f : AnyTlsFrame) (rest : Bytes) : take (f.encode ++ rest) = some (f, rest) := by
  have hlength : u16At (f.encode ++ rest) 5 = f.data.length := u16At_be16 f.length_lt
  have hid : u32At (f.encode ++ rest) 1 = f.id := u32At_be32 f.id_lt
  have hdata : ((f.encode ++ rest).drop 7).take f.data.length = f.data := by
    exact take_left
  have hrest : (f.encode ++ rest).drop (7 + f.data.length) = rest := by
    rw [← f.length_encode, drop_left]
  rw [take, if_pos (by rw [hlength, length_append, f.length_encode]; omega)]
  refine congrArg some (Prod.ext (AnyTlsFrame.ext rfl hid ?_) ?_)
  · simp only [hlength, hdata]
  · simp only [hlength, hrest]

/-- A whole frame does not depend on what follows it. -/
theorem stable_step : Incremental.Stable step where
  shrinks {frames frames' input rest} h := by
    obtain ⟨next, hnext, heq⟩ := Option.map_eq_some_iff.mp h
    obtain ⟨-, rfl⟩ := Prod.mk.inj heq
    rw [take] at hnext
    split at hnext
    · rename_i hfits
      obtain rfl := Option.some.inj hnext
      rw [length_drop]
      omega
    · cases hnext
  append {frames frames' input rest} h more := by
    obtain ⟨next, hnext, heq⟩ := Option.map_eq_some_iff.mp h
    obtain ⟨rfl, rfl⟩ := Prod.mk.inj heq
    rw [take] at hnext
    split at hnext
    · rename_i hfits
      obtain rfl := Option.some.inj hnext
      have hlength : u16At (input ++ more) 5 = u16At input 5 := u16At_append (by omega) more
      have hid : u32At (input ++ more) 1 = u32At input 1 := by
        rw [u32At, u32At, u16At_append (by omega), u16At_append (by omega)]
      rw [step, take, if_pos (by rw [hlength, length_append]; omega)]
      refine congrArg some (Prod.ext (congrArg (frames ++ [·]) (AnyTlsFrame.ext ?_ hid ?_)) ?_)
      · exact getD_append _ _ _ _ (by omega)
      · dsimp only
        rw [hlength, drop_append_of_le_length (by omega),
          take_append_of_le_length (by rw [length_drop]; omega)]
      · simp only [hlength, drop_append_of_le_length hfits]
    · cases hnext

/-- The bytes of frames are read as these frames. -/
theorem drain_encodeAll (before frames : List AnyTlsFrame) :
    Incremental.drain step before (encodeAll frames) = (before ++ frames, []) := by
  induction frames generalizing before with
  | nil => rw [append_nil]; rfl
  | cons f frames ih =>
    have hstep : step before (encodeAll (f :: frames)) =
        some (before ++ [f], encodeAll frames) := by
      rw [step, encodeAll, flatMap_cons, take_encode]
      rfl
    rw [stable_step.drain_of_some hstep, ih, append_assoc, singleton_append]

theorem parse_encodeAll (frames : List AnyTlsFrame) : parse (encodeAll frames) = (frames, []) :=
  drain_encodeAll [] frames

/-- The frames that are there already are the first of all of them. -/
theorem isPrefix_parse {sent unsent : Bytes} {frames : List AnyTlsFrame}
    (h : sent ++ unsent = encodeAll frames) : (parse sent).1 <+: frames := by
  have hall : Incremental.feed step (parse sent) unsent = (frames, []) := by
    rw [parse, ← stable_step.drain_append, h]
    exact parse_encodeAll frames
  have hgrows : (parse sent).1 <+: (Incremental.feed step (parse sent) unsent).1 := by
    refine Incremental.drain_invariant (fun {fs fs' input rest} hpre hnext => ?_)
      (prefix_refl _) _
    obtain ⟨next, -, heq⟩ := Option.map_eq_some_iff.mp hnext
    obtain ⟨rfl, -⟩ := Prod.mk.inj heq
    exact hpre.trans (prefix_append _ _)
  rwa [hall] at hgrows

end AnyTlsFrame

/-! ## Sessions -/

/-- The errors of a session. -/
inductive AnyTlsError where
  | io
  | unusable
  | writeZero
  | unexpectedEof
  | brokenPipe
  | earlyDataLimit
  | destinationRejected (message : Bytes)
  | sessionRejected (message : Bytes)
  | invalidPaddingUpdate
  | controlBacklog
  | invalidSettings
  | invalidVersion
  | unexpectedFrame
  | closedBeforeAck
deriving DecidableEq, Repr

/-- The answer to a poll, `none` for `Poll::Pending`. -/
abbrev AnyTlsPoll (β : Type) :=
  Option (Except AnyTlsError β)

/-- The TLS connection below a session. -/
structure AnyTlsRaw where
  taken : Bytes
  incoming : Bytes
  sent : Bytes
deriving DecidableEq, Repr

/-- What happened to a session, as others see it. `failed` is an error of the protocol, of the
connection or of a queue that is too long. -/
inductive SessionEvent where
  | opened (id : Nat)
  | queued (data : Bytes)
  | received (command : UInt8) (id : Nat) (data : Bytes)
  | delivered (bytes : Bytes)
  | failed
  | recycled
deriving DecidableEq, Repr

/-- `Session`. Of `header` and `body` only what is filled is kept, so that their lengths are
`header_pos` and `body_pos`. No function reads `log`, the history of the session. -/
structure AnyTlsSession where
  raw : AnyTlsRaw
  padding : Padding
  id : Nat
  nextId : Nat
  sequence : Nat
  packet : Nat
  idleSince : Nat
  wire : List Bytes
  wirePos : Nat
  header : Bytes
  body : Bytes
  content : Bytes
  contentPos : Nat
  acked : Bool
  serverSettings : Bool
  peerFinished : Bool
  localFinished : Bool
  healthy : Bool
  log : List SessionEvent
deriving DecidableEq, Repr

namespace AnyTlsSession

/-- The session of `Client::create_session`, when it is authenticated. -/
def create (padding : Padding) (incoming : Bytes) (sequence now : Nat) : AnyTlsSession where
  raw := ⟨[], incoming, []⟩
  padding := padding
  id := 0
  nextId := 1
  sequence := sequence
  packet := 1
  idleSince := now
  wire := []
  wirePos := 0
  header := []
  body := []
  content := []
  contentPos := 0
  acked := false
  serverSettings := false
  peerFinished := false
  localFinished := false
  healthy := true
  log := []

/-- Something happened. -/
def note (s : AnyTlsSession) (event : SessionEvent) : AnyTlsSession :=
  { s with log := s.log ++ [event] }

/-- The record for a size: the next bytes, filled up if the size leaves room for a frame. -/
def record (data : Bytes) (pos size : Nat) : Bytes :=
  let n := min size (data.length - pos)
  let bytes := (data.drop pos).take n
  if 7 ≤ size - n then frame bytes 0 0 (List.replicate (size - n - 7) 0) else bytes

/-- The loop of `queue` over the sizes, from a position in the data. -/
def queueLoop (data : Bytes) : List (Option Nat) → Nat → List Bytes → Nat × List Bytes
  | [], pos, wire => (pos, wire)
  | none :: sizes, pos, wire =>
    if pos = data.length then (pos, wire) else queueLoop data sizes pos wire
  | some size :: sizes, pos, wire =>
    let record := record data pos size
    queueLoop data sizes (pos + min size (data.length - pos))
      (if record.isEmpty then wire else wire ++ [record])

/-- The records that `queue` makes of the data, after those that are there. -/
def records (data : Bytes) (sizes : List (Option Nat)) (wire : List Bytes) : List Bytes :=
  let (pos, wire) := queueLoop data sizes 0 wire
  if pos < data.length then wire ++ [data.drop pos] else wire

/-- `Session::queue`, with the random numbers for the sizes. -/
def queue (s : AnyTlsSession) (data : Bytes) (random : Nat → Nat) : AnyTlsSession :=
  let wire := records data (s.padding.sizes s.packet random) s.wire
  let s := { s.note (.queued data) with packet := min (s.packet + 1) (2 ^ 32 - 1), wire }
  if 128 * 1024 < (wire.map List.length).sum then
    { s.note .failed with healthy := false, wire := [] }
  else s

/-- The connection does not work any more. -/
def breakDown (s : AnyTlsSession) : AnyTlsSession :=
  { s.note .failed with healthy := false }

/-- The connection takes bytes of the first record. -/
def send (s : AnyTlsSession) (bytes : Bytes) : AnyTlsSession :=
  { s with
    raw := { s.raw with sent := s.raw.sent ++ bytes }
    wirePos := s.wirePos + bytes.length }

/-- The loops of `poll_flush_wire`, over the answers of the connection; also those left over. -/
def flushLoop : List Behaviour → AnyTlsSession → AnyTlsPoll Unit × AnyTlsSession × List Behaviour
  | [], s => (if s.wire.isEmpty then some (.ok ()) else none, s, [])
  | turn :: turns, s =>
    match s.wire with
    | [] => (some (.ok ()), s, turn :: turns)
    | record :: wire =>
      if s.wirePos < record.length then
        match turn with
        | .pending => (none, s, turns)
        | .failed => (some (.error .io), s.breakDown, turns)
        | .ready size =>
          let n := min size (record.length - s.wirePos)
          if n = 0 then (some (.error .writeZero), s.breakDown, turns)
          else flushLoop turns (s.send ((record.drop s.wirePos).take n))
      else
        match turn with
        | .pending => (none, s, turns)
        | .failed => (some (.error .io), s.breakDown, turns)
        | .ready _ => flushLoop turns { s with wire, wirePos := 0 }

/-- `Session::poll_flush_wire`. -/
def pollFlushWire (s : AnyTlsSession) (turns : List Behaviour) :
    AnyTlsPoll Unit × AnyTlsSession × List Behaviour :=
  if !s.healthy then (some (.error .unusable), s, turns) else flushLoop turns s

/-! ## What is on the wire -/

/-- A frame that fills up a record of at most 16384 bytes. -/
def padFrame (gap : Nat) (h : gap + 7 ≤ 16384) : AnyTlsFrame :=
  ⟨0, 0, List.replicate gap 0, by decide, by rw [List.length_replicate]; omega⟩

/-- The second frames are the first, in order, with frames of padding in between. -/
inductive Padded : List AnyTlsFrame → List AnyTlsFrame → Prop where
  | nil : Padded [] []
  | queued (f : AnyTlsFrame) {frames padded : List AnyTlsFrame} (h : Padded frames padded) :
      Padded (f :: frames) (f :: padded)
  | padding (gap : Nat) (hgap : gap + 7 ≤ 16384) {frames padded : List AnyTlsFrame}
      (h : Padded frames padded) : Padded frames (padFrame gap hgap :: padded)

theorem Padded.append {frames padded frames' padded' : List AnyTlsFrame}
    (h : Padded frames padded) (h' : Padded frames' padded') :
    Padded (frames ++ frames') (padded ++ padded') := by
  induction h with
  | nil => exact h'
  | queued f h ih => exact .queued f ih
  | padding gap hgap h ih => exact .padding gap hgap ih

theorem Padded.refl (frames : List AnyTlsFrame) : Padded frames frames := by
  induction frames with
  | nil => exact .nil
  | cons f frames ih => exact .queued f ih

/-- The bytes on the wire that the connection has not taken. -/
def unsent (s : AnyTlsSession) : Bytes :=
  s.wire.flatten.drop s.wirePos

/-- A record is bytes of the data, and padding only after the last of them. -/
theorem record_eq (data : Bytes) (pos : Nat) {size : Nat} (hsize : size ≤ 16384) :
    ∃ pads, Padded [] pads ∧
      record data pos size = (data.drop pos).take (min size (data.length - pos)) ++
        AnyTlsFrame.encodeAll pads ∧
      (pads ≠ [] → data.length ≤ pos + min size (data.length - pos)) := by
  rw [record]
  split
  · rename_i hroom
    refine ⟨[padFrame (size - min size (data.length - pos) - 7) (by omega)],
      .padding _ _ .nil, ?_, fun _ => by omega⟩
    rw [AnyTlsFrame.encodeAll, flatMap_singleton, AnyTlsFrame.encode]
    rfl
  · exact ⟨[], .nil, (append_nil _).symm, fun h => absurd rfl h⟩

variable {sizes : List (Option Nat)} {wire : List Bytes}

/-- The loop puts the data on the wire up to its position, and padding only at the end of it. -/
theorem queueLoop_spec (data : Bytes)
    (hsizes : ∀ size, some size ∈ sizes → size ≤ 16384) {pos : Nat}
    {before : Bytes} {pads : List AnyTlsFrame} (hpads : Padded [] pads)
    (hpos : pos ≤ data.length) (hend : pads ≠ [] → pos = data.length)
    (hwire : wire.flatten = before ++ data.take pos ++ AnyTlsFrame.encodeAll pads) :
    ∃ pads, Padded [] pads ∧ (queueLoop data sizes pos wire).1 ≤ data.length ∧
      (pads ≠ [] → (queueLoop data sizes pos wire).1 = data.length) ∧
      (queueLoop data sizes pos wire).2.flatten =
        before ++ data.take (queueLoop data sizes pos wire).1 ++ AnyTlsFrame.encodeAll pads := by
  induction sizes generalizing pos wire pads with
  | nil => exact ⟨pads, hpads, hpos, hend, hwire⟩
  | cons size sizes ih =>
    have hrest : ∀ size, some size ∈ sizes → size ≤ 16384 :=
      fun size h => hsizes size (mem_cons_of_mem _ h)
    cases size with
    | none =>
      rw [queueLoop]
      split
      · exact ⟨pads, hpads, hpos, hend, hwire⟩
      · exact ih hrest hpads hpos hend hwire
    | some size =>
      obtain ⟨more, hmore, hrecord, hlast⟩ :=
        record_eq data pos (hsizes size mem_cons_self)
      rw [queueLoop]
      refine ih hrest (hpads.append hmore) (by omega) ?_ ?_
      · intro hne
        by_cases hnone : more = []
        · have := hend fun h => hne (by rw [h, hnone]; rfl)
          omega
        · have := hlast hnone
          omega
      · have hrecords : (if (record data pos size).isEmpty then wire
            else wire ++ [record data pos size]).flatten = wire.flatten ++ record data pos size := by
          split
          · rename_i hempty
            rw [isEmpty_iff.mp hempty, append_nil]
          · rw [flatten_append, flatten_singleton]
        rw [hrecords, hwire, hrecord, AnyTlsFrame.encodeAll_append]
        by_cases hnone : pads = []
        · subst hnone
          rw [take_add]
          simp [AnyTlsFrame.encodeAll]
        · -- behind padding there is no data left
          have hall := hend hnone
          subst hall
          simp

/-- What is queued goes on the wire whole, with padding behind it. -/
theorem records_flatten (data : Bytes)
    (hsizes : ∀ size, some size ∈ sizes → size ≤ 16384) (wire : List Bytes) :
    ∃ pads, Padded [] pads ∧
      (records data sizes wire).flatten = wire.flatten ++ data ++ AnyTlsFrame.encodeAll pads := by
  have hstart : wire.flatten = wire.flatten ++ data.take 0 ++ AnyTlsFrame.encodeAll [] := by
    rw [take_zero, append_nil]
    exact (append_nil _).symm
  obtain ⟨pads, hpads, hle, hend, hwire⟩ :=
    queueLoop_spec data hsizes .nil (Nat.zero_le _) (fun h => absurd rfl h) hstart
  refine ⟨pads, hpads, ?_⟩
  rw [records]
  cases hloop : queueLoop data sizes 0 wire with
  | mk pos last =>
    rw [hloop] at hle hend hwire
    dsimp only at hle hend hwire ⊢
    split
    · -- data is left over, so that there is no padding yet
      have hnone : pads = [] := by
        by_contra hne
        have := hend hne
        omega
      subst hnone
      rw [flatten_append, flatten_singleton, hwire]
      simp [AnyTlsFrame.encodeAll]
    · rename_i hge
      rw [hwire, take_of_length_le (not_lt.mp hge)]

theorem isPrefix_queueLoop (data : Bytes) (sizes : List (Option Nat)) (pos : Nat)
    (wire : List Bytes) : wire <+: (queueLoop data sizes pos wire).2 := by
  induction sizes generalizing pos wire with
  | nil => exact prefix_refl wire
  | cons size sizes ih =>
    cases size with
    | none =>
      rw [queueLoop]
      split
      · exact prefix_refl wire
      · exact ih pos wire
    | some size =>
      rw [queueLoop]
      refine List.IsPrefix.trans ?_ (ih _ _)
      split
      · exact prefix_refl wire
      · exact prefix_append _ _

theorem isPrefix_records (data : Bytes) (sizes : List (Option Nat)) (wire : List Bytes) :
    wire <+: records data sizes wire := by
  rw [records]
  split
  rename_i pos last hloop
  have hlast : wire <+: last := by
    have h := isPrefix_queueLoop data sizes 0 wire
    rwa [hloop] at h
  split
  · exact hlast.trans (prefix_append _ _)
  · exact hlast

/-! ## What the connection takes -/

/-- These bytes are sent or on the wire, in order. What is sent of a record is sent of the first. -/
structure Wired (s : AnyTlsSession) (bytes : Bytes) : Prop where
  pos : s.wirePos ≤ (s.wire.headD []).length
  all : s.raw.sent ++ s.unsent = bytes

variable {s : AnyTlsSession}

/-- What `queue` does as long as the queue is not too long. -/
theorem queue_of_healthy {data : Bytes} {random : Nat → Nat}
    (h : (s.queue data random).healthy) :
    s.healthy ∧ s.queue data random =
      { s.note (.queued data) with
        packet := min (s.packet + 1) (2 ^ 32 - 1)
        wire := records data (s.padding.sizes s.packet random) s.wire } := by
  rw [queue] at h ⊢
  split at h
  · cases h
  · rename_i hshort
    exact ⟨h, if_neg hshort⟩

variable {bytes : Bytes}

/-- What is queued comes behind what is there, and then padding. -/
theorem Wired.queue (h : Wired s bytes) (data : Bytes) (random : Nat → Nat)
    (hhealthy : (s.queue data random).healthy) :
    ∃ pads, Padded [] pads ∧
      Wired (s.queue data random) (bytes ++ data ++ AnyTlsFrame.encodeAll pads) := by
  obtain ⟨hpos, hall⟩ := h
  have hsizes : ∀ size, some size ∈ s.padding.sizes s.packet random → size ≤ 16384 :=
    fun size => Padding.size_le
  obtain ⟨pads, hpads, hflat⟩ := records_flatten data hsizes s.wire
  obtain ⟨rest, hrest⟩ := isPrefix_records data (s.padding.sizes s.packet random) s.wire
  have hfirst : s.wirePos ≤ s.wire.flatten.length ∧
      s.wirePos ≤ ((records data (s.padding.sizes s.packet random) s.wire).headD []).length := by
    rw [← hrest]
    cases hwire : s.wire with
    | nil =>
      rw [hwire] at hpos
      have hzero : s.wirePos = 0 := Nat.le_zero.mp hpos
      exact ⟨by omega, by omega⟩
    | cons record wire =>
      rw [hwire] at hpos
      refine ⟨?_, hpos⟩
      rw [flatten_cons, length_append]
      exact Nat.le_add_right_of_le hpos
  rw [(queue_of_healthy hhealthy).2]
  refine ⟨pads, hpads, hfirst.2, ?_⟩
  show s.raw.sent ++ (records _ _ s.wire).flatten.drop s.wirePos = _
  rw [hflat, append_assoc, drop_append_of_le_length hfirst.1, ← append_assoc]
  show s.raw.sent ++ s.unsent ++ _ = _
  rw [hall, append_assoc]

variable {record : Bytes}

/-- The connection takes a part of the first record. -/
theorem Wired.send (h : Wired s bytes)
    (hwire : s.wire = record :: wire) (n : Nat) :
    Wired (s.send ((record.drop s.wirePos).take n)) bytes := by
  obtain ⟨hpos, rfl⟩ := h
  have hle : s.wirePos ≤ record.length := by rwa [hwire] at hpos
  constructor
  · show s.wirePos + _ ≤ (s.wire.headD []).length
    rw [hwire, headD_cons, length_take, length_drop]
    omega
  · show s.raw.sent ++ _ ++ s.wire.flatten.drop (s.wirePos + _) = s.raw.sent ++ s.wire.flatten.drop _
    rw [hwire, flatten_cons, append_assoc, ← drop_drop, drop_append_of_le_length hle]
    refine congrArg (s.raw.sent ++ ·) ?_
    rw [drop_append_of_le_length (length_take_le' _ _), ← append_assoc]
    refine congrArg (· ++ wire.flatten) ?_
    rw [length_take]
    nth_rewrite 1 [take_eq_take_min]
    exact take_append_drop _ _

/-- A record that is sent goes off the wire. -/
theorem Wired.pop (h : Wired s bytes)
    (hwire : s.wire = record :: wire) (hsent : ¬ s.wirePos < record.length) :
    Wired { s with wire, wirePos := 0 } bytes := by
  obtain ⟨hpos, rfl⟩ := h
  have hle : s.wirePos ≤ record.length := by rwa [hwire] at hpos
  have hall : s.wirePos = record.length := by omega
  refine ⟨Nat.zero_le _, ?_⟩
  rw [unsent, unsent, hwire, hall, flatten_cons, drop_left, drop_zero]

/-- A flush sends parts of the first record, takes it off the wire and may break the session, and
nothing else. -/
theorem flushLoop_keeps {P : AnyTlsSession → Prop}
    (hsend : ∀ s record wire n, s.wire = record :: wire → P s →
      P (s.send ((record.drop s.wirePos).take n)))
    (hpop : ∀ s record wire, s.wire = record :: wire → ¬ s.wirePos < record.length → P s →
      P { s with wire, wirePos := 0 })
    (hbreak : ∀ s, P s → P s.breakDown) (turns : List Behaviour) (h : P s) :
    P (flushLoop turns s).2.1 := by
  fun_induction flushLoop turns s with
  | case1 s | case2 turn turns s hwire | case3 turns s record wire hwire hlt => exact h
  | case4 turns s record wire hwire hlt
  | case5 turns s record wire hwire hlt size n hn => exact hbreak s h
  | case6 turns s record wire hwire hlt size n hn ih => exact ih (hsend s record wire n hwire h)
  | case7 turns s record wire hwire hlt => exact h
  | case8 turns s record wire hwire hlt => exact hbreak s h
  | case9 turns s record wire hwire hlt size ih => exact ih (hpop s record wire hwire hlt h)

/-- A flush that is done leaves nothing on the wire, and only one that fails breaks the session. -/
theorem flushLoop_answer (turns : List Behaviour) (s : AnyTlsSession) :
    match (flushLoop turns s).1 with
    | none => (flushLoop turns s).2.1.healthy = s.healthy
    | some (.ok ()) =>
      (flushLoop turns s).2.1.healthy = s.healthy ∧ (flushLoop turns s).2.1.wire = []
    | some (.error _) => (flushLoop turns s).2.1.healthy = false := by
  fun_induction flushLoop turns s with
  | case1 s =>
    cases hempty : s.wire.isEmpty with
    | true => exact ⟨rfl, isEmpty_iff.mp hempty⟩
    | false => rfl
  | case2 turn turns s hwire => exact ⟨rfl, hwire⟩
  | case3 turns s record wire hwire hlt | case4 turns s record wire hwire hlt
  | case5 turns s record wire hwire hlt size n hn => rfl
  | case6 turns s record wire hwire hlt size n hn ih => exact ih
  | case7 turns s record wire hwire hlt | case8 turns s record wire hwire hlt => rfl
  | case9 turns s record wire hwire hlt size ih => exact ih

theorem Wired.flush (h : Wired s bytes) (turns : List Behaviour) :
    Wired (s.pollFlushWire turns).2.1 bytes := by
  rw [pollFlushWire]
  split
  · exact h
  · exact flushLoop_keeps (P := (Wired · bytes)) (fun s record wire n hwire h => h.send hwire n)
      (fun s record wire hwire hsent h => h.pop hwire hsent) (fun s h => ⟨h.pos, h.all⟩) turns h

/-- A session that is broken stays so. -/
theorem healthy_of_flush {turns : List Behaviour} (h : (s.pollFlushWire turns).2.1.healthy) :
    s.healthy := by
  rw [pollFlushWire] at h
  split at h
  · exact h
  have hkeeps := flushLoop_keeps (P := fun t => t.healthy → s.healthy)
    (fun t record wire n hwire ht => ht) (fun t record wire hwire hsent ht => ht)
    nofun turns fun hs => hs
  exact hkeeps h

/-- When a flush is done, the connection has taken everything. -/
theorem wire_of_flush {t : AnyTlsSession} {turns rest : List Behaviour}
    (h : s.pollFlushWire turns = (some (.ok ()), t, rest)) : t.wire = [] := by
  rw [pollFlushWire] at h
  split at h
  · cases h
  · have hanswer := flushLoop_answer turns s
    rw [h] at hanswer
    exact hanswer.2

/-! ## Transparency -/

/-- What can happen to the writing half of a session: whole frames are queued, the server replaces
the policy, and the wire is flushed. -/
inductive WireEvent where
  | queue (frames : List AnyTlsFrame) (random : Nat → Nat)
  | policy (raw : Bytes)
  | flush (turns : List Behaviour)

/-- The frames that were queued. -/
def queuedFrames (events : List WireEvent) : List AnyTlsFrame :=
  events.flatMap fun
    | .queue frames _ => frames
    | _ => []

section Transparency

variable (md5 : Bytes → Vector UInt8 16)

/-- One of these events. -/
def wireStep (s : AnyTlsSession) : WireEvent → AnyTlsSession
  | .queue frames random => s.queue (AnyTlsFrame.encodeAll frames) random
  | .policy raw =>
    match Padding.parse md5 raw with
    | .ok padding => { s with padding }
    | .error _ => s
  | .flush turns => (s.pollFlushWire turns).2.1

/-- The bytes of the session are these frames with padding in between. -/
def Framed (s : AnyTlsSession) (frames : List AnyTlsFrame) : Prop :=
  ∃ padded, Padded frames padded ∧ Wired s (AnyTlsFrame.encodeAll padded)

variable {frames : List AnyTlsFrame}

theorem Framed.queue {s : AnyTlsSession} (h : Framed s frames) (more : List AnyTlsFrame)
    (random : Nat → Nat) (hhealthy : (s.queue (AnyTlsFrame.encodeAll more) random).healthy) :
    Framed (s.queue (AnyTlsFrame.encodeAll more) random) (frames ++ more) := by
  obtain ⟨padded, hpadded, hwired⟩ := h
  obtain ⟨pads, hpads, hqueued⟩ := hwired.queue (AnyTlsFrame.encodeAll more) random hhealthy
  have hmore : Padded more (more ++ pads) := by
    have hall := (Padded.refl more).append hpads
    rwa [append_nil] at hall
  refine ⟨padded ++ (more ++ pads), hpadded.append hmore, ?_⟩
  rwa [AnyTlsFrame.encodeAll_append, AnyTlsFrame.encodeAll_append, ← append_assoc]

theorem Framed.flush {s : AnyTlsSession} (h : Framed s frames) (turns : List Behaviour) :
    Framed (s.pollFlushWire turns).2.1 frames := by
  obtain ⟨padded, hpadded, hwired⟩ := h
  exact ⟨padded, hpadded, hwired.flush turns⟩

theorem framed_step {s : AnyTlsSession} (h : s.healthy → Framed s frames) (event : WireEvent)
    (hhealthy : (s.wireStep md5 event).healthy) :
    Framed (s.wireStep md5 event) (frames ++ queuedFrames [event]) := by
  cases event with
  | queue more random =>
    have hframes : queuedFrames [.queue more random] = more := append_nil more
    rw [hframes]
    exact (h (queue_of_healthy hhealthy).1).queue more random hhealthy
  | policy raw =>
    rw [show queuedFrames [.policy raw] = [] from rfl, append_nil]
    rw [wireStep] at hhealthy ⊢
    split at hhealthy
    · obtain ⟨padded, hpadded, hwired⟩ := h hhealthy
      exact ⟨padded, hpadded, hwired.pos, hwired.all⟩
    · exact h hhealthy
  | flush turns =>
    rw [show queuedFrames [.flush turns] = [] from rfl, append_nil]
    exact (h (healthy_of_flush hhealthy)).flush turns

theorem framed_steps {s : AnyTlsSession} (h : s.healthy → Framed s frames)
    (events : List WireEvent) (hhealthy : (events.foldl (wireStep md5) s).healthy) :
    Framed (events.foldl (wireStep md5) s) (frames ++ queuedFrames events) := by
  induction events generalizing s frames with
  | nil =>
    rw [show queuedFrames [] = [] from rfl, append_nil]
    exact h hhealthy
  | cons event events ih =>
    have hframes : queuedFrames (event :: events) = queuedFrames [event] ++ queuedFrames events := by
      rw [queuedFrames, flatMap_cons, queuedFrames, flatMap_singleton]
      rfl
    rw [hframes, ← append_assoc]
    exact ih (framed_step md5 h event) hhealthy

/-- Padding is transparent. Whatever is queued, under any policies, random sizes and answers of the
connection: as long as the session is healthy, what it has sent and what it has not sent yet are the
queued frames in order with frames of padding in between. The frames that the other side reads are
the first of them, and all of them once a flush is done. -/
theorem anytls_padding_transparent (padding : Padding) (incoming : Bytes) (sequence now : Nat)
    (events : List WireEvent)
    (hhealthy : (events.foldl (wireStep md5)
      (create padding incoming sequence now)).healthy = true) :
    let s := events.foldl (wireStep md5) (create padding incoming sequence now)
    ∃ padded, Padded (queuedFrames events) padded ∧
      s.raw.sent ++ s.unsent = AnyTlsFrame.encodeAll padded ∧
      (AnyTlsFrame.parse s.raw.sent).1 <+: padded ∧
      ∀ turns t rest, s.pollFlushWire turns = (some (.ok ()), t, rest) →
        AnyTlsFrame.parse t.raw.sent = (padded, []) := by
  intro s
  have hstart : Framed (create padding incoming sequence now) [] :=
    ⟨[], .nil, le_rfl, rfl⟩
  obtain ⟨padded, hpadded, hwired⟩ := framed_steps md5 (fun _ => hstart) events hhealthy
  refine ⟨padded, hpadded, hwired.all, AnyTlsFrame.isPrefix_parse hwired.all, ?_⟩
  intro turns t rest hflush
  have hdone := hwired.flush turns
  rw [show _ = s.pollFlushWire turns from rfl, hflush] at hdone
  have hsent := hdone.all
  rw [unsent, wire_of_flush hflush, flatten_nil, drop_nil, append_nil] at hsent
  rw [hsent, AnyTlsFrame.parse_encodeAll]

end Transparency

/-- A request under the built-in policy, another policy, and data under that one; the connection
takes five bytes. -/
theorem anytls_padding_transparent_request :
    let md5 := fun _ => Vector.replicate 16 0
    let request : List AnyTlsFrame := [⟨1, 1, [], by decide, by decide⟩, ⟨2, 1, [7], by decide, by decide⟩]
    let events : List WireEvent := [.queue request fun _ => 0,
      .policy (utf8Encode "stop=3\n2=1-2,c,20-20".toList),
      .queue [⟨2, 1, [8], by decide, by decide⟩] fun _ => 1, .flush [.ready 5, .pending]]
    let s := events.foldl (wireStep md5) (create (Padding.default md5) [] 0 0)
    s.healthy = true ∧ s.raw.sent = [1, 0, 0, 0, 1] ∧ s.wire.map List.length = [100, 2, 20] ∧
      ∃ padded, Padded (queuedFrames events) padded ∧
        s.raw.sent ++ s.unsent = AnyTlsFrame.encodeAll padded := by
  intro md5 request events s
  have hhealthy : s.healthy = true := by decide +kernel
  have hsent : s.raw.sent = [1, 0, 0, 0, 1] := by decide +kernel
  have hwire : s.wire.map length = [100, 2, 20] := by decide +kernel
  have hall := anytls_padding_transparent md5 (Padding.default md5) [] 0 0 events hhealthy
  obtain ⟨padded, hpadded, hbytes, -, -⟩ := hall
  have hrun : events.foldl (wireStep md5) (create (Padding.default md5) [] 0 0) = s := rfl
  rw [hrun] at hbytes
  exact ⟨hhealthy, hsent, hwire, padded, hpadded, hbytes⟩

end AnyTlsSession

end Sockrocket
