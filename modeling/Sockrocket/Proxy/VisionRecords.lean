import Sockrocket.Lib.AsyncIo
import Sockrocket.Lib.Incremental
import Sockrocket.Proxy.Bytes

/-!
# TLS records below and inside of a Vision stream

The first half of `proxy/vision.rs`. `RecordIo` stands between the connection and the outer TLS
layer: it lets that layer read one record at a time, so that what follows a record is still in the
connection when the stream turns to raw bytes. `Records` watches the inner TLS connection, whose
records come in pieces: it tells application data from handshake, and TLS 1.3 from older versions.

Both follow records of five header bytes and a declared length. `nextRecord` and `serverHello` read
slices without checks in places, so they are `do` blocks whose fault `outOfRange` is a panic.
-/

namespace Sockrocket

open Dns AsyncIo Slice Incremental List

/-! ## One record at a time -/

/-- `RecordIo`, with the bytes still in its stream. `header` is the part of the array that is filled,
so its length is `header_len`. -/
structure RecordIo where
  io : Bytes
  header : Bytes
  remaining : Nat
deriving DecidableEq, Repr

namespace RecordIo

/-- `RecordIo::new`. -/
def new (io : Bytes) : RecordIo :=
  ⟨io, [], 0⟩

/-- `RecordIo::at_boundary`. -/
def atBoundary (this : RecordIo) : Bool :=
  this.header.length == 0 && this.remaining == 0

/-- What a read of these bytes leaves of the counters. -/
def advance (this : RecordIo) (bytes io : Bytes) : RecordIo :=
  if this.remaining = 0 then
    let header := this.header ++ bytes
    if header.length = 5 then
      if u16At header 3 = 0 then ⟨io, [], 0⟩ else ⟨io, header, u16At header 3⟩
    else ⟨io, header, 0⟩
  else if this.remaining - bytes.length = 0 then ⟨io, [], 0⟩
  else ⟨io, this.header, this.remaining - bytes.length⟩

/-- `RecordIo::poll_read`, for a buffer with `room` bytes of room. -/
def pollRead (this : RecordIo) (room : Nat) (behaviour : Behaviour) : Poll Bytes × RecordIo :=
  if room = 0 then (.ready [], this)
  else
    let max := if this.remaining = 0 then 5 - this.header.length else this.remaining
    match behaviour.read this.io (min max room) with
    | (.pending, _) => (.pending, this)
    | (.failed, _) => (.failed, this)
    | (.ready bytes, io) =>
      -- the end of the stream inside of a record
      if bytes.length = 0 && !this.atBoundary then (.failed, this)
      else (.ready bytes, this.advance bytes io)

/-- Polls one after the other: the bytes they bring, and the state they leave. -/
def polls (this : RecordIo) : List (Nat × Behaviour) → Bytes × RecordIo
  | [] => ([], this)
  | (room, behaviour) :: steps =>
    let (answer, next) := this.pollRead room behaviour
    let (bytes, last) := next.polls steps
    (answer.bytes ++ bytes, last)

end RecordIo

/-! ## The inner TLS connection -/

/-- The loop of `server_hello` over the extensions. A turn takes four bytes or more. -/
def helloExtensions (body : Bytes) (stop : Nat) : Nat → Nat → Read Bool
  | 0, _ => pure false
  | turns + 1, pos =>
    if pos + 4 ≤ stop then do
      let key ← u16Read body pos
      let size ← u16Read body (pos + 2)
      if stop < pos + 4 + size then pure false
      else if key = 43 then
        if size = 2 then do
          let version ← slice body (pos + 4) (pos + 4 + size)
          pure (version == [3, 4])
        else pure false
      else helloExtensions body stop turns (pos + 4 + size)
    else pure false

/-- `server_hello`, with `incomplete` for `None`. -/
def serverHello (bytes : Bytes) : Read Bool :=
  if bytes.length < 4 then .error .incomplete
  else do
    let size := u24 (← index bytes 1) (← index bytes 2) (← index bytes 3)
    if 65532 < size then pure false
    else if bytes.length < size + 4 then .error .incomplete
    else do
      let kind ← index bytes 0
      if kind ≠ 2 ∨ size < 40 then pure false
      else do
        let body ← slice bytes 4 (4 + size)
        let session ← get body 34
        let offset := 35 + session.toNat
        let cipher := (← get body offset).toNat * 256 + (← get body (offset + 1)).toNat
        if cipher < 0x1301 ∨ 0x1304 < cipher then pure false
        else do
          let size := (← get body (offset + 3)).toNat * 256 + (← get body (offset + 4)).toNat
          let stop := offset + 5 + size
          if body.length < stop then pure false
          else helloExtensions body stop body.length (offset + 5)

/-- `Records`. -/
structure Records where
  bytes : Bytes
  handshake : Bytes
  enabled : Bool
  seenTls : Bool
  failed : Bool
deriving DecidableEq, Repr

/-- `Records::default`. -/
def Records.default : Records :=
  ⟨[], [], false, false, false⟩

/-- What is at the front of the buffer. -/
inductive Outer where
  | waiting
  | broken
  | whole (kind : UInt8) (size : Nat)
deriving DecidableEq, Repr

/-- The tests of `Records::feed` on the next record. -/
def nextRecord (view : Bytes) : Read Outer :=
  if view.length < 5 then pure .waiting
  else do
    let kind ← index view 0
    let major ← index view 1
    if kind < 20 ∨ 23 < kind ∨ major ≠ 3 then pure .broken
    else do
      let size ← u16Read view 3
      if 18432 < size then pure .broken
      else if view.length < size + 5 then pure .waiting
      else pure (.whole kind size)

/-- What `Records::feed` notes of a whole record. -/
def Records.absorb (records : Records) (server : Bool) (kind : UInt8) (size : Nat) (view : Bytes) :
    Read Records :=
  let records := { records with seenTls := true }
  if server && kind == 22 && !records.enabled && records.handshake.length + size ≤ 65536 then do
    let handshake := records.handshake ++ (← slice view 5 (5 + size))
    match serverHello handshake with
    | .ok enabled => pure { records with enabled, handshake := [] }
    | .error .incomplete => pure { records with handshake }
    | .error .outOfRange => .error .outOfRange
  else pure records

/-- The loop of `Records::feed` over the buffer: what it leaves of it, whether the last record was
application data, and the rest of the state. A turn takes five bytes or more. -/
def feedLoop (server : Bool) : Nat → Bytes → Bool → Records → Read (Bytes × Bool × Records)
  | 0, view, last, records => pure (view, last, records)
  | turns + 1, view, last, records => do
      match ← nextRecord view with
      | .waiting => pure (view, last, records)
      | .broken => pure (view, last, { records with failed := true })
      | .whole kind size =>
        let records ← records.absorb server kind size view
        feedLoop server turns (view.drop (size + 5)) (kind == 23) records

/-- `Records::feed`. The buffer is out of the record while the loop goes over it. -/
def Records.feed (records : Records) (bytes : Bytes) (server : Bool) : Read (Bool × Records) :=
  if records.failed then pure (false, records)
  else if 131072 < records.bytes.length + bytes.length then
    pure (false, { records with failed := true, bytes := [] })
  else do
    let data := records.bytes ++ bytes
    let (rest, last, records) ←
      feedLoop server data.length data false { records with bytes := [] }
    let records := { records with bytes := if records.failed then [] else rest }
    pure (last && records.bytes.isEmpty, records)

/-- Chunks fed one after the other. -/
def Records.feedAll (records : Records) (server : Bool) : List Bytes → Read Records
  | [] => pure records
  | chunk :: chunks => do
      let (_, records) ← records.feed chunk server
      records.feedAll server chunks

/-! ## Whole records -/

/-- A TLS record: five bytes of header, and as many as they declare. -/
def IsRecord (bytes : Bytes) : Prop :=
  5 ≤ bytes.length ∧ bytes.length = 5 + u16At bytes 3

/-- A whole number of records. -/
def Whole (bytes : Bytes) : Prop :=
  ∃ records : List Bytes, (∀ record ∈ records, IsRecord record) ∧ bytes = records.flatten

theorem whole_nil : Whole [] :=
  ⟨[], nofun, rfl⟩

theorem Whole.snoc {whole record : Bytes} (h : Whole whole) (hrecord : IsRecord record) :
    Whole (whole ++ record) := by
  obtain ⟨records, hrecords, rfl⟩ := h
  refine ⟨records ++ [record], ?_, by rw [flatten_append, flatten_singleton]⟩
  intro r hr
  rcases mem_append.mp hr with hr | hr
  · exact hrecords r hr
  · rwa [mem_singleton.mp hr]

/-- Records can be told apart: one is not the beginning of another. -/
theorem IsRecord.append_cancel {record record' tail tail' : Bytes} (h : IsRecord record)
    (h' : IsRecord record') (heq : record ++ tail = record' ++ tail') : tail = tail' := by
  have hlength : record.length = record'.length := by
    rw [h.2, h'.2, ← u16At_append (show 3 + 1 < record.length by have := h.1; omega) tail, heq,
      u16At_append (by have := h'.1; omega)]
  exact (append_inj heq hlength).2

variable {part : Bytes}

/-- What follows whole records in whole records is whole. -/
theorem Whole.of_append {whole : Bytes} (h : Whole whole) (happend : Whole (whole ++ part)) :
    Whole part := by
  obtain ⟨records, hrecords, rfl⟩ := h
  induction records with
  | nil => exact happend
  | cons record records ih =>
    obtain ⟨hrecord, hrecords⟩ := forall_mem_cons.mp hrecords
    refine ih hrecords ?_
    obtain ⟨others, hothers, heq⟩ := happend
    rw [flatten_cons, append_assoc] at heq
    cases others with
    | nil =>
      have hnil := (append_eq_nil_iff.mp heq).1
      rw [hnil] at hrecord
      exact absurd hrecord.1 (by decide)
    | cons other others =>
      obtain ⟨hother, hothers⟩ := forall_mem_cons.mp hothers
      rw [flatten_cons] at heq
      exact ⟨others, hothers, hrecord.append_cancel hother heq⟩

/-- The proper beginning of a record is not whole, unless it is empty. -/
theorem Whole.eq_nil {tail : Bytes} (h : Whole part) (hrecord : IsRecord (part ++ tail))
    (htail : tail ≠ []) : part = [] := by
  obtain ⟨records, hrecords, rfl⟩ := h
  cases records with
  | nil => rfl
  | cons record records =>
    have hfirst := hrecords record mem_cons_self
    rw [flatten_cons, append_assoc] at hrecord
    have hsame := hfirst.append_cancel hrecord (append_nil _).symm
    exact absurd (append_eq_nil_iff.mp hsame).2 htail

/-- A header is the beginning of some record. -/
theorem isRecord_fill {header : Bytes} (h : header.length = 5) :
    IsRecord (header ++ replicate (u16At header 3) 0) := by
  refine ⟨?_, ?_⟩
  · rw [length_append]
    omega
  · rw [u16At_append (by omega), length_append, length_replicate, h]

/-- So are fewer bytes. -/
theorem exists_isRecord (h : part.length < 5) :
    ∃ tail, tail ≠ [] ∧ IsRecord (part ++ tail) := by
  have hheader : (part ++ replicate (5 - part.length) (0 : UInt8)).length = 5 := by
    rw [length_append, length_replicate]
    omega
  refine ⟨_, ?_, append_assoc part _ _ ▸ isRecord_fill hheader⟩
  intro hnil
  have := congrArg length (append_eq_nil_iff.mp hnil).1
  rw [length_replicate, length_nil] at this
  omega

/-- And a header with less than the declared bytes. -/
theorem exists_isRecord_of_body {remaining : Nat} (h : 5 ≤ part.length)
    (hlength : part.length + remaining = 5 + u16At part 3) :
    IsRecord (part ++ replicate remaining 0) := by
  refine ⟨?_, ?_⟩
  · rw [length_append]
    omega
  · rw [u16At_append (by omega), length_append, length_replicate, hlength]

/-! ## Reads stay in a record -/

namespace RecordIo

/-- The counters are right for the bytes read so far: these are whole records and `part` of the
next. -/
structure Position (this : RecordIo) (bytes whole part : Bytes) : Prop where
  split : bytes = whole ++ part
  whole : Whole whole
  header : this.remaining = 0 → this.header = part ∧ part.length < 5
  body : 0 < this.remaining → this.header.length = 5 ∧ 5 ≤ part.length ∧
    part.length + this.remaining = 5 + u16At part 3

theorem position_new (io : Bytes) : (new io).Position [] [] [] :=
  ⟨rfl, whole_nil, fun _ => ⟨rfl, by decide⟩, fun h => absurd h (lt_irrefl 0)⟩

namespace Position

variable {this : RecordIo} {bytes whole part : Bytes}

section

variable (h : this.Position bytes whole part)

include h

/-- The record in progress is not complete. -/
theorem exists_tail :
    ∃ tail, tail ≠ [] ∧ IsRecord (part ++ tail) := by
  by_cases hzero : this.remaining = 0
  · exact exists_isRecord (h.header hzero).2
  · obtain ⟨-, hfive, hlength⟩ := h.body (Nat.pos_of_ne_zero hzero)
    refine ⟨_, ?_, exists_isRecord_of_body hfive hlength⟩
    rwa [ne_eq, replicate_eq_nil_iff]

theorem atBoundary_iff_nil :
    this.atBoundary ↔ part = [] := by
  rw [atBoundary, Bool.and_eq_true, beq_iff_eq, beq_iff_eq]
  constructor
  · intro ⟨hheader, hzero⟩
    rw [← (h.header hzero).1]
    exact eq_nil_of_length_eq_zero hheader
  · rintro rfl
    by_cases hzero : this.remaining = 0
    · rw [(h.header hzero).1]
      exact ⟨rfl, hzero⟩
    · exact absurd (h.body (Nat.pos_of_ne_zero hzero)).2.1 (by decide)

/-- `at_boundary` says whether the bytes so far are whole records. -/
theorem atBoundary_iff :
    this.atBoundary ↔ Whole bytes := by
  rw [h.atBoundary_iff_nil]
  constructor
  · rintro rfl
    rw [h.split, append_nil]
    exact h.whole
  · intro hwhole
    obtain ⟨tail, htail, hrecord⟩ := h.exists_tail
    rw [h.split] at hwhole
    exact (h.whole.of_append hwhole).eq_nil hrecord htail

/-- A record just completed. -/
theorem complete {read io : Bytes}
    (hrecord : IsRecord (part ++ read)) :
    (⟨io, [], 0⟩ : RecordIo).Position (bytes ++ read) (whole ++ (part ++ read)) [] := by
  refine ⟨?_, h.whole.snoc hrecord, fun _ => ⟨rfl, by decide⟩, fun h => absurd h (lt_irrefl 0)⟩
  rw [h.split, append_nil, append_assoc]

/-- A read within the limits of `poll_read` stays in the record, and keeps the counters right. -/
theorem advance {read : Bytes} (io : Bytes)
    (hlimit : read.length ≤
      if this.remaining = 0 then 5 - this.header.length else this.remaining) :
    (∃ tail, IsRecord (part ++ read ++ tail)) ∧
      ∃ whole' part', (this.advance read io).Position (bytes ++ read) whole' part' := by
  have hsplit : bytes ++ read = whole ++ (part ++ read) := by
    rw [h.split, append_assoc]
  unfold RecordIo.advance
  by_cases hzero : this.remaining = 0
  · obtain ⟨hheader, hfive⟩ := h.header hzero
    rw [if_pos hzero, hheader] at hlimit
    rw [if_pos hzero, hheader]
    dsimp only
    by_cases hlength : (part ++ read).length = 5
    · have hrecord := isRecord_fill hlength
      refine ⟨⟨_, hrecord⟩, ?_⟩
      rw [if_pos hlength]
      by_cases hdeclared : u16At (part ++ read) 3 = 0
      · -- a record without content ends with its header
        rw [if_pos hdeclared]
        rw [hdeclared, replicate_zero, append_nil] at hrecord
        exact ⟨_, _, h.complete hrecord⟩
      · rw [if_neg hdeclared]
        exact ⟨whole, part ++ read, hsplit, h.whole, fun h => absurd h hdeclared,
          fun _ => ⟨hlength, hlength.ge, by rw [hlength]⟩⟩
    · rw [if_neg hlength]
      have hless : (part ++ read).length < 5 := by
        rw [length_append] at hlength ⊢
        omega
      obtain ⟨tail, -, hrecord⟩ := exists_isRecord hless
      exact ⟨⟨tail, hrecord⟩, whole, part ++ read, hsplit, h.whole, fun _ => ⟨rfl, hless⟩,
        fun h => absurd h (lt_irrefl 0)⟩
  · obtain ⟨hheader, hfive, hlength⟩ := h.body (Nat.pos_of_ne_zero hzero)
    rw [if_neg hzero] at hlimit
    rw [if_neg hzero]
    have hfive' : 5 ≤ (part ++ read).length := by
      rw [length_append]
      omega
    have hlength' : (part ++ read).length + (this.remaining - read.length) =
        5 + u16At (part ++ read) 3 := by
      rw [u16At_append (by omega), ← hlength, length_append]
      omega
    have hrecord := exists_isRecord_of_body hfive' hlength'
    refine ⟨⟨_, hrecord⟩, ?_⟩
    split
    · rename_i hdone
      rw [hdone, replicate_zero, append_nil] at hrecord
      exact ⟨_, _, h.complete hrecord⟩
    · rename_i hmore
      exact ⟨whole, part ++ read, hsplit, h.whole, fun h => absurd h hmore,
        fun _ => ⟨hheader, hfive', hlength'⟩⟩

/-- One `poll_read`. -/
theorem pollRead (room : Nat) (behaviour : Behaviour) :
    (∃ tail, IsRecord (part ++ (this.pollRead room behaviour).1.bytes ++ tail)) ∧
      ∃ whole' part', (this.pollRead room behaviour).2.Position
        (bytes ++ (this.pollRead room behaviour).1.bytes) whole' part' := by
  have hnothing : (∃ tail, IsRecord (part ++ [] ++ tail)) ∧
      ∃ whole' part', this.Position (bytes ++ []) whole' part' := by
    obtain ⟨tail, -, hrecord⟩ := h.exists_tail
    rw [append_nil, append_nil]
    exact ⟨⟨tail, hrecord⟩, whole, part, h⟩
  unfold RecordIo.pollRead
  split
  · exact hnothing
  dsimp only
  split
  · exact hnothing
  · exact hnothing
  rename_i read io hread
  split
  · exact hnothing
  · exact h.advance io ((Behaviour.length_of_read hread).trans (min_le_left _ _))

end

end Position

/-- Every byte that left the stream was delivered. -/
theorem pollRead_io (this : RecordIo) (room : Nat) (behaviour : Behaviour) :
    (this.pollRead room behaviour).1.bytes ++ (this.pollRead room behaviour).2.io = this.io := by
  unfold pollRead
  split
  · rfl
  dsimp only
  split
  · rfl
  · rfl
  rename_i read io hread
  have hall := Behaviour.read_bytes_append behaviour this.io
    (min (if this.remaining = 0 then 5 - this.header.length else this.remaining) room)
  rw [hread] at hall
  split
  · rfl
  have hio : (this.advance read io).io = io := by
    unfold advance
    dsimp only
    split <;> split <;> try split
    all_goals rfl
  dsimp only [Poll.bytes] at hall ⊢
  rw [hio, hall]

/-- A sequence of polls. -/
theorem polls_spec {this : RecordIo} {before whole part : Bytes}
    (h : this.Position before whole part) (steps : List (Nat × Behaviour)) :
    (this.polls steps).1 ++ (this.polls steps).2.io = this.io ∧
      ∃ whole' part', (this.polls steps).2.Position (before ++ (this.polls steps).1) whole' part' := by
  induction steps generalizing this before whole part with
  | nil =>
    refine ⟨rfl, whole, part, ?_⟩
    show this.Position (before ++ []) whole part
    rwa [append_nil]
  | cons step steps ih =>
    obtain ⟨-, whole', part', hnext⟩ := h.pollRead step.1 step.2
    obtain ⟨hio, hposition⟩ := ih hnext
    have hone := this.pollRead_io step.1 step.2
    rw [polls]
    dsimp only
    refine ⟨?_, ?_⟩
    · rw [append_assoc, hio, hone]
    · rwa [append_assoc] at hposition

/-- The end of the stream inside of a record is an error. -/
theorem pollRead_end {this : RecordIo} {room size : Nat} (hroom : 0 < room) (hio : this.io = [])
    (hinside : ¬ this.atBoundary) :
    (this.pollRead room (.ready size)).1 = .failed := by
  have hread (limit : Nat) :
      (Behaviour.ready size).read ([] : Bytes) limit = (.ready [], []) := by
    rw [Behaviour.read, take_nil, drop_nil]
  rw [pollRead, if_neg (by omega), hio]
  dsimp only
  rw [hread]
  dsimp only
  rw [Bool.eq_false_of_not_eq_true hinside]
  rfl

end RecordIo

/-! ## No access out of range -/

theorem returns_helloExtensions {body : Bytes} {stop : Nat} (hstop : stop ≤ body.length)
    (turns pos : Nat) : Returns (helloExtensions body stop turns pos) := by
  induction turns generalizing pos with
  | zero => exact returns_ok _
  | succ turns ih =>
    rw [helloExtensions]
    split
    · rw [u16Read_of_lt (by omega), u16Read_of_lt (by omega)]
      show Returns (if _ then _ else _)
      split
      · exact returns_ok _
      split
      · split
        · exact (returns_slice (by omega) (by omega)).bind fun _ _ => returns_ok _
        · exact returns_ok _
      · exact ih _
    · exact returns_ok _

theorem safe_of_returns {β : Type} {x : Read β} (h : Returns x) : Safe x := by
  obtain ⟨b, rfl⟩ := h
  exact safe_ok b

theorem safe_serverHello (bytes : Bytes) : Safe (serverHello bytes) := by
  unfold serverHello
  split
  · exact nofun
  refine (safe_index (by omega)).bind fun a _ => (safe_index (by omega)).bind fun b _ =>
    (safe_index (by omega)).bind fun c _ => ?_
  dsimp only
  split
  · exact safe_ok _
  split
  · exact nofun
  refine (safe_index (by omega)).bind fun kind _ => ?_
  split
  · exact safe_ok _
  refine (safe_slice (by omega) (by omega)).bind fun body _ =>
    (safe_get _ _).bind fun session _ => (safe_get _ _).bind fun _ _ =>
    (safe_get _ _).bind fun _ _ => ?_
  split
  · exact safe_ok _
  refine (safe_get _ _).bind fun _ _ => (safe_get _ _).bind fun _ _ => ?_
  split
  · exact safe_ok _
  · exact safe_of_returns (returns_helloExtensions (by omega) _ _)

/-- Whether the header at the front is not that of a record. -/
def BadHeader (view : Bytes) : Prop :=
  byteAt view 0 < 20 ∨ 23 < byteAt view 0 ∨ byteAt view 1 ≠ 3 ∨ 18432 < u16At view 3

instance (view : Bytes) : Decidable (BadHeader view) :=
  inferInstanceAs (Decidable (_ ∨ _))

/-- `nextRecord` without its accesses. -/
theorem nextRecord_eq (view : Bytes) :
    nextRecord view = .ok (
      if view.length < 5 then .waiting else if BadHeader view then .broken
      else if view.length < u16At view 3 + 5 then .waiting
      else .whole (view.getD 0 0) (u16At view 3)) := by
  unfold nextRecord
  split
  · rfl
  rename_i hfive
  have hfirst : byteAt view 0 = view[0].toNat := by
    rw [byteAt, getD_eq_getElem _ _ (by omega)]
  have hsecond : byteAt view 1 = view[1].toNat := by
    rw [byteAt, getD_eq_getElem _ _ (by omega)]
  have hmajor : view[1] ≠ 3 ↔ byteAt view 1 ≠ 3 := by
    rw [hsecond, ne_eq, ← UInt8.toNat_inj]
    rfl
  have hlow : view[0] < 20 ↔ byteAt view 0 < 20 := by
    rw [hfirst, UInt8.lt_iff_toNat_lt]
    rfl
  have hhigh : (23 : UInt8) < view[0] ↔ 23 < byteAt view 0 := by
    rw [hfirst, UInt8.lt_iff_toNat_lt]
    rfl
  rw [index_of_lt (show 0 < view.length by omega), index_of_lt (show 1 < view.length by omega),
    u16Read_of_lt (by omega), getD_eq_getElem _ _ (show 0 < view.length by omega)]
  show (if _ then _ else (if _ then _ else _ : Read Outer)) = _
  have hbad : BadHeader view ↔ (view[0] < 20 ∨ (23 : UInt8) < view[0] ∨ view[1] ≠ 3) ∨
      18432 < u16At view 3 := by
    rw [hmajor, hlow, hhigh, or_assoc, or_assoc]
    rfl
  split <;> rename_i hkind
  · rw [if_pos (hbad.mpr (.inl hkind))]
    rfl
  split <;> rename_i hsize
  · rw [if_pos (hbad.mpr (.inr hsize))]
    rfl
  · rw [if_neg (fun h => (hbad.mp h).elim hkind hsize)]
    split <;> rfl

variable {view : Bytes}

theorem badHeader_append (h : 5 ≤ view.length) (t : Bytes) :
    BadHeader (view ++ t) ↔ BadHeader view := by
  rw [BadHeader, BadHeader, byteAt_append (by omega), byteAt_append (by omega),
    u16At_append (by omega)]

variable {size : Nat}

/-- A whole record at the front. -/
theorem nextRecord_whole {kind : UInt8}
    (h : nextRecord view = .ok (.whole kind size)) :
    size + 5 ≤ view.length ∧ size ≤ 18432 ∧
      ∀ t, nextRecord (view ++ t) = .ok (.whole kind size) := by
  rw [nextRecord_eq] at h
  have h := Except.ok.inj h
  split at h
  · cases h
  split at h
  · cases h
  split at h
  · cases h
  rename_i hfive hbad hsize
  obtain ⟨rfl, rfl⟩ := Outer.whole.inj h
  refine ⟨not_lt.mp hsize, ?_, fun t => ?_⟩
  · rw [BadHeader] at hbad
    omega
  · rw [nextRecord_eq, length_append, if_neg (by omega),
      if_neg (fun hb => hbad ((badHeader_append (by omega) t).mp hb)),
      u16At_append (by omega), if_neg (by omega), getD_append _ _ _ _ (by omega)]

/-- A broken header stays broken. -/
theorem nextRecord_broken (h : nextRecord view = .ok .broken) (t : Bytes) :
    nextRecord (view ++ t) = .ok .broken := by
  rw [nextRecord_eq] at h
  have h := Except.ok.inj h
  split at h
  · cases h
  split at h
  · rename_i hfive hbad
    rw [nextRecord_eq, length_append, if_neg (by omega),
      if_pos ((badHeader_append (by omega) t).mpr hbad)]
  · split at h <;> cases h

/-- Less than a record is short. -/
theorem nextRecord_waiting (h : nextRecord view = .ok .waiting) :
    view.length ≤ 18436 := by
  rw [nextRecord_eq] at h
  have h := Except.ok.inj h
  split at h
  · omega
  split at h
  · cases h
  split at h
  · rename_i hbad hsize
    rw [BadHeader] at hbad
    omega
  · cases h

/-- What the loop keeps from record to record. -/
theorem Records.absorb_spec (records : Records) (server : Bool) (kind : UInt8)
    (hsize : size + 5 ≤ view.length) :
    ∃ next, (∀ t, records.absorb server kind size (view ++ t) = .ok next) ∧
      next.bytes = records.bytes ∧ next.failed = records.failed ∧
      (records.handshake.length ≤ 65536 → next.handshake.length ≤ 65536) := by
  have hslice (t : Bytes) : slice (view ++ t) 5 (5 + size) = .ok ((view.drop 5).take size) := by
    rw [slice_of_le (by omega) (by rw [length_append]; omega), Nat.add_sub_cancel_left,
      drop_append_of_le_length (by omega),
      take_append_of_le_length (by rw [length_drop]; omega)]
  unfold absorb
  dsimp only
  split
  · rename_i hcollect
    rw [Bool.and_eq_true, decide_eq_true_iff] at hcollect
    cases hhello : serverHello (records.handshake ++ (view.drop 5).take size) with
    | ok enabled =>
      refine ⟨{ records with seenTls := true, enabled, handshake := [] }, fun t => ?_, rfl, rfl,
        fun _ => Nat.zero_le _⟩
      rw [hslice]
      dsimp only [Bind.bind, Except.bind]
      rw [hhello]
      rfl
    | error fault =>
      cases fault with
      | incomplete =>
        refine ⟨{ records with
          seenTls := true, handshake := records.handshake ++ (view.drop 5).take size },
          fun t => ?_, rfl, rfl, fun _ => ?_⟩
        · rw [hslice]
          dsimp only [Bind.bind, Except.bind]
          rw [hhello]
          rfl
        · rw [length_append, length_take]
          omega
      | outOfRange => exact absurd hhello (safe_serverHello _)
  · exact ⟨{ records with seenTls := true }, fun t => rfl, rfl, rfl, id⟩

/-! ## Chunks -/

/-- One turn of the loop that takes a record. -/
def recordStep (server : Bool) (records : Records) (view : Bytes) : Option (Records × Bytes) :=
  match nextRecord view with
  | .ok (.whole kind size) =>
    match records.absorb server kind size view with
    | .ok next => some (next, view.drop (size + 5))
    | .error _ => none
  | _ => none

theorem recordStep_eq_some {server : Bool} {records next : Records} {rest : Bytes}
    (h : recordStep server records view = some (next, rest)) :
    ∃ kind size, nextRecord view = .ok (.whole kind size) ∧
      records.absorb server kind size view = .ok next ∧ rest = view.drop (size + 5) := by
  unfold recordStep at h
  split at h
  · rename_i kind size hnext
    split at h
    · rename_i hnote
      obtain ⟨rfl, rfl⟩ := Prod.mk.inj (Option.some.inj h)
      exact ⟨kind, size, hnext, hnote, rfl⟩
    · cases h
  · cases h

/-- The effect of a record does not depend on what follows it. -/
theorem stable_recordStep (server : Bool) : Stable (recordStep server) where
  shrinks := by
    intro records next view rest h
    obtain ⟨kind, size, hnext, -, rfl⟩ := recordStep_eq_some h
    have hsize := (nextRecord_whole hnext).1
    rw [length_drop]
    omega
  append := by
    intro records next view rest h t
    obtain ⟨kind, size, hnext, hnote, rfl⟩ := recordStep_eq_some h
    obtain ⟨hsize, -, hmore⟩ := nextRecord_whole hnext
    obtain ⟨next', hnote', -⟩ := records.absorb_spec server kind hsize
    obtain rfl : next' = next :=
      Except.ok.inj ((hnote' []).symm.trans (by rwa [append_nil]))
    rw [recordStep, hmore]
    dsimp only
    rw [hnote', drop_append_of_le_length hsize]

/-- The loop takes all the records there are. It stops in front of less than one, or of a broken
header. -/
theorem feedLoop_eq (server : Bool) {turns : Nat} (hturns : view.length ≤ turns) (last : Bool)
    (records : Records) :
    ∃ rest last' records', drain (recordStep server) records view = (records', rest) ∧
      (nextRecord rest = .ok .waiting ∧
          feedLoop server turns view last records = .ok (rest, last', records') ∨
        nextRecord rest = .ok .broken ∧ feedLoop server turns view last records =
          .ok (rest, last', { records' with failed := true })) := by
  induction turns generalizing view last records with
  | zero =>
    obtain rfl := eq_nil_of_length_eq_zero (Nat.le_zero.mp hturns)
    exact ⟨[], last, records, rfl, .inl ⟨rfl, rfl⟩⟩
  | succ turns ih =>
    rw [feedLoop]
    obtain ⟨outer, houter⟩ : ∃ outer, nextRecord view = .ok outer := ⟨_, nextRecord_eq view⟩
    rw [houter]
    cases outer with
    | waiting =>
      have hstop : recordStep server records view = none := by rw [recordStep, houter]
      exact ⟨view, last, records, drainFor_of_none hstop _, .inl ⟨houter, rfl⟩⟩
    | broken =>
      have hstop : recordStep server records view = none := by rw [recordStep, houter]
      exact ⟨view, last, records, drainFor_of_none hstop _, .inr ⟨houter, rfl⟩⟩
    | whole kind size =>
      have hsize := (nextRecord_whole houter).1
      obtain ⟨next, hnote, -⟩ := records.absorb_spec server kind hsize
      have hnote : records.absorb server kind size view = .ok next := by
        rw [← hnote [], append_nil]
      have hstep : recordStep server records view = some (next, view.drop (size + 5)) := by
        rw [recordStep, houter]
        dsimp only
        rw [hnote]
      dsimp only [Bind.bind, Except.bind]
      rw [hnote, (stable_recordStep server).drain_of_some hstep]
      exact ih (by rw [length_drop]; omega) _ next

/-- The parts of the state that no record changes, and the bound of the handshake buffer. -/
theorem drain_recordStep (server : Bool) (records : Records) (view : Bytes) :
    (drain (recordStep server) records view).1.bytes = records.bytes ∧
      (drain (recordStep server) records view).1.failed = records.failed ∧
      (records.handshake.length ≤ 65536 →
        (drain (recordStep server) records view).1.handshake.length ≤ 65536) := by
  refine drain_invariant (P := fun state : Records => state.bytes = records.bytes ∧
    state.failed = records.failed ∧
    (records.handshake.length ≤ 65536 → state.handshake.length ≤ 65536)) ?_ ⟨rfl, rfl, id⟩ view
  intro state next view rest ⟨hbytes, hfailed, hbound⟩ h
  obtain ⟨kind, size, hnext, hnote, -⟩ := recordStep_eq_some h
  obtain ⟨next', hnote', hbytes', hfailed', hbound'⟩ :=
    state.absorb_spec server kind (nextRecord_whole hnext).1
  obtain rfl : next' = next :=
    Except.ok.inj ((hnote' []).symm.trans (by rwa [append_nil]))
  exact ⟨hbytes'.trans hbytes, hfailed'.trans hfailed, fun h => hbound' (hbound h)⟩

namespace Records

/-- `feed` on a state that has not failed and a chunk it has room for. -/
theorem feed_eq (records : Records) (server : Bool) {bytes : Bytes} (hopen : records.failed = false)
    (hroom : records.bytes.length + bytes.length ≤ 131072) :
    ∃ last state rest,
      drain (recordStep server) { records with bytes := [] } (records.bytes ++ bytes) =
        (state, rest) ∧
      (nextRecord rest = .ok .waiting ∧
          records.feed bytes server = .ok (last, { state with bytes := rest }) ∨
        nextRecord rest = .ok .broken ∧ records.feed bytes server =
          .ok (last, { state with failed := true, bytes := [] })) := by
  obtain ⟨rest, last, state, hdrain, hloop⟩ := feedLoop_eq server
    (Nat.le_refl (records.bytes ++ bytes).length) false { records with bytes := [] }
  have hfailed : state.failed = false := by
    have h := (drain_recordStep server { records with bytes := [] } (records.bytes ++ bytes)).2.1
    rw [hdrain] at h
    exact h.trans hopen
  rw [feed, if_neg (by rw [hopen]; exact Bool.false_ne_true), if_neg (by omega)]
  dsimp only
  rcases hloop with ⟨hrest, hloop⟩ | ⟨hrest, hloop⟩
  · refine ⟨last && rest.isEmpty, state, rest, hdrain, .inl ⟨hrest, ?_⟩⟩
    rw [hloop]
    dsimp only [Bind.bind, Except.bind]
    rw [hfailed]
    rfl
  · refine ⟨last && true, state, rest, hdrain, .inr ⟨hrest, ?_⟩⟩
    rw [hloop]
    rfl

theorem returns_feed (records : Records) (bytes : Bytes) (server : Bool) :
    Returns (records.feed bytes server) := by
  by_cases hopen : records.failed = false
  · by_cases hroom : records.bytes.length + bytes.length ≤ 131072
    · obtain ⟨last, state, rest, -, ⟨-, h⟩ | ⟨-, h⟩⟩ := records.feed_eq server hopen hroom
      · exact ⟨_, h⟩
      · exact ⟨_, h⟩
    · rw [feed, if_neg (by rw [hopen]; exact Bool.false_ne_true), if_pos (by omega)]
      exact returns_ok _
  · rw [feed, if_pos (Bool.eq_true_of_not_eq_false hopen)]
    exact returns_ok _

/-- The buffers are within their limits. -/
structure Bounded (records : Records) : Prop where
  bytes : records.bytes.length ≤ 131072
  handshake : records.handshake.length ≤ 65536

variable {records : Records}

variable {chunk : Bytes} {server : Bool}

theorem Bounded.feed {next : Records} (h : records.Bounded) {last : Bool}
    (hfeed : records.feed chunk server = .ok (last, next)) : next.Bounded := by
  by_cases hopen : records.failed = false
  · by_cases hroom : records.bytes.length + chunk.length ≤ 131072
    · obtain ⟨last', state, rest, hdrain, hcases⟩ := records.feed_eq server hopen hroom
      have hhandshake : state.handshake.length ≤ 65536 := by
        have hkeep := (drain_recordStep server { records with bytes := [] }
          (records.bytes ++ chunk)).2.2 h.handshake
        rwa [hdrain] at hkeep
      rcases hcases with ⟨hrest, heq⟩ | ⟨hrest, heq⟩
      · obtain ⟨-, rfl⟩ := Prod.mk.inj (Except.ok.inj (hfeed.symm.trans heq))
        exact ⟨(nextRecord_waiting hrest).trans (by decide), hhandshake⟩
      · obtain ⟨-, rfl⟩ := Prod.mk.inj (Except.ok.inj (hfeed.symm.trans heq))
        exact ⟨Nat.zero_le _, hhandshake⟩
    · rw [Records.feed, if_neg (by rw [hopen]; exact Bool.false_ne_true), if_pos (by omega)] at hfeed
      obtain ⟨-, rfl⟩ := Prod.mk.inj (Except.ok.inj hfeed)
      exact ⟨Nat.zero_le _, h.handshake⟩
  · rw [Records.feed, if_pos (Bool.eq_true_of_not_eq_false hopen)] at hfeed
    obtain ⟨-, rfl⟩ := Prod.mk.inj (Except.ok.inj hfeed)
    exact h

theorem Bounded.feedAll (h : records.Bounded) (server : Bool) (chunks : List Bytes) :
    ∃ next, records.feedAll server chunks = .ok next ∧ next.Bounded := by
  induction chunks generalizing records with
  | nil => exact ⟨records, rfl, h⟩
  | cons chunk chunks ih =>
    obtain ⟨⟨last, next⟩, hfeed⟩ := returns_feed records chunk server
    rw [Records.feedAll, hfeed]
    exact ih (h.feed hfeed)

/-- The state after some bytes, however they came: that of the records in them, with the rest in the
buffer, or for good that of the records before a broken header. -/
def After (records : Records) (server : Bool) (total : Bytes) : Prop :=
  ∃ state rest, drain (recordStep server) default total = (state, rest) ∧
    (nextRecord rest = .ok .waiting ∧ records = { state with bytes := rest } ∨
      nextRecord rest = .ok .broken ∧ records = { state with failed := true, bytes := [] })

theorem after_default (server : Bool) : default.After server [] :=
  ⟨default, [], rfl, .inl ⟨rfl, rfl⟩⟩

variable {total : Bytes}

/-- The bytes leave no choice. -/
theorem After.unique {records' : Records}
    (h : records.After server total) (h' : records'.After server total) : records = records' := by
  obtain ⟨state, rest, hdrain, hcases⟩ := h
  obtain ⟨state', rest', hdrain', hcases'⟩ := h'
  obtain ⟨rfl, rfl⟩ := Prod.mk.inj (hdrain.symm.trans hdrain')
  rcases hcases with ⟨hrest, rfl⟩ | ⟨hrest, rfl⟩
  · rcases hcases' with ⟨-, rfl⟩ | ⟨hrest', -⟩
    · rfl
    · cases hrest.symm.trans hrest'
  · rcases hcases' with ⟨hrest', -⟩ | ⟨-, rfl⟩
    · cases hrest.symm.trans hrest'
    · rfl

/-- The buffer holds less than a record, so there is room for a chunk. -/
theorem After.feed (h : records.After server total)
    (hchunk : chunk.length ≤ 65535) :
    ∃ last next, records.feed chunk server = .ok (last, next) ∧
      next.After server (total ++ chunk) := by
  obtain ⟨state, rest, hdrain, hcases⟩ := h
  have hmore : drain (recordStep server) default (total ++ chunk) =
      drain (recordStep server) state (rest ++ chunk) := by
    rw [(stable_recordStep server).drain_append, Incremental.feed, hdrain]
  obtain ⟨hbytes, hfailed, -⟩ := drain_recordStep server default total
  rw [hdrain] at hbytes hfailed
  rcases hcases with ⟨hrest, rfl⟩ | ⟨hrest, rfl⟩
  · have hroom := nextRecord_waiting hrest
    have hstate : { state with bytes := [] } = state := by
      cases state
      cases hbytes
      rfl
    obtain ⟨last, state', rest', hdrain', hcases⟩ :=
      feed_eq { state with bytes := rest } server hfailed
        (show rest.length + chunk.length ≤ 131072 by omega)
    dsimp only at hdrain'
    rw [hstate] at hdrain'
    rcases hcases with ⟨hrest', hfeed⟩ | ⟨hrest', hfeed⟩
    · exact ⟨last, _, hfeed, state', rest', hmore.trans hdrain', .inl ⟨hrest', rfl⟩⟩
    · exact ⟨last, _, hfeed, state', rest', hmore.trans hdrain', .inr ⟨hrest', rfl⟩⟩
  · have hstop : recordStep server state (rest ++ chunk) = none := by
      rw [recordStep, nextRecord_broken hrest chunk]
    exact ⟨false, _, rfl, state, rest ++ chunk, hmore.trans (drainFor_of_none hstop _),
      .inr ⟨nextRecord_broken hrest chunk, rfl⟩⟩

theorem After.feedAll (h : records.After server total)
    {chunks : List Bytes} (hchunks : ∀ chunk ∈ chunks, chunk.length ≤ 65535) :
    ∃ next, records.feedAll server chunks = .ok next ∧ next.After server (total ++ chunks.flatten) := by
  induction chunks generalizing records total with
  | nil =>
    refine ⟨records, rfl, ?_⟩
    rwa [flatten_nil, append_nil]
  | cons chunk chunks ih =>
    obtain ⟨hchunk, hchunks⟩ := forall_mem_cons.mp hchunks
    obtain ⟨last, next, hfeed, hafter⟩ := h.feed hchunk
    rw [Records.feedAll, hfeed, flatten_cons, ← append_assoc]
    exact ih hafter hchunks

end Records

example : (Records.default.feed [23, 3, 3, 0, 4, 1, 2, 3, 4] false).map Prod.fst = .ok true := by
  decide

/-! ## Records below and inside -/

/-- Below, `RecordIo` hands on the stream as it is and never reads beyond the record in progress,
whatever the buffers and the stream's answers; it is at a boundary after a whole number of records,
and an end elsewhere is an error. Inside, what `Records` learns depends on the bytes and not on how
they were cut; no access is out of range, and the buffers are bounded. -/
theorem vision_records :
    (∀ stream steps bytes last, (RecordIo.new stream).polls steps = (bytes, last) →
      bytes ++ last.io = stream ∧ (last.atBoundary = true ↔ Whole bytes) ∧
      (∃ whole part, bytes = whole ++ part ∧ Whole whole ∧
        (∃ tail, tail ≠ [] ∧ IsRecord (part ++ tail)) ∧
        ∀ room behaviour, ∃ tail,
          IsRecord (part ++ (last.pollRead room behaviour).1.bytes ++ tail)) ∧
      ∀ room size, 0 < room → last.io = [] → ¬ Whole bytes →
        (last.pollRead room (.ready size)).1 = .failed) ∧
    (∀ server chunks chunks', (∀ chunk ∈ chunks, chunk.length ≤ 65535) →
      (∀ chunk ∈ chunks', chunk.length ≤ 65535) → chunks.flatten = chunks'.flatten →
      ∃ records records', Records.default.feedAll server chunks = .ok records ∧
        Records.default.feedAll server chunks' = .ok records' ∧
        records.enabled = records'.enabled ∧ records.seenTls = records'.seenTls ∧
        records.failed = records'.failed) ∧
    (∀ records bytes server, Returns (Records.feed records bytes server)) ∧
    (∀ bytes, Safe (serverHello bytes)) ∧
    ∀ server chunks, ∃ records, Records.default.feedAll server chunks = .ok records ∧
      records.bytes.length ≤ 131072 ∧ records.handshake.length ≤ 65536 := by
  refine ⟨fun stream steps bytes last hsteps => ?_, fun server chunks chunks' hchunks hchunks' heq => ?_,
    Records.returns_feed, safe_serverHello, fun server chunks => ?_⟩
  · obtain ⟨hio, whole, part, hposition⟩ :=
      RecordIo.polls_spec (RecordIo.position_new stream) steps
    rw [hsteps] at hio hposition
    rw [nil_append] at hposition
    refine ⟨hio, hposition.atBoundary_iff, ⟨whole, part, hposition.split, hposition.whole,
      hposition.exists_tail, fun room behaviour => (hposition.pollRead room behaviour).1⟩,
      fun room size hroom hend hinside => ?_⟩
    exact RecordIo.pollRead_end hroom hend fun h => hinside (hposition.atBoundary_iff.mp h)
  · obtain ⟨records, hfeed, hafter⟩ := (Records.after_default server).feedAll hchunks
    obtain ⟨records', hfeed', hafter'⟩ := (Records.after_default server).feedAll hchunks'
    rw [heq] at hafter
    obtain rfl := hafter.unique hafter'
    exact ⟨records, records, hfeed, hfeed', rfl, rfl, rfl⟩
  · obtain ⟨records, hfeed, hbounded⟩ :=
      Records.Bounded.feedAll (show Records.default.Bounded from ⟨Nat.zero_le _, Nat.zero_le _⟩)
        server chunks
    exact ⟨records, hfeed, hbounded.bytes, hbounded.handshake⟩

/-- A record without content ends a read of 64 bytes, and counts the same in two pieces. -/
theorem vision_records_empty_record :
    (RecordIo.new [22, 3, 3, 0, 0, 9]).polls [(64, .ready 64)] = ([22, 3, 3, 0, 0], ⟨[9], [], 0⟩) ∧
    Whole [22, 3, 3, 0, 0] ∧
    ∃ records records', Records.default.feedAll false [[23, 3], [3, 0, 0]] = .ok records ∧
      Records.default.feedAll false [[23, 3, 3, 0, 0]] = .ok records' ∧
      records.enabled = records'.enabled ∧ records.seenTls = records'.seenTls ∧
      records.failed = records'.failed := by
  have hpolls : (RecordIo.new [22, 3, 3, 0, 0, 9]).polls [(64, .ready 64)] =
      ([22, 3, 3, 0, 0], ⟨[9], [], 0⟩) := by
    decide
  exact ⟨hpolls, (vision_records.1 _ _ _ _ hpolls).2.1.mp rfl,
    vision_records.2.1 false [[23, 3], [3, 0, 0]] [[23, 3, 3, 0, 0]] (by simp) (by simp) rfl⟩

end Sockrocket
