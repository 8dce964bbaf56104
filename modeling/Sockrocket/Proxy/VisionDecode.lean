import Sockrocket.Proxy.Vision

/-!
# Reading a Vision stream

What a reader makes of the bytes of its peer, against `contents`, which says it of the stream as a
whole. `todo` is what a reader in the middle of a stream has still to deliver. A turn of `poll_read`
keeps it, up to the bytes it delivers, and takes some `work` off; so the frames come out whole and in
order whatever pieces they came in, and a frame without content is passed over.
-/

namespace Sockrocket

open Dns AsyncIo List

/-! ## The contents of a stream -/

/-- What stands at the front of some bytes. -/
inductive Front where
  | waiting
  | bad (error : VisionError)
  | frame (command : Nat) (content : Bytes) (size : Nat)
deriving DecidableEq, Repr

/-- The frame at the front, after the user if it is the first. -/
def front (uuid : Uuid) (first : Bool) (bytes : Bytes) : Front :=
  let start := if first then 16 else 0
  if bytes.length < start + 5 then .waiting
  else if first && bytes.take 16 != uuid.bytes then .bad .invalidUuid
  else if 2 < byteAt bytes start then .bad .invalidCommand
  else
    let size := start + 5 + u16At bytes (start + 1) + u16At bytes (start + 3)
    if bytes.length < size then .waiting
    else .frame (byteAt bytes start) ((bytes.drop (start + 5)).take (u16At bytes (start + 1))) size

variable {first : Bool} {bytes : Bytes} {uuid : Uuid}

/-- More bytes do not change what stands at the front. -/
theorem front_append (h : front uuid first bytes ≠ .waiting) (more : Bytes) :
    front uuid first (bytes ++ more) = front uuid first bytes := by
  unfold front at h ⊢
  dsimp only at h ⊢
  generalize hstart : (if first then 16 else 0) = start at h ⊢
  split at h
  · exact absurd rfl h
  rename_i hlength
  have htake : (first && (bytes ++ more).take 16 != uuid.bytes) =
      (first && bytes.take 16 != uuid.bytes) := by
    cases first with
    | false => rfl
    | true =>
      rw [if_pos rfl] at hstart
      rw [take_append_of_le_length (by omega)]
  rw [if_neg (by rw [length_append]; omega), if_neg hlength, htake,
    byteAt_append (by omega), u16At_append (by omega), u16At_append (by omega)]
  split
  · rfl
  rename_i huser
  rw [if_neg huser] at h
  split
  · rfl
  rename_i hcommand
  rw [if_neg hcommand] at h
  split at h
  · exact absurd rfl h
  rename_i hsize
  rw [if_neg (by rw [length_append]; omega), if_neg hsize, drop_append_of_le_length (by omega),
    take_append_of_le_length (by rw [length_drop]; omega)]

variable {content : Bytes} {command size : Nat}

/-- A frame holds its content. -/
theorem front_frame
    (h : front uuid first bytes = .frame command content size) :
    command ≤ 2 ∧ content.length + 5 ≤ size ∧ size ≤ bytes.length := by
  unfold front at h
  dsimp only at h
  generalize (if first then 16 else 0) = start at h
  split at h
  · cases h
  split at h
  · cases h
  split at h
  · cases h
  split at h
  · cases h
  rename_i hcommand hsize
  injection h with hcommand' hcontent hsize'
  subst hcommand' hcontent hsize'
  rw [length_take]
  omega

theorem front_bad {e : VisionError} (h : front uuid first bytes = .bad e) :
    e = .invalidUuid ∨ e = .invalidCommand := by
  unfold front at h
  dsimp only at h
  generalize (if first then 16 else 0) = start at h
  split at h
  · cases h
  split at h
  · exact .inl (Front.bad.inj h).symm
  · split at h
    · exact .inr (Front.bad.inj h).symm
    · split at h <;> cases h

/-- Less than a frame is short. -/
theorem front_waiting (h : front uuid first bytes = .waiting) : bytes.length ≤ visionMaxFrame := by
  unfold front at h
  dsimp only at h
  have hstart : (if first then 16 else 0) ≤ 16 := by
    split <;> omega
  generalize (if first then 16 else 0) = start at h hstart
  have hcontent := u16At_lt bytes (start + 1)
  have hpadding := u16At_lt bytes (start + 3)
  rw [visionMaxFrame]
  split at h
  · omega
  split at h
  · cases h
  split at h
  · cases h
  · split at h
    · omega
    · cases h

/-- Bytes of a stream, and whether the stream is well formed up to its end. -/
structure Contents where
  bytes : Bytes
  sound : Bool
deriving DecidableEq, Repr

/-- What a stream of frames carries: the contents of its frames, and after a command the rest as it
is, followed by the raw bytes if these come around the TLS layer. -/
def contents (uuid : Uuid) (first : Bool) (bytes raw : Bytes) : Contents :=
  match _h : front uuid first bytes with
  | .waiting => ⟨[], bytes.isEmpty⟩
  | .bad _ => ⟨[], false⟩
  | .frame command content size =>
    let rest := bytes.drop size
    if command = 0 then
      let more := contents uuid false rest raw
      ⟨content ++ more.bytes, more.sound⟩
    else if command = 1 then ⟨content ++ rest, true⟩
    else ⟨content ++ (rest ++ raw), rest.isEmpty⟩
termination_by bytes.length
decreasing_by
  have hframe := front_frame _h
  rw [List.length_drop]
  omega

theorem contents_waiting (h : front uuid first bytes = .waiting) (raw : Bytes) :
    contents uuid first bytes raw = ⟨[], bytes.isEmpty⟩ := by
  rw [contents]
  split <;> rename_i heq
  · rfl
  · cases h.symm.trans heq
  · cases h.symm.trans heq

theorem contents_bad {error : VisionError} (h : front uuid first bytes = .bad error) (raw : Bytes) :
    contents uuid first bytes raw = ⟨[], false⟩ := by
  rw [contents]
  split <;> rename_i heq
  · cases h.symm.trans heq
  · rfl
  · cases h.symm.trans heq

theorem contents_frame
    (h : front uuid first bytes = .frame command content size) (raw : Bytes) :
    contents uuid first bytes raw =
      if command = 0 then ⟨content ++ (contents uuid false (bytes.drop size) raw).bytes,
        (contents uuid false (bytes.drop size) raw).sound⟩
      else if command = 1 then ⟨content ++ bytes.drop size, true⟩
      else ⟨content ++ (bytes.drop size ++ raw), (bytes.drop size).isEmpty⟩ := by
  rw [contents]
  split <;> rename_i heq
  · cases h.symm.trans heq
  · cases h.symm.trans heq
  · injection h.symm.trans heq with hcommand hcontent hsize
    subst hcommand hcontent hsize
    rfl

theorem contents_nil (uuid : Uuid) (first : Bool) (raw : Bytes) :
    contents uuid first [] raw = ⟨[], true⟩ := by
  refine contents_waiting ?_ raw
  rw [front]
  exact if_pos (Nat.succ_pos _)

/-- The user in front of a frame. -/
def head (uuid : Uuid) (first : Bool) : Bytes :=
  if first then uuid.bytes else []

theorem length_head (uuid : Uuid) (first : Bool) :
    (head uuid first).length = if first then 16 else 0 := by
  cases first with
  | false => rfl
  | true => exact uuid.size

/-- A frame that a writer encoded is read as it was. -/
theorem front_encode (uuid : Uuid) (first : Bool) {frame : VisionFrame} (hexact : frame.Exact)
    (hcommand : frame.command.toNat ≤ 2) (rest : Bytes) :
    front uuid first (head uuid first ++ (frame.encode ++ rest)) =
      .frame frame.command.toNat frame.content ((head uuid first).length + frame.encode.length) := by
  obtain ⟨command, padding, content⟩ := frame
  obtain ⟨hcontent, hpadding⟩ := hexact
  dsimp only at hcommand hcontent hpadding
  have hencode : VisionFrame.encode ⟨command, padding, content⟩ = command ::
      UInt8.ofNat (content.length / 256) :: UInt8.ofNat content.length ::
      UInt8.ofNat (padding / 256) :: UInt8.ofNat padding ::
      (content ++ replicate padding 0) := rfl
  have hlength : (VisionFrame.encode ⟨command, padding, content⟩).length =
      5 + content.length + padding := by
    rw [hencode]
    simp only [length_cons, length_append, length_replicate]
    omega
  generalize hbytes : head uuid first ++ (VisionFrame.encode ⟨command, padding, content⟩ ++ rest) =
    bytes
  have htotal : bytes.length = (head uuid first).length + 5 + content.length + padding + rest.length := by
    rw [← hbytes, length_append, length_append, hlength]
    omega
  have huser : (first && bytes.take 16 != uuid.bytes) = false := by
    cases first with
    | false => rfl
    | true =>
      rw [← hbytes, head, if_pos rfl, ← uuid.size, take_left, bne_self_eq_false]
      rfl
  have hfirst : byteAt bytes (head uuid first).length = command.toNat := by
    rw [← hbytes]
    exact byteAt_append_right _ _ 0
  have hsecond : u16At bytes ((head uuid first).length + 1) = content.length := by
    rw [← hbytes, u16At_append_right]
    exact hcontent
  have hthird : u16At bytes ((head uuid first).length + 3) = padding := by
    rw [← hbytes, u16At_append_right]
    exact hpadding
  have hbody : (bytes.drop ((head uuid first).length + 5)).take content.length = content := by
    rw [← hbytes, ← drop_drop, drop_left]
    show (content ++ replicate padding 0 ++ rest).take content.length = content
    rw [append_assoc, take_left]
  rw [front, ← length_head uuid first]
  dsimp only
  rw [hfirst, hsecond, hthird, huser, hbody, hlength, if_neg (by omega), if_neg Bool.false_ne_true,
    if_neg (by omega), if_neg (by omega)]
  congr 1
  omega

namespace VisionStream

/-! ## What is left to read -/

/-- The plain bytes to come after the head of the response. -/
def afterResponse (this : VisionStream) : Bytes :=
  if this.responseDone then this.tls.plain
  else
    match this.responseLeft with
    | some left => this.tls.plain.drop left
    | none => (this.response ++ this.tls.plain).drop
        (2 + byteAt (this.response ++ this.tls.plain) 1)

/-- What the reader has still to deliver, after what it holds ready. -/
def body (this : VisionStream) : Contents :=
  if this.readingPadding then
    contents this.uuid this.firstRead (this.encoded ++ this.afterResponse) this.tls.raw
  else if this.rawRead then ⟨this.tls.plain ++ this.tls.raw, true⟩
  else ⟨this.encoded ++ this.tls.plain, true⟩

/-- What the reader has still to deliver. -/
def todo (this : VisionStream) : Bytes :=
  this.ready ++ this.body.bytes

/-- What there is to do before the end of the stream. A byte goes from the layer to the frames and
from there to the caller. -/
def work (this : VisionStream) : Nat :=
  3 * this.tls.plain.length + 2 * this.encoded.length + this.ready.length + this.tls.raw.length +
    if this.responseDone then 0 else 1

/-- The reader's phases: the head of the response, frames, and bytes as they are. -/
structure Reading (this : VisionStream) : Prop where
  head : this.responseDone = false →
    this.readingPadding = true ∧ this.encoded = [] ∧ this.rawRead = false
  response : this.responseDone = false → this.responseLeft = none → this.response.length < 2
  rawRead : this.rawRead = true → this.readingPadding = false

/-- A turn or a poll that delivered these bytes. -/
structure Delivers (this next : VisionStream) (bytes : Bytes) : Prop where
  reading : next.Reading
  bytes : this.todo = bytes ++ next.todo
  sound : this.body.sound = true → next.body.sound = true
  done : this.responseDone = true → next.responseDone = true
  failed : next.failed = this.failed

/-- How a turn or a poll goes on: it takes work off, waits for a layer, brings bytes, comes to the
end, or fails. The three propositions say when a layer may wait or fail, and that the TLS layer is
between two records at the end of its plain bytes. -/
inductive Outcome (this : VisionStream) (waits fails boundary : Prop) :
    Option (VisionPoll Bytes) → VisionStream → Prop where
  | again {next} : this.Delivers next [] → next.work < this.work →
      Outcome this waits fails boundary none next
  | waiting {next} : this.Delivers next [] → next.work ≤ this.work → waits →
      Outcome this waits fails boundary (some none) next
  | brings {next bytes} : this.Delivers next bytes → bytes ≠ [] → next.work < this.work →
      Outcome this waits fails boundary (some (some (.ok bytes))) next
  | ends {next} : this.Delivers next [] → this.todo = [] → next.work ≤ this.work →
      Outcome this waits fails boundary (some (some (.ok []))) next
  | failing {next e} : e ≠ .exceedsLimit → (e = .io → fails) →
      (e ≠ .io → e ≠ .insideRecord → e ≠ .invalidResponse → this.todo = []) →
      (this.responseDone = true → this.body.sound = true → boundary → e = .io) →
      Outcome this waits fails boundary (some (some (.error e))) next

/-- `decode` in terms of what stands at the front. -/
theorem decode_padding {this : VisionStream} (h : this.readingPadding) (boundary : Bool) :
    this.decode boundary =
      match front this.uuid this.firstRead this.encoded with
      | .waiting => (.ok false, this)
      | .bad error => (.error error, this)
      | .frame command content size =>
        let inbound := (this.inbound.fed content true).2
        let rest := this.encoded.drop size
        if command = 0 then
          (.ok (!content.isEmpty),
            { this with ready := content, inbound, encoded := rest, firstRead := false })
        else
          let next := { this with
            inbound
            ready := content ++ rest
            encoded := []
            firstRead := false
            readingPadding := false }
          if command = 2 then
            if !boundary then (.error .insideRecord, next)
            else (.ok (!next.ready.isEmpty), { next with rawRead := true })
          else (.ok (!next.ready.isEmpty), next) := by
  unfold decode front
  dsimp only
  rw [if_neg (show ¬ (!this.readingPadding) = true by rw [h]; exact Bool.false_ne_true)]
  generalize (if this.firstRead then 16 else 0) = start
  by_cases hlength : this.encoded.length < start + 5
  · rw [if_pos hlength, if_pos hlength]
  rw [if_neg hlength, if_neg hlength]
  by_cases huser : (this.firstRead && this.encoded.take 16 != this.uuid.bytes)
  · rw [if_pos huser, if_pos huser]
  rw [if_neg huser, if_neg huser]
  by_cases hcommand : 2 < byteAt this.encoded start
  · rw [if_pos hcommand, if_pos hcommand]
  rw [if_neg hcommand, if_neg hcommand]
  by_cases hsize : this.encoded.length <
      start + 5 + u16At this.encoded (start + 1) + u16At this.encoded (start + 3)
  · rw [if_pos hsize, if_pos hsize]
  · rw [if_neg hsize, if_neg hsize]

/-! ## Turns -/

section Turn

variable {this : VisionStream} {answers : ReadAnswers}

/-- How a turn goes on, for the answers of the layers in it. -/
def TurnOutcome (this : VisionStream) (answers : ReadAnswers) :
    Option (VisionPoll Bytes) × VisionStream → Prop
  | (out, next) => this.Outcome (answers.tls = .pending ∨ answers.below = .pending)
      (answers.tls = .failed ∨ answers.below = .failed) (answers.boundary [] = true) out next

/-- Nothing was delivered and what is left is the same. -/
theorem Delivers.of_body {next : VisionStream} (hreading : next.Reading)
    (hready : next.ready = this.ready) (hbody : next.body = this.body)
    (hdone : this.responseDone → next.responseDone)
    (hfailed : next.failed = this.failed) : this.Delivers next [] where
  reading := hreading
  bytes := by rw [todo, todo, hready, hbody, nil_append]
  sound := fun h => by rw [hbody, h]
  done := hdone
  failed := hfailed

theorem Delivers.refl (h : this.Reading) : this.Delivers this [] :=
  .of_body h rfl rfl id rfl

/-- The failure of a layer. -/
theorem TurnOutcome.io (h : answers.tls = .failed ∨ answers.below = .failed) (next : VisionStream) :
    this.TurnOutcome answers (some (some (.error .io)), next) :=
  .failing nofun (fun _ => h) (fun h => absurd rfl h) fun _ _ _ => rfl

variable {room : Nat}

/-- Deliver what is ready. -/
theorem readyTurn (h : this.Reading) (hready : this.ready ≠ []) (hroom : 0 < room) :
    this.TurnOutcome answers
      (some (some (.ok (this.ready.take (min room this.ready.length)))),
        { this with ready := this.ready.drop (min room this.ready.length) }) := by
  have hlength := length_pos_iff.mpr hready
  refine .brings ⟨⟨h.head, h.response, h.rawRead⟩, ?_, id, id, rfl⟩ ?_ ?_
  · show this.ready ++ this.body.bytes = this.ready.take _ ++ (this.ready.drop _ ++ this.body.bytes)
    rw [← append_assoc, take_append_drop]
  · intro hnil
    have hzero := congrArg length hnil
    rw [length_take, length_nil] at hzero
    omega
  · simp only [length_drop, work]
    omega

theorem body_of_padding (h : this.readingPadding) : this.body =
    contents this.uuid this.firstRead (this.encoded ++ this.afterResponse) this.tls.raw :=
  if_pos h

theorem afterResponse_of_done (h : this.responseDone) :
    this.afterResponse = this.tls.plain :=
  if_pos h

theorem afterResponse_of_left (left : Nat) (h : this.responseDone = false)
    (hleft : this.responseLeft = some left) : this.afterResponse = this.tls.plain.drop left := by
  rw [afterResponse, h, hleft]
  rfl

theorem afterResponse_of_none (h : this.responseDone = false) (hleft : this.responseLeft = none) :
    this.afterResponse = (this.response ++ this.tls.plain).drop
      (2 + byteAt (this.response ++ this.tls.plain) 1) := by
  rw [afterResponse, h, hleft]
  rfl

/-- A turn in the head of the response that leaves the bytes after it the same. -/
theorem Delivers.of_head {next : VisionStream} (h : this.Reading) (hdone : this.responseDone = false)
    (hnext : next.Reading) (hpadding : next.readingPadding)
    (hbody : contents next.uuid next.firstRead (next.encoded ++ next.afterResponse) next.tls.raw =
      contents this.uuid this.firstRead (this.encoded ++ next.afterResponse) this.tls.raw)
    (hafter : next.afterResponse = this.afterResponse) (hready : next.ready = this.ready)
    (hfailed : next.failed = this.failed) : this.Delivers next [] := by
  refine .of_body hnext hready ?_ (fun hd => ?_) hfailed
  · rw [body_of_padding hpadding, hbody, hafter, body_of_padding (h.head hdone).1]
  · rw [hdone] at hd
    cases hd

/-- A turn on the head of the response. -/
theorem responseTurn_outcome (h : this.Reading) (hready : this.ready = [])
    (hdone : this.responseDone = false) : this.TurnOutcome answers (this.responseTurn answers) := by
  obtain ⟨hpadding, hencoded, hraw⟩ := h.head hdone
  unfold responseTurn
  dsimp only
  split
  · -- all of the head was read
    rename_i hneed
    have hleft : this.responseLeft = some 0 := by
      cases hleft : this.responseLeft with
      | none =>
        have hlength := h.response hdone hleft
        rw [hleft, Option.getD_none] at hneed
        omega
      | some left =>
        rw [hleft, Option.getD_some] at hneed
        rw [hneed]
    refine .again (.of_head h hdone ⟨nofun, nofun, h.rawRead⟩
      hpadding rfl ?_ rfl rfl) ?_
    · rw [afterResponse_of_left _ hdone hleft]
      rfl
    · show 3 * this.tls.plain.length + 2 * this.encoded.length + this.ready.length +
        this.tls.raw.length + 0 < this.work
      rw [work, hdone, if_neg Bool.false_ne_true]
      omega
  · rename_i hneed
    split
    · rename_i hread
      exact .waiting (.refl h) le_rfl (.inl (Behaviour.eq_pending_of_read hread))
    · rename_i hread
      exact TurnOutcome.io (.inl (Behaviour.eq_failed_of_read hread)) this
    rename_i chunk plain hread
    have hplain := Behaviour.append_of_read hread
    have hlength := Behaviour.length_of_read hread
    split
    · -- the stream ended
      rename_i hchunk
      obtain rfl := List.isEmpty_iff.mp hchunk
      have hend := Behaviour.source_of_read_nil (Nat.pos_of_ne_zero hneed) hread
      refine .failing nofun nofun (fun _ _ _ => ?_)
        (fun hd => by rw [hdone] at hd; cases hd)
      have hafter : this.afterResponse = [] := by
        cases hleft : this.responseLeft with
        | none =>
          have hshort := h.response hdone hleft
          rw [afterResponse_of_none hdone hleft, hend, append_nil]
          exact drop_of_length_le (by omega)
        | some left => rw [afterResponse_of_left _ hdone hleft, hend, drop_nil]
      rw [todo, hready, body_of_padding hpadding, hencoded, hafter, append_nil, contents_nil]
      rfl
    · rename_i hchunk
      have hpos : 0 < chunk.length :=
        length_pos_iff.mpr fun hnil => hchunk (List.isEmpty_iff.mpr hnil)
      have htotal : this.tls.plain.length = chunk.length + plain.length := by
        rw [← hplain, length_append]
      have hwork : 3 * plain.length + 2 * this.encoded.length + this.ready.length +
          this.tls.raw.length + (if this.responseDone then 0 else 1) < this.work := by
        rw [work, htotal]
        omega
      split
      · rename_i left hleft
        change this.responseLeft = some left at hleft
        rw [hleft, Option.getD_some] at hlength
        refine .again (.of_head h hdone ⟨h.head, nofun, h.rawRead⟩
          hpadding rfl ?_ rfl rfl) hwork
        refine (afterResponse_of_left (left - chunk.length) (by exact hdone) (by rfl)).trans ?_
        show plain.drop (left - chunk.length) = this.afterResponse
        rw [afterResponse_of_left _ hdone hleft, ← hplain, drop_append,
          drop_of_length_le hlength, nil_append]
      · rename_i hleft
        change this.responseLeft = none at hleft
        have hshort := h.response hdone hleft
        rw [hleft, Option.getD_none] at hlength
        have hjoin : this.response ++ this.tls.plain = (this.response ++ chunk) ++ plain := by
          rw [← hplain, append_assoc]
        split
        · rename_i htwo
          change (this.response ++ chunk).length = 2 at htwo
          split
          · exact .failing nofun nofun
              (fun _ _ he => absurd rfl he) (fun hd => by rw [hdone] at hd; cases hd)
          refine .again (.of_head h hdone ⟨h.head, nofun, h.rawRead⟩
            hpadding rfl ?_ rfl rfl) hwork
          refine (afterResponse_of_left (byteAt (this.response ++ chunk) 1) (by exact hdone)
            (by rfl)).trans ?_
          show plain.drop _ = this.afterResponse
          rw [afterResponse_of_none hdone hleft, hjoin,
            byteAt_append (show 1 < (this.response ++ chunk).length by omega), ← htwo,
            ← drop_drop, drop_left]
        · rename_i htwo
          change ¬ (this.response ++ chunk).length = 2 at htwo
          refine .again (.of_head h hdone ⟨h.head, fun _ _ => ?_, h.rawRead⟩
            hpadding rfl ?_ rfl rfl) hwork
          · show (this.response ++ chunk).length < 2
            rw [length_append] at htwo ⊢
            omega
          · rw [afterResponse_of_none hdone hleft, hjoin]
            exact afterResponse_of_none (by exact hdone) (by exact hleft)

/-- A turn after the change to raw bytes. -/
theorem rawTurn_outcome (h : this.Reading) (hready : this.ready = []) (hraw : this.rawRead) (hroom : 0 < room) :
    this.TurnOutcome answers (some (this.rawTurn room answers).1, (this.rawTurn room answers).2) := by
  have hpadding := h.rawRead hraw
  have hbody (next : VisionStream) (hnext : next.readingPadding = false) (hr : next.rawRead) :
      next.body = ⟨next.tls.plain ++ next.tls.raw, true⟩ := by
    rw [body, hnext, hr]
    rfl
  unfold rawTurn
  dsimp only
  split
  · rename_i hfailed
    exact TurnOutcome.io (.inl hfailed) this
  split
  · rename_i hplain
    have hpos : 0 < this.tls.plain.length := by
      rw [Bool.not_eq_true', isEmpty_eq_false_iff] at hplain
      exact length_pos_iff.mpr hplain
    generalize hn : min _ (min room visionChunk) = n
    have hone : 1 ≤ n := by
      rw [← hn, visionChunk]
      split <;> omega
    have hnext := hbody (this.withPlain (this.tls.plain.drop n)) hpadding hraw
    refine .brings ⟨⟨h.head, h.response, h.rawRead⟩, ?_, fun _ => by rw [hnext], id, rfl⟩ ?_ ?_
    · show this.ready ++ this.body.bytes = this.tls.plain.take n ++
        (this.ready ++ (this.withPlain (this.tls.plain.drop n)).body.bytes)
      rw [hbody this hpadding hraw, hnext, hready]
      show this.tls.plain ++ this.tls.raw = this.tls.plain.take n ++
        (this.tls.plain.drop n ++ this.tls.raw)
      rw [← append_assoc, take_append_drop]
    · intro hnil
      have hzero := congrArg length hnil
      rw [length_take, length_nil] at hzero
      omega
    · show 3 * (this.tls.plain.drop n).length + 2 * this.encoded.length + this.ready.length +
        this.tls.raw.length + (if this.responseDone then 0 else 1) < this.work
      rw [work, length_drop]
      omega
  · rename_i hplain
    rw [Bool.not_eq_true', Bool.not_eq_false, List.isEmpty_iff] at hplain
    split
    · rename_i hread
      exact .waiting (.refl h) le_rfl (.inr (Behaviour.eq_pending_of_read hread))
    · rename_i hread
      exact TurnOutcome.io (.inr (Behaviour.eq_failed_of_read hread)) this
    rename_i bytes raw hread
    have happend := Behaviour.append_of_read hread
    have hnext := hbody { this with tls := { this.tls with raw } } hpadding hraw
    have hdelivers : this.Delivers { this with tls := { this.tls with raw } } bytes := by
      refine ⟨⟨h.head, h.response, h.rawRead⟩, ?_, fun _ => by rw [hnext], id, rfl⟩
      rw [todo, todo, hbody this hpadding hraw, hnext]
      rw [hready, hplain, ← happend]
      rfl
    have hlength : this.tls.raw.length = bytes.length + raw.length := by
      rw [← happend, length_append]
    have hwork : ({ this with tls := { this.tls with raw } } : VisionStream).work + bytes.length =
        this.work := by
      simp only [work, hlength]
      omega
    cases bytes with
    | nil =>
      refine .ends hdelivers ?_ hwork.le
      rw [todo, hbody this hpadding hraw, hplain, hready, Behaviour.source_of_read_nil hroom hread]
      rfl
    | cons b bytes =>
      exact .brings hdelivers (cons_ne_nil _ _)
        (lt_of_lt_of_le (Nat.lt_add_of_pos_right (Nat.succ_pos _)) hwork.le)

/-- A read for more, when the bytes so far do not hold a frame. -/
theorem moreTurn_outcome (h : this.Reading) (hready : this.ready = [])
    (hdone : this.responseDone) (hraw : this.rawRead = false)
    (hfront : this.readingPadding → front this.uuid this.firstRead this.encoded = .waiting)
    (hplain : this.readingPadding = false → this.encoded = []) :
    this.TurnOutcome answers (this.moreTurn answers) := by
  unfold moreTurn
  split
  · rename_i hread
    exact .waiting (.refl h) le_rfl (.inl (Behaviour.eq_pending_of_read hread))
  · rename_i hread
    exact TurnOutcome.io (.inl (Behaviour.eq_failed_of_read hread)) this
  rename_i chunk plain hread
  have happend := Behaviour.append_of_read hread
  have hbody {next : VisionStream} (hpadding : next.readingPadding = this.readingPadding)
      (hrest : next.encoded ++ next.tls.plain = this.encoded ++ this.tls.plain)
      (huuid : next.uuid = this.uuid) (hfirst : next.firstRead = this.firstRead)
      (htail : next.tls.raw = this.tls.raw) (hraw' : next.rawRead = this.rawRead)
      (hdone' : next.responseDone = this.responseDone) : next.body = this.body := by
    rw [body, body, afterResponse_of_done hdone, afterResponse_of_done (hdone'.trans hdone),
      hpadding, hrest, huuid, hfirst, htail, hraw', hraw]
    rfl
  dsimp only
  split
  · -- the stream ended
    rename_i hchunk
    obtain rfl := List.isEmpty_iff.mp hchunk
    have hend := Behaviour.source_of_read_nil (by decide) hread
    have hdelivers : this.Delivers (this.withPlain plain) [] := by
      refine .of_body ⟨h.head, h.response, h.rawRead⟩ rfl
        (hbody rfl ?_ rfl rfl rfl rfl rfl) id rfl
      show this.encoded ++ plain = this.encoded ++ this.tls.plain
      rw [← happend, nil_append]
    have hpadded (hencoded : this.encoded ≠ []) : this.readingPadding := by
      by_contra hfalse
      exact hencoded (hplain (Bool.eq_false_of_not_eq_true hfalse))
    have htodo : this.todo = [] := by
      by_cases hpadding : this.readingPadding
      · rw [todo, hready, body_of_padding hpadding, afterResponse_of_done hdone, hend,
          append_nil, contents_waiting (hfront hpadding)]
        rfl
      · have hfalse := Bool.eq_false_of_not_eq_true hpadding
        rw [todo, hready, body, hfalse, hraw, hplain hfalse, hend]
        rfl
    split
    · refine .ends hdelivers htodo ?_
      show 3 * plain.length + 2 * this.encoded.length + this.ready.length +
        this.tls.raw.length + (if this.responseDone then 0 else 1) ≤ this.work
      rw [work, ← happend, nil_append]
    · rename_i hencoded
      have hne : this.encoded ≠ [] := fun hnil => hencoded (List.isEmpty_iff.mpr hnil)
      refine .failing nofun nofun (fun _ _ _ => htodo)
        fun _ hsound _ => ?_
      have hpadding := hpadded hne
      rw [body_of_padding hpadding, afterResponse_of_done hdone, hend, append_nil,
        contents_waiting (hfront hpadding)] at hsound
      exact absurd (List.isEmpty_iff.mp hsound) hne
  · rename_i hchunk
    have hpos : 0 < chunk.length :=
      length_pos_iff.mpr fun hnil => hchunk (List.isEmpty_iff.mpr hnil)
    refine .again (.of_body ⟨fun hd => ?_, h.response, h.rawRead⟩ rfl
      (hbody rfl ?_ rfl rfl rfl rfl rfl) id rfl) ?_
    · have hd : this.responseDone = false := hd
      rw [hdone] at hd
      cases hd
    · show this.encoded ++ chunk ++ plain = this.encoded ++ this.tls.plain
      rw [← happend, append_assoc]
    · show 3 * plain.length + 2 * (this.encoded ++ chunk).length + this.ready.length +
        this.tls.raw.length + (if this.responseDone then 0 else 1) < this.work
      rw [work, ← happend, length_append, length_append]
      omega

/-- A turn that took something off the frames goes on, whether or not it made something ready. -/
theorem frameTurn_of_decode {next : VisionStream} {made boundary : Bool}
    (hboundary : answers.boundary this.tls.plain = boundary)
    (hdecode : this.decode boundary = (.ok made, next))
    (hless : next.encoded.length < this.encoded.length) :
    this.frameTurn answers = (none, next) := by
  rw [frameTurn, hboundary, hdecode]
  cases made with
  | true => rfl
  | false => exact if_pos hless

/-- A turn on frames. -/
theorem frameTurn_outcome (h : this.Reading) (hready : this.ready = [])
    (hdone : this.responseDone) (hraw : this.rawRead = false) :
    this.TurnOutcome answers (this.frameTurn answers) := by
  by_cases hpadding : this.readingPadding
  · have hafter := afterResponse_of_done hdone
    have hhead (next : VisionStream) (hnext : next.responseDone = this.responseDone) :
        next.responseDone = false → next.readingPadding ∧ next.encoded = [] ∧
          next.rawRead = false := by
      rw [hnext, hdone]
      exact nofun
    have hdecode := decode_padding hpadding (answers.boundary this.tls.plain)
    cases hfront : front this.uuid this.firstRead this.encoded with
    | waiting =>
      rw [hfront] at hdecode
      rw [frameTurn, hdecode]
      dsimp only
      rw [if_neg (lt_irrefl _), if_neg (by rw [hraw]; exact Bool.false_ne_true),
        if_neg (not_lt.mpr (front_waiting hfront))]
      exact moreTurn_outcome h hready hdone hraw (fun _ => hfront)
        fun hfalse => by rw [hpadding] at hfalse; cases hfalse
    | bad e =>
      have hcontents := contents_bad
        ((front_append (by rw [hfront]; exact nofun) this.tls.plain).trans hfront)
        this.tls.raw
      rw [← hafter] at hcontents
      have he := front_bad hfront
      rw [hfront] at hdecode
      rw [frameTurn, hdecode]
      refine .failing ?_ ?_ (fun _ _ _ => ?_) (fun _ hsound _ => ?_)
      · rcases he with rfl | rfl <;> exact nofun
      · rcases he with rfl | rfl <;> exact nofun
      · rw [todo, hready, body_of_padding hpadding, hcontents]
        rfl
      · rw [body_of_padding hpadding, hcontents] at hsound
        cases hsound
    | frame command content size =>
      obtain ⟨hcommand, hcontent, hsize⟩ := front_frame hfront
      have hcontents := contents_frame
        ((front_append (by rw [hfront]; exact nofun) this.tls.plain).trans hfront)
        this.tls.raw
      rw [drop_append_of_le_length hsize, ← hafter] at hcontents
      have hlength : (this.encoded.drop size).length + size = this.encoded.length := by
        rw [length_drop]
        omega
      have hwork {next : VisionStream} (hplain : next.tls.plain = this.tls.plain)
          (hraw' : next.tls.raw = this.tls.raw) (hdone' : next.responseDone = this.responseDone)
          (hless : 2 * next.encoded.length + next.ready.length < 2 * this.encoded.length) :
          next.work < this.work := by
        rw [work, work, hplain, hraw', hdone']
        omega
      have hless : (this.encoded.drop size).length < this.encoded.length := by
        omega
      have htodo : this.todo = (contents this.uuid this.firstRead
          (this.encoded ++ this.afterResponse) this.tls.raw).bytes := by
        rw [todo, hready, body_of_padding hpadding, nil_append]
      rw [hfront] at hdecode
      dsimp only at hdecode
      have hcommand : command = 0 ∨ command = 1 ∨ command = 2 := by
        omega
      rcases hcommand with rfl | rfl | rfl
      · -- a frame among others
        rw [if_pos rfl] at hdecode hcontents
        rw [frameTurn_of_decode rfl hdecode hless]
        refine .again ⟨⟨hhead _ rfl, h.response, fun hr => ?_⟩, ?_, fun hsound => ?_, id, rfl⟩
          (hwork rfl rfl rfl ?_)
        · have hr : this.rawRead := hr
          rw [hraw] at hr
          cases hr
        · rw [htodo, hcontents, todo, body_of_padding (by exact hpadding)]
          rfl
        · rw [body_of_padding hpadding, hcontents] at hsound
          rw [body_of_padding (by exact hpadding)]
          exact hsound
        · dsimp only
          omega
      · -- the rest goes on as it is
        rw [if_neg (by decide), if_neg (by decide)] at hdecode
        rw [if_neg (by decide), if_pos rfl, hafter] at hcontents
        rw [frameTurn_of_decode rfl hdecode (show 0 < this.encoded.length by omega)]
        refine .again ⟨⟨hhead _ rfl, h.response, fun _ => rfl⟩, ?_, fun _ => ?_, id, rfl⟩
          (hwork rfl rfl rfl ?_)
        · rw [htodo, hafter, hcontents, todo, body, if_neg (by exact Bool.false_ne_true),
            if_neg (by rw [hraw]; exact Bool.false_ne_true)]
          show content ++ (this.encoded.drop size ++ this.tls.plain) =
            content ++ this.encoded.drop size ++ this.tls.plain
          rw [append_assoc]
        · rw [body, if_neg (by exact Bool.false_ne_true),
            if_neg (by rw [hraw]; exact Bool.false_ne_true)]
        · show 2 * 0 + (content ++ this.encoded.drop size).length < 2 * this.encoded.length
          rw [length_append]
          omega
      · -- the rest goes around the TLS layer
        rw [if_neg (by decide), if_pos rfl] at hdecode
        rw [if_neg (by decide), if_neg (by decide), hafter] at hcontents
        by_cases hboundary : answers.boundary this.tls.plain
        · rw [hboundary, Bool.not_true, if_neg Bool.false_ne_true] at hdecode
          rw [frameTurn_of_decode hboundary hdecode (show 0 < this.encoded.length by omega)]
          refine .again ⟨⟨hhead _ rfl, h.response, fun _ => rfl⟩, ?_, fun _ => ?_, id, rfl⟩
            (hwork rfl rfl rfl ?_)
          · rw [htodo, hafter, hcontents, todo, body, if_neg (by exact Bool.false_ne_true),
              if_pos (by rfl)]
            simp
          · rw [body, if_neg (by exact Bool.false_ne_true), if_pos (by rfl)]
          · show 2 * 0 + (content ++ this.encoded.drop size).length < 2 * this.encoded.length
            rw [length_append]
            omega
        · have hfalse := Bool.eq_false_of_not_eq_true hboundary
          rw [hfalse, Bool.not_false, if_pos rfl] at hdecode
          rw [frameTurn, hfalse, hdecode]
          refine .failing nofun nofun
            (fun _ he => absurd rfl he) fun _ hsound hend => ?_
          rw [body_of_padding hpadding, hafter, hcontents] at hsound
          have hnil := (append_eq_nil_iff.mp (List.isEmpty_iff.mp hsound)).2
          rw [hnil] at hboundary
          exact absurd hend hboundary
  · have hfalse := Bool.eq_false_of_not_eq_true hpadding
    have hdecode : this.decode (answers.boundary this.tls.plain) =
        (.ok (!this.encoded.isEmpty), { this with ready := this.encoded, encoded := [] }) := by
      rw [decode, hfalse]
      rfl
    have hbody : this.body = ⟨this.encoded ++ this.tls.plain, true⟩ := by
      rw [body, hfalse, hraw]
      rfl
    by_cases hencoded : this.encoded = []
    · have hsame : ({ this with ready := this.encoded, encoded := [] } : VisionStream) = this := by
        cases this
        cases hencoded
        cases hready
        rfl
      rw [hsame, hencoded] at hdecode
      rw [frameTurn, hdecode]
      show this.TurnOutcome answers (if this.encoded.length < this.encoded.length then _ else _)
      rw [if_neg (lt_irrefl _), if_neg (by rw [hraw]; exact Bool.false_ne_true),
        if_neg (by rw [hencoded]; exact Nat.not_lt_zero _)]
      exact moreTurn_outcome h hready hdone hraw (fun hc => absurd hc hpadding) fun _ => hencoded
    · have hpos := length_pos_iff.mpr hencoded
      rw [frameTurn_of_decode rfl hdecode hpos]
      refine .again ⟨⟨fun hd => ?_, h.response, h.rawRead⟩, ?_, fun _ => ?_, id, rfl⟩ ?_
      · have hd : this.responseDone = false := hd
        rw [hdone] at hd
        cases hd
      · rw [todo, todo, hbody, hready, body, if_neg (by exact hpadding),
          if_neg (by rw [hraw]; exact Bool.false_ne_true)]
        rfl
      · rw [body, if_neg (by exact hpadding), if_neg (by rw [hraw]; exact Bool.false_ne_true)]
      · show 3 * this.tls.plain.length + 2 * 0 + this.encoded.length + this.tls.raw.length +
          (if this.responseDone then 0 else 1) < this.work
        rw [work]
        omega

/-- A turn of the loop. -/
theorem readTurn_outcome (h : this.Reading) (hroom : 0 < room) :
    this.TurnOutcome answers (this.readTurn room answers) := by
  unfold readTurn
  split
  · rename_i hready
    rw [Bool.not_eq_true', isEmpty_eq_false_iff] at hready
    exact readyTurn h hready hroom
  rename_i hready
  rw [Bool.not_eq_true', Bool.not_eq_false, List.isEmpty_iff] at hready
  split
  · rename_i hdone
    exact responseTurn_outcome h hready (Bool.not_eq_true' _ ▸ hdone)
  rename_i hdone
  rw [Bool.not_eq_true', Bool.not_eq_false] at hdone
  split
  · rename_i hraw
    exact rawTurn_outcome h hready hraw hroom
  · rename_i hraw
    exact frameTurn_outcome h hready hdone (Bool.eq_false_of_not_eq_true hraw)

end Turn

/-! ## Polls -/

namespace Delivers

variable {this next last : VisionStream} {bytes more : Bytes}

theorem trans (h : this.Delivers next bytes) (h' : next.Delivers last more) :
    this.Delivers last (bytes ++ more) where
  reading := h'.reading
  bytes := by rw [h.bytes, h'.bytes, append_assoc]
  sound := fun hsound => h'.sound (h.sound hsound)
  done := fun hdone => h'.done (h.done hdone)
  failed := h'.failed.trans h.failed

end Delivers

/-- What `poll_read` can do. -/
inductive Polled (this : VisionStream) (answers : Nat → ReadAnswers) :
    VisionPoll Bytes × VisionStream → Prop where
  | pending {next} : this.Delivers next [] → next.work ≤ this.work →
      (next.work < this.work ∨ ∃ i, (answers i).tls = .pending ∨ (answers i).below = .pending) →
      Polled this answers (none, next)
  | brings {next bytes} : this.Delivers next bytes → bytes ≠ [] → next.work < this.work →
      Polled this answers (some (.ok bytes), next)
  | ends {next} : this.Delivers next [] → this.todo = [] →
      Polled this answers (some (.ok []), next)
  | fails {next e} : next.failed = true → e ≠ .exceedsLimit →
      (e ≠ .io → e ≠ .insideRecord → e ≠ .invalidResponse → this.todo = []) →
      (this.responseDone = true → this.body.sound = true → (∀ i, (answers i).boundary [] = true) →
        ∃ i, (answers i).tls = .failed ∨ (answers i).below = .failed) →
      Polled this answers (some (.error e), next)

section Poll

variable {this next : VisionStream} {waits fails boundary : Prop}

variable {out : Option (VisionPoll Bytes)}

/-- A turn that goes on, and what follows. -/
theorem Outcome.after {last : VisionStream}
    (h : this.Delivers next []) (hwork : next.work < this.work)
    (hnext : next.Outcome waits fails boundary out last) :
    this.Outcome waits fails boundary out last := by
  have htodo : this.todo = next.todo := h.bytes
  cases hnext with
  | again hlast hless => exact .again (h.trans hlast) (hless.trans hwork)
  | waiting hlast hle hwaits => exact .waiting (h.trans hlast) (hle.trans hwork.le) hwaits
  | brings hlast hne hless => exact .brings (h.trans hlast) hne (hless.trans hwork)
  | ends hlast hnil hle => exact .ends (h.trans hlast) (htodo.trans hnil) (hle.trans hwork.le)
  | failing hlimit hio hlost hsound =>
    exact .failing hlimit hio (fun a b c => htodo.trans (hlost a b c))
      fun hdone hs hb => hsound (h.done hdone) (h.sound hs) hb

theorem Outcome.mono {waits' fails' boundary' : Prop}
    (h : this.Outcome waits fails boundary out next) (hwaits : waits → waits')
    (hfails : fails → fails') (hboundary : boundary' → boundary) :
    this.Outcome waits' fails' boundary' out next := by
  cases h with
  | again hnext hless => exact .again hnext hless
  | waiting hnext hle hw => exact .waiting hnext hle (hwaits hw)
  | brings hnext hne hless => exact .brings hnext hne hless
  | ends hnext hnil hle => exact .ends hnext hnil hle
  | failing hlimit hio hlost hsound =>
    exact .failing hlimit (fun he => hfails (hio he)) hlost
      fun hdone hs hb => hsound hdone hs (hboundary hb)

/-- How a poll goes on, for the answers of the layers in its turns. After the last turn it goes on as
`again`: it answers `Pending`, and has woken its task. -/
def PollOutcome (this : VisionStream) (answers : Nat → ReadAnswers) :
    Option (VisionPoll Bytes) → VisionStream → Prop :=
  this.Outcome (∃ i, (answers i).tls = .pending ∨ (answers i).below = .pending)
    (∃ i, (answers i).tls = .failed ∨ (answers i).below = .failed)
    (∀ i, (answers i).boundary [] = true)

variable {room : Nat}

/-- The loop takes a turn at least, so it gets on. -/
theorem readLoop_outcome (h : this.Reading) (hroom : 0 < room)
    (answers : Nat → ReadAnswers) (turns : Nat) :
    this.PollOutcome answers (some (readLoop room answers (turns + 1) this).1)
        (readLoop room answers (turns + 1) this).2 ∨
      (readLoop room answers (turns + 1) this).1 = none ∧
        this.PollOutcome answers none (readLoop room answers (turns + 1) this).2 := by
  have hturn {this : VisionStream} (h : this.Reading) (i : Nat) :
      this.PollOutcome answers (this.readTurn room (answers i)).1
        (this.readTurn room (answers i)).2 :=
    (readTurn_outcome h hroom : this.TurnOutcome (answers i) _).mono
      (fun hw => ⟨i, hw⟩) (fun hf => ⟨i, hf⟩) fun hb => hb i
  induction turns generalizing this with
  | zero =>
    have hone := hturn h 0
    rw [readLoop]
    split
    · rename_i heq
      rw [heq] at hone
      exact .inl hone
    · rename_i heq
      rw [heq] at hone
      exact .inr ⟨rfl, hone⟩
  | succ turns ih =>
    have hone := hturn h (turns + 1)
    rw [readLoop]
    split
    · rename_i heq
      rw [heq] at hone
      exact .inl hone
    rename_i next heq
    rw [heq] at hone
    cases hone with
    | again hnext hless =>
      rcases ih hnext.reading with hmore | ⟨hnone, hmore⟩
      · exact .inl (hmore.after hnext hless)
      · exact .inr ⟨hnone, hmore.after hnext hless⟩

theorem pollRead_polled (h : this.Reading) (hopen : this.failed = false)
    (hroom : 0 < room) (answers : Nat → ReadAnswers) :
    this.Polled answers (this.pollRead room answers) := by
  have hloop := readLoop_outcome h hroom answers 63
  rw [pollRead, if_neg (by omega), if_neg (by rw [hopen]; exact Bool.false_ne_true)]
  generalize readLoop room answers 64 this = result at hloop
  obtain ⟨answer, next⟩ := result
  dsimp only at hloop
  rcases hloop with hout | ⟨rfl, hagain⟩
  · cases hout with
    | waiting hnext hle hwaits => exact .pending hnext hle (.inr hwaits)
    | brings hnext hne hless => exact .brings hnext hne hless
    | ends hnext hnil hle => exact .ends hnext hnil
    | failing hlimit hio hlost hsound =>
      exact .fails rfl hlimit hlost fun hdone hs hb => hio (hsound hdone hs hb)
  · cases hagain with
    | again hnext hless => exact .pending hnext hless.le (.inl hless)

end Poll

/-! ## Polls one after the other -/

/-- A call of `poll_read`. -/
structure ReadPoll where
  room : Nat
  answers : Nat → ReadAnswers

/-- The answers to calls of `poll_read`, and the state they leave. -/
def polls (this : VisionStream) : List ReadPoll → List (VisionPoll Bytes) × VisionStream
  | [] => ([], this)
  | poll :: rest =>
    let (answer, next) := this.pollRead poll.room poll.answers
    let (answers, last) := next.polls rest
    (answer :: answers, last)

/-- The bytes in an answer. -/
def answerBytes : VisionPoll Bytes → Bytes
  | some (.ok bytes) => bytes
  | _ => []

/-- The bytes that a reader got. -/
def received (answers : List (VisionPoll Bytes)) : Bytes :=
  answers.flatMap answerBytes

/-- The answers that say the stream has nothing more. -/
def Final : VisionPoll Bytes → Prop
  | some (.ok bytes) => bytes = []
  | some (.error e) => e = .unexpectedEof ∨ e = .invalidUuid ∨ e = .invalidCommand ∨
      e = .truncatedFrame
  | none => False

section Polls

variable {this : VisionStream} {steps : List ReadPoll}

theorem polls_cons (this : VisionStream) (step : ReadPoll) (steps : List ReadPoll) :
    (this.polls (step :: steps)).1 = (this.pollRead step.room step.answers).1 ::
      ((this.pollRead step.room step.answers).2.polls steps).1 :=
  rfl

/-- A stream that failed stays so. -/
theorem polls_of_failed (h : this.failed) (hrooms : ∀ step ∈ steps, 0 < step.room) :
    ∀ answer ∈ (this.polls steps).1, answer = some (.error .streamFailed) := by
  induction steps with
  | nil => exact nofun
  | cons step steps ih =>
    obtain ⟨hroom, hrooms⟩ := forall_mem_cons.mp hrooms
    have hpoll : this.pollRead step.room step.answers = (some (.error .streamFailed), this) := by
      rw [pollRead, if_neg (by omega), if_pos h]
    rw [polls_cons, hpoll]
    exact forall_mem_cons.mpr ⟨rfl, ih hrooms⟩

theorem received_of_failed (h : this.failed) (hrooms : ∀ step ∈ steps, 0 < step.room) :
    received (this.polls steps).1 = [] := by
  refine flatMap_eq_nil_iff.mpr fun answer hanswer => ?_
  rw [polls_of_failed h hrooms answer hanswer]
  rfl

section

variable (h : this.Reading) (hopen : this.failed = false) (hrooms : ∀ step ∈ steps, 0 < step.room)

include h hopen hrooms

/-- What the polls deliver is what there was to deliver, from the front, and the limit on frames is
never hit. -/
theorem polls_received :
    received (this.polls steps).1 <+: this.todo ∧
      ∀ answer ∈ (this.polls steps).1, answer ≠ some (.error .exceedsLimit) := by
  induction steps generalizing this with
  | nil => exact ⟨ nil_prefix, nofun⟩
  | cons step steps ih =>
    obtain ⟨hroom, hrooms⟩ := forall_mem_cons.mp hrooms
    have hpoll := pollRead_polled h hopen hroom step.answers
    rw [polls_cons, received, flatMap_cons]
    generalize this.pollRead step.room step.answers = result at hpoll
    cases hpoll with
    | pending hnext hle hless =>
      obtain ⟨hmore, hlimit⟩ := ih hnext.reading (hnext.failed.trans hopen) hrooms
      rw [hnext.bytes]
      exact ⟨hmore, forall_mem_cons.mpr ⟨nofun, hlimit⟩⟩
    | brings hnext hne hless =>
      obtain ⟨hmore, hlimit⟩ := ih hnext.reading (hnext.failed.trans hopen) hrooms
      rw [hnext.bytes]
      exact ⟨prefix_append_right_inj _ |>.mpr hmore,
        forall_mem_cons.mpr ⟨nofun, hlimit⟩⟩
    | ends hnext hnil =>
      obtain ⟨hmore, hlimit⟩ := ih hnext.reading (hnext.failed.trans hopen) hrooms
      rw [hnext.bytes]
      exact ⟨hmore, forall_mem_cons.mpr ⟨nofun, hlimit⟩⟩
    | fails hfailed hlimit hlost hsound =>
      refine ⟨?_, forall_mem_cons.mpr ⟨fun he => ?_, fun answer hanswer => ?_⟩⟩
      · show [] ++ received _ <+: this.todo
        rw [received_of_failed hfailed hrooms]
        exact nil_prefix
      · exact hlimit (Except.error.inj (Option.some.inj he))
      · rw [polls_of_failed hfailed hrooms answer hanswer]
        exact nofun

/-- A reader that has nothing more to deliver delivers nothing more. -/
theorem polls_received_nil (htodo : this.todo = []) :
    received (this.polls steps).1 = [] := by
  have hmore := (polls_received h hopen hrooms).1
  rw [htodo] at hmore
  exact prefix_nil.mp hmore

/-- At the end of the stream everything was delivered. -/
theorem polls_final (hfinal : ∃ answer ∈ (this.polls steps).1, Final answer) :
    received (this.polls steps).1 = this.todo := by
  induction steps generalizing this with
  | nil =>
    obtain ⟨answer, hanswer, -⟩ := hfinal
    exact absurd hanswer not_mem_nil
  | cons step steps ih =>
    obtain ⟨hroom, hrooms⟩ := forall_mem_cons.mp hrooms
    have hpoll := pollRead_polled h hopen hroom step.answers
    obtain ⟨answer, hanswer, hfinal⟩ := hfinal
    rw [polls_cons] at hanswer ⊢
    rw [received, flatMap_cons]
    generalize this.pollRead step.room step.answers = result at hpoll hanswer
    cases hpoll with
    | pending hnext hle hless =>
      rcases mem_cons.mp hanswer with rfl | hanswer
      · exact hfinal.elim
      · rw [hnext.bytes]
        exact ih hnext.reading (hnext.failed.trans hopen) hrooms ⟨answer, hanswer, hfinal⟩
    | brings hnext hne hless =>
      rcases mem_cons.mp hanswer with rfl | hanswer
      · exact absurd hfinal hne
      · rw [hnext.bytes]
        exact congrArg _
          (ih hnext.reading (hnext.failed.trans hopen) hrooms ⟨answer, hanswer, hfinal⟩)
    | ends hnext hnil =>
      have hnone := hnext.bytes
      rw [hnil] at hnone
      rw [hnil]
      exact polls_received_nil hnext.reading (hnext.failed.trans hopen) hrooms hnone.symm
    | fails hfailed hlimit hlost hsound =>
      have hnothing := received_of_failed hfailed hrooms
      rcases mem_cons.mp hanswer with rfl | hanswer
      · show [] ++ received _ = this.todo
        rw [hnothing]
        refine (hlost ?_ ?_ ?_).symm
        all_goals
          rintro rfl
          simp [Final] at hfinal
      · rw [polls_of_failed hfailed hrooms answer hanswer] at hfinal
        simp [Final] at hfinal

/-- Polls that need not wait get to the end of the stream, or to an error. -/
theorem polls_progress
    (hready : ∀ step ∈ steps, ∀ i, (step.answers i).tls ≠ .pending ∧ (step.answers i).below ≠ .pending)
    (henough : this.work < steps.length) :
    received (this.polls steps).1 = this.todo ∨ ∃ e, some (.error e) ∈ (this.polls steps).1 := by
  induction steps generalizing this with
  | nil => exact absurd henough (Nat.not_lt_zero _)
  | cons step steps ih =>
    obtain ⟨hroom, hrooms⟩ := forall_mem_cons.mp hrooms
    obtain ⟨hnow, hready⟩ := forall_mem_cons.mp hready
    have hpoll := pollRead_polled h hopen hroom step.answers
    rw [polls_cons, received, flatMap_cons]
    rw [length_cons] at henough
    generalize this.pollRead step.room step.answers = result at hpoll
    cases hpoll with
    | pending hnext hle hless =>
      rcases hless with hless | ⟨i, hwait | hwait⟩
      · rw [hnext.bytes]
        exact (ih hnext.reading (hnext.failed.trans hopen) hrooms hready (by omega)).imp id
          fun ⟨e, he⟩ => ⟨e, mem_cons_of_mem _ he⟩
      · exact absurd hwait (hnow i).1
      · exact absurd hwait (hnow i).2
    | brings hnext hne hless =>
      rw [hnext.bytes]
      exact (ih hnext.reading (hnext.failed.trans hopen) hrooms hready (by omega)).imp (congrArg _)
        fun ⟨e, he⟩ => ⟨e, mem_cons_of_mem _ he⟩
    | ends hnext hnil =>
      have hnone := hnext.bytes
      rw [hnil] at hnone
      rw [hnil]
      exact .inl (polls_received_nil hnext.reading (hnext.failed.trans hopen) hrooms hnone.symm)
    | fails hfailed hlimit hlost hsound => exact .inr ⟨_, mem_cons_self⟩

/-- A well-formed stream is read without an error, unless a layer fails. -/
theorem polls_sound (hboundary : ∀ step ∈ steps, ∀ i, (step.answers i).boundary [])
    (hlayers : ∀ step ∈ steps, ∀ i, (step.answers i).tls ≠ .failed ∧ (step.answers i).below ≠ .failed)
    (hdone : this.responseDone) (hsound : this.body.sound) :
    ∀ e, some (.error e) ∉ (this.polls steps).1 := by
  induction steps generalizing this with
  | nil => exact nofun
  | cons step steps ih =>
    obtain ⟨hroom, hrooms⟩ := forall_mem_cons.mp hrooms
    obtain ⟨hend, hboundary⟩ := forall_mem_cons.mp hboundary
    obtain ⟨hnow, hlayers⟩ := forall_mem_cons.mp hlayers
    have hpoll := pollRead_polled h hopen hroom step.answers
    have hrest {next : VisionStream} {bytes : Bytes} (hnext : this.Delivers next bytes) :=
      ih hnext.reading (hnext.failed.trans hopen) hrooms hboundary hlayers (hnext.done hdone)
        (hnext.sound hsound)
    rw [polls_cons]
    generalize this.pollRead step.room step.answers = result at hpoll
    intro e he
    cases hpoll with
    | pending hnext hle hless | brings hnext hne hless | ends hnext hnil =>
      rcases mem_cons.mp he with he | he
      · cases he
      · exact hrest hnext e he
    | fails hfailed hlimit hlost hfails =>
      obtain ⟨i, hfail | hfail⟩ := hfails hdone hsound hend
      · exact absurd hfail (hnow i).1
      · exact absurd hfail (hnow i).2

end

end Polls

/-! ## Writers and their peers -/

variable {frames : List VisionFrame}

/-- Frames without a command, before something else. -/
theorem contents_frames (uuid : Uuid) (first : Bool)
    (hexact : ∀ frame ∈ frames, frame.Exact) (hzero : ∀ frame ∈ frames, frame.command = 0)
    (rest raw : Bytes) :
    contents uuid first (head uuid first ++ (frames.flatMap VisionFrame.encode ++ rest)) raw =
      ⟨frames.flatMap VisionFrame.content ++ (contents uuid (first && frames.isEmpty)
          (head uuid (first && frames.isEmpty) ++ rest) raw).bytes,
        (contents uuid (first && frames.isEmpty)
          (head uuid (first && frames.isEmpty) ++ rest) raw).sound⟩ := by
  induction frames generalizing first with
  | nil =>
    rw [isEmpty_nil, Bool.and_true]
    rfl
  | cons frame frames ih =>
    obtain ⟨hframe, hexact⟩ := forall_mem_cons.mp hexact
    obtain ⟨hcommand, hzero⟩ := forall_mem_cons.mp hzero
    rw [flatMap_cons, append_assoc, isEmpty_cons, Bool.and_false,
      contents_frame (front_encode uuid first hframe (by rw [hcommand]; decide) _),
      if_pos (by rw [hcommand]; rfl), ← drop_drop, drop_left, drop_left,
      flatMap_cons, append_assoc]
    have hrest := ih false hexact hzero
    rw [Bool.false_and] at hrest
    rw [show frames.flatMap VisionFrame.encode ++ rest =
      head uuid false ++ (frames.flatMap VisionFrame.encode ++ rest) from rfl, hrest]

/-- The contents of what a writer produced are the bytes it accepted. -/
theorem Written.contents {this : VisionStream} {accepted direct : Bytes}
    (h : this.Written uuid accepted frames direct) :
    contents uuid true this.produced this.tls.sentRaw = ⟨accepted, true⟩ := by
  have hencode (frames : List VisionFrame) (hne : frames ≠ []) :
      encodeFrames uuid frames = head uuid true ++ frames.flatMap VisionFrame.encode := by
    cases frames with
    | nil => exact absurd rfl hne
    | cons frame frames => rfl
  rw [h.produced, h.raw, h.accepted]
  rcases h.commands with ⟨hpadding, hcommand, -, hzero⟩ | ⟨-, -, before, last, rfl, hzero, hlast, hcommand⟩
  · -- padded writes only
    have hnot : ¬ this.writeCommand = 2 := by
      rw [hcommand]
      decide
    rw [if_neg hnot, if_neg hnot, h.padded hpadding, append_nil, append_nil]
    cases frames with
    | nil => exact contents_nil uuid true []
    | cons frame frames =>
      have hframes := contents_frames uuid true h.exact hzero [] []
      rw [append_nil, isEmpty_cons, Bool.and_false] at hframes
      rw [hencode _ (cons_ne_nil _ _), hframes]
      show (⟨_ ++ (Sockrocket.contents uuid false [] []).bytes,
        (Sockrocket.contents uuid false [] []).sound⟩ : Contents) = _
      rw [contents_nil, append_nil]
  · have hbefore : ∀ frame ∈ before, frame.Exact :=
      fun frame hframe => h.exact frame (mem_append_left _ hframe)
    have hexact : last.Exact := h.exact last (mem_append_right _ (mem_singleton_self _))
    have hframes (rest raw : Bytes) : Sockrocket.contents uuid true
        (encodeFrames uuid (before ++ [last]) ++ rest) raw =
          ⟨before.flatMap VisionFrame.content ++ (if last.command.toNat = 1 then
              last.content ++ rest else last.content ++ (rest ++ raw)),
            if last.command.toNat = 1 then true else rest.isEmpty⟩ := by
      rw [hencode _ (by simp), flatMap_append, flatMap_singleton, append_assoc,
        append_assoc, contents_frames uuid true hbefore hzero,
        contents_frame (front_encode uuid _ hexact (by rcases hlast with hl | hl <;> rw [hl] <;> decide) _),
        if_neg (by rcases hlast with hl | hl <;> rw [hl] <;> decide), ← drop_drop,
        drop_left, drop_left]
      split <;> rfl
    have hcontent : (before ++ [last]).flatMap VisionFrame.content =
        before.flatMap VisionFrame.content ++ last.content := by
      rw [flatMap_append, flatMap_singleton]
    rw [hframes, hcontent, append_assoc]
    rcases hlast with hlast | hlast
    · have hnot : ¬ this.writeCommand = 2 := by
        rw [hcommand, hlast]
        decide
      rw [if_neg hnot, if_neg hnot, hlast, if_pos (by decide), if_pos (by decide)]
    · have htwo : this.writeCommand = 2 := hcommand.trans hlast
      rw [if_pos htwo, if_pos htwo, hlast, if_neg (by decide), if_neg (by decide)]
      rfl

/-- The reader at the other end: it gets what the writer produced, and no response. -/
def peerOf (this : VisionStream) : VisionStream :=
  { new this.produced this.tls.sentRaw this.uuid with responseDone := true }

theorem reading_new (plain raw : Bytes) (uuid : Uuid) : (new plain raw uuid).Reading :=
  ⟨fun _ => ⟨rfl, rfl, rfl⟩, fun _ _ => Nat.zero_lt_two, nofun⟩

theorem reading_peerOf (this : VisionStream) : this.peerOf.Reading :=
  ⟨nofun, nofun, nofun⟩

/-- The layers neither wait nor fail, and the TLS layer is between two records at its end. -/
structure ReadPoll.Works (poll : ReadPoll) : Prop where
  ready : ∀ i, (poll.answers i).tls ≠ .pending ∧ (poll.answers i).below ≠ .pending
  layers : ∀ i, (poll.answers i).tls ≠ .failed ∧ (poll.answers i).below ≠ .failed
  boundary : ∀ i, (poll.answers i).boundary [] = true

end VisionStream

open VisionStream

/-- Whatever is written and whatever the layers do: the writer's bytes are at most eight frames, with
the user in front of the first, exact lengths and no command before the last frame, which has one
exactly when the padding is over; the bytes after it are passed on as they are, around the TLS layer
only when that has accepted and flushed all frames. A peer gets the accepted bytes in order and to the
end, however they are cut. On any bytes of a peer, a reader never hits the limit on frames; it
delivers the contents of the frames, empty or not, up to the end or an error, and does not stop
before. -/
theorem vision_framing (plain raw : Bytes) (uuid : Uuid) (inbound : Records) :
    (∀ events accepted this,
      ({ VisionStream.new plain raw uuid with inbound }).serve events = (accepted, this) →
      (∃ frames direct, accepted = frames.flatMap VisionFrame.content ++ direct ∧
        this.produced = encodeFrames uuid frames ++ (if this.writeCommand = 2 then [] else direct) ∧
        this.tls.sentRaw = (if this.writeCommand = 2 then direct else []) ∧
        frames.length ≤ 8 ∧ (∀ frame ∈ frames, frame.Exact) ∧
        (this.writingPadding = true → direct = [] ∧ ∀ frame ∈ frames, frame.command = 0) ∧
        (this.writingPadding = false → ∃ before last, frames = before ++ [last] ∧
          (∀ frame ∈ before, frame.command = 0) ∧ (last.command = 1 ∨ last.command = 2) ∧
          this.writeCommand = last.command) ∧
        (this.rawWrite = true → this.writeCommand = 2 ∧ this.tls.sent = encodeFrames uuid frames ∧
          this.tls.flushed = this.tls.sent.length)) ∧
      ∀ steps, (∀ step ∈ steps, 0 < step.room) →
        received (this.peerOf.polls steps).1 <+: accepted ∧
        ((∃ answer ∈ (this.peerOf.polls steps).1, Final answer) →
          received (this.peerOf.polls steps).1 = accepted) ∧
        ((∀ step ∈ steps, step.Works) → (∀ e, some (.error e) ∉ (this.peerOf.polls steps).1) ∧
          (this.peerOf.work < steps.length → received (this.peerOf.polls steps).1 = accepted))) ∧
    ∀ steps, (∀ step ∈ steps, 0 < step.room) →
      (∀ answer ∈ ((VisionStream.new plain raw uuid).polls steps).1,
        answer ≠ some (.error .exceedsLimit)) ∧
      received ((VisionStream.new plain raw uuid).polls steps).1 <+:
        (contents uuid true (plain.drop (2 + byteAt plain 1)) raw).bytes ∧
      ((∃ answer ∈ ((VisionStream.new plain raw uuid).polls steps).1, Final answer) →
        received ((VisionStream.new plain raw uuid).polls steps).1 =
          (contents uuid true (plain.drop (2 + byteAt plain 1)) raw).bytes) ∧
      ((∀ step ∈ steps, ∀ i, (step.answers i).tls ≠ .pending ∧ (step.answers i).below ≠ .pending) →
        (VisionStream.new plain raw uuid).work < steps.length →
        received ((VisionStream.new plain raw uuid).polls steps).1 =
            (contents uuid true (plain.drop (2 + byteAt plain 1)) raw).bytes ∨
          ∃ e, some (.error e) ∈ ((VisionStream.new plain raw uuid).polls steps).1) := by
  refine ⟨fun events accepted this hserve => ?_, fun steps hrooms => ?_⟩
  · obtain ⟨frames, direct, hwritten⟩ := (Written.start plain raw uuid inbound).serve events
    rw [hserve] at hwritten
    change this.Written uuid accepted frames direct at hwritten
    refine ⟨⟨frames, direct, hwritten.accepted, hwritten.produced, hwritten.raw, ?_,
      hwritten.exact, fun hpadding => ⟨hwritten.padded hpadding, ?_⟩, fun hpadding => ?_,
      fun hraw => ?_⟩, fun steps hrooms => ?_⟩
    · rcases hwritten.commands with ⟨-, -, hlength, -⟩ | ⟨-, hlength, -⟩
      · exact hlength.le
      · exact hlength
    · rcases hwritten.commands with ⟨-, -, -, hzero⟩ | ⟨hover, -⟩
      · exact hzero
      · rw [hpadding] at hover
        cases hover
    · rcases hwritten.commands with ⟨hon, -⟩ | ⟨-, -, hlast⟩
      · rw [hpadding] at hon
        cases hon
      · exact hlast
    · obtain ⟨hcommand, hwire, hflushed⟩ := hwritten.rawWrite hraw
      have hproduced := hwritten.produced
      rw [produced, hwire, drop_nil, append_nil, if_pos hcommand, append_nil]
        at hproduced
      exact ⟨hcommand, hproduced, hflushed⟩
    · have hreading := this.reading_peerOf
      have hbody : this.peerOf.body = ⟨accepted, true⟩ := by
        rw [body_of_padding (by rfl), ← hwritten.contents, ← hwritten.user]
        rfl
      have htodo : this.peerOf.todo = accepted := by
        rw [todo, hbody]
        rfl
      refine ⟨?_, fun hfinal => ?_, fun hworks => ?_⟩
      · rw [← htodo]
        exact (polls_received hreading rfl hrooms).1
      · rw [← htodo]
        exact polls_final hreading rfl hrooms hfinal
      · have hnone := polls_sound hreading rfl hrooms (fun step hstep => (hworks step hstep).boundary)
          (fun step hstep => (hworks step hstep).layers) rfl (by rw [hbody])
        refine ⟨hnone, fun henough => ?_⟩
        rw [← htodo]
        refine (polls_progress hreading rfl hrooms (fun step hstep => (hworks step hstep).ready)
          henough).resolve_right ?_
        rintro ⟨e, he⟩
        exact hnone e he
  · have hreading := reading_new plain raw uuid
    have htodo : (VisionStream.new plain raw uuid).todo =
        (contents uuid true (plain.drop (2 + byteAt plain 1)) raw).bytes := by
      rw [todo, body_of_padding (by rfl)]
      rfl
    rw [← htodo]
    obtain ⟨hreceived, hlimit⟩ := polls_received hreading rfl hrooms
    exact ⟨hlimit, hreceived, polls_final hreading rfl hrooms, polls_progress hreading rfl hrooms⟩

/-- A user for the examples. -/
def zeroUuid : Uuid :=
  ⟨List.replicate 16 0, rfl⟩

/-- A stream after one write of one byte. -/
def oneWrite : Bytes × VisionStream :=
  ({ VisionStream.new [] [] zeroUuid with inbound := .default }).serve
    [.write [1] 0 ⟨[], .pending, .pending, .pending⟩]

/-- One write that is not TLS: the last frame, which is the only one, has no command. -/
theorem vision_framing_no_command :
    oneWrite.1 = [1] ∧ oneWrite.2.produced = encodeFrames zeroUuid [⟨0, 0, [1]⟩] ∧
      oneWrite.2.writingPadding = true := by
  decide

/-- The peer of that stream reads the byte, one byte of the wire at a time. -/
theorem vision_framing_read_back :
    received (oneWrite.2.peerOf.polls
      (List.replicate 67 ⟨1, fun _ => ⟨.ready 1, .ready 1, fun _ => true⟩⟩)).1 = [1] := by
  have hserve : ({ VisionStream.new [] [] zeroUuid with inbound := .default }).serve
      [.write [1] 0 ⟨[], .pending, .pending, .pending⟩] = ([1], oneWrite.2) := by
    decide
  have hwork : oneWrite.2.peerOf.work = 66 := by
    decide
  refine ((((vision_framing [] [] zeroUuid .default).1 _ _ _ hserve).2 _ ?_).2.2 ?_).2 ?_
  · intro step hstep
    rw [eq_of_mem_replicate hstep]
    exact Nat.one_pos
  · intro step hstep
    rw [eq_of_mem_replicate hstep]
    exact ⟨fun _ => ⟨by simp, by simp⟩, fun _ => ⟨by simp, by simp⟩, fun _ => rfl⟩
  · rw [hwork, length_replicate]
    decide

end Sockrocket
