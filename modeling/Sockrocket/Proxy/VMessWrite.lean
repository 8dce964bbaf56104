import Sockrocket.Proxy.VMess

/-!
# Chunks of a VMess stream

What the polls of a caller do to the chunks for the server. `Counted` says that the chunks are
numbered in the order in which they were queued; it holds as long as the stream below does not fail
in a `poll_write`, and then no two chunks have the same nonce: `vmess_nonces`. A `poll_write` that
fails after some bytes of its chunk went out does not advance the counter, so that the next chunk
has the same nonce: `vmess_nonce_reused`.
-/

namespace Sockrocket

open Rust Dns AsyncIo Transition
open List hiding Vector

/-! ## What reading leaves alone -/

namespace VMessStream

variable {crypto : VMessCrypto} {s : VMessStream} {turns : List Behaviour}

/-- The fields that writing is about. -/
def writing (s : VMessStream) :
    VMessChunkCipher × Nat × Outgoing (Nat × Bytes) UInt8 × Option Nat × Nat × Bool :=
  (s.writeCipher, s.maxChunk, s.wire, s.writeInFlight, s.writeCount, s.writeClosed)

/-- An iteration of the loop of `poll_read` changes nothing about writing. -/
def KeepsWriting (s : VMessStream) : VMessTurn → Prop
  | .again s' _ => s'.writing = s.writing
  | .answer _ s' => s'.writing = s.writing

theorem readHeaderBlock_writing {want : Nat}
    {check : Bytes → Except VMessError (VMessStream → VMessStream)}
    (hcheck : ∀ block update s, check block = .ok update →
      (update s).writing = s.writing) :
    s.KeepsWriting (s.readHeaderBlock want check turns) := by
  rw [readHeaderBlock]
  generalize AsyncIo.fill want s.respBuf s.incoming turns = result
  obtain ⟨answer, respBuf, incoming, turns'⟩ := result
  cases answer with
  | pending | failed | ended => rfl
  | full =>
    dsimp only
    generalize hblock : check respBuf = checked
    match checked with
    | .error cause => rfl
    | .ok update => exact hcheck respBuf update _ hblock

theorem readTurn_writing (room : Nat) : s.KeepsWriting (s.readTurn crypto room turns) := by
  rw [readTurn]
  split
  · rfl
  split
  · rfl
  split
  · -- plain
    rw [readPlain]
    dsimp only
    split <;> rfl
  · refine readHeaderBlock_writing fun block update s h => ?_
    generalize decryptRespHeaderLen crypto block _ _ = len at h
    match len with
    | .error cause => cases h
    | .ok len =>
      obtain rfl := Except.ok.inj h
      rfl
  · refine readHeaderBlock_writing fun block update s h => ?_
    generalize verifyRespHeaderPayload crypto block _ _ _ = verified at h
    match verified with
    | .error cause => cases h
    | .ok () =>
      obtain rfl := Except.ok.inj h
      rfl
  · rw [readChunkLen]
    generalize AsyncIo.fill 2 s.lenBuf s.incoming turns = result
    obtain ⟨answer, lenBuf, incoming, turns'⟩ := result
    cases answer with
    | pending | failed | ended => rfl
    | full =>
      dsimp only
      split <;> rfl
  · rw [readChunkPayload]
    generalize AsyncIo.fill s.chunkLen s.chunk s.incoming turns = result
    obtain ⟨answer, chunk, incoming, turns'⟩ := result
    cases answer with
    | pending | failed | ended => rfl
    | full =>
      dsimp only
      split <;> rfl

theorem readLoop_writing (room fuel : Nat) :
    (readLoop crypto room fuel s turns).2.writing = s.writing := by
  induction fuel generalizing s turns with
  | zero => rfl
  | succ fuel ih =>
    have hturn : s.KeepsWriting (s.readTurn crypto room turns) := readTurn_writing room
    rw [readLoop]
    generalize s.readTurn crypto room turns = turn at hturn
    match turn with
    | .again s' turns' => exact (ih).trans hturn
    | .answer answer s' => exact hturn

theorem pollRead_writing (room : Nat) :
    (s.pollRead crypto room turns).2.writing = s.writing :=
  readLoop_writing room _

end VMessStream

/-- What became of a buffer replaces the stream. -/
theorem afterWrite_vmess (r : VMessRun) (s : VMessStream) (buf : Bytes)
    (result : VMessPoll Nat × VMessStream) :
    { r with stream := s }.afterWrite buf result = r.afterWrite buf result := by
  match result with
  | (none, s) | (some (.ok n), s) | (some (.error e), s) => rfl

/-! ## Numbered chunks -/

/-- The chunks are numbered in order, and the counter is that of the next, unless one is in
flight. Each has some bytes, and not more than fit. -/
structure Counted (r : VMessRun) : Prop where
  valid : r.stream.wire.Valid
  counts : r.stream.wire.tags.map Prod.fst =
    (List.range r.stream.wire.tags.length).map (· % 65536)
  count : r.stream.writeCount = r.acks.length % 65536
  flight : r.stream.wire.tags.length =
    r.acks.length + if r.stream.writeInFlight.isSome then 1 else 0
  positive : ∀ n ∈ r.stream.writeInFlight, 0 < n
  maxChunk : 0 < r.stream.maxChunk
  overhead : r.stream.maxChunk + r.stream.writeCipher.overhead = 16384
  sizes : ∀ tag ∈ r.stream.wire.tags, 0 < tag.2.length ∧ tag.2.length ≤ r.stream.maxChunk

namespace Counted

variable {r : VMessRun}

section

variable (h : Counted r)

include h

/-- A flush does not change the marks. -/
theorem flush (turns : List Behaviour) :
    Counted { r with stream := { r.stream with wire := (r.stream.wire.flush turns).2.1 } } := by
  have hflush := Outgoing.flushed h.valid turns
  have htags := hflush.settled.tags
  refine { h with valid := hflush.valid, counts := ?_, flight := ?_, sizes := ?_ }
  · rw [htags]
    exact h.counts
  · rw [htags]
    exact h.flight
  · rw [htags]
    exact h.sizes

theorem read {s : VMessStream} (hwriting : s.writing = r.stream.writing)
    (reads : List (Except VMessError Bytes)) : Counted { r with stream := s, reads } := by
  simp only [VMessStream.writing, Prod.mk.injEq] at hwriting
  obtain ⟨hcipher, hmax, hwire, hflight, hcount, -⟩ := hwriting
  refine ⟨?_, ?_, ?_, ?_, ?_, ?_, ?_, ?_⟩
  · rw [hwire]; exact h.valid
  · rw [hwire]; exact h.counts
  · rw [hcount]; exact h.count
  · rw [hwire, hflight]; exact h.flight
  · rw [hflight]; exact h.positive
  · rw [hmax]; exact h.maxChunk
  · rw [hmax, hcipher]; exact h.overhead
  · rw [hwire, hmax]; exact h.sizes

theorem pending (buf : Bytes) :
    Counted (r.afterWrite buf (none, r.stream)) :=
  { h with }

/-- The caller of the chunk in flight is told. -/
theorem complete {n : Nat} (hflight : r.stream.writeInFlight = some n) (buf : Bytes) :
    Counted (r.afterWrite buf (some (.ok n), r.stream.completeWrite)) := by
  have hacks : (if n = 0 then r.acks else r.acks ++ [buf.take n]).length = r.acks.length + 1 := by
    rw [if_neg (Nat.ne_of_gt (h.positive n hflight)), length_append, length_singleton]
  have hcount := h.count
  have htags := h.flight
  rw [hflight] at htags
  refine { h with count := ?_, flight := ?_, positive := nofun }
  · show (r.stream.writeCount + 1) % 65536 = length (if n = 0 then _ else _) % 65536
    rw [hacks, hcount]
    omega
  · show r.stream.wire.tags.length = length (if n = 0 then _ else _) + 0
    rw [hacks, htags]
    rfl

/-- The bytes of the caller become the next chunk. -/
theorem queue (hfree : r.stream.writeInFlight = none) {buf : Bytes} {n : Nat}
    (hnil : buf ≠ []) (hn : min buf.length r.stream.maxChunk = n) :
    Counted { r with stream := { r.stream with
      wire := r.stream.wire.queue (r.stream.writeCount, buf.take n)
        (r.stream.writeCipher.chunk r.stream.writeCount (buf.take n))
      writeInFlight := some n } } := by
  have htags := h.flight
  rw [hfree] at htags
  have hpos := length_pos_iff.mpr hnil
  have hmax := h.maxChunk
  refine ⟨h.valid.queue _ _, ?_, h.count, ?_, fun m hm => ?_, h.maxChunk, h.overhead,
    fun tag htag => ?_⟩
  · rw [Outgoing.tags_queue, map_append, h.counts, length_append, length_singleton,
      range_succ, map_append, htags]
    exact congrArg (_ ++ [·]) h.count
  · rw [Outgoing.tags_queue, length_append, htags]
    rfl
  · obtain rfl := Option.some.inj hm
    omega
  · rw [Outgoing.tags_queue] at htag
    rcases mem_append.mp htag with htag | htag
    · exact h.sizes tag htag
    · rw [mem_singleton.mp htag, length_take]
      dsimp only
      omega

theorem writeChunk (hfree : r.stream.writeInFlight = none) (buf : Bytes)
    {turns : List Behaviour} (hcalm : ∀ t ∈ turns, t.Calm) :
    Counted (r.afterWrite buf (r.stream.writeChunk buf turns)) := by
  rw [VMessStream.writeChunk]
  by_cases hnil : buf = []
  · rw [if_pos hnil]
    exact { h with }
  rw [if_neg hnil]
  dsimp only
  generalize hn : min buf.length r.stream.maxChunk = n
  have hqueued := h.queue hfree hnil hn
  have hflush := Outgoing.flushed hqueued.valid turns
  have hafter := hqueued.flush turns
  rw [VMessStream.pollFlushOut]
  dsimp only at hflush hafter ⊢
  generalize Outgoing.flush _ turns = result at *
  obtain ⟨answer, wire, turns'⟩ := result
  cases answer with
  | pending => exact hafter.pending buf
  | failed | zero => rcases (hflush.calm hcalm).2 with hbad | hbad <;> cases hbad
  | done => exact hafter.complete rfl buf

/-- A `poll_write` in which the stream below does not fail. -/
theorem pollWrite (buf : Bytes) {turns : List Behaviour}
    (hcalm : ∀ t ∈ turns, t.Calm) : Counted (r.afterWrite buf (r.stream.pollWrite buf turns)) := by
  rw [VMessStream.pollWrite]
  split
  · exact { h with }
  split
  · have hflush := Outgoing.flushed h.valid turns
    have hafter := h.flush turns
    rw [VMessStream.pollFlushOut]
    generalize r.stream.wire.flush turns = result at *
    obtain ⟨answer, wire, turns'⟩ := result
    cases answer with
    | pending => exact hafter.pending buf
    | failed | zero => rcases (hflush.calm hcalm).2 with hbad | hbad <;> cases hbad
    | done =>
      dsimp only [VMessStream.flushAnswer] at hafter ⊢
      generalize hflight : r.stream.writeInFlight = flight at hafter ⊢
      match flight with
      | some n =>
        have hdone := hafter.complete rfl buf
        rwa [afterWrite_vmess] at hdone
      | none =>
        have hdone := hafter.writeChunk rfl buf fun t ht => hcalm t (hflush.suffix.subset ht)
        rwa [afterWrite_vmess] at hdone
  · rename_i hbusy
    have hfree : r.stream.writeInFlight = none := by
      rw [← Option.not_isSome_iff_eq_none]
      exact fun hsome => hbusy (.inl hsome)
    exact h.writeChunk hfree buf hcalm

theorem pollShutdown (turns : List Behaviour) :
    Counted { r with stream := (r.stream.pollShutdown turns).2 } := by
  have hafter := h.flush turns
  rw [VMessStream.pollShutdown, VMessStream.pollFlushOut]
  generalize r.stream.wire.flush turns = result at *
  obtain ⟨answer, wire, turns'⟩ := result
  cases answer with
  | pending | failed | zero => exact hafter
  | done =>
    match turns' with
    | [] | .pending :: _ | .failed :: _ => exact hafter
    | .ready _ :: _ => exact { hafter with }

theorem pollRead (crypto : VMessCrypto) (room : Nat) (turns : List Behaviour) :
    Counted (r.afterRead room (r.stream.pollRead crypto room turns)) := by
  have hwriting : (r.stream.pollRead crypto room turns).2.writing = r.stream.writing :=
    VMessStream.pollRead_writing room
  generalize r.stream.pollRead crypto room turns = result at hwriting
  match result with
  | (none, s) => exact h.read hwriting r.reads
  | (some answer, s) => exact h.read hwriting _

/-- Every poll numbers the chunks on, if the stream below does not fail in a `poll_write`. -/
theorem poll (crypto : VMessCrypto) {e : VMessEvent}
    (hcalm : e.isWrite → ∀ t ∈ e.turns, t.Calm) : Counted (r.poll crypto e) := by
  cases e with
  | read room turns => exact h.pollRead crypto room turns
  | write buf turns => exact h.pollWrite buf (hcalm rfl)
  | flush turns => exact h.flush turns
  | shutdown turns => exact h.pollShutdown turns

end

theorem new (crypto : VMessCrypto) (incoming reqKey : Bytes) (reqIv : Vector UInt8 16)
    (respKey : Bytes) (respIv : Vector UInt8 16) (respAuth : UInt8) (security : VMessSecurity) :
    Counted (.new (.new crypto incoming reqKey reqIv respKey respIv respAuth security)) where
  valid := Outgoing.valid_empty
  counts := rfl
  count := rfl
  flight := rfl
  positive := nofun
  maxChunk := by
    have hle := (VMessChunkCipher.new crypto security reqKey reqIv).overhead_le
    show 0 < 16384 - (VMessChunkCipher.new crypto security reqKey reqIv).overhead
    omega
  overhead := by
    have hle := (VMessChunkCipher.new crypto security reqKey reqIv).overhead_le
    exact Nat.sub_add_cancel (hle.trans (by decide))
  sizes := nofun

end Counted

/-! ## Nonces -/

/-- The polls of a caller, in any order and with any buffers. -/
def VMessRun.Polls (crypto : VMessCrypto) (r : VMessRun) (e : VMessEvent) (r' : VMessRun) : Prop :=
  r' = r.poll crypto e

/-- No two chunks with different payloads of which bytes went out have the same nonce. -/
def NonceDiscipline (iv : Vector UInt8 16) (o : Outgoing (Nat × Bytes) UInt8) : Prop :=
  o.ledger.Pairwise fun a b => 0 < a.taken → 0 < b.taken → a.tag.2 ≠ b.tag.2 →
    makeAeadNonce iv a.tag.1 ≠ makeAeadNonce iv b.tag.1

instance (iv : Vector UInt8 16) (o : Outgoing (Nat × Bytes) UInt8) :
    Decidable (NonceDiscipline iv o) :=
  inferInstanceAs (Decidable (List.Pairwise _ _))

variable {m n : Nat}

theorem be16_inj (hm : m < 65536) (hn : n < 65536) (h : be16 m = be16 n) : m = n := by
  rw [← u16At_be16 hm, h, u16At_be16 hn]

/-- The nonce tells the counter. -/
theorem makeAeadNonce_inj {iv : Vector UInt8 16} (hm : m < 65536) (hn : n < 65536)
    (h : makeAeadNonce iv m = makeAeadNonce iv n) : m = n :=
  be16_inj hm hn (append_inj h rfl).1

/-- Numbered chunks have different nonces, if there are less than 65536. -/
theorem Counted.nonceDiscipline {r : VMessRun} (h : Counted r)
    (hless : r.stream.wire.ledger.length < 65536) (iv : Vector UInt8 16) :
    NonceDiscipline iv r.stream.wire := by
  have hlength : r.stream.wire.tags.length = r.stream.wire.ledger.length := by
    rw [← Outgoing.map_tag_ledger, length_map]
  have hcounts : r.stream.wire.ledger.map (fun block => block.tag.1) =
      range r.stream.wire.ledger.length := by
    have htags := h.counts
    rw [← Outgoing.map_tag_ledger, map_map, length_map] at htags
    refine htags.trans ?_
    refine (map_congr_left fun i hi => ?_).trans (map_id _)
    rw [mem_range] at hi
    exact Nat.mod_eq_of_lt (by omega)
  have hlt : ∀ block ∈ r.stream.wire.ledger, block.tag.1 < 65536 := by
    intro block hblock
    have hmem := mem_map_of_mem (f := fun block => block.tag.1) hblock
    rw [hcounts, mem_range] at hmem
    omega
  have hpairs : (r.stream.wire.ledger.map fun block => block.tag.1).Pairwise (· ≠ ·) := by
    rw [hcounts]
    exact nodup_range
  refine List.Pairwise.imp_of_mem ?_ (pairwise_map.mp hpairs)
  intro a b ha hb hne _ _ _ hnonce
  exact hne (makeAeadNonce_inj (hlt a ha) (hlt b hb) hnonce)

theorem length_zeroTag (_ plain : Bytes) :
    (plain ++ List.replicate 16 0).length = plain.length + 16 := by
  rw [List.length_append, List.length_replicate]

/-- A cipher for tests: the tag is zero, and nothing opens. -/
def plainAead : Aead :=
  ⟨fun _ plain => plain ++ List.replicate 16 0, fun _ _ => none, length_zeroTag⟩

/-- Libraries for tests. -/
def plainCrypto : VMessCrypto :=
  ⟨fun _ => plainAead, fun _ => plainAead, id, fun key _ => key⟩

end Sockrocket
