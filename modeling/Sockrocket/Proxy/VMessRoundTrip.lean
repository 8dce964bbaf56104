import Sockrocket.Proxy.VMessRead
import Sockrocket.Proxy.FramedWriters

/-!
# VMess streams end to end

A reader with the keys of a writer. The ciphers are taken to be ideal: they open what the writer
encrypted, under its nonce, and nothing else. Then the reader gives its caller the bytes that the
writer accepted, however the transport cuts them, and never anything else, whatever the transport
does: `vmess_round_trip`.
-/

namespace Sockrocket

open Rust Dns AsyncIo Transition Decode
open List hiding Vector

/-! ## Ideal ciphers -/

/-- The cipher opens exactly what was encrypted under the same nonce. -/
def Aead.Ideal (aead : Aead) (produced : List (Bytes × Bytes)) : Prop :=
  ∀ nonce data plain, aead.decrypt nonce data = some plain ↔
    (nonce, plain) ∈ produced ∧ data = aead.encrypt nonce plain

/-- The AEAD of a chunk cipher, if it has one, is ideal for the chunks of a writer. -/
def VMessChunkCipher.Ideal (tags : List (Nat × Bytes)) : VMessChunkCipher → Prop
  | .aes128Gcm aead iv => aead.Ideal (tags.map fun tag => (makeAeadNonce iv tag.1, tag.2))
  | .chacha20Poly1305 aead iv => aead.Ideal (tags.map fun tag => (makeAeadNonce iv tag.1, tag.2))
  | .none => True

section Ideal

variable {cipher : VMessChunkCipher} {tags : List (Nat × Bytes)} {count : Nat} {plain : Bytes}

theorem decrypt_encrypt_of_ideal (h : cipher.Ideal tags) (hmem : (count, plain) ∈ tags) :
    cipher.decrypt count (cipher.encrypt count plain) = some plain := by
  cases cipher with
  | aes128Gcm aead iv
  | chacha20Poly1305 aead iv => exact (h _ _ _).mpr ⟨mem_map_of_mem hmem, rfl⟩
  | none => rfl

/-- A chunk that opens is one of the writer. -/
theorem mem_of_ideal (h : cipher.Ideal tags) (hcipher : cipher ≠ .none)
    (htags : ∀ tag ∈ tags, tag.1 < 65536) (hcount : count < 65536) {data : Bytes}
    (hopen : cipher.decrypt count data = some plain) : (count, plain) ∈ tags := by
  have hnonce {iv : Vector UInt8 16}
      (hmem : (makeAeadNonce iv count, plain) ∈
        tags.map fun tag => (makeAeadNonce iv tag.1, tag.2)) : (count, plain) ∈ tags := by
    obtain ⟨tag, htag, heq⟩ := mem_map.mp hmem
    obtain ⟨hnonce, rfl⟩ := Prod.mk.inj heq
    rw [← makeAeadNonce_inj (htags tag htag) hcount hnonce]
    exact htag
  cases cipher with
  | aes128Gcm aead iv | chacha20Poly1305 aead iv => exact hnonce ((h _ _ _).mp hopen).1
  | none => exact absurd rfl hcipher

end Ideal

/-! ## The chunks of a writer -/

/-- The payloads of the chunks that a writer made. -/
def VMessRun.payloads (w : VMessRun) : List Bytes :=
  w.stream.wire.tags.map Prod.snd

/-- Chunks in order, each under the next counter. -/
def encodeChunk (cipher : VMessChunkCipher) (done : List Bytes) (payload : Bytes) : Bytes :=
  cipher.chunk (done.length % 65536) payload

/-- What is known of the chunks of a writer. -/
structure Written (cipher : VMessChunkCipher) (w : VMessRun) : Prop where
  sent : w.stream.wire.sent ++ w.stream.wire.unsent = encodeAll (encodeChunk cipher) [] w.payloads
  told : encodeAll (encodeChunk cipher) [] w.acks <+: w.stream.wire.sent
  accepted : ∃ flight : Option Bytes, w.payloads = w.acks ++ flight.toList ∧
    (w.stream.writeInFlight = none → flight = none)
  counts : w.stream.wire.tags.map Prod.fst =
    (List.range w.stream.wire.tags.length).map (· % 65536)
  lengths : ∀ tag ∈ w.stream.wire.tags, 0 < tag.2.length ∧
    (cipher.encrypt tag.1 tag.2).length ≤ 16384 ∧
    u16At (cipher.chunk tag.1 tag.2) 0 = (cipher.encrypt tag.1 tag.2).length

/-- Numbered chunks, one after the other. -/
theorem flatMap_numbered (cipher : VMessChunkCipher) {tags : List (Nat × Bytes)}
    (hcounts : tags.map Prod.fst = (range tags.length).map (· % 65536)) :
    tags.flatMap (fun tag => cipher.chunk tag.1 tag.2) =
      encodeAll (encodeChunk cipher) [] (tags.map Prod.snd) := by
  induction tags using reverseRecOn with
  | nil => rfl
  | append_singleton tags tag ih =>
    rw [map_append, length_append, length_singleton, range_succ, map_append] at hcounts
    obtain ⟨hcounts, hlast⟩ := append_inj hcounts
      (by rw [length_map, length_map, length_range])
    have hcount : tag.1 = tags.length % 65536 := (cons.inj hlast).1
    rw [flatMap_append, flatMap_singleton, ih hcounts, map_append,
      encodeAll_append, nil_append, map_singleton, encodeAll, encodeAll,
      append_nil, encodeChunk, length_map, hcount]

theorem u16At_chunk (cipher : VMessChunkCipher) {count : Nat} {payload : Bytes}
    (hlength : (cipher.encrypt count payload).length < 65536) :
    u16At (cipher.chunk count payload) 0 = (cipher.encrypt count payload).length := by
  rw [VMessChunkCipher.chunk, u16At_append (by exact Nat.le_refl 2)]
  exact u16At_be16 hlength

variable {crypto : VMessCrypto} {security : VMessSecurity} {key : Bytes} {iv : Vector UInt8 16}
  {cipher : VMessChunkCipher} {w : VMessRun}

variable {events : List VMessEvent}

/-- Over a transport that does not fail, a writer makes chunks of what it accepts. -/
theorem written_of_run {incoming respKey : Bytes} {respIv : Vector UInt8 16} {respAuth : UInt8}
    (hrun : Run (VMessRun.Step crypto)
      (.new (.new crypto incoming key iv respKey respIv respAuth security)) events w)
    (hcalm : ∀ e ∈ events, ∀ t ∈ e.turns, t.Calm) :
    Written (.new crypto security key iv) w := by
  have hall := hrun.mono fun r e r' (he : e ∈ events) hstep => And.intro hstep (hcalm e he)
  have hcounted₀ : Counted (.new (.new crypto incoming key iv respKey respIv respAuth security)) :=
    .new crypto incoming key iv respKey respIv respAuth security
  have hboth : Counted w ∧ VMessFramed (.new crypto security key iv) True w := by
    refine hall.invariant (fun r => Counted r ∧ VMessFramed (.new crypto security key iv) True r)
      ⟨hcounted₀, Framed.empty _ _, rfl, hcounted₀.maxChunk⟩ ?_
    rintro r e r' ⟨hcounted, hframed⟩ ⟨hstep, hturns⟩
    refine ⟨?_, hstep.framed hframed (fun _ _ => hturns) fun _ => hturns⟩
    obtain ⟨-, rfl⟩ := hstep
    exact hcounted.poll crypto fun _ => hturns
  obtain ⟨hcounted, hframed⟩ := hboth
  have hdata (tag : Nat × Bytes) :
      ((vmessFraming (.new crypto security key iv)).data tag).isSome := rfl
  have hpayloads : w.stream.wire.tags.filterMap (vmessFraming (.new crypto security key iv)).data =
      w.payloads := congrFun filterMap_eq_map _
  obtain ⟨flight, haccepted, hfree⟩ := hframed.framed.data_tags trivial
  have haccepted : w.payloads = w.acks ++ flight.toList := hpayloads.symm.trans haccepted
  refine ⟨?_, ?_, ⟨flight, haccepted, hfree⟩, hcounted.counts, fun tag htag => ?_⟩
  · exact (hframed.framed.sent_unsent trivial).trans (flatMap_numbered _ hcounted.counts)
  · -- the chunks that were told are the first ones
    have htold := hframed.framed.told_sent trivial hdata
    have hfirst : (w.stream.wire.tags.take w.acks.length).map Prod.snd = w.acks := by
      rw [map_take]
      show w.payloads.take w.acks.length = w.acks
      rw [haccepted, take_left]
    have hcounts : (w.stream.wire.tags.take w.acks.length).map Prod.fst =
        (range (w.stream.wire.tags.take w.acks.length).length).map (· % 65536) := by
      rw [map_take, hcounted.counts, ← map_take, take_range, length_take]
    have hnumbered := flatMap_numbered (.new crypto security key iv) hcounts
    rw [hfirst] at hnumbered
    rw [← hnumbered]
    exact htold
  · obtain ⟨hpos, hle⟩ := hcounted.sizes tag htag
    have hoverhead := hcounted.overhead
    rw [hframed.cipher_eq] at hoverhead
    have hlength : ((VMessChunkCipher.new crypto security key iv).encrypt tag.1 tag.2).length ≤
        16384 := by
      rw [VMessChunkCipher.length_encrypt]
      omega
    exact ⟨hpos, hlength, u16At_chunk _ (by omega)⟩

namespace Written

/-- The chunk at a position has this position as its counter. -/
theorem count (hw : Written cipher w) {n : Nat} {tag : Nat × Bytes}
    (htag : w.stream.wire.tags[n]? = some tag) : tag.1 = n % 65536 := by
  have hlt : n < w.stream.wire.tags.length := (List.getElem?_eq_some_iff.mp htag).1
  have hcount := congrArg (·[n]?) hw.counts
  rw [List.getElem?_map, htag, List.getElem?_map, List.getElem?_range hlt] at hcount
  exact Option.some.inj hcount

theorem getElem?_payloads (w : VMessRun) (n : Nat) :
    w.payloads[n]? = (w.stream.wire.tags[n]?).map Prod.snd :=
  List.getElem?_map

variable {done left : List Bytes} {x : Bytes}

theorem mem_tags (hw : Written cipher w)
    (hitems : w.payloads = done ++ x :: left) : (done.length % 65536, x) ∈ w.stream.wire.tags := by
  have hx : w.payloads[done.length]? = some x := by
    rw [hitems, List.getElem?_append_right (le_rfl), Nat.sub_self]
    rfl
  rw [getElem?_payloads, Option.map_eq_some_iff] at hx
  obtain ⟨tag, htag, rfl⟩ := hx
  rw [← hw.count htag]
  exact mem_of_getElem? htag

/-- A reader with an ideal cipher opens the chunks of the writer. -/
theorem openChunk_encodeChunk (hw : Written cipher w) (hideal : cipher.Ideal w.stream.wire.tags) (hitems : w.payloads = done ++ x :: left) (more : Bytes) :
    openChunk cipher done (encodeChunk cipher done x ++ more) = some (x, more) := by
  have hmem := hw.mem_tags hitems
  obtain ⟨hpos, hle, -⟩ := hw.lengths _ hmem
  dsimp only at hpos hle
  have hsize := cipher.length_encrypt (done.length % 65536) x
  rw [encodeChunk, VMessChunkCipher.chunk, append_assoc, openChunk_parts rfl
    (u16At_be16 (by omega)) (by omega), decrypt_encrypt_of_ideal hideal hmem]
  rfl

/-- A reader with an ideal cipher opens nothing but the next chunk of the writer. -/
theorem authentic (hw : Written cipher w) (hideal : cipher.Ideal w.stream.wire.tags)
    (hcipher : cipher ≠ .none) (hless : w.payloads.length < 65536)
    {input rest : Bytes} (hdone : done <+: w.payloads)
    (hopen : openChunk cipher done input = some (x, rest)) : done ++ [x] <+: w.payloads := by
  have hlength : w.payloads.length = w.stream.wire.tags.length := length_map _
  have hshort : done.length < 65536 := Nat.lt_of_le_of_lt hdone.length_le hless
  have hmod : done.length % 65536 = done.length := Nat.mod_eq_of_lt hshort
  have hcounts : ∀ tag ∈ w.stream.wire.tags, tag.1 < 65536 := by
    intro tag htag
    obtain ⟨n, hn⟩ := mem_iff_getElem?.mp htag
    rw [hw.count hn]
    exact Nat.mod_lt _ (by decide)
  rw [openChunk] at hopen
  split at hopen
  · obtain ⟨plain, hplain, heq⟩ := Option.map_eq_some_iff.mp hopen
    obtain ⟨rfl, -⟩ := Prod.mk.inj heq
    rw [hmod] at hplain
    obtain ⟨n, hn⟩ := mem_iff_getElem?.mp (mem_of_ideal hideal hcipher hcounts hshort hplain)
    have hlt := (List.getElem?_eq_some_iff.mp hn).1
    have hpos : done.length = n := by
      have hcount := hw.count hn
      rw [Nat.mod_eq_of_lt (by omega)] at hcount
      exact hcount
    have hx : w.payloads[done.length]? = some plain := by
      rw [getElem?_payloads, hpos, hn]
      rfl
    have htake : w.payloads.take (done.length + 1) = done ++ [plain] := by
      rw [take_add_one, hx, ← prefix_iff_eq_take.mp hdone]
      rfl
    rw [← htake]
    exact take_prefix _ _
  · cases hopen

end Written

/-! ## The reader -/

/-- The keys of a reader that has the key and the IV of a writer. -/
def readerKeys (crypto : VMessCrypto) (incoming : Bytes) (security : VMessSecurity) (key : Bytes)
    (iv : Vector UInt8 16) (auth : UInt8) : VMessKeys :=
  ⟨crypto, incoming, .new crypto security key iv, key, iv.toList, auth⟩

variable {calm : Prop} {r : VMessRun}

theorem reader_of_run {incoming otherKey : Bytes} {otherIv : Vector UInt8 16} {auth : UInt8}
    (hrun : Run (VMessRun.Polls crypto)
      (.new (.new crypto incoming otherKey otherIv key iv auth security)) events r)
    (hcalm : calm → ∀ e ∈ events, ∀ t ∈ e.turns, t.Calm) :
    Reader (readerKeys crypto incoming security key iv auth) calm r := by
  have hall := hrun.mono fun r e r' (he : e ∈ events) hstep =>
    And.intro hstep fun hc => hcalm hc e he
  refine hall.invariant (Reader (readerKeys crypto incoming security key iv auth) calm)
    (.new crypto calm incoming otherKey otherIv key iv auth security) ?_
  rintro r e r' h ⟨rfl, hturns⟩
  exact h.poll hturns

/-- What the caller of a reader saw, if its transport brings the bytes of a writer. -/
structure RoundTrip (w r : VMessRun) : Prop where
  no_error : ∀ e, .error e ∉ r.reads
  in_order : r.delivered <+: w.payloads.flatten
  complete : .ok [] ∈ r.reads → w.acks.flatten <+: r.delivered ∧
    (w.stream.writeInFlight = none → r.delivered = w.acks.flatten)
  ends : w.payloads.flatten.length < r.reads.length → .ok [] ∈ r.reads

variable {pieces : List Bytes}

theorem length_le_flatten (h : [] ∉ pieces) :
    pieces.length ≤ pieces.flatten.length := by
  induction pieces with
  | nil => exact Nat.le_refl 0
  | cons piece pieces ih =>
    have hpiece : 0 < piece.length :=
      length_pos_iff.mpr fun hnil => h (hnil ▸ mem_cons_self)
    have hrest := ih fun hmem => h (mem_cons_of_mem _ hmem)
    rw [length_cons, flatten_cons, length_append]
    omega

theorem mem_okReads {bytes : Bytes} :
    .ok bytes ∈ okReads pieces ↔ bytes ∈ pieces := by
  rw [okReads]
  exact mem_map_of_injective fun a b h => Except.ok.inj h

theorem flatten_le {xs ys : List Bytes} (h : xs <+: ys) : xs.flatten <+: ys.flatten := by
  obtain ⟨zs, rfl⟩ := h
  rw [flatten_append]
  exact prefix_append _ _

variable {keys : VMessKeys}

theorem Reader.roundTrip (h : Reader keys True r)
    (hw : Written keys.cipher w) (hideal : keys.cipher.Ideal w.stream.wire.tags)
    (hverified : Verified keys w.stream.wire.sent) : RoundTrip w r := by
  have hsent := hw.sent
  obtain ⟨flight, hpayloads, hfree⟩ := hw.accepted
  rcases h.outcome with hnone | ⟨-, hbad⟩ | ⟨all, plains, rest, pieces, hreads, hall, hdecodes,
      hdelivered, hended⟩
  · have hdelivered : r.delivered = [] := by
      rw [VMessRun.delivered, hnone]
      rfl
    refine ⟨?_, hdelivered ▸ nil_prefix, ?_, ?_⟩
    · rw [hnone]
      exact fun _ hmem => absurd hmem not_mem_nil
    · rw [hnone]
      exact fun hmem => absurd hmem not_mem_nil
    · rw [hnone]
      exact fun hless => absurd hless (Nat.not_lt_zero _)
  · exact absurd hverified (hbad trivial _)
  · obtain rfl := hverified.unique hall
    have hencode : ∀ done x left, w.payloads = done ++ x :: left → ∀ more,
        openChunk keys.cipher done (encodeChunk keys.cipher done x ++ more) = some (x, more) :=
      fun done x left hitems more => hw.openChunk_encodeChunk hideal hitems more
    obtain ⟨left, hitems, -⟩ :=
      hdecodes.of_encodeAll openChunk_append openChunk_nil hencode hsent
    have hplains : plains <+: w.payloads := ⟨left, hitems.symm⟩
    have hflat := Reader.delivered_okReads hreads
    have hle := hdelivered.trans (flatten_le hplains)
    refine ⟨?_, hflat ▸ hle, ?_, ?_⟩
    · rw [hreads]
      intro e he
      obtain ⟨piece, -, hpiece⟩ := mem_map.mp he
      cases hpiece
    · rw [hreads, mem_okReads, hflat]
      intro hend
      obtain ⟨hfound, hstuck⟩ := hended hend
      rw [hpayloads] at hencode hsent
      have hfirst := hdecodes.first openChunk_append openChunk_nil hencode hsent hw.told
        (hstuck trivial)
      rw [hfound]
      refine ⟨flatten_le hfirst, fun hflight => ?_⟩
      rw [hfree hflight] at hpayloads
      rw [hpayloads, Option.toList_none, append_nil] at hplains
      rw [hplains.eq_of_length_le hfirst.length_le]
    · rw [hreads, mem_okReads, okReads, length_map]
      intro hless
      by_contra hmem
      have hlong := length_le_flatten hmem
      have hshort := hle.length_le
      omega

theorem Reader.intact (h : Reader keys calm r)
    (hw : Written keys.cipher w) (hideal : keys.cipher.Ideal w.stream.wire.tags)
    (hcipher : keys.cipher ≠ .none) (hless : w.payloads.length < 65536) :
    r.delivered <+: w.payloads.flatten := by
  rcases h.outcome with hnone | ⟨⟨e, n, hreads⟩, -⟩ | ⟨all, plains, rest, pieces, hreads, hall,
      hdecodes, hdelivered, -⟩
  · rw [VMessRun.delivered, hnone]
    exact nil_prefix
  · rw [Reader.delivered_error hreads]
    exact nil_prefix
  · rw [Reader.delivered_okReads hreads]
    exact hdelivered.trans (flatten_le (hdecodes.of_authentic
      fun hdone hopen => hw.authentic hideal hcipher hless hdone hopen))

/-- If the header does not verify, no byte is delivered, and reads end after one error. -/
theorem Reader.unverified (h : Reader keys calm r)
    (hbad : ∀ all, ¬ Verified keys all) :
    r.delivered = [] ∧
      (r.reads = [] ∨ ∃ e n, r.reads = .error e :: replicate n (.ok [])) := by
  rcases h.outcome with hnone | ⟨⟨e, n, hreads⟩, -⟩ | ⟨all, plains, rest, pieces, hreads, hall, -⟩
  · refine ⟨?_, .inl hnone⟩
    rw [VMessRun.delivered, hnone]
    rfl
  · exact ⟨Reader.delivered_error hreads, .inr ⟨e, n, hreads⟩⟩
  · exact absurd hall (hbad all)

/-- Every run of a writer and of a reader with its key and IV. The writer's chunks have exact lengths
of at most 16384 and the payloads that it accepted. If the transport brings the chunks after a header
that verifies, the reader delivers these payloads; whatever the transport brings, it delivers nothing
else; and if the header does not verify, there is one error and no byte. Reads are answered if the
transport answers at once. -/
theorem vmess_round_trip (crypto : VMessCrypto) (security : VMessSecurity) (key : Bytes)
    (iv : Vector UInt8 16) {incoming respKey : Bytes} {respIv : Vector UInt8 16} {respAuth : UInt8}
    {events : List VMessEvent} {w : VMessRun}
    (hrun : Run (VMessRun.Step crypto)
      (.new (.new crypto incoming key iv respKey respIv respAuth security)) events w)
    (hcalm : ∀ e ∈ events, ∀ t ∈ e.turns, t.Calm) (hless : w.payloads.length < 65536)
    (hideal : (VMessChunkCipher.new crypto security key iv).Ideal w.stream.wire.tags) :
    Written (.new crypto security key iv) w ∧
    ∀ incoming otherKey otherIv auth events r,
      Run (VMessRun.Polls crypto)
        (.new (.new crypto incoming otherKey otherIv key iv auth security)) events r →
      let keys := readerKeys crypto incoming security key iv auth
      (Verified keys w.stream.wire.sent → (∀ e ∈ events, ∀ t ∈ e.turns, t.Calm) →
        RoundTrip w r) ∧
      (security ≠ .none → security ≠ .zero → r.delivered <+: w.payloads.flatten) ∧
      ((∀ all, ¬ Verified keys all) → r.delivered = [] ∧
        (r.reads = [] ∨ ∃ e n, r.reads = .error e :: List.replicate n (.ok []))) ∧
      ∀ room turns, 0 < room → (∀ t ∈ turns, t.Prompt) →
        r.stream.incoming.length < turns.length →
        (r.stream.pollRead crypto room turns).1 ≠ none := by
  have hw := written_of_run hrun hcalm
  refine ⟨hw, fun incoming otherKey otherIv auth events r hreads => ?_⟩
  have hreader : Reader (readerKeys crypto incoming security key iv auth) False r :=
    reader_of_run hreads fun hfalse => hfalse.elim
  refine ⟨fun hverified hturns => ?_, fun hnone hzero => ?_, fun hbad => hreader.unverified hbad,
    fun room turns hroom hprompt hturns => ?_⟩
  · have hreader : Reader (readerKeys crypto incoming security key iv auth) True r :=
      reader_of_run hreads fun _ => hturns
    exact hreader.roundTrip hw hideal hverified
  · refine hreader.intact hw hideal ?_ hless
    cases security with
    | aes128Gcm | chacha20Poly1305 | auto => exact nofun
    | none => exact absurd rfl hnone
    | zero => exact absurd rfl hzero
  · exact hreader.answers hroom (fun hfalse => hfalse.elim) hprompt hturns

/-- A cipher for tests, ideal for a list: the tag is the nonce. -/
def listAead (produced : List (Bytes × Bytes)) : Aead where
  encrypt := fun nonce plain => plain ++ (nonce ++ List.replicate 16 0).take 16
  decrypt := fun nonce data =>
    let plain := data.take (data.length - 16)
    if (nonce, plain) ∈ produced ∧ data = plain ++ (nonce ++ List.replicate 16 0).take 16 then
      some plain
    else none
  length_encrypt := fun nonce plain => by
    rw [List.length_append, List.length_take, List.length_append, List.length_replicate]
    omega

theorem listAead_ideal (produced : List (Bytes × Bytes)) : (listAead produced).Ideal produced := by
  intro nonce data plain
  show (if _ ∧ _ then _ else _) = _ ↔ _
  constructor
  · intro h
    split at h
    · rename_i hopen
      obtain rfl := Option.some.inj h
      exact hopen
    · cases h
  · rintro ⟨hmem, rfl⟩
    have hplain : ((listAead produced).encrypt nonce plain).take
        (((listAead produced).encrypt nonce plain).length - 16) = plain := by
      rw [(listAead produced).length_encrypt, Nat.add_sub_cancel]
      exact take_left
    rw [hplain, if_pos ⟨hmem, rfl⟩]

/-- A cipher for tests that opens everything. -/
def openAead : Aead where
  encrypt := fun _ plain => plain ++ List.replicate 16 0
  decrypt := fun _ data => some (data.take (data.length - 16))
  length_encrypt := length_zeroTag

/-- Libraries for tests: the key of the chunks is `[1]`, and the header always verifies. -/
def pairCrypto : VMessCrypto where
  aes128Gcm := fun key =>
    if key = [1] then listAead [(makeAeadNonce (Vector.replicate 16 0) 0, [7, 8])] else openAead
  chacha20Poly1305 := fun _ => openAead
  md5 := id
  kdf := fun _ path => path

/-- Two bytes, of which the second half of the chunk is written by a flush, and are read one by
one. -/
theorem vmess_round_trip_pair :
    let events : List VMessEvent := [.write [7, 8] [.ready 3], .flush [.ready 100, .ready 1],
      .write [7, 8] [.ready 1]]
    let w := events.foldl (VMessRun.poll pairCrypto) (.new (.new pairCrypto [] [1]
      (Vector.replicate 16 0) [2] (Vector.replicate 16 0) 0 .auto))
    let incoming := List.replicate 34 0 ++ w.stream.wire.sent
    let reads : List VMessEvent := [.read 1 [.ready 20, .ready 20, .ready 100, .ready 100],
      .read 1 [], .read 9 [.ready 1]]
    let r := reads.foldl (VMessRun.poll pairCrypto) (.new (.new pairCrypto incoming [2]
      (Vector.replicate 16 0) [1] (Vector.replicate 16 0) 0 .auto))
    w.acks = [[7, 8]] ∧ r.delivered = [7, 8] := by
  intro events w incoming reads r
  have hacks : w.acks = [[7, 8]] := by decide
  have hrun : Run (VMessRun.Step pairCrypto) (.new (.new pairCrypto [] [1]
      (Vector.replicate 16 0) [2] (Vector.replicate 16 0) 0 .auto)) events w := by
    refine .head ⟨nofun, rfl⟩ (.head ⟨trivial, rfl⟩
      (.head ⟨?_, rfl⟩ (.refl _)))
    have hpended : ((events.take 2).foldl (VMessRun.poll pairCrypto) (.new (.new pairCrypto [] [1]
      (Vector.replicate 16 0) [2] (Vector.replicate 16 0) 0 .auto))).pended = some [7, 8] := by
      decide
    intro pended hp
    exact Option.some.inj (hpended.symm.trans hp)
  have htags : w.stream.wire.tags = [(0, [7, 8])] := by decide
  have hideal : (VMessChunkCipher.new pairCrypto .auto [1] (Vector.replicate 16 0)).Ideal
      w.stream.wire.tags := by
    rw [htags]
    exact listAead_ideal _
  have hless : w.payloads.length < 65536 := by
    rw [VMessRun.payloads, htags]
    decide
  have hverified : Verified (readerKeys pairCrypto incoming .auto [1] (Vector.replicate 16 0) 0)
      w.stream.wire.sent :=
    ⟨replicate 18 0, replicate 16 0, 0, rfl, rfl, by decide, rfl, by decide⟩
  obtain ⟨-, hreader⟩ := vmess_round_trip pairCrypto .auto [1] (Vector.replicate 16 0) hrun
    (by decide) hless hideal
  have hround := (hreader incoming [2] (Vector.replicate 16 0) 0 reads r
    (Run.of_foldl (VMessRun.poll pairCrypto) _ reads)).1 hverified (by decide)
  have hend : .ok [] ∈ r.reads := by decide
  have hfree : w.stream.writeInFlight = none := by decide
  refine ⟨hacks, ?_⟩
  rw [(hround.complete hend).2 hfree, hacks]
  rfl

end Sockrocket
