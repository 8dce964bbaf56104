import Sockrocket.Proxy.VMessWrite
import Sockrocket.Lib.Decode

/-!
# Reading from a VMess stream

Where a stream is in the bytes of the server: `Reading` has a case for each part of the header of the
response, for each state of the chunks, and for the two ends. `openChunk` is the first chunk of a
stream of bytes; the chunks that were read are those it finds. Read `Reading` first.
-/

namespace Sockrocket

open Rust Dns AsyncIo Transition Decode
open List hiding Vector

/-! ## Chunks -/

/-- The first chunk of a stream of bytes, opened, once it is there as a whole; a length of zero is
the end of the stream. -/
def openChunk (cipher : VMessChunkCipher) (plains : List Bytes) (input : Bytes) :
    Option (Bytes × Bytes) :=
  let len := u16At input 0
  if len ≠ 0 ∧ 2 + len ≤ input.length then
    (cipher.decrypt (plains.length % 65536) ((input.drop 2).take len)).map (·, input.drop (2 + len))
  else none

section Chunks

variable {cipher : VMessChunkCipher} {plains : List Bytes}

/-- A chunk does not depend on what follows it. -/
theorem openChunk_append {input plain rest : Bytes}
    (h : openChunk cipher plains input = some (plain, rest)) (more : Bytes) :
    openChunk cipher plains (input ++ more) = some (plain, rest ++ more) := by
  rw [openChunk] at h
  split at h
  · rename_i hsize
    obtain ⟨hne, hfits⟩ := hsize
    have hlen : u16At (input ++ more) 0 = u16At input 0 := u16At_append (by omega) more
    have hdata : ((input ++ more).drop 2).take (u16At input 0) =
        (input.drop 2).take (u16At input 0) := by
      rw [drop_append_of_le_length (by omega),
        take_append_of_le_length (by rw [length_drop]; omega)]
    obtain ⟨plain', hplain, heq⟩ := Option.map_eq_some_iff.mp h
    obtain ⟨rfl, rfl⟩ := Prod.mk.inj heq
    rw [openChunk, hlen, if_pos ⟨hne, by rw [length_append]; omega⟩, hdata, hplain,
      drop_append_of_le_length hfits]
    rfl
  · cases h

variable {len data : Bytes}

theorem u16At_parts (hlen : len.length = 2) (rest : Bytes) : u16At (len ++ rest) 0 = u16At len 0 :=
  u16At_append (by omega) rest

/-- The two bytes of a length and as many bytes as it tells are a chunk, if they open. -/
theorem openChunk_parts (hlen : len.length = 2) (hdata : u16At len 0 = data.length)
    (hne : data.length ≠ 0) (rest : Bytes) :
    openChunk cipher plains (len ++ (data ++ rest)) =
      (cipher.decrypt (plains.length % 65536) data).map (·, rest) := by
  have hdrop : (len ++ (data ++ rest)).drop 2 = data ++ rest := by
    rw [← hlen, drop_left]
  rw [openChunk, u16At_parts hlen, hdata,
    if_pos ⟨hne, by rw [length_append, length_append]; omega⟩, ← drop_drop, hdrop,
    take_left, drop_left]

/-- Less than a chunk. -/
theorem openChunk_short (hlen : len.length = 2) (hdata : data.length < u16At len 0) :
    openChunk cipher plains (len ++ data) = none := by
  rw [openChunk, u16At_parts hlen]
  refine if_neg fun h => ?_
  have hsize := h.2
  rw [length_append] at hsize
  omega

theorem openChunk_zero (hlen : len.length = 2) (hdata : u16At len 0 = 0) (rest : Bytes) :
    openChunk cipher plains (len ++ rest) = none := by
  rw [openChunk, u16At_parts hlen, hdata]
  exact if_neg fun h => h.1 rfl

theorem openChunk_len (hlen : len.length < 2) : openChunk cipher plains len = none := by
  rw [openChunk]
  refine if_neg fun h => ?_
  have hsize := h.2
  omega

theorem openChunk_nil (plains : List Bytes) : openChunk cipher plains [] = none :=
  openChunk_len (by decide)

end Chunks

/-! ## The invariant -/

/-- What a reader was made with: the bytes of the server, and the keys. -/
structure VMessKeys where
  crypto : VMessCrypto
  incoming : Bytes
  cipher : VMessChunkCipher
  respKey : Bytes
  respIv : Bytes
  respAuth : UInt8

/-- The bytes of the server begin with a header that verifies, before these bytes. -/
structure Verified (keys : VMessKeys) (all : Bytes) : Prop where
  blocks : ∃ block payload len, keys.incoming = block ++ (payload ++ all) ∧ block.length = 18 ∧
    decryptRespHeaderLen keys.crypto block keys.respKey keys.respIv = .ok len ∧
    payload.length = len + 16 ∧
    verifyRespHeaderPayload keys.crypto payload keys.respAuth keys.respKey keys.respIv = .ok ()

namespace Verified

variable {keys : VMessKeys} {all : Bytes}

theorem length (h : Verified keys all) : 18 ≤ keys.incoming.length := by
  obtain ⟨block, payload, len, hincoming, hblock, -⟩ := h.blocks
  rw [hincoming, length_append]
  omega

/-- The first eighteen bytes are the first block. -/
theorem block (h : Verified keys all) {block rest : Bytes} (hincoming : keys.incoming = block ++ rest)
    (hblock : block.length = 18) :
    ∃ payload len, decryptRespHeaderLen keys.crypto block keys.respKey keys.respIv = .ok len ∧
      rest = payload ++ all ∧ payload.length = len + 16 ∧
      verifyRespHeaderPayload keys.crypto payload keys.respAuth keys.respKey keys.respIv =
        .ok () := by
  obtain ⟨block', payload, len, hincoming', hblock', hopened, hpayload, hverify⟩ := h.blocks
  obtain ⟨rfl, rfl⟩ := append_inj (hincoming.symm.trans hincoming') (hblock.trans hblock'.symm)
  exact ⟨payload, len, hopened, rfl, hpayload, hverify⟩

/-- The two blocks are found by their lengths. -/
theorem payload (h : Verified keys all) {block payload rest : Bytes} {len : Nat}
    (hincoming : keys.incoming = block ++ (payload ++ rest)) (hblock : block.length = 18)
    (hopened : decryptRespHeaderLen keys.crypto block keys.respKey keys.respIv = .ok len)
    (hpayload : payload.length = len + 16) :
    rest = all ∧
      verifyRespHeaderPayload keys.crypto payload keys.respAuth keys.respKey keys.respIv =
        .ok () := by
  obtain ⟨payload', len', hopened', hrest, hpayload', hverify⟩ := h.block hincoming hblock
  obtain rfl := Except.ok.inj (hopened.symm.trans hopened')
  obtain ⟨rfl, rfl⟩ := append_inj hrest (hpayload.trans hpayload'.symm)
  exact ⟨rfl, hverify⟩

theorem unique (h : Verified keys all) {all' : Bytes} (h' : Verified keys all') : all' = all := by
  obtain ⟨block, payload, len, hincoming, hblock, hopened, hpayload, -⟩ := h'.blocks
  exact (h.payload hincoming hblock hopened hpayload).1

end Verified

/-- The keys of a stream. -/
structure Keyed (keys : VMessKeys) (s : VMessStream) : Prop where
  cipher : s.readCipher = keys.cipher
  respKey : s.respKey = keys.respKey
  respIv : s.respIv = keys.respIv
  respAuth : s.respAuth = keys.respAuth

/-- Reads that were answered with bytes. -/
def okReads (pieces : List Bytes) : List (Except VMessError Bytes) :=
  pieces.map .ok

theorem okReads_append (pieces : List Bytes) (bytes : Bytes) :
    okReads pieces ++ [.ok bytes] = okReads (pieces ++ [bytes]) := by
  rw [okReads, okReads, map_append]
  rfl

/-- Where a stream is in the chunks `all`, with what its caller was given. -/
inductive InChunks (cipher : VMessChunkCipher) (all : Bytes) (s : VMessStream) : Bytes → Prop where
  | chunkLen {plains : List Bytes} (state : s.state = .chunkLen)
      (decodes : Decodes (openChunk cipher) all plains (s.lenBuf ++ s.incoming))
      (count : s.readCount = plains.length % 65536) (len_le : s.lenBuf.length ≤ 2) :
      InChunks cipher all s plains.flatten
  | chunkPayload {plains : List Bytes} {len : Bytes} (state : s.state = .chunkPayload)
      (decodes : Decodes (openChunk cipher) all plains (len ++ (s.chunk ++ s.incoming)))
      (count : s.readCount = plains.length % 65536) (len_nil : s.lenBuf = [])
      (length : len.length = 2) (len_eq : u16At len 0 = s.chunkLen) (pos : 0 < s.chunkLen)
      (chunk_le : s.chunk.length ≤ s.chunkLen) : InChunks cipher all s plains.flatten
  | plain {plains : List Bytes} (state : s.state = .plain)
      (decodes : Decodes (openChunk cipher) all (plains ++ [s.chunk]) s.incoming)
      (count : s.readCount = (plains.length + 1) % 65536) (len_nil : s.lenBuf = [])
      (pos : s.plainPos < s.chunk.length) :
      InChunks cipher all s (plains.flatten ++ s.chunk.take s.plainPos)

/-- Where a stream is in the bytes of the server, with the answers to its reads; `calm` says that the
stream below never fails. -/
inductive Reading (keys : VMessKeys) (calm : Prop) (s : VMessStream) :
    List (Except VMessError Bytes) → Prop where
  | headerLen (state : s.state = .respHeaderLen) (fatal : s.fatal = none)
      (eof : s.readEof = false) (bytes : keys.incoming = s.respBuf ++ s.incoming)
      (length : s.respBuf.length ≤ 18) (len_nil : s.lenBuf = []) (count : s.readCount = 0) :
      Reading keys calm s []
  | headerPayload {block : Bytes} (state : s.state = .respHeaderPayload) (fatal : s.fatal = none)
      (eof : s.readEof = false) (bytes : keys.incoming = block ++ (s.respBuf ++ s.incoming))
      (block_length : block.length = 18)
      (opened : decryptRespHeaderLen keys.crypto block keys.respKey keys.respIv =
        .ok s.respPayloadLen)
      (length : s.respBuf.length ≤ s.respPayloadLen + 16) (len_nil : s.lenBuf = [])
      (count : s.readCount = 0) : Reading keys calm s []
  | broken {e : VMessError} (fatal : s.fatal = some e) (eof : s.readEof = false)
      (bad : calm → ∀ all, ¬ Verified keys all) : Reading keys calm s []
  | dead {e : VMessError} {n : Nat} (fatal : s.fatal = none) (eof : s.readEof = true)
      (bad : calm → ∀ all, ¬ Verified keys all) :
      Reading keys calm s (.error e :: List.replicate n (.ok []))
  | body {all : Bytes} {pieces : List Bytes} (verified : Verified keys all) (fatal : s.fatal = none)
      (eof : s.readEof = false) (nonempty : ∀ piece ∈ pieces, piece ≠ [])
      (chunks : InChunks keys.cipher all s pieces.flatten) : Reading keys calm s (okReads pieces)
  | ended {all rest : Bytes} {plains pieces : List Bytes} (verified : Verified keys all)
      (fatal : s.fatal = none) (eof : s.readEof = true)
      (decodes : Decodes (openChunk keys.cipher) all plains rest)
      (stuck : calm → openChunk keys.cipher plains rest = none)
      (delivered : pieces.flatten = plains.flatten) : Reading keys calm s (okReads pieces)

/-! ## The parts of the loop -/

variable {keys : VMessKeys} {calm : Prop} {s : VMessStream} {turns : List Behaviour} {room : Nat}
  {reads : List (Except VMessError Bytes)}

/-- What an iteration of the loop keeps; its answer is one of a read with room. -/
def TurnReading (keys : VMessKeys) (calm : Prop) (reads : List (Except VMessError Bytes))
    (turns : List Behaviour) : VMessTurn → Prop
  | .again s turns' => Keyed keys s ∧ Reading keys calm s reads ∧ turns' <:+ turns
  | .answer none s => Keyed keys s ∧ Reading keys calm s reads
  | .answer (some answer) s => Keyed keys s ∧ Reading keys calm s (reads ++ [answer])

variable {plains pieces : List Bytes}

section

variable (hkeyed : Keyed keys s)

include hkeyed

/-- The end of the stream is answered without bytes. -/
theorem endRead_reading {all rest : Bytes} (verified : Verified keys all)
    (fatal : s.fatal = none) (decodes : Decodes (openChunk keys.cipher) all plains rest)
    (stuck : calm → openChunk keys.cipher plains rest = none)
    (delivered : pieces.flatten = plains.flatten) :
    TurnReading keys calm (okReads pieces) turns s.endRead := by
  refine ⟨{ hkeyed with }, ?_⟩
  rw [okReads_append]
  refine .ended verified fatal rfl decodes stuck ?_
  rw [flatten_append, flatten_singleton, append_nil, delivered]

theorem readPlain_reading {all : Bytes} (verified : Verified keys all)
    (fatal : s.fatal = none) (eof : s.readEof = false) (nonempty : ∀ piece ∈ pieces, piece ≠ [])
    (hroom : 0 < room)
    (decodes : Decodes (openChunk keys.cipher) all (plains ++ [s.chunk]) s.incoming)
    (count : s.readCount = (plains.length + 1) % 65536) (len_nil : s.lenBuf = [])
    (pos : s.plainPos < s.chunk.length) (state : s.state = .plain)
    (delivered : pieces.flatten = plains.flatten ++ s.chunk.take s.plainPos) :
    TurnReading keys calm (okReads pieces) turns (s.readPlain room) := by
  rw [VMessStream.readPlain]
  dsimp only
  generalize hn : min room (s.chunk.length - s.plainPos) = n
  have hflat : (pieces ++ [(s.chunk.drop s.plainPos).take n]).flatten =
      plains.flatten ++ s.chunk.take (s.plainPos + n) := by
    rw [flatten_append, flatten_singleton, delivered, append_assoc, take_add]
  have hpieces : ∀ piece ∈ pieces ++ [(s.chunk.drop s.plainPos).take n], piece ≠ [] := by
    intro piece hpiece
    rcases mem_append.mp hpiece with hpiece | hpiece
    · exact nonempty piece hpiece
    obtain rfl := mem_singleton.mp hpiece
    refine ne_nil_of_length_pos ?_
    rw [length_take, length_drop]
    omega
  show _ ∧ Reading keys calm _ (okReads pieces ++ [.ok ((s.chunk.drop s.plainPos).take n)])
  rw [okReads_append]
  by_cases hall : s.plainPos + n = s.chunk.length
  · -- the last bytes of the chunk
    rw [if_pos hall]
    refine ⟨{ hkeyed with }, .body verified fatal eof hpieces ?_⟩
    have hdone : (pieces ++ [(s.chunk.drop s.plainPos).take n]).flatten =
        (plains ++ [s.chunk]).flatten := by
      rw [hflat, hall, take_length, flatten_append, flatten_singleton]
    rw [hdone]
    refine .chunkLen rfl ?_ ?_ ?_
    · rw [len_nil]
      exact decodes
    · rw [length_append]
      exact count
    · rw [len_nil]
      exact Nat.zero_le 2
  · rw [if_neg hall]
    refine ⟨{ hkeyed with }, .body verified fatal eof hpieces ?_⟩
    rw [hflat]
    exact .plain state decodes count len_nil (show s.plainPos + n < s.chunk.length by omega)

/-- A block of the header: the stream fails, or the block is there and is checked. -/
theorem readHeaderBlock_reading (eof : s.readEof = false)
    {want : Nat} {check : Bytes → Except VMessError (VMessStream → VMessStream)}
    (hle : s.respBuf.length ≤ want) (hcalm : calm → ∀ t ∈ turns, t.Calm)
    (hpart : ∀ respBuf incoming, s.respBuf ++ s.incoming = respBuf ++ incoming →
      respBuf.length ≤ want → Reading keys calm { s with respBuf, incoming } [])
    (hshort : (s.respBuf ++ s.incoming).length < want → ∀ all, ¬ Verified keys all)
    (hbad : ∀ block incoming cause, s.respBuf ++ s.incoming = block ++ incoming →
      block.length = want → check block = .error cause → ∀ all, ¬ Verified keys all)
    (hgood : ∀ block incoming update, s.respBuf ++ s.incoming = block ++ incoming →
      block.length = want → check block = .ok update →
      Keyed keys (update { s with respBuf := [], incoming }) ∧
        Reading keys calm (update { s with respBuf := [], incoming }) []) :
    TurnReading keys calm [] turns (s.readHeaderBlock want check turns) := by
  rw [VMessStream.readHeaderBlock]
  have hfilled := filled hle s.incoming turns
  have hsuffix := fill_suffix want s.respBuf s.incoming turns
  generalize fill want s.respBuf s.incoming turns = result at *
  obtain ⟨answer, respBuf, incoming, turns'⟩ := result
  dsimp only at *
  have hbytes : s.respBuf ++ s.incoming = respBuf ++ incoming := by
    obtain ⟨moved, hgot, hmoved⟩ := hfilled.moved
    rw [hgot, hmoved, append_assoc]
  cases answer with
  | pending => exact ⟨{ hkeyed with }, hpart respBuf incoming hbytes hfilled.le⟩
  | failed =>
    exact ⟨{ hkeyed with }, .broken rfl eof fun hc => absurd (hcalm hc) (hfilled.failed rfl),
      hsuffix⟩
  | ended =>
    refine ⟨{ hkeyed with }, .broken rfl eof fun _ => hshort ?_, hsuffix⟩
    rw [hbytes, hfilled.ended rfl, append_nil]
    exact hfilled.short (by simp)
  | full =>
    have hlength := le_antisymm hfilled.le (hfilled.full rfl)
    dsimp only
    generalize hcheck : check respBuf = checked
    cases checked with
    | error cause =>
      exact ⟨{ hkeyed with },
        .broken rfl eof fun _ => hbad respBuf incoming cause hbytes hlength hcheck, hsuffix⟩
    | ok update =>
      obtain ⟨hkeyed', hreading⟩ := hgood respBuf incoming update hbytes hlength hcheck
      exact ⟨hkeyed', hreading, hsuffix⟩

theorem readRespHeaderLen_reading (state : s.state = .respHeaderLen)
    (fatal : s.fatal = none) (eof : s.readEof = false)
    (bytes : keys.incoming = s.respBuf ++ s.incoming) (length : s.respBuf.length ≤ 18)
    (len_nil : s.lenBuf = []) (count : s.readCount = 0) (hcalm : calm → ∀ t ∈ turns, t.Calm) :
    TurnReading keys calm [] turns (s.readRespHeaderLen keys.crypto turns) := by
  have hcheck (block : Bytes) : (do
      let len ← decryptRespHeaderLen keys.crypto block s.respKey s.respIv
      return fun s : VMessStream => { s with respPayloadLen := len, state := .respHeaderPayload }) =
      (decryptRespHeaderLen keys.crypto block keys.respKey keys.respIv).map
        fun len s => { s with respPayloadLen := len, state := .respHeaderPayload } := by
    rw [hkeyed.respKey, hkeyed.respIv]
    rfl
  refine readHeaderBlock_reading hkeyed eof length hcalm ?_ ?_ ?_ ?_
  · intro respBuf incoming hbytes hle
    exact .headerLen state fatal eof (bytes.trans hbytes) hle len_nil count
  · intro hshort all hverified
    have hlength := hverified.length
    rw [bytes] at hlength
    omega
  · intro block incoming cause hbytes hlength hcause all hverified
    obtain ⟨payload, len, hopened, -⟩ := hverified.block (bytes.trans hbytes) hlength
    rw [hcheck, hopened] at hcause
    cases hcause
  · intro block incoming update hbytes hlength hupdate
    rw [hcheck] at hupdate
    generalize hlen : decryptRespHeaderLen keys.crypto block keys.respKey keys.respIv = len at hupdate
    match len with
    | .error e => cases hupdate
    | .ok len =>
      obtain rfl := Except.ok.inj hupdate
      exact ⟨{ hkeyed with }, .headerPayload rfl fatal eof (bytes.trans hbytes) hlength hlen
        (Nat.zero_le _) len_nil count⟩

theorem readRespHeaderPayload_reading {block : Bytes}
    (state : s.state = .respHeaderPayload) (fatal : s.fatal = none) (eof : s.readEof = false)
    (bytes : keys.incoming = block ++ (s.respBuf ++ s.incoming)) (block_length : block.length = 18)
    (opened : decryptRespHeaderLen keys.crypto block keys.respKey keys.respIv =
      .ok s.respPayloadLen)
    (length : s.respBuf.length ≤ s.respPayloadLen + 16) (len_nil : s.lenBuf = [])
    (count : s.readCount = 0) (hcalm : calm → ∀ t ∈ turns, t.Calm) :
    TurnReading keys calm [] turns (s.readRespHeaderPayload keys.crypto turns) := by
  have hcheck (payload : Bytes) : (do
      verifyRespHeaderPayload keys.crypto payload s.respAuth s.respKey s.respIv
      return fun s : VMessStream => { s with state := .chunkLen }) =
      (verifyRespHeaderPayload keys.crypto payload keys.respAuth keys.respKey keys.respIv).map
        fun _ s => { s with state := .chunkLen } := by
    rw [hkeyed.respKey, hkeyed.respIv, hkeyed.respAuth]
    rfl
  refine readHeaderBlock_reading hkeyed eof length hcalm ?_ ?_ ?_ ?_
  · intro respBuf incoming hbytes hle
    exact .headerPayload state fatal eof (by rw [bytes, hbytes]) block_length opened hle len_nil
      count
  · intro hshort all hverified
    obtain ⟨payload, len, hopened, hrest, hpayload, -⟩ := hverified.block bytes block_length
    obtain rfl := Except.ok.inj (opened.symm.trans hopened)
    rw [hrest, length_append] at hshort
    omega
  · intro payload incoming cause hbytes hlength hcause all hverified
    rw [hbytes] at bytes
    rw [hcheck, (hverified.payload bytes block_length opened hlength).2] at hcause
    cases hcause
  · intro payload incoming update hbytes hlength hupdate
    rw [hcheck] at hupdate
    generalize hverify : verifyRespHeaderPayload keys.crypto payload keys.respAuth keys.respKey
      keys.respIv = verified at hupdate
    match verified with
    | .error e => cases hupdate
    | .ok () =>
      obtain rfl := Except.ok.inj hupdate
      have hverified : Verified keys incoming :=
        ⟨block, payload, s.respPayloadLen, by rw [bytes, hbytes], block_length, opened, hlength,
          hverify⟩
      have hchunks : InChunks keys.cipher incoming
          { s with respBuf := [], incoming, state := .chunkLen } (flatten []) := by
        have hnone : Decodes (openChunk keys.cipher) incoming [] (s.lenBuf ++ incoming) := by
          rw [len_nil]
          exact .nil
        refine .chunkLen rfl hnone ?_ ?_
        · exact count
        · rw [len_nil]
          exact Nat.zero_le 2
      have hbody : Reading keys calm { s with respBuf := [], incoming, state := .chunkLen }
          (okReads []) :=
        .body hverified fatal eof nofun hchunks
      exact ⟨{ hkeyed with }, hbody⟩

theorem readChunkLen_reading {all : Bytes} (verified : Verified keys all)
    (fatal : s.fatal = none) (eof : s.readEof = false) (nonempty : ∀ piece ∈ pieces, piece ≠ [])
    (state : s.state = .chunkLen)
    (decodes : Decodes (openChunk keys.cipher) all plains (s.lenBuf ++ s.incoming))
    (count : s.readCount = plains.length % 65536) (len_le : s.lenBuf.length ≤ 2)
    (delivered : pieces.flatten = plains.flatten) (hcalm : calm → ∀ t ∈ turns, t.Calm) :
    TurnReading keys calm (okReads pieces) turns (s.readChunkLen turns) := by
  rw [VMessStream.readChunkLen]
  obtain ⟨⟨moved, hgot, hmoved⟩, hfits, hlong, hshort, hended, hfailed, -⟩ :=
    filled len_le s.incoming turns
  have hsuffix := fill_suffix 2 s.lenBuf s.incoming turns
  generalize fill 2 s.lenBuf s.incoming turns = result at *
  obtain ⟨answer, lenBuf, incoming, turns'⟩ := result
  dsimp only at *
  rw [hmoved, ← append_assoc, ← hgot] at decodes
  cases answer with
  | pending =>
    refine ⟨{ hkeyed with }, .body verified fatal eof nonempty ?_⟩
    rw [delivered]
    exact .chunkLen state decodes count hfits
  | failed =>
    refine endRead_reading ?_ verified ?_ decodes
      (fun hc => absurd (hcalm hc) (hfailed rfl)) delivered
    · exact { hkeyed with }
    · exact fatal
  | ended =>
    rw [hended rfl, append_nil] at decodes
    refine endRead_reading ?_ verified ?_ decodes
      (fun _ => openChunk_len (hshort (by simp))) delivered
    · exact { hkeyed with }
    · exact fatal
  | full =>
    have hlength : lenBuf.length = 2 := le_antisymm hfits (hlong rfl)
    dsimp only
    by_cases hzero : u16At lenBuf 0 = 0
    · rw [if_pos hzero]
      refine endRead_reading ?_ verified ?_ decodes
        (fun _ => openChunk_zero hlength hzero _) delivered
      · exact { hkeyed with }
      · exact fatal
    · rw [if_neg hzero]
      refine ⟨{ hkeyed with }, .body verified fatal eof nonempty ?_, hsuffix⟩
      rw [delivered]
      exact .chunkPayload rfl decodes count rfl hlength rfl (Nat.pos_of_ne_zero hzero)
        (Nat.zero_le _)

theorem readChunkPayload_reading {all len : Bytes}
    (verified : Verified keys all) (fatal : s.fatal = none) (eof : s.readEof = false)
    (nonempty : ∀ piece ∈ pieces, piece ≠ []) (state : s.state = .chunkPayload)
    (decodes : Decodes (openChunk keys.cipher) all plains (len ++ (s.chunk ++ s.incoming)))
    (count : s.readCount = plains.length % 65536) (len_nil : s.lenBuf = [])
    (length : len.length = 2) (len_eq : u16At len 0 = s.chunkLen) (pos : 0 < s.chunkLen)
    (chunk_le : s.chunk.length ≤ s.chunkLen) (delivered : pieces.flatten = plains.flatten)
    (hcalm : calm → ∀ t ∈ turns, t.Calm) :
    TurnReading keys calm (okReads pieces) turns (s.readChunkPayload turns) := by
  rw [VMessStream.readChunkPayload]
  obtain ⟨⟨moved, hgot, hmoved⟩, hfits, hlong, hshort, hended, hfailed, -⟩ :=
    filled chunk_le s.incoming turns
  have hsuffix := fill_suffix s.chunkLen s.chunk s.incoming turns
  generalize fill s.chunkLen s.chunk s.incoming turns = result at *
  obtain ⟨answer, chunk, incoming, turns'⟩ := result
  dsimp only at *
  rw [hmoved, ← append_assoc s.chunk, ← hgot] at decodes
  cases answer with
  | pending =>
    refine ⟨{ hkeyed with }, .body verified fatal eof nonempty ?_⟩
    rw [delivered]
    exact .chunkPayload state decodes count len_nil length len_eq pos hfits
  | failed =>
    refine endRead_reading ?_ verified ?_ decodes
      (fun hc => absurd (hcalm hc) (hfailed rfl)) delivered
    · exact { hkeyed with }
    · exact fatal
  | ended =>
    rw [hended rfl, append_nil] at decodes
    refine endRead_reading ?_ verified ?_ decodes (fun _ => ?_) delivered
    · exact { hkeyed with }
    · exact fatal
    · exact openChunk_short length (by rw [len_eq]; exact hshort (by simp))
  | full =>
    have hlength : chunk.length = s.chunkLen := le_antisymm hfits (hlong rfl)
    have hopen (rest : Bytes) : openChunk keys.cipher plains (len ++ (chunk ++ rest)) =
        (keys.cipher.decrypt (plains.length % 65536) chunk).map (·, rest) :=
      openChunk_parts length (len_eq.trans hlength.symm) (by omega) rest
    have hsame : s.readCipher.decrypt s.readCount chunk =
        keys.cipher.decrypt (plains.length % 65536) chunk := by rw [hkeyed.cipher, count]
    dsimp only
    rw [hsame]
    generalize hdecrypt : keys.cipher.decrypt (plains.length % 65536) chunk = opened at hopen
    cases opened with
    | none =>
      refine endRead_reading ?_ verified ?_ decodes (fun _ => hopen incoming)
        delivered
      · exact { hkeyed with }
      · exact fatal
    | some plain =>
      have hnext := decodes.snoc (hopen incoming)
      have hcount : (s.readCount + 1) % 65536 = (plains.length + 1) % 65536 := by omega
      refine ⟨{ hkeyed with }, .body verified fatal eof nonempty ?_, hsuffix⟩
      rw [delivered]
      by_cases hnil : plain = []
      · subst hnil
        have hflat : plains.flatten = (plains ++ [[]]).flatten := by
          rw [flatten_append, flatten_singleton, append_nil]
        rw [hflat]
        refine .chunkLen rfl ?_ ?_ ?_
        · rw [len_nil]
          exact hnext
        · rw [length_append]
          exact hcount
        · rw [len_nil]
          exact Nat.zero_le 2
      · have hstart : plains.flatten = plains.flatten ++ plain.take 0 := by
          rw [take_zero, append_nil]
        rw [hstart]
        exact .plain (if_neg hnil) hnext hcount len_nil (length_pos_iff.mpr hnil)

end

/-! ## The loop -/

/-- The loop has something to do. -/
theorem not_done (hroom : 0 < room) (eof : s.readEof = false) :
    ¬ (room = 0 ∨ s.readEof) := by
  rw [eof]
  rintro (hzero | hbad)
  · exact Nat.ne_of_gt hroom hzero
  · cases hbad

theorem readTurn_reading (hkeyed : Keyed keys s) (h : Reading keys calm s reads) (hroom : 0 < room)
    (hcalm : calm → ∀ t ∈ turns, t.Calm) :
    TurnReading keys calm reads turns (s.readTurn keys.crypto room turns) := by
  rw [VMessStream.readTurn]
  cases h with
  | headerLen state fatal eof bytes length len_nil count =>
    rw [if_neg (not_done hroom eof), fatal, state]
    exact readRespHeaderLen_reading hkeyed state fatal eof bytes length len_nil count hcalm
  | headerPayload state fatal eof bytes block_length opened length len_nil count =>
    rw [if_neg (not_done hroom eof), fatal, state]
    exact readRespHeaderPayload_reading hkeyed state fatal eof bytes block_length opened length
      len_nil count hcalm
  | @broken e fatal eof bad =>
    rw [if_neg (not_done hroom eof), fatal]
    have hdead : Reading keys calm { s with fatal := none, readEof := true }
        (.error e :: replicate 0 (.ok [])) := .dead rfl rfl bad
    exact ⟨{ hkeyed with }, hdead⟩
  | @dead e n fatal eof bad =>
    rw [if_pos (.inr eof)]
    refine ⟨hkeyed, ?_⟩
    rw [cons_append, ← replicate_succ']
    exact .dead fatal eof bad
  | @body all pieces verified fatal eof nonempty chunks =>
    rw [if_neg (not_done hroom eof), fatal]
    generalize hflat : pieces.flatten = delivered at chunks
    cases chunks with
    | chunkLen state decodes count len_le =>
      rw [state]
      exact readChunkLen_reading hkeyed verified fatal eof nonempty state decodes count len_le hflat
        hcalm
    | chunkPayload state decodes count len_nil length len_eq pos chunk_le =>
      rw [state]
      exact readChunkPayload_reading hkeyed verified fatal eof nonempty state decodes count len_nil
        length len_eq pos chunk_le hflat hcalm
    | plain state decodes count len_nil pos =>
      rw [state]
      exact readPlain_reading hkeyed verified fatal eof nonempty hroom decodes count len_nil pos
        state hflat
  | @ended all rest plains pieces verified fatal eof decodes stuck delivered =>
    rw [if_pos (.inr eof)]
    refine ⟨hkeyed, ?_⟩
    rw [okReads_append]
    refine .ended verified fatal eof decodes stuck ?_
    rw [flatten_append, flatten_singleton, append_nil, delivered]

theorem readLoop_reading (hkeyed : Keyed keys s) (h : Reading keys calm s reads) (hroom : 0 < room)
    (hcalm : calm → ∀ t ∈ turns, t.Calm) (fuel : Nat) :
    TurnReading keys calm reads turns
      (.answer (VMessStream.readLoop keys.crypto room fuel s turns).1
        (VMessStream.readLoop keys.crypto room fuel s turns).2) := by
  induction fuel generalizing s turns with
  | zero => exact ⟨hkeyed, h⟩
  | succ fuel ih =>
    have hturn := readTurn_reading hkeyed h hroom hcalm
    rw [VMessStream.readLoop]
    generalize s.readTurn keys.crypto room turns = turn at hturn
    cases turn with
    | again s' turns' =>
      obtain ⟨hkeyed', hreading, hsuffix⟩ := hturn
      have hnext := ih hkeyed' hreading fun hc t ht => hcalm hc t (hsuffix.subset ht)
      dsimp only
      generalize VMessStream.readLoop keys.crypto room fuel s' turns' = result at hnext ⊢
      obtain ⟨answer, s''⟩ := result
      cases answer with
      | none | some answer => exact hnext
    | answer answer s' =>
      cases answer with
      | none | some answer => exact hturn

/-! ## Answers

Each iteration is done with some bytes or is followed by the last one. With enough turns in which
the stream below answers at once, `poll_read` answers. -/

namespace VMessStream

/-- The most iterations that can follow. -/
def left (s : VMessStream) : Nat :=
  if s.fatal.isSome ∨ s.readEof ∨ s.state = .plain then 1 else s.unfinished + 2

theorem left_le (s : VMessStream) : s.left ≤ s.unfinished + 2 := by
  rw [left]
  split
  · omega
  · exact le_rfl

/-- The stream below is not needed any more, or it answers at once until after its end. -/
def Ready (s : VMessStream) (turns : List Behaviour) : Prop :=
  s.left = 1 ∨ (∀ t ∈ turns, t.Prompt) ∧ s.incoming.length < turns.length

/-- An iteration comes closer to an answer. -/
def Advances (s : VMessStream) (turns : List Behaviour) : VMessTurn → Prop
  | .again s' turns' => s'.left < s.left ∧ (s.Ready turns → s'.Ready turns')
  | .answer answer _ => s.Ready turns → answer ≠ none

theorem left_of_fatal {s : VMessStream} {e : VMessError} (h : s.fatal = some e) : s.left = 1 := by
  rw [left, h]
  exact if_pos (.inl rfl)

theorem left_of_plain {s : VMessStream} (h : s.state = .plain) : s.left = 1 := by
  rw [left, h]
  exact if_pos (.inr (.inr rfl))

theorem left_of_open {s : VMessStream} (fatal : s.fatal = none) (eof : s.readEof = false)
    (state : s.state ≠ .plain) : s.left = s.unfinished + 2 := by
  rw [left, fatal, eof]
  refine if_neg ?_
  rintro (h | h | h)
  · cases h
  · cases h
  · exact state h

theorem one_le_left (s : VMessStream) : 1 ≤ s.left := by
  rw [left]
  split
  · exact Nat.le_refl 1
  · omega

/-- Where the stream below is needed, it has to answer at once. -/
theorem Ready.prompt (h : s.Ready turns) (hleft : s.left = s.unfinished + 2) :
    (∀ t ∈ turns, t.Prompt) ∧ s.incoming.length < turns.length := by
  rcases h with hone | h
  · omega
  · exact h

variable {want : Nat} {got got' incoming : Bytes} {answer : FillAnswer} {turns' : List Behaviour}

/-- What is ready stays so while a buffer is filled. -/
theorem Ready.fill (h : s.Ready turns) (hleft : s.left = s.unfinished + 2)
    (hfilled : Filled want got s.incoming turns answer got' incoming turns')
    (hsuffix : turns' <:+ turns) (hfull : answer = .full) {s' : VMessStream}
    (hincoming : s'.incoming = incoming) : s'.Ready turns' := by
  obtain ⟨hprompt, hless⟩ := h.prompt hleft
  have hused := (hfilled.prompt hprompt hless).2 hfull
  refine .inr ⟨fun t ht => hprompt t (hsuffix.subset ht), ?_⟩
  rw [hincoming]
  omega

theorem Ready.not_pending (h : s.Ready turns) (hleft : s.left = s.unfinished + 2)
    (hfilled : Filled want got s.incoming turns answer got' incoming turns') :
    answer ≠ .pending := by
  obtain ⟨hprompt, hless⟩ := h.prompt hleft
  exact (hfilled.prompt hprompt hless).1

theorem readHeaderBlock_advances
    {check : Bytes → Except VMessError (VMessStream → VMessStream)} (fatal : s.fatal = none)
    (eof : s.readEof = false) (state : s.state ≠ .plain) (hle : s.respBuf.length ≤ want)
    (hwant : 0 < want)
    (hcheck : ∀ block update, check block = .ok update → ∀ s', s'.fatal = none →
      s'.readEof = false → (update s').left = s'.unfinished + 2 ∧
        (update s').incoming = s'.incoming) :
    s.Advances turns (s.readHeaderBlock want check turns) := by
  have hleft := left_of_open fatal eof state
  have hfilled := filled hle s.incoming turns
  have hsuffix := fill_suffix want s.respBuf s.incoming turns
  rw [readHeaderBlock]
  generalize fill want s.respBuf s.incoming turns = result at *
  obtain ⟨answer, respBuf, incoming, turns'⟩ := result
  dsimp only at *
  have hfail (cause : VMessError) :
      s.Advances turns (.again (failHeader { s with respBuf, incoming } cause) turns') := by
    have hone : (failHeader { s with respBuf, incoming } cause).left = 1 := left_of_fatal rfl
    exact ⟨by omega, fun _ => .inl hone⟩
  cases answer with
  | pending => exact fun hready => absurd rfl (hready.not_pending hleft hfilled)
  | failed => exact hfail .io
  | ended => exact hfail .closedMidRead
  | full =>
    dsimp only
    generalize hblock : check respBuf = checked
    cases checked with
    | error cause => exact hfail cause
    | ok update =>
      obtain ⟨hupdate, hincoming⟩ :=
        hcheck respBuf update hblock { s with respBuf := [], incoming } fatal eof
      refine ⟨?_, fun hready => hready.fill hleft hfilled hsuffix rfl hincoming⟩
      have hlength := hfilled.full rfl
      have hsize := hfilled.length_add
      rw [hupdate, hleft]
      simp only [unfinished, length_nil]
      omega

theorem readChunkLen_advances (fatal : s.fatal = none) (eof : s.readEof = false)
    (state : s.state = .chunkLen) (len_le : s.lenBuf.length ≤ 2) :
    s.Advances turns (s.readChunkLen turns) := by
  have hleft := left_of_open fatal eof (by simp [state])
  have hfilled := filled len_le s.incoming turns
  have hsuffix := fill_suffix 2 s.lenBuf s.incoming turns
  rw [readChunkLen]
  generalize fill 2 s.lenBuf s.incoming turns = result at *
  obtain ⟨answer, lenBuf, incoming, turns'⟩ := result
  dsimp only at *
  cases answer with
  | pending => exact fun hready => absurd rfl (hready.not_pending hleft hfilled)
  | failed | ended => exact fun _ => Option.some_ne_none _
  | full =>
    dsimp only
    split
    · exact fun _ => Option.some_ne_none _
    have hnext : ∀ s' : VMessStream, s'.fatal = none → s'.readEof = false →
        s'.state = .chunkPayload → s'.left = s'.unfinished + 2 :=
      fun s' hf he hs => left_of_open hf he (by simp [hs])
    refine ⟨?_, fun hready => hready.fill hleft hfilled hsuffix rfl rfl⟩
    have hlength := hfilled.full rfl
    have hsize := hfilled.length_add
    rw [hleft, hnext _ (by exact fatal) (by exact eof) rfl]
    simp only [unfinished, length_nil]
    omega

theorem readChunkPayload_advances (fatal : s.fatal = none) (eof : s.readEof = false)
    (state : s.state = .chunkPayload) (chunk_le : s.chunk.length ≤ s.chunkLen)
    (pos : 0 < s.chunkLen) : s.Advances turns (s.readChunkPayload turns) := by
  have hleft := left_of_open fatal eof (by simp [state])
  have hfilled := filled chunk_le s.incoming turns
  have hsuffix := fill_suffix s.chunkLen s.chunk s.incoming turns
  rw [readChunkPayload]
  generalize fill s.chunkLen s.chunk s.incoming turns = result at *
  obtain ⟨answer, chunk, incoming, turns'⟩ := result
  dsimp only at *
  cases answer with
  | pending => exact fun hready => absurd rfl (hready.not_pending hleft hfilled)
  | failed | ended => exact fun _ => Option.some_ne_none _
  | full =>
    dsimp only
    generalize s.readCipher.decrypt s.readCount chunk = opened
    cases opened with
    | none => exact fun _ => Option.some_ne_none _
    | some plain =>
      refine ⟨?_, fun hready => hready.fill hleft hfilled hsuffix rfl rfl⟩
      by_cases hnil : plain = []
      · -- a chunk without bytes: the loop goes on with less
        subst hnil
        have hnext : ∀ s' : VMessStream, s'.fatal = none → s'.readEof = false →
            s'.state = .chunkLen → s'.left = s'.unfinished + 2 :=
          fun s' hf he hs => left_of_open hf he (by simp [hs])
        have hlength := hfilled.full rfl
        have hsize := hfilled.length_add
        rw [hleft, hnext _ (by exact fatal) (by exact eof) rfl]
        simp only [unfinished, length_nil]
        omega
      · have hone : ∀ s' : VMessStream,
            s'.state = (if plain = [] then .chunkLen else .plain) → s'.left = 1 :=
          fun s' hs => left_of_plain (hs.trans (if_neg hnil))
        rw [hone _ rfl]
        omega

end VMessStream

open VMessStream in
theorem Reading.advances (h : Reading keys calm s reads) (hroom : 0 < room) :
    s.Advances turns (s.readTurn keys.crypto room turns) := by
  rw [VMessStream.readTurn]
  cases h with
  | headerLen state fatal eof bytes length len_nil count =>
    rw [if_neg (not_done hroom eof), fatal, state]
    refine readHeaderBlock_advances fatal eof ?_ length (by decide) ?_
    · simp [state]
    · intro block update hcheck s' hfatal heof
      generalize decryptRespHeaderLen keys.crypto block _ _ = len at hcheck
      cases len with
      | error e => cases hcheck
      | ok len =>
        obtain rfl := Except.ok.inj hcheck
        exact ⟨left_of_open hfatal heof (by simp), rfl⟩
  | headerPayload state fatal eof bytes block_length opened length len_nil count =>
    rw [if_neg (not_done hroom eof), fatal, state]
    refine readHeaderBlock_advances fatal eof ?_ length (by omega) ?_
    · simp [state]
    · intro block update hcheck s' hfatal heof
      generalize verifyRespHeaderPayload keys.crypto block _ _ _ = verified at hcheck
      cases verified with
      | error e => cases hcheck
      | ok =>
        obtain rfl := Except.ok.inj hcheck
        exact ⟨left_of_open hfatal heof (by simp), rfl⟩
  | broken fatal eof bad =>
    rw [if_neg (not_done hroom eof), fatal]
    exact fun _ => Option.some_ne_none _
  | dead fatal eof bad =>
    rw [if_pos (.inr eof)]
    exact fun _ => Option.some_ne_none _
  | @body all pieces verified fatal eof nonempty chunks =>
    rw [if_neg (not_done hroom eof), fatal]
    generalize pieces.flatten = delivered at chunks
    cases chunks with
    | chunkLen state decodes count len_le =>
      rw [state]
      exact readChunkLen_advances fatal eof state len_le
    | chunkPayload state decodes count len_nil length len_eq pos chunk_le =>
      rw [state]
      exact readChunkPayload_advances fatal eof state chunk_le pos
    | plain state decodes count len_nil pos =>
      rw [state]
      exact fun _ => Option.some_ne_none _
  | ended verified fatal eof decodes stuck delivered =>
    rw [if_pos (.inr eof)]
    exact fun _ => Option.some_ne_none _

variable {fuel : Nat}

/-- If the stream below answers at once, the loop answers. -/
theorem readLoop_answers (hkeyed : Keyed keys s) (h : Reading keys calm s reads) (hroom : 0 < room)
    (hcalm : calm → ∀ t ∈ turns, t.Calm) (hfuel : s.left ≤ fuel)
    (hready : s.Ready turns) : (VMessStream.readLoop keys.crypto room fuel s turns).1 ≠ none := by
  induction fuel generalizing s turns with
  | zero => exact absurd s.one_le_left (by omega)
  | succ fuel ih =>
    have hturn := readTurn_reading hkeyed h hroom hcalm
    have hadvances : s.Advances turns (s.readTurn keys.crypto room turns) := h.advances hroom
    rw [VMessStream.readLoop]
    generalize s.readTurn keys.crypto room turns = turn at hturn hadvances
    cases turn with
    | again s' turns' =>
      obtain ⟨hkeyed', hreading, hsuffix⟩ := hturn
      obtain ⟨hless, hnext⟩ := hadvances
      exact ih hkeyed' hreading (fun hc t ht => hcalm hc t (hsuffix.subset ht)) (by omega)
        (hnext hready)
    | answer answer s' => exact hadvances hready

/-- The iterations that `pollRead` allows are enough: more would change nothing. -/
theorem readLoop_succ (hkeyed : Keyed keys s) (h : Reading keys calm s reads) (hroom : 0 < room)
    (hcalm : calm → ∀ t ∈ turns, t.Calm) (hfuel : s.left ≤ fuel) :
    VMessStream.readLoop keys.crypto room (fuel + 1) s turns =
      VMessStream.readLoop keys.crypto room fuel s turns := by
  induction fuel generalizing s turns with
  | zero => exact absurd s.one_le_left (by omega)
  | succ fuel ih =>
    have hturn := readTurn_reading hkeyed h hroom hcalm
    have hadvances : s.Advances turns (s.readTurn keys.crypto room turns) := h.advances hroom
    rw [VMessStream.readLoop, VMessStream.readLoop]
    generalize s.readTurn keys.crypto room turns = turn at hturn hadvances
    cases turn with
    | again s' turns' =>
      obtain ⟨hkeyed', hreading, hsuffix⟩ := hturn
      obtain ⟨hless, -⟩ := hadvances
      exact ih hkeyed' hreading (fun hc t ht => hcalm hc t (hsuffix.subset ht)) (by omega)
    | answer answer s' => rfl

/-! ## Runs -/

/-- Writing leaves alone what reading is about. -/
def KeepsReading (s s' : VMessStream) : Prop :=
  ∃ wire writeInFlight writeCount writeClosed,
    s' = { s with wire, writeInFlight, writeCount, writeClosed }

theorem KeepsReading.reading {s' : VMessStream} (hkeeps : KeepsReading s s') (hkeyed : Keyed keys s)
    (h : Reading keys calm s reads) : Keyed keys s' ∧ Reading keys calm s' reads := by
  obtain ⟨wire, writeInFlight, writeCount, writeClosed, rfl⟩ := hkeeps
  refine ⟨{ hkeyed with }, ?_⟩
  cases h with
  | headerLen state fatal eof bytes length len_nil count =>
    exact .headerLen state fatal eof bytes length len_nil count
  | headerPayload state fatal eof bytes block_length opened length len_nil count =>
    exact .headerPayload state fatal eof bytes block_length opened length len_nil count
  | broken fatal eof bad => exact .broken fatal eof bad
  | dead fatal eof bad => exact .dead fatal eof bad
  | @body all pieces verified fatal eof nonempty chunks =>
    refine .body verified fatal eof nonempty ?_
    generalize pieces.flatten = delivered at chunks
    cases chunks with
    | chunkLen state decodes count len_le => exact .chunkLen state decodes count len_le
    | chunkPayload state decodes count len_nil length len_eq pos chunk_le =>
      exact .chunkPayload state decodes count len_nil length len_eq pos chunk_le
    | plain state decodes count len_nil pos => exact .plain state decodes count len_nil pos
  | ended verified fatal eof decodes stuck delivered =>
    exact .ended verified fatal eof decodes stuck delivered

theorem pollFlushOut_keepsReading (s : VMessStream) (turns : List Behaviour) :
    KeepsReading s (s.pollFlushOut turns).2.1 :=
  ⟨_, _, _, _, rfl⟩

theorem writeChunk_keepsReading (s : VMessStream) (buf : Bytes) (turns : List Behaviour) :
    KeepsReading s (s.writeChunk buf turns).2 := by
  rw [VMessStream.writeChunk]
  split
  · exact ⟨_, _, _, _, rfl⟩
  dsimp only [VMessStream.pollFlushOut]
  generalize Outgoing.flush _ turns = result
  obtain ⟨answer, wire, turns'⟩ := result
  cases answer with
  | pending | failed | zero | done => exact ⟨_, _, _, _, rfl⟩

theorem pollWrite_keepsReading (s : VMessStream) (buf : Bytes) (turns : List Behaviour) :
    KeepsReading s (s.pollWrite buf turns).2 := by
  rw [VMessStream.pollWrite]
  split
  · exact ⟨_, _, _, _, rfl⟩
  split
  · rw [VMessStream.pollFlushOut]
    generalize s.wire.flush turns = result
    obtain ⟨answer, wire, turns'⟩ := result
    cases answer with
    | pending | failed | zero => exact ⟨_, _, _, _, rfl⟩
    | done =>
      dsimp only [VMessStream.flushAnswer]
      split
      · exact ⟨_, _, _, _, rfl⟩
      · obtain ⟨_, _, _, _, heq⟩ := writeChunk_keepsReading { s with wire } buf turns'
        exact ⟨_, _, _, _, heq⟩
  · exact writeChunk_keepsReading s buf turns

theorem pollShutdown_keepsReading (s : VMessStream) (turns : List Behaviour) :
    KeepsReading s (s.pollShutdown turns).2 := by
  rw [VMessStream.pollShutdown, VMessStream.pollFlushOut]
  generalize s.wire.flush turns = result
  obtain ⟨answer, wire, turns'⟩ := result
  cases answer with
  | pending | failed | zero => exact ⟨_, _, _, _, rfl⟩
  | done =>
    obtain _ | ⟨_ | _ | _, _⟩ := turns' <;> exact ⟨_, _, _, _, rfl⟩

/-- A reader with its keys. -/
structure Reader (keys : VMessKeys) (calm : Prop) (r : VMessRun) : Prop where
  keyed : Keyed keys r.stream
  reading : Reading keys calm r.stream r.reads

namespace Reader

variable {r : VMessRun}

theorem pollRead (h : Reader keys calm r) (hcalm : calm → ∀ t ∈ turns, t.Calm) :
    Reader keys calm (r.afterRead room (r.stream.pollRead keys.crypto room turns)) := by
  rcases Nat.eq_zero_or_pos room with rfl | hroom
  · have hanswer : r.stream.pollRead keys.crypto 0 turns = (some (.ok []), r.stream) := by
      rw [VMessStream.pollRead, VMessStream.readLoop, VMessStream.readTurn, if_pos (.inl rfl)]
    rw [hanswer]
    exact ⟨h.keyed, h.reading⟩
  · have hloop := readLoop_reading h.keyed h.reading hroom hcalm (r.stream.unfinished + 2)
    rw [VMessStream.pollRead]
    generalize VMessStream.readLoop _ room _ r.stream turns = result at hloop
    obtain ⟨answer, s⟩ := result
    cases answer with
    | none => exact ⟨hloop.1, hloop.2⟩
    | some answer =>
      refine ⟨hloop.1, ?_⟩
      show Reading keys calm s (if room = 0 then r.reads else r.reads ++ [answer])
      rw [if_neg (Nat.ne_of_gt hroom)]
      exact hloop.2

theorem write {s : VMessStream} (h : Reader keys calm r) (hkeeps : KeepsReading r.stream s)
    (acks : List Bytes) (pended : Option Bytes) :
    Reader keys calm { r with stream := s, acks, pended } := by
  obtain ⟨hkeyed, hreading⟩ := hkeeps.reading h.keyed h.reading
  exact ⟨hkeyed, hreading⟩

theorem poll (h : Reader keys calm r) {e : VMessEvent} (hcalm : calm → ∀ t ∈ e.turns, t.Calm) :
    Reader keys calm (r.poll keys.crypto e) := by
  cases e with
  | read room turns => exact h.pollRead hcalm
  | write buf turns =>
    have hkeeps := pollWrite_keepsReading r.stream buf turns
    show Reader keys calm (r.afterWrite buf (r.stream.pollWrite buf turns))
    generalize r.stream.pollWrite buf turns = result at hkeeps
    match result with
    | (none, s) | (some (.ok n), s) | (some (.error e), s) => exact h.write hkeeps _ _
  | flush turns => exact h.write (pollFlushOut_keepsReading r.stream turns) _ _
  | shutdown turns => exact h.write (pollShutdown_keepsReading r.stream turns) _ _

/-- If the stream below answers at once until after its end, a read with room is answered. -/
theorem answers (h : Reader keys calm r) (hroom : 0 < room) (hcalm : calm → ∀ t ∈ turns, t.Calm)
    (hprompt : ∀ t ∈ turns, t.Prompt) (hturns : r.stream.incoming.length < turns.length) :
    (r.stream.pollRead keys.crypto room turns).1 ≠ none :=
  readLoop_answers h.keyed h.reading hroom hcalm r.stream.left_le (.inr ⟨hprompt, hturns⟩)

theorem new (crypto : VMessCrypto) (calm : Prop) (incoming reqKey : Bytes)
    (reqIv : Vector UInt8 16) (respKey : Bytes) (respIv : Vector UInt8 16) (respAuth : UInt8)
    (security : VMessSecurity) :
    Reader ⟨crypto, incoming, .new crypto security respKey respIv, respKey, respIv.toList, respAuth⟩
      calm (.new (.new crypto incoming reqKey reqIv respKey respIv respAuth security)) :=
  ⟨⟨rfl, rfl, rfl, rfl⟩, .headerLen rfl rfl rfl rfl (Nat.zero_le _) rfl rfl⟩

theorem delivered_okReads {pieces : List Bytes} (h : r.reads = okReads pieces) :
    r.delivered = pieces.flatten := by
  rw [VMessRun.delivered, h, okReads, flatMap_map]
  exact flatMap_id

theorem delivered_error {e : VMessError} {n : Nat}
    (h : r.reads = .error e :: replicate n (.ok [])) : r.delivered = [] := by
  rw [VMessRun.delivered, h, flatMap_cons, nil_append]
  refine flatMap_eq_nil_iff.mpr fun answer hanswer => ?_
  rw [eq_of_mem_replicate hanswer]

/-- What the caller of a reader saw: nothing, one error and then the end, or what the chunks behind a
header that verified have. -/
theorem outcome (h : Reader keys calm r) :
    r.reads = [] ∨
    (∃ e n, r.reads = .error e :: replicate n (.ok [])) ∧
      (calm → ∀ all, ¬ Verified keys all) ∨
    ∃ all plains rest pieces, r.reads = okReads pieces ∧ Verified keys all ∧
      Decodes (openChunk keys.cipher) all plains rest ∧ pieces.flatten <+: plains.flatten ∧
      ([] ∈ pieces → pieces.flatten = plains.flatten ∧
        (calm → openChunk keys.cipher plains rest = none)) := by
  obtain ⟨-, hreading⟩ := h
  generalize r.reads = reads at hreading ⊢
  cases hreading with
  | headerLen state fatal eof bytes length len_nil count
  | headerPayload state fatal eof bytes block_length opened length len_nil count
  | broken fatal eof bad => exact .inl rfl
  | @dead e n fatal eof bad => exact .inr (.inl ⟨⟨e, n, rfl⟩, bad⟩)
  | @body all pieces verified fatal eof nonempty chunks =>
    have hnil (hmem : [] ∈ pieces) : False := nonempty [] hmem rfl
    generalize hflat : pieces.flatten = delivered at chunks
    refine .inr (.inr ?_)
    cases chunks with
    | @chunkLen plains state decodes count len_le
    | @chunkPayload plains len state decodes count len_nil length len_eq pos chunk_le =>
      exact ⟨all, plains, _, pieces, rfl, verified, decodes, hflat ▸ prefix_refl _,
        fun hmem => (hnil hmem).elim⟩
    | @plain plains state decodes count len_nil pos =>
      refine ⟨all, plains ++ [r.stream.chunk], _, pieces, rfl, verified, decodes, ?_,
        fun hmem => (hnil hmem).elim⟩
      rw [hflat, flatten_append, flatten_singleton]
      exact (prefix_append_right_inj _).mpr ( take_prefix _ _)
  | @ended all rest plains pieces verified fatal eof decodes stuck delivered =>
    exact .inr (.inr ⟨all, plains, rest, pieces, rfl, verified, decodes,
      delivered ▸ prefix_refl _, fun _ => ⟨delivered, stuck⟩⟩)

end Reader

end Sockrocket
