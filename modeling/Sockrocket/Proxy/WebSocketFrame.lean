import Sockrocket.Proxy.Bytes

/-!
# WebSocket frames

The codec of `proxy/ws.rs`. A frame is a header of two to fourteen bytes and a payload, which a key
of four bytes may mask. `WsFrame.encode` are the bytes of a frame as RFC 6455 lays them out, and
`WsFrame.take` reads one back; the frames that the client writes are of this form.
-/

namespace Sockrocket

open Rust Dns
open List hiding Vector

/-- `MAX_FRAME_PAYLOAD`. -/
def maxFramePayload : Nat := 64 * 1024 * 1024

/-- The key of a mask. -/
abbrev WsKey := Vector UInt8 4

/-! ## Masking -/

/-- Mask bytes, from a position in the payload on. -/
def maskFrom (key : WsKey) : Nat → Bytes → Bytes
  | _, [] => []
  | i, b :: rest => (b ^^^ key[i % 4]) :: maskFrom key (i + 1) rest

/-- Mask bytes if there is a key. -/
def maskWith (key : Option WsKey) (i : Nat) (bytes : Bytes) : Bytes :=
  match key with
  | none => bytes
  | some key => maskFrom key i bytes

theorem length_maskFrom (key : WsKey) (i : Nat) (bytes : Bytes) :
    (maskFrom key i bytes).length = bytes.length := by
  induction bytes generalizing i with
  | nil => rfl
  | cons b bytes ih => rw [maskFrom, length_cons, length_cons, ih]

theorem maskFrom_append (key : WsKey) (i : Nat) (x y : Bytes) :
    maskFrom key i (x ++ y) = maskFrom key i x ++ maskFrom key (i + x.length) y := by
  induction x generalizing i with
  | nil => rfl
  | cons b x ih =>
    rw [cons_append, maskFrom, maskFrom, ih, length_cons, cons_append,
      add_assoc i 1, add_comm 1]

/-- The mask of a position depends on its remainder by four. -/
theorem maskFrom_mod (key : WsKey) {i j : Nat} (h : i % 4 = j % 4) (bytes : Bytes) :
    maskFrom key i bytes = maskFrom key j bytes := by
  induction bytes generalizing i j with
  | nil => rfl
  | cons b bytes ih =>
    have hnext : (i + 1) % 4 = (j + 1) % 4 := by omega
    simp [maskFrom, h, ih hnext]

/-- To mask twice changes nothing. -/
theorem maskFrom_maskFrom (key : WsKey) (i : Nat) (bytes : Bytes) :
    maskFrom key i (maskFrom key i bytes) = bytes := by
  induction bytes generalizing i with
  | nil => rfl
  | cons b bytes ih => rw [maskFrom, maskFrom, ih, UInt8.xor_assoc, UInt8.xor_self, UInt8.xor_zero]

theorem length_maskWith (key : Option WsKey) (i : Nat) (bytes : Bytes) :
    (maskWith key i bytes).length = bytes.length := by
  cases key with
  | none => rfl
  | some key => exact length_maskFrom key i bytes

theorem maskWith_append (key : Option WsKey) (i : Nat) (x y : Bytes) :
    maskWith key i (x ++ y) = maskWith key i x ++ maskWith key (i + x.length) y := by
  cases key with
  | none => rfl
  | some key => exact maskFrom_append key i x y

theorem maskWith_maskWith (key : Option WsKey) (i : Nat) (bytes : Bytes) :
    maskWith key i (maskWith key i bytes) = bytes := by
  cases key with
  | none => rfl
  | some key => exact maskFrom_maskFrom key i bytes

/-- `u32::from_ne_bytes`, on a machine with the least significant byte first. -/
def fromNeBytes (a b c d : UInt8) : BitVec 32 :=
  d.toBitVec ++ c.toBitVec ++ b.toBitVec ++ a.toBitVec

/-- `u32::to_ne_bytes`. -/
def toNeBytes (w : BitVec 32) : Bytes :=
  [.ofBitVec (w.extractLsb' 0 8), .ofBitVec (w.extractLsb' 8 8), .ofBitVec (w.extractLsb' 16 8),
    .ofBitVec (w.extractLsb' 24 8)]

/-- The loops of `mask_payload_into`: four bytes at a time, and the rest one by one. -/
def maskChunks (key : WsKey) : Bytes → Bytes
  | a :: b :: c :: d :: rest =>
    toNeBytes (fromNeBytes a b c d ^^^ fromNeBytes key[0] key[1] key[2] key[3]) ++
      maskChunks key rest
  | rest => rest.mapIdx fun i b => b ^^^ key.toList.getD i 0

/-- `mask_payload_into`. -/
def maskPayloadInto (out payload : Bytes) (key : WsKey) : Bytes :=
  out ++ maskChunks key payload

theorem toNeBytes_fromNeBytes (a b c d : UInt8) : toNeBytes (fromNeBytes a b c d) = [a, b, c, d] := by
  have hbyte {x : UInt8} {w : BitVec 32} {i : Nat} (h : w.extractLsb' i 8 = x.toBitVec) :
      UInt8.ofBitVec (w.extractLsb' i 8) = x := by rw [h]
  have ha : (fromNeBytes a b c d).extractLsb' 0 8 = a.toBitVec := by
    refine BitVec.eq_of_getLsbD_eq fun i hi => ?_
    rw [fromNeBytes, BitVec.getLsbD_extractLsb', BitVec.getLsbD_append, if_pos (by omega),
      zero_add, decide_eq_true hi, Bool.true_and]
  have hb : (fromNeBytes a b c d).extractLsb' 8 8 = b.toBitVec := by
    refine BitVec.eq_of_getLsbD_eq fun i hi => ?_
    rw [fromNeBytes, BitVec.getLsbD_extractLsb', BitVec.getLsbD_append, if_neg (by omega),
      BitVec.getLsbD_append, if_pos (by omega), Nat.add_sub_cancel_left, decide_eq_true hi,
      Bool.true_and]
  have hc : (fromNeBytes a b c d).extractLsb' 16 8 = c.toBitVec := by
    refine BitVec.eq_of_getLsbD_eq fun i hi => ?_
    rw [fromNeBytes, BitVec.getLsbD_extractLsb', BitVec.getLsbD_append, if_neg (by omega),
      BitVec.getLsbD_append, if_neg (by omega), BitVec.getLsbD_append, if_pos (by omega),
      show 16 + i - 8 - 8 = i by omega, decide_eq_true hi, Bool.true_and]
  have hd : (fromNeBytes a b c d).extractLsb' 24 8 = d.toBitVec := by
    refine BitVec.eq_of_getLsbD_eq fun i hi => ?_
    rw [fromNeBytes, BitVec.getLsbD_extractLsb', BitVec.getLsbD_append, if_neg (by omega),
      BitVec.getLsbD_append, if_neg (by omega), BitVec.getLsbD_append, if_neg (by omega),
      show 24 + i - 8 - 8 - 8 = i by omega, decide_eq_true hi, Bool.true_and]
  rw [toNeBytes, hbyte ha, hbyte hb, hbyte hc, hbyte hd]

theorem fromNeBytes_xor (a b c d w x y z : UInt8) :
    fromNeBytes a b c d ^^^ fromNeBytes w x y z =
      fromNeBytes (a ^^^ w) (b ^^^ x) (c ^^^ y) (d ^^^ z) := by
  rw [fromNeBytes, fromNeBytes, BitVec.xor_append, BitVec.xor_append, BitVec.xor_append]
  rfl

/-- To mask by words is to mask by bytes. -/
theorem maskChunks_eq (key : WsKey) (payload : Bytes) :
    maskChunks key payload = maskFrom key 0 payload := by
  induction payload using maskChunks.induct with
  | case1 a b c d rest ih =>
    show toNeBytes (fromNeBytes a b c d ^^^ fromNeBytes _ _ _ _) ++ maskChunks key rest = _
    rw [fromNeBytes_xor, toNeBytes_fromNeBytes, ih, maskFrom, maskFrom, maskFrom, maskFrom,
      maskFrom_mod key (show 0 % 4 = (0 + 1 + 1 + 1 + 1) % 4 from rfl)]
    rfl
  | case2 rest hshort =>
    have hkey {i : Nat} (hi : i < 4) : key.toList.getD i 0 = key[i] := by
      rw [getD_eq_getElem _ _ (by rwa [Vector.length_toList]), Vector.getElem_toList]
    match rest, hshort with
    | [], _ => rfl
    | [a], _ =>
      show [a ^^^ key.toList.getD 0 0] = [a ^^^ key[0]]
      rw [hkey (by decide)]
    | [a, b], _ =>
      show [a ^^^ key.toList.getD 0 0, b ^^^ key.toList.getD 1 0] = [a ^^^ key[0], b ^^^ key[1]]
      rw [hkey (by decide), hkey (by decide)]
    | [a, b, c], _ =>
      show [a ^^^ key.toList.getD 0 0, b ^^^ key.toList.getD 1 0, c ^^^ key.toList.getD 2 0] =
        [a ^^^ key[0], b ^^^ key[1], c ^^^ key[2]]
      rw [hkey (by decide), hkey (by decide), hkey (by decide)]
    | a :: b :: c :: d :: rest, hshort => exact absurd rfl (hshort a b c d rest)

/-! ## Headers -/

/-- `u64::from_be_bytes` at a position. -/
def u64At (data : Bytes) (i : Nat) : Nat :=
  u32At data i * 4294967296 + u32At data (i + 4)

/-- `u64::to_be_bytes`. -/
def be64 (n : Nat) : Bytes :=
  be32 (n / 4294967296) ++ be32 n

/-- The errors of a WebSocket stream. `io` is one of the stream below. -/
inductive WsError where
  | io
  | unsupportedOpcode
  | payloadTooLarge (size : Nat)
  | invalidControlFrame
  | closedInHeader
  | closedInPayload
  | writeZero
  | closed
deriving DecidableEq, Repr

/-- The opcodes of the protocol. -/
def knownOpcode (opcode : UInt8) : Bool :=
  opcode == 0 || opcode == 1 || opcode == 2 || opcode == 8 || opcode == 9 || opcode == 10

/-- The size of a header, from its second byte. -/
def wsHeaderSize (second : UInt8) : Nat :=
  let ext := if second &&& 0x7f = 126 then 2 else if second &&& 0x7f = 127 then 8 else 0
  let mask := if second &&& 0x80 ≠ 0 then 4 else 0
  2 + ext + mask

/-- The four bytes of a key. -/
def wsKeyAt (hdr : Bytes) (i : Nat) : WsKey :=
  #v[hdr.getD i 0, hdr.getD (i + 1) 0, hdr.getD (i + 2) 0, hdr.getD (i + 3) 0]

/-- The length of the payload in a header, and where the length ends. -/
def wsLength (hdr : Bytes) : Nat × Nat :=
  let len := hdr.getD 1 0 &&& 0x7f
  if len = 126 then (u16At hdr 2, 4) else if len = 127 then (u64At hdr 2, 10) else (len.toNat, 2)

/-- `WsStream::parse_header`. -/
def parseHeader (hdr : Bytes) : Except WsError (UInt8 × Nat × Option WsKey) :=
  let opcode := hdr.getD 0 0 &&& 0x0f
  if !knownOpcode opcode then .error .unsupportedOpcode
  else
    let masked := hdr.getD 1 0 &&& 0x80 ≠ 0
    let (len, off) := wsLength hdr
    if maxFramePayload < len then .error (.payloadTooLarge len)
    else if 8 ≤ opcode ∧ (125 < len ∨ hdr.getD 0 0 &&& 0x80 = 0) then .error .invalidControlFrame
    else .ok (opcode, len, if masked then some (wsKeyAt hdr off) else none)

/-! ## Frames -/

/-- A frame, with the payload as it was before masking. -/
structure WsFrame where
  fin : Bool
  opcode : UInt8
  mask : Option WsKey
  payload : Bytes
deriving DecidableEq, Repr

namespace WsFrame

/-- What the protocol and the limit of the client ask of a frame. -/
structure Valid (f : WsFrame) : Prop where
  opcode : knownOpcode f.opcode = true
  length : f.payload.length ≤ maxFramePayload
  control : 8 ≤ f.opcode → f.fin = true ∧ f.payload.length ≤ 125

/-- The second byte of a header and the long form of the length. -/
def lengthBytes (f : WsFrame) : Bytes :=
  let bit := if f.mask.isSome then 0x80 else 0
  let len := f.payload.length
  if len < 126 then [bit ||| UInt8.ofNat len]
  else if len ≤ 0xffff then (bit ||| 126) :: be16 len
  else (bit ||| 127) :: be64 len

/-- The header of a frame. -/
def header (f : WsFrame) : Bytes :=
  ((if f.fin then 0x80 else 0) ||| f.opcode) :: f.lengthBytes ++ (f.mask.elim [] (·.toList))

/-- The bytes of a frame. -/
def encode (f : WsFrame) : Bytes :=
  f.header ++ maskWith f.mask 0 f.payload

/-- The first frame of a stream of bytes, once it is there as a whole. -/
def take (input : Bytes) : Option (WsFrame × Bytes) :=
  let size := wsHeaderSize (input.getD 1 0)
  if size ≤ input.length then
    match parseHeader (input.take size) with
    | .error _ => none
    | .ok (opcode, len, mask) =>
      if size + len ≤ input.length then
        some (⟨input.getD 0 0 &&& 0x80 ≠ 0, opcode, mask,
          maskWith mask 0 ((input.drop size).take len)⟩, input.drop (size + len))
      else none
  else none

/-! ### A frame reads back -/

variable {opcode : UInt8}

theorem firstByte (h : knownOpcode opcode) (fin : Bool) :
    ((if fin then 0x80 else 0) ||| opcode) &&& 0x0f = opcode ∧
      (((if fin then 0x80 else 0) ||| opcode) &&& 0x80 ≠ 0 ↔ fin) := by
  simp only [knownOpcode, Bool.or_eq_true, beq_iff_eq] at h
  rcases h with ((((rfl | rfl) | rfl) | rfl) | rfl) | rfl <;> cases fin <;> decide

theorem secondByte (masked : Bool) {n : Nat} (hn : n < 128) :
    ((if masked then 0x80 else 0) ||| UInt8.ofNat n) &&& 0x7f = UInt8.ofNat n ∧
      (((if masked then 0x80 else 0) ||| UInt8.ofNat n) &&& 0x80 ≠ 0 ↔ masked) := by
  have hall : ∀ n < 128, ∀ masked : Bool,
      ((if masked then 0x80 else 0) ||| UInt8.ofNat n) &&& 0x7f = UInt8.ofNat n ∧
        (((if masked then 0x80 else 0) ||| UInt8.ofNat n) &&& 0x80 ≠ 0 ↔ masked) := by
    decide
  exact hall n hn masked

/-- The form of the length: its code in the second byte, and the bytes after it. -/
theorem lengthBytes_eq (f : WsFrame) : ∃ code ext, code < 128 ∧
    f.lengthBytes = ((if f.mask.isSome then 0x80 else 0) ||| UInt8.ofNat code) :: ext ∧
    ((code < 126 ∧ ext = [] ∧ code = f.payload.length) ∨
      (code = 126 ∧ ext = be16 f.payload.length ∧ f.payload.length < 65536) ∨
      (code = 127 ∧ ext = be64 f.payload.length)) := by
  rw [lengthBytes]
  split
  · rename_i hshort
    exact ⟨f.payload.length, [], by omega, rfl, .inl ⟨hshort, rfl, rfl⟩⟩
  split
  · rename_i hmiddle
    exact ⟨126, _, by decide, rfl, .inr (.inl ⟨rfl, rfl, by omega⟩)⟩
  · exact ⟨127, _, by decide, rfl, .inr (.inr ⟨rfl, rfl⟩)⟩

theorem wsKeyAt_append (x : Bytes) (key : WsKey) (rest : Bytes) :
    wsKeyAt (x ++ (key.toList ++ rest)) x.length = key := by
  have hget (i : Nat) : (x ++ (key.toList ++ rest)).getD (x.length + i) 0 =
      (key.toList ++ rest).getD i 0 := by
    rw [getD_append_right _ _ _ _ (Nat.le_add_right _ _), Nat.add_sub_cancel_left]
  have hkey {i : Nat} (hi : i < 4) : (x ++ (key.toList ++ rest)).getD (x.length + i) 0 = key[i] := by
    rw [hget, getD_append _ _ _ _ (by rwa [Vector.length_toList]),
      getD_eq_getElem _ _ (by rwa [Vector.length_toList]), Vector.getElem_toList]
  have hfirst : (x ++ (key.toList ++ rest)).getD x.length 0 = key[0] :=
    hkey (i := 0) (by decide)
  rw [wsKeyAt, hfirst, hkey (by decide), hkey (by decide), hkey (by decide)]
  ext i hi
  match i, hi with
  | 0, _ | 1, _ | 2, _ | 3, _ => rfl

/-- The second byte of a header. -/
def secondOf (masked : Bool) (code : Nat) : UInt8 :=
  (if masked then 0x80 else 0) ||| UInt8.ofNat code

variable {code : Nat}

/-- The second byte of a header tells the form of its length. -/
theorem secondOf_eq_iff (masked : Bool) (hcode : code < 128) (n : UInt8) :
    secondOf masked code &&& 0x7f = n ↔ code = n.toNat := by
  rw [secondOf, (secondByte masked hcode).1]
  constructor
  · intro h
    rw [← h, UInt8.toNat_ofNat']
    omega
  · rintro rfl
    exact UInt8.ofNat_toNat

theorem wsHeaderSize_secondOf (masked : Bool) (hcode : code < 128) :
    wsHeaderSize (secondOf masked code) =
      2 + (if code = 126 then 2 else if code = 127 then 8 else 0) + (if masked then 4 else 0) := by
  have h126 := secondOf_eq_iff masked hcode 126
  have h127 := secondOf_eq_iff masked hcode 127
  have hmask : secondOf masked code &&& 0x80 ≠ 0 ↔ masked := (secondByte masked hcode).2
  rw [wsHeaderSize]
  simp [h126, h127, hmask]

theorem length_maskBytes (mask : Option WsKey) :
    (mask.elim [] (·.toList)).length = if mask.isSome then 4 else 0 := by
  cases mask with
  | none => rfl
  | some key => exact Vector.length_toList

/-- The parts of a header. -/
theorem header_eq (f : WsFrame) : ∃ code ext, code < 128 ∧
    f.header = ((if f.fin then 0x80 else 0) ||| f.opcode) :: secondOf f.mask.isSome code ::
      (ext ++ f.mask.elim [] (·.toList)) ∧
    ((code < 126 ∧ ext = [] ∧ code = f.payload.length) ∨
      (code = 126 ∧ ext = be16 f.payload.length ∧ f.payload.length < 65536) ∨
      (code = 127 ∧ ext = be64 f.payload.length)) := by
  obtain ⟨code, ext, hcode, hbytes, hform⟩ := f.lengthBytes_eq
  refine ⟨code, ext, hcode, ?_, hform⟩
  rw [header, hbytes]
  rfl

/-- The header of a frame has the size that its second byte tells. -/
theorem wsHeaderSize_header (f : WsFrame) : wsHeaderSize (f.header.getD 1 0) = f.header.length := by
  obtain ⟨code, ext, hcode, hheader, hform⟩ := f.header_eq
  have hsecond : f.header.getD 1 0 = secondOf f.mask.isSome code := by
    rw [hheader]
    rfl
  rw [hsecond, wsHeaderSize_secondOf _ hcode, hheader, length_cons, length_cons,
    length_append, length_maskBytes]
  rcases hform with ⟨hshort, rfl, -⟩ | ⟨rfl, rfl, -⟩ | ⟨rfl, rfl⟩
  · rw [if_neg (by omega), if_neg (by omega), length_nil]
    omega
  · show 2 + 2 + _ = 2 + _ + 1 + 1
    omega
  · show 2 + 8 + _ = 8 + _ + 1 + 1
    omega

variable {f : WsFrame}

/-- The length of a payload is read back. -/
theorem wsLength_header (h : f.payload.length ≤ maxFramePayload) (rest : Bytes) :
    ∃ front, f.header = front ++ f.mask.elim [] (·.toList) ∧
      wsLength (f.header ++ rest) = (f.payload.length, front.length) := by
  obtain ⟨code, ext, hcode, hheader, hform⟩ := f.header_eq
  have h126 := secondOf_eq_iff f.mask.isSome hcode 126
  have h127 := secondOf_eq_iff f.mask.isSome hcode 127
  have hsecond : (f.header ++ rest).getD 1 0 = secondOf f.mask.isSome code := by
    rw [hheader]
    rfl
  refine ⟨_ :: _ :: ext, hheader, ?_⟩
  rw [wsLength, hsecond]
  rcases hform with ⟨hshort, rfl, hlength⟩ | ⟨rfl, rfl, hlength⟩ | ⟨rfl, rfl⟩
  · have hcode126 : ¬ secondOf f.mask.isSome code &&& 0x7f = 126 := fun h => by
      have := h126.mp h
      change code = 126 at this
      omega
    have hcode127 : ¬ secondOf f.mask.isSome code &&& 0x7f = 127 := fun h => by
      have := h127.mp h
      change code = 127 at this
      omega
    rw [if_neg hcode126, if_neg hcode127, secondOf, (secondByte _ hcode).1, UInt8.toNat_ofNat',
      ← hlength, Nat.mod_eq_of_lt (by omega)]
    rfl
  · have hvalue : u16At (f.header ++ rest) 2 = f.payload.length := by
      rw [hheader]
      exact u16At_be16 hlength
    rw [if_pos (h126.mpr rfl), hvalue]
    rfl
  · have hvalue : u64At (f.header ++ rest) 2 = f.payload.length := by
      rw [hheader]
      show u32At (be32 (f.payload.length / 4294967296)) 0 * 4294967296 +
        u32At (be32 f.payload.length) 0 = _
      rw [u32At_be32_mod, u32At_be32_mod]
      rw [maxFramePayload] at h
      omega
    rw [if_neg (fun h => by cases h126.mp h), if_pos (h127.mpr rfl), hvalue]
    rfl

/-- The header of a frame is read as it was written, whatever follows it. -/
theorem parseHeader_header (h : f.Valid) (rest : Bytes) :
    parseHeader (f.header ++ rest) = .ok (f.opcode, f.payload.length, f.mask) := by
  obtain ⟨front, hfront, hlength⟩ := wsLength_header h.length rest
  obtain ⟨code, ext, hcode, hheader, -⟩ := f.header_eq
  have hfirst : (f.header ++ rest).getD 0 0 = (if f.fin then 0x80 else 0) ||| f.opcode := by
    rw [hheader]
    rfl
  have hsecond : (f.header ++ rest).getD 1 0 = secondOf f.mask.isSome code := by
    rw [hheader]
    rfl
  have hcontrol : ¬ (8 ≤ f.opcode ∧ (125 < f.payload.length ∨
      ((if f.fin then 0x80 else 0) ||| f.opcode) &&& 0x80 = 0)) := by
    rintro ⟨hopcode, hbad⟩
    obtain ⟨hfin, hsmall⟩ := h.control hopcode
    rcases hbad with hbad | hbad
    · omega
    · exact (firstByte h.opcode f.fin).2.mpr hfin hbad
  have hmask : (if (secondOf f.mask.isSome code) &&& 0x80 ≠ 0 then
      some (wsKeyAt (f.header ++ rest) front.length) else none) = f.mask := by
    have hbit : secondOf f.mask.isSome code &&& 0x80 ≠ 0 ↔ f.mask.isSome :=
      (secondByte f.mask.isSome hcode).2
    rw [hfront, append_assoc]
    cases hkey : f.mask with
    | none =>
      rw [hkey] at hbit
      exact if_neg fun hne => by cases hbit.mp hne
    | some key =>
      rw [hkey] at hbit
      rw [if_pos (hbit.mpr rfl)]
      exact congrArg some (wsKeyAt_append front key rest)
  rw [parseHeader, hfirst, hsecond, hlength, (firstByte h.opcode f.fin).1]
  dsimp only
  rw [h.opcode, if_neg (by decide), if_neg (not_lt.mpr h.length), if_neg hcontrol, hmask]

theorem two_le_wsHeaderSize (second : UInt8) : 2 ≤ wsHeaderSize second := by
  rw [wsHeaderSize]
  omega

/-- A header and as many bytes as it tells are a frame. -/
theorem take_parts {hdr got : Bytes} {mask : Option WsKey}
    (hsize : wsHeaderSize (hdr.getD 1 0) = hdr.length)
    (hparse : parseHeader hdr = .ok (opcode, got.length, mask)) (rest : Bytes) :
    take (hdr ++ (got ++ rest)) =
      some (⟨hdr.getD 0 0 &&& 0x80 ≠ 0, opcode, mask, maskWith mask 0 got⟩, rest) := by
  have htwo := two_le_wsHeaderSize (hdr.getD 1 0)
  have hget {i : Nat} (hi : i < 2) : (hdr ++ (got ++ rest)).getD i 0 = hdr.getD i 0 :=
    getD_append _ _ _ _ (by omega)
  rw [take, hget (by decide), hget (by decide), hsize,
    if_pos (by rw [length_append]; omega), take_left, hparse]
  dsimp only
  rw [if_pos (by rw [length_append, length_append]; omega), drop_left,
    take_left, ← drop_drop, drop_left, drop_left]

/-- A valid frame reads back, whatever follows it. -/
theorem take_encode (h : f.Valid) (rest : Bytes) :
    take (f.encode ++ rest) = some (f, rest) := by
  have hparse := parseHeader_header h []
  rw [append_nil, ← length_maskWith f.mask 0 f.payload] at hparse
  have hfirst : (f.header.getD 0 0 &&& 0x80 ≠ 0) = (f.fin) := by
    obtain ⟨code, ext, -, hheader, -⟩ := f.header_eq
    rw [hheader]
    exact propext (firstByte h.opcode f.fin).2
  rw [encode, append_assoc, take_parts f.wsHeaderSize_header hparse, maskWith_maskWith]
  simp only [hfirst, Bool.decide_eq_true]

/-- A frame that is there does not depend on what follows it. -/
theorem take_append {input rest : Bytes} (h : take input = some (f, rest))
    (more : Bytes) : take (input ++ more) = some (f, rest ++ more) := by
  rw [take] at h
  have htwo := two_le_wsHeaderSize (input.getD 1 0)
  split at h
  · rename_i hsize
    have hget {i : Nat} (hi : i < 2) : (input ++ more).getD i 0 = input.getD i 0 :=
      getD_append _ _ _ _ (by omega)
    split at h
    · cases h
    rename_i opcode len mask hparse
    split at h
    · rename_i hlength
      obtain ⟨rfl, rfl⟩ := Prod.mk.inj (Option.some.inj h)
      rw [take, hget (by decide), hget (by decide),
        if_pos (by rw [length_append]; omega), take_append_of_le_length hsize, hparse]
      dsimp only
      rw [if_pos (by rw [length_append]; omega), drop_append_of_le_length hlength,
        drop_append_of_le_length hsize,
        take_append_of_le_length (by rw [length_drop]; omega)]
    · cases h
  · cases h

theorem take_nil : take [] = none := by
  have htwo := two_le_wsHeaderSize (([] : Bytes).getD 1 0)
  rw [take, if_neg (by rw [length_nil]; omega)]

/-- The bytes of frames in a row. -/
def encodeAll (frames : List WsFrame) : Bytes :=
  frames.flatMap encode

theorem encodeAll_append (frames more : List WsFrame) :
    encodeAll (frames ++ more) = encodeAll frames ++ encodeAll more :=
  flatMap_append

/-- These frames are at the front of the bytes, before the rest. -/
inductive Decodes (all : Bytes) : List WsFrame → Bytes → Prop where
  | nil : Decodes all [] all
  | snoc {done : List WsFrame} {rest rest' : Bytes} {f : WsFrame} (before : Decodes all done rest)
      (next : take rest = some (f, rest')) : Decodes all (done ++ [f]) rest'

/-- If valid frames arrive, these frames are found, in order. -/
theorem Decodes.of_encodeAll {all done rest more} (h : Decodes all done rest)
    {frames : List WsFrame} (hvalid : ∀ f ∈ frames, f.Valid)
    (hall : all ++ more = encodeAll frames) :
    ∃ left, frames = done ++ left ∧ rest ++ more = encodeAll left := by
  induction h with
  | nil => exact ⟨frames, rfl, hall⟩
  | @snoc done rest rest' f before next ih =>
    obtain ⟨left, rfl, hleft⟩ := ih
    have htake := take_append next more
    rw [hleft] at htake
    match left, hvalid, htake with
    | [], _, htake =>
      rw [encodeAll, flatMap_nil, take_nil] at htake
      cases htake
    | g :: left, hvalid, htake =>
      have hg : g.Valid := hvalid g (mem_append_right _ mem_cons_self)
      rw [encodeAll, flatMap_cons, take_encode hg] at htake
      obtain ⟨rfl, hrest⟩ := Prod.mk.inj (Option.some.inj htake)
      exact ⟨left, by rw [append_assoc, singleton_append], hrest.symm⟩

end WsFrame

/-! ## Frames of the client -/

/-- `encode_client_frame_into`, with the random key. -/
def encodeClientFrameInto (out : Bytes) (opcode : UInt8) (payload : Bytes) (key : WsKey) : Bytes :=
  let len := payload.length
  let out := out ++ [0x80 ||| opcode]
  let out :=
    if len < 126 then out ++ [0x80 ||| UInt8.ofNat len]
    else if len ≤ 0xffff then out ++ [0x80 ||| 126] ++ be16 len
    else out ++ [0x80 ||| 127] ++ be64 len
  maskPayloadInto (out ++ key.toList) payload key

/-- A frame of the client: whole, and masked. -/
def clientFrame (opcode : UInt8) (payload : Bytes) (key : WsKey) : WsFrame :=
  ⟨true, opcode, some key, payload⟩

theorem encodeClientFrameInto_eq (out : Bytes) (opcode : UInt8) (payload : Bytes) (key : WsKey) :
    encodeClientFrameInto out opcode payload key =
      out ++ (clientFrame opcode payload key).encode := by
  rw [encodeClientFrameInto, maskPayloadInto, maskChunks_eq, WsFrame.encode, WsFrame.header,
    WsFrame.lengthBytes]
  dsimp only [clientFrame, Option.isSome, Option.elim, maskWith]
  by_cases hshort : payload.length < 126
  · simp only [if_true, if_pos hshort, append_assoc, cons_append, nil_append]
  by_cases hmedium : payload.length ≤ 0xffff
  · simp only [if_true, if_neg hshort, if_pos hmedium, append_assoc, cons_append, nil_append]
  · simp only [if_true, if_neg hshort, if_neg hmedium, append_assoc, cons_append, nil_append]

end Sockrocket
