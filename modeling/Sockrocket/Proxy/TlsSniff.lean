import Sockrocket.Config.RulesBatch
import Sockrocket.Dns.Wire
import Sockrocket.Lib.AsyncIo
import Sockrocket.Lib.Slice

/-!
# Server names of TLS connections

`proxy/tls_sniff.rs`: the name in a ClientHello, read from the first bytes of a connection that came
without one. `detect` runs from scratch on every longer prefix, over records that may cut the
handshake message anywhere; `readName` collects the prefix, and `Replay` hands the connection on
with these bytes in front.

`helloName` is a `do` block of checked and unchecked accesses. `incomplete` is the early `None` of
the source, `outOfRange` a panic.
-/

namespace Sockrocket

open Rust Slice Dns AsyncIo
open List hiding utf8Encode

/-- `PREFIX_LIMIT`. -/
def prefixLimit : Nat := 4096

/-- `Detection`. -/
inductive Detection where
  | more
  | other
  | host (name : Str)
deriving DecidableEq, Repr

/-- `word`. -/
def word (bytes : Bytes) (pos : Nat) : Read Nat := do
  let pair ← getRange bytes pos (pos + 2)
  pure (u16At pair 0)

/-- `valid_domain`. -/
def validDomain (value : Str) : Bool :=
  !value.isEmpty && (utf8Encode value).length ≤ 253 &&
    (value.splitOn '.').all fun label =>
      !label.isEmpty && (utf8Encode label).length ≤ 63 && !startsWith label ['-'] &&
        !endsWith label ['-'] && label.all fun c => isAsciiAlphanumeric c || c == '-'

/-- A name of type `host_name`, `none` if it is not one to route by. -/
def hostName (name : Bytes) : Option Str :=
  match fromUtf8 name with
  | none => none
  | some name =>
    let name := toAsciiLowercase (trimEndMatches '.' name)
    if !validDomain name || (parseIp name).isSome then none else some name

/-- The loop over the names of the extension. A turn takes three bytes or more. -/
def nameLoop (names : Bytes) : Nat → Nat → Option Str → Read (Option Str)
  | 0, _, host => pure host
  | turns + 1, offset, host =>
    if offset < names.length then do
      let nameKind ← get names offset
      let size ← word names (offset + 1)
      let name ← getRange names (offset + 3) (offset + 3 + size)
      if nameKind = 0 then
        if host.isSome then pure none
        else
          match hostName name with
          | none => pure none
          | some name => nameLoop names turns (offset + 3 + size) (some name)
      else nameLoop names turns (offset + 3 + size) host
    else pure host

/-- The loop over the extensions. A turn takes four bytes or more. -/
def extensionLoop (bytes : Bytes) (extensionsEnd : Nat) : Nat → Nat → Read (Option Str)
  | 0, _ => pure none
  | turns + 1, pos =>
    if pos < extensionsEnd then do
      let kind ← word bytes pos
      let size ← word bytes (pos + 2)
      if extensionsEnd < pos + 4 + size then pure none
      else if kind = 0 then do
        let names ← getRange bytes (pos + 4) (pos + 4 + size)
        let listed ← word names 0
        if listed + 2 ≠ size then pure none
        else nameLoop names names.length 2 none
      else do
        let _ ← getRange bytes (pos + 4) (pos + 4 + size)
        extensionLoop bytes extensionsEnd turns (pos + 4 + size)
    else pure none

/-- `hello_name` behind the length, on the bytes of the message. -/
def helloBody (bytes : Bytes) (stop : Nat) : Read (Option Str) := do
  let session ← get bytes 38
  let pos := 38 + (1 + session.toNat)
  let cipherLength ← word bytes pos
  if cipherLength = 0 ∨ cipherLength % 2 ≠ 0 then pure none
  else do
    let pos := pos + (2 + cipherLength)
    let compression ← get bytes pos
    let pos := pos + (1 + compression.toNat)
    let extensionsLength ← word bytes pos
    if pos + 2 + extensionsLength ≠ stop then pure none
    else extensionLoop bytes stop extensionsLength (pos + 2)

/-- `hello_name`: `incomplete` is its `None`, `pure none` its `Some(None)`. -/
def helloName (bytes : Bytes) : Read (Option Str) := do
  let kind ← get bytes 0
  if kind ≠ 1 then pure none
  else do
    let length ← getRange bytes 1 4
    let stop := 4 + u24 (← index length 0) (← index length 1) (← index length 2)
    let bytes ← slice bytes 0 (min bytes.length stop)
    helloBody bytes stop

/-- The message is as long as it says. -/
def helloComplete (hello : Bytes) : Read Bool :=
  if 4 ≤ hello.length then do
    let declared := 4 + u24 (← index hello 1) (← index hello 2) (← index hello 3)
    pure (decide (declared ≤ hello.length))
  else pure false

/-- What a part of the message decides: `none` if more of it is needed. -/
def helloVerdict (hello : Bytes) : Read (Option Detection) :=
  match helloName hello with
  | .ok (some name) => pure (some (.host name))
  | .ok none => pure (some .other)
  | .error .outOfRange => .error .outOfRange
  | .error .incomplete => do
      if ← helloComplete hello then pure (some .other) else pure none

/-- The loop of `detect` over the records. A turn takes six bytes or more. -/
def detectLoop (data : Bytes) : Nat → Nat → Bytes → Read Detection
  | 0, _, _ => pure .more
  | turns + 1, pos, hello =>
    if pos < data.length then do
      if (← index data pos) ≠ 22 then pure .other
      else
        match getRange data pos (pos + 5) with
        | .error _ => pure .more
        | .ok header => do
            if (← index header 1) ≠ 3 ∨ (← index header 2) > 4 then pure .other
            else
              let size := u16At header 3
              if size = 0 ∨ 18432 < size then pure .other
              else do
                let stop := pos + 5 + size
                let part ← slice data (pos + 5) (min stop data.length)
                match ← helloVerdict (hello ++ part) with
                | some verdict => pure verdict
                | none =>
                  if data.length < stop then pure .more
                  else detectLoop data turns stop (hello ++ part)
    else pure .more

/-- `detect`. -/
def detect (data : Bytes) : Read Detection :=
  detectLoop data data.length 0 []

/-- The name a verdict gives. -/
def Detection.name? : Detection → Option Str
  | .host name => some name
  | _ => none

/-- The outcome of `read_name`: its result with the bytes still in the stream, `expired` if the
deadline cut it short, which gives no name either. -/
inductive NameRead where
  | done (name : Option Str) (collected rest : Bytes)
  | expired (collected rest : Bytes)
  | failed
deriving DecidableEq, Repr

/-- The loop of `read_name` on a stream, of which `collected` was read before. The list says how the
reads go; where it ends, the deadline has come. -/
def readLoop (stream collected : Bytes) : List Behaviour → Read NameRead
  | [] =>
    if collected.length < prefixLimit then pure (.expired collected stream)
    else pure (.done none collected stream)
  | behaviour :: behaviours =>
    if collected.length < prefixLimit then
      match behaviour.read stream (min 1024 (prefixLimit - collected.length)) with
      | (.pending, stream) => readLoop stream collected behaviours
      | (.failed, _) => pure .failed
      | (.ready chunk, stream) =>
        if chunk = [] then pure (.done none collected stream)
        else do
          match ← detect (collected ++ chunk) with
          | .host name => pure (.done (some name) (collected ++ chunk) stream)
          | .other => pure (.done none (collected ++ chunk) stream)
          | .more => readLoop stream (collected ++ chunk) behaviours
    else pure (.done none collected stream)

/-- `read_name`. -/
def readName (stream : Bytes) (behaviours : List Behaviour) : Read NameRead :=
  readLoop stream [] behaviours

/-- `Replay`, with the bytes still in its stream. -/
structure Replay where
  stream : Bytes
  head : Bytes
  position : Nat

/-- `Replay::new`. -/
def Replay.new (stream head : Bytes) : Replay :=
  ⟨stream, head, 0⟩

/-- `Replay::poll_read`, for a buffer with `remaining` bytes of room. -/
def Replay.pollRead (replay : Replay) (remaining : Nat) (behaviour : Behaviour) :
    Poll Bytes × Replay :=
  if remaining = 0 then (.ready [], replay)
  else if replay.position < replay.head.length then
    let size := min remaining (replay.head.length - replay.position)
    let bytes := (replay.head.drop replay.position).take size
    if replay.position + size = replay.head.length then
      (.ready bytes, { replay with head := [], position := 0 })
    else (.ready bytes, { replay with position := replay.position + size })
  else
    let (poll, stream) := behaviour.read replay.stream remaining
    (poll, { replay with stream := stream })

/-- What is still to come. -/
def Replay.left (replay : Replay) : Bytes :=
  replay.head.drop replay.position ++ replay.stream

/-- The bytes that a sequence of polls brings, and the stream after them. -/
def Replay.polls (replay : Replay) : List (Nat × Behaviour) → Bytes × Replay
  | [] => ([], replay)
  | (remaining, behaviour) :: rest =>
    let (poll, next) := replay.pollRead remaining behaviour
    let (bytes, last) := next.polls rest
    (poll.bytes ++ bytes, last)

/-! ## No index out of range -/

theorem safe_word (bytes : Bytes) (pos : Nat) : Safe (word bytes pos) :=
  (safe_getRange _ _ _).bind fun _ _ => safe_ok _

theorem safe_nameLoop (names : Bytes) (turns offset : Nat) (host : Option Str) :
    Safe (nameLoop names turns offset host) := by
  induction turns generalizing offset host with
  | zero => exact safe_ok _
  | succ turns ih =>
    unfold nameLoop
    split
    · refine (safe_get _ _).bind fun kind _ => (safe_word _ _).bind fun size _ =>
        (safe_getRange _ _ _).bind fun name _ => ?_
      split
      · split
        · exact safe_ok _
        · split
          · exact safe_ok _
          · exact ih _ _
      · exact ih _ _
    · exact safe_ok _

theorem safe_extensionLoop (bytes : Bytes) (stop turns pos : Nat) :
    Safe (extensionLoop bytes stop turns pos) := by
  induction turns generalizing pos with
  | zero => exact safe_ok _
  | succ turns ih =>
    unfold extensionLoop
    split
    · refine (safe_word _ _).bind fun kind _ => (safe_word _ _).bind fun size _ => ?_
      split
      · exact safe_ok _
      split
      · refine (safe_getRange _ _ _).bind fun names _ => (safe_word _ _).bind fun listed _ => ?_
        split
        · exact safe_ok _
        · exact safe_nameLoop _ _ _ _
      · exact (safe_getRange _ _ _).bind fun _ _ => ih _
    · exact safe_ok _

theorem safe_helloBody (bytes : Bytes) (stop : Nat) : Safe (helloBody bytes stop) := by
  unfold helloBody
  refine (safe_get _ _).bind fun session _ => (safe_word _ _).bind fun cipherLength _ => ?_
  split
  · exact safe_ok _
  refine (safe_get _ _).bind fun compression _ => (safe_word _ _).bind fun length _ => ?_
  split
  · exact safe_ok _
  · exact safe_extensionLoop _ _ _ _

theorem safe_helloName (bytes : Bytes) : Safe (helloName bytes) := by
  unfold helloName
  refine (safe_get _ _).bind fun kind _ => ?_
  split
  · exact safe_ok _
  refine (safe_getRange _ _ _).bind fun length hlength => ?_
  have hthree : length.length = 3 := length_of_getRange hlength
  refine (safe_index (by omega)).bind fun a _ => (safe_index (by omega)).bind fun b _ =>
    (safe_index (by omega)).bind fun c _ => ?_
  exact (safe_slice (Nat.zero_le _) (Nat.min_le_left _ _)).bind fun _ _ => safe_helloBody _ _

theorem returns_helloComplete (hello : Bytes) : Returns (helloComplete hello) := by
  unfold helloComplete
  split
  · exact (returns_index (by omega)).bind fun a _ => (returns_index (by omega)).bind fun b _ =>
      (returns_index (by omega)).bind fun c _ => returns_ok _
  · exact returns_ok _

theorem returns_helloVerdict (hello : Bytes) : Returns (helloVerdict hello) := by
  unfold helloVerdict
  split
  · exact returns_ok _
  · exact returns_ok _
  · rename_i hname
    exact absurd hname (safe_helloName hello)
  · refine (returns_helloComplete hello).bind fun complete _ => ?_
    split <;> exact returns_ok _

theorem returns_detectLoop (data : Bytes) (turns pos : Nat) (hello : Bytes) :
    Returns (detectLoop data turns pos hello) := by
  induction turns generalizing pos hello with
  | zero => exact returns_ok _
  | succ turns ih =>
    unfold detectLoop
    split
    · rename_i hpos
      refine (returns_index hpos).bind fun first _ => ?_
      split
      · exact returns_ok _
      split
      · exact returns_ok _
      rename_i header hheader
      obtain ⟨-, hfive, -⟩ := getRange_eq_ok.mp hheader
      have hlength : header.length = 5 := by
        rw [length_of_getRange hheader]
        omega
      refine (returns_index (by omega)).bind fun major _ =>
        (returns_index (by omega)).bind fun minor _ => ?_
      split
      · exact returns_ok _
      dsimp only
      split
      · exact returns_ok _
      refine (returns_slice (by omega) (Nat.min_le_right _ _)).bind fun part _ =>
        (returns_helloVerdict _).bind fun verdict _ => ?_
      split
      · exact returns_ok _
      · split
        · exact returns_ok _
        · exact ih _ _
    · exact returns_ok _

/-- `detect` has a verdict on every input. -/
theorem returns_detect (data : Bytes) : Returns (detect data) :=
  returns_detectLoop data _ _ _

/-! ## Longer messages -/

variable {p q : Bytes}

theorem extends_word (h : p <+: q) (pos : Nat) : Extends (word p pos) (word q pos) :=
  (extends_getRange h _ _).bind fun _ _ => Extends.refl _

theorem extends_extensionLoop (h : p <+: q) (stop turns pos : Nat) :
    Extends (extensionLoop p stop turns pos) (extensionLoop q stop turns pos) := by
  induction turns generalizing pos with
  | zero => exact Extends.refl _
  | succ turns ih =>
    unfold extensionLoop
    split
    · refine (extends_word h _).bind fun kind _ => (extends_word h _).bind fun size _ => ?_
      split
      · exact Extends.refl _
      split
      · -- the names are looked at only once all of them are there
        exact (extends_getRange h _ _).bind fun names _ => Extends.refl _
      · exact (extends_getRange h _ _).bind fun _ _ => ih _
    · exact Extends.refl _

theorem extends_helloBody (h : p <+: q) (stop : Nat) :
    Extends (helloBody p stop) (helloBody q stop) := by
  unfold helloBody
  refine (extends_get h _).bind fun session _ => (extends_word h _).bind fun cipherLength _ => ?_
  split
  · exact Extends.refl _
  refine (extends_get h _).bind fun compression _ => (extends_word h _).bind fun length _ => ?_
  split
  · exact Extends.refl _
  · exact extends_extensionLoop h _ _ _

/-- `helloName` on a message whose length is there. -/
theorem helloName_cons (kind a b c : UInt8) (rest : Bytes) :
    helloName (kind :: a :: b :: c :: rest) =
      if kind ≠ 1 then .ok none
      else helloBody ((kind :: a :: b :: c :: rest).take (4 + u24 a b c)) (4 + u24 a b c) := by
  have hslice : ∀ (bytes : Bytes) (stop : Nat),
      slice bytes 0 (min bytes.length stop) = .ok (bytes.take stop) := by
    intro bytes stop
    rw [slice_of_le (Nat.zero_le _) (Nat.min_le_left _ _), drop_zero, Nat.sub_zero,
      Nat.min_comm, ← take_eq_take_min]
  have hrange : getRange (kind :: a :: b :: c :: rest) 1 4 = .ok [a, b, c] :=
    getRange_of_drop (by simp) (show _ = [a, b, c] ++ rest from rfl) rfl
  show (if kind ≠ 1 then .ok none
    else getRange (kind :: a :: b :: c :: rest) 1 4 >>= fun length => _) = _
  split
  · rfl
  rw [hrange]
  simp only [hslice]
  rfl

/-- `helloName` needs the length to answer anything about a ClientHello. -/
theorem extends_helloName (h : p <+: q) : Extends (helloName p) (helloName q) := by
  obtain ⟨t, rfl⟩ := h
  match p with
  | [] => exact nofun
  | [kind] | [kind, a] | [kind, a, b] =>
    intro v hv
    by_cases hkind : kind = 1
    · subst hkind
      cases hv
    have hnone : ∀ rest, helloName (kind :: rest) = .ok none := by
      intro rest
      show (if kind ≠ 1 then Except.ok none else _) = _
      rw [if_pos hkind]
    rw [hnone] at hv
    rw [cons_append, hnone, ← hv]
  | kind :: a :: b :: c :: rest =>
    rw [show kind :: a :: b :: c :: rest ++ t = kind :: a :: b :: c :: (rest ++ t) from rfl,
      helloName_cons, helloName_cons]
    split
    · exact Extends.refl _
    · refine extends_helloBody ?_ _
      exact List.IsPrefix.take (prefix_append (kind :: a :: b :: c :: rest) t) _

theorem helloComplete_cons (kind a b c : UInt8) (rest : Bytes) :
    helloComplete (kind :: a :: b :: c :: rest) =
      .ok (decide (4 + u24 a b c ≤ (kind :: a :: b :: c :: rest).length)) := by
  unfold helloComplete
  rw [if_pos (by simp)]
  rfl

variable {hello : Bytes}

/-- What lies behind the end of the message is not read. -/
theorem helloName_append (h : helloComplete hello = .ok true) (t : Bytes) :
    helloName (hello ++ t) = helloName hello ∧ helloComplete (hello ++ t) = .ok true := by
  match hello, h with
  | [], h | [_], h | [_, _], h | [_, _, _], h => cases h
  | kind :: a :: b :: c :: rest, h =>
    rw [helloComplete_cons] at h
    have hlength := of_decide_eq_true (Except.ok.inj h)
    rw [show kind :: a :: b :: c :: rest ++ t = kind :: a :: b :: c :: (rest ++ t) from rfl,
      helloName_cons, helloName_cons, helloComplete_cons]
    constructor
    · rw [show kind :: a :: b :: c :: (rest ++ t) = (kind :: a :: b :: c :: rest) ++ t from rfl,
        take_append_of_le_length hlength]
    · simp only [length_cons, length_append] at hlength ⊢
      exact congrArg Except.ok (decide_eq_true (by omega))

variable {verdict : Detection}

/-- A verdict stands whatever follows. -/
theorem helloVerdict_append (h : helloVerdict hello = .ok (some verdict)) (t : Bytes) :
    helloVerdict (hello ++ t) = .ok (some verdict) := by
  have hextends := extends_helloName (prefix_append hello t)
  unfold helloVerdict at h ⊢
  cases hname : helloName hello with
  | ok name =>
    rw [hextends name hname]
    rw [hname] at h
    cases name <;> exact h
  | error fault =>
    rw [hname] at h
    cases fault with
    | outOfRange => cases h
    | incomplete =>
      cases hcomplete : helloComplete hello with
      | error fault =>
        rw [hcomplete] at h
        cases h
      | ok complete =>
        rw [hcomplete] at h
        cases complete with
        | false => cases h
        | true =>
          obtain ⟨hsame, hstill⟩ := helloName_append hcomplete t
          rw [hsame, hname, hstill]
          exact h

variable {data : Bytes}

/-- A verdict of `detectLoop` stands whatever follows. -/
theorem detectLoop_append (t : Bytes) {turns more pos : Nat}
    (h : detectLoop data turns pos hello = .ok verdict) (hverdict : verdict ≠ .more)
    (hturns : turns ≤ more) :
    detectLoop (data ++ t) more pos hello = .ok verdict := by
  induction turns generalizing more pos hello with
  | zero => exact absurd (Except.ok.inj h).symm hverdict
  | succ turns ih =>
    obtain ⟨more, rfl⟩ := Nat.exists_eq_add_of_le' hturns
    unfold detectLoop at h ⊢
    by_cases hpos : pos < data.length
    · rw [if_pos hpos] at h
      rw [if_pos (by rw [length_append]; omega), index_append hpos]
      obtain ⟨first, hfirst, h⟩ := bind_eq_ok.mp h
      refine bind_eq_ok.mpr ⟨first, hfirst, ?_⟩
      split
      · rename_i hkind
        rwa [if_pos hkind] at h
      rename_i hkind
      rw [if_neg hkind] at h
      cases hheader : getRange data pos (pos + 5) with
      | error fault =>
        rw [hheader] at h
        exact absurd (Except.ok.inj h).symm hverdict
      | ok header =>
        rw [hheader] at h
        rw [extends_getRange (prefix_append data t) _ _ header hheader]
        obtain ⟨-, hfive, -⟩ := getRange_eq_ok.mp hheader
        obtain ⟨major, hmajor, h⟩ := bind_eq_ok.mp h
        obtain ⟨minor, hminor, h⟩ := bind_eq_ok.mp h
        refine bind_eq_ok.mpr ⟨major, hmajor, bind_eq_ok.mpr ⟨minor, hminor, ?_⟩⟩
        split
        · rename_i hversion
          rwa [if_pos hversion] at h
        rename_i hversion
        rw [if_neg hversion] at h
        dsimp only at h ⊢
        split
        · rename_i hsize
          rwa [if_pos hsize] at h
        rename_i hsize
        rw [if_neg hsize] at h
        generalize u16At header 3 = size at h hsize ⊢
        rw [slice_min (by omega) hfive] at h
        rw [slice_min (by omega) (by rw [length_append]; omega),
          drop_append_of_le_length hfive, take_append]
        -- the part of the record that is there now begins with the part before
        obtain ⟨decided, hdecided, h⟩ :=
          bind_eq_ok.mp (show helloVerdict _ >>= _ = _ from h)
        show helloVerdict _ >>= _ = _
        cases decided with
        | some decided =>
          refine bind_eq_ok.mpr ⟨some decided, ?_, h⟩
          rw [← append_assoc]
          exact helloVerdict_append hdecided _
        | none =>
          dsimp only at h
          split at h
          · exact absurd (Except.ok.inj h).symm hverdict
          rename_i hwhole
          have hnothing : pos + 5 + size - (pos + 5) -
              (data.drop (pos + 5)).length = 0 := by
            rw [length_drop]
            omega
          rw [hnothing, take_zero, append_nil]
          refine bind_eq_ok.mpr ⟨none, hdecided, ?_⟩
          dsimp only
          rw [if_neg (by rw [length_append]; omega)]
          exact ih h (Nat.le_add_left _ _)
    · rw [if_neg hpos] at h
      exact absurd (Except.ok.inj h).symm hverdict

/-- What `detect` says of some bytes it says of all that begin with them. -/
theorem detect_of_isPrefix {longer : Bytes} (hlonger : data <+: longer)
    (h : detect data = .ok verdict) (hverdict : verdict ≠ .more) : detect longer = .ok verdict := by
  obtain ⟨t, rfl⟩ := hlonger
  exact detectLoop_append t h hverdict (by rw [length_append]; omega)

/-! ## Records -/

/-- A TLS record with a part of a handshake message. -/
structure HandshakeRecord where
  minor : UInt8
  payload : Bytes

namespace HandshakeRecord

/-- The bytes of the record. -/
def encode (record : HandshakeRecord) : Bytes :=
  [22, 3, record.minor] ++ be16 record.payload.length ++ record.payload

/-- The record is one `detect` goes through. -/
def Legal (record : HandshakeRecord) : Prop :=
  record.minor ≤ 4 ∧ record.payload ≠ [] ∧ record.payload.length ≤ 18432

end HandshakeRecord

/-- A whole ClientHello, as long as it says. -/
def IsClientHello (message : Bytes) : Prop :=
  ∃ a b c body, message = 1 :: a :: b :: c :: body ∧ body.length = u24 a b c

variable {message : Bytes}

/-- A whole message is decided. -/
theorem IsClientHello.helloVerdict (h : IsClientHello message) :
    ∃ verdict, Sockrocket.helloVerdict message = .ok (some verdict) := by
  obtain ⟨a, b, c, body, rfl, hbody⟩ := h
  have hcomplete : helloComplete (1 :: a :: b :: c :: body) = .ok true := by
    rw [helloComplete_cons]
    simp only [length_cons]
    exact congrArg Except.ok (decide_eq_true (by omega))
  have hsafe := safe_helloName (1 :: a :: b :: c :: body)
  unfold Sockrocket.helloVerdict
  cases hname : helloName (1 :: a :: b :: c :: body) with
  | ok name =>
    cases name with
    | none | some name => exact ⟨_, rfl⟩
  | error fault =>
    cases fault with
    | outOfRange => exact absurd hname hsafe
    | incomplete =>
      rw [hcomplete]
      exact ⟨_, rfl⟩

/-- Over legal records `detectLoop` comes to the verdict on the whole message. -/
theorem detectLoop_records (hverdict : helloVerdict message = .ok (some verdict))
    (records : List HandshakeRecord) (hlegal : ∀ record ∈ records, record.Legal)
    (hne : records ≠ []) {turns pos : Nat} (hturns : records.length ≤ turns)
    (hpos : pos ≤ data.length) (hdata : data.drop pos = records.flatMap HandshakeRecord.encode)
    (hmessage : hello ++ records.flatMap HandshakeRecord.payload = message) :
    detectLoop data turns pos hello = .ok verdict := by
  induction records generalizing turns pos hello with
  | nil => exact absurd rfl hne
  | cons record records ih =>
    obtain ⟨turns, rfl⟩ : ∃ n, turns = n + 1 := Nat.exists_eq_add_one.mpr (by
      rw [length_cons] at hturns
      omega)
    obtain ⟨hminor, hpayload, hsize⟩ := hlegal record mem_cons_self
    rw [flatMap_cons, HandshakeRecord.encode, append_assoc] at hdata
    rw [flatMap_cons, ← append_assoc] at hmessage
    have hheader : getRange data pos (pos + 5) =
        .ok ([22, 3, record.minor] ++ be16 record.payload.length) :=
      getRange_of_drop hpos hdata rfl
    have hfive : pos + 5 ≤ data.length := le_of_drop_append hpos hdata
    have hbody : data.drop (pos + 5) =
        record.payload ++ records.flatMap HandshakeRecord.encode := by
      rw [← drop_drop, hdata]
      rfl
    have hwhole : pos + 5 + record.payload.length ≤ data.length := le_of_drop_append hfive hbody
    have hpart : slice data (pos + 5) (pos + 5 + record.payload.length) = .ok record.payload :=
      slice_of_drop hfive hbody rfl
    have hlength : u16At ([22, 3, record.minor] ++ be16 record.payload.length) 3 =
        record.payload.length :=
      u16At_be16 (by omega)
    have hpositive : record.payload.length ≠ 0 :=
      fun h => hpayload (eq_nil_of_length_eq_zero h)
    unfold detectLoop
    rw [if_pos (by omega)]
    refine bind_eq_ok.mpr ⟨22, index_of_drop hdata, ?_⟩
    rw [if_neg (fun h => h rfl), hheader]
    refine bind_eq_ok.mpr ⟨3, rfl, bind_eq_ok.mpr ⟨record.minor, rfl, ?_⟩⟩
    rw [if_neg (by rintro (h | h); exacts [h rfl, absurd h (UInt8.not_lt.mpr hminor)])]
    dsimp only
    rw [hlength, if_neg (by omega), min_eq_left hwhole]
    refine bind_eq_ok.mpr ⟨record.payload, hpart, ?_⟩
    obtain ⟨decided, hdecided⟩ := returns_helloVerdict (hello ++ record.payload)
    refine bind_eq_ok.mpr ⟨decided, hdecided, ?_⟩
    cases decided with
    | some decided =>
      have hsame := helloVerdict_append hdecided (records.flatMap HandshakeRecord.payload)
      rw [hmessage, hverdict] at hsame
      exact congrArg Except.ok (Option.some.inj (Except.ok.inj hsame)).symm
    | none =>
      -- an undecided part is not the last
      have hrest : records ≠ [] := by
        rintro rfl
        rw [flatMap_nil, append_nil] at hmessage
        rw [hmessage, hverdict] at hdecided
        cases hdecided
      dsimp only
      rw [if_neg (not_lt.mpr hwhole)]
      refine ih (fun r hr => hlegal r (mem_cons_of_mem _ hr)) hrest
        (Nat.le_of_succ_le_succ hturns) hwhole ?_ hmessage
      rw [← drop_drop, hbody, drop_left]

/-- Legal records of a whole message give the verdict on the message. -/
theorem detect_records (hverdict : helloVerdict message = .ok (some verdict))
    {records : List HandshakeRecord} (hlegal : ∀ record ∈ records, record.Legal)
    (hmessage : records.flatMap HandshakeRecord.payload = message) :
    detect (records.flatMap HandshakeRecord.encode) = .ok verdict := by
  have hne : records ≠ [] := by
    rintro rfl
    subst hmessage
    cases hverdict
  have hturns : ∀ records : List HandshakeRecord,
      records.length ≤ (records.flatMap HandshakeRecord.encode).length := by
    intro records
    induction records with
    | nil => exact le_rfl
    | cons record records ih =>
      rw [flatMap_cons, length_append, length_cons]
      have hencode : 1 ≤ record.encode.length := Nat.succ_le_succ (Nat.zero_le _)
      omega
  exact detectLoop_records hverdict records hlegal hne (hturns records) (Nat.zero_le _) rfl hmessage

/-! ## Reading -/

/-- At the limit the collected bytes are all that counts. -/
theorem detect_at_limit {stream collected : Bytes} (hmore : detect collected = .ok .more)
    (hlimit : collected.length ≤ prefixLimit) (hlength : ¬ collected.length < prefixLimit) :
    ∃ verdict, detect ((collected ++ stream).take prefixLimit) = .ok verdict ∧
      none = verdict.name? := by
  refine ⟨.more, ?_, rfl⟩
  rw [← le_antisymm hlimit (not_lt.mp hlength), take_left]
  exact hmore

/-- What `readLoop` leaves behind, from a prefix without a verdict. -/
theorem readLoop_spec (stream collected : Bytes) (behaviours : List Behaviour)
    (hmore : detect collected = .ok .more) (hlimit : collected.length ≤ prefixLimit) :
    ∃ outcome, readLoop stream collected behaviours = .ok outcome ∧
      match outcome with
      | .done name bytes rest => bytes ++ rest = collected ++ stream ∧
          ∃ verdict, detect ((collected ++ stream).take prefixLimit) = .ok verdict ∧
            name = verdict.name?
      | .expired bytes rest => bytes ++ rest = collected ++ stream
      | .failed => True := by
  induction behaviours generalizing stream collected with
  | nil =>
    unfold readLoop
    split
    · exact ⟨_, rfl, rfl⟩
    · rename_i hlength
      exact ⟨_, rfl, rfl, detect_at_limit hmore hlimit hlength⟩
  | cons behaviour behaviours ih =>
    unfold readLoop
    split
    · rename_i hlength
      have hsource := behaviour.read_bytes_append stream
        (min 1024 (prefixLimit - collected.length))
      split
      · rename_i left hread
        rw [hread] at hsource
        obtain rfl : left = stream := hsource
        exact ih _ _ hmore hlimit
      · exact ⟨_, rfl, trivial⟩
      · rename_i chunk left hread
        have hroom := Behaviour.length_of_read hread
        rw [hread] at hsource
        obtain rfl : chunk ++ left = stream := hsource
        split
        · rename_i hempty
          subst hempty
          have hend : [] ++ left = [] :=
            Behaviour.source_of_read_nil (by simp only [prefixLimit] at hlength ⊢; omega) hread
          rw [nil_append] at hend
          subst hend
          refine ⟨_, rfl, rfl, .more, ?_, rfl⟩
          rw [append_nil, append_nil, take_of_length_le hlimit]
          exact hmore
        · have hchunk : (collected ++ chunk).length ≤ prefixLimit := by
            rw [length_append]
            omega
          -- a verdict on what was read is one on everything up to the limit
          have hfirst : collected ++ chunk <+:
              (collected ++ (chunk ++ left)).take prefixLimit := by
            rw [← append_assoc]
            exact prefix_take_iff.mpr ⟨prefix_append _ _, hchunk⟩
          obtain ⟨verdict, hverdict⟩ := returns_detect (collected ++ chunk)
          rw [hverdict]
          cases verdict with
          | host name | other =>
            exact ⟨_, rfl, append_assoc _ _ _, _,
              detect_of_isPrefix hfirst hverdict nofun, rfl⟩
          | more =>
            rw [← append_assoc]
            exact ih _ _ hverdict hchunk
    · rename_i hlength
      exact ⟨_, rfl, rfl, detect_at_limit hmore hlimit hlength⟩

/-! ## Replay -/

namespace Replay

/-- A poll takes from the front what it brings. -/
theorem pollRead_spec (replay : Replay) (remaining : Nat) (behaviour : Behaviour) :
    (replay.pollRead remaining behaviour).1.bytes ++ (replay.pollRead remaining behaviour).2.left =
      replay.left := by
  unfold pollRead
  split
  · rfl
  split
  · rename_i hposition
    have hsplit := take_append_drop
      (min remaining (replay.head.length - replay.position)) (replay.head.drop replay.position)
    rw [drop_drop] at hsplit
    unfold left
    dsimp only
    split
    · rename_i hwhole
      rw [hwhole, drop_length, append_nil] at hsplit
      dsimp only
      exact congrArg (· ++ replay.stream) hsplit
    · rw [← append_assoc]
      exact congrArg (· ++ replay.stream) hsplit
  · rename_i hposition
    have hdrop : replay.head.drop replay.position = [] :=
      drop_eq_nil_of_le (not_lt.mp hposition)
    simp only [left, hdrop, nil_append, nil_append]
    exact behaviour.read_bytes_append replay.stream remaining

/-- A poll with room that brings nothing is at the end. -/
theorem left_of_pollRead_nil {replay next : Replay} {remaining : Nat} {behaviour : Behaviour}
    (hroom : 0 < remaining) (h : replay.pollRead remaining behaviour = (.ready [], next)) :
    replay.left = [] := by
  unfold pollRead at h
  rw [if_neg (by omega)] at h
  split at h
  · rename_i hposition
    -- bytes in front are there to be read
    exfalso
    have hbytes : (replay.head.drop replay.position).take
        (min remaining (replay.head.length - replay.position)) = [] := by
      dsimp only at h
      split at h <;> exact Poll.ready.inj (Prod.mk.inj h).1
    have hlength := congrArg length hbytes
    rw [length_take, length_drop, length_nil] at hlength
    omega
  · rename_i hposition
    have hread : behaviour.read replay.stream remaining =
        (.ready [], (behaviour.read replay.stream remaining).2) :=
      Prod.ext (Prod.mk.inj h).1 rfl
    rw [left, Behaviour.source_of_read_nil hroom hread, drop_eq_nil_of_le (not_lt.mp hposition)]
    rfl

/-- A sequence of polls brings the stream in order, each byte once. -/
theorem polls_spec (replay : Replay) (steps : List (Nat × Behaviour)) :
    (replay.polls steps).1 ++ (replay.polls steps).2.left = replay.left := by
  induction steps generalizing replay with
  | nil => rfl
  | cons step steps ih =>
    obtain ⟨remaining, behaviour⟩ := step
    show (replay.pollRead remaining behaviour).1.bytes ++
      ((replay.pollRead remaining behaviour).2.polls steps).1 ++
        ((replay.pollRead remaining behaviour).2.polls steps).2.left = replay.left
    rw [append_assoc, ih]
    exact replay.pollRead_spec remaining behaviour

end Replay

/-- What `read_name` hands on to `Replay`. -/
def NameRead.replay? : NameRead → Option Replay
  | .done _ collected rest | .expired collected rest => some (Replay.new rest collected)
  | .failed => none

/-- Sniffing is stable under more input and under other records of the same message, never indexes
out of range, gives a name that depends on the first bytes of the stream alone, and hands the
stream on as it came. -/
theorem sniff_stable_lossless :
    (∀ data longer verdict, data <+: longer → detect data = .ok verdict → verdict ≠ .more →
        detect longer = .ok verdict) ∧
      (∀ message, IsClientHello message → ∀ records records' : List HandshakeRecord,
        (∀ record ∈ records, record.Legal) → (∀ record ∈ records', record.Legal) →
        records.flatMap HandshakeRecord.payload = message →
        records'.flatMap HandshakeRecord.payload = message →
        detect (records.flatMap HandshakeRecord.encode) =
          detect (records'.flatMap HandshakeRecord.encode)) ∧
      (∀ data, Safe (helloName data) ∧ Returns (detect data)) ∧
      (∀ stream behaviours, ∃ outcome, readName stream behaviours = .ok outcome ∧
        (∀ name collected rest, outcome = .done name collected rest →
          ∃ verdict, detect (stream.take prefixLimit) = .ok verdict ∧ name = verdict.name?) ∧
        ∀ replay, outcome.replay? = some replay → ∀ steps bytes last,
          replay.polls steps = (bytes, last) → bytes ++ last.left = stream ∧
          ∀ remaining behaviour next, 0 < remaining →
            last.pollRead remaining behaviour = (.ready [], next) → bytes = stream) := by
  refine ⟨fun data longer verdict hlonger h hverdict => detect_of_isPrefix hlonger h hverdict,
    fun message hmessage records records' hlegal hlegal' hpayload hpayload' => ?_,
    fun data => ⟨safe_helloName data, returns_detect data⟩, fun stream behaviours => ?_⟩
  · obtain ⟨verdict, hverdict⟩ := hmessage.helloVerdict
    rw [detect_records hverdict hlegal hpayload, detect_records hverdict hlegal' hpayload']
  · obtain ⟨outcome, houtcome, hspec⟩ := readLoop_spec stream [] behaviours rfl (Nat.zero_le _)
    refine ⟨outcome, houtcome, ?_, fun replay hreplay steps bytes last hsteps => ?_⟩
    · rintro name collected rest rfl
      exact hspec.2
    · have hleft : replay.left = stream := by
        cases outcome with
        | done name collected rest =>
          obtain rfl := Option.some.inj hreplay
          exact hspec.1
        | expired collected rest =>
          obtain rfl := Option.some.inj hreplay
          exact hspec
        | failed => cases hreplay
      have hpolls := replay.polls_spec steps
      rw [hsteps, hleft] at hpolls
      refine ⟨hpolls, fun remaining behaviour next hroom hend => ?_⟩
      rw [Replay.left_of_pollRead_nil hroom hend, append_nil] at hpolls
      exact hpolls

/-- A ClientHello for `a.b`. -/
def smallHello : Bytes :=
  [1, 0, 0, 55, 3, 3] ++ List.replicate 32 0 ++
    [0, 0, 2, 19, 1, 1, 0, 0, 12, 0, 0, 0, 8, 0, 6, 0, 0, 3, 97, 46, 98]

/-- The name of a message in two records, by way of the message in one. -/
theorem sniff_stable_lossless_fragmented :
    detect (HandshakeRecord.encode ⟨1, smallHello.take 20⟩ ++
      HandshakeRecord.encode ⟨3, smallHello.drop 20⟩) = .ok (.host "a.b".toList) := by
  have hone : detect (HandshakeRecord.encode ⟨1, smallHello⟩) = .ok (.host "a.b".toList) := by
    decide
  have hlegal : ∀ record ∈ [HandshakeRecord.mk 1 smallHello], record.Legal := by
    intro record hrecord
    obtain rfl := mem_singleton.mp hrecord
    exact ⟨by decide, by decide, by decide⟩
  have hlegal' : ∀ record ∈ [HandshakeRecord.mk 1 (smallHello.take 20), ⟨3, smallHello.drop 20⟩],
      record.Legal := by
    intro record hrecord
    rcases mem_pair.mp hrecord with rfl | rfl <;> exact ⟨by decide, by decide, by decide⟩
  have hsame := sniff_stable_lossless.2.1 smallHello ⟨0, 0, 55, smallHello.drop 4, rfl, rfl⟩
    [⟨1, smallHello.take 20⟩, ⟨3, smallHello.drop 20⟩] [⟨1, smallHello⟩] hlegal' hlegal rfl rfl
  exact hsame.trans hone

end Sockrocket
