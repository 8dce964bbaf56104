import Sockrocket.Proxy.QuicDatagram

/-!
# QUIC transport parameters

`chrome_parameters` gives the transport parameters of a client another look: it reads them, drops
some, adds four, shuffles and writes them again. `parse_encode` says that what was written is read
back, and `written` what that is, so no limit is advertised that is not the one in force.

What the random generator draws is a value of `Draws`. The check of the result by Quinn's own parser
is a parameter. `usize` has 64 bits, so a length always converts to it.
-/

namespace Sockrocket.QuicFingerprint

open Dns List

/-- A failure with a message, or a crash: an index out of range or an `expect`. -/
inductive Fault where
  | crash
  | error (message : String)
deriving DecidableEq

abbrev Parameter := Nat × Bytes

def byteOf (input : Bytes) (i : Nat) : Except Fault UInt8 :=
  match input[i]? with
  | some b => .ok b
  | none => .error .crash

def range (input : Bytes) (a b : Nat) : Except Fault Bytes :=
  if a ≤ b ∧ b ≤ input.length then .ok ((input.drop a).take (b - a)) else .error .crash

def readVarint (input : Bytes) : Except Fault (Nat × Bytes) :=
  if input = [] then .error (.error "truncated QUIC variable integer")
  else do
    let first ← byteOf input 0
    let n := 2 ^ (first.toNat / 64)
    if input.length < n then .error (.error "truncated QUIC variable integer")
    else do
      let bytes ← range input 1 n
      let rest ← range input n input.length
      pure (varintValue first bytes, rest)

/-- The two bits of the tag are free in each branch, so `|` adds it. -/
def varint (value : Nat) : Except Fault Bytes :=
  if 2 ^ 62 ≤ value then .error .crash
  else if value < 64 then .ok [UInt8.ofNat value]
  else if value < 16384 then .ok (be16 (value + 0x4000))
  else if value < 2 ^ 30 then .ok (be32 (value + 0x80000000))
  else .ok (be32 ((value + 0xc000000000000000) / 2 ^ 32) ++ be32 (value + 0xc000000000000000))

/-- The loop of `parse_parameters`. A turn takes a byte at least, so the length of the input is enough
turns. -/
def parseLoop : Nat → Bytes → List Parameter → Except Fault (List Parameter)
  | _, [], output => .ok output
  | 0, _ :: _, _ => .error .crash
  | turns + 1, b :: input, output => do
    let (id, input) ← readVarint (b :: input)
    let (len, input) ← readVarint input
    if input.length < len then .error (.error "truncated QUIC parameter")
    else if id ∈ output.map Prod.fst then .error (.error "duplicate QUIC parameter")
    else do
      let value ← range input 0 len
      let rest ← range input len input.length
      parseLoop turns rest (output ++ [(id, value)])

def parseParameters (input : Bytes) : Except Fault (List Parameter) :=
  parseLoop input.length input []

def expected : List (Nat × Nat) :=
  [(1, 30000), (3, 1472), (4, 15728640), (5, 6291456), (6, 6291456), (7, 6291456), (8, 100),
    (9, 103)]

/-- What `retain` takes out. -/
def dropped (p : Parameter) : Bool :=
  p.1 = 0xff04de1b ∨ p.1 = 0x2ab2 ∨ p.1 % 31 = 27 ∨ p = (10, [3]) ∨ p = (11, [25]) ∨ p = (14, [2])

/-- The first parameter with the id of the datagram size gets another value. -/
def setDatagram (value : Bytes) : List Parameter → List Parameter
  | [] => []
  | p :: rest => if p.1 = 0x20 then (p.1, value) :: rest else p :: setDatagram value rest

/-- What is drawn for one call. -/
structure Draws where
  version : UInt32
  grease : Bytes
  grease_le : grease.length ≤ 16
  reserved : Nat
  reserved_lt : reserved < 2 ^ 30
  shuffle : List Parameter → List Parameter
  shuffle_perm : ∀ parameters, (shuffle parameters).Perm parameters

/-- The parameters that are added. -/
def Draws.added (draws : Draws) : List Parameter :=
  [(0xff73db, be32 1 ++ be32 (draws.version &&& 0xf0f0f0f0 ||| 0x0a0a0a0a).toNat ++ be32 1),
    (0x4752, be32 1), (0x3128, [82, 86, 67, 77]), (31 * draws.reserved + 27, draws.grease)]

def encode : List Parameter → Except Fault Bytes
  | [] => .ok []
  | (id, value) :: rest => do
    let head ← varint id
    let size ← varint value.length
    let tail ← encode rest
    .ok (head ++ (size ++ (value ++ tail)))

def chromeParameters (read : Bytes → Except String Unit) (draws : Draws) (input : Bytes) :
    Except Fault Bytes := do
  let parameters ← parseParameters input
  if ¬ ∀ e ∈ expected, ∃ p ∈ parameters,
      p.1 = e.1 ∧ (readVarint p.2).toOption.map Prod.fst = some e.2 then
    .error (.error "QUIC profile transport limits mismatch")
  else if (15, []) ∉ parameters then
    .error (.error "QUIC profile requires zero-length source CID")
  else do
    let datagram ← varint 65536
    let kept := setDatagram datagram (parameters.filter fun p => !dropped p)
    let wire ← encode (draws.shuffle (kept ++ draws.added))
    match read wire with
    | .error message => .error (.error message)
    | .ok () => .ok wire

/-! ## Variable integers -/

/-- The lowest bytes of a number. -/
def beBytes : Nat → Nat → Bytes
  | 0, _ => []
  | k + 1, n => UInt8.ofNat (n / 256 ^ k) :: beBytes k n

theorem length_beBytes (k n : Nat) : (beBytes k n).length = k := by
  induction k with
  | zero => rfl
  | succ k ih => rw [beBytes, length_cons, ih]

theorem foldl_beBytes (k n a : Nat) :
    (beBytes k n).foldl (fun value b => value * 256 + b.toNat) a = a * 256 ^ k + n % 256 ^ k := by
  induction k generalizing a with
  | zero => simp [beBytes, Nat.mod_one]
  | succ k ih =>
    rw [beBytes, foldl_cons, ih, Nat.mod_pow_succ, UInt8.toNat_ofNat', pow_succ]
    norm_num
    ring

theorem readVarint_cons (first : UInt8) (more : Bytes) :
    readVarint (first :: more) =
      if more.length + 1 < 2 ^ (first.toNat / 64) then .error (.error "truncated QUIC variable integer")
      else .ok (varintValue first (more.take (2 ^ (first.toNat / 64) - 1)),
        more.drop (2 ^ (first.toNat / 64) - 1)) := by
  obtain ⟨m, hm⟩ := Nat.exists_eq_add_of_le' (Nat.one_le_two_pow : 1 ≤ 2 ^ (first.toNat / 64))
  rw [readVarint, if_neg (cons_ne_nil _ _)]
  show (if more.length + 1 < _ then _ else _) = _
  rw [hm, Nat.add_sub_cancel]
  split
  · rfl
  · rename_i hle
    have hle := not_lt.mp hle
    rw [range, if_pos ⟨Nat.le_add_left _ _, hle⟩, range, if_pos ⟨hle, le_rfl⟩]
    have hrest : take (more.length + 1 - (m + 1)) (drop m more) = drop m more :=
      take_of_length_le (by rw [length_drop]; omega)
    show Except.ok (_, take (more.length + 1 - (m + 1)) (drop m more)) = _
    rw [hrest]
    rfl

/-- A number behind its tag is read back. -/
theorem readVarint_tagged {k tag v : Nat} (hv : v < 64 * 256 ^ k) (htag : tag < 4)
    (hk : 2 ^ tag = k + 1) (rest : Bytes) :
    readVarint (beBytes (k + 1) (v + tag * (64 * 256 ^ k)) ++ rest) = .ok (v, rest) := by
  have hpos : 0 < 256 ^ k := Nat.pow_pos (by decide)
  have hhigh : v / 256 ^ k < 64 := (Nat.div_lt_iff_lt_mul hpos).mpr hv
  have hfirst : (UInt8.ofNat ((v + tag * (64 * 256 ^ k)) / 256 ^ k)).toNat =
      v / 256 ^ k + tag * 64 := by
    rw [← mul_assoc, Nat.add_mul_div_right _ _ hpos, UInt8.toNat_ofNat', Nat.mod_eq_of_lt]
    omega
  have hwidth : (v / 256 ^ k + tag * 64) / 64 = tag := by
    rw [Nat.add_mul_div_right _ _ (by decide), Nat.div_eq_of_lt hhigh, zero_add]
  rw [beBytes, cons_append, readVarint_cons, hfirst, hwidth, hk, if_neg, Nat.add_sub_cancel]
  · have hlow : (v + tag * (64 * 256 ^ k)) % 256 ^ k = v % 256 ^ k := by
      rw [← mul_assoc, Nat.add_mul_mod_self_right]
    rw [take_left' (length_beBytes _ _), drop_left' (length_beBytes _ _), varintValue,
      foldl_beBytes, hfirst, hlow, Nat.add_mul_mod_self_right, Nat.mod_eq_of_lt hhigh,
      Nat.div_add_mod']
  · rw [length_append, length_beBytes]
    omega

theorem be16_eq (n : Nat) : be16 n = beBytes 2 n := by
  simp [be16, beBytes]

theorem be32_eq (n : Nat) : be32 n = beBytes 4 n := by
  simp [be32, be16, beBytes, Nat.div_div_eq_div_mul]

/-- `varint` writes what `read_varint` reads. -/
theorem readVarint_varint {v : Nat} {wire : Bytes} (h : varint v = .ok wire) (rest : Bytes) :
    readVarint (wire ++ rest) = .ok (v, rest) := by
  unfold varint at h
  split at h
  · cases h
  split at h
  · rename_i hlt
    cases h
    simpa [beBytes] using readVarint_tagged hlt (by decide : 0 < 4) rfl rest
  split at h
  · rename_i hlt
    cases h
    rw [be16_eq]
    exact readVarint_tagged hlt (by decide : 1 < 4) rfl rest
  split at h
  · rename_i hlt
    cases h
    rw [be32_eq]
    exact readVarint_tagged hlt (by decide : 2 < 4) rfl rest
  · rename_i hlt _ _ _
    cases h
    have hbytes (n : Nat) : be32 (n / 2 ^ 32) ++ be32 n = beBytes 8 n := by
      simp [be32, be16, beBytes, Nat.div_div_eq_div_mul]
    rw [hbytes]
    exact readVarint_tagged (not_le.mp hlt) (by decide : 3 < 4) rfl rest

theorem exists_varint {v : Nat} (hv : v < 2 ^ 62) : ∃ wire, varint v = .ok wire := by
  rw [varint, if_neg (not_le.mpr hv)]
  split
  · exact ⟨_, rfl⟩
  split
  · exact ⟨_, rfl⟩
  split <;> exact ⟨_, rfl⟩

/-! ## Reading parameters -/

theorem readVarint_cases (input : Bytes) :
    (∃ message, readVarint input = .error (.error message)) ∨
      ∃ v rest, readVarint input = .ok (v, rest) ∧ rest.length + 1 ≤ input.length := by
  cases input with
  | nil => exact .inl ⟨_, rfl⟩
  | cons first more =>
    rw [readVarint_cons]
    split
    · exact .inl ⟨_, rfl⟩
    · refine .inr ⟨_, _, rfl, ?_⟩
      rw [length_drop, length_cons]
      omega

variable {turns key len : Nat} {input more more' wire : Bytes} {output parameters : List Parameter}

/-- A turn that reads a parameter. -/
theorem parseLoop_next (hid : readVarint input = .ok (key, more))
    (hsize : readVarint more = .ok (len, more')) (hlen : len ≤ more'.length)
    (hnew : key ∉ output.map Prod.fst) :
    parseLoop (turns + 1) input output =
      parseLoop turns (more'.drop len) (output ++ [(key, more'.take len)]) := by
  cases input with
  | nil => cases hid
  | cons b input =>
    simp only [parseLoop, hid, hsize, bind, Except.bind, if_neg (not_lt.mpr hlen), if_neg hnew, range,
      Nat.zero_le, hlen, le_rfl, and_self, if_true]
    rw [take_of_length_le (length_drop ..).le]
    rfl

/-- The loop does not crash, and the ids it has read differ. -/
theorem parseLoop_spec (hturns : input.length ≤ turns) (h : (output.map Prod.fst).Nodup) :
    parseLoop turns input output ≠ .error .crash ∧
      ∀ result, parseLoop turns input output = .ok result → (result.map Prod.fst).Nodup := by
  induction turns generalizing input output with
  | zero =>
    obtain rfl := eq_nil_of_length_eq_zero (Nat.le_zero.mp hturns)
    refine ⟨nofun, fun result hresult => ?_⟩
    cases hresult
    exact h
  | succ turns ih =>
    cases input with
    | nil =>
      refine ⟨nofun, fun result hresult => ?_⟩
      cases hresult
      exact h
    | cons b input =>
      rcases readVarint_cases (b :: input) with ⟨message, hid⟩ | ⟨key, more, hid, hmore⟩
      · simp only [parseLoop, hid, bind, Except.bind]
        exact ⟨nofun, nofun⟩
      rcases readVarint_cases more with ⟨message, hsize⟩ | ⟨len, more', hsize, hmore'⟩
      · simp only [parseLoop, hid, hsize, bind, Except.bind]
        exact ⟨nofun, nofun⟩
      by_cases hok : len ≤ more'.length ∧ key ∉ output.map Prod.fst
      · rw [parseLoop_next hid hsize hok.1 hok.2]
        refine ih ?_ ?_
        · rw [length_drop]
          omega
        · rw [map_append, map_singleton, ← concat_eq_append]
          exact h.concat hok.2
      · simp only [parseLoop, hid, hsize, bind, Except.bind]
        split
        · exact ⟨nofun, nofun⟩
        · rename_i hlen
          rw [if_pos (by_contra fun hnew => hok ⟨not_lt.mp hlen, hnew⟩)]
          exact ⟨nofun, nofun⟩

theorem parse_spec (input : Bytes) : parseParameters input ≠ .error .crash ∧
    ∀ result, parseParameters input = .ok result → (result.map Prod.fst).Nodup :=
  parseLoop_spec le_rfl (by exact nodup_nil)

/-- What was written is read back. -/
theorem parse_encode (hwire : encode parameters = .ok wire) (hturns : wire.length ≤ turns)
    (h : ((output ++ parameters).map Prod.fst).Nodup) :
    parseLoop turns wire output = .ok (output ++ parameters) := by
  induction parameters generalizing wire output turns with
  | nil =>
    cases hwire
    cases turns <;> simp [parseLoop]
  | cons p rest ih =>
    obtain ⟨key, value⟩ := p
    obtain ⟨head, hhead, hwire⟩ := Slice.bind_eq_ok.mp hwire
    obtain ⟨size, hsize, hwire⟩ := Slice.bind_eq_ok.mp hwire
    obtain ⟨tail, htail, hwire⟩ := Slice.bind_eq_ok.mp hwire
    cases hwire
    have hpos : head ≠ [] := by
      rintro rfl
      cases readVarint_varint hhead []
    have hlength := length_pos_iff.mpr hpos
    simp only [length_append] at hturns
    have hnew : key ∉ output.map Prod.fst := by
      rw [map_append, map_cons] at h
      exact fun hmem => disjoint_of_nodup_append h hmem mem_cons_self
    obtain ⟨turns, rfl⟩ : ∃ n, turns = n + 1 := Nat.exists_eq_add_of_le' (by omega)
    rw [parseLoop_next (readVarint_varint hhead _) (readVarint_varint hsize _) (by simp) hnew,
      drop_left, take_left, ih htail (by omega) (by simpa using h)]
    simp

/-! ## The profile -/

theorem setDatagram_eq (value : Bytes) (h : (parameters.map Prod.fst).Nodup) :
    setDatagram value parameters =
      parameters.map fun p => if p.1 = 0x20 then (0x20, value) else p := by
  induction parameters with
  | nil => rfl
  | cons p rest ih =>
    obtain ⟨hnew, hrest⟩ := nodup_cons.mp h
    rw [setDatagram, map_cons]
    split
    · rename_i hid
      rw [map_congr_left (g := id), map_id, hid]
      intro q hq
      refine if_neg fun hq' => hnew ?_
      rw [hid, ← hq']
      exact mem_map_of_mem hq
    · rw [ih hrest]

/-- The parameters that stay. -/
def kept (datagram : Bytes) (parameters : List Parameter) : List Parameter :=
  (parameters.filter fun p => !dropped p).map fun p => if p.1 = 0x20 then (0x20, datagram) else p

theorem ids_kept (datagram : Bytes) (parameters : List Parameter) :
    (kept datagram parameters).map Prod.fst =
      (parameters.filter fun p => !dropped p).map Prod.fst := by
  rw [kept, map_map]
  refine map_congr_left fun p _ => ?_
  rw [Function.comp_apply]
  split
  · rename_i hid
    exact hid.symm
  · rfl

/-- No id is written twice: an added id is one of the three, or of the class that is dropped. -/
theorem nodup_written (draws : Draws) (datagram : Bytes) (h : (parameters.map Prod.fst).Nodup)
    (hfixed : ∀ p ∈ parameters, p.1 ∉ [0xff73db, 0x4752, 0x3128]) :
    ((kept datagram parameters ++ draws.added).map Prod.fst).Nodup := by
  rw [map_append, nodup_append, ids_kept]
  refine ⟨h.sublist (filter_sublist.map _), ?_, ?_⟩
  · simp [Draws.added]
    omega
  · rintro _ hold _ hadded rfl
    obtain ⟨p, hp, rfl⟩ := mem_map.mp hold
    obtain ⟨hp, hkept⟩ := mem_filter.mp hp
    have hnew := hfixed p hp
    simp [dropped] at hkept
    simp [Draws.added] at hadded
    simp at hnew
    omega

/-- The first ten ids, with the limits, keep their values. -/
theorem mem_kept_iff {datagram : Bytes} {p : Parameter} (hp : p.1 ≤ 9) :
    p ∈ kept datagram parameters ↔ p ∈ parameters := by
  simp only [kept, mem_map, mem_filter]
  constructor
  · rintro ⟨q, ⟨hq, -⟩, rfl⟩
    split at hp
    · exact absurd hp (by simp)
    · rwa [if_neg ‹_›]
  · intro hmem
    refine ⟨p, ⟨hmem, ?_⟩, if_neg (by omega)⟩
    simp only [dropped, Bool.not_eq_true', decide_eq_false_iff_not, not_or]
    refine ⟨by omega, by omega, by omega, ?_, ?_, ?_⟩ <;> rintro rfl <;> exact absurd hp (by decide)

/-- Integers are read back, reading does not crash, and the limits that are advertised are those that
were given. -/
theorem quic_profile_exact :
    (∀ v < 2 ^ 62, ∃ wire, varint v = .ok wire ∧ ∀ rest, readVarint (wire ++ rest) = .ok (v, rest)) ∧
    (∀ input, parseParameters input ≠ .error .crash) ∧
    ∀ (read : Bytes → Except String Unit) (draws : Draws) (input wire : Bytes)
      (parameters : List Parameter), parseParameters input = .ok parameters →
      (∀ p ∈ parameters, p.1 ∉ [0xff73db, 0x4752, 0x3128]) →
      chromeParameters read draws input = .ok wire →
      ∃ output version datagram grease id, parseParameters wire = .ok output ∧
        (output.map Prod.fst).Nodup ∧ id % 31 = 27 ∧
        output.Perm (kept datagram parameters ++
          [(0xff73db, version), (0x4752, [0, 0, 0, 1]), (0x3128, [82, 86, 67, 77]), (id, grease)]) ∧
        ∀ p, p.1 ≤ 9 → (p ∈ output ↔ p ∈ parameters) := by
  refine ⟨fun v hv => ?_, fun input => (parse_spec input).1, ?_⟩
  · obtain ⟨wire, hwire⟩ := exists_varint hv
    exact ⟨wire, hwire, readVarint_varint hwire⟩
  intro read draws input wire parameters hparse hfixed h
  have hids := (parse_spec input).2 _ hparse
  obtain ⟨parameters', hparse', h⟩ := Slice.bind_eq_ok.mp h
  obtain rfl := Except.ok.inj (hparse.symm.trans hparse')
  split at h
  · cases h
  split at h
  · cases h
  obtain ⟨datagram, hdatagram, h⟩ := Slice.bind_eq_ok.mp h
  obtain ⟨written, hwritten, h⟩ := Slice.bind_eq_ok.mp h
  split at h
  · cases h
  cases h
  rw [setDatagram_eq _ (hids.sublist (filter_sublist.map _)), ← kept] at hwritten
  have hperm := draws.shuffle_perm (kept datagram parameters ++ draws.added)
  have hnodup := (hperm.map Prod.fst).nodup_iff.mpr (nodup_written draws datagram hids hfixed)
  refine ⟨_, _, _, draws.grease, _, parse_encode hwritten le_rfl hnodup, hnodup, ?_, hperm, ?_⟩
  · omega
  · intro p hp
    have hadded : ∀ q ∈ draws.added, 9 < q.1 := by
      simp [Draws.added]
    rw [nil_append, hperm.mem_iff, mem_append, mem_kept_iff hp]
    exact or_iff_left fun hmem => absurd hp (not_le.mpr (hadded p hmem))

/-- The parameters of a client, one of them in the reserved class. -/
def client : Bytes :=
  [1, 4, 128, 0, 117, 48, 3, 2, 69, 192, 4, 4, 128, 240, 0, 0, 5, 4, 128, 96, 0, 0, 6, 4, 128, 96, 0,
    0, 7, 4, 128, 96, 0, 0, 8, 2, 64, 100, 9, 2, 64, 103, 15, 0, 27, 0]

def ordered : Draws := ⟨0, [], by decide, 0, by decide, id, .refl⟩

theorem quic_profile_exact_client : ∃ wire output,
    chromeParameters (fun _ => .ok ()) ordered client = .ok wire ∧
      parseParameters wire = .ok output ∧ (output.map Prod.fst).Nodup := by
  have hrun : chromeParameters (fun _ => .ok ()) ordered client = .ok _ := rfl
  obtain ⟨output, -, -, -, -, hread, hids, -⟩ :=
    quic_profile_exact.2.2 _ _ _ _ _ rfl (by decide) hrun
  exact ⟨_, output, hrun, hread, hids⟩

end Sockrocket.QuicFingerprint
