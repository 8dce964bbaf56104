import Sockrocket.Dns.Wire

/-!
# Records of a message

The loops of the codec all walk over the same records. `RecordsAt` says which records stand between
two positions of a message; each loop is then a function of those records: `walkRecords_iff`,
`parseAnswers_of_recordsAt`, `capLoop_of_recordsAt`. A reader looks only at the bytes it passes over,
so a change in front of it or a longer message does not matter (`skipLabels_congr`).
-/

namespace Dns

open Rust List

/-- The type, time to live and data of a resource record. -/
structure Record where
  kind : Nat
  ttl : Nat
  rdata : Bytes
deriving DecidableEq

/-- The address the record holds. -/
def Record.address (record : Record) : Option IpAddr :=
  recordAddress record.kind record.rdata

/-- The record with its time to live lowered; the pseudo-record of EDNS has none. -/
def Record.cap (max : Nat) (record : Record) : Record :=
  if record.kind ≠ 41 then { record with ttl := min record.ttl max } else record

/-- The record whose fixed part is at a position. -/
def recordAt (data : Bytes) (pos : Nat) : Record where
  kind := u16At data pos
  ttl := u32At data (pos + 4)
  rdata := (data.drop (pos + 10)).take (u16At data (pos + 8))

/-- Read so many records from a position on. -/
def readRecords (data : Bytes) : Nat → Nat → Option (List Record)
  | 0, _ => some []
  | count + 1, pos =>
    match skipDnsName data pos with
    | none => none
    | some pos =>
      if data.length < pos + 10 + u16At data (pos + 8) then none
      else
        (readRecords data count (pos + 10 + u16At data (pos + 8))).map (recordAt data pos :: ·)

/-- The records of a message, of all its sections. -/
def messageRecords (message : Bytes) : List Record :=
  match skipDnsName message 12 with
  | none => []
  | some pos => (readRecords message (recordCount message) (pos + 4)).getD []

/-- The records between two positions. -/
inductive RecordsAt (data : Bytes) : Nat → List Record → Nat → Prop where
  | nil (pos : Nat) : RecordsAt data pos [] pos
  | cons {pos body last : Nat} {records : List Record} (hname : skipDnsName data pos = some body)
      (hfit : body + 10 + u16At data (body + 8) ≤ data.length)
      (rest : RecordsAt data (body + 10 + u16At data (body + 8)) records last) :
      RecordsAt data pos (recordAt data body :: records) last

/-! ## Bytes -/

variable {data : Bytes} {i : Nat}

variable {rest : Bytes}

theorem byteAt_append_left (h : i < data.length) :
    byteAt (data ++ rest) i = byteAt data i := by
  unfold byteAt
  rw [getD_append _ _ _ _ h]

theorem byteAt_append_right (h : data.length ≤ i) :
    byteAt (data ++ rest) i = byteAt rest (i - data.length) := by
  unfold byteAt
  rw [getD_append_right _ _ _ _ h]

theorem byteAt_take {n : Nat} (h : i < n) :
    byteAt (data.take n) i = byteAt data i := by
  unfold byteAt
  rw [getD_eq_getElem?_getD, getD_eq_getElem?_getD, getElem?_take_of_lt h]

theorem byteAt_drop (data : Bytes) (n i : Nat) : byteAt (data.drop n) i = byteAt data (n + i) := by
  unfold byteAt
  rw [getD_eq_getElem?_getD, getD_eq_getElem?_getD, getElem?_drop]

/-- Two messages agree on the bytes between two positions. -/
def Agree (data data' : Bytes) (low high : Nat) : Prop :=
  ∀ i, low ≤ i → i < high → byteAt data' i = byteAt data i

variable {data' : Bytes} {low high : Nat}

theorem Agree.mono {low' high' : Nat} (h : Agree data data' low high) (hlow : low ≤ low')
    (hhigh : high' ≤ high) : Agree data data' low' high' :=
  fun i hi hi' => h i (hlow.trans hi) (hi'.trans_le hhigh)

theorem Agree.u16At (h : Agree data data' low high) (hlow : low ≤ i) (hhigh : i + 2 ≤ high) :
    u16At data' i = u16At data i := by
  unfold Dns.u16At
  rw [h i hlow (by omega), h (i + 1) (by omega) (by omega)]

theorem Agree.u32At (h : Agree data data' low high) (hlow : low ≤ i) (hhigh : i + 4 ≤ high) :
    u32At data' i = u32At data i := by
  unfold Dns.u32At
  rw [h.u16At hlow (by omega), h.u16At (by omega) (by omega)]

/-- So many bytes from a position on. -/
theorem Agree.slice (h : Agree data data' low high) (pos count : Nat) (hlow : low ≤ pos)
    (hhigh : pos + count ≤ high) (hdata : pos + count ≤ data.length)
    (hdata' : pos + count ≤ data'.length) :
    (data'.drop pos).take count = (data.drop pos).take count := by
  apply ext_getElem?
  intro i
  by_cases hi : i < count
  · have hbyte := h (pos + i) (by omega) (by omega)
    rw [getElem?_take_of_lt hi, getElem?_take_of_lt hi, getElem?_drop,
      getElem?_drop, getElem?_eq_getElem (by omega), getElem?_eq_getElem (by omega)]
    unfold byteAt at hbyte
    rw [getD_eq_getElem _ _ (by omega), getD_eq_getElem _ _ (by omega)] at hbyte
    rw [UInt8.toNat_inj.mp hbyte]
  · rw [getElem?_eq_none (by simp; omega), getElem?_eq_none (by simp; omega)]

section Overwrite

variable {data bytes : Bytes} {pos : Nat} (hfit : pos + bytes.length ≤ data.length)

include hfit

theorem length_overwrite : (overwrite data pos bytes).length = data.length := by
  simp only [overwrite, length_append, length_take, length_drop]
  omega

theorem byteAt_overwrite_inside {i : Nat} (h : i < bytes.length) :
    byteAt (overwrite data pos bytes) (pos + i) = byteAt bytes i := by
  unfold overwrite
  have htake : (data.take pos).length = pos := by
    rw [length_take]
    omega
  rw [byteAt_append_left (by rw [length_append, htake]; omega),
    byteAt_append_right (by rw [htake]; omega), htake, Nat.add_sub_cancel_left]

theorem byteAt_overwrite_before {i : Nat} (h : i < pos) :
    byteAt (overwrite data pos bytes) i = byteAt data i := by
  unfold overwrite
  have htake : (data.take pos).length = pos := by
    rw [length_take]
    omega
  rw [append_assoc, byteAt_append_left (by rw [htake]; exact h), byteAt_take h]

theorem byteAt_overwrite_after {i : Nat} (h : pos + bytes.length ≤ i) :
    byteAt (overwrite data pos bytes) i = byteAt data i := by
  unfold overwrite
  have hlength : (data.take pos ++ bytes).length = pos + bytes.length := by
    rw [length_append, length_take]
    omega
  rw [byteAt_append_right (by rw [hlength]; exact h), hlength, byteAt_drop]
  congr 1
  omega

end Overwrite

theorem byteAt_ofNat (n : Nat) : (UInt8.ofNat n).toNat = n % 256 :=
  UInt8.toNat_ofNat'

variable {pos : Nat}

/-- A number below `2^32` is read back from its four bytes. -/
theorem u32At_overwrite {n : Nat} (hfit : pos + 4 ≤ data.length) (hn : n < 4294967296) :
    u32At (overwrite data pos (be32 n)) pos = n := by
  have hbytes : ∀ i < 4, byteAt (overwrite data pos (be32 n)) (pos + i) = byteAt (be32 n) i :=
    fun i hi => byteAt_overwrite_inside hfit hi
  have h0 := hbytes 0 (by omega)
  have h1 := hbytes 1 (by omega)
  have h2 := hbytes 2 (by omega)
  have h3 := hbytes 3 (by omega)
  have hvalue : byteAt (be32 n) 0 = n / 65536 / 256 % 256 ∧ byteAt (be32 n) 1 = n / 65536 % 256 ∧
      byteAt (be32 n) 2 = n / 256 % 256 ∧ byteAt (be32 n) 3 = n % 256 :=
    ⟨byteAt_ofNat _, byteAt_ofNat _, byteAt_ofNat _, byteAt_ofNat _⟩
  obtain ⟨v0, v1, v2, v3⟩ := hvalue
  unfold u32At u16At
  rw [show pos + 2 + 1 = pos + 3 from rfl, h1, h2, h3]
  rw [show byteAt (overwrite data pos (be32 n)) pos = byteAt (be32 n) 0 from h0, v0, v1, v2, v3]
  omega

/-! ## Names -/

variable {turns last : Nat}

variable {start : Nat}

theorem skipLabels_bounds (h : skipLabels data start turns pos = some last) :
    pos < last ∧ last ≤ data.length := by
  induction turns generalizing pos with
  | zero => cases h
  | succ turns ih =>
    unfold skipLabels at h
    split at h
    · cases h
    split at h
    · obtain rfl := Option.some.inj h
      omega
    split at h
    · split at h
      · cases h
      split at h
      · cases h
      · obtain rfl := Option.some.inj h
        omega
    split at h
    · cases h
    · have hrest := ih h
      omega

theorem skipDnsName_bounds (h : skipDnsName data pos = some last) :
    pos < last ∧ last ≤ data.length :=
  skipLabels_bounds h

/-- A name is read the same way in every message that agrees on its bytes. -/
theorem skipLabels_congr (h : skipLabels data start turns pos = some last)
    (hagree : Agree data data' pos last) (hlength : last ≤ data'.length) :
    skipLabels data' start turns pos = some last := by
  induction turns generalizing pos with
  | zero => cases h
  | succ turns ih =>
    have hbounds := skipLabels_bounds h
    have hbyte : byteAt data' pos = byteAt data pos := hagree pos (le_refl _) hbounds.1
    unfold skipLabels at h ⊢
    rw [if_neg (by omega)] at h ⊢
    rw [hbyte]
    split at h
    · rename_i hzero
      rw [if_pos hzero]
      exact h
    rename_i hzero
    rw [if_neg hzero]
    split at h
    · rename_i hpointer
      rw [if_pos hpointer]
      rw [if_neg (by split at h <;> simp_all)] at h
      split at h
      · cases h
      · rename_i hback
        obtain rfl := Option.some.inj h
        rw [if_neg (by omega), hagree (pos + 1) (by omega) (by omega), if_neg hback]
    rename_i hlabel
    rw [if_neg hlabel]
    split at h
    · cases h
    rename_i hfits
    have hrest := skipLabels_bounds h
    rw [if_neg (by omega)]
    exact ih h (hagree.mono (by omega) (le_refl _))

theorem skipDnsName_congr (h : skipDnsName data pos = some last)
    (hagree : Agree data data' pos last) (hlength : last ≤ data'.length) :
    skipDnsName data' pos = some last :=
  skipLabels_congr h hagree hlength

/-- The name of a question has no pointers, and is skipped as it was read. -/
theorem skipLabels_of_questionLabels {labels : List Str}
    (h : questionLabels data turns pos = some (labels, last)) :
    skipLabels data 12 turns pos = some last := by
  have hplain : ∀ len < 64, len &&& 0xc0 ≠ 0xc0 := by decide
  induction turns generalizing pos labels with
  | zero => cases h
  | succ turns ih =>
    unfold questionLabels at h
    unfold skipLabels
    split at h
    · cases h
    rename_i hpos
    rw [if_neg hpos]
    split at h
    · rename_i hzero
      rw [if_pos hzero]
      simp only [Option.some.injEq, Prod.mk.injEq] at h
      rw [h.2]
    rename_i hzero
    rw [if_neg hzero]
    split at h
    · cases h
    rename_i hfits
    rw [if_neg (hplain _ (by omega)), if_neg hfits]
    split at h
    · rename_i label labels' last' hlabel hrest
      simp only [Option.some.injEq, Prod.mk.injEq] at h
      rw [h.2] at hrest
      exact ih hrest
    · cases h

/-! ## Records between two positions -/

section RecordsAt

variable {data : Bytes} {pos last : Nat} {records : List Record}

theorem RecordsAt.le (h : RecordsAt data pos records last) :
    pos + 11 * records.length ≤ last := by
  induction h with
  | nil pos => simp
  | cons hname hfit rest ih =>
    have hbounds := skipDnsName_bounds hname
    rw [length_cons]
    omega

theorem RecordsAt.last_le (h : RecordsAt data pos records last) (hpos : pos ≤ data.length) :
    last ≤ data.length := by
  induction h with
  | nil pos => exact hpos
  | cons hname hfit rest ih => exact ih hfit

/-- `validate_records` walks over the records there are. -/
theorem walkRecords_iff {count : Nat} :
    walkRecords data count pos = some last ↔
      ∃ records, records.length = count ∧ RecordsAt data pos records last := by
  induction count generalizing pos with
  | zero =>
    simp only [walkRecords, Option.some.injEq]
    constructor
    · intro heq
      exact ⟨[], rfl, heq ▸ .nil pos⟩
    · rintro ⟨records, hlength, hrecords⟩
      obtain rfl := length_eq_zero_iff.mp hlength
      cases hrecords
      rfl
  | succ count ih =>
    constructor
    · intro h
      unfold walkRecords at h
      split at h
      · cases h
      rename_i body hname
      split at h
      · cases h
      split at h
      · cases h
      rename_i hhead hfit
      obtain ⟨records, hlength, hrecords⟩ := ih.mp h
      exact ⟨recordAt data body :: records, congrArg Nat.succ hlength,
        .cons hname (by omega) hrecords⟩
    · rintro ⟨records, hlength, hrecords⟩
      cases hrecords with
      | nil => cases hlength
      | cons hname hfit rest =>
        rw [walkRecords, hname]
        dsimp only
        rw [if_neg (by omega), if_neg (by omega)]
        exact ih.mpr ⟨_, Nat.succ.inj hlength, rest⟩

theorem readRecords_of_recordsAt (h : RecordsAt data pos records last) :
    readRecords data records.length pos = some records := by
  induction h with
  | nil pos => rfl
  | cons hname hfit rest ih =>
    rw [length_cons, readRecords, hname]
    show (if _ then none else _) = _
    rw [if_neg (by omega), ih]
    rfl

/-- The answers of a message are the addresses of its first records. -/
theorem parseAnswers_of_recordsAt {rest : List Record}
    (h : RecordsAt data pos (records ++ rest) last) :
    parseAnswers data records.length pos = some (records.filterMap Record.address) := by
  induction records generalizing pos with
  | nil => rfl
  | cons record records ih =>
    rw [cons_append] at h
    cases h with
    | cons hname hfit rest =>
      have hbounds := skipDnsName_bounds hname
      rw [length_cons, parseAnswers, if_neg (by omega), hname]
      dsimp only
      rw [if_neg (by omega), if_neg (by omega), ih rest]
      rename_i body
      show some ((recordAt data body).address.toList ++ _) = _
      cases haddress : (recordAt data body).address with
      | none => rw [filterMap_cons_none haddress]; rfl
      | some ip => rw [filterMap_cons_some haddress]; rfl

/-- Records are read the same way in every message that agrees on their bytes. -/
theorem RecordsAt.congr {data' : Bytes} (h : RecordsAt data pos records last)
    (hagree : Agree data data' pos last) (hlength : last ≤ data'.length)
    (hpos : pos ≤ data.length) : RecordsAt data' pos records last := by
  induction h with
  | nil pos => exact .nil pos
  | @cons pos body last records hname hfit rest ih =>
    have hbounds := skipDnsName_bounds hname
    have hle := rest.le
    have hlen : u16At data' (body + 8) = u16At data (body + 8) :=
      hagree.u16At (by omega) (by omega)
    have hdata : RecordsAt data' pos (recordAt data' body :: records) last := by
      refine .cons (skipDnsName_congr hname (hagree.mono (le_refl _) (by omega)) (by omega))
        (by omega) ?_
      rw [hlen]
      exact ih (hagree.mono (by omega) (le_refl _)) hlength hfit
    have hrecord : recordAt data' body = recordAt data body := by
      have hslice := hagree.slice (body + 10) (u16At data (body + 8)) (by omega) (by omega) hfit
        (by omega)
      unfold recordAt
      rw [hlen, hslice, hagree.u16At (by omega) (by omega), hagree.u32At (by omega) (by omega)]
    rw [← hrecord]
    exact hdata

end RecordsAt

/-! ## Lowering times to live -/

section Cap

variable {data : Bytes} (max : Nat) {body : Nat}
  (hfit : body + 10 + u16At data (body + 8) ≤ data.length)

include hfit

theorem length_capRecord : (capRecord data max body).length = data.length := by
  unfold capRecord
  split
  · exact length_overwrite (by show body + 4 + 4 ≤ _; omega)
  · rfl

theorem byteAt_capRecord {i : Nat} (h : i < body + 4 ∨ body + 8 ≤ i) :
    byteAt (capRecord data max body) i = byteAt data i := by
  have hroom : body + 4 + (be32 (min (u32At data (body + 4)) max)).length ≤ data.length := by
    show body + 4 + 4 ≤ _
    omega
  unfold capRecord
  split
  · rcases h with h | h
    · exact byteAt_overwrite_before hroom h
    · exact byteAt_overwrite_after hroom h
  · rfl

/-- Nothing but the time to live of the record changes. -/
theorem recordAt_capRecord :
    recordAt (capRecord data max body) body = (recordAt data body).cap max := by
  have hlow : Agree data (capRecord data max body) 0 (body + 4) := fun i _ hi =>
    byteAt_capRecord max hfit (.inl hi)
  have hhigh : Agree data (capRecord data max body) (body + 8) data.length := fun i hi _ =>
    byteAt_capRecord max hfit (.inr hi)
  have hkind : u16At (capRecord data max body) body = u16At data body :=
    hlow.u16At (Nat.zero_le _) (by omega)
  have hlen : u16At (capRecord data max body) (body + 8) = u16At data (body + 8) :=
    hhigh.u16At (le_refl _) (by omega)
  have hrdata : ((capRecord data max body).drop (body + 10)).take (u16At data (body + 8)) =
      (data.drop (body + 10)).take (u16At data (body + 8)) := by
    refine hhigh.slice (body + 10) (u16At data (body + 8)) (by omega) hfit hfit ?_
    rw [length_capRecord max hfit]
    exact hfit
  have httl : u32At (capRecord data max body) (body + 4) =
      if u16At data body ≠ 41 then min (u32At data (body + 4)) max
      else u32At data (body + 4) := by
    unfold capRecord
    split
    · have hlt := u32At_lt data (body + 4)
      exact u32At_overwrite (by omega) (by omega)
    · rfl
  unfold recordAt Record.cap
  simp only [hkind, hlen, hrdata, httl]
  split <;> rfl

end Cap

/-- `cap_ttl` lowers every time to live, and leaves everything in front of the records alone. -/
theorem capLoop_of_recordsAt (max : Nat) {records : List Record}
    (h : RecordsAt data pos records last) (hpos : pos ≤ data.length) :
    ∃ capped, capLoop max records.length data pos = some capped ∧
      capped.length = data.length ∧ Agree data capped 0 pos ∧
      RecordsAt capped pos (records.map (Record.cap max)) last := by
  induction records generalizing data pos with
  | nil =>
    cases h
    exact ⟨data, rfl, rfl, fun _ _ _ => rfl, .nil _⟩
  | cons record records ih =>
    cases h with
    | @cons _ body _ _ hname hfit rest =>
      have hbounds := skipDnsName_bounds hname
      have hle := rest.le
      have hlast := rest.last_le hfit
      have hlength := length_capRecord max hfit
      -- the records that follow are where they were
      have hafter : Agree data (capRecord data max body)
          (body + 10 + u16At data (body + 8)) last := fun i hi _ =>
        byteAt_capRecord max hfit (.inr (by omega))
      have hrest := rest.congr hafter (by omega) hfit
      obtain ⟨capped, hloop, hlength', hbefore, hrecords⟩ := ih hrest (by omega)
      have hhead : Agree (capRecord data max body) capped 0
          (body + 10 + u16At data (body + 8)) := hbefore
      have hfront : Agree data capped 0 (body + 4) := by
        intro i hi hi'
        rw [hhead i hi (by omega), byteAt_capRecord max hfit (.inl hi')]
      have hlen : u16At capped (body + 8) = u16At data (body + 8) := by
        rw [hhead.u16At (Nat.zero_le _) (by omega)]
        unfold u16At
        rw [byteAt_capRecord max hfit (.inr (by omega)),
          byteAt_capRecord max hfit (.inr (by omega))]
      refine ⟨capped, ?_, hlength'.trans hlength, hfront.mono (le_refl _) (by omega), ?_⟩
      · rw [length_cons, capLoop, hname]
        exact hloop
      · have hrecord : recordAt capped body = (recordAt data body).cap max := by
          rw [← recordAt_capRecord max hfit]
          have hlen' : u16At (capRecord data max body) (body + 8) = u16At data (body + 8) := by
            rw [← hhead.u16At (Nat.zero_le _) (by omega), hlen]
          have hslice := hhead.slice (body + 10) (u16At data (body + 8)) (Nat.zero_le _)
            (le_refl _) (by omega) (by omega)
          unfold recordAt
          rw [hlen, hlen', hslice, hhead.u16At (Nat.zero_le _) (by omega),
            hhead.u32At (Nat.zero_le _) (by omega)]
        rw [map_cons, ← hrecord]
        refine .cons (skipDnsName_congr hname (hfront.mono (by omega) (by omega)) (by omega))
          (by omega) ?_
        rw [hlen]
        exact hrecords

end Dns
