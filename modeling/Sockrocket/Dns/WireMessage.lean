import Sockrocket.Dns.WireRecords

/-!
# Whole messages

`Parsed` describes a complete reply with one question and the records it holds. Every reply the
validator accepts is one (`parsed_of_validateResponse`), so is every reply the resolver builds
itself (`parsed_build`), and lowering the times to live keeps it one (`Parsed.capTtl`). What
`parse_dns_response` finds in such a reply are the addresses of its answer section
(`Parsed.parseDnsResponse`).
-/

namespace Dns

open Rust List

/-- The response code of a message. -/
def rcode (message : Bytes) : Nat :=
  byteAt message 3 &&& 0x0f

/-- A complete reply with one question and the given records. -/
structure Parsed (message : Bytes) (records : List Record) : Prop where
  header : 12 ≤ message.length
  response : byteAt message 2 &&& 0x80 ≠ 0
  complete : byteAt message 2 &&& 0x02 = 0
  oneQuestion : u16At message 4 = 1
  count : records.length = recordCount message
  body : ∃ body, skipDnsName message 12 = some body ∧ body + 4 ≤ message.length ∧
    RecordsAt message (body + 4) records message.length

section Parsed

variable {message : Bytes} {records : List Record}

theorem Parsed.messageRecords (h : Parsed message records) : messageRecords message = records := by
  obtain ⟨body, hname, hfit, hrecords⟩ := h.body
  unfold Dns.messageRecords
  rw [hname]
  dsimp only
  rw [← h.count, readRecords_of_recordsAt hrecords]
  rfl

/-- A reply with an error code is not parsed; otherwise the answer section gives the addresses. -/
theorem Parsed.parseDnsResponse (h : Parsed message records) :
    parseDnsResponse message =
      if rcode message ≠ 0 then none
      else some ((records.take (u16At message 6)).filterMap Record.address) := by
  obtain ⟨body, hname, hfit, hrecords⟩ := h.body
  have hheader := h.header
  have hcomplete : ¬ (byteAt message 2 &&& 0x80 = 0 ∨ byteAt message 2 &&& 0x02 ≠ 0) := by
    rw [not_or, not_not]
    exact ⟨h.response, h.complete⟩
  have hquestions : skipQuestions message (u16At message 4) 12 = some (body + 4) := by
    rw [h.oneQuestion, skipQuestions, hname]
    show (if _ then none else _) = _
    rw [if_neg (by omega)]
    rfl
  have hanswers : parseAnswers message (u16At message 6) (body + 4) =
      some ((records.take (u16At message 6)).filterMap Record.address) := by
    have hsplit := take_append_drop (u16At message 6) records
    have hlength : (records.take (u16At message 6)).length = u16At message 6 := by
      rw [length_take, h.count, recordCount]
      omega
    rw [← hsplit] at hrecords
    have hparsed := parseAnswers_of_recordsAt hrecords
    rwa [hlength] at hparsed
  unfold Dns.parseDnsResponse
  rw [if_neg (by omega), if_neg hcomplete, hquestions]
  show (if rcode message ≠ 0 then none else parseAnswers _ _ _) = _
  rw [hanswers]

/-- Lowering the times to live keeps the reply well formed, and its header as it was. -/
theorem Parsed.capTtl (h : Parsed message records) (max : Nat) :
    ∃ capped, capTtl message max = some capped ∧
      Parsed capped (records.map (Record.cap max)) ∧ Agree message capped 0 12 := by
  obtain ⟨body, hname, hfit, hrecords⟩ := h.body
  have hbounds := skipDnsName_bounds hname
  obtain ⟨capped, hloop, hlength, hbefore, hcapped⟩ := capLoop_of_recordsAt max hrecords hfit
  rw [h.count] at hloop
  have hvalid : validateRecords message := by
    unfold validateRecords
    rw [hname]
    have hwalk := walkRecords_iff.mpr ⟨records, h.count, hrecords⟩
    simp [hfit, hwalk]
  have hheader : Agree message capped 0 12 := hbefore.mono (le_refl _) (by omega)
  refine ⟨capped, ?_, ?_, hheader⟩
  · unfold Dns.capTtl
    rw [if_pos hvalid, hname]
    exact hloop
  · have hflags := hheader 2 (by omega) (by omega)
    refine ⟨hlength ▸ h.header, hflags ▸ h.response, hflags ▸ h.complete, ?_, ?_, body, ?_, ?_, ?_⟩
    · rw [hheader.u16At (by omega) (by omega), h.oneQuestion]
    · rw [length_map, h.count, recordCount, recordCount, hheader.u16At (by omega) (by omega),
        hheader.u16At (by omega) (by omega), hheader.u16At (by omega) (by omega)]
    · exact skipDnsName_congr hname (hbefore.mono (by omega) (by omega)) (by omega)
    · omega
    · rw [hlength]
      exact hcapped

theorem address_cap (max : Nat) (record : Record) : (record.cap max).address = record.address := by
  unfold Record.cap
  split <;> rfl

theorem ttl_cap_le {max : Nat} {record : Record} (h : (record.cap max).kind ≠ 41) :
    (record.cap max).ttl ≤ max := by
  unfold Record.cap at h ⊢
  split
  · exact min_le_right _ _
  · rename_i hkind
    rw [if_neg hkind] at h
    exact absurd h hkind

end Parsed

/-! ## Validated replies -/

variable {query : Bytes}

/-- What the validator accepts is a complete reply. -/
theorem parsed_of_validateResponse {message : Bytes}
    (h : validateResponse query message) : ∃ records, Parsed message records := by
  unfold validateResponse at h
  split at h
  · cases h
  rename_i hflags
  rw [not_or, not_or, not_or, not_or, not_not, not_not] at hflags
  obtain ⟨hlength, -, -, hresponse, hcomplete⟩ := hflags
  rw [Bool.and_eq_true] at h
  obtain ⟨hrecords, hquestion⟩ := h
  unfold validateRecords at hrecords
  split at hrecords
  · cases hrecords
  rename_i body hname
  rw [Bool.and_eq_true, decide_eq_true_iff, beq_iff_eq] at hrecords
  obtain ⟨records, hcount, hat⟩ := walkRecords_iff.mp hrecords.2
  refine ⟨records, by omega, hresponse, hcomplete, ?_, hcount, body, hname, hrecords.1, hat⟩
  -- the question is read from the reply with its flags cleared, which leaves the counts alone
  split at hquestion
  · rename_i expected actual _ hactual
    unfold question at hactual
    split at hactual
    · cases hactual
    rename_i hpacket
    rw [not_or, not_or, not_not, not_not] at hpacket
    rw [← hpacket.2.2]
    unfold u16At byteAt
    simp [getD_eq_getElem?_getD]
  · cases hquestion

/-! ## Replies built for a query -/

/-- The record of an address in a reply of the resolver's own. -/
def answerOf (ttl : Nat) : IpAddr → Record
  | .v4 ip => { kind := 1, ttl, rdata := ip.octets.map UInt8.ofNat }
  | .v6 ip => { kind := 28, ttl, rdata := v6Bytes ip }

/-- The octets of a number, most significant first, add up to it. -/
theorem foldl_octets (count n : Nat) :
    ((range count).map fun i => UInt8.ofNat (n / 256 ^ (count - 1 - i))).foldl
      (fun value octet => value * 256 + octet.toNat) 0 = n % 256 ^ count := by
  induction count generalizing n with
  | zero => simp [Nat.mod_one]
  | succ count ih =>
    have hinit : ((range count).map fun i =>
        UInt8.ofNat (n / 256 ^ (count + 1 - 1 - i))) =
        (range count).map fun i => UInt8.ofNat (n / 256 / 256 ^ (count - 1 - i)) := by
      refine map_congr_left fun i hi => ?_
      have hlt := mem_range.mp hi
      rw [Nat.div_div_eq_div_mul, ← Nat.pow_succ',
        show (count - 1 - i).succ = count + 1 - 1 - i by omega]
    rw [range_succ, map_append, foldl_append, hinit, ih]
    simp only [map_cons, map_nil, foldl_cons, foldl_nil, byteAt_ofNat,
      Nat.add_sub_cancel, Nat.sub_self, Nat.pow_zero, Nat.div_one]
    rw [Nat.pow_succ', Nat.mod_mul, mul_comm, add_comm]

theorem address_answerOf (ttl : Nat) (ip : IpAddr) : (answerOf ttl ip).address = some ip := by
  cases ip with
  | v4 ip =>
    have hoctets : (ip.octets.map UInt8.ofNat).map UInt8.toNat = ip.octets := by
      rw [map_map]
      refine (map_congr_left fun octet hoctet => ?_).trans (map_id _)
      have hlt := octet_lt octet hoctet
      show (UInt8.ofNat octet).toNat = octet
      rw [byteAt_ofNat]
      omega
    show recordAddress 1 (ip.octets.map UInt8.ofNat) = _
    unfold recordAddress
    rw [if_pos ⟨rfl, rfl⟩, hoctets, ofOctets_octets]
  | v6 ip =>
    have hlt := ip.isLt
    show recordAddress 28 (v6Bytes ip) = _
    unfold recordAddress
    rw [if_neg (by omega), if_pos ⟨rfl, rfl⟩]
    have hvalue := foldl_octets 16 ip.toNat
    rw [Nat.mod_eq_of_lt (by omega)] at hvalue
    rw [v6Bytes, hvalue, BitVec.ofNat_toNat, BitVec.setWidth_eq]

/-- A record of class `IN` whose name is a pointer to the question. -/
def pointedRecord (kind size : UInt8) (ttl : Nat) (rdata : Bytes) : Bytes :=
  [0xc0, 0x0c, 0, kind, 0, 1] ++ be32 ttl ++ [0, size] ++ rdata

variable {front : Bytes} {ttl : Nat}

/-- A record that points to the question, behind any message that reaches past its header. -/
theorem recordAt_pointedRecord (kind size : UInt8) (rdata rest : Bytes)
    (hfront : 12 < front.length) (httl : ttl < 4294967296) (hsize : rdata.length = size.toNat) :
    skipDnsName (front ++ (pointedRecord kind size ttl rdata ++ rest)) front.length =
        some (front.length + 2) ∧
      u16At (front ++ (pointedRecord kind size ttl rdata ++ rest)) (front.length + 2 + 8) =
        rdata.length ∧
      recordAt (front ++ (pointedRecord kind size ttl rdata ++ rest)) (front.length + 2) =
        { kind := kind.toNat, ttl, rdata } := by
  have hbyte : ∀ i, byteAt (front ++ (pointedRecord kind size ttl rdata ++ rest))
      (front.length + i) = byteAt (pointedRecord kind size ttl rdata ++ rest) i := by
    intro i
    rw [byteAt_append_right (Nat.le_add_right _ _), Nat.add_sub_cancel_left]
  have hlength : (front ++ (pointedRecord kind size ttl rdata ++ rest)).length =
      front.length + (12 + rdata.length + rest.length) := by
    simp [pointedRecord, be32, be16]
    omega
  have hfirst : byteAt (front ++ (pointedRecord kind size ttl rdata ++ rest)) front.length =
      0xc0 := hbyte 0
  have hsecond : byteAt (front ++ (pointedRecord kind size ttl rdata ++ rest)) (front.length + 1) =
      0x0c := hbyte 1
  have hlen : u16At (front ++ (pointedRecord kind size ttl rdata ++ rest)) (front.length + 2 + 8) =
      rdata.length := by
    unfold u16At
    rw [add_assoc, hbyte, add_assoc, hbyte, hsize]
    show 0 * 256 + size.toNat = size.toNat
    omega
  refine ⟨?_, hlen, ?_⟩
  · rw [skipDnsName, skipLabels, hfirst, hsecond, if_neg (by omega), if_neg (by decide),
      if_pos (by decide), if_neg (by omega), if_neg (by show ¬ front.length ≤ 12; omega)]
  · unfold recordAt
    rw [hlen]
    have hkind : u16At (front ++ (pointedRecord kind size ttl rdata ++ rest)) (front.length + 2) =
        kind.toNat := by
      unfold u16At
      rw [hbyte, add_assoc, hbyte]
      show 0 * 256 + kind.toNat = kind.toNat
      omega
    have hvalue : u32At (front ++ (pointedRecord kind size ttl rdata ++ rest))
        (front.length + 2 + 4) = ttl := by
      unfold u32At u16At
      simp only [add_assoc, hbyte]
      show ((UInt8.ofNat (ttl / 65536 / 256)).toNat * 256 + (UInt8.ofNat (ttl / 65536)).toNat) *
        65536 + ((UInt8.ofNat (ttl / 256)).toNat * 256 + (UInt8.ofNat ttl).toNat) = ttl
      simp only [byteAt_ofNat]
      omega
    have hdata : ((front ++ (pointedRecord kind size ttl rdata ++ rest)).drop
        (front.length + 2 + 10)).take rdata.length = rdata := by
      rw [add_assoc, drop_append, drop_eq_nil_of_le (Nat.le_add_right _ _),
        Nat.add_sub_cancel_left, nil_append]
      exact take_left' rfl
    rw [hkind, hvalue, hdata]

/-- The first record of a list of answers. -/
theorem recordAt_answer (rest : Bytes) (ttl : Nat) (ip : IpAddr)
    (hfront : 12 < front.length) (httl : ttl < 4294967296) :
    skipDnsName (front ++ (answerRecord ttl ip ++ rest)) front.length = some (front.length + 2) ∧
      front.length + 2 + 10 +
          u16At (front ++ (answerRecord ttl ip ++ rest)) (front.length + 2 + 8) =
        (front ++ answerRecord ttl ip).length ∧
      recordAt (front ++ (answerRecord ttl ip ++ rest)) (front.length + 2) = answerOf ttl ip := by
  cases ip with
  | v4 ip =>
    have hpointed : answerRecord ttl (.v4 ip) =
        pointedRecord 1 4 ttl (ip.octets.map UInt8.ofNat) := rfl
    obtain ⟨hname, hsize, hrecord⟩ := recordAt_pointedRecord 1 4
      (ip.octets.map UInt8.ofNat) rest hfront httl rfl
    rw [hpointed]
    refine ⟨hname, ?_, hrecord⟩
    rw [hsize, length_append]
    rfl
  | v6 ip =>
    have hpointed : answerRecord ttl (.v6 ip) = pointedRecord 0x1c 16 ttl (v6Bytes ip) := rfl
    obtain ⟨hname, hsize, hrecord⟩ := recordAt_pointedRecord 0x1c 16
      (v6Bytes ip) rest hfront httl rfl
    rw [hpointed]
    refine ⟨hname, ?_, hrecord⟩
    rw [hsize, length_append]
    rfl

theorem recordsAt_answers (ttl : Nat) (addresses : List IpAddr)
    (hfront : 12 < front.length) (httl : ttl < 4294967296) :
    RecordsAt (front ++ addresses.flatMap (answerRecord ttl)) front.length
      (addresses.map (answerOf ttl)) (front ++ addresses.flatMap (answerRecord ttl)).length := by
  induction addresses generalizing front with
  | nil =>
    simp only [flatMap_nil, append_nil, map_nil]
    exact .nil _
  | cons ip addresses ih =>
    obtain ⟨hname, hend, hrecord⟩ :=
      recordAt_answer (addresses.flatMap (answerRecord ttl)) ttl ip hfront httl
    have hlength : 12 < (front ++ answerRecord ttl ip).length := by
      rw [length_append]
      omega
    have hrest := ih hlength
    rw [append_assoc] at hrest
    rw [flatMap_cons, map_cons, ← hrecord]
    refine .cons hname ?_ ?_
    · rw [hend]
      simp
    · rw [hend]
      exact hrest

/-- Where the question of a query ends. -/
theorem question_spec {q : Question} (h : question query = some q) :
    12 ≤ query.length ∧ q.end ≤ query.length ∧ 16 < q.end ∧
      skipDnsName query 12 = some (q.end - 4) := by
  unfold question at h
  split at h
  · cases h
  rename_i hheader
  split at h
  · cases h
  rename_i labels pos hlabels
  split at h
  · cases h
  rename_i hfields
  obtain rfl := Option.some.inj h
  have hname := skipLabels_of_questionLabels hlabels
  have hbounds := skipLabels_bounds hname
  rw [not_or] at hheader hfields
  refine ⟨by omega, by show pos + 4 ≤ _; omega, by show 16 < pos + 4; omega, ?_⟩
  show skipLabels query 12 255 12 = some (pos + 4 - 4)
  rw [Nat.add_sub_cancel, hname]

/-- A reply the resolver builds is a complete one, without an error, that holds the addresses. -/
theorem parsed_build {reply : Bytes} {addresses : List IpAddr}
    (httl : ttl < 4294967296) (h : buildDnsResponseWithTtl query addresses ttl = some reply) :
    Parsed reply (addresses.map (answerOf ttl)) := by
  unfold buildDnsResponseWithTtl at h
  split at h
  · cases h
  rename_i q hquestion
  split at h
  · cases h
  rename_i hcount
  obtain rfl := Option.some.inj h
  obtain ⟨hheader, hend, hlow, hname⟩ := question_spec hquestion
  have hflags : UInt8.ofNat (0x80 ||| (byteAt query 2 &&& 1)) = 0x80 ∨
      UInt8.ofNat (0x80 ||| (byteAt query 2 &&& 1)) = 0x81 := by
    rw [Nat.and_one_is_mod]
    rcases Nat.mod_two_eq_zero_or_one (byteAt query 2) with hflag | hflag <;> rw [hflag]
    · exact .inl rfl
    · exact .inr rfl
  generalize UInt8.ofNat (0x80 ||| (byteAt query 2 &&& 1)) = flags at hflags
  -- the twelve bytes of the header, and the copied question behind them
  obtain ⟨a, b, hid⟩ : ∃ a b, query.take 2 = [a, b] := by
    match query, hheader with
    | a :: b :: rest, _ => exact ⟨a, b, rfl⟩
  have hsection : ((query.take q.end).drop 12).length = q.end - 12 := by
    rw [length_drop, length_take]
    omega
  rw [hid]
  generalize hfront : [a, b] ++ [flags, 0x80] ++ be16 1 ++
    be16 addresses.length ++ [0, 0, 0, 0] ++ (query.take q.end).drop 12 = front
  have hlength : front.length = q.end := by
    rw [← hfront, length_append, hsection]
    show 12 + (q.end - 12) = q.end
    omega
  have hflag : byteAt front 2 = flags.toNat := hfront ▸ rfl
  have hquestions : byteAt front 4 = 0 ∧ byteAt front 5 = 1 := hfront ▸ ⟨rfl, rfl⟩
  have hanswers : byteAt front 6 = (UInt8.ofNat (addresses.length / 256)).toNat ∧
      byteAt front 7 = (UInt8.ofNat addresses.length).toNat := hfront ▸ ⟨rfl, rfl⟩
  have hothers : byteAt front 8 = 0 ∧ byteAt front 9 = 0 ∧ byteAt front 10 = 0 ∧
      byteAt front 11 = 0 := hfront ▸ ⟨rfl, rfl, rfl, rfl⟩
  have hrecords := recordsAt_answers ttl addresses (by omega : 12 < front.length) httl
  rw [hlength] at hrecords
  have hbyte : ∀ i, i < q.end →
      byteAt (front ++ addresses.flatMap (answerRecord ttl)) i = byteAt front i := fun i hi =>
    byteAt_append_left (by omega)
  have hagree : Agree query (front ++ addresses.flatMap (answerRecord ttl)) 12 (q.end - 4) := by
    intro i hi hi'
    rw [hbyte i (by omega), ← hfront, byteAt_append_right (by show 12 ≤ i; exact hi), byteAt_drop]
    show byteAt (query.take q.end) (12 + (i - 12)) = _
    rw [Nat.add_sub_cancel' hi, byteAt_take (by omega)]
  refine ⟨?_, ?_, ?_, ?_, ?_, q.end - 4, ?_, ?_, ?_⟩
  · rw [length_append]
    omega
  · rw [hbyte 2 (by omega), hflag]
    rcases hflags with rfl | rfl <;> decide
  · rw [hbyte 2 (by omega), hflag]
    rcases hflags with rfl | rfl <;> decide
  · unfold u16At
    rw [hbyte 4 (by omega), hbyte 5 (by omega), hquestions.1, hquestions.2]
  · unfold recordCount u16At
    rw [hbyte 6 (by omega), hbyte 7 (by omega), hbyte 8 (by omega), hbyte 9 (by omega),
      hbyte 10 (by omega), hbyte 11 (by omega), length_map, hanswers.1, hanswers.2,
      byteAt_ofNat, byteAt_ofNat]
    omega
  · exact skipDnsName_congr hname hagree (by rw [length_append]; omega)
  · rw [length_append]
    omega
  · rw [Nat.sub_add_cancel (by omega)]
    exact hrecords

end Dns
