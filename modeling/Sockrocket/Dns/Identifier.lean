import Sockrocket.Dns.AnswerWire

/-!
# Transaction identifiers

The first two bytes of a message are its identifier, and nothing but the comparison of the two
identifiers looks at them. A reply to one query is therefore a reply to every query that differs in
its identifier only, once it carries that identifier (`accepts_setId`).
-/

namespace Dns

open Rust List

/-- `reply[..2].copy_from_slice(&query[..2])`. -/
def setId (query reply : Bytes) : Bytes :=
  query.take 2 ++ reply.drop 2

/-- Two messages of one length that differ in their identifiers only. -/
structure SameBody (data data' : Bytes) : Prop where
  length : data'.length = data.length
  body : data'.drop 2 = data.drop 2

namespace SameBody

variable {data data' : Bytes} (h : SameBody data data')

include h

variable {i : Nat}

theorem byteAt (hi : 2 ≤ i) : byteAt data' i = byteAt data i := by
  obtain ⟨j, rfl⟩ := Nat.exists_eq_add_of_le hi
  rw [← byteAt_drop, ← byteAt_drop, h.body]

theorem u16At (hi : 2 ≤ i) : u16At data' i = u16At data i := by
  unfold Dns.u16At
  rw [h.byteAt hi, h.byteAt (by omega)]

theorem drop (hi : 2 ≤ i) : data'.drop i = data.drop i := by
  obtain ⟨j, rfl⟩ := Nat.exists_eq_add_of_le hi
  rw [← drop_drop, ← drop_drop, h.body]

theorem set (i : Nat) (b : UInt8) (hi : 2 ≤ i) : SameBody (data.set i b) (data'.set i b) := by
  refine ⟨by rw [length_set, length_set, h.length], ?_⟩
  rw [drop_set, drop_set, if_neg (by omega), if_neg (by omega), h.body]

variable {pos : Nat}

theorem skipLabels (start turns : Nat) (hpos : 2 ≤ pos) :
    skipLabels data' start turns pos = skipLabels data start turns pos := by
  induction turns generalizing pos with
  | zero => rfl
  | succ turns ih =>
    unfold Dns.skipLabels
    rw [h.length, h.byteAt hpos, h.byteAt (show 2 ≤ pos + 1 by omega),
      ih (show 2 ≤ pos + 1 + Dns.byteAt data pos by omega)]

theorem skipDnsName (hpos : 2 ≤ pos) :
    skipDnsName data' pos = skipDnsName data pos :=
  h.skipLabels pos 255 hpos

theorem walkRecords (count : Nat) (hpos : 2 ≤ pos) :
    walkRecords data' count pos = walkRecords data count pos := by
  induction count generalizing pos with
  | zero => rfl
  | succ count ih =>
    unfold Dns.walkRecords
    rw [h.skipDnsName hpos]
    cases hname : Dns.skipDnsName data pos with
    | none => rfl
    | some body =>
      have hbody := skipDnsName_bounds hname
      simp only
      rw [h.length, h.u16At (show 2 ≤ body + 8 by omega),
        ih (show 2 ≤ body + 10 + Dns.u16At data (body + 8) by omega)]

theorem validateRecords : validateRecords data' = validateRecords data := by
  unfold Dns.validateRecords recordCount
  rw [h.skipDnsName (by omega), h.u16At (by omega), h.u16At (by omega), h.u16At (by omega),
    h.length]
  cases hname : Dns.skipDnsName data 12 with
  | none => rfl
  | some pos =>
    have hpos := skipDnsName_bounds hname
    simp only
    rw [h.walkRecords _ (show 2 ≤ pos + 4 by omega)]

theorem questionLabels (turns : Nat) (hpos : 2 ≤ pos) :
    questionLabels data' turns pos = questionLabels data turns pos := by
  induction turns generalizing pos with
  | zero => rfl
  | succ turns ih =>
    unfold Dns.questionLabels
    rw [h.length, h.byteAt hpos, h.drop (show 2 ≤ pos + 1 by omega),
      ih (show 2 ≤ pos + 1 + Dns.byteAt data pos by omega)]

theorem question : question data' = question data := by
  unfold Dns.question
  rw [h.length, h.byteAt (le_refl 2), h.u16At (by omega), h.questionLabels 255 (by omega)]
  cases hlabels : Dns.questionLabels data 255 12 with
  | none => rfl
  | some found =>
    obtain ⟨labels, pos⟩ := found
    have hpos := skipDnsName_bounds (skipLabels_of_questionLabels hlabels)
    simp only
    rw [h.u16At (show 2 ≤ pos + 2 by omega), h.u16At (show 2 ≤ pos by omega)]

/-- The reply to one query, with the identifier of the other, is a reply to the other. -/
theorem validateResponse {reply reply' : Bytes} (hreply : SameBody reply reply')
    (hid : reply'.take 2 = data'.take 2) (hvalid : validateResponse data reply) :
    validateResponse data' reply' := by
  unfold Dns.validateResponse at hvalid ⊢
  rw [hreply.length, h.length, hreply.byteAt (le_refl 2), hreply.validateRecords, h.question,
    (hreply.set 2 _ (le_refl 2)).question]
  split at hvalid
  · cases hvalid
  rename_i hheader
  rw [if_neg ?_]
  · exact hvalid
  · intro hbad
    apply hheader
    rcases hbad with hbad | hbad | hbad | hbad
    · exact .inl hbad
    · exact .inr (.inl hbad)
    · exact absurd hid hbad
    · exact .inr (.inr (.inr hbad))

end SameBody

variable {query reply : Bytes}

theorem sameBody_setId (hquery : 2 ≤ query.length)
    (hreply : 2 ≤ reply.length) : SameBody reply (setId query reply) := by
  have htake : (query.take 2).length = 2 := by
    rw [length_take]
    omega
  constructor
  · rw [setId, length_append, htake, length_drop]
    omega
  · exact drop_left' htake

theorem take_setId (hquery : 2 ≤ query.length) :
    (setId query reply).take 2 = query.take 2 := by
  rw [setId, take_append_of_le_length (by rw [length_take]; omega), take_take, Nat.min_self]

/-- A reply that is let through for one query is let through, with the other identifier, for every
query that differs in its identifier only. -/
theorem accepts_setId {query' : Bytes} (h : SameBody query query')
    (haccepts : accepts query reply) : accepts query' (setId query' reply) := by
  unfold accepts at haccepts ⊢
  simp only [Bool.and_eq_true, decide_eq_true_iff] at haccepts ⊢
  obtain ⟨⟨⟨hvalid, hsize⟩, hfailure⟩, hrefused⟩ := haccepts
  have hlong : 12 ≤ query.length ∧ 12 ≤ reply.length := by
    unfold validateResponse at hvalid
    split at hvalid
    · cases hvalid
    · omega
  have hbody : SameBody reply (setId query' reply) :=
    sameBody_setId (by rw [h.length]; omega) (by omega)
  have hrcode : rcode (setId query' reply) = rcode reply := by
    unfold rcode
    rw [hbody.byteAt (by omega)]
  rw [hrcode, hbody.length]
  refine ⟨⟨⟨?_, hsize⟩, hfailure⟩, hrefused⟩
  exact h.validateResponse hbody (take_setId (by rw [h.length]; omega)) hvalid

end Dns
