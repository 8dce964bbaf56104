import Sockrocket.Proxy.Bytes
import Sockrocket.Lib.AsyncIo
import Sockrocket.Lib.Decode

/-!
# TLS records

A record has a header of five bytes, of which the last two are the length of the body.
-/

namespace Sockrocket

open Rust Dns AsyncIo Decode

/-- The first record of a stream, if it is there as a whole and its body is not too short. -/
def takeRecord (least : Nat) (_done : List Bytes) (input : Bytes) : Option (Bytes × Bytes) :=
  let len := u16At input 3
  if least ≤ len ∧ 5 + len ≤ input.length then some (input.take (5 + len), input.drop (5 + len))
  else none

/-- The bytes of one record. -/
structure IsTlsRecord (least : Nat) (record : Bytes) : Prop where
  length_eq : record.length = 5 + u16At record 3
  least_le : least ≤ u16At record 3

variable {least : Nat} {done : List Bytes}

theorem takeRecord_short {input : Bytes} (h : input.length < 5 + u16At input 3) :
    takeRecord least done input = none :=
  if_neg fun hsize => Nat.not_le_of_lt h hsize.2

theorem takeRecord_nil (done : List Bytes) : takeRecord least done [] = none :=
  takeRecord_short (by decide)

theorem takeRecord_record {record : Bytes} (h : IsTlsRecord least record) (more : Bytes) :
    takeRecord least done (record ++ more) = some (record, more) := by
  have hlength := h.length_eq
  have hlen : u16At (record ++ more) 3 = u16At record 3 := u16At_append (by omega) more
  rw [takeRecord, hlen, if_pos ⟨h.least_le, by rw [List.length_append]; omega⟩, ← hlength,
    List.take_left, List.drop_left]

end Sockrocket
