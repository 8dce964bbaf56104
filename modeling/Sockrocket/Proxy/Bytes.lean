import Sockrocket.Dns.Wire
import Sockrocket.Lib.Slice

/-!
# Bytes of the proxy protocols

Numbers of two bytes at places in a message, and the bytes of an address.
-/

namespace Sockrocket

open Rust Dns Slice
open List hiding utf8Encode

variable {x : Bytes} {i : Nat}

theorem byteAt_append (hi : i < x.length) (t : Bytes) :
    byteAt (x ++ t) i = byteAt x i := by
  rw [byteAt, byteAt, getD_append _ _ _ _ hi]

theorem u16At_append (hi : i + 1 < x.length) (t : Bytes) :
    u16At (x ++ t) i = u16At x i := by
  rw [u16At, u16At, byteAt_append (by omega), byteAt_append hi]

theorem byteAt_append_right (x t : Bytes) (i : Nat) : byteAt (x ++ t) (x.length + i) = byteAt t i := by
  rw [byteAt, byteAt, getD_append_right _ _ _ _ (Nat.le_add_right _ _), Nat.add_sub_cancel_left]

theorem u16At_append_right (x t : Bytes) (i : Nat) : u16At (x ++ t) (x.length + i) = u16At t i := by
  rw [u16At, u16At, add_assoc, byteAt_append_right, byteAt_append_right]

/-- `u16::from_be_bytes` of two elements that are there. -/
def u16Read (bytes : Bytes) (pos : Nat) : Read Nat := do
  let high ← index bytes pos
  let low ← index bytes (pos + 1)
  pure (high.toNat * 256 + low.toNat)

theorem u16Read_of_lt {bytes : Bytes} {pos : Nat} (h : pos + 1 < bytes.length) :
    u16Read bytes pos = .ok (u16At bytes pos) := by
  have hbyte {i : Nat} (hi : i < bytes.length) : bytes[i].toNat = byteAt bytes i := by
    rw [byteAt, getD_eq_getElem _ _ hi]
  rw [u16Read, index_of_lt (by omega), index_of_lt h]
  show Except.ok _ = _
  rw [hbyte, hbyte, u16At]

theorem length_utf8Encode (s : Str) : (utf8Encode s).length = len s := by
  rw [utf8Encode, len, length_flatMap]
  exact congrArg sum (map_congr_left fun c _ => String.length_utf8EncodeChar c)

theorem len_le (s : Str) : len s ≤ 4 * s.length := by
  induction s with
  | nil => exact Nat.le_refl 0
  | cons c s ih =>
    have hc := c.utf8Size_le_four
    rw [len] at ih
    rw [len, map_cons, sum_cons, length_cons]
    omega

/-- `Ipv6Addr::octets`. -/
def ipv6Octets (ip : Ipv6Addr) : Bytes :=
  ip.segments.flatMap be16

theorem length_ipv6Octets (ip : Ipv6Addr) : (ipv6Octets ip).length = 16 := by
  rw [ipv6Octets, segments_eq]
  rfl

end Sockrocket
