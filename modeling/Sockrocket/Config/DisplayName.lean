import Sockrocket.Proxy.Bytes

/-!
# Display names

`decode_display_name` decodes percent escapes up to three times, between a substitution of `+` and a
trim. An escape that decodes takes bytes away, so a second pass gives the same name exactly when there
is nothing left to do in it: no `+`, and no escape that still decodes.

`urlencoding::decode` leaves an escape without two hexadecimal digits as it is, and fails if the bytes
it decodes to are not UTF-8.
-/

namespace Sockrocket.DisplayName

open Rust Dns
open List hiding utf8Encode

def fromHexDigit (digit : UInt8) : Option UInt8 :=
  if 48 ≤ digit ∧ digit ≤ 57 then some (digit - 48)
  else if 65 ≤ digit ∧ digit ≤ 70 then some (digit - 55)
  else if 97 ≤ digit ∧ digit ≤ 102 then some (digit - 87)
  else none

def decodeBinary : Bytes → Bytes
  | [] => []
  | [b] => [b]
  | [b, c] => [b, c]
  | b :: first :: second :: rest =>
    if b = 37 then
      match fromHexDigit first, fromHexDigit second with
      | some high, some low => (high <<< 4 ||| low) :: decodeBinary rest
      | _, _ => b :: decodeBinary (first :: second :: rest)
    else b :: decodeBinary (first :: second :: rest)

/-- `urlencoding::decode`. -/
def decode (data : Str) : Option Str :=
  fromUtf8 (decodeBinary (utf8Encode data))

/-- The loop of `decode_display_name`. -/
def decodeTurns : Nat → Str → Str
  | 0, decoded => decoded
  | turns + 1, decoded =>
    match decode decoded with
    | some next => if next ≠ decoded then decodeTurns turns next else decoded
    | none => decoded

def decodeDisplayName (value : Str) : Str :=
  trim (decodeTurns 3 (value.map fun c => if c = '+' then ' ' else c))

/-- `normalize_node_names` on the names of the nodes. -/
def normalizeNodeNames (names : List Str) : Bool × List Str :=
  (names.any fun name => decodeDisplayName name ≠ name, names.map decodeDisplayName)

/-! ## What decoding takes away -/

theorem decodeBinary_spec (data : Bytes) :
    decodeBinary data = data ∨ (decodeBinary data).length < data.length := by
  fun_induction decodeBinary data with
  | case1 | case2 | case3 => exact .inl rfl
  | case4 first second rest high low _ _ ih =>
    refine .inr ?_
    rw [length_cons, length_cons, length_cons, length_cons]
    rcases ih with heq | hlt
    · rw [heq]
      omega
    · omega
  | case5 _ _ _ _ ih | case6 _ _ _ _ _ ih =>
    exact ih.imp (congrArg _) Nat.succ_lt_succ

theorem utf8Encode_of_utf8DecodeFrom {turns : Nat} {data : Bytes} {s : Str}
    (h : utf8DecodeFrom turns data = some s) : utf8Encode s = data := by
  induction turns generalizing data s with
  | zero =>
    cases data with
    | nil =>
      obtain rfl := Option.some.inj h
      rfl
    | cons => cases h
  | succ turns ih =>
    cases data with
    | nil =>
      obtain rfl := Option.some.inj h
      rfl
    | cons b rest =>
      rw [utf8DecodeFrom] at h
      split at h
      · rename_i htaken
        obtain ⟨tail, htail, rfl⟩ := Option.map_eq_some_iff.mp h
        rw [utf8Encode, flatMap_cons, htaken, ← utf8Encode, ih htail, take_append_drop]
      · cases h

theorem utf8Encode_injective : Function.Injective utf8Encode := by
  intro s t h
  have hbytes : s.utf8Encode = t.utf8Encode := congrArg List.toByteArray h
  have harrays : some s.toArray = some t.toArray := by
    rw [← utf8Decode?_utf8Encode, ← utf8Decode?_utf8Encode, hbytes]
  exact congrArg Array.toList (Option.some.inj harrays)

/-- A name that decodes to another gets shorter. -/
theorem len_decode {s t : Str} (h : decode s = some t) (hne : t ≠ s) : len t < len s := by
  have hbytes := utf8Encode_of_utf8DecodeFrom h
  rw [← length_utf8Encode, ← length_utf8Encode, hbytes]
  refine (decodeBinary_spec (utf8Encode s)).resolve_left fun heq => hne ?_
  exact utf8Encode_injective (hbytes.trans heq)

theorem decodeTurns_spec (turns : Nat) (s : Str) :
    decodeTurns turns s = s ∨ len (decodeTurns turns s) < len s := by
  induction turns generalizing s with
  | zero => exact .inl rfl
  | succ turns ih =>
    rw [decodeTurns]
    split
    · rename_i next hnext
      split
      · rename_i hne
        have hlt := len_decode hnext hne
        rcases ih next with heq | hlt'
        · rw [heq]
          exact .inr hlt
        · exact .inr (hlt'.trans hlt)
      · exact .inl rfl
    · exact .inl rfl

theorem trim_sublist (s : Str) : trim s <+ s :=
  ( rdropWhile_prefix _ _).sublist.trans (dropWhile_suffix _).sublist

theorem len_trim_le (s : Str) : len (trim s) ≤ len s :=
  ((trim_sublist s).map _).sum_le_sum fun _ _ => Nat.zero_le _

theorem len_spaces (s : Str) : len (s.map fun c => if c = '+' then ' ' else c) = len s := by
  rw [len, len, map_map]
  refine congrArg sum (map_congr_left fun c _ => ?_)
  rw [Function.comp_apply]
  split
  · rename_i hplus
    rw [hplus]
    rfl
  · rfl

/-! ## The second pass -/

/-- There is nothing left to decode. -/
def Settled (name : Str) : Prop :=
  '+' ∉ name ∧ (decode name = none ∨ decode name = some name)

variable {name : Str}

theorem spaces_eq_self_iff :
    (name.map fun c => if c = '+' then ' ' else c) = name ↔ '+' ∉ name := by
  nth_rewrite 2 [← map_id name]
  refine map_eq_map_iff.trans ⟨fun h hplus => ?_, fun h c hc => if_neg fun hplus => ?_⟩
  · exact absurd (h '+' hplus) (by decide)
  · exact h (hplus ▸ hc)

theorem decodeTurns_eq_self_iff {n : Nat} :
    decodeTurns (n + 1) name = name ↔ decode name = none ∨ decode name = some name := by
  rw [decodeTurns]
  cases hdecode : decode name with
  | none => simp
  | some next =>
    dsimp only
    by_cases hnext : next = name
    · simp [hnext]
    · rw [if_pos hnext]
      have hlt := len_decode hdecode hnext
      have hle : len (decodeTurns n next) ≤ len next := by
        rcases decodeTurns_spec n next with heq | hless
        · rw [heq]
        · exact hless.le
      refine iff_of_false (fun heq => ?_) (by simpa using hnext)
      rw [heq] at hle
      omega

theorem decodeDisplayName_eq_self_iff (htrim : trim name = name) :
    decodeDisplayName name = name ↔ Settled name := by
  rw [Settled, ← spaces_eq_self_iff, ← decodeTurns_eq_self_iff (n := 2), decodeDisplayName]
  refine ⟨fun h => ?_, fun ⟨hspaces, hturns⟩ => by rw [hspaces, hturns, htrim]⟩
  set spaced := name.map fun c => if c = '+' then ' ' else c with hspaced
  -- the name keeps its length, so neither the loop nor the trim has taken anything away
  have hturns : decodeTurns 3 spaced = spaced := by
    refine (decodeTurns_spec 3 spaced).resolve_right fun hlt => ?_
    have hle := len_trim_le (decodeTurns 3 spaced)
    rw [h, ← len_spaces name, ← hspaced] at hle
    omega
  rw [hturns] at h
  have hsame : spaced = name := by
    rw [← h]
    exact ((trim_sublist spaced).eq_of_length (by rw [h, hspaced, length_map])).symm
  rw [hsame] at hturns
  exact ⟨hsame, hturns⟩

end Sockrocket.DisplayName
