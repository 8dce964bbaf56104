import Sockrocket.Rust.Text

/-!
# YAML values

`serde_yaml::Value` with the accessors the configuration code calls, and the readers that
`#[derive(Deserialize)]` gives for the types it uses. A reader looks through tags. Where a sequence
or a record is expected, null stands for an empty one. Messages of failed readers are left out.
-/

namespace Rust

open List

/-- `serde_yaml::Number`. A float is kept as its bits. -/
inductive YamlNumber where
  | int (value : Int)
  | float (bits : Nat)
deriving DecidableEq, Repr

/-- `serde_yaml::Value`. -/
inductive Yaml where
  | null
  | bool (value : Bool)
  | number (value : YamlNumber)
  | string (text : Str)
  | sequence (items : List Yaml)
  | mapping (entries : List (Yaml × Yaml))
  | tagged (tag : Str) (value : Yaml)

/-- `serde_yaml::Mapping`: the entries in order. -/
abbrev YamlMapping := List (Yaml × Yaml)

namespace Yaml

/-- The value below its tags. -/
def untag : Yaml → Yaml
  | tagged _ value => untag value
  | value => value

/-- The value is the string itself. -/
def isKey (key : Str) : Yaml → Bool
  | string text => text == key
  | _ => false

/-- `Value::as_str`. -/
def asStr (value : Yaml) : Option Str :=
  match value.untag with
  | string text => some text
  | _ => none

/-- `Value::as_bool`. -/
def asBool (value : Yaml) : Option Bool :=
  match value.untag with
  | bool b => some b
  | _ => none

/-- An integer in a range, as the reader of a fixed-width integer takes it. -/
def asInt (low high : Int) (value : Yaml) : Option Int :=
  match value.untag with
  | number (.int n) => if low ≤ n ∧ n ≤ high then some n else none
  | _ => none

/-- Read a sequence item by item. -/
def decodeSeq {α : Type} (decode : Yaml → Option α) (value : Yaml) : Option (List α) :=
  match value.untag with
  | sequence items => items.mapM decode
  | null => some []
  | _ => none

/-- The fields of a record. A key that is not a string is an error. -/
def decodeFields (value : Yaml) : Option YamlMapping :=
  match value.untag with
  | mapping entries =>
    if entries.all (fun entry => entry.1 matches string _) then some entries else none
  | null => some []
  | _ => none

end Yaml

namespace YamlMapping

/-- `Mapping::get` with a string key. -/
def get (map : YamlMapping) (key : Str) : Option Yaml :=
  (map.find? fun entry => entry.1.isKey key).map Prod.snd

/-- `Mapping::insert` with a string key: in place, or behind the other entries. -/
def insert : YamlMapping → Str → Yaml → YamlMapping
  | [], key, value => [(.string key, value)]
  | entry :: rest, key, value =>
    if entry.1.isKey key then (entry.1, value) :: rest else entry :: insert rest key value

/-- `Mapping::remove` with a string key. The library moves the last entry into the gap; no reader
depends on the order of entries. -/
def remove (map : YamlMapping) (key : Str) : YamlMapping :=
  map.filter fun entry => !entry.1.isKey key

/-- A required field of a record. -/
def field {α : Type} (map : YamlMapping) (key : Str) (decode : Yaml → Option α) : Option α :=
  (map.get key).bind decode

/-- A field of a record with a default. -/
def fieldOr {α : Type} (map : YamlMapping) (key : Str) (absent : α) (decode : Yaml → Option α) :
    Option α :=
  match map.get key with
  | none => some absent
  | some value => decode value

end YamlMapping

/-! ## Reading sequences -/

/-- A sequence is read if each item is. -/
theorem mapM_eq_some {α β : Type} {decode : α → Option β} {items : List α} {values : List β} :
    items.mapM decode = some values ↔
      List.Forall₂ (fun item value => decode item = some value) items values := by
  induction items generalizing values with
  | nil =>
    rw [mapM_nil, forall₂_nil_left_iff]
    exact ⟨fun h => (Option.some.inj h).symm, fun h => h ▸ rfl⟩
  | cons item items ih =>
    rw [mapM_cons, forall₂_cons_left_iff]
    simp only [Option.bind_eq_bind, Option.bind_eq_some_iff, ih]
    constructor
    · rintro ⟨value, hvalue, rest, hrest, h⟩
      exact ⟨value, rest, hvalue, hrest, (Option.some.inj h).symm⟩
    · rintro ⟨value, rest, hvalue, hrest, rfl⟩
      exact ⟨value, hvalue, rest, hrest, rfl⟩

/-- Every value of a sequence that was read comes from one item. -/
theorem exists_decode_of_mem_decodeSeq {α : Type} {decode : Yaml → Option α} {value : Yaml}
    {values : List α} (h : value.decodeSeq decode = some values) {x : α} (hx : x ∈ values) :
    ∃ item, decode item = some x := by
  unfold Yaml.decodeSeq at h
  split at h
  · have hitems := mapM_eq_some.mp h
    obtain ⟨i, hi, rfl⟩ := getElem_of_mem hx
    exact ⟨_, hitems.get (hitems.length_eq ▸ hi) hi⟩
  · obtain rfl := Option.some.inj h
    cases hx
  · cases h

/-! ## Lookups after a change -/

namespace YamlMapping

theorem get_cons (entry : Yaml × Yaml) (rest : YamlMapping) (key : Str) :
    get (entry :: rest) key = if entry.1.isKey key then some entry.2 else get rest key := by
  unfold get
  rw [find?_cons]
  cases entry.1.isKey key <;> rfl

theorem isKey_string (key key' : Str) : (Yaml.string key).isKey key' = (key == key') := rfl

variable {key key' : Str}

theorem not_isKey {value : Yaml} (h : value.isKey key) (hne : key' ≠ key) :
    value.isKey key' = false := by
  cases value with
  | string text =>
    obtain rfl : text = key := eq_of_beq h
    exact beq_false_of_ne hne.symm
  | null | bool | number | sequence | mapping | tagged => rfl

@[simp]
theorem get_insert_self (map : YamlMapping) (key : Str) (value : Yaml) :
    (map.insert key value).get key = some value := by
  induction map with
  | nil => rw [insert, get_cons, isKey_string, if_pos (beq_self_eq_true key)]
  | cons entry rest ih =>
    rw [insert]
    split
    · rename_i hkey
      rw [get_cons, if_pos hkey]
    · rename_i hkey
      rw [get_cons, if_neg hkey, ih]

theorem get_insert_of_ne (map : YamlMapping) (value : Yaml) (h : key' ≠ key) :
    (map.insert key value).get key' = map.get key' := by
  induction map with
  | nil =>
    rw [insert, get_cons, isKey_string, if_neg (by simpa using h.symm)]
  | cons entry rest ih =>
    rw [insert]
    split
    · rename_i hkey
      have hother := not_isKey hkey h
      rw [get_cons, get_cons, hother]
      rfl
    · rw [get_cons, get_cons, ih]

@[simp]
theorem get_remove_self (map : YamlMapping) (key : Str) : (map.remove key).get key = none := by
  unfold get remove
  rw [find?_filter]
  simp

theorem get_remove_of_ne (map : YamlMapping) (h : key' ≠ key) :
    (map.remove key).get key' = map.get key' := by
  induction map with
  | nil => rfl
  | cons entry rest ih =>
    unfold remove at ih ⊢
    rw [filter_cons, get_cons]
    cases hkey : entry.1.isKey key with
    | true =>
      rw [not_isKey hkey h]
      exact ih
    | false =>
      rw [Bool.not_false, if_pos rfl, get_cons, ih]

end YamlMapping

end Rust
