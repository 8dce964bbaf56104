import Mathlib

/-!
# Reading from slices

Accesses to a slice that may fail. `get` and `getRange` are the checked accesses of a parser, which
gives up with `incomplete`; `index` and `slice` are the unchecked ones, whose failure `outOfRange` is
a crash. A parser is a `do` block over these, so two questions about it are answered along the
block: `Safe`, that it never crashes, and `Extends`, that its answer survives more input.
-/

namespace Slice

open List

/-- Why an access fails. -/
inductive Fault where
  | incomplete
  | outOfRange
deriving DecidableEq, Repr

/-- The result of a computation over slices. -/
abbrev Read (β : Type*) :=
  Except Fault β

universe u

variable {α : Type*} {β γ : Type u}

/-- Checked access to one element. -/
def get (s : List α) (i : Nat) : Read α :=
  match s[i]? with
  | some a => .ok a
  | none => .error .incomplete

/-- Checked access to the elements from `a` up to `b`. -/
def getRange (s : List α) (a b : Nat) : Read (List α) :=
  if a ≤ b ∧ b ≤ s.length then .ok ((s.drop a).take (b - a)) else .error .incomplete

/-- Unchecked access to one element. -/
def index (s : List α) (i : Nat) : Read α :=
  match s[i]? with
  | some a => .ok a
  | none => .error .outOfRange

/-- Unchecked access to the elements from `a` up to `b`. -/
def slice (s : List α) (a b : Nat) : Read (List α) :=
  if a ≤ b ∧ b ≤ s.length then .ok ((s.drop a).take (b - a)) else .error .outOfRange

variable {s : List α} {i : Nat}

theorem get_eq_ok {a : α} : get s i = .ok a ↔ s[i]? = some a := by
  unfold get
  cases s[i]? <;> simp

theorem index_of_lt (h : i < s.length) : index s i = .ok s[i] := by
  rw [index, List.getElem?_eq_getElem h]

variable {a b : Nat}

variable {r : List α}

theorem getRange_eq_ok :
    getRange s a b = .ok r ↔ a ≤ b ∧ b ≤ s.length ∧ (s.drop a).take (b - a) = r := by
  unfold getRange
  split <;> rename_i h
  · simp [h]
  · simp only [reduceCtorEq, false_iff]
    exact fun hr => h ⟨hr.1, hr.2.1⟩

theorem slice_of_le (hab : a ≤ b) (hb : b ≤ s.length) :
    slice s a b = .ok ((s.drop a).take (b - a)) :=
  if_pos ⟨hab, hb⟩

theorem length_of_getRange (h : getRange s a b = .ok r) :
    r.length = b - a := by
  obtain ⟨hab, hb, rfl⟩ := getRange_eq_ok.mp h
  rw [length_take, length_drop]
  omega

variable {t : List α}

theorem index_of_drop {a : α} (h : s.drop i = a :: t) :
    index s i = .ok a := by
  have hget : s[i]? = some a := by
    rw [← head?_drop, h, head?_cons]
  rw [index, hget]

theorem index_append (h : i < s.length) (t : List α) :
    index (s ++ t) i = index s i := by
  rw [index, index, List.getElem?_append_left h]

/-- A slice up to the end of the input at most. -/
theorem slice_min (hab : a ≤ b) (ha : a ≤ s.length) :
    slice s a (min b s.length) = .ok ((s.drop a).take (b - a)) := by
  rw [slice_of_le (le_min hab ha) (Nat.min_le_right _ _)]
  refine congrArg Except.ok (take_eq_take_iff.mpr ?_)
  rw [length_drop]
  omega

variable {x : List α}

theorem le_of_drop_append (hi : i ≤ s.length) (h : s.drop i = x ++ t) :
    i + x.length ≤ s.length := by
  have hlength := congrArg length h
  rw [length_drop, length_append] at hlength
  omega

theorem getRange_of_drop {n : Nat} (hi : i ≤ s.length) (h : s.drop i = x ++ t)
    (hn : x.length = n) : getRange s i (i + n) = .ok x := by
  subst hn
  refine getRange_eq_ok.mpr ⟨Nat.le_add_right _ _, le_of_drop_append hi h, ?_⟩
  rw [Nat.add_sub_cancel_left, h, take_left]

theorem slice_of_drop {n : Nat} (hi : i ≤ s.length) (h : s.drop i = x ++ t)
    (hn : x.length = n) : slice s i (i + n) = .ok x := by
  subst hn
  rw [slice_of_le (Nat.le_add_right _ _) (le_of_drop_append hi h), Nat.add_sub_cancel_left, h,
    take_left]

variable {f : β → Read γ}

theorem bind_eq_ok {ε : Type*} {x : Except ε β} {f : β → Except ε γ} {c : γ} :
    x >>= f = .ok c ↔ ∃ b, x = .ok b ∧ f b = .ok c := by
  cases x with
  | error e =>
    constructor
    · intro h
      cases h
    · intro ⟨b, hb, _⟩
      cases hb
  | ok b =>
    constructor
    · intro h
      exact ⟨b, rfl, h⟩
    · intro ⟨b', hb, h⟩
      cases hb
      exact h

/-! ## No crash -/

/-- The computation does not crash. -/
def Safe (x : Read β) : Prop :=
  x ≠ .error .outOfRange

theorem safe_ok (b : β) : Safe (.ok b) :=
  nofun

theorem safe_get (s : List α) (i : Nat) : Safe (get s i) := by
  unfold get Safe
  cases s[i]? <;> simp

theorem safe_getRange (s : List α) (a b : Nat) : Safe (getRange s a b) := by
  unfold getRange Safe
  split <;> simp

theorem safe_index (h : i < s.length) : Safe (index s i) := by
  rw [index_of_lt h]
  exact safe_ok _

theorem safe_slice (hab : a ≤ b) (hb : b ≤ s.length) :
    Safe (slice s a b) := by
  rw [slice_of_le hab hb]
  exact safe_ok _

/-- A sequence of computations crashes in neither part. -/
theorem Safe.bind {x : Read β} (hx : Safe x) (hf : ∀ b, x = .ok b → Safe (f b)) :
    Safe (x >>= f) := by
  cases x with
  | error e => exact fun h => hx (congrArg Except.error (Except.error.inj h))
  | ok b => exact hf b rfl

/-! ## An answer -/

/-- The computation answers. -/
def Returns (x : Read β) : Prop :=
  ∃ b, x = .ok b

theorem returns_ok (b : β) : Returns (.ok b) :=
  ⟨b, rfl⟩

theorem returns_index (h : i < s.length) : Returns (index s i) :=
  ⟨_, index_of_lt h⟩

theorem returns_slice (hab : a ≤ b) (hb : b ≤ s.length) :
    Returns (slice s a b) :=
  ⟨_, slice_of_le hab hb⟩

theorem Returns.bind {x : Read β} (hx : Returns x) (hf : ∀ b, x = .ok b → Returns (f b)) :
    Returns (x >>= f) := by
  obtain ⟨b, rfl⟩ := hx
  exact hf b rfl

/-! ## More input -/

/-- What the first computation answers, the second answers too. -/
def Extends (x y : Read β) : Prop :=
  ∀ b, x = .ok b → y = .ok b

theorem Extends.refl (x : Read β) : Extends x x :=
  fun _ h => h

theorem Extends.bind {x y : Read β} {g : β → Read γ} (hxy : Extends x y)
    (hfg : ∀ b, x = .ok b → Extends (f b) (g b)) : Extends (x >>= f) (y >>= g) := by
  intro c hc
  cases x with
  | error e => cases hc
  | ok b =>
    rw [hxy b rfl]
    exact hfg b rfl c hc

theorem extends_get (h : s <+: t) (i : Nat) : Extends (get s i) (get t i) := by
  intro a ha
  obtain ⟨hi, hget⟩ := List.getElem?_eq_some_iff.mp (get_eq_ok.mp ha)
  obtain ⟨u, rfl⟩ := h
  rw [get_eq_ok, List.getElem?_append_left hi]
  exact get_eq_ok.mp ha

theorem take_drop_of_isPrefix (h : s <+: t) (hb : b ≤ s.length) :
    (s.drop a).take (b - a) = (t.drop a).take (b - a) := by
  obtain ⟨u, rfl⟩ := h
  by_cases hab : a ≤ b
  · rw [drop_append_of_le_length (le_trans hab hb),
      take_append_of_le_length (by rw [length_drop]; omega)]
  · rw [Nat.sub_eq_zero_of_le (by omega), take_zero, take_zero]

theorem extends_getRange (h : s <+: t) (a b : Nat) :
    Extends (getRange s a b) (getRange t a b) := by
  intro r hr
  obtain ⟨hab, hb, rfl⟩ := getRange_eq_ok.mp hr
  exact getRange_eq_ok.mpr ⟨hab, hb.trans h.length_le, (take_drop_of_isPrefix h hb).symm⟩

end Slice
