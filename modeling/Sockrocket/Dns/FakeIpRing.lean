import Sockrocket.Dns.FakeIp
import Sockrocket.Lib.SlotRing

/-!
# The pool as a ring of slots

What the pool is for, without its tables: domains take the host offsets of a ring in turn, and a
full ring lets go of its oldest domain. `Refines` ties the two hash maps, the queue and the cursor
to such a ring. `refines_allocate` is the step: an allocation of the code is an assignment on the
ring, and the second removal path of the code, for an address still in use, is never taken.
-/

namespace FakeIp

open Rust List

instance : NeZero maxEntries :=
  ⟨by decide⟩

/-- Domains on the host offsets of the pool. -/
abbrev Ring := SlotRing Str maxEntries

/-- The address of a live domain. -/
def ringAddress (ring : Ring) (domain : Str) : Ipv4Addr :=
  fakeAddress (firstHostOffset + ring.slot domain)

/-- The domain is live and has the address. -/
def Bound (ring : Ring) (domain : Str) (ip : Ipv4Addr) : Prop :=
  domain ∈ ring.live ∧ ip = ringAddress ring domain

/-- The pool's tables, queue and cursor are those of the ring. -/
structure Refines (inner : Inner) (ring : Ring) : Prop where
  next : inner.next = firstHostOffset + ring.cursor
  order : inner.order = ring.live
  byDomain : ∀ domain ip, inner.byDomain.lookup domain = some ip ↔ Bound ring domain ip
  byIp : ∀ domain ip, inner.byIp.lookup ip = some domain ↔ Bound ring domain ip
  lower : ∀ domain ∈ ring.live, toAsciiLowercase domain = domain

/-! ## Lookups in a changed map -/

section Lookup

variable {α β : Type} [DecidableEq α]

variable {map : Finmap fun _ : α => β} {a x : α} {v : β}

theorem lookup_erase_eq_some :
    (map.erase a).lookup x = some v ↔ x ≠ a ∧ map.lookup x = some v := by
  by_cases h : x = a
  · subst h
    simp
  · rw [Finmap.lookup_erase_ne h]
    simp [h]

theorem lookup_insert_eq_some {w : β} :
    (map.insert a w).lookup x = some v ↔
      (x = a ∧ v = w) ∨ (x ≠ a ∧ map.lookup x = some v) := by
  by_cases h : x = a
  · subst h
    simp [eq_comm]
  · rw [Finmap.lookup_insert_of_ne _ h]
    simp [h]

end Lookup

/-! ## Addresses on the ring -/

variable {ring : Ring} {domain : Str}

theorem offset_lt (h : domain ∈ ring.live) :
    firstHostOffset + ring.slot domain < 65536 := by
  have hle := SlotRing.slot_le h
  unfold firstHostOffset maxEntries at *
  omega

theorem isFakeIp_ringAddress (h : domain ∈ ring.live) :
    isFakeIp (ringAddress ring domain) :=
  isFakeIp_fakeAddress (offset_lt h)

variable {ip : Ipv4Addr}

/-- A live domain is determined by its address. -/
theorem Bound.unique {domain' : Str} (h : Bound ring domain ip)
    (h' : Bound ring domain' ip) : domain = domain' := by
  have heq := fakeAddress_inj (offset_lt h.1) (offset_lt h'.1) (h.2.symm.trans h'.2)
  exact SlotRing.slot_inj h.1 h'.1 (Nat.add_left_cancel heq)

/-- The address under the cursor is not in use. -/
theorem not_bound_cursor :
    ¬ Bound ring domain (fakeAddress (firstHostOffset + ring.cursor)) := by
  intro h
  have hle := ring.cursor_le
  have hlt : firstHostOffset + ring.cursor < 65536 := by
    unfold firstHostOffset maxEntries at *
    omega
  have heq := fakeAddress_inj hlt (offset_lt h.1) h.2
  exact SlotRing.slot_ne_cursor h.1 (Nat.add_left_cancel heq).symm

theorem bound_evict :
    Bound ring.evict domain ip ↔ domain ∈ ring.evict.live ∧ Bound ring domain ip := by
  constructor
  · rintro ⟨hlive, rfl⟩
    refine ⟨hlive, SlotRing.mem_of_mem_evict hlive, ?_⟩
    rw [ringAddress, SlotRing.slot_evict hlive, ringAddress]
  · rintro ⟨hlive, -, rfl⟩
    refine ⟨hlive, ?_⟩
    rw [ringAddress, ringAddress, SlotRing.slot_evict hlive]

theorem bound_push {new : Str} (hnew : new ∉ ring.live)
    (hroom : ring.live.length < maxEntries) :
    Bound (ring.push new hnew hroom) domain ip ↔
      (domain = new ∧ ip = fakeAddress (firstHostOffset + ring.cursor)) ∨
        (domain ≠ new ∧ Bound ring domain ip) := by
  by_cases heq : domain = new
  · subst heq
    have hmem : domain ∈ (ring.push domain hnew hroom).live :=
      mem_append_right _ (mem_singleton.mpr rfl)
    simp [Bound, ringAddress, SlotRing.slot_push_self, hmem]
  · have hmem : domain ∈ (ring.push new hnew hroom).live ↔ domain ∈ ring.live := by
      show domain ∈ ring.live ++ [new] ↔ _
      simp [heq]
    simp only [Bound, hmem, heq, false_and, false_or, ne_eq, not_false_eq_true, true_and]
    refine and_congr_right fun hlive => ?_
    rw [ringAddress, SlotRing.slot_push_of_mem hnew hroom hlive, ringAddress]

/-! ## The steps of an allocation -/

theorem refines_new : Refines Inner.new SlotRing.empty where
  next := rfl
  order := rfl
  byDomain domain ip := by
    simp [Inner.new, Bound, SlotRing.empty]
  byIp domain ip := by
    simp [Inner.new, Bound, SlotRing.empty]
  lower domain h := by cases h

section Refinement

variable {inner : Inner} {ring : Ring}

section

variable (h : Refines inner ring)

include h

theorem Refines.mem_iff (domain : Str) :
    domain ∈ inner.byDomain ↔ domain ∈ ring.live := by
  rw [Finmap.mem_iff]
  constructor
  · rintro ⟨ip, hip⟩
    exact ((h.byDomain domain ip).mp hip).1
  · intro hlive
    exact ⟨_, (h.byDomain domain _).mpr ⟨hlive, rfl⟩⟩

theorem Refines.len : inner.len = ring.live.length := by
  have hkeys : inner.byDomain.keys = ring.live.toFinset := by
    ext domain
    rw [Finmap.mem_keys, h.mem_iff, mem_toFinset]
  rw [Inner.len, hkeys, toFinset_card_of_nodup ring.nodup]

theorem refines_evictOldest :
    Refines inner.evictOldest ring.evict := by
  have hlower : ∀ domain ∈ ring.evict.live, toAsciiLowercase domain = domain :=
    fun domain hmem => h.lower domain (SlotRing.mem_of_mem_evict hmem)
  have hkept : ring.evict.live = ring.kept := rfl
  unfold Inner.evictOldest
  rw [h.len, h.order]
  by_cases hfull : maxEntries ≤ ring.live.length
  · rw [if_pos hfull]
    rw [SlotRing.kept, if_neg (by omega)] at hkept
    cases hlive : ring.live with
    | nil =>
      rw [hlive] at hfull
      exact absurd hfull (by decide)
    | cons oldest rest =>
      have hmem : oldest ∈ ring.live := hlive ▸ mem_cons_self
      have hlookup := (h.byDomain oldest _).mpr ⟨hmem, rfl⟩
      rw [hlive, tail_cons] at hkept
      have hnodup := ring.nodup
      rw [hlive, nodup_cons] at hnodup
      -- what stays is bound as before, and is not the oldest domain
      have hstay : ∀ domain ip, Bound ring.evict domain ip ↔
          domain ≠ oldest ∧ Bound ring domain ip := by
        intro domain ip
        rw [bound_evict, hkept]
        refine and_congr_left fun hbound => ?_
        have hcases := hbound.1
        rw [hlive, mem_cons] at hcases
        constructor
        · intro hrest heq
          exact hnodup.1 (heq ▸ hrest)
        · intro hne
          exact hcases.resolve_left hne
      simp only [hlookup]
      refine ⟨h.next, hkept.symm, fun domain ip => ?_, fun domain ip => ?_, hlower⟩
      · rw [hstay, lookup_erase_eq_some, h.byDomain]
      · rw [hstay, lookup_erase_eq_some, h.byIp]
        refine and_congr_left fun hbound => not_congr ?_
        constructor
        · intro heq
          exact hbound.unique ⟨hmem, heq⟩
        · rintro rfl
          exact hbound.2
  · rw [if_neg hfull]
    rw [SlotRing.kept, if_pos (by omega)] at hkept
    have hstay : ∀ domain ip, Bound ring.evict domain ip ↔ Bound ring domain ip := by
      intro domain ip
      rw [bound_evict, hkept]
      exact and_iff_right_of_imp fun hbound => hbound.1
    refine ⟨h.next, h.order.trans hkept.symm, fun domain ip => ?_, fun domain ip => ?_, hlower⟩
    · rw [hstay, h.byDomain]
    · rw [hstay, h.byIp]

/-- The address under the cursor is free, so nothing stale is dropped. -/
theorem dropStale_cursor :
    inner.advance.dropStale (fakeAddress inner.next) = inner.advance := by
  have hnone : inner.byIp.lookup (fakeAddress inner.next) = none := by
    rw [Option.eq_none_iff_forall_ne_some]
    intro domain hdomain
    rw [h.byIp, h.next] at hdomain
    exact not_bound_cursor hdomain
  have hadvance : inner.advance.byIp.lookup (fakeAddress inner.next) = none := hnone
  rw [Inner.dropStale, hadvance]

theorem next_advance :
    inner.advance.next = firstHostOffset + ring.advance := by
  show (if maxEntries + firstHostOffset ≤ inner.next then firstHostOffset else inner.next + 1) = _
  unfold SlotRing.advance
  rw [h.next]
  by_cases hend : maxEntries ≤ ring.cursor
  · rw [if_pos hend, if_pos (by omega)]
    rfl
  · rw [if_neg hend, if_neg (by omega)]
    omega

theorem refines_assignNext {domain : Str} (hnew : domain ∉ ring.live)
    (hroom : ring.live.length < maxEntries) (hlower : toAsciiLowercase domain = domain) :
    Refines (inner.assignNext domain).2 (ring.push domain hnew hroom) := by
  unfold Inner.assignNext
  rw [dropStale_cursor h]
  refine ⟨next_advance h, ?_, fun other ip => ?_, fun other ip => ?_, fun other hother => ?_⟩
  · show inner.order ++ [domain] = ring.live ++ [domain]
    rw [h.order]
  · show (inner.byDomain.insert domain (fakeAddress inner.next)).lookup other = some ip ↔ _
    rw [lookup_insert_eq_some, bound_push, h.byDomain, h.next]
  · show (inner.byIp.insert (fakeAddress inner.next) domain).lookup ip = some other ↔ _
    rw [lookup_insert_eq_some, bound_push, h.byIp, h.next, and_comm]
    refine or_congr_right ?_
    constructor
    · rintro ⟨-, hbound⟩
      exact ⟨fun heq => hnew (heq ▸ hbound.1), hbound⟩
    · rintro ⟨-, hbound⟩
      exact ⟨fun heq => not_bound_cursor (heq ▸ hbound), hbound⟩
  · rcases mem_append.mp hother with hlive | hself
    · exact h.lower other hlive
    · rw [mem_singleton.mp hself, hlower]

/-- An allocation is an assignment on the ring. -/
theorem refines_allocate (name : Str) :
    Refines (inner.allocate name).2 (ring.assign (toAsciiLowercase name)) := by
  unfold Inner.allocate SlotRing.assign
  cases hlookup : inner.byDomain.lookup (toAsciiLowercase name) with
  | some ip =>
    have hlive := ((h.byDomain _ _).mp hlookup).1
    simpa [hlive] using h
  | none =>
    have hlive : toAsciiLowercase name ∉ ring.live := by
      rw [← h.mem_iff, ← Finmap.lookup_eq_none]
      exact hlookup
    simp only [hlive, dif_neg, not_false_eq_true]
    exact refines_assignNext (refines_evictOldest h) _ _ (toAsciiLowercase_idem name)

end

/-- The allocated address is bound to the domain afterwards. -/
theorem lookup_allocate (inner : Inner) (name : Str) :
    (inner.allocate name).2.byDomain.lookup (toAsciiLowercase name) =
      some (inner.allocate name).1 := by
  unfold Inner.allocate
  cases hlookup : inner.byDomain.lookup (toAsciiLowercase name) with
  | some ip => exact hlookup
  | none => exact Finmap.lookup_insert _

theorem bound_allocate (h : Refines inner ring) (name : Str) :
    Bound (ring.assign (toAsciiLowercase name)) (toAsciiLowercase name) (inner.allocate name).1 :=
  ((refines_allocate h name).byDomain _ _).mp (lookup_allocate inner name)

end Refinement

end FakeIp
