import Sockrocket.Dns.FakeIpStore
import Sockrocket.Lib.Run

/-!
# Runs of the fake-IP pool

The calls a resolver makes on its pool, and restarts on a snapshot, in any order. `pool_integrity`
is what holds after every such run in which each restart finds a pool of words: the tables are
inverse to each other, the queue is the first-in first-out order of the allocations, a binding
leaves the pool only as the oldest of a full one, and an allocated address leads back to its domain
until then. A name with a line feed breaks it through the store (`pool_integrity_line_feed`).
-/

namespace FakeIp

open Rust Transition List

/-- A call with its answer, or a restart on the snapshot of the pool. -/
inductive PoolEvent where
  | allocate (name : Str) (ip : Ipv4Addr)
  | allocateV6 (name : Str) (ip : Ipv6Addr)
  | lookup (ip : Ipv4Addr) (domain : Option Str)
  | recordDomestic (ip : IpAddr) (name : Str)
  | lookupDomestic (ip : IpAddr) (domain : Option Str)
  | reload

/-- The domain a call allocates for. -/
def PoolEvent.domain? : PoolEvent → Option Str
  | .allocate name _ => some (toAsciiLowercase name)
  | .allocateV6 name _ => some (toAsciiLowercase name)
  | _ => none

/-- What happens to the pool. -/
inductive PoolStep : Inner → PoolEvent → Inner → Prop where
  | allocate (inner : Inner) (name : Str) :
      PoolStep inner (.allocate name (inner.allocate name).1) (inner.allocate name).2
  | allocateV6 (inner : Inner) (name : Str) :
      PoolStep inner (.allocateV6 name (inner.allocateV6 name).1) (inner.allocateV6 name).2
  | lookup (inner : Inner) (ip : Ipv4Addr) :
      PoolStep inner (.lookup ip (inner.lookup ip)) inner
  | recordDomestic (inner : Inner) (ip : IpAddr) (name : Str) :
      PoolStep inner (.recordDomestic ip name) (inner.recordDomestic ip name)
  | lookupDomestic (inner : Inner) (ip : IpAddr) :
      PoolStep inner (.lookupDomestic ip (inner.lookupDomestic ip)) inner
  | reload (inner : Inner) : PoolStep inner .reload inner.reload

/-- A step that restarts only a pool whose domains are words. -/
def SafeStep (inner : Inner) (event : PoolEvent) (after : Inner) : Prop :=
  PoolStep inner event after ∧ (event = .reload → inner.Storable)

/-! ## What the pool promises -/

/-- The tables, the queue and the range of a pool. -/
structure Inner.Integrity (inner : Inner) : Prop where
  inverse : ∀ domain ip, inner.byDomain.lookup domain = some ip ↔
    inner.byIp.lookup ip = some domain
  inRange : ∀ domain ip, inner.byDomain.lookup domain = some ip →
    isFakeIp ip = true ∧ firstHostOffset ≤ ip.toNat - fakeIpBase
  len_le : inner.len ≤ maxEntries
  order_nodup : inner.order.Nodup
  mem_order : ∀ domain, domain ∈ inner.order ↔ domain ∈ inner.byDomain

/-- The event evicts the domain: a new domain comes to a full pool whose oldest domain it is. -/
def Inner.Evicts (inner : Inner) (event : PoolEvent) (domain : Str) : Prop :=
  inner.len = maxEntries ∧ inner.order.head? = some domain ∧
    ∃ new, event.domain? = some new ∧ new ∉ inner.byDomain

/-- The domains allocated for, in order of the calls. -/
def allocations (events : List PoolEvent) : List Str :=
  events.filterMap PoolEvent.domain?

/-- A first-in first-out set of bounded size takes up a domain. -/
def fifoPush (live : List Str) (domain : Str) : List Str :=
  if domain ∈ live then live
  else (if live.length < maxEntries then live else live.tail) ++ [domain]

/-! ## Steps on the ring -/

/-- The ring after an event. -/
def ringStep (ring : Ring) (event : PoolEvent) : Ring :=
  match event.domain? with
  | some domain => ring.assign domain
  | none => ring

theorem live_assign (ring : Ring) (domain : Str) :
    (ring.assign domain).live = fifoPush ring.live domain := by
  unfold SlotRing.assign fifoPush
  split <;> rfl

variable {inner : Inner} {ring : Ring}

theorem Refines.integrity (h : Refines inner ring) :
    inner.Integrity where
  inverse domain ip := by rw [h.byDomain, h.byIp]
  inRange domain ip hlookup := by
    obtain ⟨hlive, rfl⟩ := (h.byDomain domain ip).mp hlookup
    refine ⟨isFakeIp_ringAddress hlive, ?_⟩
    rw [ringAddress, toNat_fakeAddress (offset_lt hlive)]
    omega
  len_le := by
    rw [h.len]
    exact ring.length_le
  order_nodup := by
    rw [h.order]
    exact ring.nodup
  mem_order domain := by rw [h.order, h.mem_iff]

variable {after : Inner}

theorem refines_step {event : PoolEvent} (h : Refines inner ring)
    (hstep : SafeStep inner event after) :
    Refines after (ringStep ring event) := by
  obtain ⟨hstep, hsafe⟩ := hstep
  cases hstep with
  | allocate name | allocateV6 name => exact refines_allocate h name
  | lookup ip => exact h
  | recordDomestic ip name => exact ⟨h.next, h.order, h.byDomain, h.byIp, h.lower⟩
  | lookupDomestic ip => exact h
  | reload => exact refines_reload h (hsafe rfl)

variable {events : List PoolEvent}

theorem refines_run (hrun : Run SafeStep inner events after)
    (h : Refines inner ring) :
    ∃ ring', Refines after ring' ∧
      ring'.live = (allocations events).foldl fifoPush ring.live := by
  induction hrun generalizing ring with
  | refl inner => exact ⟨ring, h, rfl⟩
  | @head inner middle after event events first rest ih =>
    obtain ⟨ring', hring', hlive⟩ := ih (refines_step h first)
    refine ⟨ring', hring', ?_⟩
    rw [hlive]
    unfold ringStep allocations
    cases hdomain : event.domain? with
    | none => rw [filterMap_cons_none hdomain]
    | some domain =>
      rw [filterMap_cons_some hdomain, foldl_cons]
      rw [live_assign]

variable {domain : Str}

/-- A domain stays on the ring unless it is the oldest of a full one. -/
theorem mem_evict_iff (h : domain ∈ ring.live) :
    domain ∈ ring.evict.live ↔
      ¬ (ring.live.length = maxEntries ∧ ring.live.head? = some domain) := by
  have hle := ring.length_le
  show domain ∈ ring.kept ↔ _
  unfold SlotRing.kept
  split
  · rename_i hroom
    have hne : ring.live.length ≠ maxEntries := by omega
    simp [h, hne]
  rename_i hfull
  have heq : ring.live.length = maxEntries := by omega
  cases hlive : ring.live with
  | nil => rw [hlive] at h; cases h
  | cons oldest rest =>
    have hnodup := ring.nodup
    rw [hlive, nodup_cons] at hnodup
    rw [hlive, mem_cons] at h
    rw [hlive] at heq
    simp only [tail_cons, heq, head?_cons, Option.some.injEq, true_and]
    constructor
    · rintro hrest rfl
      exact hnodup.1 hrest
    · intro hne
      exact h.resolve_left fun hold => hne hold.symm

variable {ip : Ipv4Addr}

/-- A live binding survives an event exactly when the event does not evict it. -/
theorem bound_ringStep (h : Refines inner ring)
    (hbound : Bound ring domain ip) (event : PoolEvent) :
    Bound (ringStep ring event) domain ip ↔ ¬ inner.Evicts event domain := by
  unfold ringStep Inner.Evicts
  rw [h.len, h.order]
  cases hdomain : event.domain? with
  | none => simp [hbound]
  | some new =>
    simp only [Option.some.injEq, exists_eq_left', h.mem_iff]
    unfold SlotRing.assign
    by_cases hnew : new ∈ ring.live
    · simp [hnew, hbound]
    have hne : domain ≠ new := fun heq => hnew (heq ▸ hbound.1)
    simp only [hnew, dif_neg, not_false_eq_true, and_true]
    rw [bound_push, bound_evict, mem_evict_iff hbound.1]
    simp [hne, hbound]

theorem lookup_of_bound (h : Refines inner ring)
    (hbound : Bound ring domain ip) : inner.lookup ip = some domain := by
  have hfake : isFakeIp ip := hbound.2 ▸ isFakeIp_ringAddress hbound.1
  rw [Inner.lookup, if_pos hfake]
  exact (h.byIp domain ip).mpr hbound

/-- A binding that no step of a run evicts is there at its end. -/
theorem bound_run
    (hrun : Run (fun s event t => SafeStep s event t ∧ ¬ s.Evicts event domain) inner events after)
    (h : ∃ ring, Refines inner ring ∧ Bound ring domain ip) :
    ∃ ring, Refines after ring ∧ Bound ring domain ip := by
  refine hrun.invariant (fun s => ∃ ring, Refines s ring ∧ Bound ring domain ip) h ?_
  intro s event t hs hstep
  obtain ⟨ring, hring, hbound⟩ := hs
  exact ⟨_, refines_step hring hstep.1, (bound_ringStep hring hbound event).mpr hstep.2⟩

/-! ## The pool over whole runs -/

/-- After every run of calls, and of restarts on pools of words: the pool is intact, its queue is
the first-in first-out order of the allocations, one more event drops a binding exactly when it
evicts the oldest domain of a full pool, an allocated address leads back to its domain until that
eviction, and the IPv6 answer stands for the IPv4 one. -/
theorem pool_integrity {events : List PoolEvent} {inner : Inner}
    (hrun : Run SafeStep Inner.new events inner) :
    inner.Integrity ∧
      inner.order = (allocations events).foldl fifoPush [] ∧
      (∀ event after, SafeStep inner event after →
        ∀ domain ip, inner.byDomain.lookup domain = some ip →
          (after.byDomain.lookup domain = some ip ↔ ¬ inner.Evicts event domain)) ∧
      (∀ name later afterwards,
        Run (fun s event t => SafeStep s event t ∧ ¬ s.Evicts event (toAsciiLowercase name))
          (inner.allocate name).2 later afterwards →
        afterwards.lookup (inner.allocate name).1 = some (toAsciiLowercase name)) ∧
      ∀ name, fakeIpv4 (.v6 (inner.allocateV6 name).1) = some (inner.allocate name).1 := by
  obtain ⟨ring, hring, hlive⟩ := refines_run hrun refines_new
  refine ⟨hring.integrity, hring.order.trans hlive, ?_, ?_, ?_⟩
  · intro event after hstep domain ip hlookup
    have hbound := (hring.byDomain domain ip).mp hlookup
    rw [(refines_step hring hstep).byDomain]
    exact bound_ringStep hring hbound event
  · intro name later afterwards hlater
    obtain ⟨ring', hring', hbound⟩ :=
      bound_run hlater ⟨_, refines_allocate hring name, bound_allocate hring name⟩
    exact lookup_of_bound hring' hbound
  · intro name
    have hbound := bound_allocate hring name
    have hfake : isFakeIp (inner.allocate name).1 = true :=
      hbound.2 ▸ isFakeIp_ringAddress hbound.1
    show fakeIpv4 (.v6 (embedV6 (inner.allocate name).1)) = _
    rw [fakeIpv4_embedV6, fakeIpv4, if_pos hfake]

/-- A pool after an allocation and a restart. -/
theorem pool_integrity_restarted :
    (Inner.new.allocate "Example.com".toList).2.Storable ∧
      (Inner.new.allocate "Example.com".toList).2.reload.Integrity := by
  have hstorable : (Inner.new.allocate "Example.com".toList).2.Storable := by decide
  refine ⟨hstorable, (pool_integrity (.head ⟨.allocate Inner.new "Example.com".toList, ?_⟩
    (.head ⟨.reload _, fun _ => hstorable⟩ (.refl _)))).1⟩
  intro hreload
  cases hreload

/-- A name with a line feed moves the cursor at the next restart, and the allocation after that
leaves the range: the address handed out does not lead back to its domain. -/
theorem pool_integrity_line_feed :
    ∃ events inner, Run PoolStep Inner.new events inner ∧ ¬ inner.Integrity ∧
      inner.byDomain.lookup "y".toList = some 0xC6131170#32 ∧
      inner.lookup 0xC6131170#32 = none := by
  refine ⟨_, _, .head (.allocate Inner.new "x\nnext=70000".toList)
    (.head (.reload _) (.head (.allocate _ "y".toList) (.refl _))), ?_, ?_, ?_⟩
  · intro hintegrity
    have hrange := hintegrity.inRange "y".toList 0xC6131170#32 (by decide)
    exact absurd hrange.1 (by decide)
  · decide
  · decide

end FakeIp
