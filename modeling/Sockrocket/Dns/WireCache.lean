import Sockrocket.Dns.Wire
import Sockrocket.Lib.Lru

/-!
# The cache of wire replies

`WireCache` of `dns/mod.rs`: replies by query, with a count of the bytes they take. The count is kept
by hand beside the cache, and a subtraction that would underflow is `none` here.
`wire_cache_accounting` says that it never does, and that the count is right after every operation.
-/

namespace Dns

open List

/-- The most bytes that keys and replies take together. -/
def wireCacheBytes : Nat := 1024 * 1024

/-- `capacity.clamp(16, 16384)`. -/
def wireCacheSlots (capacity : Nat) : Nat :=
  max 16 (min capacity 16384)

/-- A subtraction of `usize`. -/
def checkedSub (a b : Nat) : Option Nat :=
  if b ≤ a then some (a - b) else none

structure WireCache (ι : Type*) (slots : Nat) where
  entries : LruCache Bytes (Bytes × ι) slots
  bytes : Nat

namespace WireCache

variable {ι : Type*} {slots : Nat}

/-- What an entry adds to `bytes`. -/
def weight (entry : Bytes × Bytes × ι) : Nat :=
  entry.1.length + entry.2.1.length

/-- `WireCache::new`. -/
def new (capacity : Nat) : WireCache ι (wireCacheSlots capacity) :=
  ⟨LruCache.empty, 0⟩

/-- Take out what the key is bound to. -/
def popEntry (cache : WireCache ι slots) (key : Bytes) : Option (WireCache ι slots) :=
  match cache.entries.peek? key with
  | some value =>
    (checkedSub cache.bytes (weight (key, value))).map fun bytes =>
      ⟨cache.entries.erase key, bytes⟩
  | none => some cache

/-- The loop of `put` that makes room. A turn takes out one entry, so the number of entries is enough
turns. -/
def makeRoom (room : Nat) : Nat → WireCache ι slots → Option (WireCache ι slots)
  | 0, cache => some cache
  | turns + 1, cache =>
    if slots ≤ cache.entries.entries.length ∨ wireCacheBytes < cache.bytes + room then
      match cache.entries.popLru with
      | some (entry, entries) =>
        (checkedSub cache.bytes (weight entry)).bind fun bytes =>
          makeRoom room turns ⟨entries, bytes⟩
      | none => some cache
    else some cache

/-- `WireCache::put`. -/
def put (cache : WireCache ι slots) (key reply : Bytes) (expiry : ι) : Option (WireCache ι slots) :=
  if 512 < key.length ∨ 4096 < reply.length then some cache
  else do
    let cache ← cache.popEntry key
    let cache ← cache.makeRoom (key.length + reply.length) cache.entries.entries.length
    some ⟨cache.entries.put key (reply, expiry), cache.bytes + (key.length + reply.length)⟩

/-- The lookup of `exchange_raw`. -/
def lookup (cache : WireCache ι slots) (key : Bytes) : Option (Bytes × ι) × WireCache ι slots :=
  ((cache.entries.get key).1, { cache with entries := (cache.entries.get key).2 })

/-! ## Accounting -/

/-- What the entries weigh together. -/
def total (entries : List (Bytes × Bytes × ι)) : Nat :=
  (entries.map weight).sum

/-- The count of bytes is right. -/
structure Accounted (cache : WireCache ι slots) : Prop where
  bytes_eq : cache.bytes = total cache.entries.entries
  bytes_le : cache.bytes ≤ wireCacheBytes

/-- There is room for an entry of this weight. -/
structure HasRoom (room : Nat) (cache : WireCache ι slots) : Prop where
  slot : cache.entries.entries.length < slots
  bytes : cache.bytes + room ≤ wireCacheBytes

theorem accounted_new (capacity : Nat) : (new capacity : WireCache ι _).Accounted where
  bytes_eq := rfl
  bytes_le := Nat.zero_le _

theorem total_perm {entries entries' : List (Bytes × Bytes × ι)} (h : entries.Perm entries') :
    total entries = total entries' :=
  (h.map weight).sum_eq

variable {cache after : WireCache ι slots}

theorem Accounted.lookup (h : cache.Accounted) (key : Bytes) : (cache.lookup key).2.Accounted where
  bytes_eq := h.bytes_eq.trans (total_perm (cache.entries.perm_get key)).symm
  bytes_le := h.bytes_le

/-- An entry that is taken out is subtracted once. -/
theorem Accounted.sub (h : cache.Accounted) {entry : Bytes × Bytes × ι}
    (entries : LruCache Bytes (Bytes × ι) slots)
    (hperm : cache.entries.entries.Perm (entry :: entries.entries)) :
    ∃ bytes, checkedSub cache.bytes (weight entry) = some bytes ∧
      Accounted ⟨entries, bytes⟩ := by
  have htotal : cache.bytes = weight entry + total entries.entries := by
    rw [h.bytes_eq, total_perm hperm]
    exact sum_cons
  have hle := h.bytes_le
  refine ⟨cache.bytes - weight entry, if_pos (by omega), ?_, (Nat.sub_le _ _).trans hle⟩
  dsimp only
  omega

theorem Accounted.popEntry (h : cache.Accounted) (key : Bytes) :
    ∃ after, cache.popEntry key = some after ∧ after.Accounted ∧
      ∀ entry ∈ after.entries.entries, entry.1 ≠ key := by
  unfold WireCache.popEntry
  cases hpeek : cache.entries.peek? key with
  | none => exact ⟨cache, rfl, h, LruCache.key_ne_of_peek?_eq_none hpeek⟩
  | some value =>
    have hperm := LruCache.perm_others cache.entries.nodup_keys
      (LruCache.mem_of_peek?_eq_some hpeek)
    obtain ⟨bytes, hsub, haccounted⟩ := h.sub (cache.entries.erase key) hperm
    refine ⟨_, by simp [hsub], haccounted, fun entry hentry => ?_⟩
    rintro rfl
    exact LruCache.not_mem_others cache.entries.entries _ (mem_map_of_mem hentry)

/-- Making room keeps the count right, takes out entries only, and ends with room. -/
theorem Accounted.makeRoom {room : Nat} (hroom : room ≤ wireCacheBytes) (hslots : 0 < slots)
    (h : cache.Accounted) {turns : Nat} (hturns : turns = cache.entries.entries.length) :
    ∃ after, cache.makeRoom room turns = some after ∧ after.Accounted ∧ after.HasRoom room ∧
      after.entries.entries ⊆ cache.entries.entries := by
  induction turns generalizing cache with
  | zero =>
    have hnil := length_eq_zero_iff.mp hturns.symm
    have hbytes : cache.bytes = 0 := by rw [h.bytes_eq, hnil]; rfl
    refine ⟨cache, rfl, h, ⟨?_, ?_⟩, fun _ hentry => hentry⟩ <;> omega
  | succ turns ih =>
    rw [WireCache.makeRoom]
    split
    · have hne : cache.entries.entries ≠ [] := by
        intro hnil
        simp [hnil] at hturns
      have hsplit := dropLast_append_getLast hne
      rw [LruCache.popLru, getLast?_eq_some_getLast hne]
      simp only [Option.map_some]
      have hperm : cache.entries.entries.Perm
          (cache.entries.entries.getLast hne :: cache.entries.entries.dropLast) := by
        nth_rewrite 1 [← hsplit]
        exact perm_append_singleton _ _
      obtain ⟨bytes, hsub, haccounted⟩ := h.sub ⟨cache.entries.entries.dropLast, _, _⟩ hperm
      rw [hsub, Option.bind_some]
      obtain ⟨after, hafter, haccounted, hroom, hsubset⟩ := ih haccounted (by simp [← hturns])
      exact ⟨after, hafter, haccounted, hroom,
        fun _ hentry => (dropLast_sublist _).mem (hsubset hentry)⟩
    · rename_i hfits
      rw [not_or, Nat.not_le, Nat.not_lt] at hfits
      exact ⟨cache, rfl, h, ⟨hfits.1, hfits.2⟩, fun _ hentry => hentry⟩

/-- A reply that is not too large is stored, and nothing underflows. -/
theorem Accounted.put (h : cache.Accounted) (hslots : 0 < slots) {key reply : Bytes} (expiry : ι)
    (hkey : key.length ≤ 512) (hreply : reply.length ≤ 4096) :
    ∃ after, cache.put key reply expiry = some after ∧ after.Accounted ∧
      after.entries.peek? key = some (reply, expiry) := by
  have hweight : key.length + reply.length ≤ wireCacheBytes :=
    (Nat.add_le_add hkey hreply).trans (by decide)
  obtain ⟨popped, hpopped, haccounted, hnew⟩ := h.popEntry key
  obtain ⟨made, hmade, haccounted, hroom, hsubset⟩ := haccounted.makeRoom hweight hslots rfl
  have hentries := LruCache.entries_put made.entries (reply, expiry)
    (fun entry hentry => hnew entry (hsubset hentry)) hroom.slot
  refine ⟨⟨made.entries.put key (reply, expiry), made.bytes + (key.length + reply.length)⟩, ?_,
    ⟨?_, hroom.bytes⟩, ?_⟩
  · rw [WireCache.put, if_neg (by omega), hpopped, Option.bind_eq_bind, Option.bind_some, hmade]
    rfl
  · rw [hentries, haccounted.bytes_eq, add_comm]
    exact sum_cons.symm
  · exact LruCache.peek?_of_mem (hentries ▸ mem_cons_self)

/-! ## Runs -/

inductive Op (ι : Type*) where
  | put (key reply : Bytes) (expiry : ι)
  | lookup (key : Bytes)

/-- What an operation makes of the cache. -/
def apply (cache : WireCache ι slots) : Op ι → Option (WireCache ι slots)
  | .put key reply expiry => cache.put key reply expiry
  | .lookup key => some (cache.lookup key).2

theorem Accounted.apply (h : cache.Accounted) (hslots : 0 < slots) (op : Op ι) :
    ∃ after, cache.apply op = some after ∧ after.Accounted := by
  cases op with
  | lookup key => exact ⟨_, rfl, h.lookup key⟩
  | put key reply expiry =>
    by_cases hlarge : 512 < key.length ∨ 4096 < reply.length
    · exact ⟨cache, if_pos hlarge, h⟩
    · rw [not_or, Nat.not_lt, Nat.not_lt] at hlarge
      obtain ⟨after, hafter, haccounted, -⟩ := h.put hslots expiry hlarge.1 hlarge.2
      exact ⟨after, hafter, haccounted⟩

theorem Accounted.applyAll (h : cache.Accounted) (hslots : 0 < slots) (ops : List (Op ι)) :
    ∃ after, ops.foldlM WireCache.apply cache = some after ∧ after.Accounted := by
  induction ops generalizing cache with
  | nil => exact ⟨cache, rfl, h⟩
  | cons op rest ih =>
    obtain ⟨next, hnext, haccounted⟩ := h.apply hslots op
    obtain ⟨after, hafter, hlast⟩ := ih haccounted
    refine ⟨after, ?_, hlast⟩
    rw [foldlM_cons, hnext]
    exact hafter

/-- No operation underflows, the count of bytes is right and bounded after each, as is the number of
entries; a store is there afterwards, unless it is too large, and then it changes nothing. -/
theorem wire_cache_accounting (capacity : Nat) (ops : List (Op ι)) :
    ∃ cache : WireCache ι (wireCacheSlots capacity),
      ops.foldlM apply (new capacity) = some cache ∧
      cache.bytes = total cache.entries.entries ∧ cache.bytes ≤ wireCacheBytes ∧
      cache.entries.entries.length ≤ wireCacheSlots capacity ∧
      ∀ key reply expiry,
        (key.length ≤ 512 → reply.length ≤ 4096 → ∃ after, cache.put key reply expiry = some after ∧
          after.entries.peek? key = some (reply, expiry)) ∧
        (512 < key.length ∨ 4096 < reply.length → cache.put key reply expiry = some cache) := by
  have hslots : 0 < wireCacheSlots capacity := Nat.lt_of_lt_of_le (by decide) (le_max_left 16 _)
  obtain ⟨cache, hrun, haccounted⟩ := (accounted_new capacity).applyAll hslots ops
  refine ⟨cache, hrun, haccounted.bytes_eq, haccounted.bytes_le, cache.entries.length_le,
    fun key reply expiry => ⟨fun hkey hreply => ?_, fun hlarge => if_pos hlarge⟩⟩
  obtain ⟨after, hafter, -, hstored⟩ := haccounted.put hslots expiry hkey hreply
  exact ⟨after, hafter, hstored⟩

/-! ## What a lookup finds -/

/-- A map of any size that takes every store the cache does not refuse. -/
def remember (map : Bytes → Option (Bytes × ι)) : Op ι → Bytes → Option (Bytes × ι)
  | .put key reply expiry =>
    if 512 < key.length ∨ 4096 < reply.length then map
    else Function.update map key (some (reply, expiry))
  | .lookup _ => map

/-- The entries of the cache are bindings of the map. -/
def Agrees (map : Bytes → Option (Bytes × ι)) (cache : WireCache ι slots) : Prop :=
  ∀ entry ∈ cache.entries.entries, map entry.1 = some entry.2

theorem mem_of_popEntry {key : Bytes} (h : cache.popEntry key = some after) :
    after.entries.entries ⊆ cache.entries.entries := by
  unfold popEntry at h
  split at h
  · obtain ⟨bytes, -, rfl⟩ := Option.map_eq_some_iff.mp h
    exact fun _ hentry => LruCache.mem_erase hentry
  · exact Option.some.inj h ▸ Subset.refl _

theorem Accounted.agrees (h : cache.Accounted) (hslots : 0 < slots)
    {map : Bytes → Option (Bytes × ι)} (hagrees : Agrees map cache) {op : Op ι}
    (hop : cache.apply op = some after) : Agrees (remember map op) after := by
  cases op with
  | lookup key =>
    obtain rfl := Option.some.inj hop
    exact fun entry hentry => hagrees entry (LruCache.mem_get hentry)
  | put key reply expiry =>
    rw [WireCache.apply, WireCache.put] at hop
    rw [remember]
    split at hop
    · rename_i hlarge
      obtain rfl := Option.some.inj hop
      rwa [if_pos hlarge]
    rename_i hsmall
    rw [if_neg hsmall]
    obtain ⟨popped, hpopped, haccounted, hnew⟩ := h.popEntry key
    have hweight : key.length + reply.length ≤ wireCacheBytes := by unfold wireCacheBytes; omega
    obtain ⟨made, hmade, -, -, hsubset⟩ := haccounted.makeRoom hweight hslots rfl
    rw [hpopped, Option.bind_eq_bind, Option.bind_some, hmade] at hop
    obtain rfl := Option.some.inj hop
    intro entry hentry
    -- an older entry of the same key was taken out, so the store hides none
    rcases LruCache.mem_put hentry with rfl | hmem
    · exact Function.update_self ..
    · rw [Function.update_of_ne (hnew entry (hsubset hmem))]
      exact hagrees entry (mem_of_popEntry hpopped (hsubset hmem))

/-- After any operations a lookup finds nothing, or what was stored last under the very key. -/
theorem wire_cache_never_stale (capacity : Nat) (ops : List (Op ι)) :
    ∃ cache : WireCache ι (wireCacheSlots capacity),
      ops.foldlM apply (new capacity) = some cache ∧
      ∀ key value, (cache.lookup key).1 = some value →
        ops.foldl remember (fun _ => none) key = some value := by
  have hslots : 0 < wireCacheSlots capacity := Nat.lt_of_lt_of_le (by decide) (le_max_left 16 _)
  suffices hrun : ∃ cache, ops.foldlM apply (new capacity) = some cache ∧ cache.Accounted ∧
      Agrees (ops.foldl remember fun _ => none) cache by
    obtain ⟨cache, hcache, -, hagrees⟩ := hrun
    exact ⟨cache, hcache, fun key value hhit => hagrees _ (LruCache.get_eq_some hhit)⟩
  induction ops using reverseRecOn with
  | nil => exact ⟨_, rfl, accounted_new capacity, fun _ hmem => absurd hmem not_mem_nil⟩
  | append_singleton ops op ih =>
    obtain ⟨cache, hcache, haccounted, hagrees⟩ := ih
    obtain ⟨after, hafter, hlast⟩ := haccounted.apply hslots op
    refine ⟨after, ?_, hlast, ?_⟩
    · rw [foldlM_append, hcache]
      simpa using hafter
    · rw [foldl_append]
      exact haccounted.agrees hslots hagrees hafter

end WireCache

end Dns
