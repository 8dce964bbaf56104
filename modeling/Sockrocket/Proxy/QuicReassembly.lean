import Sockrocket.Proxy.QuicDatagram

/-!
# Reassembly of QUIC datagrams

What the table of a session does with the frames that arrive. Of any frames, `Sound` says that the
table stays small and that a packet comes from fragments with its own number. Of the frames of one
packet among those of at most one other, `Gathering` says which of its pieces the table holds, so the
packet comes out at the fragment that was missing last.
-/

namespace Sockrocket

open Rust Dns Slice Pieces List

namespace Reassembler

/-! ## The table -/

variable {packet : Nat}

variable {item : Assembly}

theorem mem_of_lookup {pending : List (Nat × Assembly)}
    (h : pending.lookup packet = some item) : (packet, item) ∈ pending := by
  obtain ⟨before, after, rfl, -⟩ := lookup_eq_some_iff.mp h
  exact mem_append_right _ mem_cons_self

variable {this : Reassembler}

theorem lookup_remove_ne {other : Nat} (h : packet ≠ other) :
    (this.remove other).pending.lookup packet = this.pending.lookup packet := by
  obtain ⟨pending⟩ := this
  show (pending.filter (·.1 ≠ other)).lookup packet = pending.lookup packet
  induction pending with
  | nil => rfl
  | cons entry pending ih =>
    obtain ⟨key, item⟩ := entry
    by_cases hkey : key = other
    · subst hkey
      rw [filter_cons_of_neg (by simp), ih, lookup_cons, beq_false_of_ne h]
    · rw [filter_cons_of_pos (by simpa using hkey), lookup_cons, lookup_cons, ih]

theorem lookup_remove_self (this : Reassembler) (packet : Nat) :
    (this.remove packet).pending.lookup packet = none := by
  rw [lookup_eq_none_iff]
  intro entry hentry
  have hne := (mem_filter.mp hentry).2
  simp only [ne_eq, decide_not, Bool.not_eq_eq_eq_not, Bool.not_true, decide_eq_false_iff_not] at hne
  exact bne_iff_ne.mpr (Ne.symm hne)

theorem lookup_insert_ne {other : Nat} (h : packet ≠ other) (item : Assembly) :
    (this.insert other item).pending.lookup packet =
      this.pending.lookup packet := by
  show ((other, item) :: (this.remove other).pending).lookup packet = _
  rw [lookup_cons, beq_false_of_ne h]
  exact lookup_remove_ne h

theorem lookup_insert_self (this : Reassembler) (packet : Nat) (item : Assembly) :
    (this.insert packet item).pending.lookup packet = some item := by
  show ((packet, item) :: (this.remove packet).pending).lookup packet = _
  rw [lookup_cons, beq_self_eq_true]

theorem mem_remove {entry : Nat × Assembly} (h : entry ∈ (this.remove packet).pending) :
    entry ∈ this.pending :=
  (mem_filter.mp h).1

theorem mem_insert {entry : Nat × Assembly}
    (h : entry ∈ (this.insert packet item).pending) :
    entry = (packet, item) ∨ entry ∈ this.pending :=
  (mem_cons.mp h).imp id mem_remove

/-- A fragment of a packet changes the assembly of that packet only. -/
theorem add_cases {next : Reassembler} {fragment : QuicFragment}
    {result : Except Str (Option Bytes)} (h : this.add item fragment = .ok (result, next)) :
    (∃ item', next = this.insert fragment.packet item') ∨ next = this.remove fragment.packet := by
  have hfinish (item : Assembly) {out : Except Str (Option Bytes) × Reassembler}
      (hout : this.finish fragment.packet item = out) :
      (∃ item', out.2 = this.insert fragment.packet item') ∨
        out.2 = this.remove fragment.packet := by
    rw [← hout, finish]
    split
    · exact .inr rfl
    · exact .inl ⟨item, rfl⟩
  unfold add at h
  split at h
  · obtain ⟨-, rfl⟩ := Prod.mk.inj (Except.ok.inj h)
    exact .inl ⟨item, rfl⟩
  obtain ⟨part, -, h⟩ := bind_eq_ok.mp h
  cases part with
  | some _ => exact hfinish _ (Except.ok.inj h)
  | none =>
    dsimp only at h
    split at h
    · obtain ⟨-, rfl⟩ := Prod.mk.inj (Except.ok.inj h)
      exact .inl ⟨_, rfl⟩
    · exact hfinish _ (Except.ok.inj h)

/-! ## Any frames -/

/-- An assembly of a packet is filled from fragments with its number. -/
structure Filled (history : List QuicFragment) (packet : Nat) (item : Assembly) : Prop where
  size : item.parts.length = item.total
  counted : stored item.parts ≤ item.bytes
  bounded : stored item.parts ≤ 65535
  source : ∀ data, some data ∈ item.parts →
    ∃ fragment ∈ history, fragment.packet = packet ∧ fragment.data = data

theorem Filled.mono {history more : List QuicFragment}
    (h : Filled history packet item) : Filled (history ++ more) packet item where
  size := h.size
  counted := h.counted
  bounded := h.bounded
  source := fun data hdata =>
    let ⟨fragment, hfragment, heq⟩ := h.source data hdata
    ⟨fragment, mem_append_left _ hfragment, heq⟩

/-- What holds of the table after some fragments. -/
structure Sound (this : Reassembler) (history : List QuicFragment) : Prop where
  few : this.pending.length ≤ 2
  items : ∀ packet item, (packet, item) ∈ this.pending → Filled history packet item

/-- A packet put together from fragments with one number. -/
def Pure (history : List QuicFragment) (packet : Nat) (bytes : Bytes) : Prop :=
  bytes.length ≤ 65535 ∧ ∃ pieces : List Bytes, bytes = pieces.flatten ∧ ∀ data ∈ pieces,
    ∃ fragment ∈ history, fragment.packet = packet ∧ fragment.data = data

theorem sound_nil : (⟨[]⟩ : Reassembler).Sound [] :=
  ⟨Nat.zero_le _, fun _ _ h => absurd h not_mem_nil⟩

namespace Sound

variable {this : Reassembler} {history : List QuicFragment} {fragment : QuicFragment}

section

variable (h : this.Sound history)

include h

theorem mono (more : List QuicFragment) : this.Sound (history ++ more) :=
  ⟨h.few, fun packet item hitem => (h.items packet item hitem).mono⟩

theorem retain (now : Nat) : (this.retain now).Sound history :=
  ⟨(length_filter_le _ _).trans h.few,
    fun packet item hitem => h.items packet item (mem_filter.mp hitem).1⟩

theorem makeRoom (packet : Nat) :
    (this.makeRoom packet).Sound history ∧
      ((this.makeRoom packet).remove packet).pending.length ≤ 1 := by
  unfold Reassembler.makeRoom
  split
  · exact ⟨⟨Nat.zero_le _, fun _ _ hitem => absurd hitem not_mem_nil⟩, Nat.zero_le _⟩
  rename_i hfull
  refine ⟨h, ?_⟩
  rw [Bool.and_eq_true, decide_eq_true_iff, Option.isNone_iff_eq_none, not_and] at hfull
  by_cases htwo : 2 ≤ this.pending.length
  · -- the packet has an assembly already, which gives its place
    obtain ⟨item, hitem⟩ := Option.ne_none_iff_exists'.mp (hfull htwo)
    have hless : (this.remove packet).pending.length < this.pending.length :=
      length_filter_lt_length_iff_exists.mpr ⟨_, mem_of_lookup hitem, by simp⟩
    have hfew := h.few
    omega
  · exact (length_filter_le _ _).trans (by omega)

theorem remove (packet : Nat) : (this.remove packet).Sound history :=
  ⟨(length_filter_le _ _).trans h.few,
    fun packet item hitem => h.items packet item (mem_remove hitem)⟩

variable {item : Assembly}

theorem insert {packet : Nat}
    (hroom : (this.remove packet).pending.length ≤ 1) (hitem : Filled history packet item) :
    (this.insert packet item).Sound history := by
  refine ⟨Nat.succ_le_succ hroom, fun packet' item' hentry => ?_⟩
  rcases mem_insert hentry with heq | hentry
  · obtain ⟨rfl, rfl⟩ := Prod.mk.inj heq
    exact hitem
  · exact h.items packet' item' hentry

/-- A new assembly is empty. -/
theorem entry (now : Nat) (fragment : QuicFragment) :
    Filled history fragment.packet (this.entry now fragment) := by
  unfold Reassembler.entry
  cases hlookup : this.pending.lookup fragment.packet with
  | some item => exact h.items _ _ (mem_of_lookup hlookup)
  | none =>
    refine ⟨length_replicate, ?_, ?_, fun data hdata => ?_⟩
    · exact (stored_replicate _).le
    · exact (stored_replicate _).le.trans (Nat.zero_le _)
    · cases eq_of_mem_replicate hdata

theorem finish {packet : Nat}
    (hroom : (this.remove packet).pending.length ≤ 1) (hitem : Filled history packet item) :
    (this.finish packet item).2.Sound history ∧
      ∀ bytes, (this.finish packet item).1 = .ok (some bytes) → Pure history packet bytes := by
  unfold Reassembler.finish
  split
  · refine ⟨h.remove packet, fun bytes hbytes => ?_⟩
    obtain rfl := Option.some.inj (Except.ok.inj hbytes)
    refine ⟨hitem.bounded, _, rfl, fun data hdata => ?_⟩
    obtain ⟨part, hpart, hsome⟩ := mem_filterMap.mp hdata
    exact hitem.source data (hsome ▸ hpart)
  · exact ⟨h.insert hroom hitem, fun bytes hbytes => by cases Except.ok.inj hbytes⟩

/-- `assemble` on a fragment that `decode` accepted. -/
theorem assemble (now : Nat) (hindex : fragment.index < fragment.total)
    (hdata : fragment.data.length ≤ 65535) :
    ∃ result next, this.assemble now fragment = .ok (result, next) ∧
      next.Sound (history ++ [fragment]) ∧
      ∀ bytes, result = .ok (some bytes) → Pure (history ++ [fragment]) fragment.packet bytes := by
  have hself : fragment ∈ history ++ [fragment] :=
    mem_append_right _ (mem_singleton_self _)
  unfold Reassembler.assemble
  dsimp only
  split
  · refine ⟨_, _, rfl, (h.retain now).mono _, fun bytes hbytes => ?_⟩
    obtain rfl := Option.some.inj (Except.ok.inj hbytes)
    refine ⟨hdata, [fragment.data], flatten_singleton.symm, fun data hmem => ?_⟩
    rw [mem_singleton.mp hmem]
    exact ⟨fragment, hself, rfl, rfl⟩
  · obtain ⟨htable, hroom⟩ := ((h.retain now).mono [fragment]).makeRoom fragment.packet
    generalize (this.retain now).makeRoom fragment.packet = table at htable hroom
    have hitem := htable.entry now fragment
    generalize table.entry now fragment = item at hitem
    unfold Reassembler.add
    split
    · exact ⟨_, _, rfl, htable.insert hroom hitem, nofun⟩
    rename_i htotal
    rw [not_not] at htotal
    have hin : fragment.index < item.parts.length := by
      rw [hitem.size, htotal]
      exact hindex
    rw [index_of_lt hin]
    dsimp only [Bind.bind, Except.bind]
    cases hpart : item.parts[fragment.index] with
    | some _ =>
      obtain ⟨hsound, hpure⟩ := htable.finish hroom hitem
      exact ⟨_, _, rfl, hsound, hpure⟩
    | none =>
      dsimp only
      split
      · refine ⟨_, _, rfl, htable.insert hroom ?_, nofun⟩
        exact ⟨hitem.size, hitem.counted.trans (Nat.le_add_right _ _), hitem.bounded, hitem.source⟩
      rename_i hsmall
      have hstored := stored_set (List.getElem?_eq_some_iff.mpr ⟨hin, hpart⟩) fragment.data
      have hcounted := hitem.counted
      have hfilled : Filled (history ++ [fragment]) fragment.packet
          { item with
            bytes := item.bytes + fragment.data.length
            parts := item.parts.set fragment.index (some fragment.data) } := by
        refine ⟨?_, ?_, ?_, fun data hmem => ?_⟩
        · rw [length_set, hitem.size]
        · dsimp only
          omega
        · dsimp only
          omega
        · rcases mem_or_eq_of_mem_set hmem with hmem | heq
          · exact hitem.source data hmem
          · exact ⟨fragment, hself, rfl, (Option.some.inj heq).symm⟩
      obtain ⟨hsound, hpure⟩ := htable.finish hroom hfilled
      exact ⟨_, _, rfl, hsound, hpure⟩

/-- One frame, whatever it is. -/
theorem receive (protocol : QuicProtocol) (session now : Nat)
    (frame : Bytes) :
    ∃ answer next more, this.receive protocol session now frame = .ok (answer, next) ∧
      (∀ fragment ∈ more, quicDecode protocol frame = .ok (.ok fragment)) ∧
      next.Sound (history ++ more) ∧
      ∀ bytes, answer = some bytes → ∃ packet, Pure (history ++ more) packet bytes := by
  obtain ⟨result, hresult, hspec⟩ := quicDecode_spec protocol frame
  unfold Reassembler.receive
  rw [hresult]
  dsimp only [Bind.bind, Except.bind]
  have hnothing : ∃ answer next more,
      (.ok (none, this) : Read (Option Bytes × Reassembler)) = .ok (answer, next) ∧
      (∀ fragment ∈ more, Except.ok result = (.ok (.ok fragment) : Read (Except Str QuicFragment))) ∧
      next.Sound (history ++ more) ∧
      ∀ bytes, answer = some bytes → ∃ packet, Pure (history ++ more) packet bytes :=
    ⟨none, this, [], rfl, nofun, h.mono [],
      nofun⟩
  cases result with
  | error message => exact hnothing
  | ok fragment =>
    dsimp only
    split
    · obtain ⟨hindex, hdata⟩ := hspec fragment rfl
      obtain ⟨result, next, hassemble, hsound, hpure⟩ := h.assemble now hindex hdata
      have hmore : ∀ f ∈ [fragment], Except.ok (Except.ok fragment) =
          (.ok (.ok f) : Read (Except Str QuicFragment)) := by
        intro f hf
        rw [mem_singleton.mp hf]
      rw [hassemble]
      dsimp only
      cases result with
      | error message =>
        exact ⟨none, next, [fragment], rfl, hmore, hsound, nofun⟩
      | ok answer =>
        exact ⟨answer, next, [fragment], rfl, hmore, hsound, fun bytes hbytes =>
          ⟨fragment.packet, hpure bytes (congrArg Except.ok hbytes)⟩⟩
    · exact hnothing

/-- Any frames. -/
theorem receiveAll (protocol : QuicProtocol) (session : Nat)
    (frames : List (Nat × Bytes)) :
    ∃ answers last more, this.receiveAll protocol session frames = .ok (answers, last) ∧
      (∀ fragment ∈ more, ∃ arrival ∈ frames, quicDecode protocol arrival.2 = .ok (.ok fragment)) ∧
      last.Sound (history ++ more) ∧
      ∀ bytes, some bytes ∈ answers → ∃ packet, Pure (history ++ more) packet bytes := by
  induction frames generalizing this history with
  | nil =>
    exact ⟨[], this, [], rfl, nofun, h.mono [],
      nofun⟩
  | cons arrival frames ih =>
    obtain ⟨answer, next, first, hreceive, hfirst, hnext, hpure⟩ :=
      h.receive protocol session arrival.1 arrival.2
    obtain ⟨answers, last, rest, hall, hrest, hlast, hpures⟩ := ih hnext
    rw [append_assoc] at hlast hpures
    refine ⟨answer :: answers, last, first ++ rest, ?_, fun fragment hmem => ?_, hlast,
      fun bytes hmem => ?_⟩
    · rw [Reassembler.receiveAll, hreceive]
      dsimp only [Bind.bind, Except.bind]
      rw [hall]
      rfl
    · rcases mem_append.mp hmem with hmem | hmem
      · exact ⟨arrival, mem_cons_self, hfirst fragment hmem⟩
      · obtain ⟨arrival, harrival, hdecode⟩ := hrest fragment hmem
        exact ⟨arrival, mem_cons_of_mem _ harrival, hdecode⟩
    · rcases mem_cons.mp hmem with hmem | hmem
      · obtain ⟨packet, hlength, pieces, heq, hpieces⟩ := hpure bytes hmem.symm
        refine ⟨packet, hlength, pieces, heq, fun data hdata => ?_⟩
        obtain ⟨fragment, hfragment, hsame⟩ := hpieces data hdata
        refine ⟨fragment, ?_, hsame⟩
        rw [← append_assoc]
        exact mem_append_left _ hfragment
      · exact hpures bytes hmem

end

end Sound

/-! ## The frames of one packet -/

/-- What the table holds of a packet `own` with these pieces, of which `seen` arrived since the last
time it was complete. There may be fragments of one `other` packet besides. -/
structure Gathering (this : Reassembler) (own other : Nat) (pieces : List Bytes) (start : Nat)
    (seen : List Nat) : Prop where
  keys : ∀ entry ∈ this.pending, entry.1 = own ∨ entry.1 = other
  nodup : (this.pending.map Prod.fst).Nodup
  range : ∀ i ∈ seen, i < pieces.length
  missing : ∃ i < pieces.length, i ∉ seen
  held : (seen = [] ∧ this.pending.lookup own = none) ∨
    (seen ≠ [] ∧ ∃ created, start ≤ created ∧ this.pending.lookup own =
      some ⟨created, pieces.length, stored (gathered pieces seen), gathered pieces seen⟩)

namespace Gathering

variable {this : Reassembler} {own other start : Nat} {pieces : List Bytes} {seen : List Nat}

theorem empty (own other start : Nat) (hpieces : 1 ≤ pieces.length) :
    (⟨[]⟩ : Reassembler).Gathering own other pieces start [] :=
  ⟨nofun, nodup_nil, nofun,
    ⟨0, hpieces, not_mem_nil⟩, .inl ⟨rfl, rfl⟩⟩

theorem nodup_filter {pending : List (Nat × Assembly)} (h : (pending.map Prod.fst).Nodup)
    (keep : Nat × Assembly → Bool) : ((pending.filter keep).map Prod.fst).Nodup :=
  h.sublist (filter_sublist.map _)

section

variable (h : this.Gathering own other pieces start seen)

include h

/-- In the five seconds nothing is dropped. -/
theorem retain {now : Nat}
    (hnow : now < start + assemblyTime) :
    (this.retain now).Gathering own other pieces start seen := by
  refine ⟨fun entry hentry => h.keys entry (mem_filter.mp hentry).1,
    nodup_filter h.nodup _, h.range, h.missing, ?_⟩
  rcases h.held with ⟨hseen, hnone⟩ | ⟨hseen, created, hcreated, hsome⟩
  · refine .inl ⟨hseen, lookup_eq_none_iff.mpr fun entry hentry => ?_⟩
    exact lookup_eq_none_iff.mp hnone entry (mem_filter.mp hentry).1
  refine .inr ⟨hseen, created, hcreated, ?_⟩
  obtain ⟨before, after, hpending, hbefore⟩ := lookup_eq_some_iff.mp hsome
  have hpos : 0 < assemblyTime := by decide
  have hkeep : decide (now - created < assemblyTime) := decide_eq_true (by omega)
  rw [Reassembler.retain, hpending, filter_append, filter_cons_of_pos (by exact hkeep)]
  exact lookup_eq_some_iff.mpr ⟨_, _, rfl, fun entry hentry =>
    hbefore entry (mem_filter.mp hentry).1⟩

/-- Two packets have room. -/
theorem makeRoom {packet : Nat}
    (hpacket : packet = own ∨ packet = other) : this.makeRoom packet = this := by
  unfold Reassembler.makeRoom
  rw [if_neg]
  rw [Bool.and_eq_true, decide_eq_true_iff, Option.isNone_iff_eq_none, not_and]
  intro htwo hnone
  -- without the packet only one of the two numbers is left
  obtain ⟨single, hsingle⟩ : ∃ single, ∀ entry ∈ this.pending, entry.1 = single := by
    have hne := lookup_eq_none_iff.mp hnone
    rcases hpacket with rfl | rfl
    · refine ⟨other, fun entry hentry => (h.keys entry hentry).resolve_left fun heq => ?_⟩
      exact bne_iff_ne.mp (hne entry hentry) heq.symm
    · refine ⟨own, fun entry hentry => (h.keys entry hentry).resolve_right fun heq => ?_⟩
      exact bne_iff_ne.mp (hne entry hentry) heq.symm
  have hsubset : this.pending.map Prod.fst ⊆ [single] := by
    intro key hkey
    obtain ⟨entry, hentry, rfl⟩ := mem_map.mp hkey
    exact mem_singleton.mpr (hsingle entry hentry)
  have hlength := (subperm_of_subset h.nodup hsubset).length_le
  rw [length_map, length_singleton] at hlength
  omega

/-- The table of both packets after a change to one of them. -/
theorem keys_insert {packet : Nat}
    (hpacket : packet = own ∨ packet = other) (item : Assembly) :
    (∀ entry ∈ (this.insert packet item).pending, entry.1 = own ∨ entry.1 = other) ∧
      ((this.insert packet item).pending.map Prod.fst).Nodup := by
  refine ⟨fun entry hentry => ?_, nodup_cons.mpr ⟨fun hmem => ?_, nodup_filter h.nodup _⟩⟩
  · rcases mem_insert hentry with rfl | hentry
    · exact hpacket
    · exact h.keys entry hentry
  · obtain ⟨entry, hentry, heq⟩ := mem_map.mp hmem
    exact of_decide_eq_true (mem_filter.mp hentry).2 heq

/-- A fragment of the other packet. -/
theorem foreign (hother : other ≠ own)
    {now : Nat} (hnow : now < start + assemblyTime) {fragment : QuicFragment}
    (hfragment : fragment.packet = other) {result : Except Str (Option Bytes)} {next : Reassembler}
    (hassemble : this.assemble now fragment = .ok (result, next)) :
    next.Gathering own other pieces start seen := by
  have hkept := h.retain hnow
  unfold Reassembler.assemble at hassemble
  dsimp only at hassemble
  split at hassemble
  · obtain ⟨-, rfl⟩ := Prod.mk.inj (Except.ok.inj hassemble)
    exact hkept
  rw [hkept.makeRoom (.inr hfragment)] at hassemble
  rcases add_cases hassemble with ⟨item, rfl⟩ | rfl
  · rw [hfragment]
    obtain ⟨hkeys, hnodup⟩ := hkept.keys_insert (.inr rfl) item
    refine ⟨hkeys, hnodup, hkept.range, hkept.missing, ?_⟩
    rw [lookup_insert_ne (Ne.symm hother)]
    exact hkept.held
  · rw [hfragment]
    refine ⟨fun entry hentry => hkept.keys entry (mem_remove hentry),
      nodup_filter hkept.nodup _, hkept.range, hkept.missing, ?_⟩
    rw [lookup_remove_ne (Ne.symm hother)]
    exact hkept.held

/-- A fragment of the packet: the packet comes out if nothing is missing any more. -/
theorem arrive
    (hsize : pieces.flatten.length ≤ 65535) (session : Nat) {now part : Nat} (hstart : start ≤ now)
    (hnow : now < start + assemblyTime) (hpart : part < pieces.length) :
    ((∀ i < pieces.length, i ∈ part :: seen) ∧ ∃ next,
        this.assemble now ⟨session, own, part, pieces.length, pieces[part]⟩ =
            .ok (.ok (some pieces.flatten), next) ∧
          next.Gathering own other pieces start []) ∨
      (∃ i < pieces.length, i ∉ part :: seen) ∧ ∃ next,
        this.assemble now ⟨session, own, part, pieces.length, pieces[part]⟩ =
            .ok (.ok none, next) ∧
          next.Gathering own other pieces start (part :: seen) := by
  have hkept := h.retain hnow
  have hone : 1 ≤ pieces.length := by omega
  unfold Reassembler.assemble
  dsimp only
  by_cases hsingle : pieces.length = 1
  · -- a packet in one fragment does not go through the table
    have hall : ∀ i < pieces.length, i ∈ part :: seen := by
      intro i hi
      rw [show i = part by omega]
      exact mem_cons_self
    have hflat : pieces[part] = pieces.flatten := by
      obtain ⟨piece, rfl⟩ := length_eq_one_iff.mp hsingle
      rw [flatten_singleton, getElem_singleton]
    have hseen : seen = [] := by
      obtain ⟨i, hi, hmissing⟩ := h.missing
      refine eq_nil_iff_forall_not_mem.mpr fun j hj => hmissing ?_
      have hrange := h.range j hj
      rwa [show i = j by omega]
    subst hseen
    refine .inl ⟨hall, this.retain now, ?_, hkept⟩
    rw [if_pos hsingle, hflat]
    rfl
  · rw [if_neg hsingle, hkept.makeRoom (.inl rfl)]
    generalize this.retain now = table at hkept
    obtain ⟨created, hcreated, hentry⟩ : ∃ created, start ≤ created ∧
        table.entry now ⟨session, own, part, pieces.length, pieces[part]⟩ =
          ⟨created, pieces.length, stored (gathered pieces seen), gathered pieces seen⟩ := by
      unfold Reassembler.entry
      rcases hkept.held with ⟨rfl, hnone⟩ | ⟨-, created, hcreated, hsome⟩
      · refine ⟨now, hstart, ?_⟩
        rw [hnone, gathered_nil, stored_replicate]
        rfl
      · refine ⟨created, hcreated, ?_⟩
        rw [hsome]
        rfl
    rw [hentry]
    -- after this fragment the table has the pieces of `part :: seen`
    have hadd : table.add
        ⟨created, pieces.length, stored (gathered pieces seen), gathered pieces seen⟩
        ⟨session, own, part, pieces.length, pieces[part]⟩ =
        .ok (table.finish own ⟨created, pieces.length, stored (gathered pieces (part :: seen)),
          gathered pieces (part :: seen)⟩) := by
      have hget := getElem?_gathered seen hpart
      rw [Reassembler.add, if_neg (not_not.mpr rfl), index, hget]
      dsimp only [Bind.bind, Except.bind]
      by_cases hmem : part ∈ seen
      · rw [if_pos hmem, gathered_of_mem hmem]
        rfl
      rw [if_neg hmem] at hget ⊢
      have hstored := stored_set hget pieces[part]
      rw [set_gathered hpart] at hstored
      have hle := stored_gathered_le pieces (part :: seen)
      dsimp only
      rw [if_neg (by omega), set_gathered hpart, ← hstored]
      rfl
    rw [hadd, Reassembler.finish]
    dsimp only
    by_cases hall : ∀ i < pieces.length, i ∈ part :: seen
    · rw [if_pos (all_isSome_gathered.mpr hall), flatten_gathered hall]
      refine .inl ⟨hall, table.remove own, rfl, fun entry hmem => hkept.keys entry (mem_remove hmem),
        nodup_filter hkept.nodup _, fun _ hmem => absurd hmem not_mem_nil,
        ⟨0, hone, not_mem_nil⟩, .inl ⟨rfl, lookup_remove_self table own⟩⟩
    · rw [if_neg (fun hsome => hall (all_isSome_gathered.mp hsome))]
      push Not at hall
      obtain ⟨hkeys, hnodup⟩ := hkept.keys_insert (.inl rfl)
        ⟨created, pieces.length, stored (gathered pieces (part :: seen)),
          gathered pieces (part :: seen)⟩
      refine .inr ⟨hall, _, rfl, hkeys, hnodup, fun i hi => ?_, hall,
        .inr ⟨cons_ne_nil _ _, created, hcreated, lookup_insert_self table own _⟩⟩
      rcases mem_cons.mp hi with rfl | hi
      · exact hpart
      · exact hkept.range i hi

end

end Gathering

end Reassembler

/-! ## A packet among others -/

/-- What arrives at a session: a frame of the packet, or some other frame. -/
inductive Arrival where
  | own (part : Nat)
  | foreign (frame : Bytes)
deriving DecidableEq, Repr

/-- The bytes of an arrival, for the frames of the packet. -/
def Arrival.frame (frames : List Bytes) : Arrival → Bytes
  | .own part => frames.getD part []
  | .foreign frame => frame

/-- The number of an arrival among the frames of the packet. -/
def Arrival.part? : Arrival → Option Nat
  | .own part => some part
  | .foreign _ => none

/-- The frames of the packet that arrived. -/
def ownParts (arrivals : List (Nat × Arrival)) : List Nat :=
  arrivals.filterMap fun arrival => arrival.2.part?

/-- An arrival within five seconds of `start`. Other frames of the session have the number
`other`. -/
structure Timely (session : QuicSession) (other count start : Nat) (arrival : Nat × Arrival) :
    Prop where
  after : start ≤ arrival.1
  before : arrival.1 < start + assemblyTime
  own : ∀ part, arrival.2 = .own part → part < count
  foreign : ∀ frame, arrival.2 = .foreign frame → ∀ fragment,
    quicDecode session.protocol frame = .ok (.ok fragment) → fragment.session = session.id →
      fragment.packet = other

namespace Reassembler

section Run

variable {session : QuicSession} {size other start : Nat} {packet : Bytes}
  {pieces frames : List Bytes} {this : Reassembler} {seen : List Nat}

/-- A frame of the packet. -/
theorem receive_own (hvalid : session.Valid) (hsent : Sent session size packet pieces frames)
    (hsize : packet.length ≤ 65535) (h : this.Gathering session.packet other pieces start seen)
    {now part : Nat} (hstart : start ≤ now) (hnow : now < start + assemblyTime)
    (hpart : part < pieces.length) :
    ((∀ i < pieces.length, i ∈ part :: seen) ∧ ∃ next,
        this.receive session.protocol session.id now (frames.getD part []) =
            .ok (some packet, next) ∧
          next.Gathering session.packet other pieces start []) ∨
      (∃ i < pieces.length, i ∉ part :: seen) ∧ ∃ next,
        this.receive session.protocol session.id now (frames.getD part []) = .ok (none, next) ∧
          next.Gathering session.packet other pieces start (part :: seen) := by
  have hframe : frames.getD part [] = session.frame part pieces.length pieces[part] := by
    rw [hsent.framed, getD_eq_getElem _ _ (by rwa [length_mapIdx]), getElem_mapIdx]
  have hpiece : pieces[part].length ≤ 65535 := by
    refine le_trans ?_ hsize
    rw [← hsent.whole]
    exact (sublist_flatten_of_mem (getElem_mem hpart)).length_le
  have hreceive {answer : Option Bytes} {next : Reassembler} (hassemble : this.assemble now
      ⟨session.id, session.packet, part, pieces.length, pieces[part]⟩ = .ok (.ok answer, next)) :
      this.receive session.protocol session.id now (frames.getD part []) = .ok (answer, next) := by
    rw [receive, hframe, quicDecode_frame hvalid hpart hsent.count.2 hpiece]
    dsimp only [Bind.bind, Except.bind]
    rw [if_pos rfl, hassemble]
    rfl
  have hflat : pieces.flatten.length ≤ 65535 := by
    rwa [hsent.whole]
  rcases h.arrive hflat session.id hstart hnow hpart with
    ⟨hall, next, hassemble, hnext⟩ | ⟨hmissing, next, hassemble, hnext⟩
  · rw [hsent.whole] at hassemble
    exact .inl ⟨hall, next, hreceive hassemble, hnext⟩
  · exact .inr ⟨hmissing, next, hreceive hassemble, hnext⟩

variable {answer : Option Bytes}

/-- Some other frame. -/
theorem receive_foreign (hother : other ≠ session.packet)
    (h : this.Gathering session.packet other pieces start seen) {now : Nat}
    (hnow : now < start + assemblyTime) {frame : Bytes}
    (hframe : ∀ fragment, quicDecode session.protocol frame = .ok (.ok fragment) →
      fragment.session = session.id → fragment.packet = other) {next : Reassembler}
    (hreceive : this.receive session.protocol session.id now frame = .ok (answer, next)) :
    next.Gathering session.packet other pieces start seen := by
  unfold receive at hreceive
  obtain ⟨decoded, hdecoded, hreceive⟩ := bind_eq_ok.mp hreceive
  cases decoded with
  | error message =>
    obtain ⟨-, rfl⟩ := Prod.mk.inj (Except.ok.inj hreceive)
    exact h
  | ok fragment =>
    dsimp only at hreceive
    split at hreceive
    · rename_i hsession
      obtain ⟨⟨result, table⟩, hassemble, hreceive⟩ := bind_eq_ok.mp hreceive
      have htable := h.foreign hother hnow (hframe fragment hdecoded hsession) hassemble
      cases result with
      | error message | ok packet =>
        obtain ⟨-, rfl⟩ := Prod.mk.inj (Except.ok.inj hreceive)
        exact htable
    · obtain ⟨-, rfl⟩ := Prod.mk.inj (Except.ok.inj hreceive)
      exact h

/-- The answers to the frames of the packet. -/
def OwnAnswers (arrivals : List (Nat × Arrival)) (answers : List (Option Bytes))
    (P : Option Bytes → Prop) : Prop :=
  ∀ pair ∈ arrivals.zip answers, ∀ part, pair.1.2 = .own part → P pair.2

variable {arrivals : List (Nat × Arrival)} {answers : List (Option Bytes)}

theorem ownAnswers_cons {arrival : Nat × Arrival} {P : Option Bytes → Prop}
    (hfirst : ∀ part, arrival.2 = .own part → P answer) (hrest : OwnAnswers arrivals answers P) :
    OwnAnswers (arrival :: arrivals) (answer :: answers) P := by
  intro pair hpair
  rw [zip_cons_cons] at hpair
  rcases mem_cons.mp hpair with rfl | hpair
  · exact hfirst
  · exact hrest pair hpair

/-- Arrivals in any order, more than once and among other frames. -/
theorem receiveAll_gathering (hvalid : session.Valid)
    (hsent : Sent session size packet pieces frames) (hsize : packet.length ≤ 65535)
    (hother : other ≠ session.packet) (h : this.Gathering session.packet other pieces start seen)
    (htimely : ∀ arrival ∈ arrivals, Timely session other pieces.length start arrival) {last : Reassembler}
    (hall : this.receiveAll session.protocol session.id
      (arrivals.map fun arrival => (arrival.1, arrival.2.frame frames)) = .ok (answers, last)) :
    OwnAnswers arrivals answers (fun answer => answer = none ∨ answer = some packet) ∧
      ∃ seen', last.Gathering session.packet other pieces start seen' ∧
        ((∃ i < pieces.length, i ∉ ownParts arrivals ∧ i ∉ seen) →
          (∀ i, i ∈ seen' ↔ i ∈ ownParts arrivals ∨ i ∈ seen) ∧
          OwnAnswers arrivals answers fun answer => answer = none) := by
  induction arrivals generalizing this seen answers with
  | nil =>
    obtain ⟨rfl, rfl⟩ := Prod.mk.inj (Except.ok.inj hall)
    refine ⟨nofun, seen, h, fun _ => ⟨fun i => ?_,
      nofun⟩⟩
    exact ⟨.inr, fun hi => hi.resolve_left not_mem_nil⟩
  | cons arrival arrivals ih =>
    obtain ⟨hfirst, hlater⟩ := forall_mem_cons.mp htimely
    obtain ⟨now, kind⟩ := arrival
    rw [map_cons, receiveAll] at hall
    obtain ⟨⟨answer, next⟩, hreceive, hall⟩ := bind_eq_ok.mp hall
    obtain ⟨⟨rest, final⟩, hrest, hall⟩ := bind_eq_ok.mp hall
    obtain ⟨rfl, rfl⟩ := Prod.mk.inj (Except.ok.inj hall)
    cases kind with
    | foreign frame =>
      have hnext := receive_foreign hother h hfirst.before (hfirst.foreign frame rfl) hreceive
      obtain ⟨hanswers, seen', hlast, hopen⟩ := ih hnext hlater hrest
      refine ⟨ownAnswers_cons nofun hanswers, seen', hlast,
        fun hmissing => ?_⟩
      obtain ⟨hseen, hnone⟩ := hopen hmissing
      exact ⟨hseen, ownAnswers_cons nofun hnone⟩
    | own part =>
      have hparts : ownParts ((now, .own part) :: arrivals) = part :: ownParts arrivals := rfl
      rcases receive_own hvalid hsent hsize h hfirst.after hfirst.before (hfirst.own part rfl)
        with ⟨hcomplete, next', hown, hnext⟩ | ⟨hmissing, next', hown, hnext⟩
      · obtain ⟨rfl, rfl⟩ := Prod.mk.inj (Except.ok.inj (hreceive.symm.trans hown))
        obtain ⟨hanswers, seen', hlast, -⟩ := ih hnext hlater hrest
        refine ⟨ownAnswers_cons (fun _ _ => .inr rfl) hanswers, seen', hlast, ?_⟩
        rintro ⟨i, hi, hnot, hunseen⟩
        rw [hparts] at hnot
        rcases mem_cons.mp (hcomplete i hi) with rfl | hin
        · exact absurd mem_cons_self hnot
        · exact absurd hin hunseen
      · obtain ⟨rfl, rfl⟩ := Prod.mk.inj (Except.ok.inj (hreceive.symm.trans hown))
        obtain ⟨hanswers, seen', hlast, hopen⟩ := ih hnext hlater hrest
        refine ⟨ownAnswers_cons (fun _ _ => .inl rfl) hanswers, seen', hlast, ?_⟩
        rintro ⟨i, hi, hnot, hunseen⟩
        rw [hparts, mem_cons, not_or] at hnot
        have hstill : i ∉ part :: seen := by
          rw [mem_cons, not_or]
          exact ⟨hnot.1, hunseen⟩
        obtain ⟨hseen, hnone⟩ := hopen ⟨i, hi, hnot.2, hstill⟩
        refine ⟨fun j => ?_, ownAnswers_cons (fun _ _ => rfl) hnone⟩
        rw [hseen, hparts, mem_cons, mem_cons]
        tauto

end Run

end Reassembler

/-- A packet that `send` accepts leaves in frames that fit, and comes out of the other end's table at
the frame that was missing last, whatever the order, the duplicates and the fragments of one other
packet within five seconds; no other bytes ever come out for one of its frames. Of any frames at all,
the table keeps two assemblies of bounded size, and a packet it gives out is bounded and from
fragments with one number. -/
theorem quic_round_trip :
    (∀ session max packet frames, QuicSession.Valid session →
      session.send max packet = .ok frames →
      (∃ size, max = some size ∧ ∀ frame ∈ frames, frame.length ≤ size) ∧
      ∀ other start arrivals, other ≠ session.packet →
        (∀ arrival ∈ arrivals, Timely session other frames.length start arrival) →
        ∃ answers last, Reassembler.receiveAll ⟨[]⟩ session.protocol session.id
            (arrivals.map fun arrival => (arrival.1, arrival.2.frame frames)) = .ok (answers, last) ∧
          Reassembler.OwnAnswers arrivals answers
            (fun answer => answer = none ∨ answer = some packet) ∧
          ∀ now part, Timely session other frames.length start (now, .own part) →
            (∃ i < frames.length, i ∉ ownParts arrivals) →
            (∀ i < frames.length, i ∈ part :: ownParts arrivals) →
            Reassembler.OwnAnswers arrivals answers (fun answer => answer = none) ∧
            ∃ next, last.receive session.protocol session.id now (frames.getD part []) =
              .ok (some packet, next)) ∧
    ∀ protocol session frames, ∃ answers last,
      Reassembler.receiveAll ⟨[]⟩ protocol session frames = .ok (answers, last) ∧
      last.pending.length ≤ 2 ∧ (∀ entry ∈ last.pending, stored entry.2.parts ≤ 65535) ∧
      ∀ bytes, some bytes ∈ answers → bytes.length ≤ 65535 ∧ ∃ packet, ∃ pieces : List Bytes,
        bytes = pieces.flatten ∧ ∀ data ∈ pieces, ∃ arrival ∈ frames, ∃ fragment,
          quicDecode protocol arrival.2 = .ok (.ok fragment) ∧ fragment.packet = packet ∧
          fragment.data = data := by
  refine ⟨fun session max packet frames hvalid hsend => ?_, fun protocol session frames => ?_⟩
  · obtain ⟨hsize, size, pieces, hmax, hsent⟩ := QuicSession.sent_of_send hsend
    have hcount : frames.length = pieces.length := by
      rw [hsent.framed, length_mapIdx]
    refine ⟨⟨size, hmax, hsent.fits⟩, fun other start arrivals hother htimely => ?_⟩
    rw [hcount] at htimely ⊢
    obtain ⟨answers, last, -, hall, -⟩ := Reassembler.sound_nil.receiveAll session.protocol session.id
      (arrivals.map fun arrival => (arrival.1, arrival.2.frame frames))
    obtain ⟨hanswers, seen, hlast, hopen⟩ := Reassembler.receiveAll_gathering hvalid hsent hsize hother
      (Reassembler.Gathering.empty session.packet other start hsent.count.1) htimely hall
    refine ⟨answers, last, hall, hanswers, fun now part hnow hmissing hcomplete => ?_⟩
    obtain ⟨hseen, hnone⟩ := hopen (hmissing.imp fun i hi =>
      ⟨hi.1, hi.2, not_mem_nil⟩)
    refine ⟨hnone, ?_⟩
    rcases Reassembler.receive_own hvalid hsent hsize hlast hnow.after hnow.before (hnow.own part rfl)
      with ⟨-, next, hown, -⟩ | ⟨⟨i, hi, hnot⟩, -⟩
    · exact ⟨next, hown⟩
    refine absurd ?_ hnot
    rcases mem_cons.mp (hcomplete i hi) with rfl | hin
    · exact mem_cons_self
    · exact mem_cons_of_mem _ ((hseen i).mpr (.inl hin))
  · obtain ⟨answers, last, more, hall, hmore, hlast, hpure⟩ :=
      Reassembler.sound_nil.receiveAll protocol session frames
    refine ⟨answers, last, hall, hlast.few,
      fun entry hentry => (hlast.items entry.1 entry.2 hentry).bounded, fun bytes hbytes => ?_⟩
    obtain ⟨packet, hlength, pieces, heq, hpieces⟩ := hpure bytes hbytes
    refine ⟨hlength, packet, pieces, heq, fun data hdata => ?_⟩
    obtain ⟨fragment, hfragment, hsame⟩ := hpieces data hdata
    obtain ⟨arrival, harrival, hdecode⟩ := hmore fragment hfragment
    exact ⟨arrival, harrival, fragment, hdecode, hsame⟩

/-- A TUIC session to the host `a`. -/
def smallSession : QuicSession :=
  ⟨.tuic, 7, [0, 1, 97, 0, 53], 9⟩

/-- A packet in two frames of at most 17 bytes, the second of which arrives first. -/
theorem quic_round_trip_swapped : ∃ frames answers last next,
    smallSession.send (some 17) [1, 2, 3] = .ok frames ∧
    Reassembler.receiveAll ⟨[]⟩ .tuic 7 [(1, frames.getD 1 [])] = .ok (answers, last) ∧
    last.receive .tuic 7 2 (frames.getD 0 []) = .ok (some [1, 2, 3], next) := by
  have hvalid : smallSession.Valid :=
    ⟨by decide, by decide, "a".toList, 53, by decide⟩
  have hsend : smallSession.send (some 17) [1, 2, 3] =
      .ok [smallSession.frame 0 2 [1, 2], smallSession.frame 1 2 [3]] := by
    decide
  have hown (now part : Nat) (hnow : now < 3) (hpart : part < 2) :
      Timely smallSession 4 2 0 (now, .own part) := by
    refine ⟨Nat.zero_le _, ?_, fun i hi => ?_, (fun frame hframe => by cases hframe)⟩
    · exact lt_trans hnow (by decide)
    · obtain rfl := Arrival.own.inj hi
      exact hpart
  obtain ⟨answers, last, hall, -, hlast⟩ := (quic_round_trip.1 _ _ _ _ hvalid hsend).2 4 0
    [(1, .own 1)] (by decide) (fun arrival harrival => by
      rw [mem_singleton.mp harrival]
      exact hown 1 1 (by decide) (by decide))
  obtain ⟨-, next, hreceive⟩ := hlast 2 0 (hown 2 0 (by decide) (by decide))
    ⟨0, by decide, by decide⟩ (by decide)
  exact ⟨_, answers, last, next, hsend, hall, hreceive⟩

end Sockrocket
