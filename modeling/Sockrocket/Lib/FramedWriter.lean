import Sockrocket.Lib.Outgoing

/-!
# Writers of framed bytes

A writer turns the buffer of a caller into one block, and remembers how many bytes of the buffer the
block has. A poll that pends is made again with the same buffer; the caller is told the number once
the block was written. In the meantime others may flush the same queue, and queue blocks without
data.

`Framed` is what such a writer keeps as long as nobody else's flush fails while a block is in
flight: there is a rule for everything a writer does. What it gives is `Framed.lastWhole`: when the
caller is told, the block was taken as a whole.
-/

namespace AsyncIo

open List

variable {τ α γ : Type*}

/-- What a writer remembers, and what its caller was told. -/
structure Writer (τ α γ : Type*) where
  wire : Outgoing τ α
  acks : List (List γ)
  inFlight : Option Nat
  closed : Bool
  pended : Option (List γ)

/-- The data of a block, and its bytes. -/
structure FrameCodec (τ α γ : Type*) where
  data : τ → Option (List γ)
  encode : τ → List α

/-- The invariant of a writer; `calm` says that no flush fails. -/
structure Framed (F : FrameCodec τ α γ) (calm : Prop) (w : Writer τ α γ) : Prop where
  reported : ∃ flight, w.wire.Reported F.data w.acks flight ∧
    (w.inFlight = none → flight = none) ∧
    (∀ n ∈ w.inFlight, 0 < n ∧
      (w.closed = false → ∃ buf, w.pended = some buf ∧ flight = some (buf.take n))) ∧
    (calm → w.wire.tags.filterMap F.data = w.acks ++ flight.toList)
  encoded_old : ∀ block ∈ w.wire.old, block.bytes = F.encode block.tag
  encoded_live : ∀ block ∈ w.wire.live, block.2 = F.encode block.1
  intact : calm → ∀ block ∈ w.wire.old, block.Whole

theorem mem_cut {blocks : List (τ × List α)} {n : Nat} {block : Block τ α}
    (h : block ∈ cut blocks n) : (block.tag, block.bytes) ∈ blocks := by
  induction blocks generalizing n with
  | nil => cases h
  | cons head rest ih =>
    rcases mem_cons.mp h with rfl | h
    · exact mem_cons_self
    · exact mem_cons_of_mem _ (ih h)

namespace Framed

variable {F : FrameCodec τ α γ} {calm : Prop} {w : Writer τ α γ}

theorem empty (F : FrameCodec τ α γ) (calm : Prop) :
    Framed F calm ⟨.empty, [], none, false, none⟩ :=
  ⟨⟨none, .empty _, fun _ => rfl, nofun, fun _ => rfl⟩,
    nofun, nofun,
    nofun⟩

theorem valid (h : Framed F calm w) : w.wire.Valid := by
  obtain ⟨flight, hreported, -⟩ := h.reported
  exact hreported.valid

/-- The bytes of the blocks are those of their marks. -/
theorem encoded (h : Framed F calm w) {block : Block τ α} (hblock : block ∈ w.wire.ledger) :
    block.bytes = F.encode block.tag := by
  rcases mem_append.mp hblock with hold | hcut
  · exact h.encoded_old block hold
  · exact h.encoded_live _ (mem_cut hcut)

variable {turns turns' : List Behaviour}

section

variable (h : Framed F calm w)

include h

variable {o' : Outgoing τ α}

/-- A flush keeps what is known of the blocks. -/
theorem blocks_flush {answer : FlushAnswer}
    (hflush : w.wire.Flushed turns answer o' turns') (hcalm : calm → ∀ t ∈ turns, t.Calm) :
    (∀ block ∈ o'.old, block.bytes = F.encode block.tag) ∧
      (∀ block ∈ o'.live, block.2 = F.encode block.1) ∧
      (calm → ∀ block ∈ o'.old, block.Whole) := by
  cases hflush.settled with
  | kept live old pos =>
    rw [live, old]
    exact ⟨h.encoded_old, h.encoded_live, h.intact⟩
  | drained live old =>
    rw [live, old]
    refine ⟨fun block hb => ?_, nofun, fun hc block hb => ?_⟩
    · rcases mem_append.mp hb with hb | hb
      · exact h.encoded_old block hb
      · obtain ⟨pair, hpair, rfl⟩ := mem_map.mp hb
        exact h.encoded_live pair hpair
    · rcases mem_append.mp hb with hb | hb
      · exact h.intact hc block hb
      · obtain ⟨pair, -, rfl⟩ := mem_map.mp hb
        exact Block.whole_whole pair
  | torn live old pos failed =>
    rw [live, old]
    refine ⟨fun block hb => ?_, nofun, fun hc => ?_⟩
    · rcases mem_append.mp hb with hb | hb
      · exact h.encoded_old block hb
      · exact h.encoded_live _ (mem_cut hb)
    · rcases (hflush.calm (hcalm hc)).2 with rfl | rfl
      · rcases failed with hf | hf <;> cases hf
      · rcases failed with hf | hf <;> cases hf

/-- A flush by others, which does not fail while a block is in flight. -/
theorem flush {answer : FlushAnswer}
    (hflush : w.wire.Flushed turns answer o' turns') (hcalm : calm → ∀ t ∈ turns, t.Calm)
    (hanswer : w.inFlight.isSome → answer = .pending ∨ answer = .done) :
    Framed F calm { w with wire := o' } := by
  obtain ⟨hold, hlive, hintact⟩ := h.blocks_flush hflush hcalm
  refine ⟨?_, hold, hlive, hintact⟩
  obtain ⟨flight, hreported, hfree, hheld, hexact⟩ := h.reported
  by_cases hgood : answer = .pending ∨ answer = .done
  · refine ⟨flight, hreported.flush hflush hgood, hfree, hheld, ?_⟩
    rw [hflush.settled.tags]
    exact hexact
  have hnone : w.inFlight = none := by
    rw [← Option.not_isSome_iff_eq_none]
    exact fun hsome => hgood (hanswer hsome)
  have hne : answer ≠ .pending := fun hpending => hgood (.inl hpending)
  refine ⟨none, hreported.fail hflush hne, fun _ => rfl, fun n hn => ?_, fun hc => ?_⟩
  · cases hnone.symm.trans hn
  · exact absurd (hflush.calm (hcalm hc)).2 hgood

variable {tag : τ} {bytes : List α}

/-- A block without data. -/
theorem queue_control (htag : F.data tag = none) (hbytes : bytes = F.encode tag) :
    Framed F calm { w with wire := w.wire.queue tag bytes } := by
  obtain ⟨flight, hreported, hfree, hheld, hexact⟩ := h.reported
  refine ⟨⟨flight, hreported.queue_control htag bytes, hfree, hheld, fun hc => ?_⟩, h.encoded_old, ?_,
    h.intact⟩
  · rw [Outgoing.tags_queue, filterMap_append, hexact hc, filterMap_cons_none htag,
      filterMap_nil, append_nil]
  · intro block hb
    rcases mem_append.mp hb with hb | hb
    · exact h.encoded_live block hb
    · rw [mem_singleton.mp hb]
      exact hbytes

/-- The block of a buffer. -/
theorem queue_data (hfree : w.inFlight = none) {buf : List γ}
    {n : Nat} (hn : 0 < n) (htag : F.data tag = some (buf.take n))
    (hbytes : bytes = F.encode tag) :
    Framed F calm
      { w with wire := w.wire.queue tag bytes, inFlight := some n, pended := some buf } := by
  obtain ⟨flight, hreported, hnone, -, hexact⟩ := h.reported
  obtain rfl := hnone hfree
  refine ⟨⟨some (buf.take n), hreported.queue_data htag bytes, nofun, ?_,
    fun hc => ?_⟩, h.encoded_old, ?_, h.intact⟩
  · intro m hm
    obtain rfl := Option.some.inj hm
    exact ⟨hn, fun _ => ⟨buf, rfl, rfl⟩⟩
  · rw [Outgoing.tags_queue, filterMap_append, hexact hc, filterMap_cons_some htag,
      filterMap_nil, Option.toList_none, append_nil, Option.toList_some]
  · intro block hb
    rcases mem_append.mp hb with hb | hb
    · exact h.encoded_live block hb
    · rw [mem_singleton.mp hb]
      exact hbytes

/-- A poll with the buffer of the block in flight pends. -/
theorem pend {buf : List γ} (hretry : ∀ pended ∈ w.pended, buf = pended) :
    Framed F calm { w with pended := some buf } := by
  obtain ⟨flight, hreported, hfree, hheld, hexact⟩ := h.reported
  refine ⟨⟨flight, hreported, hfree, fun n hn => ?_, hexact⟩, h.encoded_old, h.encoded_live, h.intact⟩
  obtain ⟨hpos, hopen⟩ := hheld n hn
  refine ⟨hpos, fun hclosed => ?_⟩
  obtain ⟨pended, hpended, rfl⟩ := hopen hclosed
  exact ⟨buf, rfl, by rw [hretry pended hpended]⟩

/-- The caller is told nothing about a block. -/
theorem answer (hnone : w.inFlight = none ∨ w.closed) :
    Framed F calm { w with pended := none } := by
  obtain ⟨flight, hreported, hfree, hheld, hexact⟩ := h.reported
  refine ⟨⟨flight, hreported, hfree, fun n hn => ?_, hexact⟩, h.encoded_old, h.encoded_live, h.intact⟩
  obtain ⟨hpos, -⟩ := hheld n hn
  refine ⟨hpos, fun hopen => ?_⟩
  rcases hnone with hnone | hclosed
  · cases hnone.symm.trans hn
  · cases hopen.symm.trans hclosed

/-- The caller is told of a failure, and the block is given up. -/
theorem fail {answer : FlushAnswer}
    (hflush : w.wire.Flushed turns answer o' turns') (hcalm : calm → ∀ t ∈ turns, t.Calm)
    (hanswer : answer = .failed ∨ answer = .zero) :
    Framed F calm { w with wire := o', inFlight := none, pended := none } := by
  obtain ⟨hold, hlive, hintact⟩ := h.blocks_flush hflush hcalm
  obtain ⟨flight, hreported, -⟩ := h.reported
  have hne : answer ≠ .pending := by
    rcases hanswer with rfl | rfl <;> exact nofun
  refine ⟨⟨none, hreported.fail hflush hne, fun _ => rfl, nofun, fun hc => ?_⟩,
    hold, hlive, hintact⟩
  rcases (hflush.calm (hcalm hc)).2 with rfl | rfl
  · exact absurd rfl hne
  · rcases hanswer with hf | hf <;> cases hf

/-- The writer is closed. -/
theorem close : Framed F calm { w with closed := true } := by
  obtain ⟨flight, hreported, hfree, hheld, hexact⟩ := h.reported
  refine ⟨⟨flight, hreported, hfree, fun n hn => ⟨(hheld n hn).1, fun hopen => ?_⟩, hexact⟩,
    h.encoded_old, h.encoded_live, h.intact⟩
  cases hopen

end

section Complete

variable {n : Nat} {buf : List γ}

section

variable (h : Framed F calm w) (hflight : w.inFlight = some n) (hopen : w.closed = false)
  (hretry : ∀ pended ∈ w.pended, buf = pended)

include h hflight hopen hretry

/-- The block in flight is the one of the buffer. -/
theorem flight_eq :
    0 < n ∧ w.wire.Reported F.data w.acks (some (buf.take n)) ∧
      (calm → w.wire.tags.filterMap F.data = w.acks ++ [buf.take n]) := by
  obtain ⟨flight, hreported, -, hheld, hexact⟩ := h.reported
  obtain ⟨hpos, hheld⟩ := hheld n hflight
  obtain ⟨pended, hpended, rfl⟩ := hheld hopen
  rw [hretry pended hpended]
  exact ⟨hpos, hreported, hexact⟩

/-- When the caller is told, the block was taken as a whole. -/
theorem lastWhole (hlive : w.wire.live = []) :
    Outgoing.LastWhole F.data w.acks (buf.take n) w.wire.ledger :=
  (h.flight_eq hflight hopen hretry).2.1.lastWhole hlive

/-- The caller is told. -/
theorem complete (hlive : w.wire.live = []) :
    Framed F calm { w with
      acks := if n = 0 then w.acks else w.acks ++ [buf.take n], inFlight := none, pended := none } := by
  obtain ⟨hpos, hreported, hexact⟩ := h.flight_eq hflight hopen hretry
  rw [if_neg (Nat.ne_of_gt hpos)]
  refine ⟨⟨none, hreported.report hlive, fun _ => rfl, nofun, fun hc => ?_⟩,
    h.encoded_old, h.encoded_live, h.intact⟩
  exact (hexact hc).trans (append_nil _).symm

end

end Complete

/-! ## Writers over a stream that does not fail -/

/-- If no flush fails, the blocks are those told and the one in flight. -/
theorem data_tags (h : Framed F calm w) (hcalm : calm) :
    ∃ flight : Option (List γ), w.wire.tags.filterMap F.data = w.acks ++ flight.toList ∧
      (w.inFlight = none → flight = none) := by
  obtain ⟨flight, -, hfree, -, hexact⟩ := h.reported
  exact ⟨flight, hexact hcalm, hfree⟩

/-- If no flush fails, everything was taken of the blocks that were cleared. -/
theorem accepted_old (h : Framed F calm w) (hcalm : calm) :
    w.wire.old.flatMap Block.accepted = (w.wire.old.map Block.tag).flatMap F.encode := by
  rw [flatMap_map]
  refine flatMap_congr fun block hblock => ?_
  rw [Block.accepted_of_whole (h.intact hcalm block hblock), h.encoded_old block hblock]

/-- If no flush fails, what was taken and what is queued are the bytes of the blocks. -/
theorem sent_unsent (h : Framed F calm w) (hcalm : calm) :
    w.wire.sent ++ w.wire.unsent = w.wire.tags.flatMap F.encode := by
  have hlive : w.wire.out = (w.wire.live.map Prod.fst).flatMap F.encode := by
    rw [h.valid.out_eq, flatMap_map]
    exact flatMap_congr fun block hblock => h.encoded_live block hblock
  rw [h.valid.sent_eq_append, Outgoing.unsent, append_assoc, take_append_drop,
    h.accepted_old hcalm, hlive, ← flatMap_append]
  rfl

/-- If no flush fails and every block has data, the blocks that were told are taken as a whole. -/
theorem told_sent (h : Framed F calm w) (hcalm : calm)
    (hdata : ∀ tag, (F.data tag).isSome) :
    (w.wire.tags.take w.acks.length).flatMap F.encode <+: w.wire.sent := by
  obtain ⟨flight, hreported, -, -, hexact⟩ := h.reported
  have hlength (tags : List τ) : (tags.filterMap F.data).length = tags.length := by
    rw [filterMap_length_eq_length]
    exact fun tag _ => hdata tag
  have hlive : (Outgoing.queuedData F.data w.wire.live).length = w.wire.live.length := by
    rw [Outgoing.queuedData, filterMap_length_eq_length]
    exact fun block _ => hdata block.1
  have htags := congrArg length (hexact hcalm)
  rw [hlength, Outgoing.tags, length_append, length_map, length_map, length_append] at htags
  have hacks : w.acks.length ≤ w.wire.old.length := by
    cases flight with
    | none =>
      rw [hreported.free rfl] at hlive
      rw [← hlive] at htags
      exact le_of_eq htags.symm
    | some b =>
      rw [Option.toList_some, length_singleton] at htags
      rcases hreported.held b rfl with hone | ⟨hnone, -⟩
      · rw [hone, length_singleton] at hlive
        omega
      · rw [hnone, length_nil] at hlive
        omega
  rw [h.valid.sent_eq_append, h.accepted_old hcalm, Outgoing.tags,
    take_append_of_le_length (by rw [length_map]; exact hacks)]
  refine List.IsPrefix.trans ?_ (prefix_append _ _)
  exact List.IsPrefix.flatMap ( take_prefix _ _) _

end Framed

end AsyncIo
