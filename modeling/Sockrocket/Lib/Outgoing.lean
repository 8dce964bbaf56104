import Sockrocket.Lib.AsyncIo

/-!
# Queues of bytes to a polled stream

A writer queues blocks of bytes, and the stream below takes a part of them at a time. `Outgoing` is
such a queue: `out` from `pos` on is still to be written. When everything was written, or the stream
below failed, the queue is cleared.

No function reads the history: `live` are the blocks in `out`, `old` those that were cleared, each
with the number of its bytes that were taken. `Valid` says that the stream below has exactly the
bytes taken, block by block. `flush` has one specification, `flushed`.
-/

namespace AsyncIo

open List

variable {τ α : Type*}

/-- A block that was queued, and how many of its bytes the stream below took. -/
structure Block (τ α : Type*) where
  tag : τ
  bytes : List α
  taken : Nat
deriving DecidableEq, Repr

namespace Block

/-- The bytes that were taken. -/
def accepted (block : Block τ α) : List α :=
  block.bytes.take block.taken

/-- All bytes were taken. -/
def Whole (block : Block τ α) : Prop :=
  block.bytes.length ≤ block.taken

/-- A block of which everything was taken. -/
def whole (block : τ × List α) : Block τ α :=
  ⟨block.1, block.2, block.2.length⟩

theorem whole_whole (block : τ × List α) : (whole block).Whole :=
  le_rfl

theorem accepted_of_whole {block : Block τ α} (h : block.Whole) : block.accepted = block.bytes :=
  take_of_length_le h

end Block

/-- What was taken of each block, if the first `n` bytes were taken of all of them. -/
def cut : List (τ × List α) → Nat → List (Block τ α)
  | [], _ => []
  | (tag, bytes) :: rest, n => ⟨tag, bytes, min n bytes.length⟩ :: cut rest (n - bytes.length)

theorem flatMap_cut (blocks : List (τ × List α)) (n : Nat) :
    (cut blocks n).flatMap Block.accepted = (blocks.flatMap Prod.snd).take n := by
  induction blocks generalizing n with
  | nil => rw [flatMap_nil, take_nil]; rfl
  | cons block rest ih =>
    rw [cut, flatMap_cons, flatMap_cons, ih, take_append, Block.accepted]
    exact congrArg (· ++ _) take_eq_take_min.symm

theorem map_tag_cut (blocks : List (τ × List α)) (n : Nat) :
    (cut blocks n).map Block.tag = blocks.map Prod.fst := by
  induction blocks generalizing n with
  | nil => rfl
  | cons block rest ih => rw [cut, map_cons, map_cons, ih]

theorem cut_of_le {blocks : List (τ × List α)} {n : Nat}
    (h : (blocks.flatMap Prod.snd).length ≤ n) : cut blocks n = blocks.map Block.whole := by
  induction blocks generalizing n with
  | nil => rfl
  | cons block rest ih =>
    rw [flatMap_cons, length_append] at h
    rw [cut, map_cons, ih (by omega), Nat.min_eq_right (by omega)]
    rfl

/-- What is queued for a stream, and what it took. -/
structure Outgoing (τ α : Type*) where
  sent : List α
  out : List α
  pos : Nat
  old : List (Block τ α)
  live : List (τ × List α)
deriving DecidableEq, Repr

/-- How a flush ended: the stream below pends, failed or took nothing, or everything is written. -/
inductive FlushAnswer where
  | pending
  | failed
  | zero
  | done
deriving DecidableEq, Repr

namespace Outgoing

/-- Nothing was queued. -/
def empty : Outgoing τ α :=
  ⟨[], [], 0, [], []⟩

/-- What is still to be written. -/
def unsent (o : Outgoing τ α) : List α :=
  o.out.drop o.pos

/-- A block at the end of the queue. -/
def queue (o : Outgoing τ α) (tag : τ) (bytes : List α) : Outgoing τ α :=
  { o with out := o.out ++ bytes, live := o.live ++ [(tag, bytes)] }

/-- The queue is cleared. -/
def clear (o : Outgoing τ α) : Outgoing τ α :=
  { o with out := [], pos := 0, old := o.old ++ cut o.live o.pos, live := [] }

/-- Write until the queue is empty, and flush the stream below. -/
def flush (o : Outgoing τ α) :
    List Behaviour → FlushAnswer × Outgoing τ α × List Behaviour
  | [] => (.pending, if o.pos < o.out.length then o else o.clear, [])
  | turn :: turns =>
    if o.pos < o.out.length then
      match turn with
      | .pending => (.pending, o, turns)
      | .failed => (.failed, o.clear, turns)
      | .ready size =>
        let n := min size (o.out.length - o.pos)
        if n = 0 then (.zero, o.clear, turns)
        else flush { o with sent := o.sent ++ o.unsent.take n, pos := o.pos + n } turns
    else
      match turn with
      | .pending => (.pending, o.clear, turns)
      | .failed => (.failed, o.clear, turns)
      | .ready _ => (.done, o.clear, turns)

/-- The blocks with what was taken of them, in the order in which they were queued. -/
def ledger (o : Outgoing τ α) : List (Block τ α) :=
  o.old ++ cut o.live o.pos

/-- The history is that of the bytes. -/
structure Valid (o : Outgoing τ α) : Prop where
  pos_le : o.pos ≤ o.out.length
  out_eq : o.out = o.live.flatMap Prod.snd
  sent_eq : o.sent = o.ledger.flatMap Block.accepted

theorem valid_empty : (empty : Outgoing τ α).Valid :=
  ⟨Nat.le_refl 0, rfl, rfl⟩

theorem length_unsent (o : Outgoing τ α) : o.unsent.length = o.out.length - o.pos :=
  length_drop

variable {o : Outgoing τ α}

theorem unsent_eq_nil (h : ¬ o.pos < o.out.length) : o.unsent = [] :=
  drop_eq_nil_of_le (Nat.le_of_not_lt h)

namespace Valid

variable {o : Outgoing τ α}

/-- The bytes taken are those of the blocks of the past, and the first of the queue. -/
theorem sent_eq_append (h : o.Valid) :
    o.sent = o.old.flatMap Block.accepted ++ o.out.take o.pos := by
  rw [h.sent_eq, ledger, flatMap_append, flatMap_cut, ← h.out_eq]

/-- If the stream below takes more, it takes the next bytes. -/
theorem advance (h : o.Valid) {n : Nat} (hn : o.pos + n ≤ o.out.length) :
    ({ o with sent := o.sent ++ o.unsent.take n, pos := o.pos + n } : Outgoing τ α).Valid := by
  refine ⟨hn, h.out_eq, ?_⟩
  show o.sent ++ o.unsent.take n = (o.old ++ cut o.live (o.pos + n)).flatMap Block.accepted
  rw [h.sent_eq_append, flatMap_append, flatMap_cut, ← h.out_eq, append_assoc, take_add]
  rfl

theorem clear (h : o.Valid) : o.clear.Valid := by
  refine ⟨Nat.le_refl 0, rfl, ?_⟩
  rw [ledger]
  show o.sent = (o.ledger ++ []).flatMap Block.accepted
  rw [append_nil]
  exact h.sent_eq

theorem queue (h : o.Valid) (tag : τ) (bytes : List α) : (o.queue tag bytes).Valid := by
  have hle := h.pos_le
  have hout : (o.queue tag bytes).out = (o.queue tag bytes).live.flatMap Prod.snd := by
    show o.out ++ bytes = (o.live ++ [(tag, bytes)]).flatMap Prod.snd
    rw [flatMap_append, ← h.out_eq, flatMap_cons, flatMap_nil, append_nil]
  refine ⟨?_, hout, ?_⟩
  · show o.pos ≤ (o.out ++ bytes).length
    rw [length_append]
    omega
  · rw [ledger, flatMap_append, flatMap_cut, ← hout]
    show o.sent = o.old.flatMap Block.accepted ++ (o.out ++ bytes).take o.pos
    rw [h.sent_eq_append, take_append_of_le_length hle]

end Valid

theorem unsent_queue (h : o.pos ≤ o.out.length) (tag : τ) (bytes : List α) :
    (o.queue tag bytes).unsent = o.unsent ++ bytes :=
  drop_append_of_le_length h

/-- What becomes of the blocks in the queue: they stay, they were taken as a whole, or the stream
below failed after it took some of their bytes. -/
inductive Settled (o : Outgoing τ α) : FlushAnswer → Outgoing τ α → Prop where
  | kept {o' : Outgoing τ α} (live : o'.live = o.live) (old : o'.old = o.old)
      (pos : o.pos ≤ o'.pos) : Settled o .pending o'
  | drained {answer : FlushAnswer} {o' : Outgoing τ α} (live : o'.live = [])
      (old : o'.old = o.old ++ o.live.map Block.whole) : Settled o answer o'
  | torn {answer : FlushAnswer} {o' : Outgoing τ α} {n : Nat} (live : o'.live = [])
      (old : o'.old = o.old ++ cut o.live n) (pos : o.pos ≤ n)
      (failed : answer = .failed ∨ answer = .zero) : Settled o answer o'

/-- What a flush does. -/
structure Flushed (o : Outgoing τ α) (turns : List Behaviour) (answer : FlushAnswer)
    (o' : Outgoing τ α) (turns' : List Behaviour) : Prop where
  valid : o'.Valid
  suffix : turns' <:+ turns
  calm : (∀ t ∈ turns, t.Calm) → o'.sent ++ o'.unsent = o.sent ++ o.unsent ∧
    (answer = .pending ∨ answer = .done)
  cleared : answer ≠ .pending → o'.out = [] ∧ o'.pos = 0
  settled : o.Settled answer o'
  grows : o.sent <+: o'.sent
  prompt : (∀ t ∈ turns, t.Prompt) → o.unsent.length < turns.length →
    answer = .done ∧ turns.length ≤ turns'.length + (o.unsent.length + 1)

variable {o' : Outgoing τ α}

variable {turns turns' : List Behaviour} {answer : FlushAnswer}

theorem Flushed.unsent
    (h : Flushed o turns answer o' turns') (hanswer : answer ≠ .pending) : o'.unsent = [] := by
  rw [Outgoing.unsent, (h.cleared hanswer).1, drop_nil]

theorem Flushed.live
    (h : Flushed o turns answer o' turns') (hanswer : answer ≠ .pending) : o'.live = [] := by
  cases h.settled with
  | kept live old pos => exact absurd rfl hanswer
  | drained live old | torn live old pos failed => exact live

/-- The queue is cleared after everything was written. -/
theorem settled_clear (h : o.Valid) (hleft : ¬ o.pos < o.out.length) (answer : FlushAnswer) :
    o.Settled answer o.clear := by
  refine .drained rfl ?_
  rw [← cut_of_le (n := o.pos) (by rw [← h.out_eq]; omega)]
  rfl

theorem flushed (h : o.Valid) (turns : List Behaviour) :
    o.Flushed turns (o.flush turns).1 (o.flush turns).2.1 (o.flush turns).2.2 := by
  induction turns generalizing o with
  | nil =>
    rw [flush]
    by_cases hleft : o.pos < o.out.length
    · rw [if_pos hleft]
      exact ⟨h, suffix_refl _, fun _ => ⟨rfl, .inl rfl⟩, fun hne => absurd rfl hne,
        .kept rfl rfl (le_rfl), prefix_refl _,
        fun _ hlen => absurd hlen (Nat.not_lt_zero _)⟩
    · rw [if_neg hleft]
      exact ⟨h.clear, suffix_refl _,
        fun _ => ⟨by rw [unsent_eq_nil hleft]; rfl, .inl rfl⟩, fun _ => ⟨rfl, rfl⟩,
        settled_clear h hleft _, prefix_refl _,
        fun _ hlen => absurd hlen (Nat.not_lt_zero _)⟩
  | cons turn turns ih =>
    have htail : turns <:+ turn :: turns := suffix_cons _ _
    rw [flush.eq_def]
    dsimp only
    by_cases hleft : o.pos < o.out.length
    · rw [if_pos hleft]
      have htorn {answer : FlushAnswer} (hanswer : answer = .failed ∨ answer = .zero) :
          o.Settled answer o.clear := .torn rfl rfl (le_rfl) hanswer
      cases turn with
      | pending =>
        exact ⟨h, htail, fun _ => ⟨rfl, .inl rfl⟩, fun hne => absurd rfl hne,
          .kept rfl rfl (le_rfl), prefix_refl _,
          fun hprompt => absurd (hprompt _ mem_cons_self) Behaviour.not_prompt_pending⟩
      | failed =>
        exact ⟨h.clear, htail, fun hcalm => absurd rfl (hcalm _ mem_cons_self).1,
          fun _ => ⟨rfl, rfl⟩, htorn (.inl rfl), prefix_refl _,
          fun hprompt => absurd (hprompt _ mem_cons_self) Behaviour.not_prompt_failed⟩
      | ready size =>
        dsimp only
        by_cases hzero : min size (o.out.length - o.pos) = 0
        · rw [if_pos hzero]
          have hsize : size = 0 := by omega
          subst hsize
          exact ⟨h.clear, htail, fun hcalm => absurd rfl (hcalm _ mem_cons_self).2,
            fun _ => ⟨rfl, rfl⟩, htorn (.inr rfl), prefix_refl _,
            fun hprompt => absurd (hprompt _ mem_cons_self) Behaviour.not_prompt_zero⟩
        · rw [if_neg hzero]
          generalize hn : min size (o.out.length - o.pos) = n at hzero
          have hunsent := o.length_unsent
          set next : Outgoing τ α :=
            { o with sent := o.sent ++ o.unsent.take n, pos := o.pos + n } with hnext
          have hdrop : next.unsent = o.unsent.drop n := (drop_drop).symm
          have hflow : next.sent ++ next.unsent = o.sent ++ o.unsent := by
            rw [hdrop]
            rw [append_assoc, take_append_drop]
          have hvalid : next.Valid := h.advance (show o.pos + n ≤ o.out.length by omega)
          obtain ⟨valid, suffix, calm, cleared, settled, grows, prompt⟩ := ih hvalid
          generalize next.flush turns = result at *
          obtain ⟨answer, o', turns'⟩ := result
          refine ⟨valid, suffix.trans htail, ?_, cleared, ?_, (prefix_append _ _).trans grows, ?_⟩
          · intro hcalm
            rw [← hflow]
            exact calm fun t ht => hcalm t (mem_cons_of_mem _ ht)
          · have hpos : o.pos ≤ next.pos := Nat.le_add_right _ _
            cases settled with
            | kept live old pos => exact .kept live old (hpos.trans pos)
            | drained live old => exact .drained live old
            | torn live old pos failed => exact .torn live old (hpos.trans pos) failed
          · intro hprompt hlen
            have hshort : next.unsent.length = o.unsent.length - n := by
              rw [hdrop, length_drop]
            rw [length_cons] at hlen ⊢
            obtain ⟨hdone, hused⟩ := prompt
              (fun t ht => hprompt t (mem_cons_of_mem _ ht)) (by omega)
            exact ⟨hdone, by omega⟩
    · rw [if_neg hleft]
      have hnil := unsent_eq_nil hleft
      have hflow : o.clear.sent ++ o.clear.unsent = o.sent ++ o.unsent := by
        rw [hnil]
        rfl
      have hsettled := settled_clear h hleft
      cases turn with
      | pending =>
        exact ⟨h.clear, htail, fun _ => ⟨hflow, .inl rfl⟩, fun _ => ⟨rfl, rfl⟩, hsettled _,
          prefix_refl _,
          fun hprompt => absurd (hprompt _ mem_cons_self) Behaviour.not_prompt_pending⟩
      | failed =>
        exact ⟨h.clear, htail, fun hcalm => absurd rfl (hcalm _ mem_cons_self).1,
          fun _ => ⟨rfl, rfl⟩, hsettled _, prefix_refl _,
          fun hprompt => absurd (hprompt _ mem_cons_self) Behaviour.not_prompt_failed⟩
      | ready size =>
        exact ⟨h.clear, htail, fun _ => ⟨hflow, .inr rfl⟩, fun _ => ⟨rfl, rfl⟩, hsettled _,
          prefix_refl _, fun _ _ => ⟨rfl, by rw [hnil]; exact le_rfl⟩⟩

/-- The marks of the blocks, in the order in which they were queued. -/
def tags (o : Outgoing τ α) : List τ :=
  o.old.map Block.tag ++ o.live.map Prod.fst

theorem map_tag_ledger (o : Outgoing τ α) : o.ledger.map Block.tag = o.tags := by
  rw [ledger, map_append, map_tag_cut]
  rfl

theorem tags_queue (o : Outgoing τ α) (tag : τ) (bytes : List α) :
    (o.queue tag bytes).tags = o.tags ++ [tag] := by
  rw [tags, tags, queue, map_append, append_assoc]
  rfl

theorem Settled.tags (h : o.Settled answer o') :
    o'.tags = o.tags := by
  rw [Outgoing.tags, Outgoing.tags]
  cases h with
  | kept live old pos => rw [live, old]
  | drained live old =>
    rw [live, old, map_append, map_map, map_nil, append_nil]
    rfl
  | torn live old pos failed =>
    rw [live, old, map_append, map_tag_cut, map_nil, append_nil]

/-! ## Reported blocks

A writer queues at most one block with data at a time, the one in flight, and reports it once a
flush is done. `data` tells the data of a block. -/

variable {β : Type*}

/-- The data of the blocks, and whether they were taken as a whole. -/
def log (data : τ → Option β) (blocks : List (Block τ α)) : List (β × Bool) :=
  blocks.filterMap fun block =>
    (data block.tag).map fun b => (b, decide (block.bytes.length ≤ block.taken))

/-- The data of the blocks in a queue. -/
def queuedData (data : τ → Option β) (live : List (τ × List α)) : List β :=
  live.filterMap fun block => data block.1

theorem log_append (data : τ → Option β) (blocks more : List (Block τ α)) :
    log data (blocks ++ more) = log data blocks ++ log data more :=
  filterMap_append

theorem log_map_whole (data : τ → Option β) (blocks : List (τ × List α)) :
    log data (blocks.map Block.whole) = (queuedData data blocks).map fun b => (b, true) := by
  rw [log, filterMap_map, queuedData, map_filterMap]
  refine congrArg (filterMap · blocks) (funext fun block => ?_)
  show (data block.1).map (fun b => (b, decide (block.2.length ≤ block.2.length))) = _
  rw [decide_eq_true (le_rfl)]

theorem queuedData_append (data : τ → Option β) (live : List (τ × List α)) (tag : τ)
    (bytes : List α) :
    queuedData data (live ++ [(tag, bytes)]) = queuedData data live ++ (data tag).toList := by
  rw [queuedData, filterMap_append]
  refine congrArg (_ ++ ·) ?_
  rw [filterMap_cons]
  cases data tag with
  | none | some b => rfl

/-- What was reported was taken as a whole, in order: each report has a block of its own. -/
def Delivered (data : τ → Option β) (acks : List β) (blocks : List (Block τ α)) : Prop :=
  (acks.map fun b => (b, true)).Sublist (log data blocks)

/-- The last block with data was taken as a whole, and is not one of those reported. -/
def LastWhole (data : τ → Option β) (acks : List β) (b : β) (blocks : List (Block τ α)) : Prop :=
  ∃ init, log data blocks = init ++ [(b, true)] ∧ (acks.map fun b => (b, true)).Sublist init

variable {blocks : List (Block τ α)}

theorem Delivered.append {data : τ → Option β} {acks : List β}
    (h : Delivered data acks blocks) (more : List (Block τ α)) :
    Delivered data acks (blocks ++ more) := by
  rw [Delivered, log_append]
  exact h.trans (sublist_append_left _ _)

theorem LastWhole.delivered {data : τ → Option β} {acks : List β} {b : β} (h : LastWhole data acks b blocks) :
    Delivered data (acks ++ [b]) blocks := by
  obtain ⟨init, hlog, hacks⟩ := h
  rw [Delivered, hlog, map_append]
  exact hacks.append (List.Sublist.refl _)

/-- What was reported was taken as a whole; the block in flight is still in the queue, or was taken
as a whole after those. -/
structure Reported (data : τ → Option β) (o : Outgoing τ α) (acks : List β) (flight : Option β) :
    Prop where
  valid : o.Valid
  delivered : Delivered data acks o.old
  free : flight = none → queuedData data o.live = []
  held : ∀ b ∈ flight, queuedData data o.live = [b] ∨
    queuedData data o.live = [] ∧ LastWhole data acks b o.old

namespace Reported

variable {data : τ → Option β} {o o' : Outgoing τ α} {acks : List β} {flight : Option β}

theorem empty (data : τ → Option β) : Reported data (empty : Outgoing τ α) [] none :=
  ⟨valid_empty, List.Sublist.refl _, fun _ => rfl, nofun⟩

variable {tag : τ}

theorem queue_control (h : Reported data o acks flight) (htag : data tag = none)
    (bytes : List α) : Reported data (o.queue tag bytes) acks flight := by
  have hlive : queuedData data (o.queue tag bytes).live = queuedData data o.live := by
    rw [queue, queuedData_append, htag]
    exact append_nil _
  exact ⟨h.valid.queue _ _, h.delivered, by rw [hlive]; exact h.free, by rw [hlive]; exact h.held⟩

variable {b : β}

theorem queue_data (h : Reported data o acks none) (htag : data tag = some b)
    (bytes : List α) : Reported data (o.queue tag bytes) acks (some b) := by
  refine ⟨h.valid.queue _ _, h.delivered, nofun, fun b' hb => .inl ?_⟩
  obtain rfl := Option.some.inj hb
  rw [queue, queuedData_append, h.free rfl, htag]
  rfl

variable {turns turns' : List Behaviour} {answer : FlushAnswer}

/-- A flush that does not fail loses nothing. -/
theorem flush (h : Reported data o acks flight) (hflush : Flushed o turns answer o' turns')
    (hanswer : answer = .pending ∨ answer = .done) : Reported data o' acks flight := by
  cases hflush.settled with
  | kept live old pos =>
    exact ⟨hflush.valid, by rw [old]; exact h.delivered, by rw [live]; exact h.free,
      by rw [live, old]; exact h.held⟩
  | drained live old =>
    refine ⟨hflush.valid, by rw [old]; exact h.delivered.append _, fun _ => by rw [live]; rfl,
      fun b hb => .inr ⟨by rw [live]; rfl, ?_⟩⟩
    rw [old, LastWhole, log_append, log_map_whole]
    rcases h.held b hb with hlive | ⟨hlive, init, hlog, hacks⟩
    · rw [hlive]
      exact ⟨log data o.old, rfl, h.delivered⟩
    · rw [hlive]
      exact ⟨init, by rw [hlog]; exact append_nil _, hacks⟩
  | torn live old pos failed =>
    rcases hanswer with rfl | rfl <;> rcases failed with hf | hf <;> cases hf

/-- Nothing is in flight after a flush that failed, if its block is given up. -/
theorem fail (h : Reported data o acks flight) (hflush : Flushed o turns answer o' turns') (hanswer : answer ≠ .pending) :
    Reported data o' acks none := by
  have hlive := hflush.live hanswer
  have hdelivered : Delivered data acks o'.old := by
    cases hflush.settled with
    | kept live old pos => exact absurd rfl hanswer
    | drained live old | torn live old pos failed => rw [old]; exact h.delivered.append _
  exact ⟨hflush.valid, hdelivered, fun _ => by rw [hlive]; rfl, nofun⟩

/-- The block in flight, once the queue is empty. -/
theorem lastWhole (h : Reported data o acks (some b)) (hlive : o.live = []) :
    LastWhole data acks b o.ledger := by
  rw [ledger, hlive]
  show LastWhole data acks b (o.old ++ [])
  rw [append_nil]
  rcases h.held b rfl with hdata | ⟨-, hlast⟩
  · rw [hlive] at hdata
    cases hdata
  · exact hlast

/-- The block in flight is reported, once the queue is empty. -/
theorem report (h : Reported data o acks (some b)) (hlive : o.live = []) :
    Reported data o (acks ++ [b]) none := by
  have hlast := h.lastWhole hlive
  rw [ledger, hlive] at hlast
  change LastWhole data acks b (o.old ++ []) at hlast
  rw [append_nil] at hlast
  exact ⟨h.valid, hlast.delivered, fun _ => by rw [hlive]; rfl, nofun⟩

end Reported

end Outgoing

end AsyncIo
