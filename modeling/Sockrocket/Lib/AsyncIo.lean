import Mathlib

/-!
# Polled byte streams

A stream is polled: it answers at once, with some of the bytes there are, or later. `Behaviour` is
the freedom of the other side in one poll, so a claim for every behaviour is one for every pattern
of short reads, short writes and waiting. `read` is a poll of a reliable source, of which nothing is
lost; an answer without bytes means its end.
-/

namespace AsyncIo

open List

variable {α β : Type*}

/-- The answer to a poll. -/
inductive Poll (β : Type*) where
  | pending
  | failed
  | ready (value : β)
deriving DecidableEq, Repr

/-- The bytes that a poll brought. -/
def Poll.bytes : Poll (List α) → List α
  | .ready bytes => bytes
  | _ => []

/-- What the other side does in one poll. -/
inductive Behaviour where
  | pending
  | failed
  | ready (size : Nat)
deriving DecidableEq, Repr

namespace Behaviour

/-- The other side does not fail, and takes bytes if it takes part in a write. -/
def Calm (behaviour : Behaviour) : Prop :=
  behaviour ≠ .failed ∧ behaviour ≠ .ready 0

instance (behaviour : Behaviour) : Decidable behaviour.Calm :=
  inferInstanceAs (Decidable (_ ∧ _))

/-- The other side answers at once, and takes bytes if it takes part in a write. -/
def Prompt (behaviour : Behaviour) : Prop :=
  ∃ size, behaviour = .ready (size + 1)

theorem not_prompt_pending : ¬ Prompt .pending := by
  rintro ⟨size, hsize⟩
  cases hsize

theorem not_prompt_failed : ¬ Prompt .failed := by
  rintro ⟨size, hsize⟩
  cases hsize

theorem not_prompt_zero : ¬ Prompt (.ready 0) := by
  rintro ⟨size, hsize⟩
  cases hsize

/-- A poll for at most `room` bytes of a source, and what is left of it. -/
def read (behaviour : Behaviour) (source : List α) (room : Nat) : Poll (List α) × List α :=
  match behaviour with
  | .pending => (.pending, source)
  | .failed => (.failed, source)
  | .ready size =>
    (.ready (source.take (min (max 1 size) room)), source.drop (min (max 1 size) room))

theorem read_bytes_append (behaviour : Behaviour) (source : List α) (room : Nat) :
    (behaviour.read source room).1.bytes ++ (behaviour.read source room).2 = source := by
  cases behaviour with
  | pending | failed => rfl
  | ready size => exact take_append_drop _ source

variable {behaviour : Behaviour} {source rest : List α}

variable {bytes : List α} {room : Nat}

theorem length_of_read
    (h : behaviour.read source room = (.ready bytes, rest)) : bytes.length ≤ room := by
  cases behaviour with
  | pending | failed => cases h
  | ready size =>
    obtain ⟨hbytes, -⟩ := Prod.mk.inj h
    rw [← Poll.ready.inj hbytes, length_take]
    omega

theorem eq_pending_of_read (h : behaviour.read source room = (.pending, rest)) :
    behaviour = .pending := by
  cases behaviour with
  | pending => rfl
  | failed | ready size => cases h

theorem eq_failed_of_read (h : behaviour.read source room = (.failed, rest)) :
    behaviour = .failed := by
  cases behaviour with
  | pending => cases h
  | failed => rfl
  | ready size => cases h

theorem append_of_read
    (h : behaviour.read source room = (.ready bytes, rest)) : bytes ++ rest = source := by
  have hall := behaviour.read_bytes_append source room
  rwa [h] at hall

/-- A poll with room brings nothing only at the end of the source. -/
theorem source_of_read_nil (hroom : 0 < room)
    (h : behaviour.read source room = (.ready [], rest)) : source = [] := by
  cases behaviour with
  | pending | failed => cases h
  | ready size =>
    obtain ⟨hbytes, -⟩ := Prod.mk.inj h
    have hlength := congrArg length (Poll.ready.inj hbytes)
    rw [length_take, length_nil] at hlength
    exact eq_nil_of_length_eq_zero (by omega)

end Behaviour

/-! ## Filling a buffer -/

/-- How the filling of a buffer ended: the stream pends, failed or is at its end, or the buffer is
full. -/
inductive FillAnswer where
  | pending
  | failed
  | ended
  | full
deriving DecidableEq, Repr

/-- Read until there are `want` bytes. -/
def fill (want : Nat) (got source : List α) :
    List Behaviour → FillAnswer × List α × List α × List Behaviour
  | [] => (if got.length < want then .pending else .full, got, source, [])
  | turn :: turns =>
    if got.length < want then
      match turn.read source (want - got.length) with
      | (.pending, _) => (.pending, got, source, turns)
      | (.failed, _) => (.failed, got, source, turns)
      | (.ready [], _) => (.ended, got, source, turns)
      | (.ready (b :: bytes), rest) => fill want (got ++ b :: bytes) rest turns
    else (.full, got, source, turn :: turns)

/-- The turns are used from the front. -/
theorem fill_suffix (want : Nat) (got source : List α) (turns : List Behaviour) :
    (fill want got source turns).2.2.2 <:+ turns := by
  induction turns generalizing got source with
  | nil => exact suffix_refl _
  | cons turn turns ih =>
    have htail : turns <:+ turn :: turns := suffix_cons _ _
    rw [fill.eq_def]
    dsimp only
    split
    · generalize turn.read source (want - got.length) = result
      obtain ⟨answer, rest⟩ := result
      match answer with
      | .pending | .failed | .ready [] => exact htail
      | .ready (b :: bytes) => exact (ih _ _).trans htail
    · exact suffix_refl _

/-- What `fill` does: it moves bytes to those it has. -/
structure Filled (want : Nat) (got source : List α) (turns : List Behaviour) (answer : FillAnswer)
    (got' source' : List α) (turns' : List Behaviour) : Prop where
  moved : ∃ moved, got' = got ++ moved ∧ source = moved ++ source'
  le : got'.length ≤ want
  full : answer = .full → want ≤ got'.length
  short : answer ≠ .full → got'.length < want
  ended : answer = .ended → source' = []
  failed : answer = .failed → ¬ ∀ t ∈ turns, t.Calm
  prompt : (∀ t ∈ turns, t.Prompt) → source.length < turns.length → answer ≠ .pending ∧
    (answer = .full → turns.length + source'.length ≤ turns'.length + source.length)

variable {want : Nat} {got : List α}

theorem filled (hle : got.length ≤ want) (source : List α)
    (turns : List Behaviour) :
    Filled want got source turns (fill want got source turns).1 (fill want got source turns).2.1
      (fill want got source turns).2.2.1 (fill want got source turns).2.2.2 := by
  have hstay (bytes source : List α) : ∃ moved, bytes = bytes ++ moved ∧ source = moved ++ source :=
    ⟨[], (append_nil _).symm, rfl⟩
  induction turns generalizing got source with
  | nil =>
    rw [fill]
    by_cases hless : got.length < want
    · rw [if_pos hless]
      exact ⟨hstay _ _, hle, nofun, fun _ => hless,
        nofun, nofun, fun _ h => absurd h (Nat.not_lt_zero _)⟩
    rw [if_neg hless]
    exact ⟨hstay _ _, hle, fun _ => Nat.le_of_not_lt hless,
      fun h => absurd rfl h, nofun, nofun,
      fun _ h => absurd h (Nat.not_lt_zero _)⟩
  | cons turn turns ih =>
    rw [fill.eq_def]
    dsimp only
    by_cases hless : got.length < want
    · rw [if_pos hless]
      generalize hread : turn.read source (want - got.length) = result
      obtain ⟨answer, rest⟩ := result
      match answer with
      | .pending =>
        obtain rfl := Behaviour.eq_pending_of_read hread
        exact ⟨hstay _ _, hle, nofun, fun _ => hless,
          nofun, nofun,
          fun hprompt => absurd (hprompt _ mem_cons_self) Behaviour.not_prompt_pending⟩
      | .failed =>
        obtain rfl := Behaviour.eq_failed_of_read hread
        exact ⟨hstay _ _, hle, nofun, fun _ => hless,
          nofun, fun _ hcalm => absurd rfl (hcalm _ mem_cons_self).1,
          fun hprompt => absurd (hprompt _ mem_cons_self) Behaviour.not_prompt_failed⟩
      | .ready [] =>
        have hend := Behaviour.source_of_read_nil (by omega) hread
        exact ⟨hstay _ _, hle, nofun, fun _ => hless,
          fun _ => hend, nofun,
          fun _ _ => ⟨nofun, nofun⟩⟩
      | .ready (b :: bytes) =>
        have hsource := Behaviour.append_of_read hread
        have hroom := Behaviour.length_of_read hread
        have hlength : (b :: bytes).length + rest.length = source.length := by
          rw [← hsource, length_append]
        have hfits : (got ++ b :: bytes).length ≤ want := by
          rw [length_append]
          omega
        rw [length_cons] at hlength
        dsimp only
        obtain ⟨⟨moved, hgot, hmoved⟩, le, full, short, ended, failed, prompt⟩ :=
          ih hfits rest
        refine ⟨⟨b :: bytes ++ moved, ?_, ?_⟩, le, full, short, ended, ?_, ?_⟩
        · rw [hgot, append_assoc]
        · rw [← hsource, append_assoc, ← hmoved]
        · exact fun he hcalm => failed he fun t ht => hcalm t (mem_cons_of_mem _ ht)
        · intro hprompt hlen
          rw [length_cons] at hlen ⊢
          obtain ⟨hsome, hused⟩ := prompt
            (fun t ht => hprompt t (mem_cons_of_mem _ ht)) (by omega)
          exact ⟨hsome, fun hok => by have := hused hok; omega⟩
    · rw [if_neg hless]
      exact ⟨hstay _ _, hle, fun _ => Nat.le_of_not_lt hless,
        fun h => absurd rfl h, nofun, nofun,
        fun _ _ => ⟨nofun, fun _ => le_rfl⟩⟩

/-- Nothing is lost. -/
theorem Filled.length_add {source got' source' : List α}
    {turns turns' : List Behaviour} {answer : FillAnswer}
    (h : Filled want got source turns answer got' source' turns') :
    got'.length + source'.length = got.length + source.length := by
  obtain ⟨moved, rfl, rfl⟩ := h.moved
  rw [length_append, length_append]
  omega

/-! ## Exact reads

The stream arrives in chunks, of which none is empty; a read of a given number of bytes goes over as
many of them as it takes. -/

/-- Read `n` bytes, `none` if the stream ends before. -/
def readExact : Nat → List (List α) → Option (List α × List (List α))
  | 0, chunks => some ([], chunks)
  | _ + 1, [] => none
  | _ + 1, [] :: _ => none
  | n + 1, (a :: chunk) :: chunks =>
    if n < chunk.length then some (a :: chunk.take n, chunk.drop n :: chunks)
    else (readExact (n - chunk.length) chunks).map fun (bytes, rest) => (a :: chunk ++ bytes, rest)

/-- However the stream is cut, an exact read takes its first bytes. -/
theorem readExact_append {chunks : List (List α)} (hne : ∀ chunk ∈ chunks, chunk ≠ [])
    {bytes tail : List α} (hchunks : chunks.flatten = bytes ++ tail) :
    ∃ rest, readExact bytes.length chunks = some (bytes, rest) ∧
      (∀ chunk ∈ rest, chunk ≠ []) ∧ rest.flatten = tail := by
  induction chunks generalizing bytes with
  | nil =>
    obtain ⟨rfl, rfl⟩ := append_eq_nil_iff.mp hchunks.symm
    exact ⟨[], rfl, hne, rfl⟩
  | cons chunk chunks ih =>
    match bytes, chunk with
    | [], chunk => exact ⟨chunk :: chunks, rfl, hne, hchunks⟩
    | b :: bytes, [] => exact absurd rfl (hne [] mem_cons_self)
    | b :: bytes, a :: chunk =>
      have hrest : ∀ chunk ∈ chunks, chunk ≠ [] :=
        fun c hc => hne c (mem_cons_of_mem _ hc)
      obtain ⟨rfl, hsplit⟩ := cons.inj hchunks
      change chunk ++ chunks.flatten = bytes ++ tail at hsplit
      rw [length_cons, readExact]
      by_cases hlength : bytes.length < chunk.length
      · -- the bytes end inside of the first chunk
        rw [if_pos hlength]
        obtain ⟨more, rfl, hmore⟩ | ⟨more, rfl, -⟩ := append_eq_append_iff.mp hsplit
        · rw [length_append] at hlength
          omega
        rw [take_left, drop_left]
        refine ⟨more :: chunks, rfl, ?_, ?_⟩
        · intro c hc
          rcases mem_cons.mp hc with rfl | hc
          · rintro rfl
            rw [append_nil] at hlength
            omega
          · exact hrest c hc
        · rw [flatten_cons]
          exact append_cancel_left ((append_assoc _ _ _).symm.trans hsplit)
      · rw [if_neg hlength]
        obtain ⟨more, hbytes, hmore⟩ : ∃ more, bytes = chunk ++ more ∧
            chunks.flatten = more ++ tail := by
          refine ⟨bytes.drop chunk.length, ?_, ?_⟩
          · have htake := congrArg (take chunk.length) hsplit
            rw [take_left, take_append_of_le_length (not_lt.mp hlength)] at htake
            exact (take_append_drop chunk.length bytes).symm.trans
              (congrArg (· ++ _) htake.symm)
          · have hdrop := congrArg (drop chunk.length) hsplit
            rwa [drop_left, drop_append_of_le_length (not_lt.mp hlength)] at hdrop
        subst hbytes
        obtain ⟨rest, hread, hrest, hflat⟩ := ih hrest hmore
        refine ⟨rest, ?_, hrest, hflat⟩
        rw [length_append, Nat.add_sub_cancel_left, hread]
        rfl

end AsyncIo
