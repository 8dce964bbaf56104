import Sockrocket.Proxy.AnyTlsReuse

/-!
# Runs of an AnyTLS client

Every action of a client keeps what `Proxy.AnyTlsReuse` shows for the functions of a session, for
each session that a call, a stream, a finalizer or the list of idle sessions holds. `Isolated` reads
the law of the histories off, and `anytls_reuse_isolated` states it for every run.
-/

namespace Sockrocket

open Rust Dns AsyncIo History
open List hiding Vector

namespace AnyTlsSession

/-! ## Between sessions and client -/

variable {s : AnyTlsSession}

theorem Held.setPadding (h : Held s) (padding : Padding) :
    Held { s with padding } :=
  ⟨h.sound.congr rfl, h.intact⟩

theorem Good.setPadding (h : Good s) (padding : Padding) :
    Good { s with padding } :=
  ⟨h.held.setPadding padding, h.live.congr rfl (prefix_refl _) rfl fun hs => hs⟩

/-- A healthy session may be given back. -/
theorem Held.recycled (h : Held s) (hhealthy : s.healthy) (now : Nat) :
    Held { s.note .recycled with idleSince := now } := by
  have hallowed : Allowed s.log .recycled := by
    intro hfailed
    rw [h.intact hfailed] at hhealthy
    cases hhealthy
  refine ⟨?_, ?_⟩
  · exact (h.sound.note hallowed nofun rfl rfl rfl).congr rfl
  · intro hfailed
    rcases mem_append.mp hfailed with hfailed | hfailed
    · exact h.intact hfailed
    · cases mem_singleton.mp hfailed

/-! ## What the law says -/

/-- In a lawful history a reader has got a first part of what came for its stream. -/
theorem delivered_of_lawful {log : List SessionEvent} (h : Lawful Allowed log) :
    (viewOf log).delivered <+: (viewOf log).payload := by
  induction h with
  | nil => exact prefix_refl _
  | @snoc past event before allowed ih =>
    rw [viewOf_snoc]
    cases event with
    | opened id => exact prefix_refl _
    | delivered bytes =>
      show _ ++ bytes <+: _ ++ []
      rw [append_nil]
      exact allowed.2
    | _ =>
      show _ ++ [] <+: _ ++ _
      rw [append_nil]
      exact ih.trans (prefix_append _ _)

/-- The part of a frame that is read holds no whole frame. -/
theorem Decoded.parse_part (h : Decoded s) :
    AnyTlsFrame.parse (s.header ++ s.body) = ([], s.header ++ s.body) := by
  have htake : AnyTlsFrame.take (s.header ++ s.body) = none := by
    rw [AnyTlsFrame.take, if_neg]
    rcases h.part with ⟨hlt, hnone⟩ | ⟨hseven, hlt⟩
    · rw [hnone, append_nil]
      omega
    · rw [u16At_append (by omega), length_append]
      omega
  rw [AnyTlsFrame.parse, Incremental.drain, Incremental.drainFor_of_none]
  rw [AnyTlsFrame.step, htake]
  rfl

/-- The streams of a session are kept apart. -/
structure Isolated (s : AnyTlsSession) : Prop where
  /-- The numbers of streams grow. -/
  increasing : ∀ before k since j after,
    s.log = before ++ .opened k :: (since ++ .opened j :: after) → k < j
  /-- A reader gets what came for its stream since it was opened, in order. -/
  delivered : ∀ before k since after, s.log = before ++ .opened k :: (since ++ after) →
    (∀ j, .opened j ∉ since) →
    since.flatMap (·.delivery) <+: since.flatMap (·.payload k)
  /-- Without a stream nothing is delivered. -/
  opened : ∀ before bytes after, s.log = before ++ .delivered bytes :: after →
    ∃ k, .opened k ∈ before
  /-- Data goes out under the number of the stream. -/
  queued : ∀ before k since data after,
    s.log = before ++ .opened k :: (since ++ .queued data :: after) → (∀ j, .opened j ∉ since) →
    ∃ frames, data = AnyTlsFrame.encodeAll frames ∧ ∀ f ∈ frames, f.command = 2 → f.id = k
  /-- What is received is what the connection brought, up to a part of a frame. -/
  received : ∃ part, s.raw.taken = s.log.flatMap (·.receivedBytes) ++ part ∧
    AnyTlsFrame.parse part = ([], part)
  /-- What the connection takes is what was queued, with padding in between. -/
  sent : s.healthy = true → ∃ frames padded,
    s.log.flatMap (·.queuedBytes) = AnyTlsFrame.encodeAll frames ∧ Padded frames padded ∧
      s.raw.sent ++ s.unsent = AnyTlsFrame.encodeAll padded
  /-- A session that failed is not given back. -/
  recycled : ∀ before after, s.log = before ++ .recycled :: after → .failed ∉ before

theorem Sound.isolated (h : Sound s) : Isolated s where
  increasing before k since j after hlog := by
    have hsplit : s.log = (before ++ .opened k :: since) ++ .opened j :: after := by
      rw [hlog, append_assoc, cons_append]
    exact h.lawful.allowed_at hsplit k
      (mem_append_right _ mem_cons_self)
  delivered before k since after hlog hsince := by
    have hsplit : s.log = (before ++ .opened k :: since) ++ after := by
      rw [hlog, append_assoc, cons_append]
    have hlawful := h.lawful
    rw [hsplit] at hlawful
    have hview := delivered_of_lawful hlawful.of_append
    rwa [viewOf_opened before k hsince] at hview
  opened before bytes after hlog := (h.lawful.allowed_at hlog).1
  queued before k since data after hlog hsince := by
    have hsplit : s.log = (before ++ .opened k :: since) ++ .queued data :: after := by
      rw [hlog, append_assoc, cons_append]
    obtain ⟨frames, hdata, hown⟩ := h.lawful.allowed_at hsplit
    rw [viewOf_opened before k hsince] at hown
    exact ⟨frames, hdata, hown⟩
  received := ⟨s.header ++ s.body, by rw [h.decoded.taken, append_assoc], h.decoded.parse_part⟩
  sent hs := by
    obtain ⟨frames, hframes⟩ := exists_queued h.lawful
    obtain ⟨padded, hpadded, hwired⟩ := h.framed hs
    rw [hframes, AnyTlsFrame.parse_encodeAll] at hpadded
    exact ⟨frames, padded, hframes, hpadded, hwired.all⟩
  recycled before after hlog := h.lawful.allowed_at hlog

end AnyTlsSession

variable {address : Bytes}

theorem length_socksAddress {host : Str} {port : UInt16}
    (h : socksAddress host port = some address) : address.length ≤ 259 := by
  rw [socksAddress] at h
  split at h
  · cases h
  split at h
  · obtain rfl := Option.some.inj h
    show 4 + 1 + 2 ≤ 259
    decide
  · rename_i ip hip
    obtain rfl := Option.some.inj h
    rw [length_append, length_cons, length_ipv6Octets]
    show 16 + 1 + 2 ≤ 259
    decide
  · split at h
    · cases h
    rename_i hlen
    obtain rfl := Option.some.inj h
    rw [length_append, length_append, length_utf8Encode]
    show 2 + len host + 2 ≤ 259
    omega

theorem AnyTlsTarget.length_address {target : AnyTlsTarget}
    (h : target.address = some address) : address.length < 65536 := by
  cases target with
  | stream host port =>
    have hlength := length_socksAddress h
    omega
  | datagram host port =>
    rw [AnyTlsTarget.address] at h
    obtain ⟨request, hrequest, h⟩ := Option.bind_eq_some_iff.mp h
    obtain ⟨first, hfirst, h⟩ := Option.bind_eq_some_iff.mp h
    obtain rfl := Option.some.inj h
    have hrequest := length_socksAddress hrequest
    have hfirst := length_socksAddress hfirst
    rw [length_append, length_cons]
    omega

namespace AnyTlsClient

open AnyTlsSession

/-! ## The invariant -/

/-- Every session is as its holder needs it. -/
structure Inv (c : AnyTlsClient) : Prop where
  idle : ∀ s ∈ c.idle, Held s
  opening : ∀ o ∈ c.opening, Good o.session ∧ o.address.length < 65536
  streams : ∀ s ∈ c.streams, Good s
  finalizers : ∀ s ∈ c.finalizers, Held s
  closed : ∀ s ∈ c.closed, Sound s
  limit : c.idle.length ≤ idleLimit

variable {c : AnyTlsClient}

theorem Inv.isolated (h : Inv c) : ∀ s ∈ c.sessions, Isolated s := by
  intro s hs
  simp only [sessions, mem_append, mem_map] at hs
  rcases hs with (((hs | ⟨o, ho, rfl⟩) | hs) | hs) | hs
  · exact (h.idle s hs).sound.isolated
  · exact (h.opening o ho).1.held.sound.isolated
  · exact (h.streams s hs).held.sound.isolated
  · exact (h.finalizers s hs).sound.isolated
  · exact (h.closed s hs).isolated

theorem inv_new (padding : Padding) (keepIdle : Bool) : Inv (new padding keepIdle) where
  idle s hs := by cases hs
  opening o ho := by cases ho
  streams s hs := by cases hs
  finalizers s hs := by cases hs
  closed s hs := by cases hs
  limit := Nat.zero_le _

variable {α : Type*} {P : α → Prop} {l : List α} {a : α}

/-- What holds of the members of a list and of one more. -/
theorem forall_mem_snoc (h : ∀ x ∈ l, P x)
    (ha : P a) : ∀ x ∈ l ++ [a], P x := by
  intro x hx
  rcases mem_append.mp hx with hx | hx
  · exact h x hx
  · rw [mem_singleton.mp hx]
    exact ha

theorem forall_mem_set (h : ∀ x ∈ l, P x)
    (ha : P a) (i : Nat) : ∀ x ∈ l.set i a, P x := by
  intro x hx
  rcases mem_or_eq_of_mem_set hx with hx | rfl
  · exact h x hx
  · exact ha

theorem forall_mem_eraseIdx (h : ∀ x ∈ l, P x) (i : Nat) :
    ∀ x ∈ l.eraseIdx i, P x :=
  fun x hx => h x (mem_of_mem_eraseIdx hx)

/-- A session is closed. -/
theorem Inv.close (h : Inv c) {s : AnyTlsSession} (hs : Sound s) :
    Inv { c with closed := c.closed ++ [s] } :=
  { h with closed := forall_mem_snoc h.closed hs }

/-! ## Opening -/

variable {n : Nat} {address : Bytes}

theorem Inv.attempt (h : Inv c) (haddress : address.length < 65536)
    (choices : Choices) {s : AnyTlsSession} (hs : Held s) (hnext : s.nextId ≠ 2 ^ 32 - 1) :
    Inv (c.attempt n address choices s) :=
  { h with
    opening := forall_mem_snoc h.opening
      ⟨(hs.setPadding c.padding).openStream choices.random hnext haddress, haddress⟩ }

theorem Inv.attemptNew (h : Inv c) (haddress : address.length < 65536)
    (choices : Choices) :
    Inv (c.attemptNew n address choices) := by
  rw [AnyTlsClient.attemptNew]
  split
  · exact h
  rename_i incoming hincoming
  have hcreate : Held (create c.padding incoming c.sequence c.now) :=
    ⟨sound_create _ _ _ _, nofun⟩
  have hnext : (create c.padding incoming c.sequence c.now).nextId ≠ 2 ^ 32 - 1 := by
    show 1 ≠ 2 ^ 32 - 1
    decide
  exact Inv.attempt (c := { c with sequence := c.sequence + 1 }) { h with } haddress choices
    hcreate hnext

/-- `take_idle` gives away one of the sessions and closes others. -/
theorem takeLoop_spec (c : AnyTlsClient) {P : AnyTlsSession → Prop} {l : List AnyTlsSession}
    (h : ∀ s ∈ l, P s) :
    (∀ s, (c.takeLoop l).1 = some s → P s) ∧ (∀ s ∈ (c.takeLoop l).2.1, P s) ∧
      (∀ s ∈ (c.takeLoop l).2.2, P s) ∧ (c.takeLoop l).2.1.length ≤ l.length := by
  induction l with
  | nil => exact ⟨nofun, h, h, le_rfl⟩
  | cons s l ih =>
    have hs : P s := h s mem_cons_self
    have hl : ∀ s ∈ l, P s := fun s hs => h s (mem_cons_of_mem _ hs)
    rw [takeLoop]
    split
    · refine ⟨?_, hl, nofun, Nat.le_succ _⟩
      intro t ht
      obtain rfl := Option.some.inj ht
      exact hs
    · obtain ⟨htaken, hrest, hclosed, hlength⟩ := ih hl
      refine ⟨htaken, hrest, ?_, Nat.le_succ_of_le hlength⟩
      intro t ht
      rcases mem_cons.mp ht with rfl | ht
      · exact hs
      · exact hclosed t ht

theorem Inv.takeIdle (h : Inv c) :
    Inv c.takeIdle.2 ∧ ∀ s, c.takeIdle.1 = some s → Held s := by
  have hidle : ∀ s ∈ c.idle.reverse, Held s := fun s hs => h.idle s (mem_reverse.mp hs)
  obtain ⟨htaken, hrest, hclosed, hlength⟩ := takeLoop_spec c hidle
  refine ⟨{ h with idle := ?_, closed := ?_, limit := ?_ }, htaken⟩
  · exact fun s hs => hrest s (mem_reverse.mp hs)
  · intro s hs
    rcases mem_append.mp hs with hs | hs
    · exact h.closed s hs
    · exact (hclosed s hs).sound
  · show (c.takeLoop c.idle.reverse).2.1.reverse.length ≤ idleLimit
    rw [length_reverse] at hlength ⊢
    exact hlength.trans h.limit

theorem Inv.openFirst (h : Inv c) (haddress : address.length < 65536)
    (choices : Choices) :
    Inv (c.openFirst address choices) := by
  obtain ⟨htake, hheld⟩ := h.takeIdle
  rw [AnyTlsClient.openFirst]
  split
  · rename_i c' htaken
    rw [htaken] at htake
    exact htake.attemptNew haddress choices
  rename_i s c' htaken
  rw [htaken] at htake hheld
  have hs := hheld s rfl
  split
  · exact (htake.close hs.sound).attemptNew haddress choices
  · rename_i hnext
    exact htake.attempt haddress choices hs hnext

section Actions

variable (md5 : Bytes → Vector UInt8 16)

theorem good_pollReady {o : AnyTlsOpening} (h : Good o.session) (choices : Choices) :
    Good (pollReady md5 o choices).2.session ∧ (pollReady md5 o choices).2.address = o.address := by
  rw [pollReady]
  split
  · exact ⟨h.pollOpenReady md5 choices.random choices.turns, rfl⟩
  have hflushed := h.flush choices.turns
  split
  · rename_i s rest hflush
    rw [hflush] at hflushed
    exact ⟨hflushed, rfl⟩
  · rename_i e s rest hflush
    rw [hflush] at hflushed
    exact ⟨hflushed, rfl⟩
  · rename_i s rest hflush
    rw [hflush] at hflushed
    exact ⟨hflushed.pollOpenReady md5 choices.random rest, rfl⟩

variable {c : AnyTlsClient}

theorem Inv.pollOpening (h : Inv c) (i : Nat) (choices : Choices) :
    Inv (c.pollOpening md5 i choices) := by
  rw [AnyTlsClient.pollOpening]
  split
  · exact h
  rename_i o ho
  obtain ⟨hgood, haddress⟩ := h.opening o (mem_of_getElem? ho)
  obtain ⟨hready, hsame⟩ := good_pollReady md5 (o := { o with session := c.lend o.session })
    (hgood.setPadding c.padding) choices
  generalize pollReady md5 { o with session := c.lend o.session } choices = polled
    at hready hsame ⊢
  obtain ⟨answer, o'⟩ := polled
  have hlength : o'.address.length < 65536 := by
    rw [show o'.address = _ from hsame]
    exact haddress
  match answer with
  | none => exact { h with opening := forall_mem_set h.opening ⟨hready, hlength⟩ i }
  | some (.ok ()) =>
    exact { h with
      opening := forall_mem_eraseIdx h.opening i
      streams := forall_mem_snoc h.streams hready }
  | some (.error e) =>
    have hclosed : Inv { c with
        padding := o'.session.padding, opening := c.opening.eraseIdx i,
        closed := c.closed ++ [o'.session] } :=
      { h with
        opening := forall_mem_eraseIdx h.opening i
        closed := forall_mem_snoc h.closed hready.held.sound }
    dsimp only
    split
    · exact hclosed.attemptNew hlength choices
    · exact hclosed

/-! ## Streams and finalizers -/

theorem Inv.pollStream (h : Inv c) (i : Nat) {poll : AnyTlsSession → AnyTlsSession}
    (hpoll : ∀ s, Good s → Good (poll s)) : Inv (c.pollStream i poll) := by
  rw [AnyTlsClient.pollStream]
  split
  · exact h
  · rename_i s hs
    have hgood := h.streams s (mem_of_getElem? hs)
    exact { h with streams := forall_mem_set h.streams (hpoll _ (hgood.setPadding c.padding)) i }

theorem Inv.dropStream (h : Inv c) (i : Nat) (runtime : Bool) :
    Inv (c.dropStream i runtime) := by
  rw [AnyTlsClient.dropStream]
  split
  · exact h
  rename_i s hs
  have hgood := h.streams s (mem_of_getElem? hs)
  have hstreams := forall_mem_eraseIdx h.streams i
  dsimp only
  split
  · exact { h with streams := hstreams, closed := forall_mem_snoc h.closed hgood.held.sound }
  · exact { h with
      streams := hstreams, finalizers := forall_mem_snoc h.finalizers hgood.held }

/-- A session is given back only if it is healthy, and the list of idle sessions is cut. -/
theorem Inv.recycle (h : Inv c) {s : AnyTlsSession} (hs : Held s) :
    Inv (c.recycle s) := by
  rw [AnyTlsClient.recycle]
  split
  · exact h.close hs.sound
  rename_i hkeep
  have hhealthy : s.healthy := by
    simp only [Bool.or_eq_true, Bool.not_eq_true', not_or, Bool.not_eq_false] at hkeep
    exact hkeep.2
  have hidle : ∀ t ∈ (c.idle ++ [{ s.note .recycled with idleSince := c.now }]).mergeSort
      fun a b => a.sequence ≤ b.sequence, Held t :=
    fun t ht => forall_mem_snoc h.idle (hs.recycled hhealthy c.now) t (mem_mergeSort.mp ht)
  have hlength : ((c.idle ++ [{ s.note .recycled with idleSince := c.now }]).mergeSort
      fun a b => a.sequence ≤ b.sequence).length = c.idle.length + 1 := by
    rw [length_mergeSort, length_append, length_singleton]
  have hlimit := h.limit
  dsimp only
  split
  · refine { h with idle := ?_, closed := ?_, limit := ?_ }
    · exact fun t ht => hidle t (mem_of_mem_tail ht)
    · intro t ht
      rcases mem_append.mp ht with ht | ht
      · exact h.closed t ht
      · exact (hidle t (mem_of_mem_take ht)).sound
    · rw [length_tail, hlength]
      exact hlimit
  · rename_i hfits
    exact { h with idle := hidle, limit := not_lt.mp hfits }

theorem Inv.pollFinalizer (h : Inv c) (i : Nat) (choices : Choices) :
    Inv (c.pollFinalizer i choices) := by
  rw [AnyTlsClient.pollFinalizer]
  split
  · exact h
  rename_i s hs
  have hheld : Held (c.lend s) := (h.finalizers s (mem_of_getElem? hs)).setPadding c.padding
  have hpolled := hheld.pollFinalizer choices.random choices.turns
  have hrest : Inv { c with finalizers := c.finalizers.eraseIdx i } :=
    { h with finalizers := forall_mem_eraseIdx h.finalizers i }
  split
  · rename_i t hpoll
    rw [hpoll] at hpolled
    exact { h with finalizers := forall_mem_set h.finalizers hpolled i }
  · rename_i t hpoll
    rw [hpoll] at hpolled
    exact hrest.recycle hpolled
  · rename_i e t hpoll
    rw [hpoll] at hpolled
    exact hrest.close hpolled.sound

/-! ## The reaper -/

theorem Inv.reapAll (random : Nat → Nat → Nat) {l : List AnyTlsSession} (hl : ∀ s ∈ l, Held s)
    (turns : List (List Behaviour)) (h : Inv c) (hroom : c.idle.length + l.length ≤ idleLimit) :
    Inv (reapAll md5 random l turns c) := by
  induction l generalizing turns c with
  | nil => exact h
  | cons s l ih =>
    have hs : Held (c.lend s) := (hl s mem_cons_self).setPadding c.padding
    have hrest : ∀ s ∈ l, Held s := fun s hs => hl s (mem_cons_of_mem _ hs)
    obtain ⟨hsound, hkeep⟩ := hs.reapLoop md5 random 16 (turns.headD [])
    rw [length_cons] at hroom
    rw [AnyTlsClient.reapAll]
    generalize (c.lend s).reapLoop md5 random 16 (turns.headD []) = polled at hsound hkeep ⊢
    obtain ⟨keep, t⟩ := polled
    dsimp only at hsound hkeep ⊢
    cases keep with
    | true =>
      refine ih hrest _ { h with idle := forall_mem_snoc h.idle (hkeep rfl), limit := ?_ } ?_
      · show (c.idle ++ [t]).length ≤ idleLimit
        rw [length_append, length_singleton]
        omega
      · show (c.idle ++ [t]).length + l.length ≤ idleLimit
        rw [length_append, length_singleton]
        omega
    | false =>
      refine ih hrest _ { h with closed := forall_mem_snoc h.closed hsound } ?_
      show c.idle.length + l.length ≤ idleLimit
      omega

/-! ## Runs -/

theorem inv_step (h : Inv c) (action : Action) : Inv (c.step md5 action) := by
  cases action with
  | start target choices =>
    rw [step]
    split
    · exact h
    · rename_i address haddress
      exact h.openFirst (target.length_address haddress) choices
  | pollOpening i choices => exact h.pollOpening md5 i choices
  | cancelOpening i =>
    rw [step]
    split
    · exact h
    rename_i o ho
    exact { h with
      opening := forall_mem_eraseIdx h.opening i
      closed := forall_mem_snoc h.closed (h.opening o (mem_of_getElem? ho)).1.held.sound }
  | read i room choices =>
    exact h.pollStream i fun s hs => hs.pollRead md5 choices.random room choices.turns
  | write i data choices =>
    exact h.pollStream i fun s hs => hs.pollWrite choices.random data choices.turns
  | flush i choices => exact h.pollStream i fun s hs => hs.flush choices.turns
  | shutdown i choices =>
    exact h.pollStream i fun s hs => hs.pollShutdown choices.random choices.turns
  | drop i runtime => exact h.dropStream i runtime
  | pollFinalizer i choices => exact h.pollFinalizer i choices
  | cancelFinalizer i =>
    rw [step]
    split
    · exact h
    rename_i s hs
    exact { h with
      finalizers := forall_mem_eraseIdx h.finalizers i
      closed := forall_mem_snoc h.closed (h.finalizers s (mem_of_getElem? hs)).sound }
  | reap turns random =>
    refine Inv.reapAll md5 random h.idle turns
      { h with idle := (fun s hs => by cases hs), limit := Nat.zero_le _ } ?_
    show 0 + c.idle.length ≤ idleLimit
    rw [zero_add]
    exact h.limit
  | expire =>
    refine { h with idle := ?_, closed := ?_, limit := ?_ }
    · exact fun s hs => h.idle s (mem_of_mem_filter hs)
    · intro s hs
      rcases mem_append.mp hs with hs | hs
      · exact h.closed s hs
      · exact (h.idle s (mem_of_mem_filter hs)).sound
    · exact (length_filter_le _ _).trans h.limit
  | wait time => exact { h with }

/-- Streams that share a session one after the other do not mix. For every client and every run of
it, under any answers of the connections and any bytes from the servers, each session it has or had
is `Isolated`, and at most four sessions are idle. -/
theorem anytls_reuse_isolated (padding : Padding) (keepIdle : Bool) (actions : List Action) :
    let c := actions.foldl (step md5) (new padding keepIdle)
    (∀ s ∈ c.sessions, Isolated s) ∧ c.idle.length ≤ idleLimit := by
  intro c
  have hrun : ∀ c, Inv c → Inv (actions.foldl (step md5) c) := by
    induction actions with
    | nil => exact fun c h => h
    | cons action actions ih => exact fun c h => ih _ (inv_step md5 h action)
  have hinv := hrun _ (inv_new padding keepIdle)
  exact ⟨hinv.isolated, hinv.limit⟩

/-- Two streams on one session: the second gets its own data, and not the late data of the first. -/
example :
    let md5 := fun _ => Vector.replicate 16 0
    let server := frame (frame (frame (frame [] 2 1 [65]) 3 1 []) 2 1 [66]) 2 2 [67]
    let choices : Choices := ⟨List.replicate 40 (.ready 1000), fun _ _ => 0, some server⟩
    let target := AnyTlsTarget.stream "host".toList 443
    let actions := [.start target choices, .pollOpening 0 choices, .read 0 10 choices, .drop 0 true,
      .pollFinalizer 0 choices, .start target choices, .pollOpening 0 choices, .read 0 10 choices]
    let c := actions.foldl (step md5) (new (Padding.default md5) true)
    c.streams.map (fun s => (s.id, s.log.flatMap (·.delivery))) = [(2, [65, 67])] := by
  decide +kernel

end Actions

end AnyTlsClient

end Sockrocket
