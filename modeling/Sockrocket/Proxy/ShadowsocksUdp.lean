import Sockrocket.Lib.Run

/-!
# Shadowsocks datagrams

`SsDatagram` numbers the packets it sends and refuses packets it has seen. The packets a server session
has had are kept as a window of 128 bits below the highest; `Represents` says which packets a window
stands for, and `accept_spec` that `accept` is exact for them.

Calls of `send` and `recv` run at the same time. A turn of `recv` has no await between its lock section
and its end, so a turn is one step; a `send` takes its packet number with a loop of compare-and-exchange,
each of whose operations is a step.
-/

namespace Sockrocket.ShadowsocksUdp

open Transition List

/-- Bit `age` stands for the packet `age` below the highest. -/
structure ReplayWindow where
  highest : UInt64
  bits : BitVec 128
deriving DecidableEq

def ReplayWindow.default : ReplayWindow := ⟨0, 0⟩

def ReplayWindow.accept (window : ReplayWindow) (id : UInt64) : Bool × ReplayWindow :=
  if window.bits = 0 then (true, ⟨id, 1⟩)
  else if id > window.highest then
    let shift := (id - window.highest).toNat
    (true, ⟨id, if shift ≥ 128 then 1 else window.bits <<< shift ||| 1⟩)
  else
    let age := (window.highest - id).toNat
    if age ≥ 128 ∨ window.bits &&& 1#128 <<< age ≠ 0 then (false, window)
    else (true, { window with bits := window.bits ||| 1#128 <<< age })

/-! ## The window -/

/-- A window and the packets that were accepted into it. -/
structure Represents (window : ReplayWindow) (accepted : List UInt64) : Prop where
  empty : accepted = [] → window.bits = 0
  highest : accepted ≠ [] → window.highest ∈ accepted
  le : ∀ id ∈ accepted, id.toNat ≤ window.highest.toNat
  bits : ∀ id : UInt64, id.toNat ≤ window.highest.toNat → window.highest.toNat - id.toNat < 128 →
    (window.bits.getLsbD (window.highest.toNat - id.toNat) = true ↔ id ∈ accepted)

/-- The packet is above all accepted, or new and less than 128 below the highest. -/
def Fresh (accepted : List UInt64) (id : UInt64) : Prop :=
  (∀ old ∈ accepted, old < id) ∨
    id ∉ accepted ∧ ∃ highest ∈ accepted, (∀ old ∈ accepted, old ≤ highest) ∧
      highest.toNat < id.toNat + 128

theorem represents_default : Represents .default [] :=
  ⟨fun _ => rfl, fun h => absurd rfl h, by simp, by simp [ReplayWindow.default]⟩

variable {window : ReplayWindow} {accepted : List UInt64} {id : UInt64}

theorem Represents.ne_zero (h : Represents window accepted) (hne : accepted ≠ []) :
    window.bits ≠ 0 := by
  intro hzero
  have hbit := (h.bits window.highest le_rfl (by simp)).mpr (h.highest hne)
  simp [hzero] at hbit

theorem and_bit_ne_zero_iff {bits : BitVec 128} {age : Nat} (hage : age < 128) :
    bits &&& 1#128 <<< age ≠ 0 ↔ bits.getLsbD age := by
  rw [← BitVec.twoPow, BitVec.and_twoPow]
  split
  · rename_i hbit
    refine iff_of_true (fun hzero => ?_) hbit
    have hbits := congrArg (BitVec.getLsbD · age) hzero
    simp [hage] at hbits
  · rename_i hbit
    exact iff_of_false (fun h => h rfl) hbit

theorem represents_first (id : UInt64) : Represents ⟨id, 1⟩ [id] := by
  refine ⟨by simp, by simp, by simp, fun old hle hage => ?_⟩
  dsimp only at hle hage ⊢
  rw [mem_singleton, ← UInt64.toNat_inj]
  simp
  omega

/-- A packet above the highest becomes the highest, and the others age. -/
theorem represents_raise (h : Represents window accepted) (hgt : window.highest.toNat < id.toNat) :
    Represents ⟨id, if id.toNat - window.highest.toNat ≥ 128 then 1
      else window.bits <<< (id.toNat - window.highest.toNat) ||| 1⟩ (accepted ++ [id]) := by
  refine ⟨by simp, by simp, fun old hold => ?_, fun old hle hage => ?_⟩
  · rcases mem_append.mp hold with hold | hold
    · exact (h.le old hold).trans hgt.le
    · rw [mem_singleton.mp hold]
  dsimp only at hle hage ⊢
  have hnew : old = id ↔ id.toNat - old.toNat = 0 := by
    rw [← UInt64.toNat_inj]
    omega
  -- what was accepted has aged by the whole shift
  have hold : id.toNat - old.toNat < id.toNat - window.highest.toNat → old ∉ accepted := by
    intro hshift hmem
    have := h.le old hmem
    omega
  rw [mem_append, mem_singleton, hnew]
  split
  · simp [hold (by omega)]
  rw [BitVec.getLsbD_or, BitVec.getLsbD_shiftLeft]
  by_cases hshift : id.toNat - old.toNat < id.toNat - window.highest.toNat
  · simp [hold hshift, hshift]
  have hbit := h.bits old (by omega) (by omega)
  rw [show window.highest.toNat - old.toNat =
    id.toNat - old.toNat - (id.toNat - window.highest.toNat) by omega] at hbit
  simp [hshift, hage, hbit]

/-- A packet in the window gets its bit. -/
theorem represents_fill (h : Represents window accepted) (hne : accepted ≠ [])
    (hle : id.toNat ≤ window.highest.toNat) :
    Represents { window with bits := window.bits ||| 1#128 <<< (window.highest.toNat - id.toNat) }
      (accepted ++ [id]) := by
  refine ⟨by simp, fun _ => mem_append_left _ (h.highest hne), fun old hold => ?_,
    fun old hold hage => ?_⟩
  · rcases mem_append.mp hold with hold | hold
    · exact h.le old hold
    · rw [mem_singleton.mp hold]
      exact hle
  · dsimp only at hold hage ⊢
    rw [BitVec.getLsbD_or, ← BitVec.twoPow, BitVec.getLsbD_twoPow, Bool.or_eq_true, h.bits old hold hage,
      mem_append, mem_singleton, ← UInt64.toNat_inj]
    refine or_congr_right ?_
    simp only [Bool.and_eq_true, decide_eq_true_eq]
    omega

/-- `accept` is exact, and the new window stands for the packets accepted with it. -/
theorem accept_spec (h : Represents window accepted) (id : UInt64) :
    ((window.accept id).1 ↔ Fresh accepted id) ∧
      Represents (window.accept id).2
        (if (window.accept id).1 then accepted ++ [id] else accepted) := by
  unfold ReplayWindow.accept
  by_cases hempty : accepted = []
  · subst hempty
    rw [if_pos (h.empty rfl)]
    exact ⟨iff_of_true rfl (.inl (by simp)), represents_first id⟩
  rw [if_neg (h.ne_zero hempty)]
  have hhighest := h.highest hempty
  by_cases hgt : window.highest < id
  · rw [if_pos hgt, UInt64.toNat_sub_of_le _ _ (UInt64.le_of_lt hgt)]
    refine ⟨iff_of_true rfl (.inl fun old hold => ?_), represents_raise h hgt⟩
    exact (h.le old hold).trans_lt hgt
  have hle := Nat.not_lt.mp hgt
  have habove : ¬ ∀ old ∈ accepted, old < id := fun hall => hgt (hall _ hhighest)
  have hfresh : Fresh accepted id ↔
      id ∉ accepted ∧ window.highest.toNat - id.toNat < 128 := by
    rw [Fresh, or_iff_right habove]
    refine and_congr_right fun _ => ⟨?_, fun hage => ⟨_, hhighest, h.le, by omega⟩⟩
    rintro ⟨top, htop, hall, hwindow⟩
    have htop' : window.highest.toNat ≤ top.toNat := hall _ hhighest
    omega
  rw [if_neg hgt, UInt64.toNat_sub_of_le _ _ hle]
  by_cases hage : window.highest.toNat - id.toNat < 128
  · rw [hfresh, and_iff_left hage, ← h.bits id hle hage, ← and_bit_ne_zero_iff hage]
    by_cases hseen : window.bits &&& 1#128 <<< (window.highest.toNat - id.toNat) ≠ 0
    · rw [if_pos (.inr hseen)]
      exact ⟨iff_of_false Bool.false_ne_true (not_not.mpr hseen), h⟩
    · rw [if_neg (not_or.mpr ⟨not_le.mpr hage, hseen⟩)]
      exact ⟨iff_of_true rfl hseen, represents_fill h hempty hle⟩
  · rw [if_pos (.inl (not_lt.mp hage)), hfresh]
    exact ⟨by simp [hage], h⟩

/-- One packet, and the packets accepted so far. -/
def offer (state : ReplayWindow × List UInt64) (id : UInt64) : ReplayWindow × List UInt64 :=
  ((state.1.accept id).2, if (state.1.accept id).1 then state.2 ++ [id] else state.2)

/-- A packet that is accepted was not accepted before. -/
theorem Fresh.not_mem (h : Fresh accepted id) : id ∉ accepted := by
  rcases h with habove | ⟨hnew, -⟩
  · intro hmem
    exact absurd (habove id hmem) (Nat.lt_irrefl _)
  · exact hnew

theorem represents_offered (ids : List UInt64) (state : ReplayWindow × List UInt64)
    (h : Represents state.1 state.2) (hnodup : state.2.Nodup) :
    Represents (ids.foldl offer state).1 (ids.foldl offer state).2 ∧ (ids.foldl offer state).2.Nodup := by
  induction ids generalizing state with
  | nil => exact ⟨h, hnodup⟩
  | cons id rest ih =>
    obtain ⟨hfresh, hnew⟩ := accept_spec h id
    refine ih _ hnew ?_
    simp only [offer]
    split
    · rename_i haccepted
      rw [← concat_eq_append]
      exact hnodup.concat (hfresh.mp haccepted).not_mem
    · exact hnodup

/-! ## Sending and receiving -/

/-- What the cipher says about a packet it has opened. -/
structure Control where
  clientSession : UInt64
  serverSession : UInt64
  packetId : UInt64

/-- How a turn of the loop of `recv` ends. -/
inductive Turn where
  | again
  | error (message : String)
  | delivered
deriving DecidableEq

def copyOut (room size : Nat) : Turn :=
  if size ≤ room then .delivered else .error "Shadowsocks UDP receive buffer too small"

abbrev Sessions := Std.HashMap UInt64 ReplayWindow

/-- A turn of `recv` with a packet of `size` bytes, for a buffer of `room` bytes. -/
def recvTurn (session : UInt64) (replay : Sessions) (room size : Nat) :
    Option Control → Turn × Sessions
  | none => (copyOut room size, replay)
  | some control =>
    if control.clientSession ≠ session then (.again, replay)
    else if replay.size < 4 ∨ control.serverSession ∈ replay then
      let accepted := (replay.getD control.serverSession .default).accept control.packetId
      (if accepted.1 then copyOut room size else .again,
        replay.insert control.serverSession accepted.2)
    else (.error "Too many Shadowsocks server sessions", replay)

/-- What the calls on one `SsDatagram` share, the counter each `send` in its loop has read, the numbers
that were taken for sending, and the numbered packets that were handed to callers. -/
structure State where
  packet : UInt64
  replay : Sessions
  sending : Nat → Option UInt64
  sent : List UInt64
  delivered : List (UInt64 × UInt64)

def State.start : State := ⟨0, ∅, fun _ => none, [], []⟩

def numbered : Option Control → Turn → List (UInt64 × UInt64)
  | some control, .delivered => [(control.serverSession, control.packetId)]
  | _, _ => []

/-- A step of one call. A relaxed read of the counter, also that of an exchange that fails, may see an
older value. -/
inductive Step (session : UInt64) : State → Nat → State → Prop where
  | load {s : State} (call : Nat) {seen : UInt64} (hseen : seen ≤ s.packet) :
      Step session s call { s with sending := Function.update s.sending call (some seen) }
  | exchanged {s : State} {call : Nat} (hcall : s.sending call = some s.packet)
      (hnext : s.packet.toNat + 1 < 2 ^ 64) :
      Step session s call
        { s with
          packet := s.packet + 1
          sending := Function.update s.sending call none
          sent := s.packet :: s.sent }
  | contended {s : State} {call : Nat} {id seen : UInt64} (hcall : s.sending call = some id)
      (hnext : id.toNat + 1 < 2 ^ 64) (hseen : seen ≤ s.packet) :
      Step session s call { s with sending := Function.update s.sending call (some seen) }
  | exhausted {s : State} {call : Nat} {id : UInt64} (hcall : s.sending call = some id)
      (hnext : ¬ id.toNat + 1 < 2 ^ 64) :
      Step session s call { s with sending := Function.update s.sending call none }
  | recv {s : State} (call room size : Nat) (control : Option Control) :
      Step session s call
        { s with
          replay := (recvTurn session s.replay room size control).2
          delivered := numbered control (recvTurn session s.replay room size control).1 ++ s.delivered }

/-- The counter is above what was sent, and every window stands for packets among which are those that
were delivered. -/
structure Sound (s : State) : Prop where
  below : ∀ id ∈ s.sent, id < s.packet
  sent : s.sent.Nodup
  sessions : s.replay.size ≤ 4
  windows : ∀ server, ∃ accepted, Represents (s.replay.getD server .default) accepted ∧
    ∀ id, (server, id) ∈ s.delivered → id ∈ accepted
  delivered : s.delivered.Nodup

theorem sound_start : Sound .start :=
  ⟨by simp [State.start], by simp [State.start], by simp [State.start],
    fun server => ⟨[], by simp [State.start, represents_default]⟩, by simp [State.start]⟩

variable {s t : State} {session : UInt64} {call : Nat}

theorem Sound.exchanged (h : Sound s) (hnext : s.packet.toNat + 1 < 2 ^ 64)
    (sending : Nat → Option UInt64) :
    Sound ⟨s.packet + 1, s.replay, sending, s.packet :: s.sent, s.delivered⟩ := by
  have hsucc : s.packet < s.packet + 1 := by
    exact (Nat.lt_succ_self _).trans_eq (Nat.mod_eq_of_lt hnext).symm
  refine ⟨forall_mem_cons.mpr ⟨hsucc, fun id hid => ?_⟩, ?_, h.sessions, h.windows, h.delivered⟩
  · exact UInt64.lt_trans (h.below id hid) hsucc
  · refine nodup_cons.mpr ⟨fun hmem => ?_, h.sent⟩
    exact UInt64.lt_irrefl _ (h.below _ hmem)

/-- A turn that asks the window of the packet's session. -/
theorem Sound.recv_checked (h : Sound s) (packet : Control) (room size : Nat)
    (hroom : s.replay.size < 4 ∨ packet.serverSession ∈ s.replay) :
    let answer := (s.replay.getD packet.serverSession .default).accept packet.packetId
    Sound { s with
      replay := s.replay.insert packet.serverSession answer.2
      delivered := numbered (some packet) (if answer.1 then copyOut room size else .again) ++
        s.delivered } := by
  intro answer
  obtain ⟨accepted, hwindow, hpast⟩ := h.windows packet.serverSession
  obtain ⟨hfresh, hnew⟩ := accept_spec hwindow packet.packetId
  have hnumbered : numbered (some packet) (if answer.1 then copyOut room size else .again) = [] ∨
      answer.1 ∧ numbered (some packet) (if answer.1 then copyOut room size else .again) =
        [(packet.serverSession, packet.packetId)] := by
    by_cases hanswer : answer.1
    · rw [if_pos hanswer, copyOut]
      split
      · exact .inr ⟨hanswer, rfl⟩
      · exact .inl rfl
    · rw [if_neg hanswer]
      exact .inl rfl
  refine ⟨h.below, h.sent, ?_, fun server => ?_, ?_⟩
  · rw [Std.HashMap.size_insert]
    split
    · exact h.sessions
    · rename_i hunknown
      exact hroom.resolve_right hunknown
  · rw [Std.HashMap.getD_insert]
    split
    · rename_i hserver
      obtain rfl := eq_of_beq hserver
      refine ⟨_, hnew, fun id hid => ?_⟩
      rcases hnumbered with hnone | ⟨hanswer, hone⟩
      · rw [hnone] at hid
        have hold := hpast id hid
        split
        · exact mem_append_left _ hold
        · exact hold
      · rw [hone] at hid
        rw [if_pos hanswer]
        rcases mem_cons.mp hid with heq | hid
        · rw [(Prod.mk.inj heq).2]
          exact mem_append_right _ mem_cons_self
        · exact mem_append_left _ (hpast id hid)
    · rename_i hserver
      obtain ⟨others, hothers, hmem⟩ := h.windows server
      refine ⟨others, hothers, fun id hid => hmem id ?_⟩
      rcases hnumbered with hnone | ⟨-, hone⟩
      · rwa [hnone] at hid
      · rw [hone] at hid
        refine (mem_cons.mp hid).resolve_left fun heq => hserver ?_
        exact beq_iff_eq.mpr (Prod.mk.inj heq).1.symm
  · rcases hnumbered with hnone | ⟨hanswer, hone⟩
    · rw [hnone]
      exact h.delivered
    · rw [hone]
      refine nodup_cons.mpr ⟨fun hmem => ?_, h.delivered⟩
      exact (hfresh.mp hanswer).not_mem (hpast _ hmem)

theorem Sound.step (h : Sound s) (hstep : Step session s call t) : Sound t := by
  cases hstep with
  | load => exact ⟨h.below, h.sent, h.sessions, h.windows, h.delivered⟩
  | exchanged hcall hnext => exact h.exchanged hnext _
  | contended | exhausted => exact ⟨h.below, h.sent, h.sessions, h.windows, h.delivered⟩
  | recv room size control =>
    cases control with
    | none => exact ⟨h.below, h.sent, h.sessions, h.windows, h.delivered⟩
    | some packet =>
      simp only [recvTurn]
      split
      · exact ⟨h.below, h.sent, h.sessions, h.windows, h.delivered⟩
      split
      · rename_i hroom
        exact h.recv_checked packet room size hroom
      · exact ⟨h.below, h.sent, h.sessions, h.windows, h.delivered⟩

/-- `accept` is exact for every history of packets, and whatever calls run at the same time, no numbered
packet is delivered twice, at most four sessions are kept and no number is sent twice. -/
theorem replay_exact :
    (∀ (ids : List UInt64) (id : UInt64), let state := ids.foldl offer (.default, [])
      ((state.1.accept id).1 = true ↔ ids = [] ∨ (∀ old ∈ state.2, old < id) ∨
        id ∉ state.2 ∧ ∃ highest ∈ state.2, (∀ old ∈ state.2, old ≤ highest) ∧
          highest.toNat < id.toNat + 128) ∧ state.2.Nodup) ∧
    ∀ (session : UInt64) (calls : List Nat) (s : State), Run (Step session) .start calls s →
      s.delivered.Nodup ∧ s.replay.size ≤ 4 ∧ s.sent.Nodup := by
  refine ⟨fun ids id => ?_, fun session calls s hrun => ?_⟩
  · obtain ⟨hwindow, hnodup⟩ :=
      represents_offered ids (.default, []) represents_default nodup_nil
    refine ⟨(accept_spec hwindow id).1.trans (or_iff_right_of_imp ?_).symm, hnodup⟩
    rintro rfl
    exact .inl (by simp)
  · have h := hrun.invariant Sound sound_start fun _ _ _ hs => hs.step
    exact ⟨h.delivered, h.sessions, h.sent⟩

/-- A packet is sent, one is received, and received again. -/
theorem replay_exact_twice : ∃ s, Run (Step 7) .start [0, 0, 1, 1] s ∧ s.delivered = [(5, 3)] ∧
    s.delivered.Nodup ∧ s.replay.size ≤ 4 ∧ s.sent.Nodup := by
  have hrun : Run (Step 7) .start [0, 0, 1, 1] _ :=
    .head (.load 0 (UInt64.le_refl 0)) <| .head (.exchanged rfl (by decide)) <|
      .head (.recv 1 10 10 (some ⟨7, 5, 3⟩)) <| .head (.recv 1 10 10 (some ⟨7, 5, 3⟩)) (.refl _)
  refine ⟨_, hrun, ?_, replay_exact.2 _ _ _ hrun⟩
  simp [recvTurn, State.start, ReplayWindow.accept, ReplayWindow.default, copyOut, numbered]

end Sockrocket.ShadowsocksUdp
