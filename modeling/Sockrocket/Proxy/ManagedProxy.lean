import Sockrocket.Lib.Run
import Sockrocket.Lib.StableSort
import Sockrocket.Rust.Text

/-!
# Ownership of the system proxy

`managed_proxy.rs`: before Sockrocket changes the proxy setting of the operating system it writes a
journal with the setting it found and the one it is about to apply. The journal is what a later
restore, or the recovery after a crash, goes by.

Calls run under a lock, so at most one is between its start and its end. Every call is a sequence of
steps: what it reads and decides, the write of the journal, the call to the operating system, the
confirmation, the removal of the journal. A crash may come between any two of them, and other
programs change the setting at any time. `proxy_ownership` holds for the runs that meet
`ProxyStep.Meets`; `proxy_ownership_endpoint_change` is a run that does not.
-/

namespace Sockrocket

open Rust Transition StableSort Option

/-- `SystemProxyConfig`. -/
structure SystemProxyConfig where
  enabled : Bool
  host : Str
  port : Nat
  bypass : Str
deriving DecidableEq, Repr

/-- `SystemProxyConfig::disabled`. -/
def SystemProxyConfig.disabled : SystemProxyConfig :=
  ⟨false, [], 0, []⟩

/-- The order of strings. -/
def strLe : Str → Str → Bool
  | [], _ => true
  | _ :: _, [] => false
  | a :: s, b :: t => a.toNat < b.toNat || (a == b && strLe s t)

/-- The entries of a bypass list, as `same_proxy` compares them. -/
def bypassEntries (text : Str) : List Str :=
  sortBy strLe ((((text.splitOnP fun c => c == ',' || c == ';').map trim).filter
    fun part => !part.isEmpty).map toLowercase)

/-- `same_proxy`. -/
def sameProxy (a b : SystemProxyConfig) : Bool :=
  a.enabled == b.enabled &&
    (!a.enabled || (eqIgnoreAsciiCase a.host b.host && a.port == b.port &&
      bypassEntries a.bypass == bypassEntries b.bypass))

/-- `PLATFORM_BYPASS`. -/
def platformBypass : Str :=
  "localhost,127.0.0.1,::1".toList

/-- An address to listen on that is no address to connect to. -/
def isWildcard (host : Str) : Bool :=
  host == "0.0.0.0".toList || host == "::".toList

/-- `set_system_proxy_with_bypass`: the setting it makes, `none` if it refuses. -/
def settingOf (host : Str) (port : Nat) (bypass : Str) : Option SystemProxyConfig :=
  let host := trim host
  if host = [] then none
  else some ⟨true, if isWildcard host then "127.0.0.1".toList else host, port, bypass⟩

/-- `Journal`, without the part of another platform. -/
structure Journal where
  ownerPid : Nat
  previous : SystemProxyConfig
  applied : SystemProxyConfig
deriving DecidableEq, Repr

/-- Where the call that holds the lock is. -/
inductive ProxyPhase where
  | idle
  | writing (journal : Journal)
  | setting (journal : Journal)
  | confirming (journal : Journal)
  | applying (journal : Journal)
  | confirmingPrevious (journal : Journal)
  | removing (journal : Journal)
deriving DecidableEq, Repr

/-- What the last call reported. `skipped` is a restore that had nothing to decide: the journal is
of another owner, or the listener answers. -/
inductive ProxyReport where
  | enabled (ok : Bool)
  | restored (ok : Bool)
  | skipped
deriving DecidableEq, Repr

/-- The setting of the operating system, the journal file, the call in progress and the report of
the last call, while no other has begun. -/
structure ProxyState where
  os : SystemProxyConfig
  journal : Option Journal
  phase : ProxyPhase
  report : Option ProxyReport
deriving DecidableEq, Repr

/-- The steps of the system. Calls to the operating system and file operations say whether they take
effect, `recover` whether something listens at the endpoint. -/
inductive ProxyStep where
  | external (os : SystemProxyConfig)
  | crash
  | enable (pid : Nat) (host : Str) (port : Nat)
  | writeJournal (ok : Bool)
  | setProxy (ok : Bool)
  | confirm
  | restore (owner : Nat)
  | recover (connected : Bool)
  | applyPrevious (ok : Bool)
  | confirmPrevious
  | removeJournal (ok : Bool)
deriving DecidableEq, Repr

/-- The endpoint `enable` applies. -/
def endpointOf (host : Str) (port : Nat) : SystemProxyConfig :=
  ⟨true, if isWildcard host then "127.0.0.1".toList else trim host, port, platformBypass⟩

/-- The setting to go back to: that of the journal while its endpoint is in force, which only its
owner may replace, and the current one otherwise. -/
def previousFor (state : ProxyState) (pid : Nat) : Option SystemProxyConfig :=
  match state.journal with
  | some journal =>
    if sameProxy state.os journal.applied then
      if journal.ownerPid = pid then some journal.previous else none
    else some state.os
  | none => some state.os

/-- `listener_alive`. -/
def listenerAlive (journal : Journal) (connected : Bool) : Bool :=
  if ["127.0.0.1".toList, "localhost".toList, "::1".toList].contains journal.applied.host then
    connected
  else true

namespace ProxyState

/-- End of a call. -/
def finish (state : ProxyState) (report : ProxyReport) : ProxyState :=
  { state with phase := .idle, report := some report }

/-- `restore_record` up to its first effect. -/
def beginRestore (state : ProxyState) (journal : Journal) : ProxyState :=
  if sameProxy state.os journal.applied then
    { state with phase := .applying journal, report := none }
  else { state with phase := .removing journal, report := none }

/-- One step, `none` if it is not the turn of the step. -/
def apply (state : ProxyState) : ProxyStep → Option ProxyState
  | .external os => some { state with os := os }
  | .crash => some { state with phase := .idle }
  | .enable pid host port =>
    match state.phase with
    | .idle =>
      match previousFor state pid with
      | none => some (state.finish (.enabled false))
      | some previous =>
        if (endpointOf host port).host = [] ∨ port = 0 then
          some (state.finish (.enabled false))
        else some { state with
          phase := .writing ⟨pid, previous, endpointOf host port⟩
          report := none }
    | _ => none
  | .writeJournal ok =>
    match state.phase with
    | .writing journal =>
      if ok then some { state with journal := some journal, phase := .setting journal }
      else some (state.finish (.enabled false))
    | _ => none
  | .setProxy ok =>
    match state.phase with
    | .setting journal =>
      match ok, settingOf journal.applied.host journal.applied.port platformBypass with
      | true, some os => some { state with os := os, phase := .confirming journal }
      | _, _ => some (state.finish (.enabled false))
    | _ => none
  | .confirm =>
    match state.phase with
    | .confirming journal => some (state.finish (.enabled (sameProxy state.os journal.applied)))
    | _ => none
  | .restore owner =>
    match state.phase with
    | .idle =>
      match state.journal with
      | none => some (state.finish (.restored true))
      | some journal =>
        if journal.ownerPid ≠ owner then some (state.finish .skipped)
        else some (state.beginRestore journal)
    | _ => none
  | .recover connected =>
    match state.phase with
    | .idle =>
      match state.journal with
      | none => some (state.finish (.restored true))
      | some journal =>
        if listenerAlive journal connected then
          some (state.finish (if connected then .skipped else .restored true))
        else some (state.beginRestore journal)
    | _ => none
  | .applyPrevious ok =>
    match state.phase with
    | .applying journal =>
      match ok, if journal.previous.enabled then
          settingOf journal.previous.host journal.previous.port journal.previous.bypass
        else some SystemProxyConfig.disabled with
      | true, some os => some { state with os := os, phase := .confirmingPrevious journal }
      | _, _ => some (state.finish (.restored false))
    | _ => none
  | .confirmPrevious =>
    match state.phase with
    | .confirmingPrevious journal =>
      if sameProxy state.os journal.previous then some { state with phase := .removing journal }
      else some (state.finish (.restored false))
    | _ => none
  | .removeJournal ok =>
    match state.phase with
    | .removing _ =>
      if ok then some (({ state with journal := none }).finish (.restored true))
      else some (state.finish (.restored false))
    | _ => none

end ProxyState

/-- The transition relation. -/
def ProxyMoves (state : ProxyState) (step : ProxyStep) (next : ProxyState) : Prop :=
  state.apply step = some next

instance (state : ProxyState) (step : ProxyStep) (next : ProxyState) :
    Decidable (ProxyMoves state step next) :=
  inferInstanceAs (Decidable (state.apply step = some next))

/-- `set_system_proxy_with_bypass` writes the setting as it is. -/
def SystemProxyConfig.Writable (config : SystemProxyConfig) : Prop :=
  config.enabled = true →
    settingOf config.host config.port config.bypass = some config

/-- The steps that keep ownership, where `ours` are endpoints that only Sockrocket uses and `theirs`
the settings of everyone else: an endpoint can be written as it is; a change of endpoint takes
effect once its journal is written; nobody changes the setting between the look of a restore and its
write; and recovery without a listener is for endpoints it can probe. -/
def ProxyStep.Meets (ours theirs : SystemProxyConfig → Prop) (state : ProxyState) :
    ProxyStep → Prop
  | .external os => theirs os ∧ ∀ journal, state.phase ≠ .applying journal
  | .enable _ host port => ours (endpointOf host port) ∧ (endpointOf host port).Writable
  | .crash | .setProxy false =>
    ∀ journal, state.phase = .setting journal → ours state.os →
      sameProxy state.os journal.applied = true
  | .recover false =>
    ∀ journal, state.journal = some journal →
      journal.applied.host ∈ ["127.0.0.1".toList, "localhost".toList, "::1".toList]
  | _ => True

/-- A setting of someone else: no endpoint of Sockrocket, and one that can be written back. -/
def Foreign (ours : SystemProxyConfig → Prop) (config : SystemProxyConfig) : Prop :=
  ¬ ours config ∧ config.Writable

/-! ## Equality of settings -/

@[simp]
theorem sameProxy_refl (a : SystemProxyConfig) : sameProxy a a := by
  simp [sameProxy, eqIgnoreAsciiCase]

theorem sameProxy_trans {a b c : SystemProxyConfig} (hab : sameProxy a b)
    (hbc : sameProxy b c) : sameProxy a c := by
  simp only [sameProxy, eqIgnoreAsciiCase, Bool.and_eq_true, Bool.or_eq_true, beq_iff_eq,
    Bool.not_eq_true'] at hab hbc ⊢
  obtain ⟨henabled, hab⟩ := hab
  obtain ⟨henabled', hbc⟩ := hbc
  refine ⟨henabled.trans henabled', ?_⟩
  rcases hab with hoff | ⟨⟨hhost, hport⟩, hbypass⟩
  · exact .inl hoff
  rcases hbc with hoff | ⟨⟨hhost', hport'⟩, hbypass'⟩
  · exact .inl (henabled.trans hoff)
  exact .inr ⟨⟨hhost.trans hhost', hport.trans hport'⟩, hbypass.trans hbypass'⟩

theorem sameProxy_disabled {a : SystemProxyConfig} (hoff : a.enabled = false) :
    sameProxy .disabled a := by
  simp [sameProxy, SystemProxyConfig.disabled, hoff]

/-! ## The invariant -/

/-- What the argument needs of the two kinds of settings. -/
structure Sides (ours theirs : SystemProxyConfig → Prop) : Prop where
  same : ∀ a b, sameProxy a b = true → (ours a ↔ ours b)
  disjoint : ∀ a, theirs a → ¬ ours a
  writable : ∀ a, theirs a → a.Writable
  disabled : ∀ a, theirs a → a.enabled = false → theirs .disabled

/-- What a restore writes is someone else's. -/
theorem Sides.restored {ours theirs : SystemProxyConfig → Prop} (hsides : Sides ours theirs)
    {previous os : SystemProxyConfig} (hprevious : theirs previous)
    (hset : (if previous.enabled then
        settingOf previous.host previous.port previous.bypass
      else some SystemProxyConfig.disabled) = some os) : theirs os := by
  split at hset
  · rename_i hon
    rw [hsides.writable previous hprevious hon] at hset
    exact some.inj hset ▸ hprevious
  · rename_i hoff
    exact some.inj hset ▸ hsides.disabled previous hprevious (Bool.not_eq_true _ ▸ hoff)

namespace ProxyState

/-- The setting is someone else's, or the journal describes it. -/
def Accounted (theirs : SystemProxyConfig → Prop) (state : ProxyState) : Prop :=
  theirs state.os ∨ ∃ journal, state.journal = some journal ∧
    sameProxy state.os journal.applied = true

/-- What is known at each point of a call. Only between the write of a journal and the change of the
setting may an endpoint of ours be in force that the journal does not describe. -/
def PhaseKnows (ours theirs : SystemProxyConfig → Prop) (state : ProxyState) : Prop :=
  match state.phase with
  | .idle => state.Accounted theirs
  | .writing journal =>
    state.Accounted theirs ∧ ours journal.applied ∧ theirs journal.previous ∧
      settingOf journal.applied.host journal.applied.port platformBypass = some journal.applied
  | .setting journal =>
    (theirs state.os ∨ ours state.os) ∧ state.journal = some journal ∧
      settingOf journal.applied.host journal.applied.port platformBypass = some journal.applied
  | .confirming _ => state.Accounted theirs
  | .applying journal =>
    state.journal = some journal ∧ sameProxy state.os journal.applied = true
  | .confirmingPrevious journal => state.journal = some journal ∧ theirs state.os
  | .removing journal => state.journal = some journal ∧ theirs state.os

/-- The invariant of ownership. -/
structure Owned (ours theirs : SystemProxyConfig → Prop) (state : ProxyState) : Prop where
  recorded : ∀ journal, state.journal = some journal →
    ours journal.applied ∧ theirs journal.previous
  knows : state.PhaseKnows ours theirs
  reported : state.report = some (.restored true) → state.phase = .idle ∧ theirs state.os

variable {ours theirs : SystemProxyConfig → Prop} {state next : ProxyState}

/-- A setting the journal does not describe is someone else's. -/
theorem Accounted.foreign (h : state.Accounted theirs)
    (hother : ∀ journal, state.journal = some journal →
      sameProxy state.os journal.applied ≠ true) : theirs state.os := by
  rcases h with hos | ⟨journal, hjournal, hsame⟩
  · exact hos
  · exact absurd hsame (hother journal hjournal)

/-- The setting is accounted for at every point but that between journal and setting. -/
theorem Owned.accounted (h : state.Owned ours theirs)
    (hsetting : ∀ journal, state.phase = .setting journal → ours state.os →
      sameProxy state.os journal.applied) : state.Accounted theirs := by
  have hknows := h.knows
  unfold PhaseKnows at hknows
  cases hphase : state.phase with
  | idle | confirming journal => simpa only [hphase] using hknows
  | writing journal =>
    simp only [hphase] at hknows
    exact hknows.1
  | setting journal =>
    simp only [hphase] at hknows
    obtain ⟨hos | hos, hjournal, -⟩ := hknows
    · exact .inl hos
    · exact .inr ⟨journal, hjournal, hsetting journal hphase hos⟩
  | applying journal =>
    simp only [hphase] at hknows
    exact .inr ⟨journal, hknows⟩
  | confirmingPrevious journal | removing journal =>
    simp only [hphase] at hknows
    exact .inl hknows.2

section

variable (h : state.Owned ours theirs) (haccounted : state.Accounted theirs)

include h haccounted

/-- The end of a call keeps the invariant, if success of a restore is reported over a setting of
someone else. -/
theorem Owned.finish {report : ProxyReport} (hreport : report = .restored true → theirs state.os) :
    (state.finish report).Owned ours theirs :=
  ⟨h.recorded, haccounted, fun hsome => ⟨rfl, hreport (some.inj hsome)⟩⟩

/-- The setting to go back to is never one of ours. -/
theorem Owned.previousFor
    {pid : Nat} {previous : SystemProxyConfig} (hprevious : previousFor state pid = some previous) :
    theirs previous := by
  unfold Sockrocket.previousFor at hprevious
  split at hprevious
  · rename_i journal hjournal
    split at hprevious
    · split at hprevious
      · obtain rfl := some.inj hprevious
        exact (h.recorded journal hjournal).2
      · cases hprevious
    · rename_i hdiffers
      obtain rfl := some.inj hprevious
      refine haccounted.foreign fun other hother => ?_
      obtain rfl := some.inj (hjournal.symm.trans hother)
      exact hdiffers
  · rename_i hnone
    obtain rfl := some.inj hprevious
    refine haccounted.foreign fun other hother => ?_
    cases hnone.symm.trans hother

/-- A restore goes on to write only over the endpoint of the journal. -/
theorem Owned.beginRestore {journal : Journal} (hjournal : state.journal = some journal) :
    (state.beginRestore journal).Owned ours theirs := by
  unfold ProxyState.beginRestore
  split
  · rename_i hsame
    exact ⟨h.recorded, ⟨hjournal, hsame⟩, nofun⟩
  rename_i hdiffers
  refine ⟨h.recorded, ⟨hjournal, haccounted.foreign fun other hother => ?_⟩,
    nofun⟩
  obtain rfl := some.inj (hjournal.symm.trans hother)
  exact hdiffers

end

/-- Without a journal the setting is someone else's. -/
theorem Accounted.foreign_of_none (h : state.Accounted theirs) (hnone : state.journal = none) :
    theirs state.os :=
  h.foreign fun _ hsome => by cases hnone.symm.trans hsome

/-- A change by someone else. -/
theorem Owned.external (h : state.Owned ours theirs) {os : SystemProxyConfig} (hos : theirs os)
    (hquiet : ∀ journal, state.phase ≠ .applying journal) :
    ({ state with os := os } : ProxyState).Owned ours theirs := by
  refine ⟨h.recorded, ?_, fun hsome => ⟨(h.reported hsome).1, hos⟩⟩
  have hknows := h.knows
  unfold PhaseKnows at hknows ⊢
  cases hphase : state.phase with
  | idle | confirming journal => exact .inl hos
  | writing journal | setting journal =>
    simp only [hphase] at hknows ⊢
    exact ⟨.inl hos, hknows.2⟩
  | applying journal => exact absurd hphase (hquiet journal)
  | confirmingPrevious journal | removing journal =>
    simp only [hphase] at hknows ⊢
    exact ⟨hknows.1, hos⟩

/-- Every step that meets the condition keeps ownership. -/
theorem Owned.step (hsides : Sides ours theirs) (h : state.Owned ours theirs) {step : ProxyStep}
    (hmove : ProxyMoves state step next) (hmeets : step.Meets ours theirs state) :
    next.Owned ours theirs := by
  have hknows := h.knows
  unfold PhaseKnows at hknows
  cases step with
  | external os =>
    obtain rfl := some.inj hmove
    exact h.external hmeets.1 hmeets.2
  | crash =>
    obtain rfl := some.inj hmove
    exact ⟨h.recorded, h.accounted hmeets, fun hsome => ⟨rfl, (h.reported hsome).2⟩⟩
  | enable pid host port =>
    simp only [ProxyMoves, apply] at hmove
    split at hmove
    · rename_i hphase
      rw [hphase] at hknows
      split at hmove
      · obtain rfl := some.inj hmove
        exact h.finish hknows nofun
      rename_i previous hprevious
      split at hmove
      · obtain rfl := some.inj hmove
        exact h.finish hknows nofun
      · obtain rfl := some.inj hmove
        exact ⟨h.recorded, ⟨hknows, hmeets.1, h.previousFor hknows hprevious, hmeets.2 rfl⟩,
          nofun⟩
    · cases hmove
  | writeJournal ok =>
    simp only [ProxyMoves, apply] at hmove
    split at hmove
    · rename_i journal hphase
      rw [hphase] at hknows
      obtain ⟨haccounted, happlied, hprevious, hset⟩ := hknows
      split at hmove
      · obtain rfl := some.inj hmove
        -- an endpoint of ours may stay in force here that the new journal does not describe
        have hos : theirs state.os ∨ ours state.os := by
          rcases haccounted with hos | ⟨old, hold, hsame⟩
          · exact .inl hos
          · exact .inr ((hsides.same _ _ hsame).mpr (h.recorded old hold).1)
        refine ⟨fun other hother => ?_, ⟨hos, rfl, hset⟩, fun hsome => ?_⟩
        · obtain rfl := some.inj hother
          exact ⟨happlied, hprevious⟩
        · cases hphase.symm.trans (h.reported hsome).1
      · obtain rfl := some.inj hmove
        exact h.finish haccounted nofun
    · cases hmove
  | setProxy ok =>
    simp only [ProxyMoves, apply] at hmove
    split at hmove
    · rename_i journal hphase
      rw [hphase] at hknows
      obtain ⟨-, hjournal, hset⟩ := hknows
      rw [hset] at hmove
      cases ok with
      | true =>
        obtain rfl := some.inj hmove
        refine ⟨h.recorded, .inr ⟨journal, hjournal, sameProxy_refl _⟩, fun hsome => ?_⟩
        cases hphase.symm.trans (h.reported hsome).1
      | false =>
        obtain rfl := some.inj hmove
        exact h.finish (h.accounted hmeets) nofun
    · cases hmove
  | confirm =>
    simp only [ProxyMoves, apply] at hmove
    split at hmove
    · rename_i journal hphase
      rw [hphase] at hknows
      obtain rfl := some.inj hmove
      exact h.finish hknows nofun
    · cases hmove
  | restore owner =>
    simp only [ProxyMoves, apply] at hmove
    split at hmove
    · rename_i hphase
      rw [hphase] at hknows
      split at hmove
      · rename_i hnone
        obtain rfl := some.inj hmove
        exact h.finish hknows fun _ => Accounted.foreign_of_none hknows hnone
      rename_i journal hjournal
      split at hmove
      · obtain rfl := some.inj hmove
        exact h.finish hknows nofun
      · obtain rfl := some.inj hmove
        exact h.beginRestore hknows hjournal
    · cases hmove
  | recover connected =>
    simp only [ProxyMoves, apply] at hmove
    split at hmove
    · rename_i hphase
      rw [hphase] at hknows
      split at hmove
      · rename_i hnone
        obtain rfl := some.inj hmove
        exact h.finish hknows fun _ => Accounted.foreign_of_none hknows hnone
      rename_i journal hjournal
      split at hmove
      · rename_i halive
        obtain rfl := some.inj hmove
        refine h.finish hknows fun hreport => ?_
        cases connected with
        | true => cases hreport
        | false =>
          -- an endpoint that can be probed is not taken for alive
          have hprobed := hmeets journal hjournal
          rw [listenerAlive, if_pos (List.contains_iff_mem.mpr hprobed)] at halive
          cases halive
      · obtain rfl := some.inj hmove
        exact h.beginRestore hknows hjournal
    · cases hmove
  | applyPrevious ok =>
    simp only [ProxyMoves, apply] at hmove
    split at hmove
    · rename_i journal hphase
      rw [hphase] at hknows
      split at hmove
      · rename_i os hset
        obtain rfl := some.inj hmove
        refine ⟨h.recorded, ⟨hknows.1, hsides.restored (h.recorded journal hknows.1).2 hset⟩,
          fun hsome => ?_⟩
        cases hphase.symm.trans (h.reported hsome).1
      · obtain rfl := some.inj hmove
        exact h.finish (.inr ⟨journal, hknows⟩) nofun
    · cases hmove
  | confirmPrevious =>
    simp only [ProxyMoves, apply] at hmove
    split at hmove
    · rename_i journal hphase
      rw [hphase] at hknows
      split at hmove
      · obtain rfl := some.inj hmove
        refine ⟨h.recorded, hknows, fun hsome => ?_⟩
        cases hphase.symm.trans (h.reported hsome).1
      · obtain rfl := some.inj hmove
        exact h.finish (.inl hknows.2) nofun
    · cases hmove
  | removeJournal ok =>
    simp only [ProxyMoves, apply] at hmove
    split at hmove
    · rename_i journal hphase
      rw [hphase] at hknows
      split at hmove
      · obtain rfl := some.inj hmove
        exact ⟨nofun, .inl hknows.2, fun _ => ⟨rfl, hknows.2⟩⟩
      · obtain rfl := some.inj hmove
        exact h.finish (.inl hknows.2) nofun
    · cases hmove

/-- The only step that takes a journal away. -/
theorem removing_of_journal_none {step : ProxyStep} (hmove : ProxyMoves state step next)
    (hsome : state.journal ≠ none) (hnone : next.journal = none) :
    ∃ journal, state.phase = .removing journal ∧ next.os = state.os := by
  cases step with
  | external | crash =>
    obtain rfl := some.inj hmove
    exact absurd hnone hsome
  | removeJournal ok =>
    simp only [ProxyMoves, apply] at hmove
    split at hmove
    · rename_i journal hphase
      refine ⟨journal, hphase, ?_⟩
      split at hmove <;> obtain rfl := some.inj hmove <;> rfl
    · cases hmove
  | enable | writeJournal | setProxy | confirm | restore | recover | applyPrevious
  | confirmPrevious =>
    exfalso
    simp only [ProxyMoves, apply, beginRestore] at hmove
    repeat' split at hmove
    all_goals cases hmove
    all_goals first
      | exact hsome hnone
      | cases hnone

/-- Before the first call. -/
def start (os : SystemProxyConfig) : ProxyState :=
  ⟨os, none, .idle, none⟩

/-- Ownership along runs. -/
theorem Owned.run (hsides : Sides ours theirs) {os : SystemProxyConfig} (hos : theirs os)
    {steps : List ProxyStep}
    (hrun : Run (fun state step next => ProxyMoves state step next ∧
      step.Meets ours theirs state) (start os) steps state) : state.Owned ours theirs := by
  refine hrun.invariant (Owned ours theirs) ?_ fun s e t hs hstep => ?_
  · exact ⟨nofun, .inl hos, nofun⟩
  · exact hs.step hsides hstep.1 hstep.2

end ProxyState

/-- Settings that count as one setting are on one side. -/
theorem Sides.foreign {ours : SystemProxyConfig → Prop}
    (hsame : ∀ a b, sameProxy a b → (ours a ↔ ours b)) : Sides ours (Foreign ours) where
  same := hsame
  disjoint _ ha := ha.1
  writable _ ha := ha.2
  disabled _ ha hoff :=
    ⟨fun hours => ha.1 ((hsame _ _ (sameProxy_disabled hoff)).mp hours), nofun⟩

/-- Where nobody else acts, the foreign settings are those equal to the first one. -/
theorem Sides.initial {ours : SystemProxyConfig → Prop}
    (hsame : ∀ a b, sameProxy a b → (ours a ↔ ours b)) (initial : SystemProxyConfig) :
    Sides ours fun config => Foreign ours config ∧ sameProxy config initial = true where
  same := hsame
  disjoint _ ha := ha.1.1
  writable _ ha := ha.1.2
  disabled _ ha hoff :=
    ⟨(Sides.foreign hsame).disabled _ ha.1 hoff, sameProxy_trans (sameProxy_disabled hoff) ha.2⟩

/-- Ownership of the system proxy, for every run whose steps meet `ProxyStep.Meets`: `ours` holds
of every endpoint that is enabled and of no setting of anyone else. While nobody else acts, a
restore that reports success leaves the first setting; a restore writes only over an endpoint of
ours; the recorded setting is none of ours; and the journal goes only when nothing of ours is in
force. -/
theorem proxy_ownership (ours : SystemProxyConfig → Prop)
    (hsame : ∀ a b, sameProxy a b = true → (ours a ↔ ours b)) (initial : SystemProxyConfig)
    (hinitial : Foreign ours initial) {steps : List ProxyStep} {state : ProxyState}
    (hrun : Run (fun state step next => ProxyMoves state step next ∧
      step.Meets ours (Foreign ours) state) (ProxyState.start initial) steps state) :
    ((∀ os, ProxyStep.external os ∉ steps) → state.report = some (.restored true) →
        sameProxy state.os initial = true) ∧
      (∀ ok next, ProxyMoves state (.applyPrevious ok) next → ours state.os) ∧
      (∀ journal, state.journal = some journal → ¬ ours journal.previous) ∧
      ∀ step next, ProxyMoves state step next → state.journal ≠ none → next.journal = none →
        ¬ ours next.os := by
  have howned := ProxyState.Owned.run (Sides.foreign hsame) hinitial hrun
  have hknows := howned.knows
  unfold ProxyState.PhaseKnows at hknows
  refine ⟨fun hquiet hreport => ?_, fun ok next hmove => ?_, fun journal hjournal => ?_,
    fun step next hmove hsome hnone => ?_⟩
  · -- without changes by others the same run keeps the stronger invariant
    have hkeeps : Run (fun state step next => ProxyMoves state step next ∧ step.Meets ours
        (fun config => Foreign ours config ∧ sameProxy config initial = true) state)
        (ProxyState.start initial) steps state := by
      refine hrun.mono fun s e t he hstep => ⟨hstep.1, ?_⟩
      cases e with
      | external os => exact absurd he (hquiet os)
      | setProxy ok => cases ok <;> exact hstep.2
      | recover connected => cases connected <;> exact hstep.2
      | _ => exact hstep.2
    have hkept := ProxyState.Owned.run (Sides.initial hsame initial)
      ⟨hinitial, sameProxy_refl initial⟩ hkeeps
    exact (hkept.reported hreport).2.2
  · simp only [ProxyMoves, ProxyState.apply] at hmove
    split at hmove
    · rename_i journal hphase
      rw [hphase] at hknows
      exact (hsame _ _ hknows.2).mpr (howned.recorded journal hknows.1).1
    · cases hmove
  · exact (howned.recorded journal hjournal).2.1
  · obtain ⟨journal, hphase, hos⟩ := ProxyState.removing_of_journal_none hmove hsome hnone
    rw [hphase] at hknows
    rw [hos]
    exact hknows.2.1

/-- The endpoints of one port. -/
def endpointAt (port : Nat) (config : SystemProxyConfig) : Prop :=
  config.enabled = true ∧ config.port = port

/-- Settings that count as one have one port. -/
theorem endpointAt_same (port : Nat) (a b : SystemProxyConfig) (h : sameProxy a b) :
    endpointAt port a ↔ endpointAt port b := by
  simp only [sameProxy, Bool.and_eq_true, Bool.or_eq_true, beq_iff_eq, Bool.not_eq_true'] at h
  obtain ⟨henabled, hoff | ⟨⟨-, hport⟩, -⟩⟩ := h
  · simp [endpointAt, ← henabled, hoff]
  · simp [endpointAt, henabled, hport]

/-- An endpoint applied and given back. -/
theorem proxy_ownership_round :
    Foreign (endpointAt 1080) .disabled ∧
      ∃ steps state, Run (fun state step next => ProxyMoves state step next ∧
          step.Meets (endpointAt 1080) (Foreign (endpointAt 1080)) state)
          (ProxyState.start .disabled) steps state ∧
        ProxyStep.enable 7 "127.0.0.1".toList 1080 ∈ steps ∧
        state.report = some (.restored true) ∧ sameProxy state.os .disabled = true := by
  have hinitial : Foreign (endpointAt 1080) .disabled :=
    ⟨fun h => (by cases h.1), nofun⟩
  have hset : settingOf "127.0.0.1".toList 1080 platformBypass =
      some (endpointOf "127.0.0.1".toList 1080) := by
    decide
  let journal : Journal := ⟨7, .disabled, endpointOf "127.0.0.1".toList 1080⟩
  have hrun : Run (fun state step next => ProxyMoves state step next ∧
      step.Meets (endpointAt 1080) (Foreign (endpointAt 1080)) state) (ProxyState.start .disabled)
      [.enable 7 "127.0.0.1".toList 1080, .writeJournal true, .setProxy true, .confirm, .restore 7,
        .applyPrevious true, .confirmPrevious, .removeJournal true]
      ⟨.disabled, none, .idle, some (.restored true)⟩ :=
    .head (t := ⟨.disabled, none, .writing journal, none⟩) ⟨by rfl, ⟨rfl, rfl⟩, fun _ => hset⟩ <|
    .head (t := ⟨.disabled, some journal, .setting journal, none⟩) ⟨by rfl, trivial⟩ <|
    .head (t := ⟨journal.applied, some journal, .confirming journal, none⟩)
      ⟨by decide, trivial⟩ <|
    .head (t := ⟨journal.applied, some journal, .idle, some (.enabled true)⟩)
      ⟨by decide, trivial⟩ <|
    .head (t := ⟨journal.applied, some journal, .applying journal, none⟩)
      ⟨by decide, trivial⟩ <|
    .head (t := ⟨.disabled, some journal, .confirmingPrevious journal, none⟩) ⟨by rfl, trivial⟩ <|
    .head (t := ⟨.disabled, some journal, .removing journal, none⟩) ⟨by rfl, trivial⟩ <|
    .head ⟨by rfl, trivial⟩ (.refl _)
  exact ⟨hinitial, _, _, hrun, List.mem_cons_self, rfl,
    (proxy_ownership (endpointAt 1080) (endpointAt_same 1080) .disabled hinitial hrun).1
      (fun os => by simp) rfl⟩

/-- A change of endpoint whose call to the operating system fails: the journal describes the new
endpoint, the old one stays in force, and the restore that follows removes the journal and reports
success. -/
theorem proxy_ownership_endpoint_change :
    ∃ steps state, Run ProxyMoves (ProxyState.start .disabled) steps state ∧
      (∀ os, ProxyStep.external os ∉ steps) ∧
      state = ⟨endpointOf "127.0.0.1".toList 1080, none, .idle, some (.restored true)⟩ ∧
      sameProxy state.os .disabled = false := by
  refine ⟨[.enable 7 "127.0.0.1".toList 1080, .writeJournal true, .setProxy true, .confirm,
      .enable 7 "127.0.0.1".toList 1081, .writeJournal true, .setProxy false, .restore 7,
      .removeJournal true],
    ⟨endpointOf "127.0.0.1".toList 1080, none, .idle, some (.restored true)⟩,
    Run.of_foldlM ProxyState.apply ?_, fun os => by simp, rfl, rfl⟩
  decide

end Sockrocket
