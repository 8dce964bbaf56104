import Sockrocket.Lib.Run
import Sockrocket.Rust.Text

/-!
# Hot reload of the configuration file

`config/watch.rs`: a task polls the modification time of the file, reads the file when it changed,
compares a hash of the text with the last one accepted, and publishes what it parsed. Writers of the
same process record their own saves with `note_saved`.

The reads of the task, its two locked sections and the sending of an event are one step each, and
replacements of the file and saves of writers may come between any two of them. Parsers and the hash
are parameters. `watch_converges` states what the watcher is for, for the runs that meet
`WatchStep.Meets`; `watch_misses_early_edit` is a run that does not.
-/

namespace Sockrocket

open Rust Transition List Option

/-- `Ipv6Mode`. -/
inductive Ipv6Mode where
  | compatibility
  | dualStack
deriving DecidableEq, Repr

/-- The settings of a running service that only a restart can change. -/
structure ListenSettings where
  listenAddr : Str
  socksPort : Nat
  httpPort : Nat
  ipv6Mode : Ipv6Mode
  tunMtu : Option Nat
deriving DecidableEq, Repr

/-- `restart_fields`. -/
def restartFields (baseline settings : ListenSettings) : List Str :=
  (if settings.listenAddr ≠ baseline.listenAddr then ["listen_addr".toList] else []) ++
    (if settings.socksPort ≠ baseline.socksPort then ["socks_port".toList] else []) ++
    (if settings.httpPort ≠ baseline.httpPort then ["http_port".toList] else []) ++
    (if settings.ipv6Mode ≠ baseline.ipv6Mode then ["ipv6_mode".toList] else []) ++
    (if settings.tunMtu ≠ baseline.tunMtu then ["tun_mtu".toList] else [])

/-- What the watcher calls outside its module: the YAML parser, the readers of the two parts of a
configuration, the settings among them, and the hash of a text with the value used for a file that
cannot be read. -/
structure WatchParams (Raw Config Dns Hash : Type) where
  fromStr : Str → Except Str Raw
  dnsFromYaml : Raw → Except Str Dns
  fromYamlValue : Raw → Except Str Config
  settings : Config → ListenSettings
  hash : Str → Hash
  unread : Hash

variable {Raw Config Dns Hash : Type}

/-- `parse_reload`. -/
def WatchParams.parseReload (params : WatchParams Raw Config Dns Hash) (content : Str) :
    Except Str (Config × Dns) := do
  let raw ← params.fromStr content
  let dnsSettings ← params.dnsFromYaml raw
  let config ← params.fromYamlValue raw
  pure (config, dnsSettings)

/-- `ConfigWatchEvent`. -/
inductive ConfigWatchEvent (Config Dns : Type) where
  | reloaded (config : Config) (dnsSettings : Dns) (requiresRestart : List Str)
  | parseError (message : Str)

/-- Where the watcher is: before the read of `spawn`, before the first look at the modification
time, waiting for the next poll, about to read the file, about to compare, about to parse, and about
to send. A modification time is `none` when it could not be read. -/
inductive WatchPhase (Config Dns : Type) where
  | starting
  | spawned
  | sleeping (lastMtime : Option Nat)
  | changed (lastMtime : Option Nat)
  | read (lastMtime : Option Nat) (content : Str)
  | differs (lastMtime : Option Nat) (content : Str)
  | sending (lastMtime : Option Nat) (content : Str) (config : Config) (dnsSettings : Dns)
      (requiresRestart : List Str)

/-- The file, the locked state of the watcher, its task and the events it sent. `adopted` is the
text the service runs with: that of the start, of the last reload or of the last own save. -/
structure WatchState (Config Dns Hash : Type) where
  file : Str
  mtime : Nat
  phase : WatchPhase Config Dns
  contentHash : Hash
  restartBaseline : ListenSettings
  adopted : Str
  events : List (ConfigWatchEvent Config Dns)

/-- The steps of the system. Reads say whether they succeed. -/
inductive WatchStep (Config : Type) where
  | replace (content : Str)
  | save (content : Str) (config : Config)
  | spawn (readable : Bool)
  | firstMtime (readable : Bool)
  | poll (readable : Bool)
  | readFile (readable : Bool)
  | compare
  | publish
  | send

namespace WatchState

variable (params : WatchParams Raw Config Dns Hash)

/-- The service has read the file and is about to call `spawn`. -/
def start (content : Str) (mtime : Nat) (config : Config) : WatchState Config Dns Hash where
  file := content
  mtime := mtime
  phase := .starting
  contentHash := params.unread
  restartBaseline := params.settings config
  adopted := content
  events := []

/-- The modification time as the task sees it. -/
def seenMtime (state : WatchState Config Dns Hash) (readable : Bool) : Option Nat :=
  if readable then some state.mtime else none

/-- One step, `none` if it is not the turn of the watcher. -/
def apply [DecidableEq Hash] (state : WatchState Config Dns Hash) :
    WatchStep Config → Option (WatchState Config Dns Hash)
  | .replace content => some { state with file := content, mtime := state.mtime + 1 }
  | .save content config =>
    match state.phase with
    | .starting => none
    | _ => some { state with
        file := content
        mtime := state.mtime + 1
        contentHash := params.hash content
        restartBaseline := params.settings config
        adopted := content }
  | .spawn readable =>
    match state.phase with
    | .starting => some { state with
        phase := .spawned
        contentHash := if readable then params.hash state.file else params.unread }
    | _ => none
  | .firstMtime readable =>
    match state.phase with
    | .spawned => some { state with phase := .sleeping (state.seenMtime readable) }
    | _ => none
  | .poll readable =>
    match state.phase with
    | .sleeping lastMtime =>
      if state.seenMtime readable = lastMtime then some state
      else some { state with phase := .changed (state.seenMtime readable) }
    | _ => none
  | .readFile readable =>
    match state.phase with
    | .changed lastMtime =>
      if readable then some { state with phase := .read lastMtime state.file }
      else some { state with phase := .sleeping lastMtime }
    | _ => none
  | .compare =>
    match state.phase with
    | .read lastMtime content =>
      if params.hash content = state.contentHash then
        some { state with phase := .sleeping lastMtime }
      else some { state with phase := .differs lastMtime content }
    | _ => none
  | .publish =>
    match state.phase with
    | .differs lastMtime content =>
      match params.parseReload content with
      | .ok (config, dnsSettings) => some { state with
          contentHash := params.hash content
          phase := .sending lastMtime content config dnsSettings
            (restartFields state.restartBaseline (params.settings config)) }
      | .error message => some { state with
          phase := .sleeping lastMtime
          events := state.events ++ [.parseError message] }
    | _ => none
  | .send =>
    match state.phase with
    | .sending lastMtime content config dnsSettings requiresRestart => some { state with
        phase := .sleeping lastMtime
        adopted := content
        events := state.events ++ [.reloaded config dnsSettings requiresRestart] }
    | _ => none

/-- The step the watcher is about to take, with every read succeeding. -/
def nextStep (state : WatchState Config Dns Hash) : WatchStep Config :=
  match state.phase with
  | .starting => .spawn true
  | .spawned => .firstMtime true
  | .sleeping _ => .poll true
  | .changed _ => .readFile true
  | .read _ _ => .compare
  | .differs _ _ => .publish
  | .sending _ _ _ _ _ => .send

/-- One step of the watcher while nobody writes and the file can be read. -/
def advance [DecidableEq Hash] (state : WatchState Config Dns Hash) :
    WatchState Config Dns Hash :=
  (state.apply params state.nextStep).getD state

/-- The service runs with the file, or the file is broken and the last event says so. -/
def Converged (state : WatchState Config Dns Hash) : Prop :=
  match params.parseReload state.file with
  | .ok _ => state.adopted = state.file
  | .error message => state.events.getLast? = some (.parseError message)

end WatchState

/-- The transition relation. -/
def WatchMoves [DecidableEq Hash] (params : WatchParams Raw Config Dns Hash)
    (state : WatchState Config Dns Hash) (step : WatchStep Config) (next : WatchState Config Dns Hash) : Prop :=
  state.apply params step = some next

/-- The steps after which no update is lost: the file is not replaced before the first look at its
modification time, `spawn` can read it, a read does not fail while the time recorded for it is the
current one, and a writer saves text that parses and not while a comparison is being published. -/
def WatchStep.Meets (params : WatchParams Raw Config Dns Hash)
    (state : WatchState Config Dns Hash) : WatchStep Config → Prop
  | .replace _ =>
    match state.phase with
    | .starting | .spawned => False
    | _ => True
  | .save content _ =>
    (∃ parsed, params.parseReload content = .ok parsed) ∧
      match state.phase with
      | .differs _ _ | .sending _ _ _ _ _ => False
      | _ => True
  | .spawn readable => readable = true
  | .readFile readable =>
    readable = true ∨ state.phase ≠ .changed (some state.mtime)
  | _ => True

/-! ## What every step keeps -/

/-- The modification time the task goes by. -/
def WatchPhase.lastMtime : WatchPhase Config Dns → Option Nat
  | .starting | .spawned => none
  | .sleeping last | .changed last | .read last _ | .differs last _ | .sending last _ _ _ _ => last

namespace WatchState

variable (params : WatchParams Raw Config Dns Hash)

/-- What the watcher knows in each phase. Text it holds is that of the file while the modification
time it goes by is the current one. -/
def Knows (state : WatchState Config Dns Hash) : Prop :=
  match state.phase with
  | .starting => state.file = state.adopted
  | .spawned => state.contentHash = params.hash state.adopted ∧ state.file = state.adopted
  | .sleeping last =>
    state.contentHash = params.hash state.adopted ∧
      (last = some state.mtime → state.Converged params)
  | .changed _ => state.contentHash = params.hash state.adopted
  | .read last content =>
    state.contentHash = params.hash state.adopted ∧ (last = some state.mtime → content = state.file)
  | .differs last content =>
    state.contentHash = params.hash state.adopted ∧ content ≠ state.adopted ∧
      (last = some state.mtime → content = state.file)
  | .sending last content config dnsSettings requiresRestart =>
    state.contentHash = params.hash content ∧ content ≠ state.adopted ∧
      params.parseReload content = .ok (config, dnsSettings) ∧
      requiresRestart = restartFields state.restartBaseline (params.settings config) ∧
      (last = some state.mtime → content = state.file)

/-- The invariant of the runs that meet the condition. -/
structure Sound (state : WatchState Config Dns Hash) : Prop where
  parses : ∃ parsed, params.parseReload state.adopted = .ok parsed
  recorded : ∀ m, state.phase.lastMtime = some m → m ≤ state.mtime
  knows : state.Knows params

variable {params} {state next : WatchState Config Dns Hash}

theorem converged_of_adopted (hparses : ∃ parsed, params.parseReload state.adopted = .ok parsed)
    (h : state.adopted = state.file) : state.Converged params := by
  obtain ⟨parsed, hparsed⟩ := hparses
  unfold Converged
  rw [← h, hparsed]

/-- Once the file is replaced, no recorded time is the current one. -/
theorem Sound.not_current (h : state.Sound params) :
    state.phase.lastMtime ≠ some (state.mtime + 1) := by
  intro hlast
  have hle := h.recorded _ hlast
  omega

variable {content : Str}

/-- A replacement of the file. -/
theorem Sound.replace (h : state.Sound params)
    (hmeets : (WatchStep.replace content : WatchStep Config).Meets params state) :
    Sound params { state with file := content, mtime := state.mtime + 1 } := by
  have hstale := h.not_current
  refine ⟨h.parses, fun m hm => Nat.le_succ_of_le (h.recorded m hm), ?_⟩
  have hknows := h.knows
  unfold Knows at hknows ⊢
  unfold WatchStep.Meets at hmeets
  cases hphase : state.phase with
  | starting | spawned => simp only [hphase] at hmeets
  | sleeping last =>
    simp only [hphase] at hknows hstale ⊢
    exact ⟨hknows.1, fun hlast => absurd hlast hstale⟩
  | changed last =>
    simp only [hphase] at hknows ⊢
    exact hknows
  | read last text =>
    simp only [hphase] at hknows hstale ⊢
    exact ⟨hknows.1, fun hlast => absurd hlast hstale⟩
  | differs last text =>
    simp only [hphase] at hknows hstale ⊢
    exact ⟨hknows.1, hknows.2.1, fun hlast => absurd hlast hstale⟩
  | sending last text config dnsSettings requiresRestart =>
    simp only [hphase] at hknows hstale ⊢
    exact ⟨hknows.1, hknows.2.1, hknows.2.2.1, hknows.2.2.2.1, fun hlast => absurd hlast hstale⟩

/-- A writer's own save. -/
theorem Sound.save (h : state.Sound params) {config : Config}
    (hphase : state.phase ≠ .starting)
    (hmeets : (WatchStep.save content config).Meets params state) :
    Sound params { state with
      file := content
      mtime := state.mtime + 1
      contentHash := params.hash content
      restartBaseline := params.settings config
      adopted := content } := by
  have hstale := h.not_current
  obtain ⟨hparses, hfree⟩ := hmeets
  refine ⟨hparses, fun m hm => Nat.le_succ_of_le (h.recorded m hm), ?_⟩
  unfold Knows
  cases hcase : state.phase with
  | starting => exact absurd hcase hphase
  | spawned => exact ⟨rfl, rfl⟩
  | sleeping last =>
    rw [hcase] at hstale
    exact ⟨rfl, fun hlast => absurd hlast hstale⟩
  | changed last => rfl
  | read last text =>
    rw [hcase] at hstale
    exact ⟨rfl, fun hlast => absurd hlast hstale⟩
  | differs last text
  | sending last text config dnsSettings requiresRestart => simp only [hcase] at hfree

theorem seenMtime_le {readable : Bool} {m : Nat} (h : state.seenMtime readable = some m) :
    m ≤ state.mtime := by
  unfold seenMtime at h
  split at h
  · exact (some.inj h).ge
  · cases h

section Steps

variable [DecidableEq Hash] {readable : Bool}

/-- The read of `spawn` sees what the service was started from. -/
theorem Sound.spawn (h : state.Sound params)
    (hmove : WatchMoves params state (.spawn readable) next) (hread : readable) :
    next.Sound params := by
  simp only [WatchMoves, apply] at hmove
  split at hmove
  · rename_i hphase
    obtain rfl := some.inj hmove
    have hknows := h.knows
    simp only [Knows, hphase] at hknows
    refine ⟨h.parses, nofun, ?_, hknows⟩
    simp [hread, hknows]
  · cases hmove

theorem Sound.firstMtime (h : state.Sound params)
    (hmove : WatchMoves params state (.firstMtime readable) next) : next.Sound params := by
  simp only [WatchMoves, apply] at hmove
  split at hmove
  · rename_i hphase
    obtain rfl := some.inj hmove
    have hknows := h.knows
    simp only [Knows, hphase] at hknows
    exact ⟨h.parses, fun m hm => seenMtime_le hm, hknows.1,
      fun _ => converged_of_adopted h.parses hknows.2.symm⟩
  · cases hmove

theorem Sound.poll (h : state.Sound params)
    (hmove : WatchMoves params state (.poll readable) next) : next.Sound params := by
  simp only [WatchMoves, apply] at hmove
  split at hmove
  · rename_i last hphase
    have hknows := h.knows
    simp only [Knows, hphase] at hknows
    split at hmove
    · obtain rfl := some.inj hmove
      exact h
    · obtain rfl := some.inj hmove
      exact ⟨h.parses, fun m hm => seenMtime_le hm, hknows.1⟩
  · cases hmove

/-- A read that failed is made again: the time recorded for it is not the current one. -/
theorem Sound.readFile (h : state.Sound params)
    (hmove : WatchMoves params state (.readFile readable) next)
    (hmeets : readable ∨ state.phase ≠ .changed (some state.mtime)) :
    next.Sound params := by
  simp only [WatchMoves, apply] at hmove
  split at hmove
  · rename_i last hphase
    have hknows := h.knows
    have hrecorded := h.recorded
    simp only [Knows, hphase] at hknows
    rw [hphase] at hrecorded hmeets
    split at hmove
    · obtain rfl := some.inj hmove
      exact ⟨h.parses, hrecorded, hknows, fun _ => rfl⟩
    rename_i hread
    obtain rfl := some.inj hmove
    refine ⟨h.parses, hrecorded, hknows, fun hlast => ?_⟩
    exact absurd (congrArg _ hlast) (hmeets.resolve_left hread)
  · cases hmove

theorem Sound.compare (hinj : Function.Injective params.hash) (h : state.Sound params)
    (hmove : WatchMoves params state .compare next) : next.Sound params := by
  simp only [WatchMoves, apply] at hmove
  split at hmove
  · rename_i last content hphase
    have hknows := h.knows
    have hrecorded := h.recorded
    simp only [Knows, hphase] at hknows
    rw [hphase] at hrecorded
    split at hmove
    · rename_i hhash
      obtain rfl := some.inj hmove
      refine ⟨h.parses, hrecorded, hknows.1, fun hlast => converged_of_adopted h.parses ?_⟩
      exact (hinj (hhash.trans hknows.1)).symm.trans (hknows.2 hlast)
    · rename_i hhash
      obtain rfl := some.inj hmove
      refine ⟨h.parses, hrecorded, hknows.1, fun heq => hhash ?_, hknows.2⟩
      rw [heq, hknows.1]
  · cases hmove

theorem Sound.publish (h : state.Sound params)
    (hmove : WatchMoves params state .publish next) : next.Sound params := by
  simp only [WatchMoves, apply] at hmove
  split at hmove
  · rename_i last content hphase
    have hknows := h.knows
    have hrecorded := h.recorded
    simp only [Knows, hphase] at hknows
    rw [hphase] at hrecorded
    split at hmove
    · rename_i config dnsSettings hparsed
      obtain rfl := some.inj hmove
      exact ⟨h.parses, hrecorded, rfl, hknows.2.1, hparsed, rfl, hknows.2.2⟩
    rename_i message herror
    obtain rfl := some.inj hmove
    refine ⟨h.parses, hrecorded, hknows.1, fun hlast => ?_⟩
    rw [hknows.2.2 hlast] at herror
    simp [Converged, herror]
  · cases hmove

theorem Sound.send (h : state.Sound params)
    (hmove : WatchMoves params state .send next) : next.Sound params := by
  simp only [WatchMoves, apply] at hmove
  split at hmove
  · rename_i last content config dnsSettings requiresRestart hphase
    have hknows := h.knows
    have hrecorded := h.recorded
    simp only [Knows, hphase] at hknows
    rw [hphase] at hrecorded
    obtain rfl := some.inj hmove
    obtain ⟨hhash, -, hparsed, -, hcurrent⟩ := hknows
    exact ⟨⟨_, hparsed⟩, hrecorded, hhash, fun hlast =>
      converged_of_adopted ⟨_, hparsed⟩ (hcurrent hlast)⟩
  · cases hmove

/-- Every step that meets the condition keeps the invariant. -/
theorem Sound.step (hinj : Function.Injective params.hash) (h : state.Sound params)
    {step : WatchStep Config} (hmove : WatchMoves params state step next)
    (hmeets : step.Meets params state) : next.Sound params := by
  cases step with
  | replace content =>
    obtain rfl := some.inj hmove
    exact h.replace hmeets
  | save content config =>
    simp only [WatchMoves, apply] at hmove
    split at hmove
    · cases hmove
    · rename_i hphase
      obtain rfl := some.inj hmove
      exact h.save hphase hmeets
  | spawn readable => exact h.spawn hmove hmeets
  | firstMtime readable => exact h.firstMtime hmove
  | poll readable => exact h.poll hmove
  | readFile readable => exact h.readFile hmove hmeets
  | compare => exact h.compare hinj hmove
  | publish => exact h.publish hmove
  | send => exact h.send hmove

end Steps

/-! ## The watcher alone -/

section Alone

/-- How many steps the watcher takes at most until it has seen the file as it is. -/
def distance (state : WatchState Config Dns Hash) : Nat :=
  (if state.phase.lastMtime = some state.mtime then 0 else 5) +
    match state.phase with
    | .sleeping _ => 0
    | .sending _ _ _ _ _ | .spawned => 1
    | .differs _ _ | .starting => 2
    | .read _ _ => 3
    | .changed _ => 4

theorem distance_le (state : WatchState Config Dns Hash) : state.distance ≤ 9 := by
  unfold distance
  split <;> cases state.phase <;> simp

variable [DecidableEq Hash]

/-- The watcher can always go on when its reads succeed, and it meets the condition. -/
theorem advance_moves (params : WatchParams Raw Config Dns Hash)
    (state : WatchState Config Dns Hash) :
    WatchMoves params state state.nextStep (state.advance params) ∧
      state.nextStep.Meets params state := by
  unfold advance nextStep WatchMoves
  cases hphase : state.phase with
  | starting => exact ⟨by simp [apply, hphase], rfl⟩
  | spawned => exact ⟨by simp [apply, hphase], trivial⟩
  | sleeping last =>
    refine ⟨?_, trivial⟩
    simp only [apply, hphase]
    split <;> rfl
  | changed last => exact ⟨by simp [apply, hphase], .inl rfl⟩
  | read last content | differs last content =>
    refine ⟨?_, trivial⟩
    simp only [apply, hphase]
    split <;> rfl
  | sending last content config dnsSettings requiresRestart =>
    exact ⟨by simp [apply, hphase], trivial⟩

/-- Each step brings the watcher nearer to the file. -/
theorem distance_advance (params : WatchParams Raw Config Dns Hash)
    (state : WatchState Config Dns Hash) (h : state.distance ≠ 0) :
    (state.advance params).distance < state.distance := by
  unfold advance nextStep at *
  cases hphase : state.phase with
  | starting => simp [apply, hphase, distance, WatchPhase.lastMtime]
  | spawned => simp [apply, hphase, distance, WatchPhase.lastMtime, seenMtime]
  | sleeping last =>
    have hstale : some state.mtime ≠ last := by
      intro hlast
      simp [distance, hphase, WatchPhase.lastMtime, hlast] at h
    simp [apply, hphase, distance, WatchPhase.lastMtime, seenMtime, hstale, Ne.symm hstale]
  | changed last => simp [apply, hphase, distance, WatchPhase.lastMtime]
  | read last content | differs last content =>
    simp only [apply, hphase]
    split <;> by_cases hlast : last = some state.mtime <;>
      simp [distance, hphase, WatchPhase.lastMtime, hlast]
  | sending last content config dnsSettings requiresRestart =>
    simp [apply, hphase, distance, WatchPhase.lastMtime]

/-- At the file, the watcher stays. -/
theorem advance_of_distance_zero (params : WatchParams Raw Config Dns Hash)
    {state : WatchState Config Dns Hash} (h : state.distance = 0) :
    state.advance params = state ∧ state.phase = .sleeping (some state.mtime) := by
  unfold distance at h
  split at h
  · rename_i hlast
    cases hphase : state.phase with
    | sleeping last =>
      rw [hphase] at hlast
      obtain rfl : last = some state.mtime := hlast
      exact ⟨by simp [advance, nextStep, apply, hphase, seenMtime], rfl⟩
    | starting | spawned | changed | read | differs | sending => simp [hphase] at h
  · omega

/-- Left alone, the watcher reaches the file and the service runs with it. -/
theorem Sound.converges (hinj : Function.Injective params.hash) (h : state.Sound params) {n : Nat}
    (hn : state.distance ≤ n) : ((advance params)^[n] state).Converged params := by
  induction n generalizing state with
  | zero =>
    obtain ⟨-, hphase⟩ := advance_of_distance_zero params (Nat.le_zero.mp hn)
    have hknows := h.knows
    simp only [Knows, hphase] at hknows
    exact hknows.2 trivial
  | succ n ih =>
    rw [Function.iterate_succ_apply]
    obtain ⟨hmove, hmeets⟩ := advance_moves params state
    refine ih (h.step hinj hmove hmeets) ?_
    by_cases hzero : state.distance = 0
    · rw [(advance_of_distance_zero params hzero).1, hzero]
      exact Nat.zero_le n
    · have hless := distance_advance params state hzero
      omega

end Alone

end WatchState

/-! ## Events -/

/-- The text a step puts into the file. -/
def WatchStep.text? : WatchStep Config → Option Str
  | .replace content | .save content _ => some content
  | _ => none

/-- The text the watcher holds. -/
def WatchPhase.content? : WatchPhase Config Dns → Option Str
  | .read _ content | .differs _ content | .sending _ content _ _ _ => some content
  | _ => none

/-- The settings of the last own save, or of the start. -/
def lastSettings (params : WatchParams Raw Config Dns Hash) (first : ListenSettings)
    (steps : List (WatchStep Config)) : ListenSettings :=
  steps.foldl (fun baseline step =>
    match step with
    | .save _ config => params.settings config
    | _ => baseline) first

namespace WatchState

variable {params : WatchParams Raw Config Dns Hash} {state next : WatchState Config Dns Hash}

/-- What the state keeps of the steps that led to it. -/
structure Remembers (params : WatchParams Raw Config Dns Hash) (content : Str) (config : Config)
    (past : List (WatchStep Config)) (state : WatchState Config Dns Hash) : Prop where
  baseline : state.restartBaseline = lastSettings params (params.settings config) past
  file : state.file ∈ content :: past.filterMap WatchStep.text?
  held : ∀ text, state.phase.content? = some text → text ∈ content :: past.filterMap WatchStep.text?

/-- A step of the task leaves the file and the baseline alone, and the only text it can come to
hold is that of the file. -/
theorem task_frame [DecidableEq Hash] {step : WatchStep Config}
    (hmove : WatchMoves params state step next) (htask : step.text? = none) :
    next.restartBaseline = state.restartBaseline ∧ next.file = state.file ∧
      ∀ text, next.phase.content? = some text →
        text = state.file ∨ state.phase.content? = some text := by
  cases step with
  | replace | save => cases htask
  | spawn | firstMtime =>
    simp only [WatchMoves, apply] at hmove
    split at hmove
    · obtain rfl := some.inj hmove
      exact ⟨rfl, rfl, fun text htext => .inl (by cases htext)⟩
    · cases hmove
  | poll =>
    simp only [WatchMoves, apply] at hmove
    split at hmove
    · split at hmove
      · obtain rfl := some.inj hmove
        exact ⟨rfl, rfl, fun text htext => .inr htext⟩
      · obtain rfl := some.inj hmove
        exact ⟨rfl, rfl, fun text htext => .inl (by cases htext)⟩
    · cases hmove
  | readFile =>
    simp only [WatchMoves, apply] at hmove
    split at hmove
    · split at hmove
      · obtain rfl := some.inj hmove
        exact ⟨rfl, rfl, fun text htext => .inl (some.inj htext).symm⟩
      · obtain rfl := some.inj hmove
        exact ⟨rfl, rfl, fun text htext => .inl (by cases htext)⟩
    · cases hmove
  | compare =>
    simp only [WatchMoves, apply] at hmove
    split at hmove
    · rename_i hphase
      split at hmove
      · obtain rfl := some.inj hmove
        exact ⟨rfl, rfl, fun text htext => .inl (by cases htext)⟩
      · obtain rfl := some.inj hmove
        exact ⟨rfl, rfl, fun text htext => .inr (by rw [hphase]; exact htext)⟩
    · cases hmove
  | publish =>
    simp only [WatchMoves, apply] at hmove
    split at hmove
    · rename_i hphase
      split at hmove
      · obtain rfl := some.inj hmove
        exact ⟨rfl, rfl, fun text htext => .inr (by rw [hphase]; exact htext)⟩
      · obtain rfl := some.inj hmove
        exact ⟨rfl, rfl, fun text htext => .inl (by cases htext)⟩
    · cases hmove
  | send =>
    simp only [WatchMoves, apply] at hmove
    split at hmove
    · obtain rfl := some.inj hmove
      exact ⟨rfl, rfl, fun text htext => .inl (by cases htext)⟩
    · cases hmove

/-- Every step is remembered. -/
theorem Remembers.step [DecidableEq Hash] {content : Str} {config : Config}
    {past : List (WatchStep Config)} {step : WatchStep Config}
    (h : Remembers params content config past state) (hmove : WatchMoves params state step next) :
    Remembers params content config (past ++ [step]) next := by
  have hmore : ∀ {text}, text ∈ content :: past.filterMap WatchStep.text? →
      text ∈ content :: (past ++ [step]).filterMap WatchStep.text? := by
    intro text htext
    rw [filterMap_append, ← cons_append]
    exact mem_append_left _ htext
  have hnew : ∀ text, step.text? = some text →
      text ∈ content :: (past ++ [step]).filterMap WatchStep.text? := by
    intro text htext
    simp [filterMap_append, htext]
  cases htext : step.text? with
  | none =>
    obtain ⟨hbaseline, hfile, hheld⟩ := task_frame hmove htext
    refine ⟨?_, by rw [hfile]; exact hmore h.file, fun text hcontent => hmore ?_⟩
    · rw [hbaseline, h.baseline, lastSettings, lastSettings, foldl_append]
      cases step with
      | replace | save => cases htext
      | spawn | firstMtime | poll | readFile | compare | publish | send => rfl
    · rcases hheld text hcontent with rfl | hcontent
      · exact h.file
      · exact h.held text hcontent
  | some text =>
    cases step with
    | replace written =>
      obtain rfl := some.inj hmove
      refine ⟨?_, hnew _ rfl, fun text hcontent => hmore (h.held text hcontent)⟩
      rw [lastSettings, foldl_append]
      exact h.baseline
    | save written saved =>
      simp only [WatchMoves, apply] at hmove
      split at hmove
      · cases hmove
      obtain rfl := some.inj hmove
      refine ⟨?_, hnew _ rfl, fun text hcontent => hmore (h.held text hcontent)⟩
      rw [lastSettings, foldl_append]
      rfl
    | spawn | firstMtime | poll | readFile | compare | publish | send => cases htext

/-- An event is right: it is about one text that the file had and that the service does not run
with, and a reload carries both parts of that text and the fields that differ from the baseline. -/
def EventRight (params : WatchParams Raw Config Dns Hash) (baseline : ListenSettings)
    (texts : List Str) (state next : WatchState Config Dns Hash) :
    ConfigWatchEvent Config Dns → Prop
  | .reloaded config dnsSettings requiresRestart =>
    ∃ content ∈ texts, content ≠ state.adopted ∧ next.adopted = content ∧
      params.parseReload content = .ok (config, dnsSettings) ∧
      requiresRestart = restartFields baseline (params.settings config)
  | .parseError message =>
    ∃ content ∈ texts, content ≠ state.adopted ∧ params.parseReload content = .error message

/-- Events come from `publish` and `send` only, and they are right. -/
theorem Sound.event [DecidableEq Hash] {content : Str} {config : Config}
    {past : List (WatchStep Config)} {step : WatchStep Config} (h : state.Sound params)
    (hpast : Remembers params content config past state) (hmove : WatchMoves params state step next)
    {event : ConfigWatchEvent Config Dns} (hevent : next.events = state.events ++ [event]) :
    EventRight params (lastSettings params (params.settings config) past)
      (content :: past.filterMap WatchStep.text?) state next event := by
  have hsame : next.events ≠ state.events := by
    intro heq
    have hlength := congrArg length (heq.symm.trans hevent)
    simp at hlength
  cases step with
  | replace =>
    obtain rfl := some.inj hmove
    exact absurd rfl hsame
  | save =>
    simp only [WatchMoves, apply] at hmove
    split at hmove
    · cases hmove
    · obtain rfl := some.inj hmove
      exact absurd rfl hsame
  | spawn | firstMtime =>
    simp only [WatchMoves, apply] at hmove
    split at hmove
    · obtain rfl := some.inj hmove
      exact absurd rfl hsame
    · cases hmove
  | poll | readFile | compare =>
    simp only [WatchMoves, apply] at hmove
    split at hmove
    · split at hmove <;> obtain rfl := some.inj hmove <;> exact absurd rfl hsame
    · cases hmove
  | publish =>
    simp only [WatchMoves, apply] at hmove
    split at hmove
    · rename_i last text hphase
      have hknows := h.knows
      simp only [Knows, hphase] at hknows
      have hheld := hpast.held text (by rw [hphase]; rfl)
      split at hmove
      · obtain rfl := some.inj hmove
        exact absurd rfl hsame
      rename_i message herror
      obtain rfl := some.inj hmove
      obtain rfl : _ = event := by simpa using hevent
      exact ⟨text, hheld, hknows.2.1, herror⟩
    · cases hmove
  | send =>
    simp only [WatchMoves, apply] at hmove
    split at hmove
    · rename_i last text read dnsSettings requiresRestart hphase
      have hknows := h.knows
      simp only [Knows, hphase] at hknows
      have hheld := hpast.held text (by rw [hphase]; rfl)
      obtain rfl := some.inj hmove
      obtain rfl : _ = event := by simpa using hevent
      refine ⟨text, hheld, hknows.2.1, rfl, hknows.2.2.1, ?_⟩
      rw [← hpast.baseline]
      exact hknows.2.2.2.1
    · cases hmove

end WatchState

/-- A service that was started from the file ends up with it: in every run whose steps meet the
condition, the watcher left alone converges after at most nine steps, and every event that is sent is
right. -/
theorem watch_converges [DecidableEq Hash] (params : WatchParams Raw Config Dns Hash)
    (hinj : Function.Injective params.hash) (content : Str) (mtime : Nat) (config : Config)
    (hstart : ∃ dnsSettings, params.parseReload content = .ok (config, dnsSettings))
    {steps : List (WatchStep Config)} {state : WatchState Config Dns Hash}
    (hrun : Run (fun state step next => WatchMoves params state step next ∧
      step.Meets params state) (WatchState.start params content mtime config) steps state) :
    (∀ n, 9 ≤ n → ((WatchState.advance params)^[n] state).Converged params) ∧
      ∀ step next event, WatchMoves params state step next → step.Meets params state →
        next.events = state.events ++ [event] →
        WatchState.EventRight params (lastSettings params (params.settings config) steps)
          (content :: steps.filterMap WatchStep.text?) state next event := by
  obtain ⟨dnsSettings, hparsed⟩ := hstart
  have hsound : state.Sound params := by
    refine hrun.invariant (WatchState.Sound params) ?_ fun s e t hs hstep => ?_
    · exact ⟨⟨_, hparsed⟩, nofun, rfl⟩
    · exact hs.step hinj hstep.1 hstep.2
  have hpast : WatchState.Remembers params content config steps state := by
    have hfirst : WatchState.Remembers params content config []
        (WatchState.start params content mtime config) :=
      ⟨rfl, mem_cons_self, nofun⟩
    exact hrun.history_invariant (WatchState.Remembers params content config) hfirst
      fun past s e t hs hstep => hs.step hstep.1
  refine ⟨fun n hn => ?_, fun step next event hmove _ hevent => ?_⟩
  · exact hsound.converges hinj ((WatchState.distance_le state).trans hn)
  · exact hsound.event hpast hmove hevent

/-- Parsers that take any text but the empty one as the configuration, and the text as its hash. -/
def textParams : WatchParams Str Str Unit Str where
  fromStr content := if content = [] then .error "empty".toList else .ok content
  dnsFromYaml _ := .ok ()
  fromYamlValue raw := .ok raw
  settings _ := ⟨"127.0.0.1".toList, 1080, 1087, .compatibility, none⟩
  hash content := content
  unread := []

/-- An edit after the first look at the file is taken up. -/
theorem watch_converges_edit :
    WatchState.Converged textParams ((WatchState.advance textParams)^[9]
      ⟨"b".toList, 2, .sleeping (some 1), "a".toList,
        ⟨"127.0.0.1".toList, 1080, 1087, .compatibility, none⟩, "a".toList, []⟩) := by
  have hrun : Run (fun state step next => WatchMoves textParams state step next ∧
      step.Meets textParams state) (WatchState.start textParams "a".toList 1 "a".toList)
      [.spawn true, .firstMtime true, .replace "b".toList]
      ⟨"b".toList, 2, .sleeping (some 1), "a".toList,
        ⟨"127.0.0.1".toList, 1080, 1087, .compatibility, none⟩, "a".toList, []⟩ :=
    .head ⟨rfl, rfl⟩ (.head ⟨rfl, trivial⟩ (.head ⟨rfl, trivial⟩ (.refl _)))
  exact (watch_converges textParams (fun _ _ h => h) "a".toList 1 "a".toList ⟨(), rfl⟩ hrun).1 9
    (Nat.le_refl 9)

/-- An edit between the read of `spawn` and the first look at the modification time is never taken
up: the watcher goes by the time of a text it has not read. -/
theorem watch_misses_early_edit :
    ∃ (steps : List (WatchStep Str)) (state : WatchState Str Unit Str),
      Run (WatchMoves textParams) (WatchState.start textParams "a".toList 1 "a".toList) steps
        state ∧
      ∀ n, ¬ ((WatchState.advance textParams)^[n] state).Converged textParams := by
  refine ⟨[.spawn true, .replace "b".toList, .firstMtime true], _,
    .head rfl (.head rfl (.head rfl (.refl _))), fun n hconverged => ?_⟩
  rw [Function.iterate_fixed (WatchState.advance_of_distance_zero textParams rfl).1] at hconverged
  have hadopted : "a".toList = "b".toList := hconverged
  exact absurd hadopted (by decide)

end Sockrocket
