import Sockrocket.Lib.Lru
import Sockrocket.Lib.Run
import Sockrocket.Router.Engine

/-!
# The route cache

`Router::route` and `Router::route_resolving` share one LRU cache. Each takes the lock twice, once to
look its key up and once to store what it computed, so calls of many connections interleave at those
two points. `Step` is that system; evictions may happen at any time.

Read `CacheSound` first: a cached action is the action of every call that would look it up. It is kept
by every step (`routeInvariant_step`), which makes the cache invisible in every run.
-/

namespace Sockrocket

open Rust List

/-- Maximum number of cached route decisions. -/
def routeCacheCap : Nat := 4096

/-- The key of a cached decision: everything an evaluation of a concrete destination reads. -/
structure RouteCacheKey where
  host : Str
  port : Nat
  source : Option IpAddr
  destination : Option IpAddr × Bool
deriving DecidableEq, Repr

/-- `client_cache_key`. -/
def clientCacheKey (context : TaskContext) (host : Str) (port : Nat) : RouteCacheKey where
  host := toLowercase host
  port := port
  source := context.clientSource
  destination := context.tunDestination

/-- The cache that all connections of a router share. -/
abbrev RouteCache := LruCache RouteCacheKey RouteAction routeCacheCap

/-- `Router::route` without interference: the action, and the cache afterwards. -/
def Router.route (router : Router) (context : TaskContext) (host : Str) (port : Nat)
    (cache : RouteCache) : RouteAction × RouteCache :=
  let key := clientCacheKey context host port
  match cache.get key with
  | (some action, cache) => (action, cache)
  | (none, cache) =>
    let action := router.routeUncached context host port
    (action, cache.put key action)

/-- `Router::route_resolving` without interference. Only concrete destinations are cached. -/
def Router.routeResolving (router : Router) (context : TaskContext) (resolve : Str → Option IpAddr)
    (host : Str) (port : Nat) (cache : RouteCache) : RouteAction × RouteCache :=
  if (parseIp host).isNone && context.tunDestination.1.isNone then
    (router.routeUncachedResolving context resolve host port, cache)
  else
    let key := clientCacheKey context host port
    match cache.get key with
    | (some action, cache) => (action, cache)
    | (none, cache) =>
      let action := router.routeUncachedResolving context resolve host port
      (action, cache.put key action)

/-- The two entry points that use the cache. A resolving call brings the answers DNS gives it. -/
inductive RouteMode where
  | sync
  | resolving (resolve : Str → Option IpAddr)

/-- One call, with the context of the task that makes it. -/
structure RouteCall where
  mode : RouteMode
  context : TaskContext
  host : Str
  port : Nat

namespace RouteCall

/-- The key under which the call looks a decision up and stores it. -/
def key (call : RouteCall) : RouteCacheKey :=
  clientCacheKey call.context call.host call.port

/-- Whether the call uses the cache. -/
def usesCache (call : RouteCall) : Bool :=
  match call.mode with
  | .sync => true
  | .resolving _ => !((parseIp call.host).isNone && call.context.tunDestination.1.isNone)

/-- The decision the call computes when it finds none: `route_uncached` or
`route_uncached_resolving` for its own host, port, context and DNS answers. -/
def uncached (call : RouteCall) (router : Router) : RouteAction :=
  match call.mode with
  | .sync => router.routeUncached call.context call.host call.port
  | .resolving resolve =>
    router.routeUncachedResolving call.context resolve call.host call.port

/-- The whole call made without interference. -/
def perform (call : RouteCall) (router : Router) (cache : RouteCache) : RouteAction × RouteCache :=
  match call.mode with
  | .sync => router.route call.context call.host call.port cache
  | .resolving resolve => router.routeResolving call.context resolve call.host call.port cache

variable {call : RouteCall}

/-- A call that uses the cache looks up, and computes and stores on a miss. -/
theorem perform_of_usesCache (huses : call.usesCache) (router : Router)
    (cache : RouteCache) :
    call.perform router cache =
      match cache.get call.key with
      | (some action, cache) => (action, cache)
      | (none, cache) => (call.uncached router, cache.put call.key (call.uncached router)) := by
  obtain ⟨mode, context, host, port⟩ := call
  cases mode with
  | sync => rfl
  | resolving resolve =>
    simp only [usesCache, Bool.not_eq_true'] at huses
    simp only [perform, Router.routeResolving, huses, Bool.false_eq_true, if_false]
    rfl

/-- A call that does not use the cache leaves it alone. -/
theorem perform_of_not_usesCache (huses : call.usesCache = false)
    (router : Router) (cache : RouteCache) :
    call.perform router cache = (call.uncached router, cache) := by
  obtain ⟨mode, context, host, port⟩ := call
  cases mode with
  | sync => cases huses
  | resolving resolve =>
    simp only [usesCache, Bool.not_eq_false'] at huses
    simp only [perform, Router.routeResolving, huses, if_true]
    rfl

end RouteCall

/-! ## Interleaved calls -/

/-- The shared cache, the calls that looked their key up in vain and hold a decision to store, and
the calls that returned, each with the action it returned. -/
structure RouteState where
  cache : RouteCache
  pending : List (RouteCall × RouteAction)
  returned : List (RouteCall × RouteAction)

/-- The router as it is created: nothing cached, no call made. -/
def RouteState.init : RouteState :=
  ⟨LruCache.empty, [], []⟩

/-- What can happen next. -/
inductive RouteEvent where
  | bypass (call : RouteCall)
  | lookup (call : RouteCall)
  | skipLookup (call : RouteCall)
  | store (call : RouteCall)
  | skipStore (call : RouteCall)
  | evict (key : RouteCacheKey)

/-- One step of the system. A poisoned lock makes a call skip its lookup or its store. -/
inductive RouteStep (router : Router) : RouteState → RouteEvent → RouteState → Prop where
  | bypass {s : RouteState} {call : RouteCall} (huses : call.usesCache = false) :
      RouteStep router s (.bypass call)
        { s with returned := (call, call.uncached router) :: s.returned }
  | hit {s : RouteState} {call : RouteCall} {action : RouteAction}
      (huses : call.usesCache = true) (hget : (s.cache.get call.key).1 = some action) :
      RouteStep router s (.lookup call)
        { s with cache := (s.cache.get call.key).2, returned := (call, action) :: s.returned }
  | miss {s : RouteState} {call : RouteCall} (huses : call.usesCache = true)
      (hget : (s.cache.get call.key).1 = none) :
      RouteStep router s (.lookup call)
        { s with
          cache := (s.cache.get call.key).2
          pending := (call, call.uncached router) :: s.pending }
  | skipLookup {s : RouteState} {call : RouteCall} (huses : call.usesCache = true) :
      RouteStep router s (.skipLookup call)
        { s with pending := (call, call.uncached router) :: s.pending }
  | store {s : RouteState} {call : RouteCall} {action : RouteAction}
      {before after : List (RouteCall × RouteAction)}
      (hpending : s.pending = before ++ (call, action) :: after) :
      RouteStep router s (.store call)
        { cache := s.cache.put call.key action
          pending := before ++ after
          returned := (call, action) :: s.returned }
  | skipStore {s : RouteState} {call : RouteCall} {action : RouteAction}
      {before after : List (RouteCall × RouteAction)}
      (hpending : s.pending = before ++ (call, action) :: after) :
      RouteStep router s (.skipStore call)
        { s with pending := before ++ after, returned := (call, action) :: s.returned }
  | evict {s : RouteState} {key : RouteCacheKey} :
      RouteStep router s (.evict key) { s with cache := s.cache.erase key }

/-! ## A cached action is the action of every call under its key -/

/-- The known destination address does not depend on the letter case of the host. -/
theorem knownIp_toLowercase (context : TaskContext) (host : Str) :
    Router.knownIp context (toLowercase host) = Router.knownIp context host := by
  unfold Router.knownIp
  rw [parseIp_toLowercase]

/-- The decision a key determines: that of `route` for the host in lower case. -/
def RouteCacheKey.decision (key : RouteCacheKey) (router : Router) : RouteAction :=
  router.routeUncached ⟨key.source, key.destination⟩ key.host key.port

variable {router : Router}

variable {call : RouteCall}

/-- A call that uses the cache decides by its key alone. -/
theorem uncached_eq_decision (huses : call.usesCache) :
    call.uncached router = call.key.decision router := by
  obtain ⟨mode, context, host, port⟩ := call
  have hkey : router.routeUncached context (toLowercase host) port =
      router.evaluate context (toLowercase host) (Router.knownIp context host) port := by
    rw [Router.routeUncached_eq, toLowercase_idem, knownIp_toLowercase]
  show _ = router.routeUncached context (toLowercase host) port
  rw [hkey]
  cases mode with
  | sync => exact Router.routeUncached_eq host
  | resolving resolve =>
    -- the address is known, so the evaluation makes no lookup
    have hknown : (Router.knownIp context host).isSome := by
      unfold Router.knownIp
      simp only [RouteCall.usesCache, Bool.not_eq_true', Bool.and_eq_false_iff,
        Option.isNone_eq_false_iff] at huses
      rcases huses with hsome | hsome <;> simp [hsome]
    obtain ⟨ip, hip⟩ := Option.isSome_iff_exists.mp hknown
    show router.routeUncachedResolving context resolve host port = _
    rw [Router.routeUncachedResolving_eq, hip, Option.some_or]

/-- Every cached action is the decision of its key. -/
def CacheSound (router : Router) (cache : RouteCache) : Prop :=
  ∀ entry ∈ cache.entries, entry.2 = entry.1.decision router

variable {cache : RouteCache}

theorem CacheSound.get (h : CacheSound router cache) (key : RouteCacheKey) :
    CacheSound router (cache.get key).2 :=
  fun entry hentry => h entry (LruCache.mem_get hentry)

variable {action : RouteAction}

theorem CacheSound.put (h : CacheSound router cache) {key : RouteCacheKey} (haction : action = key.decision router) :
    CacheSound router (cache.put key action) := by
  intro entry hentry
  rcases LruCache.mem_put hentry with rfl | hmem
  · exact haction
  · exact h entry hmem

/-- What holds between any two steps: the cache is sound, and every decision that a call holds or
returned is the one it computes without the cache. -/
structure RouteInvariant (router : Router) (s : RouteState) : Prop where
  cache : CacheSound router s.cache
  pending : ∀ entry ∈ s.pending, entry.1.usesCache = true ∧ entry.2 = entry.1.uncached router
  returned : ∀ entry ∈ s.returned, entry.2 = entry.1.uncached router

theorem routeInvariant_init (router : Router) : RouteInvariant router RouteState.init where
  cache := by intro entry hentry; cases hentry
  pending := by intro entry hentry; cases hentry
  returned := by intro entry hentry; cases hentry

/-- A hit returns what the call would have computed. -/
theorem hit_eq_uncached
    (hsound : CacheSound router cache) (huses : call.usesCache)
    (hget : (cache.get call.key).1 = some action) : action = call.uncached router := by
  rw [uncached_eq_decision huses]
  exact hsound _ (LruCache.get_eq_some hget)

theorem routeInvariant_step {s t : RouteState} {event : RouteEvent} (h : RouteInvariant router s)
    (hstep : RouteStep router s event t) :
    RouteInvariant router t := by
  obtain ⟨hcache, hpending, hreturned⟩ := h
  cases hstep with
  | bypass huses =>
    exact ⟨hcache, hpending, forall_mem_cons.mpr ⟨rfl, hreturned⟩⟩
  | hit huses hget =>
    have haction := hit_eq_uncached hcache huses hget
    exact ⟨hcache.get _, hpending, forall_mem_cons.mpr ⟨haction, hreturned⟩⟩
  | miss huses hget =>
    exact ⟨hcache.get _, forall_mem_cons.mpr ⟨⟨huses, rfl⟩, hpending⟩, hreturned⟩
  | skipLookup huses =>
    exact ⟨hcache, forall_mem_cons.mpr ⟨⟨huses, rfl⟩, hpending⟩, hreturned⟩
  | @store call action before after hsplit =>
    rw [hsplit] at hpending
    obtain ⟨huses, haction⟩ := hpending (call, action) (by simp)
    refine ⟨hcache.put ?_, fun entry hentry => hpending entry ?_, ?_⟩
    · exact haction.trans (uncached_eq_decision huses)
    · rcases mem_append.mp hentry with hmem | hmem <;> simp [hmem]
    · exact forall_mem_cons.mpr ⟨haction, hreturned⟩
  | @skipStore call action before after hsplit =>
    rw [hsplit] at hpending
    obtain ⟨-, haction⟩ := hpending (call, action) (by simp)
    refine ⟨hcache, fun entry hentry => hpending entry ?_, ?_⟩
    · rcases mem_append.mp hentry with hmem | hmem <;> simp [hmem]
    · exact forall_mem_cons.mpr ⟨haction, hreturned⟩
  | evict => exact ⟨fun entry hentry => hcache entry (LruCache.mem_erase hentry), hpending, hreturned⟩

/-- A call made without interference is a run of the system: the lookup, and after a miss the
store. -/
theorem perform_run (router : Router) (s : RouteState) (call : RouteCall) :
    ∃ events, Transition.Run (RouteStep router) s events
      { s with
        cache := (call.perform router s.cache).2
        returned := (call, (call.perform router s.cache).1) :: s.returned } := by
  cases huses : call.usesCache with
  | false =>
    rw [RouteCall.perform_of_not_usesCache huses]
    exact ⟨_, .head (.bypass huses) (.refl _)⟩
  | true =>
    rw [RouteCall.perform_of_usesCache huses]
    rcases hget : s.cache.get call.key with ⟨action, cache⟩
    cases action with
    | some action =>
      have hhit : RouteStep router s (.lookup call) _ := .hit huses (congrArg Prod.fst hget)
      rw [hget] at hhit
      exact ⟨_, .head hhit (.refl _)⟩
    | none =>
      have hmiss : RouteStep router s (.lookup call) _ := .miss huses (congrArg Prod.fst hget)
      rw [hget] at hmiss
      exact ⟨_, .head hmiss (.head (.store (nil_append _).symm) (.refl _))⟩

/-- In every reachable state, a call made without interference decides as it does without the
cache. -/
theorem RouteInvariant.perform {s : RouteState} (h : RouteInvariant router s) (call : RouteCall) :
    (call.perform router s.cache).1 = call.uncached router := by
  obtain ⟨events, hrun⟩ := perform_run router s call
  have hafter := hrun.invariant (RouteInvariant router) h fun _ _ _ => routeInvariant_step
  exact hafter.returned _ (mem_cons_self ..)

/-- The cache is invisible: every call of every run returns the decision of its own host, port,
context and DNS answers. -/
theorem route_cache_transparent (router : Router) {events : List RouteEvent} {s : RouteState}
    (hrun : Transition.Run (RouteStep router) RouteState.init events s) :
    (∀ call action, (call, action) ∈ s.returned → action = call.uncached router) ∧
      (∀ context host port, (router.route context host port s.cache).1 =
        router.routeUncached context host port) ∧
      ∀ context resolve host port, (router.routeResolving context resolve host port s.cache).1 =
        router.routeUncachedResolving context resolve host port := by
  have hinv := hrun.invariant (RouteInvariant router) (routeInvariant_init router)
    fun _ _ _ => routeInvariant_step
  refine ⟨fun call action hmem => hinv.returned _ hmem, fun context host port => ?_,
    fun context resolve host port => ?_⟩
  · exact hinv.perform ⟨.sync, context, host, port⟩
  · exact hinv.perform ⟨.resolving resolve, context, host, port⟩

/-- A decision stored for one spelling of a host is returned for another, and it is the right one. -/
theorem route_cache_transparent_hit :
    let router : Router := ⟨⟨[⟨none, none, .domain "example.com".toList, .reject⟩], .proxy⟩, none⟩
    let call : Str → RouteCall := fun host => ⟨.sync, ⟨none, (none, false)⟩, host, 443⟩
    ∃ s, Transition.Run (RouteStep router) RouteState.init
        [.lookup (call "Example.COM".toList), .store (call "Example.COM".toList),
          .lookup (call "example.com".toList)] s ∧
      (call "example.com".toList, .reject) ∈ s.returned ∧
      RouteAction.reject = (call "example.com".toList).uncached router := by
  intro router call
  have hrun : Transition.Run (RouteStep router) RouteState.init
      [.lookup (call "Example.COM".toList), .store (call "Example.COM".toList),
        .lookup (call "example.com".toList)] _ :=
    .head (.miss rfl rfl) <| .head (.store (nil_append _).symm) <|
      .head (@RouteStep.hit router _ _ .reject rfl (by decide +kernel)) (.refl _)
  refine ⟨_, hrun, mem_cons_self .., ?_⟩
  exact (route_cache_transparent router hrun).1 _ _ (mem_cons_self ..)

end Sockrocket
