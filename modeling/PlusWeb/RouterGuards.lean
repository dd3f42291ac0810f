import PlusWeb.RoutingTrace

/-!
# Router middleware as a guard of the router's routes

Routers form a tree when each is mounted at most once and gets its middleware
and its sub-routers before it is mounted.  A route of a router ought to be
guarded by the unscoped middleware its router got before it, and by the
unscoped middleware every enclosing router got before it mounted the next
one.

`HttpServer::use(path, router)` copies the middleware of the router in front
of its routes.  `Router::use(path, subRouter)` goes straight to the trie of
the sub-router.  So of the routers mounted inside a router only the trie is
ever consulted: their own middleware is never entered, and routers below them
are out of reach.
-/

namespace PlusWeb

variable {J A : Type}

/-- The call appends to the queue of its target. -/
def SetupCall.AddsMiddleware : SetupCall → Prop
  | .route _ _ _ _ => False
  | _ => True

instance (call : SetupCall) : Decidable call.AddsMiddleware :=
  match call with
  | .use _ => .isTrue trivial
  | .useAt _ _ => .isTrue trivial
  | .route _ _ _ _ => .isFalse id
  | .mount _ _ _ => .isTrue trivial

/-- The router a call mounts. -/
def SetupCall.mounts : SetupCall → Option Nat
  | .mount _ _ id => some id
  | _ => none

theorem SetupCall.mounts_eq_some_iff {call : SetupCall} {id : Nat} :
    call.mounts = some id ↔ ∃ target path, call = .mount target path id := by
  cases call <;> simp [SetupCall.mounts]

/--
Each router is mounted at most once, after its middleware and its
sub-routers.
-/
structure MountedAsTree (calls : List SetupCall) : Prop where
  once :
    ∀ {first second id : Nat} {target target' path path'},
      calls[first]? = some (.mount target path id) →
      calls[second]? = some (.mount target' path' id) →
      first = second
  early :
    ∀ {mount label id : Nat} {target path} {call : SetupCall},
      calls[mount]? = some (.mount target path id) →
      calls[label]? = some call →
      call.target = .router id → call.AddsMiddleware →
      label < mount

theorem mountedAsTree_iff (calls : List SetupCall) :
    MountedAsTree calls ↔
      ∀ mount ∈ calls.zipIdx, ∀ id ∈ mount.1.mounts,
        ∀ other ∈ calls.zipIdx,
          (other.1.mounts = some id → mount.2 = other.2) ∧
            (other.1.target = .router id → other.1.AddsMiddleware →
              other.2 < mount.2) := by
  constructor
  · rintro tree ⟨mount, at_⟩ member id mounts ⟨other, label⟩ otherMember
    have found := List.mk_mem_zipIdx_iff_getElem?.mp member
    have otherFound := List.mk_mem_zipIdx_iff_getElem?.mp otherMember
    rcases SetupCall.mounts_eq_some_iff.mp mounts with ⟨target, path, rfl⟩
    constructor
    · intro again
      rcases SetupCall.mounts_eq_some_iff.mp again with ⟨target', path', rfl⟩
      exact tree.once found otherFound
    · exact tree.early found otherFound
  · intro each
    constructor
    · intro first second id target target' path path' found again
      exact
        (each _ (List.mk_mem_zipIdx_iff_getElem?.mpr found) id rfl _
          (List.mk_mem_zipIdx_iff_getElem?.mpr again)).1 rfl
    · intro mount label id target path call found at_ onRouter adds
      exact
        (each _ (List.mk_mem_zipIdx_iff_getElem?.mpr found) id rfl _
          (List.mk_mem_zipIdx_iff_getElem?.mpr at_)).2 onRouter adds

instance (calls : List SetupCall) : Decidable (MountedAsTree calls) :=
  decidable_of_iff' _ (mountedAsTree_iff calls)

/--
The middleware of call `middleware` is to guard the route or the
sub-router of call `label`.
-/
inductive ToGuard (calls : List SetupCall) : Nat → Nat → Prop where
  | own {middleware label id : Nat} {call : SetupCall} :
      calls[middleware]? = some (.use (.router id)) →
      calls[label]? = some call → call.target = .router id →
      middleware < label →
      ToGuard calls middleware label
  | enclosing {middleware label mount id : Nat} {call : SetupCall}
      {target : Target} {path : StdString} :
      calls[label]? = some call → call.target = .router id →
      calls[mount]? = some (.mount target path id) →
      ToGuard calls middleware mount →
      ToGuard calls middleware label

/-- Nothing guards what is registered on the server itself. -/
theorem not_toGuard_of_server
    {calls : List SetupCall} {middleware label : Nat} {call : SetupCall}
    (at_ : calls[label]? = some call) (target : call.target = .server) :
    ¬ ToGuard calls middleware label := by
  intro guard
  cases guard with
  | own _ same onRouter _ =>
      rw [at_] at same
      obtain rfl := Option.some.inj same
      simp [target] at onRouter
  | enclosing same onRouter _ _ =>
      rw [at_] at same
      obtain rfl := Option.some.inj same
      simp [target] at onRouter

section Tree

variable {calls : List SetupCall}

/-! ## What can run a router's handler -/

/-- A router holds a handler only if its route is the router's own. -/
theorem own_of_logs_handled
    {handler id other : Nat} {verb : Verb} {path : StdString}
    {present : Bool}
    (at_ : calls[handler]? = some (.route (.router id) verb path present))
    (logs :
      ((Setup.build calls).routers other).registry.Logs
        (.handled handler)) :
    other = id := by
  rcases logs with ⟨label, equal, held⟩
  obtain rfl := Event.handled.inj equal
  obtain ⟨verb, path, same⟩ :=
    @Setup.route_of_holds _ (.router other) _ held
  rw [at_] at same
  have onSame := congrArg SetupCall.target (Option.some.inj same)
  exact (Target.router.inj onSame).symm

/-- The server's own trie does not hold a router's handler. -/
theorem server_not_logs_handled
    {handler id : Nat} {verb : Verb} {path : StdString} {present : Bool}
    (at_ : calls[handler]? = some (.route (.router id) verb path present)) :
    ¬ (Setup.build calls).server.Logs (.handled handler) := by
  rintro ⟨label, equal, held⟩
  obtain rfl := Event.handled.inj equal
  obtain ⟨verb, path, same⟩ :=
    @Setup.route_of_holds _ .server _ held
  rw [at_] at same
  simp at same

/--
An element of a router's queue that can run the handler is the closure
of a mount of its router.
-/
theorem mount_of_element_logs
    {handler id parent label : Nat} {verb : Verb} {path : StdString}
    {present : Bool} {call : SetupCall} {mw : RouterMiddleware}
    (at_ : calls[handler]? = some (.route (.router id) verb path present))
    (element : Setup.routerElement parent (call, label) = some mw)
    (logs : mw.Logs (Setup.build calls).routers (.handled handler)) :
    ∃ mountPath, call = .mount (.router parent) mountPath id := by
  cases call with
  | use target =>
      cases target <;> simp [Setup.routerElement] at element
      rcases element with ⟨-, rfl⟩
      simp [RouterMiddleware.Logs, BaseMiddleware.Logs] at logs
  | useAt target scope =>
      cases target <;> simp [Setup.routerElement] at element
      rcases element with ⟨-, rfl⟩
      simp [RouterMiddleware.Logs, BaseMiddleware.Logs] at logs
  | route target verb path present =>
      simp [Setup.routerElement] at element
  | mount target mountPath sub =>
      cases target <;> simp [Setup.routerElement] at element
      rcases element with ⟨rfl, rfl⟩
      obtain rfl := own_of_logs_handled at_ logs
      exact ⟨mountPath, rfl⟩

/-- The router is the parent itself, or is mounted inside it. -/
def Carries (calls : List SetupCall) (parent id : Nat) : Prop :=
  parent = id ∨
    ∃ (inner : Nat) (path : StdString),
      calls[inner]? = some (.mount (.router parent) path id)

/--
An element of the server's queue that can run the handler is the mount of
a router that carries the handler's router.
-/
theorem mount_of_server_logs
    {handler id : Nat} {verb : Verb} {path : StdString} {present : Bool}
    {mw : ServerMiddleware}
    (at_ : calls[handler]? = some (.route (.router id) verb path present))
    (member : mw ∈ (Setup.build calls).server.queue)
    (logs : mw.Logs (Setup.build calls).routers (.handled handler)) :
    ∃ (mount : Nat) (mountPath : StdString) (parent : Nat),
      calls[mount]? = some (.mount .server mountPath parent) ∧
        mw =
          .mounted (normalizePath mountPath)
            (((Setup.build (calls.take mount)).routers
              parent).getMiddlewares parent) ∧
        Carries calls parent id := by
  obtain ⟨mount, call, called, element⟩ :=
    Setup.mem_server_queue_iff.mp member
  cases call with
  | use target =>
      cases target <;> simp [Setup.serverElement] at element
      subst element
      simp [ServerMiddleware.Logs, BaseMiddleware.Logs] at logs
  | useAt target scope =>
      cases target <;> simp [Setup.serverElement] at element
      subst element
      simp [ServerMiddleware.Logs, BaseMiddleware.Logs] at logs
  | route target verb path present =>
      simp [Setup.serverElement] at element
  | mount target mountPath parent =>
      cases target <;> simp [Setup.serverElement] at element
      subst element
      refine ⟨mount, mountPath, parent, called, rfl, ?_⟩
      rcases logs with ⟨inner, innerMember, innerLogs⟩
      rcases List.mem_append.mp innerMember with inQueue | last
      · obtain ⟨label, call, at', element⟩ :=
          Setup.mem_routers_queue_iff.mp inQueue
        obtain ⟨innerPath, rfl⟩ :=
          mount_of_element_logs at_ element innerLogs
        rw [List.getElem?_take] at at'
        split at at'
        · exact Or.inr ⟨label, innerPath, at'⟩
        · simp at at'
      · obtain rfl := List.mem_singleton.mp last
        exact Or.inl (own_of_logs_handled at_ innerLogs)

/-! ## Middleware in front of the routes -/

theorem not_logs_entered_of_queue
    {middleware parent label id : Nat} {call : SetupCall}
    {mw : RouterMiddleware}
    (own : calls[middleware]? = some (.use (.router id)))
    (different : parent ≠ id)
    (at_ : calls[label]? = some call)
    (element : Setup.routerElement parent (call, label) = some mw) :
    ¬ mw.Logs (Setup.build calls).routers (.entered middleware) := by
  intro logs
  cases call with
  | use target =>
      cases target <;> simp [Setup.routerElement] at element
      rcases element with ⟨rfl, rfl⟩
      obtain rfl : middleware = label := by
        simpa [RouterMiddleware.Logs, BaseMiddleware.Logs] using logs
      rw [own] at at_
      exact different (by simpa using at_.symm)
  | useAt target scope =>
      cases target <;> simp [Setup.routerElement] at element
      rcases element with ⟨rfl, rfl⟩
      obtain rfl : middleware = label := by
        simpa [RouterMiddleware.Logs, BaseMiddleware.Logs] using logs
      rw [own] at at_
      simp at at_
  | route target verb path present =>
      simp [Setup.routerElement] at element
  | mount target path sub =>
      cases target <;> simp [Setup.routerElement] at element
      rcases element with ⟨-, rfl⟩
      simp [RouterMiddleware.Logs, RouteRegistry.Logs] at logs

/--
Middleware of a router that is not mounted on the server is never
entered.
-/
theorem not_logs_entered
    {middleware id : Nat}
    (own : calls[middleware]? = some (.use (.router id)))
    (unmounted : ∀ (mount : Nat) path,
      calls[mount]? ≠ some (.mount .server path id)) :
    ¬ (Setup.build calls).Logs (.entered middleware) := by
  rintro (logs | ⟨mw, member, logs⟩)
  · simp [RouteRegistry.Logs] at logs
  · obtain ⟨label, call, at_, element⟩ :=
      Setup.mem_server_queue_iff.mp member
    cases call with
    | use target =>
        cases target <;> simp [Setup.serverElement] at element
        subst element
        obtain rfl : middleware = label := by
          simpa [ServerMiddleware.Logs, BaseMiddleware.Logs] using logs
        rw [own] at at_
        simp at at_
    | useAt target scope =>
        cases target <;> simp [Setup.serverElement] at element
        subst element
        obtain rfl : middleware = label := by
          simpa [ServerMiddleware.Logs, BaseMiddleware.Logs] using logs
        rw [own] at at_
        simp at at_
    | route target verb path present =>
        simp [Setup.serverElement] at element
    | mount target path parent =>
        cases target <;> simp [Setup.serverElement] at element
        subst element
        have different : parent ≠ id := by
          rintro rfl
          exact unmounted label path at_
        rcases logs with ⟨inner, innerMember, innerLogs⟩
        rcases List.mem_append.mp innerMember with inQueue | last
        · obtain ⟨position, call, at', innerElement⟩ :=
            Setup.mem_routers_queue_iff.mp inQueue
          rw [List.getElem?_take] at at'
          split at at'
          · exact
              not_logs_entered_of_queue own different at' innerElement
                innerLogs
          · simp at at'
        · obtain rfl := List.mem_singleton.mp last
          simp [RouterMiddleware.Logs, RouteRegistry.Logs] at innerLogs

variable [Json J]

/--
Unscoped middleware of a router mounted on the server guards a handler
that nothing registered on the router before it can run.
-/
theorem guards_of_mounted
    (tree : MountedAsTree calls)
    {callbacks : Callbacks J A} {exchange : Exchange J A}
    {handler id parent mount middleware : Nat} {verb : Verb}
    {path mountPath : StdString} {present : Bool}
    (at_ : calls[handler]? = some (.route (.router id) verb path present))
    (mounted : calls[mount]? = some (.mount .server mountPath parent))
    (carries : Carries calls parent id)
    (own : calls[middleware]? = some (.use (.router parent)))
    (behind : ∀ label : Nat, label < middleware → ∀ innerPath,
      calls[label]? ≠ some (.mount (.router parent) innerPath id)) :
    Guards middleware handler
      ((Setup.build calls).events callbacks exchange) := by
  have before : middleware < mount := tree.early mounted own rfl trivial
  have inTake :
      (calls.take mount)[middleware]? = some (.use (.router parent)) := by
    rw [List.getElem?_take_of_lt before, own]
  obtain ⟨later, cut⟩ :=
    @Setup.routers_queue_split _ parent _ _ (.base (.plain middleware))
      inTake (by simp [Setup.routerElement])
  rw [List.take_take, Nat.min_eq_left (Nat.le_of_lt before)] at cut
  have snapshot {next : Run J A} (appends : Appends next) :
      Action.Preserves (OfTrace (Guards middleware handler))
        (executeMiddlewareChain
          (RouterMiddleware.call callbacks (Setup.build calls).routers)
          (((Setup.build (calls.take mount)).routers
            parent).getMiddlewares parent) next) := by
    rw [Router.getMiddlewares, cut, List.append_assoc, List.cons_append,
      executeMiddlewareChain_append]
    refine preserves_chain ?_ ?_
    · intro mw member next keeps
      refine RouterMiddleware.preserves_call (closed_guards ?_) keeps
      intro logs
      obtain ⟨label, call, at', element⟩ :=
        Setup.mem_routers_queue_iff.mp member
      rcases mount_of_element_logs at_ element logs with ⟨innerPath, rfl⟩
      rw [List.getElem?_take] at at'
      split at at'
      case isTrue early => exact behind label early innerPath at'
      case isFalse => simp at at'
    · exact
        Callbacks.preserves_enter_guards handler
          (chain_rule (fun mw _ _ => mw.appends_call) appends)
  have whole :
      Appends ((Setup.build calls).runChain callbacks) ∧
        Action.Preserves (OfTrace (Guards middleware handler))
          ((Setup.build calls).runChain callbacks) := by
    refine
      @chain_rule _ _ _
        (fun run : Run J A =>
          Appends run ∧
            Action.Preserves (OfTrace (Guards middleware handler)) run)
        _ _ _ ?_ ⟨appends_runRoute _ _, ?_⟩
    · rintro mw member next ⟨appends, keeps⟩
      refine ⟨mw.appends_call appends, ?_⟩
      by_cases logs :
          mw.Logs (Setup.build calls).routers (.handled handler)
      · obtain ⟨mount', mountPath', parent', mounted', rfl, carries'⟩ :=
          mount_of_server_logs at_ member logs
        have same : parent' = parent := by
          rcases carries with rfl | ⟨inner, innerPath, nested⟩
          · rcases carries' with rfl | ⟨inner', innerPath', nested'⟩
            · rfl
            · obtain rfl := tree.once mounted nested'
              simp [mounted] at nested'
          · rcases carries' with rfl | ⟨inner', innerPath', nested'⟩
            · obtain rfl := tree.once mounted' nested
              simp [mounted'] at nested
            · obtain rfl := tree.once nested nested'
              rw [nested] at nested'
              have onSame :=
                congrArg SetupCall.target (Option.some.inj nested')
              exact (Target.router.inj onSame).symm
        subst same
        obtain rfl := tree.once mounted mounted'
        refine ServerMiddleware.preserves_mounted ?_ keeps
        intro originalPath
        exact snapshot fun start traced holds => appends start _ holds
      · exact ServerMiddleware.preserves_call (closed_guards logs) keeps
    · exact
        preserves_runRoute (closed_guards (server_not_logs_handled at_))
  exact whole.2 ⟨exchange, []⟩ (precedes_nil _ _)

/--
Router middleware guards the routes of a mounted router.

Whenever a handler of a router runs, all the middleware that is to guard it
has been entered and has called `next`, exactly when the router is mounted on
the server itself or has no unscoped middleware from before the route.
-/
theorem router_guards
    (tree : MountedAsTree calls)
    (callbacks : Callbacks J A) (exchange : Exchange J A)
    {handler id : Nat} {verb : Verb} {path : StdString} {present : Bool}
    (at_ : calls[handler]? = some (.route (.router id) verb path present))
    {before after : List Event}
    (ran :
      (Setup.build calls).events callbacks exchange =
        before ++ .handled handler :: after) :
    (∀ middleware, ToGuard calls middleware handler →
        .entered middleware ∈ before ∧ .nexted middleware ∈ before) ↔
      (∃ (mount : Nat) (mountPath : StdString),
        calls[mount]? = some (.mount .server mountPath id)) ∨
        ∀ middleware : Nat, middleware < handler →
          calls[middleware]? ≠ some (.use (.router id)) := by
  have carried :
      ∃ (mount : Nat) (mountPath : StdString) (parent : Nat),
        calls[mount]? = some (.mount .server mountPath parent) ∧
          Carries calls parent id := by
    have logged : (Setup.build calls).Logs (.handled handler) :=
      Setup.logs_of_mem_events callbacks exchange (by simp [ran])
    rcases logged with server | ⟨mw, member, logs⟩
    · exact absurd server (server_not_logs_handled at_)
    · obtain ⟨mount, mountPath, parent, mounted, -, carries⟩ :=
        mount_of_server_logs at_ member logs
      exact ⟨mount, mountPath, parent, mounted, carries⟩
  rcases carried with ⟨mount, mountPath, parent, mounted, carries⟩
  constructor
  · intro guarded
    by_cases direct :
        ∃ (mount : Nat) (mountPath : StdString),
          calls[mount]? = some (.mount .server mountPath id)
    · exact Or.inl direct
    · refine Or.inr fun middleware earlier own => ?_
      have entered := (guarded middleware (.own own at_ rfl earlier)).1
      have logged : (Setup.build calls).Logs (.entered middleware) :=
        Setup.logs_of_mem_events callbacks exchange
          (by simp [ran, entered])
      exact
        not_logs_entered own
          (fun mount path found => direct ⟨mount, path, found⟩) logged
  · intro condition middleware toGuard
    suffices guards :
        Guards middleware handler
          ((Setup.build calls).events callbacks exchange) from
      guards before _ after ran rfl
    cases toGuard with
    | own own same onRouter earlier =>
        rw [at_] at same
        obtain rfl := Option.some.inj same
        obtain rfl : id = _ := by simpa [SetupCall.target] using onRouter
        rcases condition with ⟨mount', mountPath', direct⟩ | none
        · refine guards_of_mounted tree at_ direct (Or.inl rfl) own ?_
          intro label _ innerPath nested
          exact
            absurd (tree.early nested nested rfl trivial)
              (Nat.lt_irrefl label)
        · exact absurd own (none middleware earlier)
    | enclosing same onRouter enclosed outer =>
        rw [at_] at same
        obtain rfl := Option.some.inj same
        obtain rfl : id = _ := by simpa [SetupCall.target] using onRouter
        rcases carries with rfl | ⟨inner, innerPath, nested⟩
        · obtain rfl := tree.once mounted enclosed
          exact absurd outer (not_toGuard_of_server mounted rfl)
        · obtain rfl := tree.once nested enclosed
          cases outer with
          | own own same onRouter earlier =>
              rw [nested] at same
              obtain rfl := Option.some.inj same
              obtain rfl : parent = _ := by
                simpa [SetupCall.target] using onRouter
              refine
                guards_of_mounted tree at_ mounted
                  (Or.inr ⟨inner, innerPath, nested⟩) own ?_
              intro label earlier' innerPath' nested'
              have again := tree.once nested nested'
              omega
          | enclosing same onRouter enclosing outermost =>
              rw [nested] at same
              obtain rfl := Option.some.inj same
              obtain rfl : parent = _ := by
                simpa [SetupCall.target] using onRouter
              obtain rfl := tree.once mounted enclosing
              exact absurd outermost (not_toGuard_of_server mounted rfl)

end Tree

/-- A router with a guard, mounted on the server. -/
def guardedSetup : List SetupCall :=
  [.use (.router 0), .route (.router 0) .GET (ascii "/secret") true,
    .mount .server (ascii "/admin") 0]

theorem router_guards_direct :
    ToGuard guardedSetup 0 1 ∧
      .entered 0 ∈ [Event.entered 0, Event.nexted 0] ∧
        .nexted 0 ∈ [Event.entered 0, Event.nexted 0] := by
  have route :
      guardedSetup[1]? =
        some (.route (.router 0) .GET (ascii "/secret") true) := rfl
  have own : ToGuard guardedSetup 0 1 := .own rfl route rfl (by decide)
  have guarded :=
    (@router_guards FlatJson Unit guardedSetup _ (by decide)
      { middleware := fun _ => Script.passThrough
        handler := fun _ => Action.skip }
      (Exchange.arriving (ascii "GET") (ascii "/admin/secret"))
      1 0 .GET (ascii "/secret") true route [.entered 0, .nexted 0] []
      (by decide +kernel)).mpr (Or.inl ⟨2, _, rfl⟩)
  exact ⟨own, guarded 0 own⟩

/--
The same router mounted inside another one, which is mounted on the
server.
-/
def nestedSetup : List SetupCall :=
  [.use (.router 1), .route (.router 1) .GET (ascii "/secret") true,
    .mount (.router 0) (ascii "/admin") 1,
    .mount .server (ascii "/") 0]

/--
The handler runs although its router's middleware, which would not call
`next`, was never entered.
-/
theorem router_guards_nested :
    MountedAsTree nestedSetup ∧ ToGuard nestedSetup 0 1 ∧
      ¬ Guards 0 1
        ((Setup.build nestedSetup).events
          { middleware := fun _ => Script.done
            handler := fun _ => Action.skip }
          (Exchange.arriving (ascii "GET") (ascii "/admin/secret"))) := by
  refine ⟨by decide, ?_, ?_⟩
  · have route :
        nestedSetup[1]? =
          some (.route (.router 1) .GET (ascii "/secret") true) := rfl
    exact .own rfl route rfl (by decide)
  · intro guards
    have logged :
        (Setup.build nestedSetup).events
            { middleware := fun _ => Script.done
              handler := fun _ => Action.skip }
            (Exchange.arriving (ascii "GET") (ascii "/admin/secret")) =
          [] ++ .handled 1 :: [] := by
      decide +kernel
    have entered := (guards _ _ _ logged rfl).1
    simp at entered

end PlusWeb
