import PlusWeb.RouteTables

/-!
# What the middleware of a server can log

Which events each element of a queue can log itself, and the rule that
follows: an invariant of the trace that is closed under these events is kept
by the element whenever the continuation keeps it.  The chain of a request is
covered by applying the rule once per element.

The second half reads the queues and the tries back to the setup calls they
come from.
-/

namespace PlusWeb

open WildcardTable

variable {J A κ β : Type}

/-- Some route of the registry has this handler. -/
def RouteRegistry.Holds (registry : RouteRegistry κ β) (handler : β) :
    Prop :=
  ∃ shape, registry.trie.root.table.value shape = some handler

theorem RouteRegistry.holds_of_getHandler
    {registry : RouteRegistry κ β} {req : HttpRequest J} {handler : β}
    (found : (registry.getHandler req).1 = some handler) :
    registry.Holds handler := by
  rw [getHandler_eq registry req rfl] at found
  split at found
  case h_1 shape held equal =>
    rcases Table.lookup_eq_some_iff.mp equal with ⟨-, value, -⟩
    exact ⟨shape, by simpa [Option.some.inj found] using value⟩
  case h_2 => simp at found

/-- Dispatch changes nothing of a request but its parameters. -/
theorem RouteRegistry.getHandler_path
    (registry : RouteRegistry κ β) (req : HttpRequest J) :
    (registry.getHandler req).2.path = req.path := by
  rw [getHandler_eq registry req rfl]
  split <;> rfl

/-! ## What a call of a router's element comes to -/

/--
A handler that `HandleRequest` calls is one the request gets to, and a
miss changes nothing.
-/
theorem RouteRegistry.handleRequest_cases
    (registry : RouteRegistry κ Nat) (callbacks : Callbacks J A)
    (traced : Traced Event (Exchange J A)) :
    (∃ label req,
      (registry.getHandler traced.state.req).1 = some label ∧
        registry.handleRequest callbacks traced =
          (true,
            callbacks.handle label
              (traced.update (Exchange.setReq req)))) ∨
      (registry.getHandler traced.state.req).1 = none ∧
        registry.handleRequest callbacks traced =
          (false, .returned, traced) := by
  cases found : registry.getHandler traced.state.req with
  | mk handler req =>
      cases handler with
      | some label =>
          refine Or.inl ⟨label, req, rfl, ?_⟩
          rw [RouteRegistry.handleRequest, found]
      | none =>
          right
          have missed := getHandler_of_miss (congrArg Prod.fst found)
          obtain rfl : traced.state.req = req :=
            (Prod.mk.inj (missed.symm.trans found)).2
          refine ⟨rfl, ?_⟩
          rw [RouteRegistry.handleRequest, found]
          rfl

/--
How the closure of a sub-router is left after a handler ran: an exception
leaves it before the path is restored.
-/
def leaveSubRouter (originalPath : StdString) :
    Outcome CxxException × Traced Event (Exchange J A) →
      Outcome CxxException × Traced Event (Exchange J A)
  | (.returned, traced) =>
      (.returned, traced.update (Exchange.setPath originalPath))
  | (.threw exception, traced) => (.threw exception, traced)

@[simp]
theorem leaveSubRouter_trace
    (originalPath : StdString)
    (left : Outcome CxxException × Traced Event (Exchange J A)) :
    (leaveSubRouter originalPath left).2.trace = left.2.trace := by
  rcases left with ⟨_ | _, traced⟩ <;> rfl

@[simp]
theorem leaveSubRouter_res
    (originalPath : StdString)
    (left : Outcome CxxException × Traced Event (Exchange J A)) :
    (leaveSubRouter originalPath left).2.state.res = left.2.state.res := by
  rcases left with ⟨_ | _, traced⟩ <;> rfl

section Cases

variable (callbacks : Callbacks J A) (routers : Routers) (id : Nat)
  (next : Run J A) (traced : Traced Event (Exchange J A))

/-- The route handler of a router calls a handler or only `next`. -/
theorem RouterMiddleware.call_routeHandler_cases :
    (∃ label req,
      ((routers id).registry.getHandler traced.state.req).1 = some label ∧
        (RouterMiddleware.routeHandler id).call callbacks routers next
            traced =
          callbacks.handle label (traced.update (Exchange.setReq req))) ∨
      ((routers id).registry.getHandler traced.state.req).1 = none ∧
        (RouterMiddleware.routeHandler id).call callbacks routers next
          traced = next traced := by
  rcases
    RouteRegistry.handleRequest_cases (routers id).registry callbacks
      traced with
    ⟨label, req, found, handled⟩ | ⟨none, missed⟩
  · left
    refine ⟨label, req, found, ?_⟩
    simp only [RouterMiddleware.call, handled]
  · right
    refine ⟨none, ?_⟩
    simp only [RouterMiddleware.call, missed]

/--
The closure of a sub-router calls a handler with the path below its mount
point, or only `next`, in the state it was called in.
-/
theorem RouterMiddleware.call_subRouter_cases (normalizedPath : StdString) :
    let below := relativePath normalizedPath traced.state.req.path
    (StdString.startsWith traced.state.req.path normalizedPath = true ∧
        ∃ label req,
          ((routers id).registry.getHandler
              { traced.state.req with path := below }).1 = some label ∧
            (RouterMiddleware.subRouter normalizedPath id).call callbacks
                routers next traced =
              leaveSubRouter traced.state.req.path
                (callbacks.handle label
                  ((traced.update (Exchange.setPath below)).update
                    (Exchange.setReq req)))) ∨
      (StdString.startsWith traced.state.req.path normalizedPath = true →
          ((routers id).registry.getHandler
            { traced.state.req with path := below }).1 = none) ∧
        (RouterMiddleware.subRouter normalizedPath id).call callbacks routers
          next traced = next traced := by
  intro below
  by_cases starts :
      StdString.startsWith traced.state.req.path normalizedPath = true
  · rcases
      RouteRegistry.handleRequest_cases (routers id).registry callbacks
        (traced.update (Exchange.setPath below)) with
      ⟨label, req, found, handled⟩ | ⟨none, missed⟩
    · left
      refine ⟨starts, label, req, found, ?_⟩
      simp only [RouterMiddleware.call, starts, if_true]
      rw [handled]
      rcases callbacks.handle label _ with ⟨_ | _, after⟩ <;> rfl
    · right
      refine ⟨fun _ => none, ?_⟩
      simp only [RouterMiddleware.call, starts, if_true]
      rw [missed]
      rfl
  · right
    refine ⟨fun inside => absurd inside starts, ?_⟩
    simp only [RouterMiddleware.call, starts, Bool.false_eq_true, if_false]

end Cases

/-! ## Events an element can log -/

def BaseMiddleware.Logs : BaseMiddleware → Event → Prop
  | .plain label, event => event = .entered label ∨ event = .nexted label
  | .pathWrapper _ label, event =>
      (∃ path, event = .tested label path) ∨
        event = .entered label ∨ event = .nexted label

/-- The handlers of a registry, as events. -/
def RouteRegistry.Logs (registry : RouteRegistry κ Nat) (event : Event) :
    Prop :=
  ∃ label, event = .handled label ∧ registry.Holds label

def RouterMiddleware.Logs (routers : Routers) :
    RouterMiddleware → Event → Prop
  | .base mw, event => mw.Logs event
  | .subRouter _ id, event => (routers id).registry.Logs event
  | .routeHandler id, event => (routers id).registry.Logs event

def ServerMiddleware.Logs (routers : Routers) :
    ServerMiddleware → Event → Prop
  | .base mw, event => mw.Logs event
  | .mounted _ routerMws, event =>
      ∃ mw ∈ routerMws, mw.Logs routers event

/-- The invariant survives every event of this kind. -/
def Closed (logs : Event → Prop) (invariant : List Event → Prop) : Prop :=
  ∀ trace event, logs event → invariant trace →
    invariant (trace ++ [event])

theorem Closed.mono
    {larger smaller : Event → Prop} {invariant : List Event → Prop}
    (closed : Closed larger invariant)
    (included : ∀ event, smaller event → larger event) :
    Closed smaller invariant :=
  fun trace event logged holds =>
    closed trace event (included event logged) holds

theorem closed_extends (allowed : Event → Prop) (start : List Event) :
    Closed allowed (Extends allowed start) :=
  fun _ _ logged holds => holds.append_singleton logged

section Rules

variable {invariant : List Event → Prop} {callbacks : Callbacks J A}
  {routers : Routers} {next : Run J A}

theorem Callbacks.preserves_enter
    {label : Nat}
    (entered : ∀ trace, invariant trace →
      invariant (trace ++ [.entered label]))
    (nexted : ∀ trace, invariant trace →
      invariant (trace ++ [.nexted label]))
    (nextKeeps : Action.Preserves (OfTrace invariant) next) :
    Action.Preserves (OfTrace invariant) (callbacks.enter label next) := by
  intro traced holds
  exact
    Script.preserves_run_ofTrace
      (fun called held => nextKeeps _ (nexted called.trace held))
      (callbacks.middleware label) _ (entered traced.trace holds)

theorem Callbacks.preserves_handle
    {label : Nat}
    (handled : ∀ trace, invariant trace →
      invariant (trace ++ [.handled label])) :
    Action.Preserves (OfTrace invariant) (callbacks.handle label) :=
  fun traced holds => handled traced.trace holds

theorem BaseMiddleware.preserves_call
    {mw : BaseMiddleware} (closed : Closed mw.Logs invariant)
    (nextKeeps : Action.Preserves (OfTrace invariant) next) :
    Action.Preserves (OfTrace invariant) (mw.call callbacks next) := by
  cases mw with
  | plain label =>
      exact
        Callbacks.preserves_enter
          (fun trace => closed trace _ (Or.inl rfl))
          (fun trace => closed trace _ (Or.inr rfl)) nextKeeps
  | pathWrapper path label =>
      intro traced holds
      have tested :
          OfTrace invariant
            (traced.log (.tested label traced.state.req.path)) :=
        closed traced.trace _ (Or.inl ⟨_, rfl⟩) holds
      simp only [BaseMiddleware.call]
      split
      · exact
          Callbacks.preserves_enter
            (fun trace => closed trace _ (Or.inr (Or.inl rfl)))
            (fun trace => closed trace _ (Or.inr (Or.inr rfl)))
            nextKeeps _ tested
      · exact nextKeeps _ tested

theorem RouterMiddleware.preserves_call
    {mw : RouterMiddleware} (closed : Closed (mw.Logs routers) invariant)
    (nextKeeps : Action.Preserves (OfTrace invariant) next) :
    Action.Preserves (OfTrace invariant)
      (mw.call callbacks routers next) := by
  cases mw with
  | base mw => exact BaseMiddleware.preserves_call closed nextKeeps
  | routeHandler id =>
      intro traced holds
      rcases
        RouterMiddleware.call_routeHandler_cases callbacks routers id next
          traced with
        ⟨label, req, found, handled⟩ | ⟨-, missed⟩
      · rw [handled]
        have held := RouteRegistry.holds_of_getHandler found
        exact
          Callbacks.preserves_handle
            (fun trace => closed trace _ ⟨label, rfl, held⟩) _ holds
      · rw [missed]
        exact nextKeeps _ holds
  | subRouter normalizedPath id =>
      intro traced holds
      rcases
        RouterMiddleware.call_subRouter_cases callbacks routers id next
          traced normalizedPath with
        ⟨-, label, req, found, handled⟩ | ⟨-, missed⟩
      · rw [handled, OfTrace, leaveSubRouter_trace]
        have held := RouteRegistry.holds_of_getHandler found
        exact
          Callbacks.preserves_handle
            (fun trace => closed trace _ ⟨label, rfl, held⟩) _ holds
      · rw [missed]
        exact nextKeeps _ holds

/-- A property of calls that every element passes on to the chain. -/
theorem chain_rule
    {good : Run J A → Prop}
    {call : κ → Run J A → Run J A} {mws : List κ} {finalHandler : Run J A}
    (each : ∀ mw ∈ mws, ∀ next, good next → good (call mw next))
    (final : good finalHandler) :
    good (executeMiddlewareChain call mws finalHandler) := by
  induction mws with
  | nil => exact final
  | cons mw mws induction =>
      exact
        each mw (List.mem_cons_self ..) _
          (induction fun later member =>
            each later (List.mem_cons_of_mem _ member))

/-- A chain keeps what each of its elements keeps. -/
theorem preserves_chain
    {kept : Traced Event (Exchange J A) → Prop}
    {call : κ → Run J A → Run J A} {mws : List κ} {finalHandler : Run J A}
    (each : ∀ mw ∈ mws, ∀ next,
      Action.Preserves kept next → Action.Preserves kept (call mw next))
    (finalKeeps : Action.Preserves kept finalHandler) :
    Action.Preserves kept
      (executeMiddlewareChain call mws finalHandler) :=
  chain_rule each finalKeeps

theorem executeMiddlewareChain_append
    (call : κ → Run J A → Run J A) (front back : List κ)
    (finalHandler : Run J A) :
    executeMiddlewareChain call (front ++ back) finalHandler =
      executeMiddlewareChain call front
        (executeMiddlewareChain call back finalHandler) := by
  induction front with
  | nil => rfl
  | cons mw front induction =>
      simp only [List.cons_append, executeMiddlewareChain, induction]

/--
A mounted router keeps what its chain keeps, ended by the continuation
with the path restored.
-/
theorem ServerMiddleware.preserves_mounted
    {normalizedPath : StdString} {routerMws : List RouterMiddleware}
    (chainKeeps : ∀ originalPath,
      Action.Preserves (OfTrace invariant)
        (executeMiddlewareChain
          (RouterMiddleware.call callbacks routers) routerMws
          fun traced =>
            next (traced.update (Exchange.setPath originalPath))))
    (nextKeeps : Action.Preserves (OfTrace invariant) next) :
    Action.Preserves (OfTrace invariant)
      ((ServerMiddleware.mounted normalizedPath routerMws).call
        callbacks routers next) := by
  intro traced holds
  simp only [ServerMiddleware.call]
  split
  case isFalse => exact nextKeeps _ holds
  case isTrue => exact chainKeeps _ _ holds

theorem ServerMiddleware.preserves_call
    {mw : ServerMiddleware} (closed : Closed (mw.Logs routers) invariant)
    (nextKeeps : Action.Preserves (OfTrace invariant) next) :
    Action.Preserves (OfTrace invariant)
      (mw.call callbacks routers next) := by
  cases mw with
  | base mw => exact BaseMiddleware.preserves_call closed nextKeeps
  | mounted normalizedPath routerMws =>
      refine ServerMiddleware.preserves_mounted ?_ nextKeeps
      intro originalPath
      refine preserves_chain ?_ fun traced holds => nextKeeps _ holds
      intro mw member next keeps
      exact
        RouterMiddleware.preserves_call
          (closed.mono fun event logged => ⟨mw, member, logged⟩) keeps

variable [Json J]

theorem preserves_runRoute
    {server : RouteRegistry ServerMiddleware Nat}
    (closed : Closed server.Logs invariant) :
    Action.Preserves (OfTrace invariant)
      (runRoute server callbacks) := by
  intro traced holds
  simp only [runRoute]
  split
  case h_1 label req found =>
    have held : server.Holds label :=
      RouteRegistry.holds_of_getHandler (congrArg Prod.fst found)
    exact
      Callbacks.preserves_handle
        (fun trace => closed trace _ ⟨label, rfl, held⟩) _ holds
  case h_2 => exact holds

/-- What a request to this server can log. -/
def Setup.Logs (setup : Setup) (event : Event) : Prop :=
  setup.server.Logs event ∨
    ∃ mw ∈ setup.server.queue, mw.Logs setup.routers event

theorem Setup.preserves_runChain
    (callbacks : Callbacks J A) {setup : Setup} (closed : Closed setup.Logs invariant) :
    Action.Preserves (OfTrace invariant)
      (setup.runChain callbacks) := by
  refine preserves_chain ?_ ?_
  · intro mw member next keeps
    exact
      ServerMiddleware.preserves_call
        (closed.mono fun event logged => Or.inr ⟨mw, member, logged⟩)
        keeps
  · exact preserves_runRoute (closed.mono fun event => Or.inl)

/-- Every event of a request is one its server can log. -/
theorem Setup.logs_of_mem_events
    {setup : Setup} (callbacks : Callbacks J A) (exchange : Exchange J A)
    {event : Event} (member : event ∈ setup.events callbacks exchange) :
    setup.Logs event := by
  have extends_ :=
    Setup.preserves_runChain callbacks
      (closed_extends setup.Logs []) ⟨exchange, []⟩ (extends_refl _ _)
  exact (extends_.mem member).resolve_left (by simp)

end Rules

/-! ## Guarding a handler -/

/--
Whenever the handler runs, the middleware was entered and has called
`next`.
-/
def Guards (middleware handler : Nat) : List Event → Prop :=
  Precedes
    (fun before =>
      Event.entered middleware ∈ before ∧ Event.nexted middleware ∈ before)
    (· = .handled handler)

/-- Events other than the handler's cannot break the guard. -/
theorem Guards.append_singleton
    {middleware handler : Nat} {trace : List Event} {event : Event}
    (guards : Guards middleware handler trace)
    (other : event ≠ .handled handler) :
    Guards middleware handler (trace ++ [event]) :=
  Precedes.append_singleton guards fun same => absurd same other

theorem closed_guards
    {logs : Event → Prop} {middleware handler : Nat}
    (quiet : ¬ logs (.handled handler)) :
    Closed logs (Guards middleware handler) := by
  intro trace event logged guards
  exact guards.append_singleton fun same => quiet (same ▸ logged)

/-- A call that only appends to the trace. -/
abbrev Appends (run : Run J A) : Prop :=
  Action.Emits (fun _ => True) run

theorem BaseMiddleware.appends_call
    {callbacks : Callbacks J A} {next : Run J A} (mw : BaseMiddleware)
    (appends : Appends next) : Appends (mw.call callbacks next) :=
  fun start =>
    BaseMiddleware.preserves_call
      ((closed_extends _ start).mono fun _ _ => trivial) (appends start)

theorem RouterMiddleware.appends_call
    {callbacks : Callbacks J A} {next : Run J A} {routers : Routers}
    (mw : RouterMiddleware) (appends : Appends next) :
    Appends (mw.call callbacks routers next) :=
  fun start =>
    RouterMiddleware.preserves_call
      ((closed_extends _ start).mono fun _ _ => trivial) (appends start)

theorem ServerMiddleware.appends_call
    {callbacks : Callbacks J A} {next : Run J A} {routers : Routers}
    (mw : ServerMiddleware) (appends : Appends next) :
    Appends (mw.call callbacks routers next) :=
  fun start =>
    ServerMiddleware.preserves_call
      ((closed_extends _ start).mono fun _ _ => trivial) (appends start)

theorem appends_runRoute [Json J]
    (server : RouteRegistry ServerMiddleware Nat)
    (callbacks : Callbacks J A) : Appends (runRoute server callbacks) :=
  fun start =>
    preserves_runRoute ((closed_extends _ start).mono fun _ _ => trivial)

theorem Extends.of_mem
    {allowed : Event → Prop} {start trace : List Event} {event : Event}
    (extends_ : Extends allowed start trace) (member : event ∈ start) :
    event ∈ trace := by
  rcases extends_ with ⟨emitted, rfl, -⟩
  exact List.mem_append_left _ member

/-- Entering the middleware establishes its guard over all that follows. -/
theorem Callbacks.preserves_enter_guards
    {callbacks : Callbacks J A} {next : Run J A}
    {middleware : Nat} (handler : Nat) (appends : Appends next) :
    Action.Preserves (OfTrace (Guards middleware handler))
      (callbacks.enter middleware next) := by
  intro traced guards
  have kept :
      Action.Preserves
        (OfTrace fun trace =>
          Guards middleware handler trace ∧
            Event.entered middleware ∈ trace)
        ((callbacks.middleware middleware).run (.nexted middleware)
          next) := by
    refine Script.preserves_run_ofTrace ?_ _
    rintro called ⟨guarded, entered⟩
    have extends_ := appends.extends (called.log (.nexted middleware))
    refine ⟨?_, extends_.of_mem (by simp [entered])⟩
    refine Precedes.extend ?_ (guarded.append_singleton (by simp))
      ⟨by simp [entered], by simp⟩ extends_
    rintro trace event ⟨first, second⟩
    exact ⟨List.mem_append_left _ first, List.mem_append_left _ second⟩
  exact
    (kept (traced.log (.entered middleware))
      ⟨Guards.append_singleton guards (by simp), by simp⟩).1

/-! ## Where the elements and the handlers come from -/

namespace Setup

theorem build_append_singleton (calls : List SetupCall) (call : SetupCall) :
    build (calls ++ [call]) = (build calls).apply calls.length call := by
  simp [build, List.zipIdx_append]

/-- What a call appends to the queue of a router. -/
def routerElement (id : Nat) :
    SetupCall × Nat → Option RouterMiddleware
  | (.use (.router target), label) =>
      if target = id then some (.base (.plain label)) else none
  | (.useAt (.router target) path, label) =>
      if target = id then some (.base (.pathWrapper path label)) else none
  | (.mount (.router target) path sub, _) =>
      if target = id then some (.subRouter (normalizePath path) sub)
      else none
  | _ => none

/-- What a call appends to the queue of the server, given the setup it finds. -/
def serverElement (setup : Setup) :
    SetupCall × Nat → Option ServerMiddleware
  | (.use .server, label) => some (.base (.plain label))
  | (.useAt .server path, label) => some (.base (.pathWrapper path label))
  | (.mount .server path id, _) =>
      some
        (.mounted (normalizePath path)
          ((setup.routers id).getMiddlewares id))
  | _ => none

theorem route_queue
    (registry : RouteRegistry κ β) (verb : Verb) (path : StdString)
    (handler : Option β) :
    (registry.route verb path handler).queue = registry.queue := by
  unfold RouteRegistry.route
  induction verb.methods generalizing registry with
  | nil => rfl
  | cons method methods induction =>
      rw [List.foldl_cons, induction]
      rfl

theorem apply_routers_queue
    (setup : Setup) (label id : Nat) (call : SetupCall) :
    ((setup.apply label call).routers id).registry.queue =
      (setup.routers id).registry.queue ++
        (routerElement id (call, label)).toList := by
  cases call with
  | use target =>
      cases target with
      | server => simp [apply, routerElement]
      | router target =>
          simp only [apply, routerElement, updateRegistry_registry]
          split <;> simp [RouteRegistry.registerMiddleWare]
  | useAt target path =>
      cases target with
      | server => simp [apply, routerElement]
      | router target =>
          simp only [apply, routerElement, updateRegistry_registry]
          split <;> simp [RouteRegistry.registerMiddleWare]
  | route target verb path present =>
      cases target with
      | server => simp [apply, routerElement]
      | router target =>
          simp only [apply, routerElement, updateRegistry_registry]
          split <;> simp [route_queue]
  | mount target path sub =>
      cases target with
      | server => simp [apply, routerElement]
      | router target =>
          simp only [apply, routerElement, updateRegistry_registry,
            setMountPath_registry]
          split <;> simp [RouteRegistry.registerMiddleWare]

/-- The queue of a router, call by call. -/
theorem build_routers_queue (calls : List SetupCall) (id : Nat) :
    ((build calls).routers id).registry.queue =
      calls.zipIdx.filterMap (routerElement id) := by
  induction calls using List.reverseRecOn with
  | nil => rfl
  | append_singleton calls call induction =>
      rw [build_append_singleton, apply_routers_queue, induction,
        List.zipIdx_append, List.filterMap_append]
      cases element : routerElement id (call, calls.length) <;>
        simp [element]

theorem mem_routers_queue_iff
    {calls : List SetupCall} {id : Nat} {mw : RouterMiddleware} :
    mw ∈ ((build calls).routers id).registry.queue ↔
      ∃ label call, calls[label]? = some call ∧
        routerElement id (call, label) = some mw := by
  rw [build_routers_queue, List.mem_filterMap]
  constructor
  · rintro ⟨⟨call, label⟩, member, element⟩
    exact ⟨label, call, List.mk_mem_zipIdx_iff_getElem?.mp member, element⟩
  · rintro ⟨label, call, at_, element⟩
    exact ⟨(call, label), List.mk_mem_zipIdx_iff_getElem?.mpr at_, element⟩

/-- A call cuts the setup into what precedes it and what follows it. -/
theorem cut_of_getElem?
    {calls : List SetupCall} {label : Nat} {call : SetupCall}
    (at_ : calls[label]? = some call) :
    ∃ after, calls = calls.take label ++ call :: after ∧
      (calls.take label).length = label := by
  rcases List.getElem?_eq_some_iff.mp at_ with ⟨inside, rfl⟩
  refine ⟨calls.drop (label + 1), ?_, ?_⟩
  · rw [List.cons_getElem_drop_succ, List.take_append_drop]
  · rw [List.length_take]
    omega

/-- An element of a queue stands after those of the earlier calls. -/
theorem routers_queue_split
    {calls : List SetupCall} {id label : Nat} {call : SetupCall}
    {mw : RouterMiddleware}
    (at_ : calls[label]? = some call)
    (element : routerElement id (call, label) = some mw) :
    ∃ later,
      ((build calls).routers id).registry.queue =
        ((build (calls.take label)).routers id).registry.queue ++
          mw :: later := by
  rcases cut_of_getElem? at_ with ⟨after, cut, length⟩
  generalize calls.take label = before at cut length ⊢
  subst cut length
  refine
    ⟨(after.zipIdx (before.length + 1)).filterMap (routerElement id), ?_⟩
  rw [build_routers_queue, build_routers_queue]
  simp [List.zipIdx_append, List.filterMap_append, List.zipIdx_cons, element]

theorem apply_server_queue
    (setup : Setup) (label : Nat) (call : SetupCall) :
    (setup.apply label call).server.queue =
      setup.server.queue ++ (setup.serverElement (call, label)).toList := by
  cases call with
  | use target =>
      cases target <;>
        simp [apply, serverElement, RouteRegistry.registerMiddleWare]
  | useAt target path =>
      cases target <;>
        simp [apply, serverElement, RouteRegistry.registerMiddleWare]
  | route target verb path present =>
      cases target <;> simp [apply, serverElement, route_queue]
  | mount target path id =>
      cases target <;>
        simp [apply, serverElement, RouteRegistry.registerMiddleWare]

theorem mem_server_queue_iff
    {calls : List SetupCall} {mw : ServerMiddleware} :
    mw ∈ (build calls).server.queue ↔
      ∃ label call, calls[label]? = some call ∧
        (build (calls.take label)).serverElement (call, label) =
          some mw := by
  induction calls using List.reverseRecOn with
  | nil => simp [build, new, RouteRegistry.new]
  | append_singleton calls call induction =>
      rw [build_append_singleton, apply_server_queue, List.mem_append,
        induction, Option.mem_toList]
      constructor
      · rintro (⟨label, old, at_, element⟩ | element)
        · rcases List.getElem?_eq_some_iff.mp at_ with ⟨inside, -⟩
          refine ⟨label, old, ?_, ?_⟩
          · rw [List.getElem?_append_left inside, at_]
          · rwa [List.take_append_of_le_length (Nat.le_of_lt inside)]
        · exact ⟨calls.length, call, by simp, by simpa using element⟩
      · rintro ⟨label, found, at_, element⟩
        rcases Nat.lt_or_ge label calls.length with inside | beyond
        · rw [List.getElem?_append_left inside] at at_
          rw [List.take_append_of_le_length (Nat.le_of_lt inside)] at element
          exact Or.inl ⟨label, found, at_, element⟩
        · rcases List.getElem?_eq_some_iff.mp at_ with ⟨bound, -⟩
          obtain rfl : label = calls.length := by
            simp at bound
            omega
          obtain rfl : call = found := by simpa using at_
          exact Or.inr (by simpa using element)

/-- Some route of the target has this handler. -/
def Holds (setup : Setup) (target : Target) (handler : Nat) : Prop :=
  ∃ shape, (setup.trie target).root.table.value shape = some handler

/--
Every handler comes from a route call on its target, whose position is
its number.
-/
theorem route_of_holds
    {calls : List SetupCall} {target : Target} {handler : Nat}
    (holds : (build calls).Holds target handler) :
    ∃ verb path, calls[handler]? = some (.route target verb path true) := by
  rcases holds with ⟨shape, value⟩
  rw [build_table] at value
  rcases Table.value_insertLog value with ⟨pattern, member, -⟩ | nothing
  · rcases List.mem_map.mp member with ⟨registration, own, entry⟩
    obtain ⟨verb, placed, -⟩ :=
      mem_registrationsOn own (Prod.mk.inj entry).2
    exact ⟨verb, registration.path, placed⟩
  · cases nothing

end Setup

end PlusWeb
