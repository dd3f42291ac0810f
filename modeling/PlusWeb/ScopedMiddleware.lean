import PlusWeb.RoutingTrace

/-!
# Path-scoped middleware and the routes it covers

A scope covers a route when the segments of the scope begin the segments of
the route's pattern.  The wrapper of a scoped middleware compares bytes of
the request path, the trie compares segments, so the two can disagree.

On a server with middleware and routes of its own, a scoped middleware guards
every handler in every run in which its wrapper never rejected the path, and
for callbacks that leave the request path alone it guards the handlers of
the routes it covers exactly when its scope is a byte prefix of the path.
-/

namespace PlusWeb

variable {J A : Type} [Json J]

/-- A setup call of a server without routers. -/
def SetupCall.Standalone : SetupCall → Prop
  | .use .server => True
  | .useAt .server _ => True
  | .route .server _ _ _ => True
  | _ => False

/-- The segments of the scope begin the segments of the pattern. -/
def Covers (scope pattern : StdString) : Prop :=
  Utils.split scope (ascii "/") <+: Utils.split pattern (ascii "/")

/-- Callbacks that leave the request path alone. -/
structure Callbacks.KeepPath (callbacks : Callbacks J A) : Prop where
  middleware : ∀ label, (callbacks.middleware label).Respects
    fun before after => after.req.path = before.req.path
  handler : ∀ label exchange,
    ((callbacks.handler label) exchange).2.req.path = exchange.req.path

/-! ## Runs in which the wrapper accepts -/

/-- What a run establishes that may still have the wrapper reject. -/
def GuardsIfAccepted
    (scope : StdString) (middleware handler : Nat)
    (trace : List Event) : Prop :=
  (∀ path, Event.tested middleware path ∈ trace → scope <+: path) →
    Guards middleware handler trace

theorem closed_guardsIfAccepted
    {scope : StdString} {logs : Event → Prop} {middleware handler : Nat}
    (quiet : ¬ logs (.handled handler)) :
    Closed logs (GuardsIfAccepted scope middleware handler) := by
  intro trace event logged guards accepted
  refine
    (guards fun path member => accepted path ?_).append_singleton
      fun same => quiet (same ▸ logged)
  exact List.mem_append_left _ member

omit [Json J] in
theorem preserves_pathWrapper
    {callbacks : Callbacks J A} {next : Run J A} {scope : StdString}
    {middleware handler : Nat} (appends : Appends next) :
    Action.Preserves
      (OfTrace (GuardsIfAccepted scope middleware handler))
      ((BaseMiddleware.pathWrapper scope middleware).call
        callbacks next) := by
  intro traced guards accepted
  have extends_ :=
    (@BaseMiddleware.appends_call J A callbacks next
      (.pathWrapper scope middleware) appends).extends traced
  have guarded :=
    guards fun path member => accepted path (extends_.of_mem member)
  have tested :
      Guards middleware handler
        (traced.log
          (.tested middleware traced.state.req.path)).trace :=
    Guards.append_singleton guarded (by simp)
  simp only [BaseMiddleware.call] at accepted ⊢
  split
  case isTrue =>
    exact Callbacks.preserves_enter_guards handler appends _ tested
  case isFalse rejected =>
    simp only [rejected, Bool.false_eq_true, ↓reduceIte] at accepted
    have later :=
      appends.extends
        (traced.log (.tested middleware traced.state.req.path))
    have accepts :=
      accepted traced.state.req.path (later.of_mem (by simp))
    exact
      absurd ((StdString.startsWith_iff _ _).mpr accepts) rejected

theorem pathWrapper_mem_server_queue
    {calls : List SetupCall} {label : Nat} {path : StdString}
    (at_ : calls[label]? = some (.useAt .server path)) :
    ServerMiddleware.base (.pathWrapper path label) ∈
      (Setup.build calls).server.queue :=
  Setup.mem_server_queue_iff.mpr ⟨label, _, at_, rfl⟩

section Standalone

variable {calls : List SetupCall}
  (standalone : ∀ call ∈ calls, call.Standalone)

include standalone

/--
The queue of such a server holds its own middleware, each under the
number of its call.
-/
theorem base_of_mem_server_queue
    {mw : ServerMiddleware} (member : mw ∈ (Setup.build calls).server.queue) :
    (∃ label, mw = .base (.plain label) ∧
        calls[label]? = some (.use .server)) ∨
      ∃ path label, mw = .base (.pathWrapper path label) ∧
        calls[label]? = some (.useAt .server path) := by
  obtain ⟨label, call, at_, element⟩ :=
    Setup.mem_server_queue_iff.mp member
  have alone := standalone call (List.mem_of_getElem? at_)
  cases call with
  | use target =>
      cases target with
      | server =>
          exact
            Or.inl ⟨label, by simpa [Setup.serverElement] using element.symm,
              at_⟩
      | router id => exact alone.elim
  | useAt target path =>
      cases target with
      | server =>
          exact
            Or.inr
              ⟨path, label,
                by simpa [Setup.serverElement] using element.symm, at_⟩
      | router id => exact alone.elim
  | route target verb path present =>
      cases target with
      | server => simp [Setup.serverElement] at element
      | router id => exact alone.elim
  | mount target path id => cases target <;> exact alone.elim

/-- A scoped middleware whose wrapper never rejected guards every handler. -/
theorem guards_of_accepted
    {callbacks : Callbacks J A} {exchange : Exchange J A}
    {middleware : Nat} {scope : StdString}
    (at_ : calls[middleware]? = some (.useAt .server scope))
    (accepted : ∀ path,
      Event.tested middleware path ∈
        (Setup.build calls).events callbacks exchange →
      scope <+: path)
    (handler : Nat) :
    Guards middleware handler
      ((Setup.build calls).events callbacks exchange) := by
  obtain ⟨front, back, cut⟩ :=
    List.append_of_mem (pathWrapper_mem_server_queue at_)
  have quiet {mw : ServerMiddleware}
      (member : mw ∈ (Setup.build calls).server.queue) :
      ¬ mw.Logs (Setup.build calls).routers (.handled handler) := by
    rcases base_of_mem_server_queue standalone member with
      ⟨label, rfl, -⟩ | ⟨path, label, rfl, -⟩ <;>
      simp [ServerMiddleware.Logs, BaseMiddleware.Logs]
  have rest :
      Appends
        (executeMiddlewareChain
          (ServerMiddleware.call callbacks (Setup.build calls).routers) back
          (runRoute (Setup.build calls).server callbacks)) :=
    chain_rule (fun mw _ _ => mw.appends_call) (appends_runRoute _ _)
  have whole :
      Action.Preserves
        (OfTrace (GuardsIfAccepted scope middleware handler))
        ((Setup.build calls).runChain callbacks) := by
    rw [Setup.runChain, cut, executeMiddlewareChain_append]
    refine preserves_chain ?_ (preserves_pathWrapper rest)
    intro mw member next keeps
    refine
      ServerMiddleware.preserves_call (closed_guardsIfAccepted ?_) keeps
    exact quiet (by rw [cut]; exact List.mem_append_left _ member)
  exact whole ⟨exchange, []⟩ (fun _ => precedes_nil _ _) accepted

/-! ## Callbacks that leave the path alone -/

omit standalone in
/--
The request path is the original one, and so is every path a wrapper
compared.
-/
structure PathFixed
    (path : StdString) (traced : Traced Event (Exchange J A)) : Prop where
  current : traced.state.req.path = path
  tested : ∀ label other, Event.tested label other ∈ traced.trace →
    other = path

end Standalone

section FixedPath

variable {callbacks : Callbacks J A} {next : Run J A} {path : StdString}

omit [Json J] in
theorem PathFixed.log
    {traced : Traced Event (Exchange J A)} {event : Event}
    (fixed : PathFixed path traced)
    (same : ∀ label other, event = .tested label other → other = path) :
    PathFixed path (traced.log event) := by
  refine ⟨fixed.current, ?_⟩
  intro label other member
  rcases List.mem_append.mp member with old | new
  · exact fixed.tested label other old
  · exact same label other (List.mem_singleton.mp new).symm

omit [Json J] in
theorem preserves_enter_pathFixed
    (keepPath : callbacks.KeepPath) (label : Nat)
    (nextKeeps : Action.Preserves (PathFixed path) next) :
    Action.Preserves (PathFixed path) (callbacks.enter label next) := by
  intro traced fixed
  refine
    Script.preserves_run ?_ ?_ (callbacks.middleware label)
      (keepPath.middleware label) _ (fixed.log (by simp))
  · intro called update held same
    exact ⟨same.trans held.current, held.tested⟩
  · intro called held
    exact nextKeeps _ (held.log (by simp))

omit [Json J] in
theorem preserves_base_pathFixed
    (keepPath : callbacks.KeepPath) (mw : BaseMiddleware)
    (nextKeeps : Action.Preserves (PathFixed path) next) :
    Action.Preserves (PathFixed path) (mw.call callbacks next) := by
  cases mw with
  | plain label => exact preserves_enter_pathFixed keepPath label nextKeeps
  | pathWrapper scope label =>
      intro traced fixed
      have tested :
          PathFixed path
            (traced.log (.tested label traced.state.req.path)) := by
        refine fixed.log ?_
        rintro label other equal
        rcases Event.tested.inj equal with ⟨-, rfl⟩
        exact fixed.current
      simp only [BaseMiddleware.call]
      split
      · exact preserves_enter_pathFixed keepPath label nextKeeps _ tested
      · exact nextKeeps _ tested

theorem preserves_runRoute_pathFixed
    (keepPath : callbacks.KeepPath)
    (server : RouteRegistry ServerMiddleware Nat) :
    Action.Preserves (PathFixed path)
      (runRoute server callbacks : Run J A) := by
  intro traced fixed
  have dispatched : PathFixed path
      (traced.update
        (Exchange.setReq (server.getHandler traced.state.req).2)) :=
    ⟨(RouteRegistry.getHandler_path server _).trans fixed.current,
      fixed.tested⟩
  simp only [runRoute]
  split
  case h_1 label req found =>
    rw [found] at dispatched
    have logged := @PathFixed.log _ _ _ _ (.handled label) dispatched
      (by simp)
    exact
      ⟨(keepPath.handler label _).trans logged.current, logged.tested⟩
  case h_2 req found =>
    rw [found] at dispatched
    exact ⟨dispatched.current, dispatched.tested⟩

/-- Without routers, every wrapper compares the original path. -/
theorem tested_path
    {calls : List SetupCall}
    (standalone : ∀ call ∈ calls, call.Standalone)
    (keepPath : callbacks.KeepPath) {exchange : Exchange J A}
    {label : Nat} {other : StdString}
    (member : Event.tested label other ∈
      (Setup.build calls).events callbacks exchange) :
    other = exchange.req.path := by
  have kept :
      Action.Preserves (PathFixed exchange.req.path)
        ((Setup.build calls).runChain callbacks) := by
    refine preserves_chain ?_ (preserves_runRoute_pathFixed keepPath _)
    intro mw inQueue next keeps
    rcases base_of_mem_server_queue standalone inQueue with
      ⟨label, rfl, -⟩ | ⟨scope, label, rfl, -⟩
    · exact preserves_base_pathFixed keepPath _ keeps
    · exact preserves_base_pathFixed keepPath _ keeps
  exact (kept ⟨exchange, []⟩ ⟨rfl, by simp⟩).tested label other member

end FixedPath

/-! ## Callbacks that only pass on -/

/-- Every middleware calls `next` and every handler does nothing. -/
def Callbacks.passing : Callbacks J A where
  middleware _ := Script.passThrough
  handler _ := Action.skip

omit [Json J] in
theorem Callbacks.keepPath_passing :
    (Callbacks.passing : Callbacks J A).KeepPath where
  middleware _ := Script.respects_passThrough _
  handler _ _ := rfl

/-- What an element logs on its way to the continuation. -/
def BaseMiddleware.passed (path : StdString) :
    BaseMiddleware → List Event
  | .plain label => [.entered label, .nexted label]
  | .pathWrapper scope label =>
      if StdString.startsWith path scope then
        [.tested label path, .entered label, .nexted label]
      else [.tested label path]

def ServerMiddleware.passed (path : StdString) :
    ServerMiddleware → List Event
  | .base mw => mw.passed path
  | .mounted _ _ => []

omit [Json J] in
theorem BaseMiddleware.call_passing
    (mw : BaseMiddleware) (next : Run J A)
    (exchange : Exchange J A) (trace : List Event) :
    mw.call Callbacks.passing next ⟨exchange, trace⟩ =
      next ⟨exchange, trace ++ mw.passed exchange.req.path⟩ := by
  cases mw with
  | plain label =>
      simp [BaseMiddleware.call, Callbacks.enter, Callbacks.passing,
        BaseMiddleware.passed, Traced.log]
  | pathWrapper scope label =>
      simp only [BaseMiddleware.call, BaseMiddleware.passed]
      split <;>
        simp [Callbacks.enter, Callbacks.passing, Traced.log]

omit [Json J] in
theorem chain_passing
    {mws : List ServerMiddleware} (routers : Routers)
    (own : ∀ mw ∈ mws, ∃ base, mw = .base base)
    (finalHandler : Run J A) (exchange : Exchange J A)
    (trace : List Event) :
    executeMiddlewareChain
        (ServerMiddleware.call Callbacks.passing routers) mws
        finalHandler ⟨exchange, trace⟩ =
      finalHandler
        ⟨exchange,
          trace ++ mws.flatMap (ServerMiddleware.passed exchange.req.path)⟩ := by
  induction mws generalizing trace with
  | nil => simp [executeMiddlewareChain]
  | cons mw mws induction =>
      rcases own mw (List.mem_cons_self ..) with ⟨base, rfl⟩
      simp only [executeMiddlewareChain, ServerMiddleware.call]
      rw [BaseMiddleware.call_passing,
        induction fun later member =>
          own later (List.mem_cons_of_mem _ member)]
      simp [ServerMiddleware.passed]

/--
With these callbacks the dispatched handler runs, after what the queue
logs for the request path.
-/
theorem events_passing
    {calls : List SetupCall}
    (standalone : ∀ call ∈ calls, call.Standalone)
    {exchange : Exchange J A} {handler : Nat}
    (dispatched :
      ((Setup.build calls).server.getHandler exchange.req).1 =
        some handler) :
    (Setup.build calls).events Callbacks.passing exchange =
      (Setup.build calls).server.queue.flatMap
          (ServerMiddleware.passed exchange.req.path) ++
        [.handled handler] := by
  have own :
      ∀ mw ∈ (Setup.build calls).server.queue, ∃ base, mw = .base base := by
    intro mw member
    rcases base_of_mem_server_queue standalone member with
      ⟨label, rfl, -⟩ | ⟨scope, label, rfl, -⟩
    · exact ⟨_, rfl⟩
    · exact ⟨_, rfl⟩
  rw [Setup.events, Setup.runChain, chain_passing _ own, runRoute]
  cases found : (Setup.build calls).server.getHandler exchange.req with
  | mk result req =>
      rw [found] at dispatched
      subst dispatched
      simp [Callbacks.handle, Action.onState]

/-- A wrapper that rejects the path is passed without entering. -/
theorem prefix_of_entered
    {calls : List SetupCall}
    (standalone : ∀ call ∈ calls, call.Standalone)
    {middleware : Nat} {scope path : StdString}
    (at_ : calls[middleware]? = some (.useAt .server scope))
    (entered : Event.entered middleware ∈
      (Setup.build calls).server.queue.flatMap
        (ServerMiddleware.passed path)) :
    scope <+: path := by
  rcases List.mem_flatMap.mp entered with ⟨mw, member, logged⟩
  rcases base_of_mem_server_queue standalone member with
    ⟨label, rfl, own⟩ | ⟨other, label, rfl, own⟩
  · obtain rfl : middleware = label := by
      simpa [ServerMiddleware.passed, BaseMiddleware.passed] using logged
    rw [at_] at own
    simp at own
  · simp only [ServerMiddleware.passed, BaseMiddleware.passed] at logged
    split at logged
    case isTrue accepts =>
      obtain rfl : middleware = label := by simpa using logged
      rw [at_] at own
      obtain rfl : scope = other := by simpa using own
      exact (StdString.startsWith_iff _ _).mp accepts
    case isFalse => simp at logged

/--
Complete mediation of scoped middleware.

Whatever the callbacks do, a scoped middleware guards the handlers of the
routes it covers in every run in which its wrapper rejected no path.  For
callbacks that leave the request path alone, all scoped middleware guards the
dispatched handler exactly when each covering scope is a byte prefix of the
path.
-/
theorem scoped_mediation
    {calls : List SetupCall}
    (standalone : ∀ call ∈ calls, call.Standalone) :
    (∀ (callbacks : Callbacks J A) (exchange : Exchange J A)
        (handler : Nat) verb pattern present,
        calls[handler]? = some (.route .server verb pattern present) →
        ∀ (middleware : Nat) scope,
          calls[middleware]? = some (.useAt .server scope) →
          Covers scope pattern →
          (∀ path,
            Event.tested middleware path ∈
              (Setup.build calls).events callbacks exchange →
            scope <+: path) →
          Guards middleware handler
            ((Setup.build calls).events callbacks exchange)) ∧
      ∀ (exchange : Exchange J A) (handler : Nat) verb pattern present,
        calls[handler]? = some (.route .server verb pattern present) →
        ((Setup.build calls).server.getHandler exchange.req).1 =
          some handler →
        ((∀ callbacks : Callbacks J A, callbacks.KeepPath →
            ∀ (middleware : Nat) scope,
              calls[middleware]? = some (.useAt .server scope) →
              Covers scope pattern →
              Guards middleware handler
                ((Setup.build calls).events callbacks exchange)) ↔
          ∀ (middleware : Nat) scope,
            calls[middleware]? = some (.useAt .server scope) →
            Covers scope pattern →
            scope <+: exchange.req.path) := by
  constructor
  · intro callbacks exchange handler _ _ _ _ middleware scope at_ _ accepted
    exact guards_of_accepted standalone at_ accepted handler
  · intro exchange handler _ pattern _ _ dispatched
    constructor
    · intro guards middleware scope at_ covers
      have guarded :=
        guards Callbacks.passing Callbacks.keepPath_passing middleware scope
          at_ covers
      rw [events_passing standalone dispatched] at guarded
      have entered := (guarded _ _ [] rfl rfl).1
      exact prefix_of_entered standalone at_ entered
    · intro covered callbacks keepPath middleware scope at_ covers
      refine guards_of_accepted standalone at_ ?_ handler
      intro path tested
      rw [tested_path standalone keepPath tested]
      exact covered middleware scope at_ covers

/-- A scope and a route below it. -/
def adminSetup : List SetupCall :=
  [.useAt .server (ascii "/admin"),
    .route .server .GET (ascii "/admin/:page") true]

theorem scoped_mediation_admin :
    Guards 0 1
      ((Setup.build adminSetup).events Callbacks.passing
        (Exchange.arriving (ascii "GET") (ascii "/admin/users"))) := by
  refine
    ((@scoped_mediation _ _ _ adminSetup ?_).2
      (Exchange.arriving (ascii "GET") (ascii "/admin/users")) 1 .GET
      (ascii "/admin/:page") true rfl (by decide +kernel)).mpr ?_
      Callbacks.passing Callbacks.keepPath_passing 0 (ascii "/admin") rfl
      (by unfold Covers; decide +kernel)
  · intro call member
    fin_cases member <;> trivial
  · intro middleware scope at_ _
    match middleware with
    | 0 =>
        obtain rfl : ascii "/admin" = scope := by simpa [adminSetup] using at_
        decide
    | 1 => simp [adminSetup] at at_
    | middleware + 2 => simp [adminSetup] at at_

/--
The trie drops the empty segment of `//admin/users`, the wrapper does
not.
-/
theorem scoped_mediation_doubleSlash :
    Covers (ascii "/admin") (ascii "/admin/:page") ∧
      ((Setup.build adminSetup).server.getHandler
        (Exchange.arriving (ascii "GET")
          (ascii "//admin/users")).req).1 = some 1 ∧
      ¬ Guards 0 1
        ((Setup.build adminSetup).events Callbacks.passing
          (Exchange.arriving (ascii "GET") (ascii "//admin/users"))) := by
  refine ⟨by unfold Covers; decide +kernel, by decide +kernel, ?_⟩
  intro guards
  have logged :
      (Setup.build adminSetup).events Callbacks.passing
          (Exchange.arriving (ascii "GET") (ascii "//admin/users")) =
        [.tested 0 (ascii "//admin/users")] ++ .handled 1 :: [] := by
    decide +kernel
  have entered := (guards _ _ _ logged rfl).1
  simp at entered

end PlusWeb
