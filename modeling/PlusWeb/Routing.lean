import PlusWeb.RouteRegistry

/-!
# Middleware, routers and the chain of a request

The registration calls of `RoutingBase`, `Router` and `HttpServer`, and what
a request runs through once they are all made.

The callbacks of the program are numbered: the number of a middleware or of a
handler is the position of the call that registered it.  A `std::function`
that the program itself builds around a callback or a router is a value of
one of the inductive types below, so a queue is plain data; calling it is a
function of its own.  Routers live in a heap, because a mount captures a
reference: the routes of a router are looked up when a request arrives, the
middleware of a router mounted on the server was copied at the mount.

A run logs which middleware was entered, which called `next`, which handler
ran, and what path each path-scoped wrapper compared.
-/

namespace PlusWeb

variable {J A κ β : Type}

/--
What callbacks work on: the request, the response, and the data the
callbacks of the program share.
-/
structure Exchange (J A : Type) where
  req : HttpRequest J
  res : HttpResponse J
  app : A

namespace Exchange

def setReq (req : HttpRequest J) (exchange : Exchange J A) :
    Exchange J A :=
  { exchange with req := req }

def setPath (path : StdString) (exchange : Exchange J A) :
    Exchange J A :=
  { exchange with req := { exchange.req with path := path } }

def setRes (res : HttpResponse J) (exchange : Exchange J A) :
    Exchange J A :=
  { exchange with res := res }

end Exchange

/-- The steps of a run that are logged. -/
inductive Event where
  | tested (label : Nat) (path : StdString)
  | entered (label : Nat)
  | nexted (label : Nat)
  | handled (label : Nat)
deriving DecidableEq, Repr

/-- A call that works on a logged exchange. -/
abbrev Run (J A : Type) := Action CxxException (Traced Event (Exchange J A))

/-- The callbacks of the program, by their numbers. -/
structure Callbacks (J A : Type) where
  middleware : Nat → Script CxxException (Exchange J A)
  handler : Nat → Action CxxException (Exchange J A)

namespace Callbacks

/-- Enter a middleware. -/
def enter
    (callbacks : Callbacks J A) (label : Nat) (next : Run J A) :
    Run J A :=
  fun traced =>
    (callbacks.middleware label).run (.nexted label) next
      (traced.log (.entered label))

/-- Call a handler. -/
def handle (callbacks : Callbacks J A) (label : Nat) : Run J A :=
  fun traced =>
    Action.onState (callbacks.handler label) (traced.log (.handled label))

end Callbacks

/-! ## The callable values in the queues -/

/--
What the `use` overloads of `RoutingBase` append to a queue: the callback
itself, or the callback in a path wrapper.
-/
inductive BaseMiddleware where
  | plain (label : Nat)
  | pathWrapper (path : StdString) (label : Nat)
deriving DecidableEq, Repr

/--
What a router holds: its own middleware, the closure of
`Router::use(path, subRouter)`, and the route handler that
`Router::getMiddlewares` appends.
-/
inductive RouterMiddleware where
  | base (mw : BaseMiddleware)
  | subRouter (normalizedPath : StdString) (id : Nat)
  | routeHandler (id : Nat)
deriving DecidableEq, Repr

/--
What the server holds: its own middleware, and the closure of
`HttpServer::use(path, router)` with the copy made at the mount.
-/
inductive ServerMiddleware where
  | base (mw : BaseMiddleware)
  | mounted
      (normalizedPath : StdString) (routerMws : List RouterMiddleware)
deriving DecidableEq, Repr

/--
`RoutingBase::executeMiddlewareChain` from the index where `mws`
begins.
-/
def executeMiddlewareChain
    (call : κ → Run J A → Run J A) : List κ → Run J A → Run J A
  | [], finalHandler => finalHandler
  | mw :: mws, finalHandler =>
      call mw (executeMiddlewareChain call mws finalHandler)

/-! ## Paths -/

/-- `Router::normalizePath`.  `HttpServer::use` computes the same inline. -/
def normalizePath (path : StdString) : StdString :=
  if path = [] ∨ path = ascii "/" then ascii "/"
  else
    let normalized :=
      if path.head? ≠ some slash then ascii "/" ++ path else path
    if normalized.length > 1 ∧ normalized.getLast? = some slash then
      normalized.dropLast
    else normalized

/-- The path below a mount point, as both mounting closures compute it. -/
def relativePath (normalizedPath path : StdString) : StdString :=
  let relative := StdString.substr path normalizedPath.length
  if relative = [] ∨ relative.head? ≠ some slash then
    ascii "/" ++ relative
  else relative

/-- The mount test of `HttpServer::use(path, router)`. -/
def underMount (normalizedPath path : StdString) : Bool :=
  normalizedPath = ascii "/" ∨
    StdString.startsWith path normalizedPath ∧
      (path.length = normalizedPath.length ∨
        path[normalizedPath.length]? = some slash)

/-! ## Routers -/

/-- `class Router`. -/
structure Router where
  registry : RouteRegistry RouterMiddleware Nat
  mountPath : StdString

namespace Router

/-- `Router()`. -/
def new : Router where
  registry := RouteRegistry.new
  mountPath := []

/--
`Router::getMiddlewares`; the appended route handler refers to the router
by its number.
-/
def getMiddlewares (router : Router) (id : Nat) : List RouterMiddleware :=
  router.registry.queue ++ [.routeHandler id]

end Router

/-- The routers, by their numbers. -/
abbrev Routers := Nat → Router

/--
`RouteRegistry::HandleRequest`: whether a handler was found, and how its
call went.
-/
def RouteRegistry.handleRequest
    (registry : RouteRegistry κ Nat) (callbacks : Callbacks J A)
    (traced : Traced Event (Exchange J A)) :
    Bool × Outcome CxxException × Traced Event (Exchange J A) :=
  match registry.getHandler traced.state.req with
  | (some label, req) =>
      (true, callbacks.handle label (traced.update (Exchange.setReq req)))
  | (none, req) =>
      (false, .returned, traced.update (Exchange.setReq req))

/-! ## Calling what a queue holds -/

section Calls

variable (callbacks : Callbacks J A) (routers : Routers)

/-- Call a middleware registered with `RoutingBase::use`. -/
def BaseMiddleware.call : BaseMiddleware → Run J A → Run J A
  | .plain label, next => callbacks.enter label next
  | .pathWrapper path label, next => fun traced =>
      let requestPath := traced.state.req.path
      let traced := traced.log (.tested label requestPath)
      if StdString.startsWith requestPath path then
        callbacks.enter label next traced
      else next traced

/-- Call an element of `Router::getMiddlewares`. -/
def RouterMiddleware.call : RouterMiddleware → Run J A → Run J A
  | .base mw, next => mw.call callbacks next
  | .routeHandler id, next => fun traced =>
      match (routers id).registry.handleRequest callbacks traced with
      | (true, outcome, traced) => (outcome, traced)
      | (false, _, traced) => next traced
  | .subRouter normalizedPath id, next => fun traced =>
      let originalPath := traced.state.req.path
      if StdString.startsWith originalPath normalizedPath then
        let inside :=
          traced.update
            (Exchange.setPath (relativePath normalizedPath originalPath))
        match (routers id).registry.handleRequest callbacks inside with
        | (true, .returned, traced) =>
            (.returned, traced.update (Exchange.setPath originalPath))
        -- an exception leaves the closure before the path is restored
        | (true, .threw exception, traced) => (.threw exception, traced)
        | (false, _, traced) =>
            next (traced.update (Exchange.setPath originalPath))
      else next traced

/-- Call an element of the server's queue. -/
def ServerMiddleware.call : ServerMiddleware → Run J A → Run J A
  | .base mw, next => mw.call callbacks next
  | .mounted normalizedPath routerMws, next => fun traced =>
      let originalPath := traced.state.req.path
      if underMount normalizedPath originalPath then
        let relative :=
          if normalizedPath = ascii "/" then originalPath
          else relativePath normalizedPath originalPath
        executeMiddlewareChain (RouterMiddleware.call callbacks routers)
          routerMws
          (fun traced =>
            next (traced.update (Exchange.setPath originalPath)))
          (traced.update (Exchange.setPath relative))
      else next traced

end Calls

/-! ## Setting up a server -/

/-- The functions of `RoutingBase` that register a route. -/
inductive Verb where
  | GET
  | POST
  | PUT
  | DELETE
  | PATCH
  | OPTIONS
  | HEAD
  | ALL
deriving DecidableEq, Repr

/-- The methods each of them registers, in order. -/
def Verb.methods : Verb → List StdString
  | .GET => [ascii "GET", ascii "HEAD"]
  | .POST => [ascii "POST"]
  | .PUT => [ascii "PUT"]
  | .DELETE => [ascii "DELETE"]
  | .PATCH => [ascii "PATCH"]
  | .OPTIONS => [ascii "OPTIONS"]
  | .HEAD => [ascii "HEAD"]
  | .ALL =>
      [ascii "GET", ascii "POST", ascii "PUT", ascii "DELETE",
        ascii "PATCH", ascii "OPTIONS", ascii "HEAD"]

/-- A call of one of these functions. -/
def RouteRegistry.route
    (registry : RouteRegistry κ β)
    (verb : Verb) (path : StdString) (handler : Option β) :
    RouteRegistry κ β :=
  verb.methods.foldl
    (fun registry method => registry.register method path handler)
    registry

/-- The object a setup call is made on. -/
inductive Target where
  | server
  | router (id : Nat)
deriving DecidableEq, Repr

/--
A call that sets the server or a router up.  A variadic `use` registers
its arguments one by one and counts as that many calls.  `present` is whether
the `std::function` of a route is not empty.
-/
inductive SetupCall where
  | use (target : Target)
  | useAt (target : Target) (path : StdString)
  | route (target : Target) (verb : Verb) (path : StdString)
      (present : Bool)
  | mount (target : Target) (path : StdString) (id : Nat)
deriving DecidableEq, Repr

/-- The object the call is made on. -/
def SetupCall.target : SetupCall → Target
  | .use target => target
  | .useAt target _ => target
  | .route target _ _ _ => target
  | .mount target _ _ => target

/-- The server's registry and the routers. -/
structure Setup where
  server : RouteRegistry ServerMiddleware Nat
  routers : Routers

namespace Setup

/-- Before any call. -/
def new : Setup where
  server := RouteRegistry.new
  routers := fun _ => Router.new

/-- Replace the registry of one router. -/
def updateRegistry
    (setup : Setup) (id : Nat)
    (update : RouteRegistry RouterMiddleware Nat →
      RouteRegistry RouterMiddleware Nat) : Setup :=
  { setup with
    routers := fun other =>
      if other = id then
        { setup.routers id with
          registry := update (setup.routers id).registry }
      else setup.routers other }

/-- `Router::setMountPath`. -/
def setMountPath (setup : Setup) (id : Nat) (path : StdString) : Setup :=
  { setup with
    routers := fun other =>
      if other = id then { setup.routers id with mountPath := path }
      else setup.routers other }

@[simp]
theorem updateRegistry_server
    (setup : Setup) (id : Nat)
    (update : RouteRegistry RouterMiddleware Nat →
      RouteRegistry RouterMiddleware Nat) :
    (setup.updateRegistry id update).server = setup.server := rfl

@[simp]
theorem updateRegistry_registry
    (setup : Setup) (id other : Nat)
    (update : RouteRegistry RouterMiddleware Nat →
      RouteRegistry RouterMiddleware Nat) :
    ((setup.updateRegistry id update).routers other).registry =
      if id = other then update (setup.routers other).registry
      else (setup.routers other).registry := by
  by_cases same : id = other
  · subst same
    simp [updateRegistry]
  · simp [updateRegistry, same, Ne.symm same]

@[simp]
theorem setMountPath_server
    (setup : Setup) (id : Nat) (path : StdString) :
    (setup.setMountPath id path).server = setup.server := rfl

@[simp]
theorem setMountPath_registry
    (setup : Setup) (id other : Nat) (path : StdString) :
    ((setup.setMountPath id path).routers other).registry =
      (setup.routers other).registry := by
  by_cases same : other = id
  · subst same
    simp [setMountPath]
  · simp [setMountPath, same]

/-- Make one call; `label` is its position. -/
def apply (setup : Setup) (label : Nat) : SetupCall → Setup
  | .use .server =>
      { setup with
        server :=
          setup.server.registerMiddleWare (.base (.plain label)) }
  | .use (.router id) =>
      setup.updateRegistry id
        (·.registerMiddleWare (.base (.plain label)))
  | .useAt .server path =>
      { setup with
        server :=
          setup.server.registerMiddleWare (.base (.pathWrapper path label)) }
  | .useAt (.router id) path =>
      setup.updateRegistry id
        (·.registerMiddleWare (.base (.pathWrapper path label)))
  | .route .server verb path present =>
      { setup with
        server :=
          setup.server.route verb path
            (if present then some label else none) }
  | .route (.router id) verb path present =>
      setup.updateRegistry id
        (·.route verb path (if present then some label else none))
  -- `HttpServer::use(path, router)`
  | .mount .server path id =>
      { setup with
        server :=
          setup.server.registerMiddleWare
            (.mounted (normalizePath path)
              ((setup.routers id).getMiddlewares id)) }
  -- `Router::use(path, subRouter)`
  | .mount (.router parent) path id =>
      let normalizedPath := normalizePath path
      let mountPath := (setup.routers parent).mountPath
      (setup.setMountPath id (mountPath ++ normalizedPath)).updateRegistry
        parent (·.registerMiddleWare (.subRouter normalizedPath id))

/-- The setup after a sequence of calls. -/
def build (calls : List SetupCall) : Setup :=
  calls.zipIdx.foldl (fun setup call => setup.apply call.2 call.1) new

end Setup

/-! ## What a request runs through -/

variable [Json J]

/-- The 404 answer of `HttpServer::handleRequest`. -/
def notFound : Run J A := fun traced =>
  let req := traced.state.req
  let (outcome, res) :=
    (traced.state.res.setStatus 404).sendJson
      (Json.object
        [(ascii "error", ascii "Not Found"),
          (ascii "path", req.path),
          (ascii "method", req.method)])
  (outcome, traced.update (Exchange.setRes res))

/-- The `runRoute` of `HttpServer::handleRequest`. -/
def runRoute
    (server : RouteRegistry ServerMiddleware Nat)
    (callbacks : Callbacks J A) : Run J A :=
  fun traced =>
    match server.getHandler traced.state.req with
    | (some label, req) =>
        callbacks.handle label (traced.update (Exchange.setReq req))
    | (none, req) => notFound (traced.update (Exchange.setReq req))

/--
Middleware and routing of one request.  The chain of an empty queue is
`runRoute`, which the source calls directly in that case.
-/
def Setup.runChain
    (setup : Setup) (callbacks : Callbacks J A) : Run J A :=
  executeMiddlewareChain
    (ServerMiddleware.call callbacks setup.routers)
    setup.server.queue
    (runRoute setup.server callbacks)

/-- The events of a request that starts from the given exchange. -/
def Setup.events
    (setup : Setup) (callbacks : Callbacks J A)
    (exchange : Exchange J A) : List Event :=
  (setup.runChain callbacks ⟨exchange, []⟩).2.trace

/-- The exchange of a request that has just arrived, for closed examples. -/
def Exchange.arriving (method path : StdString) :
    Exchange FlatJson Unit where
  req := { HttpRequest.new with method := method, path := path }
  res := HttpResponse.new
  app := ()

end PlusWeb
