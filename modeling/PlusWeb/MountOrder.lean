import PlusWeb.Library.Runs
import PlusWeb.HandleRequest
import PlusWeb.RouteTables
import PlusWeb.RoutingTrace

/-!
# Routes registered after a mount

A mount on the server copies the middleware of the router, but the last
element of the copy refers to the router, and so does the mount of a
sub-router.  Routes are only looked up when a request arrives, so it does not
matter whether they were registered before the mount or after it.

Two calls are compared that carry the numbers of their callbacks with them:
when they change places, each keeps its callback.  A registration of a route
changes nothing that another call reads, so it may change places with every
call but the registrations on the same object.
-/

namespace PlusWeb

variable {J A : Type}

namespace Setup

/-! ## Numbered calls -/

/-- Make a call that carries the number of its callback. -/
def applyNumbered (setup : Setup) (call : SetupCall × Nat) : Setup :=
  setup.apply call.2 call.1

/-- The setup after a sequence of numbered calls. -/
def buildNumbered (calls : List (SetupCall × Nat)) : Setup :=
  Runs.run applyNumbered new calls

/-- A program numbers its calls by position. -/
theorem build_eq_buildNumbered (calls : List SetupCall) :
    build calls = buildNumbered calls.zipIdx := rfl

end Setup

/-- The call registers a route on the object. -/
def SetupCall.routesOn (target : Target) : SetupCall → Bool
  | .route on _ _ _ => on = target
  | _ => false

/-- What a numbered program registers on an object. -/
def registeredOn
    (target : Target) (calls : List (SetupCall × Nat)) :
    List (Registration (Option Nat)) :=
  calls.flatMap fun call => call.1.registers target call.2

namespace Setup

/--
Every registration on an object is in its trie, wherever in the program
it was made.
-/
theorem buildNumbered_trie
    (calls : List (SetupCall × Nat)) (target : Target) :
    (buildNumbered calls).trie target =
      Trie.new.registerAll (registeredOn target calls) := by
  have empty : new.trie target = Trie.new := by
    cases target <;> rfl
  rw [← empty]
  exact foldl_apply_trie new calls target

/-! ## What a route leaves alone -/

@[simp]
theorem updateRegistry_mountPath
    (setup : Setup) (on id : Nat)
    (update : RouteRegistry RouterMiddleware Nat →
      RouteRegistry RouterMiddleware Nat) :
    ((setup.updateRegistry on update).routers id).mountPath =
      (setup.routers id).mountPath := by
  by_cases same : id = on
  · simp [updateRegistry, same]
  · simp [updateRegistry, same]

/-- Two setups are one if their queues, tries and mount paths are. -/
theorem eq_of_parts
    {setup setup' : Setup}
    (queue : setup.server.queue = setup'.server.queue)
    (queues : ∀ id,
      (setup.routers id).registry.queue = (setup'.routers id).registry.queue)
    (tries : ∀ target, setup.trie target = setup'.trie target)
    (mountPaths : ∀ id,
      (setup.routers id).mountPath = (setup'.routers id).mountPath) :
    setup = setup' := by
  rcases setup with ⟨⟨serverQueue, serverTrie⟩, routers⟩
  rcases setup' with ⟨⟨serverQueue', serverTrie'⟩, routers'⟩
  obtain rfl : serverQueue = serverQueue' := queue
  obtain rfl : serverTrie = serverTrie' := tries .server
  congr
  funext id
  have sameTrie :
      (routers id).registry.trie = (routers' id).registry.trie :=
    tries (.router id)
  have sameQueue := queues id
  have samePath := mountPaths id
  dsimp only at sameQueue samePath
  cases own : routers id with
  | mk registry path =>
  cases own' : routers' id with
  | mk registry' path' =>
  rw [own, own'] at sameTrie sameQueue samePath
  cases registry
  cases registry'
  simp only at sameTrie sameQueue samePath
  rw [sameTrie, sameQueue, samePath]

section Swap

variable (setup : Setup) (label : Nat) {target : Target} (verb : Verb)
  (path : StdString) (present : Bool)

theorem apply_route_queues (id : Nat) :
    ((setup.apply label (.route target verb path present)).routers
        id).registry.queue = (setup.routers id).registry.queue := by
  rw [apply_routers_queue]
  simp [routerElement]

theorem apply_route_queue :
    (setup.apply label (.route target verb path present)).server.queue =
      setup.server.queue := by
  rw [apply_server_queue]
  simp [serverElement]

theorem apply_route_mountPath (id : Nat) :
    ((setup.apply label (.route target verb path present)).routers
        id).mountPath = (setup.routers id).mountPath := by
  cases target with
  | server => rfl
  | router on => simp [apply]

/-- The mount paths after a call depend on the mount paths before it. -/
theorem apply_mountPath_congr
    {setup setup' : Setup}
    (same : ∀ id, (setup.routers id).mountPath = (setup'.routers id).mountPath)
    (label : Nat) (call : SetupCall) (id : Nat) :
    ((setup.apply label call).routers id).mountPath =
      ((setup'.apply label call).routers id).mountPath := by
  cases call with
  | use on => cases on <;> simpa [apply] using same id
  | useAt on path => cases on <;> simpa [apply] using same id
  | route on verb path present => cases on <;> simpa [apply] using same id
  | mount on path sub =>
      cases on with
      | server => exact same id
      | router parent =>
          simp only [apply, updateRegistry_mountPath, setMountPath]
          split
          · rw [same parent]
          · exact same id

/--
A route changes places with every call that is not a route on the same
object.
-/
theorem apply_route_comm
    (label' : Nat) {call : SetupCall} (other : call.routesOn target = false) :
    (setup.apply label' call).apply label (.route target verb path present) =
      (setup.apply label (.route target verb path present)).apply label'
        call := by
  let route := SetupCall.route target verb path present
  apply eq_of_parts
  · rw [apply_route_queue, apply_server_queue, apply_server_queue,
      apply_route_queue]
    congr 2
    cases call with
    | use on => cases on <;> rfl
    | useAt on path => cases on <;> rfl
    | route on verb path present => rfl
    | mount on path id =>
        cases on with
        | server =>
            simp only [serverElement, Router.getMiddlewares,
              apply_route_queues]
        | router parent => rfl
  · intro id
    rw [apply_route_queues, apply_routers_queue, apply_routers_queue,
      apply_route_queues]
  · intro object
    rw [apply_trie, apply_trie, apply_trie, apply_trie]
    by_cases here : object = target
    · have none : call.registers object label' = [] := by
        cases call with
        | use on => rfl
        | useAt on path => rfl
        | mount on path id => rfl
        | route on verb path present =>
            have apart : on ≠ target := by
              simpa [SetupCall.routesOn] using other
            exact if_neg (here ▸ apart)
      rw [none]
      rfl
    · have none : route.registers object label = [] :=
        if_neg (Ne.symm here)
      rw [none]
      rfl
  · intro id
    rw [apply_route_mountPath]
    exact
      apply_mountPath_congr
        (fun id =>
          (apply_route_mountPath setup label verb path present id).symm)
        label' call id

end Swap

/-- The routes of an object may all be registered first. -/
theorem run_routes_first
    (target : Target) (setup : Setup) (calls : List (SetupCall × Nat)) :
    Runs.run applyNumbered setup calls =
      Runs.run applyNumbered setup
        (calls.filter (fun call => call.1.routesOn target) ++
          calls.filter fun call => !call.1.routesOn target) := by
  apply Runs.run_early_late
  rintro state ⟨call, label'⟩ ⟨other, label⟩ stays moves
  cases other with
  | route on verb path present =>
      obtain rfl : on = target := by simpa [SetupCall.routesOn] using moves
      exact apply_route_comm state label verb path present label' stays
  | use on => cases moves
  | useAt on path => cases moves
  | mount on path id => cases moves

end Setup

/-! ## A mount and the routes around it -/

variable [Json J]

/--
Mounting a router, on the server or in another router, and registering
routes on it commute.  A program in which the routes of the router come
before the mount and after it answers every request as the program in which
they all come before it, and every registration is in the trie that the mount
looks requests up in.
-/
theorem mount_commutes_with_routes
    (before after : List (SetupCall × Nat)) (target : Target)
    (path : StdString) (id label : Nat)
    (callbacks : Callbacks J A) (memory : Int) (request : HttpRequest J)
    (keepAlive shouldClose : Bool) (app : A) :
    let mount := (SetupCall.mount target path id, label)
    let late := after.filter fun call => call.1.routesOn (.router id)
    let rest := after.filter fun call => !call.1.routesOn (.router id)
    handleRequest (Setup.buildNumbered (before ++ mount :: after)) callbacks
          memory request keepAlive shouldClose app =
        handleRequest
          (Setup.buildNumbered (before ++ late ++ mount :: rest)) callbacks
          memory request keepAlive shouldClose app ∧
      ((Setup.buildNumbered
          (before ++ mount :: after)).routers id).registry.trie =
        Trie.new.registerAll
          (registeredOn (.router id) before ++
            registeredOn (.router id) after) := by
  intro mount late rest
  have stays : mount.1.routesOn (.router id) = false := rfl
  have same :
      Setup.buildNumbered (before ++ mount :: after) =
        Setup.buildNumbered (before ++ late ++ mount :: rest) := by
    rw [Setup.buildNumbered, Runs.run_append,
      Setup.run_routes_first (.router id), List.filter_cons,
      List.filter_cons, stays, ← Runs.run_append, ← List.append_assoc]
    rfl
  constructor
  · rw [same]
  · have held :=
      Setup.buildNumbered_trie (before ++ mount :: after) (.router id)
    have none : mount.1.registers (.router id) mount.2 = [] := rfl
    rw [registeredOn, List.flatMap_append, List.flatMap_cons, none,
      List.nil_append] at held
    exact held

end PlusWeb
