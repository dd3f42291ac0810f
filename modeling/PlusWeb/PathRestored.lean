import PlusWeb.ScopedMiddleware
import PlusWeb.MountedRouter

/-!
# The path after a mounted router

`HttpServer::use(path, router)` rewrites the request path before it runs the
chain of the router, and writes the old one back only at the end of that
chain, before it calls `next`.  A route that handles the request and a
middleware that does not call `next` leave by other ways, and the caller gets
the relative path back.  The mount of a sub-router writes the path back
whether or not the sub-router handled the request.

For callbacks that leave the path alone after their last call of `next`, what
the caller finds is decided by the last departure from the router's chain.
-/

namespace PlusWeb

variable {J A : Type}

/-! ## Departures -/

/-- Callbacks that leave the path alone after their last call of `next`. -/
structure Callbacks.SettlePath (callbacks : Callbacks J A) : Prop where
  middleware : ∀ label exchange,
    (callbacks.middleware label).Settles
      (fun exchange : Exchange J A => exchange.req.path) exchange.req.path
      exchange
  handler : ∀ label exchange,
    ((callbacks.handler label) exchange).2.req.path = exchange.req.path

theorem Callbacks.KeepPath.settles
    {callbacks : Callbacks J A} (keepPath : callbacks.KeepPath) :
    callbacks.SettlePath where
  middleware label := (keepPath.middleware label).settles
  handler := keepPath.handler

/--
How the chain of a mounted router goes on or is left, but for a plain return:
a middleware passes the request on, with the path it then has; the chain
calls `next`, with the path that call leaves; or an exception comes out of a
handler of a sub-router, with the path the handler was given.
-/
inductive Departure where
  | passed (given : StdString)
  | next (left : StdString)
  | escaped (given : StdString)
deriving DecidableEq, Repr

namespace Departure

/-- The path after a departure. -/
def path : Departure → StdString
  | .passed given => given
  | .next left => left
  | .escaped given => given

/-- The path after some departures, from the path before them. -/
def lastPath (path : StdString) (departures : List Departure) : StdString :=
  departures.foldl (fun _ departure => departure.path) path

theorem lastPath_eq (path : StdString) (departures : List Departure) :
    lastPath path departures =
      match departures.getLast? with
      | some departure => departure.path
      | none => path := by
  induction departures using List.reverseRecOn with
  | nil => rfl
  | append_singleton front last induction => simp [lastPath]

end Departure

/-! ## The departures of a chain -/

section Departures

variable (callbacks : Callbacks J A) (routers : Routers)

/-- The departures in one call of `next` by a middleware. -/
def Departure.passing
    (inside : Traced Event (Exchange J A) → List Departure)
    (traced : Traced Event (Exchange J A)) : List Departure :=
  .passed traced.state.req.path :: inside traced

/--
The departures in a call of a base middleware; `inside` are those in one
call of `next`.
-/
def BaseMiddleware.departures
    (next : Run J A)
    (inside : Traced Event (Exchange J A) → List Departure) :
    BaseMiddleware → Traced Event (Exchange J A) → List Departure
  | .plain label, traced =>
      (callbacks.middleware label).collect (.nexted label) next
        (Departure.passing inside) (traced.log (.entered label))
  | .pathWrapper path label, traced =>
      let requestPath := traced.state.req.path
      let traced := traced.log (.tested label requestPath)
      if StdString.startsWith requestPath path then
        (callbacks.middleware label).collect (.nexted label) next
          (Departure.passing inside) (traced.log (.entered label))
      else inside traced

/-- The departures in a call of an element of the router's chain. -/
def RouterMiddleware.departures
    (next : Run J A)
    (inside : Traced Event (Exchange J A) → List Departure) :
    RouterMiddleware → Traced Event (Exchange J A) → List Departure
  | .base mw, traced => mw.departures callbacks next inside traced
  | .routeHandler id, traced =>
      match (routers id).registry.handleRequest callbacks traced with
      | (true, _, _) => []
      | (false, _, traced) => inside traced
  | .subRouter normalizedPath id, traced =>
      let originalPath := traced.state.req.path
      if StdString.startsWith originalPath normalizedPath then
        let given := relativePath normalizedPath originalPath
        match (routers id).registry.handleRequest callbacks
          (traced.update (Exchange.setPath given)) with
        | (true, .returned, _) => []
        | (true, .threw _, _) => [.escaped given]
        | (false, _, traced) =>
            inside (traced.update (Exchange.setPath originalPath))
      else inside traced

/-- The departures of a chain that ends in a call of `next`. -/
def departures (next : Run J A) :
    List RouterMiddleware → Traced Event (Exchange J A) → List Departure
  | [], traced => [.next (next traced).2.state.req.path]
  | mw :: mws, traced =>
      mw.departures callbacks routers
        (executeMiddlewareChain (RouterMiddleware.call callbacks routers) mws
          next)
        (departures next mws) traced

end Departures

/-! ## The path a chain leaves -/

section Paths

variable {callbacks : Callbacks J A} (settles : callbacks.SettlePath)
  {routers : Routers} {next : Run J A}
  {inside : Traced Event (Exchange J A) → List Departure}

/-- The departures say which path an action leaves. -/
def Departs
    (run : Run J A)
    (departures : Traced Event (Exchange J A) → List Departure) : Prop :=
  ∀ traced,
    (run traced).2.state.req.path =
      Departure.lastPath traced.state.req.path (departures traced)

include settles

theorem departs_enter (departs : Departs next inside) (label : Nat) :
    Departs (callbacks.enter label next) fun traced =>
      (callbacks.middleware label).collect (.nexted label) next
        (Departure.passing inside) (traced.log (.entered label)) := by
  intro traced
  exact
    Script.measure_run (fun exchange : Exchange J A => exchange.req.path)
      (fun (_ : StdString) (departure : Departure) => departure.path)
      (fun traced _ => departs traced)
      (settles.middleware label traced.state)

theorem departs_base
    (departs : Departs next inside) (mw : BaseMiddleware) :
    Departs (mw.call callbacks next)
      (mw.departures callbacks next inside) := by
  cases mw with
  | plain label => exact departs_enter settles departs label
  | pathWrapper path label =>
      intro traced
      simp only [BaseMiddleware.call, BaseMiddleware.departures]
      split
      · exact departs_enter settles departs label _
      · exact departs _

/--
A route keeps the path: a hit gives it to the handler, a miss gives it
back.
-/
theorem handleRequest_path
    {κ : Type} (registry : RouteRegistry κ Nat)
    (traced : Traced Event (Exchange J A)) :
    (registry.handleRequest callbacks traced).2.2.state.req.path =
      traced.state.req.path := by
  have routed := registry.getHandler_path traced.state.req
  unfold RouteRegistry.handleRequest
  split
  case h_1 label req found =>
    rw [found] at routed
    exact (settles.handler label _).trans routed
  case h_2 req found =>
    rw [found] at routed
    exact routed

theorem departs_router
    (departs : Departs next inside) (mw : RouterMiddleware) :
    Departs (mw.call callbacks routers next)
      (mw.departures callbacks routers next inside) := by
  intro traced
  cases mw with
  | base mw => exact departs_base settles departs mw traced
  | routeHandler id =>
      have kept :=
        handleRequest_path settles (routers id).registry traced
      simp only [RouterMiddleware.call, RouterMiddleware.departures]
      rcases found :
          (routers id).registry.handleRequest callbacks traced with
        ⟨hit, outcome, after⟩
      rw [found] at kept
      cases hit with
      | true => exact kept
      | false => exact (departs after).trans (by rw [kept])
  | subRouter normalizedPath id =>
      simp only [RouterMiddleware.call, RouterMiddleware.departures]
      split
      case isFalse => exact departs traced
      case isTrue =>
        let given :=
          traced.update
            (Exchange.setPath
              (relativePath normalizedPath traced.state.req.path))
        have kept :=
          handleRequest_path settles (routers id).registry given
        rcases found :
            (routers id).registry.handleRequest callbacks given with
          ⟨hit, outcome, after⟩
        rw [found] at kept
        cases hit with
        | true =>
            cases outcome with
            | returned => rfl
            | threw exception => exact kept
        | false => exact departs _

/-- The path the chain of a router leaves. -/
theorem departs_chain (next : Run J A) (mws : List RouterMiddleware) :
    Departs
      (executeMiddlewareChain (RouterMiddleware.call callbacks routers) mws
        next)
      (departures callbacks routers next mws) := by
  induction mws with
  | nil => exact fun traced => rfl
  | cons mw mws induction => exact departs_router settles induction mw

end Paths

/-! ## When the path is restored -/

/-- A path under a proper mount point is longer than the path below it. -/
theorem mountedPath_eq_self_iff
    {normalizedPath path : StdString}
    (origin : normalizedPath.head? = some slash)
    (under : underMount normalizedPath path = true) :
    mountedPath normalizedPath path = path ↔ normalizedPath = ascii "/" := by
  constructor
  · intro same
    by_contra proper
    rcases (underMount_iff proper path).mp under with ⟨rest, rfl, boundary⟩
    rw [mountedPath, if_neg proper, relativePath_append] at same
    rcases boundary with empty | next
    · rw [empty, if_pos (.inl rfl), List.append_nil, List.append_nil] at same
      exact proper same.symm
    · have filled : ¬ (rest = [] ∨ rest.head? ≠ some slash) := by
        rintro (empty | other)
        · rw [empty] at next
          cases next
        · exact other next
      rw [if_neg filled] at same
      have none : normalizedPath = [] := List.self_eq_append_left.mp same
      rw [none] at origin
      cases origin
  · intro root
    exact if_pos root

/--
The last departure gives the path back.  With no departure the caller
finds the path below the mount point, which is the path itself at the root
only.
-/
def Departure.GiveBack
    (normalizedPath originalPath : StdString)
    (departures : List Departure) : Prop :=
  match departures.getLast? with
  | some departure => departure.path = originalPath
  | none => normalizedPath = ascii "/"

theorem Departure.lastPath_eq_iff
    {normalizedPath originalPath relative : StdString}
    (own : relative = originalPath ↔ normalizedPath = ascii "/")
    (departures : List Departure) :
    lastPath relative departures = originalPath ↔
      GiveBack normalizedPath originalPath departures := by
  rw [lastPath_eq, GiveBack]
  cases departures.getLast? with
  | none => exact own
  | some departure => rfl

/--
The path is under the mount point and the departures from the router's
chain give it back, or it is not and `next` gives it back.
-/
def RestoresPath
    (callbacks : Callbacks J A) (routers : Routers)
    (normalizedPath : StdString) (routerMws : List RouterMiddleware)
    (next : Run J A) (traced : Traced Event (Exchange J A)) : Prop :=
  let originalPath := traced.state.req.path
  if underMount normalizedPath originalPath then
    Departure.GiveBack normalizedPath originalPath
      (departures callbacks routers
        (fun after => next (after.update (Exchange.setPath originalPath)))
        routerMws
        (traced.update
          (Exchange.setPath (mountedPath normalizedPath originalPath))))
  else (next traced).2.state.req.path = originalPath

/-! ## Handlers that return -/

/--
Departures of a chain, of callbacks that leave the path alone, with handlers
that return and a `next` that leaves the original path: a middleware passes
the path on that it was given, which is the original one from the first call
of `next` on.
-/
def Departure.Tame (originalPath : StdString) :
    StdString → List Departure → Prop
  | _, [] => True
  | path, .passed given :: rest => given = path ∧ Tame originalPath path rest
  | _, .next left :: rest =>
      left = originalPath ∧ Tame originalPath originalPath rest
  | _, .escaped _ :: _ => False

namespace Departure

variable {originalPath : StdString}

theorem Tame.append
    {path : StdString} {front back : List Departure}
    (early : Tame originalPath path front)
    (late : Tame originalPath (lastPath path front) back) :
    Tame originalPath path (front ++ back) := by
  induction front generalizing path with
  | nil => exact late
  | cons departure front induction =>
      cases departure with
      | passed given =>
          obtain ⟨rfl, early⟩ := early
          exact ⟨rfl, induction early late⟩
      | next left =>
          obtain ⟨rfl, early⟩ := early
          exact ⟨rfl, induction early late⟩
      | escaped given => exact early.elim

/-- Such departures lead to the original path by a call of `next` only. -/
theorem Tame.lastPath_eq_iff
    {path : StdString} {departures : List Departure}
    (tame : Tame originalPath path departures) :
    lastPath path departures = originalPath ↔
      path = originalPath ∨ ∃ left, .next left ∈ departures := by
  induction departures generalizing path with
  | nil => simp [lastPath]
  | cons departure departures induction =>
      cases departure with
      | passed given =>
          obtain ⟨rfl, tame⟩ := tame
          have later := induction tame
          simpa [lastPath, Departure.path] using later
      | next left =>
          obtain ⟨rfl, tame⟩ := tame
          have later := induction tame
          apply iff_of_true
          · exact later.mpr (Or.inl rfl)
          · exact Or.inr ⟨left, List.mem_cons_self⟩
      | escaped given => exact tame.elim

end Departure

section Returning

variable {callbacks : Callbacks J A} (keepPath : callbacks.KeepPath)
  {routers : Routers} {next : Run J A} {originalPath : StdString}
include keepPath

theorem tame_base
    {run : Run J A}
    {inside : Traced Event (Exchange J A) → List Departure}
    (departs : Departs run inside)
    (tame : ∀ traced : Traced Event (Exchange J A),
      Departure.Tame originalPath traced.state.req.path (inside traced))
    (mw : BaseMiddleware) (traced : Traced Event (Exchange J A)) :
    Departure.Tame originalPath traced.state.req.path
      (mw.departures callbacks run inside traced) := by
  have passed (traced : Traced Event (Exchange J A)) :
      (run traced).2.state.req.path =
        Departure.lastPath traced.state.req.path
          (Departure.passing inside traced) :=
    departs traced
  have tamePassing (traced : Traced Event (Exchange J A)) :
      Departure.Tame originalPath traced.state.req.path
        (Departure.passing inside traced) :=
    ⟨rfl, tame traced⟩
  have entered (label : Nat) (traced : Traced Event (Exchange J A)) :
      Departure.Tame originalPath traced.state.req.path
        ((callbacks.middleware label).collect (.nexted label) run
          (Departure.passing inside) traced) :=
    Script.collect_tracks (fun exchange : Exchange J A => exchange.req.path)
      (fun (_ : StdString) (departure : Departure) => departure.path)
      (Departure.Tame originalPath) (fun _ => trivial)
      (fun _ _ _ early late => early.append late) passed tamePassing
      (keepPath.middleware label) traced
  cases mw with
  | plain label => exact entered label (traced.log (.entered label))
  | pathWrapper path label =>
      let tested := traced.log (.tested label traced.state.req.path)
      simp only [BaseMiddleware.departures]
      split
      · exact entered label (tested.log (.entered label))
      · exact tame tested

/-- Where handlers return, a chain is left by `next` only. -/
theorem tame_chain
    (returns : ∀ label exchange,
      ((callbacks.handler label) exchange).1 = .returned)
    (restores : ∀ traced,
      (next traced).2.state.req.path = originalPath)
    (mws : List RouterMiddleware) (traced : Traced Event (Exchange J A)) :
    Departure.Tame originalPath traced.state.req.path
      (departures callbacks routers next mws traced) := by
  induction mws generalizing traced with
  | nil => exact ⟨restores traced, trivial⟩
  | cons mw mws induction =>
      cases mw with
      | base mw =>
          exact
            tame_base keepPath (departs_chain keepPath.settles next mws)
              induction mw traced
      | routeHandler id =>
          have kept :=
            handleRequest_path keepPath.settles (routers id).registry traced
          simp only [departures, RouterMiddleware.departures]
          split
          case h_1 => trivial
          case h_2 after missed =>
            rw [missed] at kept
            rw [← kept]
            exact induction after
      | subRouter normalizedPath id =>
          simp only [departures, RouterMiddleware.departures]
          split
          case isFalse => exact induction traced
          case isTrue =>
            split
            case h_1 => trivial
            case h_2 exception after threw =>
              have ends := congrArg (fun result => result.2.1) threw
              simp only [RouteRegistry.handleRequest] at ends
              split at ends
              · cases (returns _ _).symm.trans ends
              · cases ends
            case h_3 after missed =>
              exact
                induction
                  (after.update (Exchange.setPath traced.state.req.path))

/--
Where handlers return and all callbacks and `next` leave the path alone, the
condition is that the path is not under the mount point, or the mount point
is the root, or the router's chain calls `next`.
-/
theorem restoresPath_iff_of_returning
    (returns : ∀ label exchange,
      ((callbacks.handler label) exchange).1 = .returned)
    (nextKeeps : ∀ traced,
      (next traced).2.state.req.path = traced.state.req.path)
    {path : StdString} (origin : path.head? = some slash)
    (routerMws : List RouterMiddleware)
    (traced : Traced Event (Exchange J A)) :
    let originalPath := traced.state.req.path
    RestoresPath callbacks routers path routerMws next traced ↔
      (underMount path originalPath = true →
        path = ascii "/" ∨
          ∃ left, .next left ∈
            departures callbacks routers
              (fun after =>
                next (after.update (Exchange.setPath originalPath)))
              routerMws
              (traced.update
                (Exchange.setPath (mountedPath path originalPath)))) := by
  intro originalPath
  by_cases under : underMount path originalPath = true
  · have tame :
        Departure.Tame originalPath (mountedPath path originalPath)
          (departures callbacks routers
            (fun after =>
              next (after.update (Exchange.setPath originalPath)))
            routerMws
            (traced.update
              (Exchange.setPath (mountedPath path originalPath)))) :=
      tame_chain keepPath returns
        (fun after =>
          nextKeeps (after.update (Exchange.setPath originalPath)))
        routerMws
        (traced.update (Exchange.setPath (mountedPath path originalPath)))
    have relative := mountedPath_eq_self_iff origin under
    rw [RestoresPath, if_pos under,
      ← Departure.lastPath_eq_iff relative, tame.lastPath_eq_iff, relative]
    exact ⟨fun kept _ => kept, fun kept => kept under⟩
  · rw [RestoresPath, if_neg under]
    exact iff_of_true (nextKeeps traced) fun inside => absurd inside under

end Returning

/-! ## The mount of the server -/

/--
With callbacks that leave the path alone after their last call of `next`, a
mounted router gives its caller the path back exactly if the last departure
from its chain does, or, when there is none, at the root only.
-/
theorem mounted_restores_path_iff
    {callbacks : Callbacks J A} (settles : callbacks.SettlePath)
    (routers : Routers) (path : StdString)
    (routerMws : List RouterMiddleware) (next : Run J A)
    (traced : Traced Event (Exchange J A)) :
    ((ServerMiddleware.mounted (normalizePath path) routerMws).call callbacks
          routers next traced).2.state.req.path = traced.state.req.path ↔
      RestoresPath callbacks routers (normalizePath path) routerMws next
        traced := by
  by_cases under :
      underMount (normalizePath path) traced.state.req.path = true
  · let restored : Run J A := fun after =>
      next (after.update (Exchange.setPath traced.state.req.path))
    let relative :=
      mountedPath (normalizePath path) traced.state.req.path
    have left :
        ((ServerMiddleware.mounted (normalizePath path) routerMws).call
            callbacks routers next traced).2.state.req.path =
          Departure.lastPath relative
            (departures callbacks routers restored routerMws
              (traced.update (Exchange.setPath relative))) := by
      simp only [ServerMiddleware.call, under, if_true]
      exact departs_chain settles restored routerMws _
    rw [left, RestoresPath, if_pos under]
    apply Departure.lastPath_eq_iff
    exact mountedPath_eq_self_iff (normalizePath_origin path) under
  · simp only [ServerMiddleware.call, RestoresPath, under,
      Bool.false_eq_true, if_false]

/-- A request that no route of the router takes gets its path back. -/
theorem mounted_restores_path_iff_other :
    let traced : Traced Event (Exchange FlatJson Unit) :=
      ⟨Exchange.arriving (ascii "GET") (ascii "/api/other"), []⟩
    ((ServerMiddleware.mounted (normalizePath (ascii "/api"))
          [.routeHandler 0]).call Callbacks.passing
        (Setup.build usersCalls).routers Action.skip
        traced).2.state.req.path = traced.state.req.path := by
  intro traced
  apply
    (mounted_restores_path_iff Callbacks.keepPath_passing.settles _ _ _ _
      _).mpr
  have under :
      underMount (normalizePath (ascii "/api")) traced.state.req.path =
        true := by
    decide +kernel
  rw [RestoresPath, if_pos under]
  apply
    (Departure.lastPath_eq_iff
      (mountedPath_eq_self_iff (normalizePath_origin _) under) _).mp
  decide +kernel

/-- A route handles the request and the relative path stays. -/
theorem mounted_path_left :
    ¬ ∀ (callbacks : Callbacks FlatJson Unit), callbacks.KeepPath →
      ∀ (calls : List SetupCall) (path : StdString) (id : Nat)
        (traced after : Traced Event (Exchange FlatJson Unit)),
        (ServerMiddleware.mounted (normalizePath path)
              (((Setup.build calls).routers id).getMiddlewares id)).call
            callbacks (Setup.build calls).routers Action.skip traced =
          (.returned, after) →
            after.state.req.path = traced.state.req.path := by
  intro restores
  have kept :=
    restores Callbacks.passing Callbacks.keepPath_passing usersCalls
      (ascii "/api") 0
      ⟨Exchange.arriving (ascii "GET") (ascii "/api/users/7"), []⟩ _
      (Prod.ext (by decide +kernel) rfl)
  revert kept
  decide +kernel

end PlusWeb
