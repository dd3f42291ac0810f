import PlusWeb.HandleRequest
import PlusWeb.RouteParameters
import PlusWeb.RoutingTrace
import PlusWeb.Library.TwoRuns

/-!
# HEAD mirrors GET

`RoutingBase::GET` and `ALL` register every handler for HEAD too, right
beside GET.  Without a call of `HEAD` the two methods have the same routes in
every trie, and a request is dispatched alike under both.

The two requests of a path are run side by side.  Callbacks that do the same
for both methods keep the exchanges equal up to the method; only the 404
answer, which prints the method, would set them apart.  So where the 404
answer plays no part, the two responses are equal, and `serialize` leaves the
body of one of them away.
-/

namespace PlusWeb

open ListSearch WildcardTable

variable {J A κ β : Type}

/-! ## The routes of the two methods -/

/-- The same request with the method HEAD. -/
def HttpRequest.asHead (req : HttpRequest J) : HttpRequest J :=
  { req with method := ascii "HEAD" }

theorem routesAt_append
    (head : StdString) (front back : List (Registration (Option β))) :
    routesAt head (front ++ back) =
      routesAt head front ++ routesAt head back := by
  simp [routesAt]

/-- The routes one verb registers behind one first segment. -/
theorem routesAt_methods
    {methods : List StdString}
    (tokens : ∀ method ∈ methods, MethodToken method)
    {method : StdString} (token : MethodToken method)
    (path pattern : StdString) (handler : Option β) :
    routesAt (headSegment method path)
        (methods.map fun method => ⟨method, pattern, handler⟩) =
      if before slash (StdString.cStr pattern) =
          before slash (StdString.cStr path) then
        List.replicate (methods.count method)
          (patternOf (tailSegments pattern), handler)
      else [] := by
  induction methods with
  | nil => simp [routesAt]
  | cons first methods induction =>
      have own := tokens first (List.mem_cons_self ..)
      have later := induction fun other member =>
        tokens other (List.mem_cons_of_mem _ member)
      have same :
          headSegment first pattern = headSegment method path ↔
            first = method ∧
              before slash (StdString.cStr pattern) =
                before slash (StdString.cStr path) := by
        constructor
        · exact headSegment_inj own token
        · rintro ⟨rfl, equal⟩
          rw [headSegment, headSegment, equal]
      rw [List.map_cons, ← List.singleton_append, routesAt_append, later]
      by_cases here :
          before slash (StdString.cStr pattern) =
            before slash (StdString.cStr path)
      · by_cases this_ : first = method
        · subst this_
          simp [routesAt, same, here, List.replicate_succ]
        · simp [routesAt, same, here, this_]
      · simp [routesAt, same, here]

theorem Verb.count_head
    {verb : Verb} (notHead : verb ≠ .HEAD) :
    verb.methods.count (ascii "HEAD") =
      verb.methods.count (ascii "GET") := by
  cases verb with
  | HEAD => exact absurd rfl notHead
  | _ => decide

/-- The program has no call of `HEAD`. -/
def NoHead (calls : List SetupCall) : Prop :=
  ∀ target path present, .route target .HEAD path present ∉ calls

theorem token_get : MethodToken (ascii "GET") :=
  @Verb.methods_token .GET _ (by decide)

theorem token_head : MethodToken (ascii "HEAD") :=
  @Verb.methods_token .HEAD _ (by decide)

/-- The two methods have the same routes. -/
theorem routesAt_head
    {calls : List SetupCall} (noHead : NoHead calls)
    (target : Target) (path : StdString) :
    routesAt (headSegment (ascii "HEAD") path)
        (registrationsOn target calls) =
      routesAt (headSegment (ascii "GET") path)
        (registrationsOn target calls) := by
  have each (numbered : List (SetupCall × Nat))
      (none : ∀ call ∈ numbered, ∀ target path present,
        call.1 ≠ .route target .HEAD path present) :
      routesAt (headSegment (ascii "HEAD") path)
          (numbered.flatMap fun call => call.1.registers target call.2) =
        routesAt (headSegment (ascii "GET") path)
          (numbered.flatMap fun call => call.1.registers target call.2) := by
    induction numbered with
    | nil => rfl
    | cons call numbered induction =>
        have later := induction fun other member =>
          none other (List.mem_cons_of_mem _ member)
        have own := none call (List.mem_cons_self ..)
        rw [List.flatMap_cons, routesAt_append, routesAt_append, later]
        rcases call with ⟨call, label⟩
        cases call with
        | route on verb pattern present =>
            have notHead : verb ≠ .HEAD := by
              rintro rfl
              exact own on pattern present rfl
            simp only [SetupCall.registers]
            split
            · rw [routesAt_methods (fun _ => Verb.methods_token) token_head,
                routesAt_methods (fun _ => Verb.methods_token) token_get,
                Verb.count_head notHead]
            · rfl
        | use on => rfl
        | useAt on scope => rfl
        | mount on point id => rfl
  apply each
  intro call member target path present same
  apply noHead target path present
  rw [← same]
  exact List.fst_mem_of_mem_zipIdx member

/-- A registry dispatches HEAD as it does GET. -/
theorem answer_asHead
    {calls : List SetupCall} (noHead : NoHead calls) (target : Target)
    {req : HttpRequest J} (get : req.method = ascii "GET") :
    answer (registrationsOn target calls) req.asHead =
      ((answer (registrationsOn target calls) req).1,
        (answer (registrationsOn target calls) req).2.asHead) := by
  have table :
      routeTable (headSegment (ascii "HEAD") req.path)
          (registrationsOn target calls) =
        routeTable (headSegment req.method req.path)
          (registrationsOn target calls) := by
    rw [routeTable, routesAt_head noHead, ← get]
    rfl
  simp only [answer, HttpRequest.asHead, table]
  cases (routeTable (headSegment req.method req.path)
      (registrationsOn target calls)).lookup (tailSegments req.path) <;> rfl

/-! ## The two requests side by side -/

/-- A GET exchange and the same exchange under HEAD. -/
structure Exchange.Mirrors (get head : Exchange J A) : Prop where
  method : get.req.method = ascii "GET"
  same : head = get.setReq get.req.asHead

/-- The registry dispatches HEAD as it does GET. -/
def RouteRegistry.MirrorsGet
    (J : Type) (registry : RouteRegistry κ Nat) : Prop :=
  ∀ req : HttpRequest J, req.method = ascii "GET" →
    registry.getHandler req.asHead =
      ((registry.getHandler req).1, (registry.getHandler req).2.asHead)

theorem server_mirrorsGet
    (J : Type) {calls : List SetupCall} (noHead : NoHead calls) :
    (Setup.build calls).server.MirrorsGet J := by
  intro req get
  rw [server_getHandler calls token_head,
    server_getHandler calls (get ▸ token_get)]
  exact answer_asHead noHead .server get

theorem router_mirrorsGet
    (J : Type) {calls : List SetupCall} (noHead : NoHead calls) (id : Nat) :
    ((Setup.build calls).routers id).registry.MirrorsGet J := by
  intro req get
  rw [router_getHandler calls id token_head,
    router_getHandler calls id (get ▸ token_get)]
  exact answer_asHead noHead (.router id) get

/-- Middleware and handlers that do the same for both methods. -/
structure Callbacks.SameForHead (callbacks : Callbacks J A) : Prop where
  middleware : ∀ label,
    Script.Alike Exchange.Mirrors (callbacks.middleware label)
      (callbacks.middleware label)
  handler : ∀ label,
    Action.Alike Exchange.Mirrors (callbacks.handler label)
      (callbacks.handler label)

theorem RouteRegistry.getHandler_method
    (registry : RouteRegistry κ β) (req : HttpRequest J) :
    (registry.getHandler req).2.method = req.method := by
  rw [getHandler_eq registry req rfl]
  split <;> rfl

theorem Exchange.Mirrors.setPath
    {get head : Exchange J A} (mirrors : get.Mirrors head)
    (path : StdString) : (get.setPath path).Mirrors (head.setPath path) := by
  rcases mirrors with ⟨method, rfl⟩
  exact ⟨method, rfl⟩

/-- Dispatch keeps the exchanges side by side. -/
theorem Exchange.Mirrors.dispatch
    {registry : RouteRegistry κ Nat} (mirror : registry.MirrorsGet J)
    {get head : Exchange J A} (mirrors : get.Mirrors head) :
    (registry.getHandler head.req).1 = (registry.getHandler get.req).1 ∧
      (get.setReq (registry.getHandler get.req).2).Mirrors
        (head.setReq (registry.getHandler head.req).2) := by
  rcases mirrors with ⟨method, rfl⟩
  have found := mirror get.req method
  constructor
  · show (registry.getHandler get.req.asHead).1 = _
    rw [found]
  · constructor
    · exact (RouteRegistry.getHandler_method registry get.req).trans method
    · show (get.setReq get.req.asHead).setReq
        (registry.getHandler get.req.asHead).2 = _
      rw [found]
      rfl

section Chain

variable {callbacks : Callbacks J A} {escape : Event}
  {next next' : Run J A}

/-- One run follows the other, from mirrored exchanges. -/
abbrev Mirrored (escape : Event) (run run' : Run J A) : Prop :=
  Action.Follows Exchange.Mirrors escape run run'

theorem Callbacks.mirrored_enter
    (same : callbacks.SameForHead) (label : Nat)
    (nextMirrored : Mirrored escape next next') :
    Mirrored escape (callbacks.enter label next)
      (callbacks.enter label next') := by
  have ran :=
    (same.middleware label).follows_run (.nexted label) nextMirrored
  constructor
  · intro traced logged
    apply ran.stays
    exact List.mem_append_left _ logged
  · intro traced traced' start
    exact ran.follows _ _ (start.log (.entered label))

theorem Callbacks.mirrored_handle
    (same : callbacks.SameForHead) (label : Nat) :
    Mirrored escape (callbacks.handle label) (callbacks.handle label) := by
  have ran :
      Mirrored escape (Action.onState (callbacks.handler label))
        (Action.onState (callbacks.handler label)) :=
    (same.handler label).follows
  constructor
  · intro traced logged
    apply ran.stays
    exact List.mem_append_left _ logged
  · intro traced traced' start
    exact ran.follows _ _ (start.log (.handled label))

theorem BaseMiddleware.mirrored_call
    (same : callbacks.SameForHead) (mw : BaseMiddleware)
    (nextMirrored : Mirrored escape next next') :
    Mirrored escape (mw.call callbacks next)
      (mw.call callbacks next') := by
  cases mw with
  | plain label => exact Callbacks.mirrored_enter same label nextMirrored
  | pathWrapper scope label =>
      have entered := Callbacks.mirrored_enter same label nextMirrored
      constructor
      · intro traced logged
        have later :
            escape ∈
              (traced.log (.tested label traced.state.req.path)).trace :=
          List.mem_append_left _ logged
        simp only [BaseMiddleware.call]
        split
        · exact entered.stays _ later
        · exact nextMirrored.stays _ later
      · intro traced traced' start
        have path : traced'.state.req.path = traced.state.req.path := by
          rw [start.state.same]
          rfl
        have logged :=
          start.log (.tested label traced.state.req.path)
        simp only [BaseMiddleware.call, path]
        split
        · exact entered.follows _ _ logged
        · exact nextMirrored.follows _ _ logged

/--
A registry that mirrors GET picks one handler in both runs, and leaves
them alike.
-/
theorem Traced.Alike.dispatch
    {registry : RouteRegistry κ Nat} (mirror : registry.MirrorsGet J)
    {traced traced' : Traced Event (Exchange J A)}
    (start : Traced.Alike Exchange.Mirrors traced traced') :
    (registry.getHandler traced'.state.req).1 =
        (registry.getHandler traced.state.req).1 ∧
      Traced.Alike Exchange.Mirrors
        (traced.update
          (Exchange.setReq (registry.getHandler traced.state.req).2))
        (traced'.update
          (Exchange.setReq (registry.getHandler traced'.state.req).2)) := by
  rcases start.state.dispatch mirror with ⟨sameHandler, mirrors⟩
  exact ⟨sameHandler, start.update mirrors⟩

/--
A registry is asked, and either its handler runs or the chain goes
on.
-/
theorem mirrored_handleRequest
    (escape : Event) (same : callbacks.SameForHead)
    {registry : RouteRegistry κ Nat} (mirror : registry.MirrorsGet J)
    {traced traced' : Traced Event (Exchange J A)}
    (start : Traced.Alike Exchange.Mirrors traced traced') :
    escape ∈ (registry.handleRequest callbacks traced).2.2.trace ∨
      (registry.handleRequest callbacks traced).1 =
          (registry.handleRequest callbacks traced').1 ∧
        (registry.handleRequest callbacks traced).2.1 =
          (registry.handleRequest callbacks traced').2.1 ∧
        Traced.Alike Exchange.Mirrors
          (registry.handleRequest callbacks traced).2.2
          (registry.handleRequest callbacks traced').2.2 := by
  rcases start.dispatch mirror with ⟨sameHandler, begun⟩
  unfold RouteRegistry.handleRequest
  cases found : registry.getHandler traced.state.req with
  | mk handler req =>
  cases found' : registry.getHandler traced'.state.req with
  | mk handler' req' =>
  rw [found, found'] at sameHandler begun
  obtain rfl : handler' = handler := sameHandler
  cases handler' with
  | some label =>
      rcases (Callbacks.mirrored_handle same
          label).follows _ _ begun with escaped | ⟨outcome, after⟩
      · exact Or.inl escaped
      · exact Or.inr ⟨rfl, outcome, after⟩
  | none => exact Or.inr ⟨rfl, rfl, begun⟩

theorem Traced.Alike.path
    {traced traced' : Traced Event (Exchange J A)}
    (alike : Traced.Alike Exchange.Mirrors traced traced') :
    traced'.state.req.path = traced.state.req.path := by
  rw [alike.state.same]
  rfl

theorem RouterMiddleware.mirrored_call
    (same : callbacks.SameForHead) {routers : Routers}
    (mirror : ∀ id, (routers id).registry.MirrorsGet J)
    (mw : RouterMiddleware)
    (nextMirrored : Mirrored escape next next') :
    Mirrored escape (mw.call callbacks routers next)
      (mw.call callbacks routers next') := by
  cases mw with
  | base mw => exact BaseMiddleware.mirrored_call same mw nextMirrored
  | routeHandler id =>
      constructor
      · intro traced logged
        rcases
          RouterMiddleware.call_routeHandler_cases callbacks routers id next
            traced with
          ⟨label, req, -, handled⟩ | ⟨-, missed⟩
        · rw [handled]
          exact (Callbacks.mirrored_handle same label).stays _ logged
        · rw [missed]
          exact nextMirrored.stays _ logged
      · intro traced traced' start
        have both := mirrored_handleRequest escape same (mirror id) start
        simp only [RouterMiddleware.call]
        cases ran :
          (routers id).registry.handleRequest callbacks traced with
        | mk found rest =>
        cases ran' :
          (routers id).registry.handleRequest callbacks traced' with
        | mk found' rest' =>
        rcases rest with ⟨outcome, after⟩
        rcases rest' with ⟨outcome', after'⟩
        rw [ran, ran'] at both
        rcases both with escaped | ⟨rfl, rfl, alike⟩
        · left
          cases found with
          | true => exact escaped
          | false => exact nextMirrored.stays _ escaped
        · cases found with
          | true => exact Or.inr ⟨rfl, alike⟩
          | false => exact nextMirrored.follows _ _ alike
  | subRouter normalizedPath id =>
      constructor
      · intro traced logged
        rcases
          RouterMiddleware.call_subRouter_cases callbacks routers id next
            traced normalizedPath with
          ⟨-, label, req, -, handled⟩ | ⟨-, missed⟩
        · rw [handled, leaveSubRouter_trace]
          exact (Callbacks.mirrored_handle same label).stays _ logged
        · rw [missed]
          exact nextMirrored.stays _ logged
      · intro traced traced' start
        simp only [RouterMiddleware.call, start.path]
        split
        case isFalse => exact nextMirrored.follows _ _ start
        case isTrue =>
          have inside :=
            start.update
              (start.state.setPath
                (relativePath normalizedPath traced.state.req.path))
          have both := mirrored_handleRequest escape same (mirror id) inside
          cases ran :
            (routers id).registry.handleRequest callbacks
              (traced.update
                (Exchange.setPath
                  (relativePath normalizedPath
                    traced.state.req.path))) with
          | mk found rest =>
          cases ran' :
            (routers id).registry.handleRequest callbacks
              (traced'.update
                (Exchange.setPath
                  (relativePath normalizedPath
                    traced.state.req.path))) with
          | mk found' rest' =>
          rcases rest with ⟨outcome, after⟩
          rcases rest' with ⟨outcome', after'⟩
          rw [ran, ran'] at both
          rcases both with escaped | ⟨rfl, rfl, alike⟩
          · left
            cases found with
            | true => cases outcome <;> exact escaped
            | false => exact nextMirrored.stays _ escaped
          · have restored :=
              alike.update
                (alike.state.setPath traced.state.req.path)
            cases found with
            | true =>
                cases outcome with
                | returned => exact Or.inr ⟨rfl, restored⟩
                | threw exception => exact Or.inr ⟨rfl, alike⟩
            | false => exact nextMirrored.follows _ _ restored

/-- A chain is followed if each element passes that on. -/
theorem mirrored_chain
    {call : κ → Run J A → Run J A}
    (each : ∀ mw next next', Mirrored escape next next' →
      Mirrored escape (call mw next) (call mw next'))
    (mws : List κ) {final final' : Run J A}
    (finalMirrored : Mirrored escape final final') :
    Mirrored escape (executeMiddlewareChain call mws final)
      (executeMiddlewareChain call mws final') := by
  induction mws with
  | nil => exact finalMirrored
  | cons mw mws induction => exact each mw _ _ induction

theorem mirrored_restored
    (path : StdString) (nextMirrored : Mirrored escape next next') :
    Mirrored escape
      (fun traced => next (traced.update (Exchange.setPath path)))
      (fun traced => next' (traced.update (Exchange.setPath path))) := by
  constructor
  · intro traced logged
    exact nextMirrored.stays _ logged
  · intro traced traced' start
    exact
      nextMirrored.follows _ _ (start.update (start.state.setPath path))

theorem ServerMiddleware.mirrored_call
    (same : callbacks.SameForHead) {routers : Routers}
    (mirror : ∀ id, (routers id).registry.MirrorsGet J)
    (mw : ServerMiddleware)
    (nextMirrored : Mirrored escape next next') :
    Mirrored escape (mw.call callbacks routers next)
      (mw.call callbacks routers next') := by
  cases mw with
  | base mw => exact BaseMiddleware.mirrored_call same mw nextMirrored
  | mounted normalizedPath routerMws =>
      have chain (path : StdString) :=
        mirrored_chain
          (fun mw _ _ => RouterMiddleware.mirrored_call same mirror mw)
          routerMws (mirrored_restored path nextMirrored)
      constructor
      · intro traced logged
        simp only [ServerMiddleware.call]
        split
        · exact (chain _).stays _ logged
        · exact nextMirrored.stays _ logged
      · intro traced traced' start
        simp only [ServerMiddleware.call, start.path]
        split
        · exact
            (chain _).follows _ _
              (start.update (start.state.setPath _))
        · exact nextMirrored.follows _ _ start

end Chain

/-! ## Requests that a route answers -/

/--
The `runRoute` of `HttpServer::handleRequest` with another answer for a
miss.
-/
def runRouteElse
    (server : RouteRegistry ServerMiddleware Nat)
    (callbacks : Callbacks J A) (fallback : Run J A) : Run J A :=
  fun traced =>
    match server.getHandler traced.state.req with
    | (some label, req) =>
        callbacks.handle label (traced.update (Exchange.setReq req))
    | (none, req) => fallback (traced.update (Exchange.setReq req))

/-- Middleware and routing with another answer for a miss. -/
def Setup.runChainElse
    (setup : Setup) (callbacks : Callbacks J A) (fallback : Run J A) :
    Run J A :=
  executeMiddlewareChain
    (ServerMiddleware.call callbacks setup.routers)
    setup.server.queue
    (runRouteElse setup.server callbacks fallback)

/--
The request is answered without the 404 answer: whatever stood in its
place, the run would be the same.
-/
def Setup.Answers
    [Json J] (setup : Setup) (callbacks : Callbacks J A)
    (exchange : Exchange J A) : Prop :=
  ∀ fallback : Run J A,
    setup.runChainElse callbacks fallback ⟨exchange, []⟩ =
      setup.runChain callbacks ⟨exchange, []⟩

theorem mirrored_runRouteElse
    {callbacks : Callbacks J A} (same : callbacks.SameForHead)
    {server : RouteRegistry ServerMiddleware Nat}
    (mirror : server.MirrorsGet J) {escape : Event}
    {fallback fallback' : Run J A}
    (fallbackMirrored : Mirrored escape fallback fallback') :
    Mirrored escape (runRouteElse server callbacks fallback)
      (runRouteElse server callbacks fallback') := by
  constructor
  · intro traced logged
    simp only [runRouteElse]
    split
    · exact (Callbacks.mirrored_handle same _).stays _ logged
    · exact fallbackMirrored.stays _ logged
  · intro traced traced' start
    rcases start.dispatch mirror with ⟨sameHandler, begun⟩
    simp only [runRouteElse]
    cases found : server.getHandler traced.state.req with
    | mk handler req =>
    cases found' : server.getHandler traced'.state.req with
    | mk handler' req' =>
    rw [found, found'] at sameHandler begun
    obtain rfl : handler' = handler := sameHandler
    cases handler' with
    | some label =>
        exact (Callbacks.mirrored_handle same label).follows _ _ begun
    | none => exact fallbackMirrored.follows _ _ begun

variable [Json J]

/-- The HEAD request of an answered GET request runs like it. -/
theorem runChain_mirrors
    {calls : List SetupCall} (noHead : NoHead calls)
    {callbacks : Callbacks J A} (same : callbacks.SameForHead)
    {get head : Exchange J A} (mirrors : get.Mirrors head)
    (answers : (Setup.build calls).Answers callbacks get) :
    let run := (Setup.build calls).runChain callbacks
    (run ⟨head, []⟩).1 = (run ⟨get, []⟩).1 ∧
      (run ⟨head, []⟩).2.trace = (run ⟨get, []⟩).2.trace ∧
      (run ⟨get, []⟩).2.state.Mirrors (run ⟨head, []⟩).2.state := by
  intro run
  -- a fallback that logs an event the run does not have
  obtain ⟨fresh, unused⟩ :
      ∃ fresh, Event.handled fresh ∉ (run ⟨get, []⟩).2.trace := by
    have injective : Function.Injective Event.handled :=
      fun _ _ => Event.handled.inj
    have finite :=
      (run ⟨get, []⟩).2.trace.finite_toSet.preimage injective.injOn
    exact finite.exists_notMem
  let marking : Run J A := fun traced =>
    (.returned, traced.log (.handled fresh))
  have fallbackMirrored : Mirrored (.handled fresh) marking notFound := by
    apply Action.follows_of_escapes
    intro traced
    exact List.mem_append_right _ (List.mem_singleton_self _)
  have chain :
      Mirrored (.handled fresh)
        ((Setup.build calls).runChainElse callbacks marking) run :=
    mirrored_chain
      (fun mw _ _ =>
        ServerMiddleware.mirrored_call same
          (router_mirrorsGet J noHead) mw)
      _
      (mirrored_runRouteElse same (server_mirrorsGet J noHead)
        fallbackMirrored)
  have start : Traced.Alike Exchange.Mirrors
      (⟨get, []⟩ : Traced Event (Exchange J A)) ⟨head, []⟩ :=
    ⟨mirrors, rfl⟩
  have both := chain.follows _ _ start
  rw [answers marking] at both
  rcases both.resolve_left unused with ⟨outcome, after⟩
  exact ⟨outcome.symm, after.trace.symm, after.state⟩

/--
HEAD mirrors GET.

The program has no call of `HEAD`, its callbacks do the same for both
methods, and the GET request is answered without the 404 answer.  Then every
registry dispatches the HEAD request to the same handler with the same
parameters; the two runs log the same events and leave the same exchange up
to the method; and where the GET response is the head and the body of the
final response object, the HEAD response is that head alone.
-/
theorem head_mirrors_get
    {calls : List SetupCall} (noHead : NoHead calls)
    {callbacks : Callbacks J A} (same : callbacks.SameForHead)
    {request : HttpRequest J} (method : request.method = ascii "GET")
    (app : A)
    (answers :
      (Setup.build calls).Answers callbacks
        ⟨request, HttpResponse.fresh, app⟩)
    (memory : Int) (keepAlive shouldClose : Bool) :
    let setup := Setup.build calls
    let get := setup.runChain callbacks
      ⟨⟨request, HttpResponse.fresh, app⟩, []⟩
    let head := setup.runChain callbacks
      ⟨⟨request.asHead, HttpResponse.fresh, app⟩, []⟩
    let response := get.2.state.res.complete keepAlive
    (∀ target (req : HttpRequest J), req.method = ascii "GET" →
        setup.dispatch req.asHead target =
          ((setup.dispatch req target).1,
            (setup.dispatch req target).2.asHead)) ∧
      head.1 = get.1 ∧ head.2.trace = get.2.trace ∧
      get.2.state.Mirrors head.2.state ∧
      ∀ front back,
        (handleRequest setup callbacks memory request keepAlive shouldClose
            app).reply = .ok (front, back) →
        (∃ text, response.bodySection = .ok text ∧
          front ++ back = response.headSection memory ++ text) ∧
        (handleRequest setup callbacks memory request.asHead keepAlive
            shouldClose app).reply =
          .ok (response.headSection memory, []) := by
  intro setup get head response
  obtain ⟨outcome, trace, mirrors⟩ :=
    runChain_mirrors noHead same
      (⟨method, rfl⟩ : Exchange.Mirrors
        ⟨request, HttpResponse.fresh, app⟩
        ⟨request.asHead, HttpResponse.fresh, app⟩)
      answers
  refine ⟨?_, outcome, trace, mirrors, ?_⟩
  · intro target req own
    cases target with
    | server => exact server_mirrorsGet J noHead req own
    | router id => exact router_mirrorsGet J noHead id req own
  · intro front back replied
    cases ran : get with
    | mk ended traced =>
    cases ran' : head with
    | mk ended' traced' =>
    change head.1 = get.1 at outcome
    change get.2.state.Mirrors head.2.state at mirrors
    rw [ran, ran'] at outcome mirrors
    obtain rfl : ended' = ended := outcome
    cases ended' with
    | threw exception =>
        rw [handleRequest,
          show setup.runChain callbacks _ = _ from ran] at replied
        cases replied
    | returned =>
        have final : response = traced.state.res.complete keepAlive := by
          rw [show response = get.2.state.res.complete keepAlive from rfl,
            ran]
        have isGet : traced.state.req.method ≠ ascii "HEAD" := by
          rw [mirrors.method]
          decide
        rw [handleRequest_reply ran, decide_eq_true isGet, ← final]
          at replied
        constructor
        · cases written :
              response.serialize memory kCoalesceBelow true with
          | error what =>
              rw [written] at replied
              cases replied
          | ok parts =>
              rw [written] at replied
              obtain rfl : parts = (front, back) :=
                Except.ok.inj replied
              obtain ⟨text, own, -, cut⟩ :=
                HttpResponse.serialize_sections written
              exact ⟨text, by simpa using own, cut⟩
        · have isHead : ¬ traced'.state.req.method ≠ ascii "HEAD" := by
            rw [mirrors.same]
            exact not_not.mpr rfl
          have sameRes : traced'.state.res = traced.state.res := by
            rw [mirrors.same]
            rfl
          rw [handleRequest_reply ran', decide_eq_false isHead, sameRes,
            ← final]
          rfl

/-- A handler that sends a text under either method. -/
theorem helloCallbacks_sameForHead : helloCallbacks.SameForHead := by
  constructor
  · intro label
    exact .done
  · rintro label get _ ⟨method, rfl⟩
    exact ⟨rfl, method, rfl⟩

theorem head_mirrors_get_hello :
    (handleRequest helloSetup helloCallbacks 0
        (Exchange.arriving (ascii "GET") (ascii "/")).req.asHead true false
        ()).reply =
      .ok
        (((helloSetup.runChain helloCallbacks
            ⟨⟨(Exchange.arriving (ascii "GET") (ascii "/")).req,
              HttpResponse.fresh, ()⟩, []⟩).2.state.res.complete
                true).headSection 0, []) := by
  have answers :
      helloSetup.Answers helloCallbacks
        ⟨(Exchange.arriving (ascii "GET") (ascii "/")).req,
          HttpResponse.fresh, ()⟩ := by
    intro fallback
    have found :
        (helloSetup.server.getHandler
          (Exchange.arriving (ascii "GET") (ascii "/")).req).1 =
            some 0 := by
      decide +kernel
    show runRouteElse _ _ _ _ = runRoute _ _ _
    simp only [runRouteElse, runRoute]
    cases hit :
        helloSetup.server.getHandler
          (Exchange.arriving (ascii "GET") (ascii "/")).req with
    | mk handler req =>
        rw [hit] at found
        obtain rfl : handler = some 0 := found
        rfl
  have mirrored :=
    head_mirrors_get
      (by
        intro target path present member
        cases List.mem_singleton.mp member :
          NoHead [.route .server .GET (ascii "/") true])
      helloCallbacks_sameForHead rfl () answers 0 true false
  have replied :
      (handleRequest helloSetup helloCallbacks 0
        (Exchange.arriving (ascii "GET") (ascii "/")).req true false
        ()).reply.toOption.isSome := by
    decide +kernel
  cases reply :
      (handleRequest helloSetup helloCallbacks 0
        (Exchange.arriving (ascii "GET") (ascii "/")).req true false
        ()).reply with
  | error exception =>
      rw [reply] at replied
      cases replied
  | ok parts =>
      rcases mirrored with ⟨-, -, -, -, written⟩
      exact (written parts.1 parts.2 reply).2

end PlusWeb
