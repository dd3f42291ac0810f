import PlusWeb.RoutingTrace

/-!
# A mounted router against prefixed registration

`HttpServer::use(path, router)` strips the mount point from the request path
byte by byte and lets the router match the rest segment by segment.  The same
routes can be registered on one flat registry with the mount point written in
front of each.  Where the mount point has no parameter, the two agree: its
segments are literals in front of every pattern, and a request is under the
mount point exactly if its path continues at a segment boundary.
-/

namespace PlusWeb

open ListSearch WildcardTable

variable {J A κ β : Type}

/-! ## Prefixed registration -/

/-- The registration with a mount point in front of its path. -/
def Registration.mountedAt
    (normalizedPath : StdString) (registration : Registration β) :
    Registration β :=
  { registration with
    path :=
      if normalizedPath = ascii "/" then registration.path
      else normalizedPath ++ registration.path }

/-- `RouteRegistry::Register` for one registration after another. -/
def RouteRegistry.registerEach
    (registry : RouteRegistry κ β)
    (registrations : List (Registration (Option β))) :
    RouteRegistry κ β :=
  registrations.foldl
    (fun registry registration =>
      registry.register registration.method registration.path
        registration.handler)
    registry

theorem RouteRegistry.registerEach_trie
    (registry : RouteRegistry κ β)
    (registrations : List (Registration (Option β))) :
    (registry.registerEach registrations).trie =
      registry.trie.registerAll registrations := by
  induction registrations generalizing registry with
  | nil => rfl
  | cons registration registrations induction => exact induction _

/-- The path a mounted router sees. -/
def mountedPath (normalizedPath path : StdString) : StdString :=
  if normalizedPath = ascii "/" then path
  else relativePath normalizedPath path

/-! ## Paths under a mount point -/

theorem normalizePath_origin (path : StdString) :
    (normalizePath path).head? = some slash := by
  have rooted :
      (if path.head? ≠ some slash then ascii "/" ++ path
        else path).head? = some slash := by
    split
    · simp [ascii_slash]
    · next own => exact not_not.mp own
  simp only [normalizePath]
  generalize
    (if path.head? ≠ some slash then ascii "/" ++ path else path) =
      normalized at rooted ⊢
  split
  · simp [ascii_slash]
  · split
    · next long =>
      rw [List.head?_dropLast, if_pos long.1]
      exact rooted
    · exact rooted

theorem relativePath_origin (normalizedPath path : StdString) :
    (relativePath normalizedPath path).head? = some slash := by
  simp only [relativePath]
  split
  · simp [ascii_slash]
  · next rooted => exact not_not.mp (not_or.mp rooted).2

/-- The segments of a path that goes on at a slash. -/
theorem tailSegments_append
    {front rest : StdString} (free : (0 : UInt8) ∉ front)
    (frontOrigin : front.head? = some slash)
    (restOrigin : rest.head? = some slash) :
    tailSegments (front ++ rest) =
      Utils.pieces slash front ++ tailSegments rest := by
  have origin : (front ++ rest).head? = some slash := by
    cases front with
    | nil => simp at frontOrigin
    | cons head front => exact frontOrigin
  cases rest with
  | nil => simp at restOrigin
  | cons head rest =>
      obtain rfl : head = slash := by simpa using restOrigin
      have cut :
          StdString.cStr (slash :: rest) = slash :: StdString.cStr rest := by
        simp [StdString.cStr, slash]
      rw [tailSegments_of_origin origin, split_slash,
        StdString.cStr_append free, cut, Utils.pieces_append_cons,
        tailSegments, cut]
      rfl

theorem relativePath_append (normalizedPath rest : StdString) :
    relativePath normalizedPath (normalizedPath ++ rest) =
      if rest = [] ∨ rest.head? ≠ some slash then ascii "/" ++ rest
      else rest := by
  simp [relativePath, StdString.substr]

/-- Under a proper mount point a path goes on at a segment boundary. -/
theorem underMount_iff
    {normalizedPath : StdString} (proper : normalizedPath ≠ ascii "/")
    (path : StdString) :
    underMount normalizedPath path = true ↔
      ∃ rest, path = normalizedPath ++ rest ∧
        (rest = [] ∨ rest.head? = some slash) := by
  have next (rest : StdString) :
      (normalizedPath ++ rest)[normalizedPath.length]? = rest.head? := by
    rw [List.getElem?_append_right le_rfl, Nat.sub_self,
      List.head?_eq_getElem?]
  simp only [underMount, proper, false_or, decide_eq_true_eq,
    StdString.startsWith_iff]
  constructor
  · rintro ⟨⟨rest, rfl⟩, boundary⟩
    rw [next] at boundary
    exact ⟨rest, rfl, by simpa using boundary⟩
  · rintro ⟨rest, rfl, boundary⟩
    rw [next]
    exact ⟨List.prefix_append _ _, by simpa using boundary⟩

/-- A path under a mount point is the mount point and the path below. -/
theorem tailSegments_underMount
    {normalizedPath path : StdString}
    (proper : normalizedPath ≠ ascii "/")
    (origin : normalizedPath.head? = some slash)
    (free : (0 : UInt8) ∉ path)
    (under : underMount normalizedPath path = true) :
    path.head? = some slash ∧
      (0 : UInt8) ∉ normalizedPath ∧
      tailSegments path =
        Utils.pieces slash normalizedPath ++
          tailSegments (relativePath normalizedPath path) := by
  rcases (underMount_iff proper path).mp under with ⟨rest, rfl, boundary⟩
  have freeFront : (0 : UInt8) ∉ normalizedPath := fun inside =>
    free (List.mem_append_left _ inside)
  have pathOrigin : (normalizedPath ++ rest).head? = some slash := by
    rw [List.head?_append, origin]
    rfl
  refine ⟨pathOrigin, freeFront, ?_⟩
  rw [relativePath_append]
  rcases boundary with empty | go
  · have root : tailSegments [slash] = [] := by decide
    rw [empty, if_pos (Or.inl rfl), List.append_nil, ascii_slash, List.append_nil,
      root, List.append_nil, tailSegments_of_origin origin, split_slash,
      StdString.cStr_eq_self freeFront]
  · rw [if_neg, tailSegments_append freeFront origin go]
    rintro (empty | other)
    · simp [empty] at go
    · exact other go

/-! ## The flat registry -/

section Flat

variable {normalizedPath : StdString}

theorem patternOf_append (front rest : List StdString) :
    patternOf (front ++ rest) = patternOf front ++ patternOf rest :=
  List.map_append

theorem patternOf_literals
    {segments : List StdString}
    (literals : ∀ segment ∈ segments, segment.head? ≠ some colon) :
    patternOf segments = segments.map .literal := by
  apply List.map_congr_left
  intro segment member
  exact if_neg (literals segment member)

/--
The routes of the flat registry are those of the router with the
segments of the mount point in front.
-/
theorem routesAt_mountedAt
    (proper : normalizedPath ≠ ascii "/")
    (origin : normalizedPath.head? = some slash)
    (free : (0 : UInt8) ∉ normalizedPath)
    (literals : ∀ segment ∈ Utils.pieces slash normalizedPath,
      segment.head? ≠ some colon)
    {registrations : List (Registration (Option β))}
    (origins : ∀ registration ∈ registrations,
      registration.path.head? = some slash)
    (head : StdString) :
    routesAt head
        (registrations.map (Registration.mountedAt normalizedPath)) =
      Table.graft (Utils.pieces slash normalizedPath)
        (routesAt head registrations) := by
  induction registrations with
  | nil => rfl
  | cons registration registrations induction =>
      have own := origins registration (List.mem_cons_self ..)
      have later := induction fun other member =>
        origins other (List.mem_cons_of_mem _ member)
      have moved :
          (registration.mountedAt normalizedPath).path =
            normalizedPath ++ registration.path := if_neg proper
      have movedOrigin :
          (normalizedPath ++ registration.path).head? = some slash := by
        rw [List.head?_append, origin]
        rfl
      have sameHead :
          headSegment (registration.mountedAt normalizedPath).method
              (registration.mountedAt normalizedPath).path =
            headSegment registration.method registration.path := by
        rw [moved, headSegment_of_origin _ movedOrigin,
          headSegment_of_origin _ own]
        rfl
      have tail :
          patternOf
              (tailSegments (registration.mountedAt normalizedPath).path) =
            (Utils.pieces slash normalizedPath).map .literal ++
              patternOf (tailSegments registration.path) := by
        rw [moved, tailSegments_append free origin own, patternOf_append,
          patternOf_literals literals]
      simp only [routesAt, List.map_cons, List.filter_cons, sameHead]
        at later ⊢
      by_cases here :
          headSegment registration.method registration.path = head
      · simp only [here, decide_true, if_true, List.map_cons, later, tail]
        rfl
      · simpa only [here, decide_false, Bool.false_eq_true, if_false]
          using later

/-- The flat registry answers as the router does below the mount point. -/
theorem answer_mountedAt
    (origin : normalizedPath.head? = some slash)
    (literals : ∀ segment ∈ Utils.pieces slash normalizedPath,
      segment.head? ≠ some colon)
    {registrations : List (Registration (Option β))}
    (origins : ∀ registration ∈ registrations,
      registration.path.head? = some slash)
    {req : HttpRequest J} (free : (0 : UInt8) ∉ req.path)
    (under : underMount normalizedPath req.path = true) :
    let below := mountedPath normalizedPath req.path
    let flat :=
      answer
        (registrations.map (Registration.mountedAt normalizedPath)) req
    answer registrations { req with path := below } =
      (flat.1, { flat.2 with path := below }) := by
  intro below flat
  by_cases root : normalizedPath = ascii "/"
  · have same :
        registrations.map (Registration.mountedAt normalizedPath) =
          registrations := by
      apply List.map_id''
      intro registration
      simp [Registration.mountedAt, root]
    have here : below = req.path := if_pos root
    simp only [flat, same, here, answer]
    cases (routeTable (headSegment req.method req.path)
        registrations).lookup (tailSegments req.path) <;> rfl
  · have here : below = relativePath normalizedPath req.path := if_neg root
    obtain ⟨pathOrigin, freeFront, cut⟩ :=
      tailSegments_underMount root origin free under
    have table :
        routeTable (headSegment req.method req.path)
            (registrations.map
              (Registration.mountedAt normalizedPath)) =
          Table.empty.insertLog
            (Table.graft (Utils.pieces slash normalizedPath)
              (routesAt (headSegment req.method req.path)
                registrations)) := by
      rw [routeTable,
        routesAt_mountedAt root origin freeFront literals origins]
    have head :
        headSegment req.method below = headSegment req.method req.path := by
      rw [here, headSegment_of_origin _ (relativePath_origin _ _),
        headSegment_of_origin _ pathOrigin]
    simp only [flat, answer, table, cut, Table.lookup_graft, head]
    rw [← here]
    simp only [routeTable]
    cases (Table.empty.insertLog
        (routesAt (headSegment req.method req.path)
          registrations)).lookup (tailSegments below) with
    | none => rfl
    | some hit =>
        simp only [Option.map_some, Table.bindings_graft]

end Flat

/-! ## The simulation -/

/-- A router that is only given routes has no middleware. -/
theorem Setup.queue_of_routes
    {calls : List SetupCall} {id : Nat}
    (routes : ∀ call ∈ calls, call.target = .router id →
      ∃ verb path present, call = .route (.router id) verb path present) :
    ((build calls).routers id).registry.queue = [] := by
  rw [List.eq_nil_iff_forall_not_mem]
  intro mw member
  rcases mem_routers_queue_iff.mp member with ⟨label, call, at_, element⟩
  have inside := List.mem_of_getElem? at_
  have own : call.target = .router id := by
    cases call with
    | use target => cases target <;> simp_all [routerElement, SetupCall.target]
    | useAt target path =>
        cases target <;> simp_all [routerElement, SetupCall.target]
    | route target verb path present => cases element
    | mount target path sub =>
        cases target <;> simp_all [routerElement, SetupCall.target]
  rcases routes call inside own with ⟨verb, path, present, rfl⟩
  cases element

/--
What the mount of a router without middleware does under its mount
point.
-/
theorem ServerMiddleware.call_mounted
    (callbacks : Callbacks J A) (routers : Routers) {id : Nat}
    {normalizedPath : StdString} {traced : Traced Event (Exchange J A)}
    (under : underMount normalizedPath traced.state.req.path = true)
    (next : Run J A) :
    (ServerMiddleware.mounted normalizedPath [.routeHandler id]).call
        callbacks routers next traced =
      match (routers id).registry.getHandler
          { traced.state.req with
            path := mountedPath normalizedPath traced.state.req.path } with
      | (some label, req) =>
          callbacks.handle label (traced.update (Exchange.setReq req))
      | (none, req) =>
          next
            (traced.update
              (Exchange.setReq
                { req with path := traced.state.req.path })) := by
  simp only [call, under, if_true, executeMiddlewareChain,
    RouterMiddleware.call, RouteRegistry.handleRequest]
  cases found :
      (routers id).registry.getHandler
        { traced.state.req with
          path := mountedPath normalizedPath traced.state.req.path } with
  | mk handler req =>
      have inside :
          (routers id).registry.getHandler
            (traced.update
              (Exchange.setPath
                (if normalizedPath = ascii "/" then traced.state.req.path
                else relativePath normalizedPath
                  traced.state.req.path))).state.req =
            (handler, req) := found
      rw [inside]
      cases handler <;> rfl

/-- A registration on an object comes from a route call on it. -/
theorem route_of_mem_registrationsOn
    {target : Target} {calls : List SetupCall}
    {registration : Registration (Option Nat)}
    (member : registration ∈ registrationsOn target calls) :
    ∃ verb present,
      .route target verb registration.path present ∈ calls := by
  rcases List.mem_flatMap.mp member with ⟨⟨call, label⟩, at_, inside⟩
  cases call with
  | route on verb path present =>
      simp only [SetupCall.registers] at inside
      split at inside
      · next same =>
        rcases List.mem_map.mp inside with ⟨method, -, rfl⟩
        subst same
        exact ⟨verb, present, List.fst_mem_of_mem_zipIdx at_⟩
      · cases inside
  | use on => cases inside
  | useAt on path => cases inside
  | mount on path id => cases inside

/--
A mounted router simulates prefixed registration.

`before` and `after` are the calls of the program around the mount, so the
routes of the router may be registered on either side of it.  The middleware
that the mount installs does what the flat registry says: on a hit it calls
the handler of the hit with the same parameters and the path below the mount
point; on a miss, and off the mount point, it does nothing but call `next`
once, in the state it was called in.
-/
theorem mounted_router_simulates
    {before after : List SetupCall} {id : Nat} {path : StdString}
    (routes : ∀ call ∈ before ++ after, call.target = .router id →
      ∃ verb route present, route.head? = some slash ∧
        call = .route (.router id) verb route present)
    (literals : ∀ segment ∈ Utils.pieces slash (normalizePath path),
      segment.head? ≠ some colon)
    (callbacks : Callbacks J A) (next : Run J A)
    (traced : Traced Event (Exchange J A))
    (token : MethodToken traced.state.req.method)
    (free : (0 : UInt8) ∉ traced.state.req.path) :
    let mount := SetupCall.mount .server path id
    let setup := Setup.build (before ++ mount :: after)
    let installed : ServerMiddleware :=
      .mounted (normalizePath path)
        (((Setup.build before).routers id).getMiddlewares id)
    let flat : RouteRegistry ServerMiddleware Nat :=
      RouteRegistry.new.registerEach
        ((registrationsOn (.router id) (before ++ mount :: after)).map
          (Registration.mountedAt (normalizePath path)))
    (Setup.build (before ++ [mount])).server.queue =
        (Setup.build before).server.queue ++ [installed] ∧
      installed.call callbacks setup.routers next traced =
        if underMount (normalizePath path) traced.state.req.path then
          match flat.getHandler traced.state.req with
          | (some label, req) =>
              callbacks.handle label
                (traced.update
                  (Exchange.setReq
                    { req with
                      path :=
                        mountedPath (normalizePath path) req.path }))
          | (none, _) => next traced
        else next traced := by
  intro mount setup installed flat
  have bare :
      ((Setup.build before).routers id).getMiddlewares id =
        [.routeHandler id] := by
    rw [Router.getMiddlewares, Setup.queue_of_routes]
    · rfl
    · intro call member own
      obtain ⟨verb, route, present, -, rfl⟩ :=
        routes call (List.mem_append_left _ member) own
      exact ⟨verb, route, present, rfl⟩
  have origins : ∀ registration ∈
      registrationsOn (.router id) (before ++ mount :: after),
      registration.path.head? = some slash := by
    intro registration member
    rcases route_of_mem_registrationsOn member with ⟨verb, present, called⟩
    have outside :
        SetupCall.route (.router id) verb registration.path present ∈
          before ++ after := by
      simpa [mount] using called
    rcases routes _ outside rfl with ⟨_, _, _, origin, same⟩
    cases same
    exact origin
  refine ⟨?_, ?_⟩
  · rw [Setup.build_append_singleton]
    rfl
  · by_cases under :
        underMount (normalizePath path) traced.state.req.path = true
    · have tokens : ∀ registration ∈
          (registrationsOn (.router id) (before ++ mount :: after)).map
            (Registration.mountedAt (normalizePath path)),
          MethodToken registration.method := by
        intro registration member
        rcases List.mem_map.mp member with ⟨own, inside, rfl⟩
        have token : MethodToken own.method := registrationsOn_token inside
        exact token
      have flatAnswer :
          flat.getHandler traced.state.req = answer _ traced.state.req :=
        getHandler_registerAll (RouteRegistry.registerEach_trie _ _) tokens
          token
      have below :=
        answer_mountedAt (normalizePath_origin path) literals origins free
          under
      have routed :=
        @router_getHandler J (before ++ mount :: after) id
          { traced.state.req with
            path := mountedPath (normalizePath path) traced.state.req.path }
          token
      rw [below, ← flatAnswer] at routed
      have kept := RouteRegistry.getHandler_path flat traced.state.req
      rw [if_pos under]
      show
        (ServerMiddleware.mounted _
          (((Setup.build before).routers id).getMiddlewares id)).call
            _ setup.routers _ _ = _
      rw [bare, ServerMiddleware.call_mounted _ _ under, routed]
      cases found : flat.getHandler traced.state.req with
      | mk handler req =>
          rw [found] at kept
          change req.path = traced.state.req.path at kept
          cases handler with
          | some label => simp only [kept]
          | none =>
              have missed :=
                getHandler_of_miss (congrArg Prod.fst found)
              obtain rfl : traced.state.req = req :=
                (Prod.mk.inj (missed.symm.trans found)).2
              rfl
    · rw [if_neg under]
      exact if_neg under

/-- A router that gets its route after it is mounted. -/
def usersCalls : List SetupCall :=
  [.mount .server (ascii "api/") 0,
    .route (.router 0) .GET (ascii "/users/:id") true]

def quietCallbacks : Callbacks FlatJson Unit where
  middleware _ := Script.passThrough
  handler _ := Action.skip

theorem mounted_router_simulates_users :
    (ServerMiddleware.call quietCallbacks (Setup.build usersCalls).routers
        (.mounted (ascii "/api") [.routeHandler 0]) Action.skip
        ⟨Exchange.arriving (ascii "GET") (ascii "/api/users/7"),
          []⟩).2.trace = [.handled 1] := by
  have simulated :=
    @mounted_router_simulates FlatJson Unit []
      [.route (.router 0) .GET (ascii "/users/:id") true] 0 (ascii "api/")
      (by
        intro call member own
        obtain rfl := List.mem_singleton.mp member
        exact ⟨.GET, ascii "/users/:id", true, by decide, rfl⟩)
      (by decide) quietCallbacks Action.skip
      ⟨Exchange.arriving (ascii "GET") (ascii "/api/users/7"), []⟩
      (@Verb.methods_token .GET _ (by decide)) (by decide)
  have called := simulated.2
  rw [if_pos (by decide)] at called
  have hit :
      (RouteRegistry.getHandler
        ((RouteRegistry.new :
            RouteRegistry ServerMiddleware Nat).registerEach
          ((registrationsOn (.router 0) usersCalls).map
            (Registration.mountedAt (normalizePath (ascii "api/")))))
        (Exchange.arriving (ascii "GET") (ascii "/api/users/7")).req).1 =
        some 1 := by
    decide +kernel
  have point : normalizePath (ascii "api/") = ascii "/api" := by decide
  rw [point] at called hit
  refine (congrArg (·.2.trace) called).trans ?_
  split
  case h_1 label req found =>
    obtain rfl : label = 1 := by
      simpa using (congrArg Prod.fst found).symm.trans hit
    rfl
  case h_2 req found =>
    cases (congrArg Prod.fst found).symm.trans hit

end PlusWeb
