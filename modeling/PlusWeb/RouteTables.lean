import PlusWeb.Routing

/-!
# What a setup program registers

The routes a setup program registers on one object, in order, and the table
they amount to.  An empty handler takes a route away again, and a path ends
at its first NUL.

The key of a route begins with its method and a colon, so the table splits at
its first segment: the routes that can answer a request are those with its
method, and they are compared with the rest of its path.
-/

namespace PlusWeb

open ListSearch WildcardTable

variable {κ β J : Type}

/-! ## Keys -/

/--
What the program registers as a method, and what llhttp reports as
one.
-/
structure MethodToken (method : StdString) : Prop where
  nonempty : method ≠ []
  noSlash : slash ∉ method
  noColon : colon ∉ method
  noNul : (0 : UInt8) ∉ method

theorem Verb.methods_token
    {verb : Verb} {method : StdString} (member : method ∈ verb.methods) :
    MethodToken method := by
  have all : ∀ verb : Verb, ∀ method ∈ verb.methods,
      method ≠ [] ∧ slash ∉ method ∧ colon ∉ method ∧
        (0 : UInt8) ∉ method := by
    intro verb
    cases verb <;> decide
  rcases all verb method member with ⟨nonempty, noSlash, noColon, noNul⟩
  exact ⟨nonempty, noSlash, noColon, noNul⟩

/--
The first segment of a key: the method, a colon, and what the path has
before its first slash.
-/
def headSegment (method path : StdString) : StdString :=
  method ++ ascii ":" ++ before slash (StdString.cStr path)

/-- The segments of a path behind its first slash. -/
def tailSegments (path : StdString) : List StdString :=
  Utils.pieces slash (after slash (StdString.cStr path))

/-- The pieces of a text, from its first separator on. -/
theorem pieces_eq (separator : UInt8) (text : StdString) :
    Utils.pieces separator text =
      (if before separator text ≠ [] then [before separator text]
        else []) ++
        Utils.pieces separator (after separator text) := by
  by_cases member : separator ∈ text
  · conv_lhs => rw [eq_before_cons_after member]
    rw [Utils.pieces_append_cons,
      Utils.pieces_of_notMem notMem_before]
  · rw [before_of_notMem member, after_of_notMem member,
      Utils.pieces_of_notMem member, Utils.pieces_nil, List.append_nil]

/-- The segments of a key. -/
theorem split_method_path
    {method : StdString} (token : MethodToken method) (path : StdString) :
    Utils.split (method ++ ascii ":" ++ path) (ascii "/") =
      headSegment method path :: tailSegments path := by
  have noNul : (0 : UInt8) ∉ method ++ ascii ":" := by
    simp [token.noNul, ascii]
  have noSlash : slash ∉ method ++ ascii ":" := by
    have other : slash ≠ colon := by decide
    simpa [token.noSlash, ascii] using other
  rw [split_slash, StdString.cStr_append noNul, pieces_eq, before_append noSlash,
    after_append noSlash, if_pos (by simp [token.nonempty])]
  rfl

/-- The segments of a path. -/
theorem split_path (path : StdString) :
    Utils.split path (ascii "/") =
      (if before slash (StdString.cStr path) ≠ [] then
          [before slash (StdString.cStr path)]
        else []) ++
        tailSegments path := by
  rw [split_slash, pieces_eq]
  rfl

theorem before_of_origin
    {path : StdString} (origin : path.head? = some slash) :
    before slash (StdString.cStr path) = [] := by
  cases path with
  | nil => simp at origin
  | cons head tail =>
      obtain rfl : head = slash := by simpa using origin
      rfl

theorem headSegment_of_origin
    (method : StdString) {path : StdString}
    (origin : path.head? = some slash) :
    headSegment method path = method ++ ascii ":" := by
  rw [headSegment, before_of_origin origin, List.append_nil]

theorem tailSegments_of_origin
    {path : StdString} (origin : path.head? = some slash) :
    tailSegments path = Utils.split path (ascii "/") := by
  rw [split_path, before_of_origin origin]
  rfl

theorem headSegment_inj
    {method method' path path' : StdString}
    (token : MethodToken method) (token' : MethodToken method')
    (same : headSegment method path = headSegment method' path') :
    method = method' ∧
      before slash (StdString.cStr path) =
        before slash (StdString.cStr path') := by
  have letter : ascii ":" = [colon] := by decide
  simp only [headSegment, letter, List.append_assoc,
    List.singleton_append] at same
  constructor
  · have front := congrArg (before colon) same
    rwa [before_append_cons token.noColon,
      before_append_cons token'.noColon] at front
  · have back := congrArg (after colon) same
    rwa [after_append_cons token.noColon,
      after_append_cons token'.noColon] at back

theorem segmentOf_headSegment
    {method : StdString} (token : MethodToken method) (path : StdString) :
    segmentOf (headSegment method path) =
      .literal (headSegment method path) := by
  cases method with
  | nil => exact absurd rfl token.nonempty
  | cons first method =>
      have notColon : first ≠ colon := fun same =>
        token.noColon (by simp [same])
      simp [segmentOf, headSegment, notColon]

theorem mem_tailSegments
    {path segment : StdString} (member : segment ∈ tailSegments path) :
    segment ≠ [] ∧ slash ∉ segment ∧ (0 : UInt8) ∉ segment := by
  rcases Utils.mem_pieces member with ⟨nonempty, noSlash⟩
  refine ⟨nonempty, noSlash, fun inside => ?_⟩
  have rest := Utils.mem_of_mem_pieces member inside
  exact
    StdString.zero_notMem_cStr path
      ((List.dropWhile_suffix _).subset (List.mem_of_mem_drop rest))

theorem mem_path_of_mem_tailSegments
    {path segment : StdString} (member : segment ∈ tailSegments path)
    {byte : UInt8} (inside : byte ∈ segment) :
    byte ∈ path := by
  have rest := Utils.mem_of_mem_pieces member inside
  exact
    (List.takeWhile_prefix _).subset
      ((List.dropWhile_suffix _).subset (List.mem_of_mem_drop rest))

/-! ## Lists of registrations -/

/-- `Trie::insert` for one registration after another. -/
def Trie.registerAll
    (trie : Trie β) (registrations : List (Registration (Option β))) :
    Trie β :=
  registrations.foldl
    (fun trie registration =>
      trie.insert
        (registration.method ++ ascii ":" ++ registration.path)
        registration.handler)
    trie

/-- The registrations as insertions into a table. -/
def insertions (registrations : List (Registration (Option β))) :
    List (Pattern StdString StdString × Option β) :=
  registrations.map fun registration =>
    (patternOf
      (Utils.split
        (registration.method ++ ascii ":" ++ registration.path)
        (ascii "/")),
      registration.handler)

theorem insertions_cons
    (registration : Registration (Option β))
    (registrations : List (Registration (Option β))) :
    insertions (registration :: registrations) =
      (patternOf
        (Utils.split
          (registration.method ++ ascii ":" ++ registration.path)
          (ascii "/")),
        registration.handler) :: insertions registrations := rfl

theorem registerAll_table
    (trie : Trie β) (registrations : List (Registration (Option β))) :
    (trie.registerAll registrations).root.table =
      trie.root.table.insertLog (insertions registrations) := by
  induction registrations generalizing trie with
  | nil => rfl
  | cons registration registrations induction =>
      have inserted :=
        RouteRegistry.register_table_split (κ := Unit) ⟨[], trie⟩
          registration.method registration.path registration.handler
      show ((trie.insert _ _).registerAll registrations).root.table = _
      rw [induction, insertions_cons, Table.insertLog_cons, ← inserted]
      rfl

/-- The routes behind one first segment, with the patterns of the rest. -/
def routesAt
    (head : StdString) (registrations : List (Registration (Option β))) :
    List (Pattern StdString StdString × Option β) :=
  (registrations.filter fun registration =>
      headSegment registration.method registration.path = head).map
    fun registration =>
      (patternOf (tailSegments registration.path), registration.handler)

/-- The table of these routes. -/
def routeTable
    (head : StdString) (registrations : List (Registration (Option β))) :
    Table StdString StdString β :=
  Table.empty.insertLog (routesAt head registrations)

theorem logUnder_insertions
    {registrations : List (Registration (Option β))}
    (tokens : ∀ registration ∈ registrations,
      MethodToken registration.method)
    (head : StdString) :
    Table.logUnder (.literal head) (insertions registrations) =
        routesAt head registrations ∧
      Table.logUnder .wild (insertions registrations) = [] := by
  induction registrations with
  | nil => exact ⟨rfl, rfl⟩
  | cons registration registrations induction =>
      have token := tokens registration (List.mem_cons_self ..)
      obtain ⟨literal, wild⟩ := induction fun later member =>
        tokens later (List.mem_cons_of_mem _ member)
      rw [insertions_cons, split_method_path token, patternOf_cons,
        segmentOf_headSegment token, Table.logUnder_cons_cons,
        Table.logUnder_cons_cons, literal, wild]
      constructor
      · by_cases own :
            headSegment registration.method registration.path = head
        · simp [routesAt, Segment.slot, own]
        · simp [routesAt, Segment.slot, own]
      · simp [Segment.slot]

/--
The search of a registry is the search of the routes behind the first
segment of the key.
-/
theorem lookup_insertions
    {registrations : List (Registration (Option β))}
    (tokens : ∀ registration ∈ registrations,
      MethodToken registration.method)
    (head : StdString) (rest : List StdString) :
    (Table.empty.insertLog (insertions registrations)).lookup
        (head :: rest) =
      ((routeTable head registrations).lookup rest).map fun hit =>
        (.literal head :: hit.1, hit.2) := by
  rcases logUnder_insertions tokens head with ⟨literal, wild⟩
  rw [Table.lookup_of_literal_only, Table.under_insertLog, literal]
  · rfl
  · rw [Table.under_insertLog, wild]
    rfl

theorem bindings_insertions
    {registrations : List (Registration (Option β))}
    (tokens : ∀ registration ∈ registrations,
      MethodToken registration.method)
    (head : StdString) (shape : Shape StdString)
    (rest : List StdString) :
    (Table.empty.insertLog (insertions registrations)).bindings
        (.literal head :: shape) (head :: rest) =
      (routeTable head registrations).bindings shape rest := by
  rw [Table.bindings_literal, Table.under_insertLog,
    (logUnder_insertions tokens head).1]
  rfl

/--
What a registry answers, from the routes behind the first segment of the
key.
-/
def answer
    (registrations : List (Registration (Option β)))
    (req : HttpRequest J) : Option β × HttpRequest J :=
  let table := routeTable (headSegment req.method req.path) registrations
  let segments := tailSegments req.path
  match table.lookup segments with
  | some (shape, handler) =>
      (some handler,
        { req with
          params := StdMap.insertAll ∅ (table.bindings shape segments) })
  | none => (none, req)

/-- Dispatch of a registry that holds these registrations. -/
theorem getHandler_registerAll
    {registry : RouteRegistry κ β}
    {registrations : List (Registration (Option β))}
    (holds : registry.trie = Trie.new.registerAll registrations)
    (tokens : ∀ registration ∈ registrations,
      MethodToken registration.method)
    {req : HttpRequest J} (token : MethodToken req.method) :
    registry.getHandler req = answer registrations req := by
  have table :
      registry.trie.root.table =
        Table.empty.insertLog (insertions registrations) := by
    rw [holds, registerAll_table]
    exact congrArg (Table.insertLog · _) Node.table_default
  rw [getHandler_eq registry req (split_method_path token req.path), table,
    lookup_insertions tokens, answer]
  cases (routeTable (headSegment req.method req.path)
      registrations).lookup (tailSegments req.path) with
  | none => rfl
  | some hit =>
      simp only [Option.map_some, bindings_insertions tokens]
      rfl

/-- A hit is a registered route whose pattern matches. -/
theorem matches_of_lookup
    {head : StdString} {registrations : List (Registration (Option β))}
    {segments : List StdString} {shape : Shape StdString} {handler : β}
    (found :
      (routeTable head registrations).lookup segments =
        some (shape, handler)) :
    ∃ registration ∈ registrations,
      registration.handler = some handler ∧
        headSegment registration.method registration.path = head ∧
        shapeOf (tailSegments registration.path) = shape ∧
        KeyMatches (tailSegments registration.path) segments := by
  rcases Table.lookup_sound found with ⟨matching, held⟩
  rcases Table.value_insertLog held with ⟨pattern, member, same⟩ | nothing
  · rcases List.mem_map.mp member with ⟨registration, own, entry⟩
    rcases List.mem_filter.mp own with ⟨inside, isHead⟩
    rcases Prod.mk.inj entry with ⟨rfl, value⟩
    refine
      ⟨registration, inside, value, by simpa using isHead, same, ?_⟩
    rw [keyMatches_iff, shapeOf, same]
    exact matching
  · cases nothing

/-! ## Setup programs -/

/-- What one call registers on an object. -/
def SetupCall.registers (target : Target) (label : Nat) :
    SetupCall → List (Registration (Option Nat))
  | .route on verb path present =>
      if on = target then
        verb.methods.map fun method =>
          ⟨method, path, if present then some label else none⟩
      else []
  | _ => []

/-- What a program registers on an object. -/
def registrationsOn (target : Target) (calls : List SetupCall) :
    List (Registration (Option Nat)) :=
  calls.zipIdx.flatMap fun call => call.1.registers target call.2

/-- The trie of the server or of a router. -/
def Setup.trie (setup : Setup) : Target → Trie Nat
  | .server => setup.server.trie
  | .router id => (setup.routers id).registry.trie

theorem RouteRegistry.route_trie
    (registry : RouteRegistry κ Nat) (verb : Verb) (path : StdString)
    (handler : Option Nat) :
    (registry.route verb path handler).trie =
      registry.trie.registerAll
        (verb.methods.map fun method => ⟨method, path, handler⟩) := by
  rw [RouteRegistry.route, Trie.registerAll]
  induction verb.methods generalizing registry with
  | nil => rfl
  | cons method methods induction =>
      rw [List.foldl_cons, List.map_cons, List.foldl_cons, induction]
      rfl

theorem Setup.apply_trie
    (setup : Setup) (label : Nat) (call : SetupCall) (target : Target) :
    (setup.apply label call).trie target =
      (setup.trie target).registerAll (call.registers target label) := by
  cases call with
  | use on =>
      cases on <;> cases target <;>
        simp [apply, trie, SetupCall.registers, Trie.registerAll,
          RouteRegistry.registerMiddleWare]
      split_ifs <;> rfl
  | useAt on path =>
      cases on <;> cases target <;>
        simp [apply, trie, SetupCall.registers, Trie.registerAll,
          RouteRegistry.registerMiddleWare]
      split_ifs <;> rfl
  | mount on path id =>
      cases on <;> cases target <;>
        simp [apply, trie, SetupCall.registers, Trie.registerAll,
          RouteRegistry.registerMiddleWare]
      split_ifs <;> rfl
  | route on verb path present =>
      cases on with
      | server =>
          cases target with
          | server => simp [apply, trie, SetupCall.registers,
              RouteRegistry.route_trie]
          | router id => rfl
      | router on =>
          cases target with
          | server => rfl
          | router id =>
              by_cases own : on = id
              · simp [apply, trie, SetupCall.registers, own,
                  RouteRegistry.route_trie]
              · simp [apply, trie, SetupCall.registers, own,
                  Trie.registerAll]

/-- A run of calls registers what its calls register, in order. -/
theorem Setup.foldl_apply_trie
    (setup : Setup) (calls : List (SetupCall × Nat)) (target : Target) :
    (calls.foldl (fun setup call => setup.apply call.2 call.1)
        setup).trie target =
      (setup.trie target).registerAll
        (calls.flatMap fun call => call.1.registers target call.2) := by
  induction calls generalizing setup with
  | nil => rfl
  | cons call calls induction =>
      rw [List.foldl_cons, induction, apply_trie, List.flatMap_cons,
        Trie.registerAll, Trie.registerAll, Trie.registerAll,
        List.foldl_append]

/-- The trie of an object holds what the program registers on it. -/
theorem Setup.build_trie (calls : List SetupCall) (target : Target) :
    (build calls).trie target =
      Trie.new.registerAll (registrationsOn target calls) := by
  rw [build, foldl_apply_trie]
  cases target <;> rfl

/-- The table of an object. -/
theorem Setup.build_table (calls : List SetupCall) (target : Target) :
    ((build calls).trie target).root.table =
      Table.empty.insertLog (insertions (registrationsOn target calls)) := by
  rw [build_trie, registerAll_table]
  exact congrArg (Table.insertLog · _) Node.table_default

theorem registrationsOn_token
    {target : Target} {calls : List SetupCall}
    {registration : Registration (Option Nat)}
    (member : registration ∈ registrationsOn target calls) :
    MethodToken registration.method := by
  rcases List.mem_flatMap.mp member with ⟨⟨call, label⟩, -, inside⟩
  cases call with
  | route on verb path present =>
      simp only [SetupCall.registers] at inside
      split at inside
      · rcases List.mem_map.mp inside with ⟨method, own, rfl⟩
        exact Verb.methods_token own
      · cases inside
  | use on => cases inside
  | useAt on path => cases inside
  | mount on path id => cases inside

/-- A handler on an object is the number of the call that registered it. -/
theorem mem_registrationsOn
    {target : Target} {calls : List SetupCall}
    {registration : Registration (Option Nat)} {label : Nat}
    (member : registration ∈ registrationsOn target calls)
    (handler : registration.handler = some label) :
    ∃ verb,
      calls[label]? = some (.route target verb registration.path true) ∧
        registration.method ∈ verb.methods := by
  rcases List.mem_flatMap.mp member with ⟨⟨call, position⟩, at_, inside⟩
  have placed : calls[position]? = some call :=
    List.mk_mem_zipIdx_iff_getElem?.mp at_
  cases call with
  | route on verb path present =>
      simp only [SetupCall.registers] at inside
      split at inside
      · next same =>
        rcases List.mem_map.mp inside with ⟨method, own, rfl⟩
        cases present with
        | false => cases handler
        | true =>
            obtain rfl : position = label := by simpa using handler
            subst same
            exact ⟨verb, placed, own⟩
      · cases inside
  | use on => cases inside
  | useAt on path => cases inside
  | mount on path id => cases inside

/-- Dispatch on the server. -/
theorem server_getHandler
    (calls : List SetupCall) {req : HttpRequest J}
    (token : MethodToken req.method) :
    (Setup.build calls).server.getHandler req =
      answer (registrationsOn .server calls) req :=
  getHandler_registerAll (Setup.build_trie calls .server)
    (fun _ => registrationsOn_token) token

/-- Dispatch on a router. -/
theorem router_getHandler
    (calls : List SetupCall) (id : Nat) {req : HttpRequest J}
    (token : MethodToken req.method) :
    ((Setup.build calls).routers id).registry.getHandler req =
      answer (registrationsOn (.router id) calls) req :=
  getHandler_registerAll (Setup.build_trie calls (.router id))
    (fun _ => registrationsOn_token) token

end PlusWeb
