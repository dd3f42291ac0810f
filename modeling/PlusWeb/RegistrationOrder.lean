import PlusWeb.RouteRegistry

/-!
# What a registration changes, and the order of registrations

A further registration changes the answers to the requests that its route
matches and no preferred route does, and no others: neither the handler of
another request nor a parameter it is given.

If no two routes have the same shape and the parameters at one place have one
name, the order of the registrations does not matter.
-/

namespace PlusWeb

open WildcardTable

variable {κ β J : Type} {registrations registrations' : List (Registration β)}
  {registration : Registration β}

/-! ## One registration more -/

theorem entries_concat
    (registrations : List (Registration β)) (registration : Registration β) :
    entries (registrations ++ [registration]) =
      entries registrations ++
        [(patternOf registration.key, registration.handler)] :=
  List.map_append

/-- The table that dispatch refers to, after one registration more. -/
theorem referenceTable_concat
    (registrations : List (Registration β)) (registration : Registration β) :
    referenceTable (registrations ++ [registration]) =
      (referenceTable registrations).insert (patternOf registration.key)
        (some registration.handler) := by
  have before := Table.ofLog_eq (entries registrations)
  have after := Table.ofLog_eq (entries (registrations ++ [registration]))
  rw [entries_concat, Table.ofLog, List.foldl_append, ← Table.ofLog,
    before] at after
  rw [referenceTable, entries_concat]
  exact after.symm

/-- The wildcards of a registered shape have names. -/
theorem referenceTable_named
    {shape : Shape StdString}
    (held : ((referenceTable registrations).value shape).isSome)
    {position : Shape StdString} (inside : position ++ [.wild] <+: shape) :
    ((referenceTable registrations).name position).isSome := by
  obtain ⟨own, member, rfl⟩ := latest_entries_isSome_iff.mp held
  have given : (Pattern.nameBelow (patternOf own.key) position).isSome :=
    (Pattern.nameBelow_isSome_iff _ _).mpr inside
  change (Table.firstName (entries registrations) position).isSome
  rw [Option.isSome_iff_ne_none]
  intro missing
  have none :=
    List.findSome?_eq_none_iff.mp missing _ (List.mem_map_of_mem member)
  rw [none] at given
  cases given

/-- A registration leaves the parameters of the other routes alone. -/
theorem bindings_concat
    {shape : Shape StdString}
    (held : ((referenceTable registrations).value shape).isSome)
    (registration : Registration β) (segments : List StdString) :
    (referenceTable (registrations ++ [registration])).bindings shape
        segments =
      (referenceTable registrations).bindings shape segments := by
  apply Table.bindings_congr_of_prefix
  intro position inside
  have named := referenceTable_named held inside
  rw [referenceTable_concat]
  cases given : (referenceTable registrations).name position with
  | none =>
      rw [given] at named
      cases named
  | some name => simp only [Table.insert, given, Option.some_or]

section Dispatch

variable (free : ∀ registration ∈ registrations, registration.NulFree)
  {req : HttpRequest J} (methodFree : (0 : UInt8) ∉ req.method)
  (pathFree : (0 : UInt8) ∉ req.path)

include free methodFree pathFree

/-- Dispatch after any registrations, by the table they amount to. -/
theorem getHandler_registryOf :
    (registryOf registrations : RouteRegistry κ β).getHandler req =
      match
        (referenceTable registrations).lookup
          (keyOf req.method req.path) with
      | some (shape, handler) =>
          (some handler,
            { req with
              params :=
                referenceParams registrations shape
                  (keyOf req.method req.path) })
      | none => (none, req) := by
  rw [getHandler_eq _ req (split_key methodFree pathFree),
    registryOf_table free]
  rfl

/-- If the table finds the same, the answer is the same. -/
theorem getHandler_concat_of_lookup
    (own : registration.NulFree)
    (same :
      (referenceTable (registrations ++ [registration])).lookup
          (keyOf req.method req.path) =
        (referenceTable registrations).lookup
          (keyOf req.method req.path)) :
    (registryOf (registrations ++ [registration]) :
        RouteRegistry κ β).getHandler req =
      (registryOf registrations : RouteRegistry κ β).getHandler req := by
  have free' : ∀ other ∈ registrations ++ [registration], other.NulFree := by
    intro other member
    rcases List.mem_append.mp member with early | last
    · exact free other early
    · rwa [List.mem_singleton.mp last]
  rw [getHandler_registryOf free methodFree pathFree,
    getHandler_registryOf free' methodFree pathFree, same]
  cases found :
      (referenceTable registrations).lookup (keyOf req.method req.path) with
  | none => rfl
  | some hit =>
      have held := (Table.lookup_sound found).2
      have bound :=
        bindings_concat (by rw [held]; rfl) registration
          (keyOf req.method req.path)
      simp only [referenceParams, bound]

/--
What one registration more changes.

A request that the route does not match is answered as before, parameters
included, and so is one that a preferred route matches.  Any other is given
the new handler.
-/
theorem getHandler_concat (own : registration.NulFree) :
    let before : RouteRegistry κ β := registryOf registrations
    let after : RouteRegistry κ β :=
      registryOf (registrations ++ [registration])
    let segments := keyOf req.method req.path
    (¬ KeyMatches registration.key segments →
        after.getHandler req = before.getHandler req) ∧
      ((∃ other ∈ registrations, KeyMatches other.key segments ∧
          Prefers (shapeOf other.key) (shapeOf registration.key)) →
        after.getHandler req = before.getHandler req) ∧
      (KeyMatches registration.key segments →
        (¬ ∃ other ∈ registrations, KeyMatches other.key segments ∧
          Prefers (shapeOf other.key) (shapeOf registration.key)) →
        after.getHandler req =
          (some registration.handler,
            { req with
              params :=
                referenceParams (registrations ++ [registration])
                  (shapeOf registration.key) segments })) := by
  intro before after segments
  refine ⟨fun apart => ?_, ?_, fun matching best => ?_⟩
  · apply getHandler_concat_of_lookup free methodFree pathFree own
    rw [referenceTable_concat]
    apply Table.lookup_insert_of_not_matches
    exact mt (keyMatches_iff _ _).mpr apart
  · rintro ⟨other, member, matching, preferred⟩
    apply getHandler_concat_of_lookup free methodFree pathFree own
    rw [referenceTable_concat]
    exact
      Table.lookup_insert_of_prefers ((keyMatches_iff _ _).mp matching)
        (latest_entries_isSome_iff.mpr ⟨other, member, rfl⟩) preferred
  · have free' :
        ∀ other ∈ registrations ++ [registration], other.NulFree := by
      intro other member
      rcases List.mem_append.mp member with early | last
      · exact free other early
      · rwa [List.mem_singleton.mp last]
    have own_matches := (keyMatches_iff _ _).mp matching
    have found :
        (referenceTable (registrations ++ [registration])).lookup
            (keyOf req.method req.path) =
          some (shapeOf registration.key, registration.handler) := by
      rw [referenceTable_concat]
      refine Table.lookup_insert_of_matches own_matches ?_
      intro shape matching' held different
      obtain ⟨other, member, rfl⟩ := latest_entries_isSome_iff.mp held
      rcases eq_or_prefers_of_matches own_matches matching' with
        same | preferred | preferred
      · exact absurd same.symm different
      · exact preferred
      · exact
          absurd ⟨other, member, (keyMatches_iff _ _).mpr matching', preferred⟩
            best
    rw [getHandler_registryOf free' methodFree pathFree, found]

end Dispatch

/--
A second route below `/users` that a request for a third one matches
too.
-/
theorem getHandler_concat_userRoutes :
    (registryOf (userRoutes ++ [⟨ascii "GET", ascii "/users/:name", 2⟩]) :
        RouteRegistry Unit Nat).getHandler
        (bareRequest (ascii "GET") (ascii "/users/new")) =
      (registryOf userRoutes : RouteRegistry Unit Nat).getHandler
        (bareRequest (ascii "GET") (ascii "/users/new")) := by
  have added :=
    @getHandler_concat Unit Nat Unit userRoutes
      ⟨ascii "GET", ascii "/users/:name", 2⟩
      (by unfold Registration.NulFree; decide)
      (bareRequest (ascii "GET") (ascii "/users/new"))
      (by decide) (by decide) (by unfold Registration.NulFree; decide)
  apply added.2.1
  refine
    ⟨⟨ascii "GET", ascii "/users/new", 1⟩, by simp [userRoutes], ?_, ?_⟩
  · rw [keyMatches_iff]
    unfold Matches
    decide +kernel
  · have literal :
        shapeOf (keyOf (ascii "GET") (ascii "/users/new")) =
          [.literal (ascii "GET:"), .literal (ascii "users"),
            .literal (ascii "new")] := by
      decide +kernel
    have wild :
        shapeOf (keyOf (ascii "GET") (ascii "/users/:name")) =
          [.literal (ascii "GET:"), .literal (ascii "users"), .wild] := by
      decide +kernel
    simp only [Registration.key, literal, wild]
    exact .cons (.cons (.rel trivial))

/-! ## Registrations in another order -/

/-- No two routes have the same shape. -/
def DistinctShapes (registrations : List (Registration β)) : Prop :=
  (registrations.map fun registration =>
    shapeOf registration.key).Nodup

/-- The parameters at one place have one name. -/
def NamesAgree (registrations : List (Registration β)) : Prop :=
  ∀ registration ∈ registrations, ∀ other ∈ registrations,
    ∀ position name name',
      Pattern.nameBelow (patternOf registration.key) position = some name →
        Pattern.nameBelow (patternOf other.key) position = some name' →
          name = name'

/-- The handler at a shape is that of its only route. -/
theorem latest_of_distinct
    (distinct : DistinctShapes registrations) (shape : Shape StdString)
    (handler : β) :
    Table.latest (entries registrations) shape = some handler ↔
      ∃ registration ∈ registrations,
        shapeOf registration.key = shape ∧
          registration.handler = handler := by
  rw [latest_entries_eq_some_iff]
  constructor
  · rintro ⟨before, chosen, after, rfl, own, same, -⟩
    exact ⟨chosen, by simp, same, own⟩
  · rintro ⟨chosen, member, rfl, rfl⟩
    obtain ⟨before, after, rfl⟩ := List.append_of_mem member
    refine ⟨before, chosen, after, rfl, rfl, rfl, ?_⟩
    intro later behind same
    have shapes := distinct
    rw [DistinctShapes, List.map_append, List.map_cons,
      List.nodup_append] at shapes
    have apart := (List.nodup_cons.mp shapes.2.1).1
    apply apart
    rw [← same]
    exact List.mem_map_of_mem behind

/-- The table does not depend on the order. -/
theorem referenceTable_of_perm
    (same : registrations.Perm registrations')
    (distinct : DistinctShapes registrations)
    (agree : NamesAgree registrations) :
    referenceTable registrations = referenceTable registrations' := by
  have distinct' : DistinctShapes registrations' :=
    (same.map _).nodup_iff.mp distinct
  have agree' : NamesAgree registrations' :=
    fun first member second member' =>
      agree first (same.mem_iff.mpr member) second (same.mem_iff.mpr member')
  have names
      {registrations : List (Registration β)}
      (agree : NamesAgree registrations) (position : Shape StdString)
      (name : StdString) :
      Table.firstName (entries registrations) position = some name ↔
        ∃ registration ∈ registrations,
          Pattern.nameBelow (patternOf registration.key) position =
            some name := by
    rw [Table.firstName_eq_some_iff]
    · simp [entries]
    · simp only [entries, List.forall_mem_map]
      intro first member second member' name name'
      exact agree first member second member' position name name'
  ext shape value
  · change Table.latest _ shape = _ ↔ Table.latest _ shape = _
    rw [latest_of_distinct distinct, latest_of_distinct distinct']
    simp only [same.mem_iff]
  · change Table.firstName _ shape = _ ↔ Table.firstName _ shape = _
    rw [names agree, names agree']
    simp only [same.mem_iff]

/--
The order of the registrations does not matter to any request, its
parameters included.
-/
theorem getHandler_of_perm
    (same : registrations.Perm registrations')
    (distinct : DistinctShapes registrations)
    (agree : NamesAgree registrations)
    (free : ∀ registration ∈ registrations, registration.NulFree)
    (req : HttpRequest J) :
    (registryOf registrations : RouteRegistry κ β).getHandler req =
      (registryOf registrations' : RouteRegistry κ β).getHandler req := by
  have free' : ∀ registration ∈ registrations', registration.NulFree :=
    fun registration member =>
      free registration (same.mem_iff.mpr member)
  rw [getHandler_eq _ req rfl, getHandler_eq _ req rfl,
    registryOf_table free, registryOf_table free',
    referenceTable_of_perm same distinct agree]

theorem getHandler_of_perm_userRoutes :
    (registryOf userRoutes : RouteRegistry Unit Nat).getHandler
        (bareRequest (ascii "GET") (ascii "/users/new")) =
      (registryOf userRoutes.reverse : RouteRegistry Unit Nat).getHandler
        (bareRequest (ascii "GET") (ascii "/users/new")) := by
  apply getHandler_of_perm (List.reverse_perm userRoutes).symm
  · unfold DistinctShapes
    decide +kernel
  · intro first member second member' position name name' given given'
    have only {registration : Registration Nat}
        (member : registration ∈ userRoutes) {name : StdString}
        (given :
          Pattern.nameBelow (patternOf registration.key) position =
            some name) : name = ascii "id" := by
      have named := Pattern.mem_of_nameBelow given
      have all :
          ∀ registration ∈ userRoutes,
            ∀ segment ∈ patternOf registration.key,
              segment.slot.isLiteral = true ∨
                segment = .parameter (ascii "id") := by
        decide +kernel
      rcases all registration member _ named with literal | parameter
      · cases literal
      · exact Segment.parameter.inj parameter
    rw [only member given, only member' given']
  · unfold Registration.NulFree
    decide

end PlusWeb
