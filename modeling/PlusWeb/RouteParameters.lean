import PlusWeb.RouteTables

/-!
# Which names the parameters of a route get

The name of a parameter lives on the node of the trie, not on the route: the
first registration with a parameter at a position names it, and later routes
through that position use the slot as it is.  A handler therefore sees the
segments at the parameter positions of its pattern under the names that were
registered first, deeper positions over shallower ones, and nothing else.
These are the names of its own pattern exactly if each of them is the first
name of a position with the same segment.
-/

namespace PlusWeb

open ListSearch WildcardTable

variable {J : Type}

/-- Dispatch on an object. -/
def Setup.dispatch (setup : Setup) (req : HttpRequest J) :
    Target → Option Nat × HttpRequest J
  | .server => setup.server.getHandler req
  | .router id => (setup.routers id).registry.getHandler req

theorem dispatch_build
    (calls : List SetupCall) (target : Target) {req : HttpRequest J}
    (token : MethodToken req.method) :
    (Setup.build calls).dispatch req target =
      answer (registrationsOn target calls) req := by
  cases target with
  | server => exact server_getHandler calls token
  | router id => exact router_getHandler calls id token

/-! ## The parameters of a pattern -/

/--
The parameter segments of a list, named, with the values at their
positions.
-/
def parametersOf (pattern values : List StdString) :
    List (StdString × StdString) :=
  (pattern.zip values).filterMap fun pair =>
    if pair.1.head? = some colon then
      some (StdString.substr pair.1 1, pair.2)
    else none

/-- The names of the parameters of a pattern. -/
def parameterNames (pattern : List StdString) : List StdString :=
  pattern.filterMap fun segment =>
    if segment.head? = some colon then some (StdString.substr segment 1)
    else none

/--
Each position of a pattern that is `:name`, with the segment of a path at
that position.
-/
def ownParameters (pattern path : StdString) :
    List (StdString × StdString) :=
  parametersOf (Utils.split pattern (ascii "/"))
    (Utils.split path (ascii "/"))

/--
The parameters seen are the own ones: each with its segment, and no
other.
-/
def SeesOwn (pattern path : StdString) (params : StdMap) : Prop :=
  (∀ entry ∈ ownParameters pattern path,
      params[entry.1]? = some entry.2) ∧
    ∀ key ∈ params, key ∈ (ownParameters pattern path).map Prod.fst

/-- The names given first, below each position. -/
def firstNames
    (log : List (Pattern StdString StdString × Option Nat)) :
    Table StdString StdString Nat where
  value _ := none
  name := Table.firstName log

/--
The segments of a path at the parameter positions of a pattern, under the
names registered first among the routes of the method.
-/
def firstNamed
    (registrations : List (Registration (Option Nat)))
    (method pattern path : StdString) : List (StdString × StdString) :=
  (firstNames (routesAt (headSegment method path) registrations)).bindings
    (shapeOf (tailSegments pattern)) (tailSegments path)

theorem parametersOf_append
    {front front' : List StdString}
    (lengths : front.length = front'.length)
    (back back' : List StdString) :
    parametersOf (front ++ back) (front' ++ back') =
      parametersOf front front' ++ parametersOf back back' := by
  rw [parametersOf, List.zip_append lengths, List.filterMap_append]
  rfl

theorem parametersOf_names_sublist (pattern values : List StdString) :
    ((parametersOf pattern values).map Prod.fst).Sublist
      (parameterNames pattern) := by
  induction pattern generalizing values with
  | nil => exact List.Sublist.refl _
  | cons segment pattern induction =>
      cases values with
      | nil => exact List.nil_sublist _
      | cons value values =>
          have rest := induction values
          simp only [parametersOf, parameterNames] at rest ⊢
          by_cases parameter : segment.head? = some colon
          · simpa [parameter] using rest
          · simpa [parameter] using rest

theorem length_parametersOf
    {pattern values : List StdString}
    (lengths : pattern.length = values.length) :
    (parametersOf pattern values).length =
      ((shapeOf pattern).filter fun slot => !slot.isLiteral).length := by
  induction pattern generalizing values with
  | nil => rfl
  | cons segment pattern induction =>
      cases values with
      | nil => cases lengths
      | cons value values =>
          have rest := induction (Nat.succ.inj lengths)
          by_cases parameter : segment.head? = some colon
          · simp only [parametersOf, shapeOf] at rest ⊢
            simp [parameter, segmentOf, Segment.slot, rest]
          · simp only [parametersOf, shapeOf] at rest ⊢
            simp [parameter, segmentOf, Segment.slot, rest]

/-- A pattern and a path with the same bytes before their first slash. -/
theorem ownParameters_eq
    {pattern path : StdString}
    (same :
      before slash (StdString.cStr pattern) =
        before slash (StdString.cStr path)) :
    ∃ front,
      ownParameters pattern path =
        front ++
          parametersOf (tailSegments pattern) (tailSegments path) := by
  rw [ownParameters, split_path, split_path, same,
    parametersOf_append rfl]
  exact ⟨_, rfl⟩

/-! ## What a handler sees -/

section Dispatched

variable {calls : List SetupCall} {target : Target} {req : HttpRequest J}
  {label : Nat} {verb : Verb} {pattern : StdString}

/--
The route of the number dispatched to is registered, and the search finds
its shape.
-/
theorem found_of_dispatch
    (token : MethodToken req.method)
    (placed : calls[label]? = some (.route target verb pattern true))
    (dispatched :
      ((Setup.build calls).dispatch req target).1 = some label) :
    ∃ registration ∈ registrationsOn target calls,
      registration.path = pattern ∧
        headSegment registration.method pattern =
          headSegment req.method req.path ∧
        (routeTable (headSegment req.method req.path)
          (registrationsOn target calls)).lookup (tailSegments req.path) =
            some (shapeOf (tailSegments pattern), label) ∧
        KeyMatches (tailSegments pattern) (tailSegments req.path) := by
  rw [dispatch_build calls target token] at dispatched
  unfold answer at dispatched
  cases found :
      (routeTable (headSegment req.method req.path)
        (registrationsOn target calls)).lookup (tailSegments req.path) with
  | none => simp [found] at dispatched
  | some hit =>
      rcases hit with ⟨shape, handler⟩
      obtain rfl : handler = label := by simpa [found] using dispatched
      obtain ⟨registration, member, own, head, rfl, matching⟩ :=
        matches_of_lookup found
      rcases mem_registrationsOn member own with ⟨verb', placed', ofVerb⟩
      -- the number names the call, so this is the route in question
      obtain ⟨-, -, same, -⟩ :
          target = target ∧ verb = verb' ∧
            pattern = registration.path ∧ True := by
        simpa using placed.symm.trans placed'
      subst same
      exact ⟨registration, member, rfl, head, rfl, matching⟩

/--
The route of the number dispatched to matches, and its parameters are
bound under the first names.
-/
theorem params_of_dispatch
    (token : MethodToken req.method)
    (placed : calls[label]? = some (.route target verb pattern true))
    (dispatched :
      ((Setup.build calls).dispatch req target).1 = some label) :
    before slash (StdString.cStr pattern) =
        before slash (StdString.cStr req.path) ∧
      KeyMatches (tailSegments pattern) (tailSegments req.path) ∧
      ((Setup.build calls).dispatch req target).2.params =
        StdMap.insertAll ∅
          (firstNamed (registrationsOn target calls) req.method pattern
            req.path) := by
  obtain ⟨registration, member, rfl, head, found, matching⟩ :=
    found_of_dispatch token placed dispatched
  refine
    ⟨(headSegment_inj (registrationsOn_token member) token head).2,
      matching, ?_⟩
  rw [dispatch_build calls target token, answer]
  simp only [found, firstNamed]
  apply congrArg (StdMap.insertAll ∅)
  apply Table.bindings_congr
  funext position
  rw [routeTable, Table.name_insertLog]
  rfl

/--
A handler sees the segments at the parameter positions of its pattern
under the names registered first, and nothing else.  These are its own
parameters exactly if each own parameter is among them.
-/
theorem params_first_named
    (token : MethodToken req.method)
    (placed : calls[label]? = some (.route target verb pattern true))
    (dispatched :
      ((Setup.build calls).dispatch req target).1 = some label)
    (distinct :
      (parameterNames (Utils.split pattern (ascii "/"))).Nodup) :
    let params := ((Setup.build calls).dispatch req target).2.params
    let bound :=
      firstNamed (registrationsOn target calls) req.method pattern req.path
    params = StdMap.insertAll ∅ bound ∧
      (SeesOwn pattern req.path params ↔
        ∀ entry ∈ ownParameters pattern req.path, entry ∈ bound) := by
  intro params bound
  obtain ⟨same, matching, written⟩ :=
    params_of_dispatch token placed dispatched
  have ownDistinct :
      ((ownParameters pattern req.path).map Prod.fst).Nodup :=
    distinct.sublist (parametersOf_names_sublist _ _)
  refine ⟨written, ?_⟩
  rw [show params = _ from written]
  constructor
  · rintro ⟨seen, -⟩ ⟨name, segment⟩ member
    exact
      (StdMap.mem_of_getElem?_insertAll (seen _ member)).resolve_right
        (by simp)
  · intro named
    have fits : bound.length ≤ (ownParameters pattern req.path).length := by
      rcases ownParameters_eq same with ⟨front, own⟩
      have lengths := List.Forall₂.length_eq matching
      calc
        bound.length ≤ _ := Table.length_bindings_le _ _ _
        _ =
            (parametersOf (tailSegments pattern)
              (tailSegments req.path)).length :=
          (length_parametersOf lengths).symm
        _ ≤ (ownParameters pattern req.path).length := by
          rw [own, List.length_append]
          exact Nat.le_add_left _ _
    have all : (ownParameters pattern req.path).Perm bound :=
      (List.subperm_of_subset ownDistinct.of_map named).perm_of_length_le fits
    have boundDistinct : (bound.map Prod.fst).Nodup :=
      ((all.map Prod.fst).nodup_iff).mp ownDistinct
    constructor
    · rintro ⟨name, segment⟩ member
      exact
        StdMap.getElem?_insertAll_of_mem boundDistinct (named _ member) ∅
    · intro key member
      obtain ⟨value, held⟩ := Option.isSome_iff_exists.mp
        (Std.ExtTreeMap.mem_iff_isSome_getElem?.mp member)
      have entry :=
        (StdMap.mem_of_getElem?_insertAll held).resolve_right (by simp)
      exact List.mem_map_of_mem (all.mem_iff.mpr entry)

end Dispatched

/-- Two routes that name one parameter differently. -/
def userCalls : List SetupCall :=
  [.route .server .GET (ascii "/users/:id") true,
    .route .server .GET (ascii "/users/:userId/posts/:post") true]

theorem params_first_named_userCalls :
    SeesOwn (ascii "/users/:id") (ascii "/users/7")
      ((Setup.build userCalls).dispatch
        (Exchange.arriving (ascii "GET") (ascii "/users/7")).req
        .server).2.params := by
  have token :
      MethodToken
        (Exchange.arriving (ascii "GET") (ascii "/users/7")).req.method := by
    constructor <;> decide
  exact
    (params_first_named token (rfl : userCalls[0]? = some _) (by decide +kernel)
      (by decide +kernel)).2.mpr (by decide +kernel)

/-- The second route gets the value under the name of the first. -/
theorem params_of_other_route :
    ¬ ∀ (calls : List SetupCall) (target : Target)
        (req : HttpRequest FlatJson) (label : Nat) (verb : Verb)
        (pattern : StdString),
        MethodToken req.method →
        calls[label]? = some (.route target verb pattern true) →
        ((Setup.build calls).dispatch req target).1 = some label →
        (parameterNames (Utils.split pattern (ascii "/"))).Nodup →
        SeesOwn pattern req.path
          ((Setup.build calls).dispatch req target).2.params := by
  intro claim
  have token : MethodToken (ascii "GET") := by
    constructor <;> decide
  have sees :=
    claim userCalls .server
      (Exchange.arriving (ascii "GET") (ascii "/users/7/posts/9")).req 1
      .GET (ascii "/users/:userId/posts/:post") token (by decide)
      (by decide +kernel) (by decide +kernel)
  have seen := sees.1 (ascii "userId", ascii "7") (by decide +kernel)
  revert seen
  decide +kernel

end PlusWeb
