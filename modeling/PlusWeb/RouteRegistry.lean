import PlusWeb.HttpMessage
import PlusWeb.Trie

/-!
# `RouteRegistry`: registration and dispatch

The registry keeps the middleware queue and the trie, keyed by
`METHOD:/path`.  The second half states what dispatch means without a trie:
the registrations in order, the segment lists of their keys, and the
literal-first preference between the shapes that match.  `getHandler` is
proved to be exactly this reference.
-/

namespace PlusWeb

open WildcardTable

/--
`class RouteRegistry`, with middleware of type `κ` and handlers of type
`β`.
-/
structure RouteRegistry (κ β : Type) where
  queue : List κ
  trie : Trie β

namespace RouteRegistry

variable {κ β J : Type}

/-- `RouteRegistry()`. -/
def new : RouteRegistry κ β where
  queue := []
  trie := Trie.new

/-- `RouteRegistry::Register`. -/
def register
    (registry : RouteRegistry κ β)
    (method path : StdString) (handler : Option β) : RouteRegistry κ β :=
  { registry with
    trie := registry.trie.insert (method ++ ascii ":" ++ path) handler }

/-- `RouteRegistry::RegisterMiddleWare`. -/
def registerMiddleWare
    (registry : RouteRegistry κ β) (mw : κ) : RouteRegistry κ β :=
  { registry with queue := registry.queue ++ [mw] }

/-- `RouteRegistry::getHandler`: the handler, and the request afterwards. -/
def getHandler
    (registry : RouteRegistry κ β) (req : HttpRequest J) :
    Option β × HttpRequest J :=
  let (node, params) :=
    registry.trie.searchNode (req.method ++ ascii ":" ++ req.path) ∅
  match node.bind Node.handler with
  | some handler => (some handler, { req with params := params })
  | none => (none, req)

end RouteRegistry

/-! ## The reference -/

/-- One call of `Register` with a handler that is not empty. -/
structure Registration (β : Type) where
  method : StdString
  path : StdString
  handler : β

/-- The segment list of a method and a path. -/
def keyOf (method path : StdString) : List StdString :=
  Utils.pieces slash (method ++ ascii ":" ++ path)

namespace Registration

variable {β : Type}

def key (registration : Registration β) : List StdString :=
  keyOf registration.method registration.path

/-- No string of the call contains a NUL. -/
def NulFree (registration : Registration β) : Prop :=
  (0 : UInt8) ∉ registration.method ∧ (0 : UInt8) ∉ registration.path

end Registration

/-- A pattern segment and a request segment: equal, or a parameter. -/
def SegmentMatches (pattern request : StdString) : Prop :=
  pattern = request ∨ pattern.head? = some colon

/-- Segment by segment, with equal lengths. -/
def KeyMatches (pattern request : List StdString) : Prop :=
  List.Forall₂ SegmentMatches pattern request

/-- Equal up to the names of parameters. -/
def SameShape (left right : List StdString) : Prop :=
  shapeOf left = shapeOf right

/-- The registrations as entries of a table. -/
def entries {β : Type} (registrations : List (Registration β)) :
    List (Pattern StdString StdString × β) :=
  registrations.map fun registration =>
    (patternOf registration.key, registration.handler)

/-- The registry after a sequence of registrations. -/
def registryOf {κ β : Type} (registrations : List (Registration β)) :
    RouteRegistry κ β :=
  registrations.foldl
    (fun registry registration =>
      registry.register registration.method registration.path
        (some registration.handler))
    RouteRegistry.new

/--
What dispatch refers to: the handler registered last for each shape, and
the name registered first below each position.
-/
def referenceTable {β : Type} (registrations : List (Registration β)) :
    Table StdString StdString β where
  value := Table.latest (entries registrations)
  name := Table.firstName (entries registrations)

/--
The parameters bound along a shape, deeper bindings over shallower
ones.
-/
def referenceParams {β : Type}
    (registrations : List (Registration β))
    (shape : Shape StdString) (request : List StdString) : StdMap :=
  Node.bindAll ∅
    ((referenceTable registrations).bindings shape request)

theorem segmentMatches_iff (pattern request : StdString) :
    SegmentMatches pattern request ↔
      (segmentOf pattern).slot.Accepts request := by
  unfold SegmentMatches segmentOf
  by_cases parameter : pattern.head? = some colon <;>
    simp [parameter, Segment.slot]

theorem keyMatches_iff (pattern request : List StdString) :
    KeyMatches pattern request ↔ Matches (shapeOf pattern) request := by
  have pointwise :
      SegmentMatches =
        fun pattern request =>
          (segmentOf pattern).slot.Accepts request := by
    funext pattern request
    exact propext (segmentMatches_iff pattern request)
  simp only [KeyMatches, pointwise, Matches, shapeOf, patternOf,
    Pattern.shape, List.map_map, List.forall₂_map_left_iff,
    Function.comp_apply]

/-! ## The trie against the reference -/

theorem split_slash (text : StdString) :
    Utils.split text (ascii "/") =
      Utils.pieces slash (StdString.cStr text) := by
  rw [ascii_slash, Utils.split_singleton (by decide)]

theorem split_key
    {method path : StdString}
    (methodFree : (0 : UInt8) ∉ method) (pathFree : (0 : UInt8) ∉ path) :
    Utils.split (method ++ ascii ":" ++ path) (ascii "/") =
      keyOf method path := by
  have free : (0 : UInt8) ∉ method ++ ascii ":" ++ path := by
    simp [methodFree, pathFree, ascii]
  rw [split_slash, StdString.cStr_eq_self free]
  rfl

/-- One registration inserts its pattern into the table of the trie. -/
theorem RouteRegistry.register_table_split
    {κ β : Type} (registry : RouteRegistry κ β)
    (method path : StdString) (handler : Option β) :
    (registry.register method path handler).trie.root.table =
      registry.trie.root.table.insert
        (patternOf
          (Utils.split (method ++ ascii ":" ++ path) (ascii "/")))
        handler := by
  refine Node.insertSegments_table ?_ handler _
  intro segment member
  rw [split_slash] at member
  exact (Utils.mem_pieces member).1

theorem register_table
    {κ β : Type} (registry : RouteRegistry κ β)
    {registration : Registration β} (free : registration.NulFree)
    (handler : Option β) :
    (registry.register registration.method registration.path
        handler).trie.root.table =
      registry.trie.root.table.insert (patternOf registration.key)
        handler := by
  rw [RouteRegistry.register_table_split, split_key free.1 free.2]
  rfl

theorem foldl_register_table
    {κ β : Type} (registrations : List (Registration β))
    (registry : RouteRegistry κ β)
    (free : ∀ registration ∈ registrations, registration.NulFree) :
    (registrations.foldl
        (fun registry registration =>
          registry.register registration.method registration.path
            (some registration.handler))
        registry).trie.root.table =
      (entries registrations).foldl
        (fun table entry => table.insert entry.1 (some entry.2))
        registry.trie.root.table := by
  induction registrations generalizing registry with
  | nil => rfl
  | cons registration rest induction =>
      rw [List.foldl_cons, induction _ fun later member =>
        free later (List.mem_cons_of_mem _ member),
        register_table registry (free registration (List.mem_cons_self ..))]
      rfl

/-- The trie of a registry denotes the reference table. -/
theorem registryOf_table
    {κ β : Type} {registrations : List (Registration β)}
    (free : ∀ registration ∈ registrations, registration.NulFree) :
    (registryOf registrations : RouteRegistry κ β).trie.root.table =
      referenceTable registrations := by
  rw [registryOf, foldl_register_table registrations _ free]
  change
    (entries registrations).foldl _ (Node.default : Node β).table = _
  rw [Node.table_default]
  exact Table.ofLog_eq (entries registrations)

/-- Dispatch is the search of the table of the trie. -/
theorem getHandler_eq
    {κ β J : Type} (registry : RouteRegistry κ β)
    (req : HttpRequest J) {segments : List StdString}
    (split :
      Utils.split (req.method ++ ascii ":" ++ req.path) (ascii "/") =
        segments) :
    registry.getHandler req =
      match registry.trie.root.table.lookup segments with
      | some (shape, handler) =>
          (some handler,
            { req with
              params :=
                Node.bindAll ∅
                  (registry.trie.root.table.bindings shape segments) })
      | none => (none, req) := by
  rw [RouteRegistry.getHandler, Trie.searchNode, Node.find, split,
    Node.findFrom_eq]
  cases found : registry.trie.root.table.lookup segments with
  | none => rfl
  | some hit =>
      rcases Node.walk_of_lookup found with ⟨target, walked, held⟩
      simp [Node.report, walked, held]

/-- A miss leaves the request alone. -/
theorem getHandler_of_miss
    {κ β J : Type} {registry : RouteRegistry κ β} {req : HttpRequest J}
    (missed : (registry.getHandler req).1 = none) :
    registry.getHandler req = (none, req) := by
  rw [getHandler_eq registry req rfl] at missed ⊢
  split at missed
  · cases missed
  · rfl

/-! ## Dispatch -/

section Dispatch

variable {β : Type}

theorem latest_entries_isSome_iff
    {registrations : List (Registration β)} {shape : Shape StdString} :
    (Table.latest (entries registrations) shape).isSome ↔
      ∃ registration ∈ registrations, shapeOf registration.key = shape := by
  rw [← not_iff_not, Option.not_isSome_iff_eq_none,
    Table.latest_eq_none_iff]
  simp [entries, shapeOf]

theorem latest_entries_eq_some_iff
    {registrations : List (Registration β)} {shape : Shape StdString}
    {handler : β} :
    Table.latest (entries registrations) shape = some handler ↔
      ∃ before chosen after,
        registrations = before ++ chosen :: after ∧
          chosen.handler = handler ∧
          shapeOf chosen.key = shape ∧
          ∀ later ∈ after, shapeOf later.key ≠ shape := by
  rw [Table.latest_eq_some_iff]
  constructor
  · rintro ⟨before, pattern, after, cut, same, none⟩
    rcases List.map_eq_append_iff.mp cut with ⟨front, rest, rfl, rfl, tail⟩
    rcases List.map_eq_cons_iff.mp tail with ⟨chosen, back, rfl, head, rfl⟩
    simp only [Prod.mk.injEq] at head
    rcases head with ⟨rfl, rfl⟩
    refine ⟨front, chosen, back, rfl, rfl, same, ?_⟩
    intro later member
    exact none _ (List.mem_map_of_mem member)
  · rintro ⟨before, chosen, after, rfl, rfl, same, none⟩
    refine
      ⟨entries before, patternOf chosen.key, entries after,
        by simp [entries], same, ?_⟩
    intro later member
    rcases List.mem_map.mp member with ⟨registration, inAfter, rfl⟩
    exact none registration inAfter

section Reference

variable {κ β J : Type} {registrations : List (Registration β)}
  (free : ∀ registration ∈ registrations, registration.NulFree)
  {req : HttpRequest J}
  (methodFree : (0 : UInt8) ∉ req.method)
  (pathFree : (0 : UInt8) ∉ req.path)
include free methodFree pathFree

/-- Dispatch misses if no registered key matches. -/
theorem getHandler_fst_eq_none_iff :
    ((registryOf registrations : RouteRegistry κ β).getHandler req).1 =
        none ↔
      ∀ registration ∈ registrations,
        ¬ KeyMatches registration.key (keyOf req.method req.path) := by
  rw [getHandler_eq _ req (split_key methodFree pathFree),
    registryOf_table free]
  cases found :
      (referenceTable registrations).lookup (keyOf req.method req.path) with
  | none =>
      refine iff_of_true rfl ?_
      intro registration member matching
      have held :=
        Table.lookup_eq_none_iff.mp found _
          ((keyMatches_iff _ _).mp matching)
      have present :
          (Table.latest (entries registrations)
            (shapeOf registration.key)).isSome :=
        latest_entries_isSome_iff.mpr ⟨registration, member, rfl⟩
      simp [referenceTable] at held
      simp [held] at present
  | some hit =>
      rcases hit with ⟨shape, handler⟩
      obtain ⟨matching, held, -⟩ := Table.lookup_eq_some_iff.mp found
      obtain ⟨before, chosen, after, cut, -, rfl, -⟩ :=
        latest_entries_eq_some_iff.mp held
      refine iff_of_false (by simp) ?_
      exact fun none =>
        none chosen (by simp [cut]) ((keyMatches_iff _ _).mpr matching)

/-- What dispatch has found, and the bindings. -/
theorem getHandler_of_fst_eq_some
    {handler : β}
    (dispatched :
      ((registryOf registrations : RouteRegistry κ β).getHandler req).1 =
        some handler) :
    ∃ before chosen after,
      registrations = before ++ chosen :: after ∧
        chosen.handler = handler ∧
        KeyMatches chosen.key (keyOf req.method req.path) ∧
        (∀ later ∈ after, ¬ SameShape later.key chosen.key) ∧
        (∀ other ∈ registrations,
          KeyMatches other.key (keyOf req.method req.path) →
          ¬ SameShape other.key chosen.key →
          Prefers (shapeOf chosen.key) (shapeOf other.key)) ∧
        ((registryOf registrations : RouteRegistry κ β).getHandler req).2 =
          { req with
            params :=
              referenceParams registrations (shapeOf chosen.key)
                (keyOf req.method req.path) } := by
  have result :=
    getHandler_eq (registryOf registrations : RouteRegistry κ β) req
      (split_key methodFree pathFree)
  rw [registryOf_table free] at result
  rw [result] at dispatched ⊢
  cases found :
      (referenceTable registrations).lookup (keyOf req.method req.path) with
  | none => simp [found] at dispatched
  | some hit =>
      rcases hit with ⟨shape, handler'⟩
      obtain rfl : handler' = handler := by simpa [found] using dispatched
      obtain ⟨matching, held, preferred⟩ :=
        Table.lookup_eq_some_iff.mp found
      obtain ⟨before, chosen, after, cut, own, rfl, last⟩ :=
        latest_entries_eq_some_iff.mp held
      refine
        ⟨before, chosen, after, cut, own, (keyMatches_iff _ _).mpr matching,
          last, ?_, rfl⟩
      intro other otherMember otherMatches different
      exact
        preferred _ ((keyMatches_iff _ _).mp otherMatches)
          (latest_entries_isSome_iff.mpr ⟨other, otherMember, rfl⟩)
          different

end Reference

/--
Dispatch equals the reference matcher.

A miss means that no registered key matches, and leaves the request alone.
A hit is the handler registered last for the matching shape that is preferred
to every other matching shape, and the request carries exactly the bindings
along that shape.
-/
theorem getHandler_reference
    {κ β J : Type} {registrations : List (Registration β)}
    (free : ∀ registration ∈ registrations, registration.NulFree)
    {req : HttpRequest J}
    (methodFree : (0 : UInt8) ∉ req.method)
    (pathFree : (0 : UInt8) ∉ req.path) :
    let registry : RouteRegistry κ β := registryOf registrations
    let segments := keyOf req.method req.path
    ((registry.getHandler req).1 = none ↔
        ∀ registration ∈ registrations,
          ¬ KeyMatches registration.key segments) ∧
      ((registry.getHandler req).1 = none →
        (registry.getHandler req).2 = req) ∧
      ∀ handler, (registry.getHandler req).1 = some handler →
        ∃ before chosen after,
          registrations = before ++ chosen :: after ∧
            chosen.handler = handler ∧
            KeyMatches chosen.key segments ∧
            (∀ later ∈ after, ¬ SameShape later.key chosen.key) ∧
            (∀ other ∈ registrations,
              KeyMatches other.key segments →
              ¬ SameShape other.key chosen.key →
              Prefers (shapeOf chosen.key) (shapeOf other.key)) ∧
            (registry.getHandler req).2 =
              { req with
                params :=
                  referenceParams registrations (shapeOf chosen.key)
                    segments } := by
  intro registry segments
  refine
    ⟨getHandler_fst_eq_none_iff free methodFree pathFree, ?_,
      fun handler => getHandler_of_fst_eq_some free methodFree pathFree⟩
  have result := getHandler_eq registry req (split_key methodFree pathFree)
  rw [registryOf_table free] at result
  rw [result]
  cases (referenceTable registrations).lookup segments <;> simp

/-- Two routes of which one request matches both. -/
def userRoutes : List (Registration Nat) :=
  [⟨ascii "GET", ascii "/users/:id", 0⟩,
    ⟨ascii "GET", ascii "/users/new", 1⟩]

/-- A request without a body. -/
def bareRequest (method path : StdString) : HttpRequest Unit where
  method := method
  path := path
  protocol := ascii "HTTP/1.1"
  headers := ∅
  body := ⟨.empty, [], (), ∅, []⟩
  params := ∅
  query := ∅

theorem getHandler_reference_userRoutes :
    ∃ before chosen after,
      userRoutes = before ++ chosen :: after ∧
        chosen.handler = 1 ∧
        KeyMatches chosen.key
          (keyOf (ascii "GET") (ascii "/users/new")) := by
  have reference :=
    @getHandler_reference Unit Nat Unit userRoutes
      (by unfold Registration.NulFree; decide)
      (bareRequest (ascii "GET") (ascii "/users/new"))
      (by decide) (by decide)
  have dispatched :
      (RouteRegistry.getHandler
        (registryOf userRoutes : RouteRegistry Unit Nat)
        (bareRequest (ascii "GET") (ascii "/users/new"))).1 = some 1 := by
    decide +kernel
  obtain ⟨before, chosen, after, cut, own, matching, -⟩ :=
    reference.2.2 1 dispatched
  exact ⟨before, chosen, after, cut, own, matching⟩

end Dispatch

end PlusWeb
