import PlusWeb.RouteRegistry
import PlusWeb.ParserDeliveries
import PlusWeb.Library.Runs

/-!
# The WebAssembly contract

The functions of `plusweb_wasm.cpp` work on one state: a registry whose
handlers report the id of their route, and the texts of the routes.  Each
builds a JSON value and returns its text.

The arguments are C strings or null pointers.  What the clock measures and
how JSON is printed and parsed are parameters.
-/

namespace PlusWeb

/-! ## JSON values -/

/-- `nlohmann::json`, with the bits of a floating-point number. -/
inductive Document where
  | null
  | boolean (value : Bool)
  | number (value : Int)
  | float (bits : UInt64)
  | string (text : StdString)
  | array (items : List Document)
  | object (members : List (StdString × Document))

namespace Document

mutual

/-- The strings of a value and the keys of its objects. -/
def strings : Document → List StdString
  | .null => []
  | .boolean _ => []
  | .number _ => []
  | .float _ => []
  | .string text => [text]
  | .array items => stringsOfItems items
  | .object members => stringsOfMembers members

def stringsOfItems : List Document → List StdString
  | [] => []
  | item :: items => item.strings ++ stringsOfItems items

def stringsOfMembers : List (StdString × Document) → List StdString
  | [] => []
  | (key, value) :: members =>
      key :: (value.strings ++ stringsOfMembers members)

end

/-- An object of strings. -/
def ofMap (map : StdMap) : Document :=
  .object (map.toList.map fun pair => (pair.1, .string pair.2))

end Document

/--
`dump` and `parse` of the JSON library, which throw a `std::exception`
with the given text.
-/
class JsonText where
  dump : Document → Except StdString StdString
  parse : StdString → Except StdString Document

instance [JsonText] : Json Document where
  null := .null
  object pairs := .object (pairs.map fun pair => (pair.1, .string pair.2))
  dump := JsonText.dump
  parse := JsonText.parse

/--
What the JSON library documents about `dump`: it throws on a string that
is not valid UTF-8, and on nothing else.
-/
def JsonText.DumpsUtf8 [JsonText] : Prop :=
  ∀ document : Document,
    (∃ text, JsonText.dump document = .ok text) ↔
      ∀ text ∈ document.strings, ValidUtf8 text

namespace Wasm

open WildcardTable

/-! ## Arguments -/

/-- A C string. -/
structure CString where
  text : StdString
  noNul : (0 : UInt8) ∉ text

/-- The C string that a text begins with. -/
def CString.ofText (text : StdString) : CString where
  text := StdString.cStr text
  noNul := StdString.zero_notMem_cStr text

/-- A `const char*`, which can be null. -/
abbrev CPointer := Option CString

/-- `pointer ? pointer : ""`. -/
def CPointer.text (pointer : CPointer) : StdString :=
  pointer.elim [] CString.text

theorem CPointer.noNul (pointer : CPointer) :
    (0 : UInt8) ∉ CPointer.text pointer := by
  cases pointer with
  | none => simp [CPointer.text]
  | some string => exact string.noNul

/-- `static_cast<int>` of a size. -/
def intOfSize (size : Nat) : Int := Int.bmod size (2 ^ 32)

theorem intOfSize_eq {size : Nat} (small : size < 2 ^ 31) :
    intOfSize size = size :=
  Int.bmod_eq_of_le (by omega) (by omega)

/-! ## The state -/

/-- `struct State`.  The stub handler of a route is the id it reports. -/
structure State where
  registry : RouteRegistry Empty Int
  patterns : List StdString
  lastRouteId : Int

namespace State

/-- The state at the start, and after `pw_reset`. -/
def new : State where
  registry := RouteRegistry.new
  patterns := []
  lastRouteId := -1

end State

/-! ## Reports -/

/-- What `pw_register_route` returns. -/
inductive Registered where
  | error (what : StdString)
  | duplicate (routeId : Int)
  | accepted (routeId : Int)
deriving DecidableEq

/-- The JSON value of the answer. -/
def Registered.document : Registered → Document
  | .error what => .object [(ascii "error", .string what)]
  | .duplicate routeId =>
      .object
        [(ascii "error", .string (ascii "route already registered")),
          (ascii "routeId", .number routeId)]
  | .accepted routeId => .object [(ascii "routeId", .number routeId)]

/-- What `pw_dispatch` returns. -/
structure Dispatched where
  isMatch : Bool
  routeId : Int
  params : StdMap
  ms : UInt64
  pattern : Option StdString

/-- The JSON value of the answer. -/
def Dispatched.document (report : Dispatched) : Document :=
  .object
    ([(ascii "matched", .boolean report.isMatch),
        (ascii "routeId", .number report.routeId),
        (ascii "params", Document.ofMap report.params),
        (ascii "ms", .float report.ms)] ++
      report.pattern.toList.map fun pattern =>
        (ascii "pattern", .string pattern))

namespace State

/-- `pw_register_route`. -/
def registerRoute (state : State) (method pattern : CPointer) :
    State × Registered :=
  if method.text = [] then (state, .error (ascii "method is empty"))
  else if pattern.text.head? ≠ some slash then
    (state, .error (ascii "pattern must start with '/'"))
  else
    let key := method.text ++ ascii " " ++ pattern.text
    match state.patterns.findIdx? (· = key) with
    | some index => (state, .duplicate (intOfSize index))
    | none =>
        let id := intOfSize state.patterns.length
        ({ state with
            patterns := state.patterns ++ [key]
            registry :=
              state.registry.register method.text pattern.text (some id) },
          .accepted id)

/-- The request `pw_dispatch` builds. -/
def probe (method path : CPointer) : HttpRequest Unit where
  method := method.text
  path := path.text
  protocol := []
  headers := ∅
  body := ⟨.empty, [], (), ∅, []⟩
  params := ∅
  query := ∅

/-- `pw_dispatch`; `ms` is the time the search took. -/
def dispatch (state : State) (method path : CPointer) (ms : UInt64) :
    State × Dispatched :=
  match state.registry.getHandler (probe method path) with
  | (none, _) =>
      ({ state with lastRouteId := -1 },
        { isMatch := false
          routeId := -1
          params := ∅
          ms := ms
          pattern := none })
  | (some id, req) =>
      ({ state with lastRouteId := id },
        { isMatch := true
          routeId := id
          params := req.params
          ms := ms
          pattern :=
            if 0 ≤ id ∧ id < intOfSize state.patterns.length then
              state.patterns[id.toNat]?
            else none })

end State

/-! ## Parsing a request -/

section Parse

variable [JsonText] (llhttp : Llhttp)

/-- The version without `HTTP/`. -/
def versionOf (protocol : StdString) : StdString :=
  if StdString.startsWith protocol (ascii "HTTP/") then
    StdString.substr protocol 5
  else protocol

/-- What the handler of `pw_parse_request` writes into `out`. -/
def requestDocument (req : HttpRequest Document) : Document :=
  .object
    ([(ascii "ok", .boolean true),
        (ascii "method", .string req.method),
        (ascii "path", .string req.path),
        (ascii "version", .string (versionOf req.protocol)),
        (ascii "headers", Document.ofMap req.headers),
        (ascii "bodyLength", .number req.body.rawData.length),
        (ascii "error", .null)] ++
      if req.query.isEmpty then []
      else [(ascii "query", Document.ofMap req.query)])

/-- The answer to a text that is no request. -/
def failureDocument (what : StdString) : Document :=
  .object [(ascii "ok", .boolean false), (ascii "error", .string what)]

/--
`pw_parse_request`, up to `dump`.  An exception that is no
`std::exception` could only come out of the parser.
-/
def parseRequest (rawText : CPointer) : Except CxxException Document :=
  let handler : RequestHandler Document (Option Document) :=
    fun req _ => Action.modify fun _ => some (requestDocument req)
  match
    (HttpParser.new llhttp kMaxHeaderBytes).execute handler rawText.text
      none with
  | (.failed _ reason, _) => .ok (failureDocument reason)
  | (.escaped exception, _) => .error exception
  | (.accepted _, none) =>
      .ok
        (failureDocument
          (ascii "incomplete request: headers did not terminate"))
  | (.accepted _, some out) => .ok out

end Parse

/-! ## The node graph -/

section Dump

variable {β : Type}

/-- `std::sort` by the values of the nodes. -/
def sortByValue (kids : List (StdString × Document)) : List Document :=
  (kids.mergeSort fun first second => first.1 ≤ second.1).map Prod.snd

mutual

/-- `dumpNode`. -/
def dumpNode : Node β → Document
  | ⟨value, isLeaf, children, paramChild, handler, isParameter,
      parameterName⟩ =>
      .object
        ([(ascii "value", .string value),
            (ascii "isParameter", .boolean isParameter)] ++
          (if isParameter then
            [(ascii "parameterName", .string parameterName)]
          else []) ++
          [(ascii "isLeaf", .boolean isLeaf),
            (ascii "hasHandler", .boolean handler.isSome),
            (ascii "children",
              .array
                (sortByValue
                  (dumpChildren children ++ dumpParam paramChild)))])

def dumpChildren : List (StdString × Node β) → List (StdString × Document)
  | [] => []
  | (_, child) :: children =>
      (child.value, dumpNode child) :: dumpChildren children

def dumpParam : Option (Node β) → List (StdString × Document)
  | none => []
  | some child => [(child.value, dumpNode child)]

end

/-- `pw_dump_trie`, up to `dump`. -/
def State.dumpTrie (state : State) : Document :=
  .object
    [(ascii "root", dumpNode state.registry.trie.root),
      (ascii "routeCount", .number (intOfSize state.patterns.length)),
      (ascii "routes",
        .array
          (state.patterns.zipIdx.map fun route =>
            .object
              [(ascii "routeId", .number (intOfSize route.2)),
                (ascii "route", .string route.1)])),
      (ascii "note",
        .string
          (ascii
            "trie keys are METHOD:/path, so depth 1 holds the methods"))]

end Dump

/-! ## Runs -/

/-- A route that was accepted. -/
structure Route where
  routeId : Int
  method : StdString
  pattern : StdString
deriving DecidableEq

namespace Route

/-- The text the state keeps of a route. -/
def text (route : Route) : StdString :=
  route.method ++ ascii " " ++ route.pattern

/-- The registration of its stub handler. -/
def registration (route : Route) : Registration Int :=
  ⟨route.method, route.pattern, route.routeId⟩

end Route

/-- A call of one of the functions. -/
inductive Call where
  | reset
  | registerRoute (method pattern : CPointer)
  | dispatch (method path : CPointer) (ms : UInt64)
  | parseRequest (rawText : CPointer)
  | dumpTrie

/-- The state, and the routes accepted since the last reset. -/
structure Instance where
  state : State
  accepted : List Route

namespace Instance

/-- An instance that was just loaded. -/
def new : Instance := ⟨State.new, []⟩

/-- The routes accepted, after an answer of `pw_register_route`. -/
def accept (accepted : List Route) (method pattern : CPointer) :
    Registered → List Route
  | .error _ => accepted
  | .duplicate _ => accepted
  | .accepted routeId => accepted ++ [⟨routeId, method.text, pattern.text⟩]

/-- One call. -/
def step (inst : Instance) : Call → Instance
  | .reset => new
  | .registerRoute method pattern =>
      let (state, report) := inst.state.registerRoute method pattern
      ⟨state, accept inst.accepted method pattern report⟩
  | .dispatch method path ms =>
      ⟨(inst.state.dispatch method path ms).1, inst.accepted⟩
  | .parseRequest _ => inst
  | .dumpTrie => inst

/-- The calls on an instance. -/
def run (calls : List Call) : Instance := Runs.run step new calls

end Instance

/-- What one call of `pw_register_route` can do. -/
theorem State.registerRoute_cases
    (state : State) (method pattern : CPointer) :
    (∃ what, state.registerRoute method pattern = (state, .error what) ∧
        (method.text = [] ∨ pattern.text.head? ≠ some slash)) ∨
      (method.text ≠ [] ∧ pattern.text.head? = some slash ∧
        ∃ index,
          state.registerRoute method pattern =
              (state, .duplicate (intOfSize index)) ∧
            state.patterns[index]? =
              some (method.text ++ ascii " " ++ pattern.text)) ∨
      (method.text ≠ [] ∧ pattern.text.head? = some slash ∧
        method.text ++ ascii " " ++ pattern.text ∉ state.patterns ∧
          state.registerRoute method pattern =
            ({ state with
                patterns :=
                  state.patterns ++
                    [method.text ++ ascii " " ++ pattern.text]
                registry :=
                  state.registry.register method.text pattern.text
                    (some (intOfSize state.patterns.length)) },
              .accepted (intOfSize state.patterns.length))) := by
  unfold registerRoute
  by_cases noMethod : method.text = []
  · exact Or.inl ⟨_, if_pos noMethod, Or.inl noMethod⟩
  by_cases origin : pattern.text.head? = some slash
  · rw [if_neg noMethod, if_neg (not_not.mpr origin)]
    dsimp only
    cases found :
        state.patterns.findIdx?
          (· = method.text ++ ascii " " ++ pattern.text) with
    | some index =>
        rcases List.findIdx?_eq_some_iff_getElem.mp found with ⟨inside, own, -⟩
        refine Or.inr (Or.inl ⟨noMethod, origin, index, rfl, ?_⟩)
        rw [List.getElem?_eq_getElem inside]
        exact congrArg some (of_decide_eq_true own)
    | none =>
        have absent := List.findIdx?_eq_none_iff.mp found
        refine Or.inr (Or.inr ⟨noMethod, origin, ?_, rfl⟩)
        intro member
        simpa using absent _ member
  · exact
      Or.inl
        ⟨_, (if_neg noMethod).trans (if_pos origin), Or.inr origin⟩

/-- What `pw_register_route` has checked of a route. -/
structure Route.Checked (route : Route) : Prop where
  method : route.method ≠ []
  pattern : route.pattern.head? = some slash
  noNul : route.registration.NulFree

namespace Instance

/-- The state and the accepted routes agree. -/
structure Consistent (inst : Instance) : Prop where
  patterns : inst.state.patterns = inst.accepted.map Route.text
  registry :
    inst.state.registry = registryOf (inst.accepted.map Route.registration)
  ids :
    inst.accepted.map Route.routeId =
      (List.range inst.accepted.length).map intOfSize
  distinct : (inst.accepted.map Route.text).Nodup
  checked : ∀ route ∈ inst.accepted, route.Checked

theorem consistent_new : new.Consistent where
  patterns := rfl
  registry := rfl
  ids := rfl
  distinct := List.nodup_nil
  checked := by simp [new]

/-- A route accepted with the next id. -/
theorem Consistent.append
    {inst : Instance} (consistent : inst.Consistent) {route : Route}
    (checked : route.Checked)
    (next : route.routeId = intOfSize inst.state.patterns.length)
    (fresh : route.text ∉ inst.state.patterns) :
    Consistent
      ⟨{ inst.state with
          patterns := inst.state.patterns ++ [route.text]
          registry :=
            inst.state.registry.register route.method route.pattern
              (some route.routeId) },
        inst.accepted ++ [route]⟩ := by
  rcases consistent with ⟨patterns, registry, ids, distinct, all⟩
  have length : inst.state.patterns.length = inst.accepted.length := by
    rw [patterns, List.length_map]
  constructor
  · show inst.state.patterns ++ [route.text] = _
    rw [patterns, List.map_append]
    rfl
  · show inst.state.registry.register _ _ _ = _
    rw [registry, List.map_append, registryOf, registryOf,
      List.foldl_append]
    rfl
  · show (inst.accepted ++ [route]).map Route.routeId =
      (List.range (inst.accepted ++ [route]).length).map intOfSize
    rw [List.map_append, ids, List.length_append, List.length_singleton,
      List.range_succ, List.map_append, List.map_singleton,
      List.map_singleton, next, length]
  · show ((inst.accepted ++ [route]).map Route.text).Nodup
    rw [List.map_append, List.map_singleton, ← patterns]
    apply List.Nodup.append (patterns ▸ distinct) (List.nodup_singleton _)
    simpa using fresh
  · show ∀ later ∈ inst.accepted ++ [route], later.Checked
    intro later member
    rcases List.mem_append.mp member with old | own
    · exact all later old
    · exact List.mem_singleton.mp own ▸ checked

theorem consistent_step
    {inst : Instance} (consistent : inst.Consistent) (call : Call) :
    (inst.step call).Consistent := by
  cases call with
  | reset => exact consistent_new
  | registerRoute method pattern =>
      simp only [step]
      rcases inst.state.registerRoute_cases method pattern with
        ⟨what, refused, -⟩ | ⟨-, -, index, refused, -⟩ |
          ⟨nonempty, origin, fresh, taken⟩
      · rw [refused]
        exact consistent
      · rw [refused]
        exact consistent
      · rw [taken]
        generalize next : intOfSize inst.state.patterns.length = routeId
        have checked :
            Route.Checked ⟨routeId, method.text, pattern.text⟩ :=
          ⟨nonempty, origin, method.noNul, pattern.noNul⟩
        exact consistent.append checked next.symm fresh
  | dispatch method path ms =>
      rcases consistent with ⟨patterns, registry, ids, distinct, checked⟩
      simp only [step, State.dispatch]
      split
      · exact ⟨patterns, registry, ids, distinct, checked⟩
      · exact ⟨patterns, registry, ids, distinct, checked⟩
  | parseRequest rawText => exact consistent
  | dumpTrie => exact consistent

theorem consistent_run (calls : List Call) : (run calls).Consistent :=
  @Runs.invariant_always _ _ step Consistent
    (fun _ call consistent => consistent_step consistent call) _
    consistent_new calls

/-- An accepted route has its position as its id. -/
theorem Consistent.routeId_eq
    {inst : Instance} (consistent : inst.Consistent)
    {index : Nat} {route : Route}
    (found : inst.accepted[index]? = some route) :
    route.routeId = intOfSize index := by
  rcases List.getElem?_eq_some_iff.mp found with ⟨inside, rfl⟩
  have ids := congrArg (·[index]?) consistent.ids
  simpa [inside] using ids

variable {inst : Instance}

theorem Consistent.length_patterns (consistent : inst.Consistent) :
    inst.state.patterns.length = inst.accepted.length := by
  rw [consistent.patterns, List.length_map]

theorem Consistent.nulFree (consistent : inst.Consistent) :
    ∀ registration ∈ inst.accepted.map Route.registration,
      registration.NulFree := by
  intro registration member
  rcases List.mem_map.mp member with ⟨route, accepted, rfl⟩
  exact (consistent.checked route accepted).noNul

/-- A search that fails: no accepted route has a matching key. -/
theorem Consistent.missed
    (consistent : inst.Consistent) {method path : CPointer}
    {req : HttpRequest Unit}
    (missed :
      inst.state.registry.getHandler (State.probe method path) =
        (none, req)) :
    ∀ route ∈ inst.accepted,
      ¬ KeyMatches route.registration.key
        (keyOf method.text path.text) := by
  rw [consistent.registry] at missed
  have unmatched :=
    (getHandler_fst_eq_none_iff consistent.nulFree method.noNul
      path.noNul).mp (congrArg Prod.fst missed)
  intro route accepted
  exact unmatched _ (List.mem_map_of_mem accepted)

/--
A search that succeeds: the accepted route it finds has a matching key,
and is preferred to every other one that has.
-/
theorem Consistent.found
    (consistent : inst.Consistent) {method path : CPointer}
    {id : Int} {req : HttpRequest Unit}
    (found :
      inst.state.registry.getHandler (State.probe method path) =
        (some id, req)) :
    ∃ index route, inst.accepted[index]? = some route ∧
      id = intOfSize index ∧
        KeyMatches route.registration.key
          (keyOf method.text path.text) ∧
        ∀ other ∈ inst.accepted,
          KeyMatches other.registration.key
              (keyOf method.text path.text) →
            ¬ SameShape other.registration.key route.registration.key →
              Prefers (shapeOf route.registration.key)
                (shapeOf other.registration.key) := by
  rw [consistent.registry] at found
  obtain ⟨before, registration, after, cut, same, matching, -, preferred, -⟩ :=
    getHandler_of_fst_eq_some consistent.nulFree method.noNul path.noNul
      (congrArg Prod.fst found)
  have member : registration ∈ inst.accepted.map Route.registration := by
    rw [cut]
    simp
  rcases List.mem_map.mp member with ⟨route, accepted, rfl⟩
  rcases List.getElem?_of_mem accepted with ⟨index, located⟩
  refine
    ⟨index, route, located,
      same.symm.trans (consistent.routeId_eq located), matching, ?_⟩
  intro other otherAccepted
  exact preferred _ (List.mem_map_of_mem otherAccepted)

/-- The text `pw_dispatch` reports of a route it has found. -/
theorem Consistent.pattern_eq
    (consistent : inst.Consistent) (count : inst.accepted.length < 2 ^ 31)
    {index : Nat} {route : Route}
    (located : inst.accepted[index]? = some route) :
    (if 0 ≤ intOfSize index ∧
        intOfSize index < intOfSize inst.state.patterns.length then
      inst.state.patterns[(intOfSize index).toNat]?
    else none) = some route.text := by
  have inside : index < inst.accepted.length :=
    (List.getElem?_eq_some_iff.mp located).1
  have small : index < 2 ^ 31 := lt_trans inside count
  have bound : 0 ≤ (index : Int) ∧ (index : Int) < inst.accepted.length := by
    omega
  rw [consistent.length_patterns, intOfSize_eq small, intOfSize_eq count,
    if_pos bound, Int.toNat_natCast, consistent.patterns,
    List.getElem?_map, located]
  rfl

end Instance

end Wasm

end PlusWeb
