import PlusWeb.Utils
import PlusWeb.Library.WildcardTable

/-!
# The routing trie

`Node` and `Trie` as the source has them: literal children in a map, one
parameter child in a slot of its own, a handler where a route ends.  A
pointer that the source walks down and writes through is an edit of the
node it points to; the unordered map of children is the list of its entries,
whose keys are distinct because an entry is only added when `find` misses.

Handlers are an arbitrary type `β`; an empty `std::function` is `none`.

The last two sections connect the trie with the wildcard tables: a node
denotes a table, `insert` is the insertion of the table, and `findFrom` is
its literal-first search with the bindings of the shape found.
-/

namespace PlusWeb

open ListSearch WildcardTable

/-- `class Node`. -/
structure Node (β : Type) where
  value : StdString
  isLeaf : Bool
  children : List (StdString × Node β)
  paramChild : Option (Node β)
  handler : Option β
  isParameter : Bool
  parameterName : StdString

namespace Node

variable {β : Type}

/-- `Node()`. -/
def default : Node β where
  value := []
  isLeaf := true
  children := []
  paramChild := none
  handler := none
  isParameter := false
  parameterName := []

/-- `Node(std::string v)`. -/
def ofValue (v : StdString) : Node β :=
  let isParameter := v.head? = some colon
  { value := v
    isLeaf := false
    children := []
    paramChild := none
    handler := none
    isParameter := isParameter
    parameterName := if isParameter then StdString.substr v 1 else [] }

/-- `Node::insertChild`, followed by `edit` on the node it returns. -/
def insertChild
    (node : Node β) (segment : StdString)
    (edit : Node β → Node β) : Node β :=
  if segment = [] then edit node
  else if segment.head? = some colon then
    -- One parameter child per node: a second name reuses the slot.
    match node.paramChild with
    | none =>
        { node with
          paramChild := some (edit (ofValue segment))
          isLeaf := false }
    | some existing => { node with paramChild := some (edit existing) }
  else
    match node.children.lookup segment with
    | some existing =>
        { node with
          children := node.children.map fun entry =>
            if entry.1 = segment then (segment, edit existing) else entry }
    | none =>
        { node with
          children := node.children ++ [(segment, edit (ofValue segment))]
          isLeaf := false }

/--
The loop of `Node::insert` over the segments and the two writes after
it.
-/
def insertSegments :
    List StdString → Option β → Node β → Node β
  | [], func, node => { node with isLeaf := true, handler := func }
  | segment :: rest, func, node =>
      node.insertChild segment (insertSegments rest func)

/-- `Node::insert`. -/
def insert
    (curr : Node β) (path : StdString) (func : Option β) : Node β :=
  insertSegments (Utils.split path (ascii "/")) func curr

/--
The parameter branch of `Node::findFrom`: bind the segment, `search` the
parameter child, and take the binding back if the search fails.
-/
def findParam
    (node : Node β) (segment : StdString)
    (search : Node β → StdMap → Option (Node β) × StdMap)
    (params : StdMap) : Option (Node β) × StdMap :=
  match node.paramChild with
  | none => (none, params)
  | some child =>
      let name := child.parameterName
      let previous := params[name]?
      match search child (params.insert name segment) with
      | (some hit, params) => (some hit, params)
      | (none, params) =>
          match previous with
          | some saved => (none, params.insert name saved)
          | none => (none, params.erase name)

/--
`Node::findFrom`, with the segments from `index` on.  The second component
is the content of `params` when the call returns.
-/
def findFrom
    (node : Node β) :
    List StdString → StdMap → Option (Node β) × StdMap
  | [], params => (if node.handler.isSome then some node else none, params)
  | segment :: rest, params =>
      let literal :=
        match node.children.lookup segment with
        | some child => child.findFrom rest params
        | none => (none, params)
      match literal with
      | (some hit, params) => (some hit, params)
      | (none, params) =>
          node.findParam segment (fun child => child.findFrom rest) params

/-- `Node::find`. -/
def find
    (node : Node β) (path : StdString) (params : StdMap) :
    Option (Node β) × StdMap :=
  node.findFrom (Utils.split path (ascii "/")) params

end Node

/-- `class Trie`. -/
structure Trie (β : Type) where
  root : Node β

namespace Trie

variable {β : Type}

/-- `Trie::Trie`. -/
def new : Trie β where
  root := Node.default

/-- `Trie::insert`. -/
def insert
    (trie : Trie β) (path : StdString) (handler : Option β) : Trie β where
  root := trie.root.insert path handler

/-- `Trie::searchNode`. -/
def searchNode
    (trie : Trie β) (path : StdString) (params : StdMap) :
    Option (Node β) × StdMap :=
  trie.root.find path params

end Trie

/-! ## Segments and patterns -/

/-- A segment of a registered path: a parameter if it begins with a colon. -/
def segmentOf (segment : StdString) : Segment StdString StdString :=
  if segment.head? = some colon then .parameter (StdString.substr segment 1)
  else .literal segment

/-- The pattern of a list of segments. -/
def patternOf (segments : List StdString) :
    Pattern StdString StdString :=
  segments.map segmentOf

/-- The shape of a list of segments: the pattern up to parameter names. -/
def shapeOf (segments : List StdString) : Shape StdString :=
  (patternOf segments).shape

theorem shapeOf_cons (segment : StdString) (rest : List StdString) :
    shapeOf (segment :: rest) = (segmentOf segment).slot :: shapeOf rest :=
  rfl

@[simp]
theorem patternOf_nil : patternOf [] = [] := rfl

@[simp]
theorem patternOf_cons (segment : StdString) (rest : List StdString) :
    patternOf (segment :: rest) = segmentOf segment :: patternOf rest :=
  rfl

namespace Node

variable {β : Type}

/-! ## The table a node denotes -/

/-- The child behind one slot. -/
def child (node : Node β) : Slot StdString → Option (Node β)
  | .literal segment => node.children.lookup segment
  | .wild => node.paramChild

/-- The node a shape leads to. -/
def walk (node : Node β) : Shape StdString → Option (Node β)
  | [] => some node
  | slot :: shape => (node.child slot).bind fun child => child.walk shape

/-- The handlers and the parameter names of a node, read as a table. -/
def table (node : Node β) : Table StdString StdString β where
  value shape := (node.walk shape).bind Node.handler
  name position :=
    (node.walk position).bind fun reached =>
      reached.paramChild.map Node.parameterName

@[simp]
theorem walk_nil (node : Node β) : node.walk [] = some node := rfl

@[simp]
theorem walk_cons
    (node : Node β) (slot : Slot StdString) (shape : Shape StdString) :
    node.walk (slot :: shape) =
      (node.child slot).bind fun child => child.walk shape := rfl

theorem table_under_some
    {node child : Node β} {slot : Slot StdString}
    (reached : node.child slot = some child) :
    node.table.under slot = child.table := by
  ext1 <;> funext shape <;> simp [table, reached]

theorem table_under_none
    {node : Node β} {slot : Slot StdString}
    (missing : node.child slot = none) :
    node.table.under slot = Table.empty := by
  ext1 <;> funext shape <;> simp [table, missing, Table.empty]

@[simp]
theorem table_value_nil (node : Node β) :
    node.table.value [] = node.handler := rfl

@[simp]
theorem table_name_nil (node : Node β) :
    node.table.name [] = node.paramChild.map Node.parameterName := rfl

theorem table_value_cons
    (node : Node β) (slot : Slot StdString) (shape : Shape StdString) :
    node.table.value (slot :: shape) =
      (node.child slot).bind fun child => child.table.value shape := by
  cases reached : node.child slot <;> simp [table, reached]

theorem table_name_cons
    (node : Node β) (slot : Slot StdString) (shape : Shape StdString) :
    node.table.name (slot :: shape) =
      (node.child slot).bind fun child => child.table.name shape := by
  cases reached : node.child slot <;> simp [table, reached]

/-- A node without children or handler denotes the empty table. -/
theorem table_of_isolated
    {node : Node β}
    (noChild : ∀ slot, node.child slot = none)
    (noHandler : node.handler = none) :
    node.table = Table.empty := by
  have noParamChild : node.paramChild = none := noChild .wild
  ext1 <;> funext shape <;> cases shape <;>
    simp [table, noChild, noHandler, noParamChild, Table.empty]

theorem table_ofValue (segment : StdString) :
    (ofValue segment : Node β).table = Table.empty :=
  table_of_isolated (fun slot => by cases slot <;> rfl) rfl

theorem table_default : (default : Node β).table = Table.empty :=
  table_of_isolated (fun slot => by cases slot <;> rfl) rfl

/-! ## Insertion -/

/-- The node `insertChild` returns, before any edit. -/
def slotFor (node : Node β) (segment : StdString) : Node β :=
  (node.child (segmentOf segment).slot).getD (ofValue segment)

theorem slotFor_table (node : Node β) (segment : StdString) :
    (node.slotFor segment).table =
      node.table.under (segmentOf segment).slot := by
  rw [slotFor]
  cases reached : node.child (segmentOf segment).slot with
  | none => rw [table_under_none reached, Option.getD_none, table_ofValue]
  | some below => rw [table_under_some reached, Option.getD_some]

/--
What `insertChild` and the edit after it do to the children: the child
behind the segment's slot is edited, the others stay.
-/
theorem insertChild_child
    {segment : StdString} (nonempty : segment ≠ [])
    (node : Node β) (edit : Node β → Node β) (slot : Slot StdString) :
    (node.insertChild segment edit).child slot =
      if slot = (segmentOf segment).slot then
        some (edit (node.slotFor segment))
      else node.child slot := by
  by_cases parameter : segment.head? = some colon
  · have own : (segmentOf segment).slot = .wild := by
      simp [segmentOf, parameter, Segment.slot]
    rw [insertChild, if_neg nonempty, if_pos parameter, slotFor, own]
    cases existing : node.paramChild with
    | none => cases slot <;> simp [child, existing]
    | some below => cases slot <;> simp [child, existing]
  · have own : (segmentOf segment).slot = .literal segment := by
      simp [segmentOf, parameter, Segment.slot]
    rw [insertChild, if_neg nonempty, if_neg parameter, slotFor, own]
    cases existing : node.children.lookup segment with
    | none =>
        cases slot with
        | wild => rfl
        | literal probe =>
            simp only [child, lookup_append_singleton, existing,
              Option.getD_none, Slot.literal.injEq]
            by_cases same : probe = segment
            · simp [same, existing]
            · simp [same]
    | some below =>
        cases slot with
        | wild => rfl
        | literal probe =>
            simp only [child, lookup_overwrite, existing,
              Option.getD_some, Option.map_some, Slot.literal.injEq]

/-- A parameter keeps the name it was created with. -/
theorem insertSegments_parameterName
    (segments : List StdString) (func : Option β) (node : Node β) :
    (insertSegments segments func node).parameterName =
      node.parameterName := by
  induction segments generalizing node with
  | nil => rfl
  | cons segment rest induction =>
      rw [insertSegments, insertChild]
      split_ifs
      · exact induction node
      · split <;> rfl
      · split <;> rfl

theorem insertChild_handler
    {segment : StdString} (nonempty : segment ≠ [])
    (node : Node β) (edit : Node β → Node β) :
    (node.insertChild segment edit).handler = node.handler := by
  rw [insertChild, if_neg nonempty]
  split_ifs <;> split <;> rfl

/-- Inserting into a node is inserting into the table it denotes. -/
theorem insertSegments_table
    {segments : List StdString}
    (nonempty : ∀ segment ∈ segments, segment ≠ [])
    (func : Option β) (node : Node β) :
    (insertSegments segments func node).table =
      node.table.insert (patternOf segments) func := by
  induction segments generalizing node with
  | nil =>
      ext1 <;> funext shape
      · cases shape with
        | nil => rfl
        | cons slot shape => rfl
      · simp only [Table.insert, patternOf_nil, Pattern.nameBelow_nil,
          Option.or_none]
        cases shape <;> rfl
  | cons segment rest induction =>
      have nonemptyHead := nonempty segment (List.mem_cons_self ..)
      have below :=
        induction
          (fun later member => nonempty later (List.mem_cons_of_mem _ member))
          (node.slotFor segment)
      rw [insertSegments]
      ext1 <;> funext shape
      · cases shape with
        | nil =>
            rw [table_value_nil, insertChild_handler nonemptyHead]
            rfl
        | cons slot shape =>
            rw [table_value_cons, insertChild_child nonemptyHead]
            by_cases own : slot = (segmentOf segment).slot
            · subst own
              simp [below, slotFor_table, Table.insert]
            · simp [own, Table.insert, table_value_cons]
      · cases shape with
        | nil =>
            have wild := insertChild_child nonemptyHead node
              (insertSegments rest func) .wild
            change (node.insertChild segment _).paramChild = _ at wild
            rw [table_name_nil, wild]
            by_cases parameter : segment.head? = some colon
            · have own : (segmentOf segment).slot = .wild := by
                simp [segmentOf, parameter, Segment.slot]
              rw [if_pos own.symm, Option.map_some,
                insertSegments_parameterName, slotFor, own]
              cases existing : node.paramChild <;>
                simp [child, existing, Table.insert, Pattern.nameBelow,
                  segmentOf, ofValue, parameter]
            · have own : (segmentOf segment).slot = .literal segment := by
                simp [segmentOf, parameter, Segment.slot]
              rw [if_neg (by simp [own])]
              simp [child, Table.insert, Pattern.nameBelow, segmentOf,
                parameter]
        | cons slot shape =>
            rw [table_name_cons, insertChild_child nonemptyHead]
            by_cases own : slot = (segmentOf segment).slot
            · subst own
              simp [below, slotFor_table, Table.insert,
                Pattern.nameBelow_cons_cons]
            · simp [own, Ne.symm own, Table.insert, table_name_cons,
                Pattern.nameBelow_cons_cons]

/-! ## Search -/

/-- Write a list of bindings, the later ones over the earlier ones. -/
def bindAll (params : StdMap) (bound : List (StdString × StdString)) :
    StdMap :=
  bound.foldl (fun params entry => params.insert entry.1 entry.2) params

/-- The shape found leads to a node, and that node carries the handler. -/
theorem walk_of_lookup
    {node : Node β} {segments : List StdString}
    {hit : Shape StdString × β}
    (found : node.table.lookup segments = some hit) :
    ∃ target, node.walk hit.1 = some target ∧
      target.handler = some hit.2 := by
  have held := (Table.lookup_sound found).2
  simpa [table, Option.bind_eq_some_iff] using held

/-- The outcome of a search of a table, as `findFrom` reports it. -/
def report
    (node : Node β) (segments : List StdString) (params : StdMap) :
    Option (Shape StdString × β) → Option (Node β) × StdMap
  | some (shape, _) =>
      (node.walk shape,
        bindAll params (node.table.bindings shape segments))
  | none => (none, params)

theorem report_literal
    {node child : Node β} {segment : StdString}
    (reached : node.children.lookup segment = some child)
    (segments : List StdString) (params : StdMap)
    (hit : Shape StdString × β) :
    child.report segments params (some hit) =
      node.report (segment :: segments) params
        (some (.literal segment :: hit.1, hit.2)) := by
  have reached : node.child (.literal segment) = some child := reached
  simp [report, reached, Table.bindings_literal,
    table_under_some reached]

/--
The parameter branch, once the search below is known to report the search
of the table below.
-/
theorem findParam_eq
    {node : Node β} {segment : StdString} {segments : List StdString}
    {search : Node β → StdMap → Option (Node β) × StdMap}
    (reports : ∀ child params,
      search child params =
        child.report segments params (child.table.lookup segments))
    (params : StdMap) :
    node.findParam segment search params =
      node.report (segment :: segments) params
        (((node.table.under .wild).lookup segments).map fun hit =>
          (.wild :: hit.1, hit.2)) := by
  rw [findParam]
  cases slot : node.paramChild with
  | none => simp [@table_under_none β node .wild slot, report]
  | some child =>
      have reached : node.child .wild = some child := slot
      have named : node.table.name [] = some child.parameterName := by
        simp [slot]
      rw [table_under_some reached]
      simp only [reports]
      cases found : child.table.lookup segments with
      | some hit =>
          rcases walk_of_lookup found with ⟨target, walked, -⟩
          simp [report, walked, reached, Table.bindings_wild named,
            table_under_some reached, bindAll]
      | none =>
          simp only [report, Option.map_none]
          cases previous : params[child.parameterName]? with
          | some saved => simp [StdMap.insert_insert_restore previous]
          | none => simp [StdMap.erase_insert_restore previous]

/--
`findFrom` is the literal-first search of the table the node denotes: a
miss leaves `params` alone, a hit has written exactly the bindings along the
shape found.
-/
theorem findFrom_eq
    (segments : List StdString) (node : Node β) (params : StdMap) :
    node.findFrom segments params =
      node.report segments params (node.table.lookup segments) := by
  induction segments generalizing node params with
  | nil =>
      rw [findFrom, Table.lookup, table_value_nil]
      cases node.handler <;> simp [report, bindAll]
  | cons segment rest induction =>
      have parameter := fun params =>
        @findParam_eq β node segment rest
          (fun child params => child.findFrom rest params)
          (fun child params => induction child params) params
      rw [findFrom, Table.lookup]
      cases reached : node.children.lookup segment with
      | none =>
          rw [@table_under_none β node (.literal segment) reached]
          simpa using parameter params
      | some child =>
          rw [@table_under_some β node child (.literal segment) reached]
          simp only [induction]
          cases found : child.table.lookup rest with
          | none => simpa [report] using parameter params
          | some hit =>
              rcases walk_of_lookup found with ⟨target, walked, -⟩
              rw [Option.map_some, Option.some_or,
                ← report_literal reached]
              simp [report, walked]

end Node

end PlusWeb
