import PlusWeb.TrieInvariant
import PlusWeb.Library.PointerTree

/-!
# The routing trie with its pointers

`Node` holds its children by `Node*`: `new Node` puts an object on the heap,
the loops walk down pointers, and the destructor deletes what a node points
to.  A pointer to nothing that is followed, or deleted, has no result here.

The objects form a tree that the root owns, in every state that insertions
lead to, and the tree is the one of `Node` as a value.  So the searches agree,
nothing is followed to nothing, a node that was found stays what it is while
routes are added, and the destructor deletes every node once.
-/

namespace PlusWeb

open ListSearch WildcardTable PointerTree

/-- `class Node`, with its pointers. -/
structure NodeObject (β : Type) where
  value : StdString
  isLeaf : Bool
  children : List (StdString × Nat)
  paramChild : Option Nat
  handler : Option β
  isParameter : Bool
  parameterName : StdString

namespace NodeObject

variable {β : Type}

/-- `Node()`. -/
def default : NodeObject β where
  value := []
  isLeaf := true
  children := []
  paramChild := none
  handler := none
  isParameter := false
  parameterName := []

/-- `Node(std::string v)`. -/
def ofValue (v : StdString) : NodeObject β :=
  let isParameter := v.head? = some colon
  { value := v
    isLeaf := false
    children := []
    paramChild := none
    handler := none
    isParameter := isParameter
    parameterName := if isParameter then StdString.substr v 1 else [] }

/-- What a node points to, in the order in which the destructor deletes it. -/
def links (object : NodeObject β) : List (Slot StdString × Nat) :=
  object.children.map (fun entry => (.literal entry.1, entry.2)) ++
    object.paramChild.toList.map fun child => (.wild, child)

/-- `Node::insertChild`: the node returned, and the heap. -/
def insertChild
    (node : Nat) (segment : StdString) (heap : Heap (NodeObject β)) :
    Option (Nat × Heap (NodeObject β)) := do
  if segment = [] then some (node, heap)
  else
    let object ← heap.object node
    if segment.head? = some colon then
      match object.paramChild with
      | none =>
          some (heap.next,
            (heap.new (ofValue segment)).store node
              { object with paramChild := some heap.next, isLeaf := false })
      | some existing => some (existing, heap)
    else
      match object.children.lookup segment with
      | some existing => some (existing, heap)
      | none =>
          some (heap.next,
            (heap.new (ofValue segment)).store node
              { object with
                children := object.children ++ [(segment, heap.next)]
                isLeaf := false })

/-- The loop of `Node::insert`. -/
def insertLoop :
    List StdString → Nat → Heap (NodeObject β) →
      Option (Nat × Heap (NodeObject β))
  | [], node, heap => some (node, heap)
  | segment :: rest, node, heap => do
      let (child, heap) ← insertChild node segment heap
      insertLoop rest child heap

/-- `Node::insert`, with the segments. -/
def insertSegments
    (segments : List StdString) (func : Option β) (curr : Nat)
    (heap : Heap (NodeObject β)) :
    Option (Nat × Heap (NodeObject β)) := do
  let (node, heap) ← insertLoop segments curr heap
  let object ← heap.object node
  some (node, heap.store node { object with isLeaf := true, handler := func })

/-- `Node::insert`. -/
def insert
    (curr : Nat) (path : StdString) (func : Option β)
    (heap : Heap (NodeObject β)) : Option (Nat × Heap (NodeObject β)) :=
  insertSegments (Utils.split path (ascii "/")) func curr heap

/-- The parameter branch of `Node::findFrom`. -/
def findParam
    (heap : Heap (NodeObject β)) (object : NodeObject β)
    (segment : StdString)
    (search : Nat → StdMap → Option (Option Nat × StdMap))
    (params : StdMap) : Option (Option Nat × StdMap) :=
  match object.paramChild with
  | none => some (none, params)
  | some child => do
      let below ← heap.object child
      let name := below.parameterName
      let previous := params[name]?
      match ← search child (params.insert name segment) with
      | (some hit, params) => some (some hit, params)
      | (none, params) =>
          match previous with
          | some saved => some (none, params.insert name saved)
          | none => some (none, params.erase name)

/-- `Node::findFrom`, with the segments from `index` on. -/
def findFrom (heap : Heap (NodeObject β)) :
    List StdString → Nat → StdMap → Option (Option Nat × StdMap)
  | [], node, params => do
      let object ← heap.object node
      some (if object.handler.isSome then some node else none, params)
  | segment :: rest, node, params => do
      let object ← heap.object node
      let literal ←
        match object.children.lookup segment with
        | some child => findFrom heap rest child params
        | none => some (none, params)
      match literal with
      | (some hit, params) => some (some hit, params)
      | (none, params) =>
          findParam heap object segment (findFrom heap rest) params

/-- `Node::find`. -/
def find
    (heap : Heap (NodeObject β)) (node : Nat) (path : StdString)
    (params : StdMap) : Option (Option Nat × StdMap) :=
  findFrom heap (Utils.split path (ascii "/")) node params

/--
`delete` on a node: `~Node` deletes the children, in the order in which
their map is iterated, and the parameter child, and then the node is taken
away.
-/
def delete (order : List (StdString × Nat) → List (StdString × Nat)) :
    Nat → Nat → Heap (NodeObject β) → Option (Heap (NodeObject β))
  | 0, _, _ => none
  | fuel + 1, node, heap => do
      let object ← heap.object node
      let heap ←
        (order object.children).foldlM
          (fun heap entry => delete order fuel entry.2 heap) heap
      let heap ←
        match object.paramChild with
        | none => some heap
        | some child => delete order fuel child heap
      some (heap.delete node)

end NodeObject

/-- `class Trie`, with the heap its nodes are on. -/
structure TrieObject (β : Type) where
  root : Nat
  heap : Heap (NodeObject β)

namespace TrieObject

variable {β : Type}

/-- `Trie::Trie`. -/
def new : TrieObject β where
  root := 0
  heap := Heap.empty.new NodeObject.default

/-- `Trie::insert`. -/
def insert
    (trie : TrieObject β) (path : StdString) (handler : Option β) :
    Option (TrieObject β) := do
  let (_, heap) ← NodeObject.insert trie.root path handler trie.heap
  some { trie with heap := heap }

/-- `Trie::searchNode`. -/
def searchNode
    (trie : TrieObject β) (path : StdString) (params : StdMap) :
    Option (Option Nat × StdMap) :=
  NodeObject.find trie.heap trie.root path params

/-- `Trie::~Trie`. -/
def delete
    (order : List (StdString × Nat) → List (StdString × Nat)) (fuel : Nat)
    (trie : TrieObject β) : Option (Heap (NodeObject β)) :=
  NodeObject.delete order fuel trie.root trie.heap

end TrieObject

namespace NodeObject

variable {β : Type}

/-! ## The node an object stands for -/

/--
What an object and a node have in common, apart from where the pointers
lead.
-/
structure Alike (object : NodeObject β) (node : Node β) : Prop where
  value : object.value = node.value
  isLeaf : object.isLeaf = node.isLeaf
  keys : object.children.map Prod.fst = node.children.map Prod.fst
  paramChild : object.paramChild.isSome = node.paramChild.isSome
  handler : object.handler = node.handler
  isParameter : object.isParameter = node.isParameter
  parameterName : object.parameterName = node.parameterName

/-- The pointer leads to an object that is like the node. -/
def Holds (heap : Heap (NodeObject β)) (pointer : Nat) (node : Node β) :
    Prop :=
  ∃ object, heap.object pointer = some object ∧ object.Alike node

/--
The objects below a pointer are the node as a value: the same paths lead
down, to objects that are like the nodes.
-/
def Represents
    (heap : Heap (NodeObject β)) (pointer : Nat) (node : Node β) : Prop :=
  ∀ path, Option.Rel (Holds heap) (walk links heap pointer path)
    (node.walk path)

theorem lookup_links_literal (object : NodeObject β) (segment : StdString) :
    object.links.lookup (.literal segment) =
      object.children.lookup segment := by
  have params :
      (object.paramChild.toList.map fun child =>
        ((.wild : Slot StdString), child)).lookup (.literal segment) =
          none := by
    cases object.paramChild <;> rfl
  unfold links
  induction object.children with
  | nil => exact params
  | cons entry entries induction =>
      rcases entry with ⟨key, child⟩
      rw [List.map_cons, List.cons_append, List.lookup_cons,
        List.lookup_cons, induction]
      by_cases same : segment = key
      · simp [same]
      · have apart : (Slot.literal segment == Slot.literal key) = false := by
          simp [same]
        rw [apart, beq_false_of_ne same]

theorem lookup_links_wild (object : NodeObject β) :
    object.links.lookup .wild = object.paramChild := by
  unfold links
  induction object.children with
  | nil => cases object.paramChild <;> rfl
  | cons entry entries induction => exact induction

/-- What an object points to, seen from the object. -/
theorem represents_iff
    {heap : Heap (NodeObject β)} {pointer : Nat} {node : Node β} :
    Represents heap pointer node ↔
      ∃ object, heap.object pointer = some object ∧ object.Alike node ∧
        ∀ slot,
          Option.Rel (Represents heap) (object.links.lookup slot)
            (node.child slot) := by
  constructor
  · intro represents
    obtain ⟨object, held, alike⟩ :
        Holds heap pointer node := by
      have own := represents []
      rw [walk_nil, Node.walk_nil] at own
      cases own with
      | some holds => exact holds
    refine ⟨object, held, alike, fun slot => ?_⟩
    have below (path : List (Slot StdString)) :=
      represents (slot :: path)
    simp only [walk_cons heap held, Node.walk_cons] at below
    cases leads : object.links.lookup slot with
    | none =>
        cases found : node.child slot with
        | none => exact .none
        | some child =>
            have nothing := below []
            rw [leads, found] at nothing
            cases nothing
    | some next =>
        cases found : node.child slot with
        | none =>
            have nothing := below []
            rw [leads, found] at nothing
            cases nothing
        | some child =>
            refine .some fun path => ?_
            have some_ := below path
            rw [leads, found] at some_
            exact some_
  · rintro ⟨object, held, alike, children⟩ path
    cases path with
    | nil => exact .some ⟨object, held, alike⟩
    | cons slot path =>
        rw [walk_cons heap held, Node.walk_cons]
        have below := children slot
        cases leads : object.links.lookup slot with
        | none =>
            cases found : node.child slot with
            | none => exact .none
            | some child =>
                rw [leads, found] at below
                cases below
        | some next =>
            cases found : node.child slot with
            | none =>
                rw [leads, found] at below
                cases below
            | some child =>
                rw [leads, found] at below
                cases below with
                | some represents => exact represents path

/-- A path leads to the same node on both sides. -/
theorem Represents.below
    {heap : Heap (NodeObject β)} {pointer lower : Nat} {node : Node β}
    {path : List (Slot StdString)}
    (represents : Represents heap pointer node)
    (reached : walk links heap pointer path = some lower) :
    ∃ below, node.walk path = some below ∧ Represents heap lower below := by
  have there := represents path
  rw [reached] at there
  cases found : node.walk path with
  | none =>
      rw [found] at there
      cases there
  | some below =>
      refine ⟨below, rfl, fun more => ?_⟩
      have further := represents (path ++ more)
      rw [walk_append, reached, Node.walk_append, found] at further
      exact further

/-! ## Insertion -/

/-- Objects that are not touched stand for the same node. -/
theorem Represents.congr
    {heap heap' : Heap (NodeObject β)} {pointer : Nat} {node : Node β}
    (represents : Represents heap pointer node)
    (same : ∀ path other, walk links heap pointer path = some other →
      heap'.object other = heap.object other) :
    Represents heap' pointer node := by
  intro path
  have before := represents path
  rw [walk_congr same]
  cases reached : walk links heap pointer path with
  | none =>
      rw [reached] at before
      cases found : node.walk path with
      | none => exact .none
      | some below =>
          rw [found] at before
          cases before
  | some other =>
      rw [reached] at before
      cases found : node.walk path with
      | none =>
          rw [found] at before
          cases before
      | some below =>
          rw [found] at before
          cases before with
          | some holds =>
              rcases holds with ⟨object, held, alike⟩
              refine .some ⟨object, ?_, alike⟩
              rw [same path other reached, held]

theorem represents_ofValue
    {heap : Heap (NodeObject β)} {pointer : Nat} {segment : StdString}
    (held : heap.object pointer = some (ofValue segment)) :
    Represents heap pointer (Node.ofValue segment) := by
  rw [represents_iff]
  refine ⟨_, held, ⟨rfl, rfl, rfl, rfl, rfl, rfl, rfl⟩, fun slot => ?_⟩
  cases slot with
  | literal key => exact .none
  | wild => exact .none

/-- An object with one child more. -/
def withChild
    (object : NodeObject β) (slot : Slot StdString) (child : Nat) :
    NodeObject β :=
  match slot with
  | .wild => { object with paramChild := some child, isLeaf := false }
  | .literal segment =>
      { object with
        children := object.children ++ [(segment, child)]
        isLeaf := false }

section Child

variable {heap : Heap (NodeObject β)} {pointer existing : Nat}
  {object : NodeObject β} {node : Node β} {segment : StdString}

/-- `insertChild` returns the child that is there. -/
theorem insertChild_existing
    (nonempty : segment ≠ []) (held : heap.object pointer = some object)
    (leads :
      object.links.lookup (segmentOf segment).slot = some existing) :
    insertChild pointer segment heap = some (existing, heap) := by
  rw [insertChild, if_neg nonempty, held, Option.bind_eq_bind,
    Option.bind_some]
  by_cases parameter : segment.head? = some colon
  · have own : (segmentOf segment).slot = .wild := by
      simp [segmentOf, parameter, Segment.slot]
    rw [own, lookup_links_wild] at leads
    rw [if_pos parameter, leads]
  · have own : (segmentOf segment).slot = .literal segment := by
      simp [segmentOf, parameter, Segment.slot]
    rw [own, lookup_links_literal] at leads
    rw [if_neg parameter, leads]

/-- `insertChild` hangs a new node below if there is no child. -/
theorem insertChild_fresh
    (nonempty : segment ≠ []) (held : heap.object pointer = some object)
    (free : object.links.lookup (segmentOf segment).slot = none) :
    insertChild pointer segment heap =
      some (heap.next,
        hang pointer
          (object.withChild (segmentOf segment).slot heap.next)
          (ofValue segment) heap) := by
  rw [insertChild, if_neg nonempty, held, Option.bind_eq_bind,
    Option.bind_some]
  by_cases parameter : segment.head? = some colon
  · have own : (segmentOf segment).slot = .wild := by
      simp [segmentOf, parameter, Segment.slot]
    rw [own, lookup_links_wild] at free
    rw [if_pos parameter, free, own]
    rfl
  · have own : (segmentOf segment).slot = .literal segment := by
      simp [segmentOf, parameter, Segment.slot]
    rw [own, lookup_links_literal] at free
    rw [if_neg parameter, free, own]
    rfl

theorem Alike.insertChild_existing
    (alike : object.Alike node) (nonempty : segment ≠ [])
    {below : Node β}
    (leads : node.child (segmentOf segment).slot = some below)
    (edit : Node β → Node β) :
    object.Alike (node.insertChild segment edit) := by
  rcases alike with ⟨value, leaf, keys, param, handler, is, name⟩
  rw [Node.insertChild, if_neg nonempty]
  by_cases parameter : segment.head? = some colon
  · have own : (segmentOf segment).slot = .wild := by
      simp [segmentOf, parameter, Segment.slot]
    rw [own, Node.child] at leads
    rw [if_pos parameter, leads]
    rw [leads] at param
    exact ⟨value, leaf, keys, param, handler, is, name⟩
  · have own : (segmentOf segment).slot = .literal segment := by
      simp [segmentOf, parameter, Segment.slot]
    rw [own, Node.child] at leads
    rw [if_neg parameter, leads]
    refine ⟨value, leaf, ?_, param, handler, is, name⟩
    rw [keys, List.map_map]
    apply List.map_congr_left
    intro entry _
    simp only [Function.comp_apply]
    split_ifs with same
    · exact same
    · rfl

theorem Alike.insertChild_fresh
    (alike : object.Alike node) (nonempty : segment ≠ [])
    (free : node.child (segmentOf segment).slot = none) (child : Nat)
    (edit : Node β → Node β) :
    (object.withChild (segmentOf segment).slot child).Alike
      (node.insertChild segment edit) := by
  rcases alike with ⟨value, leaf, keys, param, handler, is, name⟩
  rw [Node.insertChild, if_neg nonempty]
  by_cases parameter : segment.head? = some colon
  · have own : (segmentOf segment).slot = .wild := by
      simp [segmentOf, parameter, Segment.slot]
    rw [own, Node.child] at free
    rw [if_pos parameter, free, own]
    exact ⟨value, rfl, keys, rfl, handler, is, name⟩
  · have own : (segmentOf segment).slot = .literal segment := by
      simp [segmentOf, parameter, Segment.slot]
    rw [own, Node.child] at free
    rw [if_neg parameter, free, own]
    refine ⟨value, rfl, ?_, param, handler, is, name⟩
    simp [NodeObject.withChild, keys]

end Child

section Insertion

variable {heap : Heap (NodeObject β)} {root pointer : Nat}
  {way : List (Slot StdString)} {object : NodeObject β}
  {slot : Slot StdString}

theorem lookup_links_withChild
    (free : object.links.lookup slot = none) (child : Nat)
    (other : Slot StdString) :
    (object.withChild slot child).links.lookup other =
      if other = slot then some child else object.links.lookup other := by
  cases slot with
  | wild =>
      cases other with
      | wild => rw [lookup_links_wild, if_pos rfl]; rfl
      | literal key =>
          rw [lookup_links_literal, lookup_links_literal, if_neg (by simp)]
          rfl
  | literal segment =>
      rw [lookup_links_literal] at free
      cases other with
      | wild =>
          rw [lookup_links_wild, lookup_links_wild, if_neg (by simp)]
          rfl
      | literal key =>
          rw [lookup_links_literal, lookup_links_literal, withChild,
            lookup_append_singleton]
          by_cases same : key = segment
          · simp [same, free]
          · simp [same]

theorem links_withChild_perm
    (free : object.links.lookup slot = none) (child : Nat) :
    (object.withChild slot child).links.Perm
      ((slot, child) :: object.links) := by
  cases slot with
  | wild =>
      rw [lookup_links_wild] at free
      simp [links, withChild, free, List.perm_append_singleton]
  | literal segment =>
      simp only [links, withChild, List.map_append, List.map_cons,
        List.map_nil, List.append_assoc, List.singleton_append]
      exact List.perm_middle

theorem hangs_withChild
    (owns : Owns links heap root)
    (reached : walk links heap root way = some pointer)
    (held : heap.object pointer = some object)
    (free : object.links.lookup slot = none) (segment : StdString) :
    Hangs links heap pointer object (object.withChild slot heap.next)
      (ofValue segment) slot where
  held := held
  free := free
  adds other := lookup_links_withChild free heap.next other
  keys := by
    have keys := owns.keyed way pointer object reached held
    rw [((links_withChild_perm free heap.next).map Prod.fst).nodup_iff,
      List.map_cons, List.nodup_cons]
    refine ⟨?_, keys⟩
    intro member
    rcases List.mem_map.mp member with ⟨⟨key, child⟩, linked, rfl⟩
    rw [(lookup_eq_some_iff_mem keys).mpr linked] at free
    cases free
  leaf := rfl

/-- `Represents` for an object, but for the child under one slot. -/
def RepresentsApart
    (heap : Heap (NodeObject β)) (pointer : Nat) (slot : Slot StdString)
    (node : Node β) : Prop :=
  ∃ object, heap.object pointer = some object ∧ object.Alike node ∧
    ∀ other ≠ slot,
      Option.Rel (Represents heap) (object.links.lookup other)
        (node.child other)

/--
What is under the other slots does not see an operation on the way to the
node or below its slot.
-/
theorem rel_represents_of_kept
    {heap' : Heap (NodeObject β)} {node : Node β}
    (held : heap.object pointer = some object)
    (children : Option.Rel (Represents heap) (object.links.lookup slot)
      (node.child slot))
    (kept : ∀ path other,
      walk links heap pointer (slot :: path) = some other →
        heap'.object other = heap.object other) :
    Option.Rel (Represents heap') (object.links.lookup slot)
      (node.child slot) := by
  cases leads : object.links.lookup slot with
  | none =>
      rw [leads] at children
      cases found : node.child slot with
      | none => exact .none
      | some below =>
          rw [found] at children
          cases children
  | some next =>
      rw [leads] at children
      cases found : node.child slot with
      | none =>
          rw [found] at children
          cases children
      | some below =>
          rw [found] at children
          cases children with
          | some represents =>
              refine .some (represents.congr fun path other reached => ?_)
              apply kept path
              rw [walk_cons heap held, leads, Option.bind_some, reached]

/--
What `insertChild` does: the node it returns is behind the slot of the
segment, and nothing else has changed.
-/
theorem insertChild_represents
    {node : Node β} {segment : StdString} (nonempty : segment ≠ [])
    (owns : Owns links heap root)
    (reached : walk links heap root way = some pointer)
    (represents : Represents heap pointer node) :
    ∃ child heap',
      insertChild pointer segment heap = some (child, heap') ∧
        Grows links root way heap heap' ∧
          walk links heap' root (way ++ [(segmentOf segment).slot]) =
            some child ∧
          Represents heap' child (node.slotFor segment) ∧
            ∀ edit, RepresentsApart heap' pointer (segmentOf segment).slot
              (node.insertChild segment edit) := by
  obtain ⟨object, held, alike, children⟩ := represents_iff.mp represents
  have own := children (segmentOf segment).slot
  cases leads : object.links.lookup (segmentOf segment).slot with
  | some existing =>
      rw [leads] at own
      cases found : node.child (segmentOf segment).slot with
      | none =>
          rw [found] at own
          cases own
      | some below =>
          rw [found] at own
          have same : node.slotFor segment = below := by
            rw [Node.slotFor, found, Option.getD_some]
          cases own with
          | some represented =>
              refine
                ⟨existing, heap, insertChild_existing nonempty held leads,
                  Grows.refl owns, ?_, same ▸ represented, fun edit => ?_⟩
              · rw [walk_append, reached, Option.bind_some,
                  walk_cons heap held, leads, Option.bind_some, walk_nil]
              · refine
                  ⟨object, held,
                    alike.insertChild_existing nonempty found edit,
                    fun other apart => ?_⟩
                rw [Node.insertChild_child nonempty, if_neg apart]
                exact children other
  | none =>
      rw [leads] at own
      cases found : node.child (segmentOf segment).slot with
      | some below =>
          rw [found] at own
          cases own
      | none =>
          have same : node.slotFor segment = Node.ofValue segment := by
            rw [Node.slotFor, found, Option.getD_none]
          have hangs := hangs_withChild owns reached held leads segment
          have apart : pointer ≠ heap.next := (owns.sound.lt_next held).ne
          refine
            ⟨heap.next, _, insertChild_fresh nonempty held leads,
              grows_hang owns reached hangs, ?_, ?_, fun edit => ?_⟩
          · rw [walk_hang owns hangs reached, if_pos rfl]
          · rw [same]
            apply represents_ofValue
            rw [hang_object, if_neg apart.symm, if_pos rfl]
          · refine
              ⟨_, by rw [hang_object, if_pos rfl],
                alike.insertChild_fresh nonempty found heap.next edit,
                fun other others => ?_⟩
            rw [lookup_links_withChild leads, if_neg others,
              Node.insertChild_child nonempty, if_neg others]
            apply rel_represents_of_kept held (children other)
            intro path below there
            have whole :
                walk links heap root (way ++ other :: path) =
                  some below := by
              rw [walk_append, reached, Option.bind_some, there]
            obtain ⟨object', held'⟩ := owns.there _ below whole
            have old : below ≠ heap.next := (owns.sound.lt_next held').ne
            have lower : below ≠ pointer := by
              rintro rfl
              simpa using owns.alone _ _ below whole reached
            rw [hang_object, if_neg lower, if_neg old]

/--
The node with the child under its slot, when the insertion has gone on
below that.
-/
theorem RepresentsApart.represents
    {heap' : Heap (NodeObject β)} {child : Nat} {node below : Node β}
    (apart : RepresentsApart heap pointer slot node)
    (owns : Owns links heap root)
    (reached : walk links heap root way = some pointer)
    (leads : walk links heap root (way ++ [slot]) = some child)
    (grows : Grows links root (way ++ [slot]) heap heap')
    (own : node.child slot = some below)
    (represents : Represents heap' child below) :
    Represents heap' pointer node := by
  obtain ⟨object, held, alike, children⟩ := apart
  have kept : heap'.object pointer = some object := by
    rw [← held]
    apply grows.frame pointer (owns.sound.lt_next held)
    intro more found
    simpa using owns.alone _ _ pointer found reached
  rw [represents_iff]
  refine ⟨object, kept, alike, fun other => ?_⟩
  by_cases same : other = slot
  · rw [walk_append, reached, Option.bind_some, walk_cons heap held] at leads
    rcases Option.bind_eq_some_iff.mp leads with ⟨next, linked, here⟩
    rw [same, linked, own, Option.some.inj here]
    exact .some represents
  · apply rel_represents_of_kept held (children other same)
    intro path lower there
    have whole :
        walk links heap root (way ++ other :: path) = some lower := by
      rw [walk_append, reached, Option.bind_some, there]
    obtain ⟨object', held'⟩ := owns.there _ lower whole
    apply grows.frame lower (owns.sound.lt_next held')
    intro more found
    have ways := owns.alone _ _ lower found whole
    rw [List.append_assoc, List.append_cancel_left_eq] at ways
    exact same (List.cons.inj ways).1.symm

theorem insertSegments_nil
    (func : Option β) (held : heap.object pointer = some object) :
    insertSegments [] func pointer heap =
      some (pointer,
        heap.store pointer
          { object with isLeaf := true, handler := func }) := by
  simp only [insertSegments, insertLoop, Option.bind_eq_bind,
    Option.bind_some, held]

theorem insertSegments_cons
    (segment : StdString) (rest : List StdString) (func : Option β)
    (curr : Nat) :
    insertSegments (segment :: rest) func curr heap =
      (insertChild curr segment heap).bind fun found =>
        insertSegments rest func found.1 found.2 := by
  simp only [insertSegments, insertLoop, Option.bind_eq_bind,
    Option.bind_assoc]

/--
The loop of `insert` on the objects does what the insertion does to the
node as a value.  The induction is on the segments: the first is below the
node, and the others are below that.
-/
theorem insertSegments_represents
    (segments : List StdString) (func : Option β) {node : Node β}
    (owns : Owns links heap root)
    (reached : walk links heap root way = some pointer)
    (represents : Represents heap pointer node) :
    ∃ target heap',
      insertSegments segments func pointer heap = some (target, heap') ∧
        Grows links root way heap heap' ∧
          Represents heap' pointer
            (Node.insertSegments segments func node) := by
  induction segments generalizing heap pointer way node with
  | nil =>
      obtain ⟨object, held, alike, children⟩ := represents_iff.mp represents
      refine
        ⟨pointer, _, insertSegments_nil func held, ?_, ?_⟩
      · exact grows_store owns reached held rfl
      rw [represents_iff]
      refine
        ⟨_, (Heap.store_object ..).trans (if_pos rfl),
          ⟨alike.value, rfl, alike.keys, alike.paramChild, rfl,
            alike.isParameter, alike.parameterName⟩, fun slot => ?_⟩
      have same :
          (Node.insertSegments [] func node).child slot =
            node.child slot := by
        cases slot <;> rfl
      rw [same]
      apply rel_represents_of_kept held (children slot)
      intro path below there
      have lower : below ≠ pointer := by
        rintro rfl
        have whole :
            walk links heap root (way ++ slot :: path) = some below := by
          rw [walk_append, reached, Option.bind_some, there]
        simpa using owns.alone _ _ below whole reached
      rw [Heap.store_object, if_neg lower]
  | cons segment rest induction =>
      rw [insertSegments_cons, Node.insertSegments]
      by_cases empty : segment = []
      · rw [insertChild, if_pos empty, Node.insertChild, if_pos empty,
          Option.bind_some]
        exact induction owns reached represents
      · obtain ⟨child, heap', hung, grows, leads, own, apart⟩ :=
          insertChild_represents empty owns reached represents
        obtain ⟨target, heap'', inserted, grows', below⟩ :=
          induction grows.owns leads own
        refine
          ⟨target, heap'', by rw [hung, Option.bind_some, inserted],
            grows.trans owns grows', ?_⟩
        apply
          (apart (Node.insertSegments rest func)).represents grows.owns
            (grows.paths way pointer reached) leads grows' _ below
        rw [Node.insertChild_child empty, if_pos rfl]

end Insertion

/-! ## Search -/

section Search

variable {heap : Heap (NodeObject β)} {pointer : Nat} {object : NodeObject β}
  {node : Node β}

/--
A place below a pointer and below the node it stands for, with the object
and the node there.
-/
structure Leads
    (heap : Heap (NodeObject β)) (start : Nat) (value : Node β)
    (place : Shape StdString) (pointer : Nat) (node : Node β) : Prop where
  reached : walk links heap start place = some pointer
  walked : value.walk place = some node
  represents : Represents heap pointer node

/--
The outcomes of two searches: a pointer and a node found at the same place,
and the same parameters.
-/
inductive Agrees (heap : Heap (NodeObject β)) (start : Nat) (value : Node β) :
    Option Nat × StdMap → Option (Node β) × StdMap → Prop
  | hit {place : Shape StdString} {pointer : Nat} {node : Node β}
      (leads : Leads heap start value place pointer node) (params : StdMap) :
      Agrees heap start value (some pointer, params) (some node, params)
  | miss (params : StdMap) :
      Agrees heap start value (none, params) (none, params)

theorem Agrees.below
    {outcome : Option Nat × StdMap} {found : Option (Node β) × StdMap}
    {slot : Slot StdString} {child : Nat} {below : Node β}
    (agrees : Agrees heap child below outcome found)
    (held : heap.object pointer = some object)
    (linked : object.links.lookup slot = some child)
    (inside : node.child slot = some below) :
    Agrees heap pointer node outcome found := by
  cases agrees with
  | miss params => exact .miss params
  | @hit place _ _ leads params =>
      have placed : Leads heap pointer node (slot :: place) _ _ :=
        { reached := by
            rw [walk_cons heap held, linked, Option.bind_some, leads.reached]
          walked := by rw [Node.walk, inside, Option.bind_some, leads.walked]
          represents := leads.represents }
      exact .hit placed params

theorem Agrees.leads
    {start : Nat} {value : Node β} {outcome : Option Nat × StdMap}
    {found : Option (Node β) × StdMap}
    (agrees : Agrees heap start value outcome found)
    (hit : outcome.1 = some pointer) :
    ∃ place node, found.1 = some node ∧
      Leads heap start value place pointer node := by
  cases agrees with
  | miss params => cases hit
  | hit leads params =>
      obtain rfl := Option.some.inj hit
      exact ⟨_, _, rfl, leads⟩

theorem findParam_agrees
    (held : heap.object pointer = some object)
    (children : Option.Rel (Represents heap) (object.links.lookup .wild)
      (node.child .wild))
    (segment : StdString)
    {search : Nat → StdMap → Option (Option Nat × StdMap)}
    {search' : Node β → StdMap → Option (Node β) × StdMap}
    (searches : ∀ child below params, Represents heap child below →
      ∃ outcome, search child params = some outcome ∧
        Agrees heap child below outcome (search' below params))
    (params : StdMap) :
    ∃ outcome, findParam heap object segment search params = some outcome ∧
      Agrees heap pointer node outcome
        (node.findParam segment search' params) := by
  rw [lookup_links_wild, Node.child] at children
  unfold findParam Node.findParam
  cases leads : object.paramChild with
  | none =>
      rw [leads] at children
      cases found : node.paramChild with
      | some below =>
          rw [found] at children
          cases children
      | none => exact ⟨_, rfl, .miss params⟩
  | some child =>
      rw [leads] at children
      cases found : node.paramChild with
      | none =>
          rw [found] at children
          cases children
      | some below =>
          rw [found] at children
          cases children with
          | some represents =>
              obtain ⟨own, there, alike, -⟩ := represents_iff.mp represents
              obtain ⟨outcome, searched, agrees⟩ :=
                searches child below
                  (params.insert below.parameterName segment) represents
              have inside : node.child .wild = some below := found
              have agrees' :=
                agrees.below held (by rw [lookup_links_wild, leads]) inside
              simp only [there, alike.parameterName, Option.bind_eq_bind,
                Option.bind_some, searched]
              generalize search' below
                (params.insert below.parameterName segment) = result
                  at agrees'
              cases agrees' with
              | hit leads bound => exact ⟨_, rfl, .hit leads bound⟩
              | miss bound =>
                  cases params[below.parameterName]? with
                  | some saved => exact ⟨_, rfl, .miss _⟩
                  | none => exact ⟨_, rfl, .miss _⟩

/-- The search on the objects is the search in the node as a value. -/
theorem findFrom_agrees
    (segments : List StdString) (represents : Represents heap pointer node)
    (params : StdMap) :
    ∃ outcome, findFrom heap segments pointer params = some outcome ∧
      Agrees heap pointer node outcome (node.findFrom segments params) := by
  induction segments generalizing pointer node params with
  | nil =>
      have represented := represents
      obtain ⟨object, held, alike, -⟩ := represents_iff.mp represented
      simp only [findFrom, Node.findFrom, held, Option.bind_eq_bind,
        Option.bind_some, alike.handler]
      refine ⟨_, rfl, ?_⟩
      split_ifs
      · have own : Leads heap pointer node [] pointer node :=
          ⟨rfl, rfl, represents⟩
        exact .hit own params
      · exact .miss params
  | cons segment rest induction =>
      obtain ⟨object, held, -, children⟩ := represents_iff.mp represents
      have parameter (params : StdMap) :=
        findParam_agrees held (children .wild) segment
          (fun child below params represents => induction represents params)
          params
      have literal := children (.literal segment)
      rw [lookup_links_literal, Node.child] at literal
      simp only [findFrom, Node.findFrom, held, Option.bind_eq_bind,
        Option.bind_some]
      cases leads : object.children.lookup segment with
      | none =>
          rw [leads] at literal
          cases found : node.children.lookup segment with
          | some below =>
              rw [found] at literal
              cases literal
          | none => exact parameter params
      | some child =>
          rw [leads] at literal
          cases found : node.children.lookup segment with
          | none =>
              rw [found] at literal
              cases literal
          | some below =>
              rw [found] at literal
              cases literal with
              | some represented =>
                  obtain ⟨outcome, searched, agrees⟩ :=
                    induction represented params
                  have inside :
                      node.child (.literal segment) = some below :=
                    found
                  have agrees' :=
                    agrees.below held (by rw [lookup_links_literal, leads])
                      inside
                  simp only [searched, Option.bind_some]
                  generalize below.findFrom rest params = result at agrees'
                  cases agrees' with
                  | hit leads bound => exact ⟨_, rfl, .hit leads bound⟩
                  | miss bound => exact parameter bound

end Search

/-! ## The destructor -/

/-- What a destructor deletes, in the order in which it does. -/
def deletes
    (order : List (StdString × Nat) → List (StdString × Nat))
    (object : NodeObject β) : List (Slot StdString × Nat) :=
  links { object with children := order object.children }

theorem deletes_perm
    {order : List (StdString × Nat) → List (StdString × Nat)}
    (ordered : ∀ entries, (order entries).Perm entries)
    (object : NodeObject β) :
    (deletes order object).Perm object.links :=
  ((ordered object.children).map _).append_right _

/-- `delete` takes a tree of objects away. -/
theorem delete_eq_destroy
    (order : List (StdString × Nat) → List (StdString × Nat)) (fuel : Nat)
    (pointer : Nat) (heap : Heap (NodeObject β)) :
    delete order fuel pointer heap =
      destroy (deletes order) fuel pointer heap := by
  induction fuel generalizing pointer heap with
  | zero => rfl
  | succ fuel induction =>
      rw [delete, destroy]
      cases heap.object pointer with
      | none => rfl
      | some object =>
          simp only [induction, Option.bind_eq_bind, Option.bind_some,
            deletes, links, List.foldlM_append, List.foldlM_map]
          cases object.paramChild with
          | none => simp [Option.map_eq_bind]
          | some child => simp [Option.map_eq_bind, Option.bind_assoc]

end NodeObject

namespace TrieObject

variable {β : Type}

open NodeObject

/-! ## After any insertions -/

/-- The trie after the calls. -/
def ofCalls (calls : List (TrieCall β)) : Option (TrieObject β) :=
  calls.foldlM (fun trie call => trie.insert call.path (some call.handler))
    new

/-- The root owns all objects, and they are the trie as a value. -/
structure StandsFor (trie : TrieObject β) (value : Trie β) : Prop where
  owns : Owns links trie.heap trie.root
  represents : NodeObject.Represents trie.heap trie.root value.root

theorem new_standsFor : (new : TrieObject β).StandsFor Trie.new := by
  have held :
      (Heap.empty.new (NodeObject.default : NodeObject β)).object 0 =
        some NodeObject.default := by
    rw [Heap.new_object, Heap.empty, if_pos rfl]
  have only (path : List (Slot StdString)) (pointer : Nat)
      (found :
        walk links (Heap.empty.new (NodeObject.default : NodeObject β)) 0
          path = some pointer) : path = [] ∧ pointer = 0 := by
    cases path with
    | nil => exact ⟨rfl, (Option.some.inj found).symm⟩
    | cons slot path =>
        rw [walk_cons _ held] at found
        cases found
  constructor
  · refine
      { there := ?_
        alone := ?_
        keyed := ?_
        sound := Heap.sound_empty.new _
        covers := ?_ }
    · intro path pointer found
      rw [(only path pointer found).2]
      exact ⟨_, held⟩
    · intro path path' pointer found found'
      rw [(only path pointer found).1, (only path' pointer found').1]
    · intro path pointer object found there
      rw [(only path pointer found).2] at there
      rw [← Option.some.inj (held.symm.trans there)]
      exact List.nodup_nil
    · intro pointer object there
      refine ⟨[], ?_⟩
      have below := (Heap.sound_empty.new _).lt_next there
      rw [Nat.lt_one_iff.mp below]
      rfl
  · rw [represents_iff]
    refine ⟨_, held, ⟨rfl, rfl, rfl, rfl, rfl, rfl, rfl⟩, fun slot => ?_⟩
    cases slot with
    | literal key => exact .none
    | wild => exact .none

/-- What an insertion does to a trie that stands for a value. -/
theorem insert_standsFor
    {trie : TrieObject β} {value : Trie β} (stands : trie.StandsFor value)
    (path : StdString) (handler : Option β) :
    ∃ trie', trie.insert path handler = some trie' ∧
      trie'.StandsFor (value.insert path handler) ∧
        ∀ place pointer, walk links trie.heap trie.root place = some pointer →
          walk links trie'.heap trie'.root place = some pointer := by
  obtain ⟨target, heap', inserted, grows, represents⟩ :=
    insertSegments_represents (Utils.split path (ascii "/")) handler
      stands.owns (walk_nil trie.heap trie.root) stands.represents
  refine ⟨{ trie with heap := heap' }, ?_, ⟨grows.owns, represents⟩,
    grows.paths⟩
  rw [insert, NodeObject.insert, inserted]
  rfl

/-- From a trie that stands for a value, any calls lead to one. -/
theorem foldlM_standsFor
    (calls : List (TrieCall β)) {trie : TrieObject β} {value : Trie β}
    (stands : trie.StandsFor value) :
    ∃ trie',
      calls.foldlM
          (fun trie call => trie.insert call.path (some call.handler)) trie =
        some trie' ∧
      trie'.StandsFor
        (calls.foldl
          (fun trie call => trie.insert call.path (some call.handler))
          value) ∧
        ∀ place pointer, walk links trie.heap trie.root place = some pointer →
          walk links trie'.heap trie'.root place = some pointer := by
  induction calls generalizing trie value with
  | nil => exact ⟨trie, rfl, stands, fun _ _ found => found⟩
  | cons call calls induction =>
      obtain ⟨middle, inserted, stands', kept⟩ :=
        insert_standsFor stands call.path (some call.handler)
      obtain ⟨trie', finished, stands'', kept'⟩ := induction stands'
      refine ⟨trie', ?_, stands'', fun place pointer found =>
        kept' place pointer (kept place pointer found)⟩
      rw [List.foldlM_cons, inserted]
      exact finished

theorem ofCalls_standsFor (calls : List (TrieCall β)) :
    ∃ trie, ofCalls calls = some trie ∧
      trie.StandsFor (Trie.ofCalls calls) := by
  obtain ⟨trie, inserted, stands, -⟩ := foldlM_standsFor calls new_standsFor
  exact ⟨trie, inserted, stands⟩

theorem searchNode_agrees
    {trie : TrieObject β} {value : Trie β} (stands : trie.StandsFor value)
    (path : StdString) (params : StdMap) :
    ∃ outcome, trie.searchNode path params = some outcome ∧
      Agrees trie.heap trie.root value.root outcome
        (value.searchNode path params) :=
  findFrom_agrees _ stands.represents params

/--
After any calls, a search follows pointers to objects only and finds what
the trie as a value has, at the same place.  The pointer found leads to the
node at this place, whatever is inserted later.
-/
theorem searchNode_ofCalls (calls later : List (TrieCall β)) :
    ∃ trie trie', ofCalls calls = some trie ∧
      ofCalls (calls ++ later) = some trie' ∧
        ∀ path params, ∃ outcome,
          trie.searchNode path params = some outcome ∧
            Agrees trie.heap trie.root (Trie.ofCalls calls).root outcome
              ((Trie.ofCalls calls).searchNode path params) ∧
              ∀ pointer, outcome.1 = some pointer →
                ∃ place node node',
                  ((Trie.ofCalls calls).searchNode path params).1 =
                      some node ∧
                    Leads trie.heap trie.root (Trie.ofCalls calls).root
                      place pointer node ∧
                      Leads trie'.heap trie'.root
                        (Trie.ofCalls (calls ++ later)).root place pointer
                        node' := by
  obtain ⟨trie, inserted, stands⟩ := ofCalls_standsFor calls
  obtain ⟨trie', finished, stands', kept⟩ := foldlM_standsFor later stands
  refine ⟨trie, trie', inserted, ?_, fun path params => ?_⟩
  · rw [ofCalls, List.foldlM_append]
    rw [ofCalls] at inserted
    rw [inserted]
    exact finished
  · obtain ⟨outcome, searched, agrees⟩ := searchNode_agrees stands path params
    refine ⟨outcome, searched, agrees, fun pointer hit => ?_⟩
    obtain ⟨place, node, found, leads⟩ := agrees.leads hit
    have reached := kept place pointer leads.reached
    obtain ⟨node', walked, represents⟩ := stands'.represents.below reached
    refine ⟨place, node, node', found, leads, reached, ?_, represents⟩
    rw [← walked, Trie.ofCalls, Trie.ofCalls, List.foldl_append]

/--
The destructor deletes every node that was created, once, in whatever
order the maps of children are iterated.
-/
theorem delete_ofCalls
    {order : List (StdString × Nat) → List (StdString × Nat)}
    (ordered : ∀ entries, (order entries).Perm entries)
    (calls : List (TrieCall β)) :
    ∃ trie after, ofCalls calls = some trie ∧
      trie.delete order trie.heap.next = some after ∧
        ∀ pointer, after.object pointer = none ∧
          after.deletions pointer =
            if pointer < trie.heap.next then 1 else 0 := by
  obtain ⟨trie, inserted, stands⟩ := ofCalls_standsFor calls
  obtain ⟨after, destroyed, sound, next, gone⟩ :=
    (stands.owns.perm (deletes_perm ordered)).destroy
  refine ⟨trie, after, inserted, ?_, fun pointer => ⟨gone pointer, ?_⟩⟩
  · rw [delete, delete_eq_destroy, destroyed]
  · split_ifs with below
    · exact sound.deleted pointer (next ▸ below) (gone pointer)
    · exact (sound.fresh pointer (next ▸ not_lt.mp below)).2

/--
Two routes with a literal and a parameter below the same node, and maps
that are iterated backwards.
-/
theorem delete_ofCalls_users :
    ∃ trie after,
      ofCalls
          [⟨ascii "/users/:id", (1 : Nat)⟩, ⟨ascii "/users/new", 2⟩,
            ⟨ascii "/posts", 3⟩] = some trie ∧
        trie.delete List.reverse trie.heap.next = some after ∧
          ∀ pointer, after.object pointer = none ∧
            after.deletions pointer =
              if pointer < trie.heap.next then 1 else 0 :=
  delete_ofCalls List.reverse_perm _

end TrieObject

end PlusWeb
