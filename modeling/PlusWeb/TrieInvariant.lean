import PlusWeb.RouteRegistry

/-!
# The representation invariant of the trie

What holds of the nodes after any sequence of insertions: how literal and
parameter children are stored, that every node but the root leads to a
handler, and that the handlers stand at the shapes that were inserted.
-/

namespace PlusWeb

open WildcardTable

namespace Node

variable {β : Type}

/-! ## All nodes -/

mutual

/-- The nodes of the tree, each with the way that leads to it. -/
def nodes : Node β → List (Shape StdString × Node β)
  | ⟨value, isLeaf, children, paramChild, handler, isParameter,
      parameterName⟩ =>
      ([], ⟨value, isLeaf, children, paramChild, handler, isParameter,
        parameterName⟩) ::
        (nodesOfChildren children ++ nodesOfParam paramChild)

def nodesOfChildren :
    List (StdString × Node β) → List (Shape StdString × Node β)
  | [] => []
  | (key, child) :: children =>
      (child.nodes.map fun below => (.literal key :: below.1, below.2)) ++
        nodesOfChildren children

def nodesOfParam : Option (Node β) → List (Shape StdString × Node β)
  | none => []
  | some child =>
      child.nodes.map fun below => (.wild :: below.1, below.2)

end

/-- The nodes behind one slot, seen from above. -/
def nodesBehind (slot : Slot StdString) (child : Node β) :
    List (Shape StdString × Node β) :=
  child.nodes.map fun below => (slot :: below.1, below.2)

theorem mem_nodesBehind
    {slot : Slot StdString} {child hit : Node β} {shape : Shape StdString} :
    (shape, hit) ∈ child.nodesBehind slot ↔
      ∃ rest, shape = slot :: rest ∧ (rest, hit) ∈ child.nodes := by
  simp only [nodesBehind, List.mem_map, Prod.mk.injEq, Prod.exists]
  constructor
  · rintro ⟨rest, node, member, rfl, rfl⟩
    exact ⟨rest, rfl, member⟩
  · rintro ⟨rest, rfl, member⟩
    exact ⟨rest, hit, member, rfl, rfl⟩

theorem nodes_eq (node : Node β) :
    node.nodes =
      ([], node) ::
        ((node.children.flatMap fun entry =>
            entry.2.nodesBehind (.literal entry.1)) ++
          node.paramChild.toList.flatMap fun child =>
            child.nodesBehind .wild) := by
  rcases node with
    ⟨value, isLeaf, children, paramChild, handler, isParameter, name⟩
  have literal :
      nodesOfChildren children =
        children.flatMap fun entry =>
          entry.2.nodesBehind (.literal entry.1) := by
    induction children with
    | nil => rfl
    | cons entry children induction =>
        rw [nodesOfChildren, induction, List.flatMap_cons]
        rfl
  have wild :
      nodesOfParam paramChild =
        paramChild.toList.flatMap fun child => child.nodesBehind .wild := by
    cases paramChild with
    | none => rfl
    | some child =>
        rw [nodesOfParam, Option.toList_some, List.flatMap_singleton]
        rfl
  rw [nodes, literal, wild]

/-! ## The invariant -/

/-- How the children of a node are stored. -/
structure Linked (node : Node β) : Prop where
  distinct : (node.children.map Prod.fst).Nodup
  literal : ∀ entry ∈ node.children,
    entry.2.value = entry.1 ∧ entry.2.isParameter = false ∧
      entry.1 ≠ [] ∧ slash ∉ entry.1 ∧ entry.1.head? ≠ some colon
  parameter : ∀ child ∈ node.paramChild,
    child.isParameter = true ∧ child.value = colon :: child.parameterName

/-- The children of every node are stored in order. -/
inductive WellFormed : Node β → Prop where
  | node {node : Node β} (linked : node.Linked)
      (children : ∀ entry ∈ node.children, WellFormed entry.2)
      (paramChild : ∀ child ∈ node.paramChild, WellFormed child) :
      WellFormed node

theorem WellFormed.linked {node : Node β} (formed : node.WellFormed) :
    node.Linked := by
  cases formed with
  | node linked => exact linked

theorem wellFormed_of_childless
    {node : Node β} (noChildren : node.children = [])
    (noParam : node.paramChild = none) : node.WellFormed := by
  refine .node ⟨?_, ?_, ?_⟩ ?_ ?_ <;> simp [noChildren, noParam]

/-- A segment that `split` can yield. -/
def ProperSegment (segment : StdString) : Prop :=
  segment ≠ [] ∧ slash ∉ segment

/-- Two nodes with the same value, kind and name. -/
structure SameLabel (node node' : Node β) : Prop where
  value : node'.value = node.value
  isParameter : node'.isParameter = node.isParameter
  parameterName : node'.parameterName = node.parameterName

/-- Insertion below a node leaves its own label alone. -/
theorem insertSegments_label
    (segments : List StdString) (func : Option β) (node : Node β) :
    node.SameLabel (insertSegments segments func node) := by
  induction segments generalizing node with
  | nil => exact ⟨rfl, rfl, rfl⟩
  | cons segment rest induction =>
      rw [insertSegments, insertChild]
      split_ifs
      · exact induction node
      · split <;> exact ⟨rfl, rfl, rfl⟩
      · split <;> exact ⟨rfl, rfl, rfl⟩

theorem ofValue_literal
    {segment : StdString} (literal : segment.head? ≠ some colon) :
    (ofValue segment : Node β).isParameter = false :=
  decide_eq_false literal

theorem ofValue_parameter
    {segment : StdString} (parameter : segment.head? = some colon) :
    (ofValue segment : Node β).isParameter = true ∧
      segment = colon :: (ofValue segment : Node β).parameterName := by
  refine ⟨decide_eq_true parameter, ?_⟩
  cases segment with
  | nil => cases parameter
  | cons letter rest =>
      obtain rfl := Option.some.inj parameter
      rfl

section InsertChild

variable {node : Node β} {segment : StdString} {edit : Node β → Node β}
  (keeps : ∀ child : Node β, child.WellFormed → (edit child).WellFormed)
  (label : ∀ child : Node β, child.SameLabel (edit child))

include keeps label

/-- A new or edited parameter child. -/
theorem wellFormed_setParam
    (formed : node.WellFormed) {child : Node β} (childFormed : child.WellFormed)
    (parameter :
      child.isParameter = true ∧ child.value = colon :: child.parameterName)
    (leaf : Bool) :
    WellFormed
      { node with paramChild := some (edit child), isLeaf := leaf } := by
  rcases formed with ⟨linked, children, -⟩
  have own := label child
  refine .node ⟨linked.distinct, linked.literal, ?_⟩ children ?_
  · rintro _ ⟨⟩
    rw [own.isParameter, own.value, own.parameterName]
    exact parameter
  · rintro _ ⟨⟩
    exact keeps child childFormed

/-- A new or edited literal child. -/
theorem wellFormed_setLiteral
    (formed : node.WellFormed) (proper : ProperSegment segment)
    (literal : segment.head? ≠ some colon) :
    (node.insertChild segment edit).WellFormed := by
  rcases formed with ⟨linked, children, paramChild⟩
  rw [insertChild, if_neg proper.1, if_neg literal]
  cases found : node.children.lookup segment with
  | some existing =>
      rcases List.lookup_eq_some_iff.mp found with ⟨front, back, cut, -⟩
      have held : (segment, existing) ∈ node.children := by
        rw [cut]
        simp
      have own := label existing
      have keys :
          (node.children.map fun entry =>
              if entry.1 = segment then (segment, edit existing)
              else entry).map Prod.fst =
            node.children.map Prod.fst := by
        rw [List.map_map]
        refine List.map_congr_left fun entry _ => ?_
        by_cases same : entry.1 = segment <;> simp [same]
      refine .node ⟨?_, ?_, linked.parameter⟩ ?_ paramChild
      · rw [keys]
        exact linked.distinct
      · intro entry member
        rcases List.mem_map.mp member with ⟨old, inside, rfl⟩
        split_ifs
        · rw [own.value, own.isParameter]
          exact linked.literal _ held
        · exact linked.literal old inside
      · intro entry member
        rcases List.mem_map.mp member with ⟨old, inside, rfl⟩
        split_ifs
        · exact keeps existing (children _ held)
        · exact children old inside
  | none =>
      have own := label (ofValue segment)
      have absent : segment ∉ node.children.map Prod.fst := by
        intro member
        rcases List.mem_map.mp member with ⟨entry, inside, same⟩
        simpa [same] using List.lookup_eq_none_iff.mp found entry inside
      refine .node ⟨?_, ?_, linked.parameter⟩ ?_ paramChild
      · rw [List.map_append, List.nodup_append]
        refine ⟨linked.distinct, List.nodup_singleton _, ?_⟩
        intro key inside other fresh same
        obtain rfl := List.mem_singleton.mp fresh
        exact absent (same ▸ inside)
      · intro entry member
        rcases List.mem_append.mp member with old | fresh
        · exact linked.literal entry old
        · obtain rfl := List.mem_singleton.mp fresh
          rw [own.value, own.isParameter]
          exact ⟨rfl, ofValue_literal literal, proper.1, proper.2, literal⟩
      · intro entry member
        rcases List.mem_append.mp member with old | fresh
        · exact children entry old
        · obtain rfl := List.mem_singleton.mp fresh
          exact keeps _ (wellFormed_of_childless rfl rfl)

theorem wellFormed_insertChild
    (formed : node.WellFormed) (proper : ProperSegment segment) :
    (node.insertChild segment edit).WellFormed := by
  by_cases parameter : segment.head? = some colon
  · rw [insertChild, if_neg proper.1, if_pos parameter]
    cases existing : node.paramChild with
    | none =>
        exact
          wellFormed_setParam keeps label formed
            (wellFormed_of_childless rfl rfl) (ofValue_parameter parameter)
            false
    | some child =>
        rcases formed with ⟨linked, children, paramChild⟩
        exact
          wellFormed_setParam keeps label (.node linked children paramChild)
            (paramChild child existing) (linked.parameter child existing)
            node.isLeaf
  · exact wellFormed_setLiteral keeps label formed proper parameter

end InsertChild

/-- Insertion keeps the invariant. -/
theorem wellFormed_insertSegments
    {segments : List StdString}
    (proper : ∀ segment ∈ segments, ProperSegment segment)
    (func : Option β) {node : Node β} (formed : node.WellFormed) :
    (insertSegments segments func node).WellFormed := by
  induction segments generalizing node with
  | nil =>
      rcases formed with ⟨linked, children, paramChild⟩
      exact .node ⟨linked.distinct, linked.literal, linked.parameter⟩ children
        paramChild
  | cons segment rest induction =>
      rcases List.forall_mem_cons.mp proper with ⟨first, later⟩
      exact
        wellFormed_insertChild (fun child => induction later)
          (insertSegments_label rest func) formed first

/-! ## Ways and nodes -/

theorem walk_append
    (node : Node β) (front back : Shape StdString) :
    node.walk (front ++ back) =
      (node.walk front).bind fun reached => reached.walk back := by
  induction front generalizing node with
  | nil => rfl
  | cons slot front induction =>
      rw [List.cons_append, walk_cons, walk_cons, Option.bind_assoc]
      exact congrArg _ (funext induction)

theorem WellFormed.child
    {node child : Node β} (formed : node.WellFormed) {slot : Slot StdString}
    (reached : node.child slot = some child) : child.WellFormed := by
  rcases formed with ⟨linked, children, paramChild⟩
  cases slot with
  | wild => exact paramChild child reached
  | literal segment =>
      rcases
        List.lookup_eq_some_iff.mp
          (reached : node.children.lookup segment = some child) with
        ⟨front, back, cut, -⟩
      exact children (segment, child) (by rw [cut]; simp)

theorem WellFormed.walk
    {node target : Node β} (formed : node.WellFormed)
    {shape : Shape StdString} (walked : node.walk shape = some target) :
    target.WellFormed := by
  induction shape generalizing node with
  | nil =>
      obtain rfl := Option.some.inj walked
      exact formed
  | cons slot shape induction =>
      rcases Option.bind_eq_some_iff.mp walked with ⟨child, reached, below⟩
      exact induction (formed.child reached) below

/-- A literal child is found under its key. -/
theorem Linked.child_literal_iff
    {node child : Node β} (linked : node.Linked) {segment : StdString} :
    node.child (.literal segment) = some child ↔
      (segment, child) ∈ node.children := by
  change node.children.lookup segment = some child ↔ _
  constructor
  · intro found
    rcases List.lookup_eq_some_iff.mp found with ⟨front, back, cut, -⟩
    rw [cut]
    simp
  · intro member
    rcases List.append_of_mem member with ⟨front, back, cut⟩
    refine List.lookup_eq_some_iff.mpr ⟨front, back, cut, ?_⟩
    intro entry before
    have distinct := linked.distinct
    rw [cut, List.map_append, List.nodup_append] at distinct
    have different :=
      distinct.2.2 entry.1 (List.mem_map_of_mem before) segment (by simp)
    simpa using Ne.symm different

/-- The nodes are those the ways lead to. -/
theorem WellFormed.mem_nodes_iff
    {node hit : Node β} (formed : node.WellFormed)
    {shape : Shape StdString} :
    (shape, hit) ∈ node.nodes ↔ node.walk shape = some hit := by
  induction shape generalizing node with
  | nil =>
      rw [nodes_eq, walk_nil, List.mem_cons, List.mem_append,
        List.mem_flatMap, List.mem_flatMap]
      constructor
      · rintro (own | ⟨entry, -, behind⟩ | ⟨child, -, behind⟩)
        · exact congrArg some (Prod.mk.inj own).2.symm
        · rcases mem_nodesBehind.mp behind with ⟨rest, impossible, -⟩
          cases impossible
        · rcases mem_nodesBehind.mp behind with ⟨rest, impossible, -⟩
          cases impossible
      · rintro ⟨⟩
        exact Or.inl rfl
  | cons slot shape induction =>
      have inside :
          (slot :: shape, hit) ∈ node.nodes ↔
            ∃ child, node.child slot = some child ∧
              (shape, hit) ∈ child.nodes := by
        rw [nodes_eq, List.mem_cons, List.mem_append, List.mem_flatMap,
          List.mem_flatMap]
        cases slot with
        | literal segment =>
            simp only [formed.linked.child_literal_iff]
            simp [mem_nodesBehind]
        | wild =>
            change _ ↔ ∃ child, node.paramChild = some child ∧ _
            simp [mem_nodesBehind]
      rw [inside, walk_cons, Option.bind_eq_some_iff]
      constructor
      · rintro ⟨child, reached, below⟩
        exact ⟨child, reached, (induction (formed.child reached)).mp below⟩
      · rintro ⟨child, reached, below⟩
        exact ⟨child, reached, (induction (formed.child reached)).mpr below⟩

theorem shapes_nodesBehind (slot : Slot StdString) (child : Node β) :
    (child.nodesBehind slot).map Prod.fst =
      (child.nodes.map Prod.fst).map (slot :: ·) := by
  rw [nodesBehind, List.map_map, List.map_map]
  rfl

/-- The shapes behind different slots differ. -/
theorem disjoint_nodesBehind
    {slot slot' : Slot StdString} (different : slot ≠ slot')
    (child child' : Node β) :
    List.Disjoint ((child.nodesBehind slot).map Prod.fst)
      ((child'.nodesBehind slot').map Prod.fst) := by
  intro shape first second
  rw [shapes_nodesBehind, List.mem_map] at first second
  rcases first with ⟨rest, -, rfl⟩
  rcases second with ⟨rest', -, same⟩
  exact different (List.cons.inj same).1.symm

/-- No two nodes stand at one shape. -/
theorem WellFormed.nodup_shapes
    {node : Node β} (formed : node.WellFormed) :
    (node.nodes.map Prod.fst).Nodup := by
  induction formed with
  | @node node linked children paramChild below belowParam =>
      have behind {slot : Slot StdString} {child : Node β}
          (distinct : (child.nodes.map Prod.fst).Nodup) :
          ((child.nodesBehind slot).map Prod.fst).Nodup := by
        rw [shapes_nodesBehind]
        exact distinct.map (List.cons_injective)
      rw [nodes_eq, List.map_cons, List.map_append, List.map_flatMap,
        List.map_flatMap, List.nodup_cons, List.nodup_append']
      refine ⟨?_, ?_, ?_, ?_⟩
      · simp only [List.mem_append, List.mem_flatMap, shapes_nodesBehind,
          List.mem_map]
        rintro (⟨_, -, _, -, impossible⟩ | ⟨_, -, _, -, impossible⟩) <;>
          cases impossible
      · rw [List.nodup_flatMap]
        refine ⟨fun entry member => behind (below entry member), ?_⟩
        have apart := List.pairwise_map.mp linked.distinct
        exact apart.imp fun different =>
          disjoint_nodesBehind (fun same => different (Slot.literal.inj same))
            _ _
      · rw [List.nodup_flatMap]
        refine
          ⟨fun child member => behind (belowParam child (by simpa using member)),
            ?_⟩
        cases node.paramChild <;> simp
      · intro shape first second
        rcases List.mem_flatMap.mp first with ⟨entry, -, literal⟩
        rcases List.mem_flatMap.mp second with ⟨child, -, wild⟩
        exact
          disjoint_nodesBehind (by simp) entry.2 child literal wild

/-! ## The ways after an insertion -/

section Insertion

variable {segment : StdString} {rest : List StdString} {func : Option β}

theorem walk_ofValue (segment : StdString) (shape : Shape StdString) :
    (ofValue segment : Node β).walk shape =
      if shape = [] then some (ofValue segment) else none := by
  cases shape with
  | nil => rfl
  | cons slot shape => cases slot <;> rfl

/--
Behind the slot of its first segment an insertion is the insertion of the
rest, behind the others nothing changes.
-/
theorem walk_insertSegments_cons
    (nonempty : segment ≠ []) (node : Node β)
    (slot : Slot StdString) (shape : Shape StdString) :
    (insertSegments (segment :: rest) func node).walk (slot :: shape) =
      if slot = (segmentOf segment).slot then
        (insertSegments rest func (node.slotFor segment)).walk shape
      else node.walk (slot :: shape) := by
  rw [insertSegments, walk_cons, insertChild_child nonempty]
  split_ifs <;> rfl

theorem walk_insertSegments_nil
    (node : Node β) (slot : Slot StdString) (shape : Shape StdString) :
    (insertSegments [] func node).walk (slot :: shape) =
      node.walk (slot :: shape) := by
  cases slot <;> rfl

/-- An insertion makes the nodes on the way to its end, and no others. -/
theorem walk_insertSegments_isSome_iff
    {segments : List StdString}
    (nonempty : ∀ segment ∈ segments, segment ≠ [])
    (func : Option β) (node : Node β) (shape : Shape StdString) :
    ((insertSegments segments func node).walk shape).isSome ↔
      (node.walk shape).isSome ∨ shape <+: shapeOf segments := by
  induction segments generalizing node shape with
  | nil =>
      cases shape with
      | nil => simp
      | cons slot shape =>
          rw [walk_insertSegments_nil]
          simp [shapeOf]
  | cons segment rest induction =>
      rcases List.forall_mem_cons.mp nonempty with ⟨first, later⟩
      cases shape with
      | nil => simp
      | cons slot shape =>
          rw [walk_insertSegments_cons first, shapeOf_cons,
            List.cons_prefix_cons]
          by_cases own : slot = (segmentOf segment).slot
          · rw [if_pos own, induction later, slotFor, walk_cons, own]
            cases node.child (segmentOf segment).slot with
            | some below => simp
            | none =>
                by_cases ended : shape = [] <;>
                  simp [walk_ofValue, ended]
          · simp [own]

end Insertion

end Node

/-! ## After any insertions -/

/-- A call of `Trie::insert` with a handler that is not empty. -/
structure TrieCall (β : Type) where
  path : StdString
  handler : β

namespace TrieCall

variable {β : Type}

/-- The segments of the path. -/
def segments (call : TrieCall β) : List StdString :=
  Utils.pieces slash call.path

/-- The segments up to parameter names. -/
def shape (call : TrieCall β) : Shape StdString := shapeOf call.segments

theorem segments_proper (call : TrieCall β) :
    ∀ segment ∈ call.segments, Node.ProperSegment segment :=
  fun _ member => Utils.mem_pieces member

end TrieCall

namespace Trie

variable {β : Type}

/-- The trie after the calls. -/
def ofCalls (calls : List (TrieCall β)) : Trie β :=
  calls.foldl (fun trie call => trie.insert call.path (some call.handler)) new

theorem ofCalls_append_singleton
    (calls : List (TrieCall β)) {call : TrieCall β}
    (free : (0 : UInt8) ∉ call.path) :
    (ofCalls (calls ++ [call])).root =
      Node.insertSegments call.segments (some call.handler)
        (ofCalls calls).root := by
  rw [ofCalls, List.foldl_append]
  change Node.insert _ _ _ = _
  rw [Node.insert, split_slash, StdString.cStr_eq_self free]
  rfl

section Calls

variable {calls : List (TrieCall β)}
  (free : ∀ call ∈ calls, (0 : UInt8) ∉ call.path)

include free

theorem wellFormed_ofCalls : (ofCalls calls).root.WellFormed := by
  induction calls using List.reverseRecOn with
  | nil => exact Node.wellFormed_of_childless rfl rfl
  | append_singleton calls call induction =>
      rcases List.forall_mem_append.mp free with ⟨before, own⟩
      rw [ofCalls_append_singleton calls (own call (by simp))]
      exact
        Node.wellFormed_insertSegments call.segments_proper _
          (induction before)

/-- The table of the trie is the table of the calls. -/
theorem table_ofCalls :
    (ofCalls calls).root.table =
      Table.ofLog (calls.map fun call =>
        (patternOf call.segments, call.handler)) := by
  induction calls using List.reverseRecOn with
  | nil => exact Node.table_default
  | append_singleton calls call induction =>
      rcases List.forall_mem_append.mp free with ⟨before, own⟩
      rw [ofCalls_append_singleton calls (own call (by simp)),
        Node.insertSegments_table fun segment member =>
          (call.segments_proper segment member).1,
        induction before, Table.ofLog, Table.ofLog, List.map_append,
        List.foldl_append]
      rfl

/-- There is a node at each beginning of a shape that was inserted. -/
theorem walk_ofCalls_isSome_iff (shape : Shape StdString) :
    ((ofCalls calls).root.walk shape).isSome ↔
      shape = [] ∨ ∃ call ∈ calls, shape <+: call.shape := by
  induction calls using List.reverseRecOn with
  | nil =>
      cases shape with
      | nil => simp
      | cons slot shape => cases slot <;> simp [ofCalls, new, Node.default, Node.child]
  | append_singleton calls call induction =>
      rcases List.forall_mem_append.mp free with ⟨before, own⟩
      rw [ofCalls_append_singleton calls (own call (by simp)),
        Node.walk_insertSegments_isSome_iff fun segment member =>
          (call.segments_proper segment member).1,
        induction before]
      simp only [List.mem_append, List.mem_singleton, TrieCall.shape]
      constructor
      · rintro ((root | ⟨other, member, inside⟩) | inside)
        · exact Or.inl root
        · exact Or.inr ⟨other, Or.inl member, inside⟩
        · exact Or.inr ⟨call, Or.inr rfl, inside⟩
      · rintro (root | ⟨other, member | rfl, inside⟩)
        · exact Or.inl (Or.inl root)
        · exact Or.inl (Or.inr ⟨other, member, inside⟩)
        · exact Or.inr inside

/-- The value at a shape is the last handler inserted for it. -/
theorem value_ofCalls_eq_some_iff (shape : Shape StdString) (handler : β) :
    (ofCalls calls).root.table.value shape = some handler ↔
      ∃ before call after, calls = before ++ call :: after ∧
        call.shape = shape ∧ call.handler = handler ∧
        ∀ later ∈ after, later.shape ≠ shape := by
  rw [table_ofCalls free, Table.ofLog_eq]
  change Table.latest _ shape = _ ↔ _
  rw [Table.latest_eq_some_iff]
  constructor
  · rintro ⟨front, pattern, back, cut, same, last⟩
    rcases List.map_eq_append_iff.mp cut with ⟨before, others, rfl, -, rest⟩
    rcases List.map_eq_cons_iff.mp rest with ⟨call, after, rfl, own, rfl⟩
    rcases Prod.mk.inj own with ⟨rfl, rfl⟩
    refine ⟨before, call, after, rfl, same, rfl, fun later member => ?_⟩
    exact last _ (List.mem_map_of_mem member)
  · rintro ⟨before, call, after, rfl, same, rfl, last⟩
    refine
      ⟨_, patternOf call.segments, _, List.map_append, same, ?_⟩
    intro entry member
    rcases List.mem_map.mp member with ⟨later, inside, rfl⟩
    exact last later inside

theorem value_ofCalls_isSome_iff (shape : Shape StdString) :
    ((ofCalls calls).root.table.value shape).isSome ↔
      ∃ call ∈ calls, call.shape = shape := by
  rw [table_ofCalls free, Table.ofLog_eq]
  change (Table.latest _ shape).isSome ↔ _
  rw [Option.isSome_iff_ne_none, Ne, Table.latest_eq_none_iff]
  simp only [List.forall_mem_map, not_forall, not_not, exists_prop]
  rfl

end Calls

/-- What the trie is after the calls. -/
structure Represents (trie : Trie β) (calls : List (TrieCall β)) : Prop where
  /-- The children of every node are stored in order. -/
  linked : ∀ entry ∈ trie.root.nodes, entry.2.Linked
  /-- Every node but the root has a handler at itself or below. -/
  productive : ∀ entry ∈ trie.root.nodes, entry.1 ≠ [] →
    ∃ below ∈ entry.2.nodes, below.2.handler.isSome
  /-- The nodes with a handler stand for the different shapes inserted. -/
  bijective :
    ((trie.root.nodes.filter fun entry => entry.2.handler.isSome).map
      Prod.fst).Perm (calls.map TrieCall.shape).dedup
  /-- Each of them holds the handler inserted last. -/
  latest : ∀ before call after, calls = before ++ call :: after →
    (∀ later ∈ after, later.shape ≠ call.shape) →
    ∃ node, (call.shape, node) ∈ trie.root.nodes ∧
      node.handler = some call.handler

/-- Every sequence of calls with NUL-free paths leaves the trie in order. -/
theorem ofCalls_represents
    (calls : List (TrieCall β)) (free : ∀ call ∈ calls, (0 : UInt8) ∉ call.path) :
    (ofCalls calls).Represents calls := by
  have formed := wellFormed_ofCalls free
  have nodeAt (shape : Shape StdString) (handler : β) :
      (∃ node, (shape, node) ∈ (ofCalls calls).root.nodes ∧
          node.handler = some handler) ↔
        (ofCalls calls).root.table.value shape = some handler := by
    simp only [formed.mem_nodes_iff]
    exact Option.bind_eq_some_iff.symm
  refine ⟨?_, ?_, ?_, ?_⟩
  · rintro ⟨shape, node⟩ member
    exact (formed.walk (formed.mem_nodes_iff.mp member)).linked
  · rintro ⟨shape, node⟩ member deep
    have walked := formed.mem_nodes_iff.mp member
    have reached : ((ofCalls calls).root.walk shape).isSome := by
      rw [walked]
      rfl
    rcases (walk_ofCalls_isSome_iff free shape).mp reached with
      root | ⟨call, inside, rest, same⟩
    · exact absurd root deep
    -- below the node stands the end of a call through it
    have held :=
      (value_ofCalls_isSome_iff free call.shape).mpr ⟨call, inside, rfl⟩
    rcases Option.isSome_iff_exists.mp held with ⟨handler, value⟩
    rcases Option.bind_eq_some_iff.mp value with ⟨target, way, own⟩
    rw [← same, Node.walk_append, walked] at way
    refine ⟨(rest, target), ?_, by simp [own]⟩
    exact (formed.walk walked).mem_nodes_iff.mpr way
  · refine (List.perm_ext_iff_of_nodup ?_ (List.nodup_dedup _)).mpr ?_
    · exact formed.nodup_shapes.sublist (List.filter_sublist.map _)
    · intro shape
      rw [List.mem_dedup, List.mem_map, List.mem_map,
        ← value_ofCalls_isSome_iff free shape, Option.isSome_iff_exists]
      simp only [← nodeAt, List.mem_filter, Option.isSome_iff_exists]
      constructor
      · rintro ⟨⟨_, node⟩, ⟨member, handler, own⟩, rfl⟩
        exact ⟨handler, node, member, own⟩
      · rintro ⟨handler, node, member, own⟩
        exact ⟨(shape, node), ⟨member, handler, own⟩, rfl⟩
  · intro before call after cut last
    exact
      (nodeAt _ _).mpr
        ((value_ofCalls_eq_some_iff free _ _).mpr
          ⟨before, call, after, cut, rfl, rfl, last⟩)

/--
Three calls: a prefix, its extension with a renamed parameter and a
repeated slash, and a second handler for the prefix.
-/
theorem ofCalls_represents_users :
    (ofCalls
      [⟨ascii "/users/:id", 1⟩, ⟨ascii "/users//:name/posts/", 2⟩,
        ⟨ascii "users/:uid", 3⟩]).Represents
      [⟨ascii "/users/:id", (1 : Nat)⟩, ⟨ascii "/users//:name/posts/", 2⟩,
        ⟨ascii "users/:uid", 3⟩] :=
  ofCalls_represents _ (by decide)

end Trie

end PlusWeb
