import PlusWeb.TrieMarks
import PlusWeb.WasmDuplicates
import PlusWeb.WasmTotality

/-!
# The dump and the order of registration

`dumpNode` prints what each node shows of itself and sorts the children by
their values, which differ.  So two well-formed tries are dumped alike
exactly if their nodes stand at the same shapes and show the same marks; and
two orders of registering the same routes are dumped alike exactly if each
route's node is a leaf after both or after neither.
-/

namespace PlusWeb

open WildcardTable

namespace Wasm

variable {β : Type}

/-! ## Sorted children -/

/--
Lists that are sorted by different values are determined by their
members.
-/
theorem sortByValue_eq
    {kids kids' : List (StdString × Document)} (same : kids.Perm kids')
    (distinct : (kids.map Prod.fst).Nodup) :
    sortByValue kids = sortByValue kids' := by
  have ordered (kids : List (StdString × Document)) :
      (kids.mergeSort fun first second => first.1 ≤ second.1).Pairwise
        fun first second => first.1 ≤ second.1 := by
    have sorted :=
      @List.pairwise_mergeSort _
        (fun first second : StdString × Document =>
          decide (first.1 ≤ second.1))
        (fun first second third before behind => by
          simp only [decide_eq_true_eq] at before behind ⊢
          exact List.le_trans before behind)
        (fun first second => by
          simp only [Bool.or_eq_true, decide_eq_true_eq]
          exact List.le_total first.1 second.1)
        kids
    exact sorted.imp fun before => by simpa using before
  have permuted :
      (kids.mergeSort fun first second => first.1 ≤ second.1).Perm
        (kids'.mergeSort fun first second => first.1 ≤ second.1) :=
    ((List.mergeSort_perm kids _).trans same).trans
      (List.mergeSort_perm kids' _).symm
  rw [sortByValue, sortByValue]
  refine congrArg _ (List.Perm.eq_of_pairwise ?_ (ordered kids) (ordered kids')
    permuted)
  intro first second member member' before behind
  rw [List.mem_mergeSort] at member member'
  exact
    List.inj_on_of_nodup_map distinct member (same.mem_iff.mpr member')
      (List.le_antisymm before behind)

/-! ## The dump of a node -/

/-- The children of a node as `dumpNode` collects them. -/
def kidsOf (node : Node β) : List (StdString × Document) :=
  dumpChildren node.children ++ dumpParam node.paramChild

/-- A child is collected with its value. -/
theorem mem_kidsOf_iff
    {node : Node β} (linked : node.Linked) {kid : StdString × Document} :
    kid ∈ kidsOf node ↔
      ∃ slot child, node.child slot = some child ∧
        kid = (child.value, dumpNode child) := by
  rw [kidsOf, dumpChildren_eq, dumpParam_eq, List.mem_append, List.mem_map,
    List.mem_map]
  constructor
  · rintro (⟨entry, member, rfl⟩ | ⟨child, member, rfl⟩)
    · exact
        ⟨.literal entry.1, entry.2, linked.child_literal_iff.mpr member, rfl⟩
    · exact ⟨.wild, child, Option.mem_toList.mp member, rfl⟩
  · rintro ⟨slot, child, reached, rfl⟩
    cases slot with
    | literal segment =>
        exact
          Or.inl
            ⟨(segment, child), linked.child_literal_iff.mp reached, rfl⟩
    | wild => exact Or.inr ⟨child, Option.mem_toList.mpr reached, rfl⟩

/-- The children of a node have different values. -/
theorem distinct_kidsOf {node : Node β} (linked : node.Linked) :
    ((kidsOf node).map Prod.fst).Nodup := by
  have literals :
      (dumpChildren node.children).map Prod.fst =
        node.children.map Prod.fst := by
    rw [dumpChildren_eq, List.map_map]
    exact List.map_congr_left fun entry member =>
      (linked.literal entry member).1
  rw [kidsOf, List.map_append, literals, dumpParam_eq, List.map_map]
  refine List.Nodup.append linked.distinct ?_ ?_
  · cases node.paramChild <;> simp
  · intro value literal wild
    rcases List.mem_map.mp literal with ⟨entry, member, rfl⟩
    rcases List.mem_map.mp wild with ⟨child, own, same⟩
    rcases linked.literal entry member with ⟨-, -, -, -, noColon⟩
    rcases linked.parameter child (Option.mem_toList.mp own) with ⟨-, value⟩
    refine noColon ?_
    rw [← same, Function.comp_apply, value]
    rfl

/-- The dump shows the mark and the sorted children, and nothing else. -/
theorem dumpNode_eq_iff (node node' : Node β) :
    dumpNode node = dumpNode node' ↔
      node.mark = node'.mark ∧
        sortByValue (kidsOf node) = sortByValue (kidsOf node') := by
  rcases node with
    ⟨value, isLeaf, children, paramChild, handler, isParameter, name⟩
  obtain ⟨value', isLeaf', children', paramChild', handler', isParameter',
    name'⟩ := node'
  cases isParameter <;> cases isParameter' <;>
    simp [dumpNode, kidsOf, Node.mark, and_assoc]

/-- A child's mark tells behind which slot it is. -/
theorem slot_of_child
    {node child : Node β} (linked : node.Linked) {slot : Slot StdString}
    (reached : node.child slot = some child) :
    slot =
      if child.mark.parameterName.isSome then .wild
      else .literal child.mark.value := by
  cases slot with
  | literal segment =>
      rcases
        linked.literal (segment, child)
          (linked.child_literal_iff.mp reached) with
        ⟨value, kind, -⟩
      have literal : child.isParameter = false := kind
      have own : child.value = segment := value
      simp [Node.mark, literal, own]
  | wild =>
      rcases linked.parameter child reached with ⟨parameter, -⟩
      simp [Node.mark, parameter]

/-- Children that are dumped alike stand behind the same slots. -/
theorem child_of_kids_eq
    {node node' child : Node β} (linked : node.Linked) (linked' : node'.Linked)
    (same : sortByValue (kidsOf node) = sortByValue (kidsOf node'))
    {slot : Slot StdString} (reached : node.child slot = some child) :
    ∃ child', node'.child slot = some child' ∧
      dumpNode child = dumpNode child' := by
  have dumped : dumpNode child ∈ sortByValue (kidsOf node) :=
    mem_sortByValue.mpr
      ⟨child.value,
        (mem_kidsOf_iff linked).mpr ⟨slot, child, reached, rfl⟩⟩
  rw [same] at dumped
  rcases mem_sortByValue.mp dumped with ⟨value, member⟩
  rcases (mem_kidsOf_iff linked').mp member with
    ⟨slot', child', reached', alike⟩
  have dumps := (Prod.mk.inj alike).2
  have marks := ((dumpNode_eq_iff child child').mp dumps).1
  have slots : slot = slot' := by
    rw [slot_of_child linked reached, slot_of_child linked' reached', marks]
  exact ⟨child', slots ▸ reached', dumps⟩

/-- Nodes that are dumped alike have the same marks below them. -/
theorem marks_of_dumpNode_eq
    {node node' : Node β} (formed : node.WellFormed)
    (formed' : node'.WellFormed) (same : dumpNode node = dumpNode node')
    (shape : Shape StdString) :
    (node.walk shape).map Node.mark = (node'.walk shape).map Node.mark := by
  induction shape generalizing node node' with
  | nil => exact congrArg some ((dumpNode_eq_iff node node').mp same).1
  | cons slot shape induction =>
      have kids := ((dumpNode_eq_iff node node').mp same).2
      rw [Node.walk_cons, Node.walk_cons]
      cases reached : node.child slot with
      | some child =>
          rcases child_of_kids_eq formed.linked formed'.linked kids reached with
            ⟨child', reached', alike⟩
          rw [reached']
          exact
            induction (formed.child reached) (formed'.child reached') alike
      | none =>
          cases reached' : node'.child slot with
          | none => rfl
          | some child' =>
              rcases
                child_of_kids_eq formed'.linked formed.linked kids.symm
                  reached' with
                ⟨child, impossible, -⟩
              cases reached.symm.trans impossible

/-- Nodes with the same marks below them are dumped alike. -/
theorem dumpNode_eq_of_marks
    {node node' : Node β} (formed : node.WellFormed)
    (formed' : node'.WellFormed)
    (same : ∀ shape,
      (node.walk shape).map Node.mark = (node'.walk shape).map Node.mark) :
    dumpNode node = dumpNode node' := by
  induction formed generalizing node' with
  | @node node linked children paramChild below belowParam =>
      have alike {slot : Slot StdString} {child child' : Node β}
          (reached : node.child slot = some child)
          (reached' : node'.child slot = some child') :
          (child.value, dumpNode child) = (child'.value, dumpNode child') := by
        have marks (shape : Shape StdString) :
            (child.walk shape).map Node.mark =
              (child'.walk shape).map Node.mark := by
          simpa [reached, reached'] using same (slot :: shape)
        have value : child.value = child'.value :=
          congrArg Node.Mark.value (Option.some.inj (marks []))
        have dumps : dumpNode child = dumpNode child' := by
          cases slot with
          | literal segment =>
              exact
                below (segment, child) (linked.child_literal_iff.mp reached)
                  (formed'.child reached') marks
          | wild =>
              exact belowParam child reached (formed'.child reached') marks
        rw [value, dumps]
      have slots (slot : Slot StdString) :
          (node.child slot).isSome = (node'.child slot).isSome := by
        have marks := congrArg Option.isSome (same [slot])
        simpa using marks
      refine (dumpNode_eq_iff node node').mpr
        ⟨Option.some.inj (same []), ?_⟩
      refine sortByValue_eq ?_ (distinct_kidsOf linked)
      refine
        (List.perm_ext_iff_of_nodup (distinct_kidsOf linked).of_map
          (distinct_kidsOf formed'.linked).of_map).mpr fun kid => ?_
      rw [mem_kidsOf_iff linked, mem_kidsOf_iff formed'.linked]
      constructor
      · rintro ⟨slot, child, reached, rfl⟩
        rcases
          Option.isSome_iff_exists.mp
            ((slots slot).symm.trans (by rw [reached]; rfl)) with
          ⟨child', reached'⟩
        exact ⟨slot, child', reached', alike reached reached'⟩
      · rintro ⟨slot, child', reached', rfl⟩
        rcases
          Option.isSome_iff_exists.mp
            ((slots slot).trans (by rw [reached']; rfl)) with
          ⟨child, reached⟩
        exact ⟨slot, child, reached, (alike reached reached').symm⟩

/-! ## Two orders of registration -/

/-- A route without its id. -/
def Route.endpoint (route : Route) : StdString × StdString :=
  (route.method, route.pattern)

/-- The way to the node of a route. -/
def Route.shape (route : Route) : Shape StdString :=
  shapeOf route.registration.key

/-- The call of `Trie::insert` for a route. -/
def Route.trieCall (route : Route) : TrieCall Int :=
  ⟨route.method ++ ascii ":" ++ route.pattern, route.routeId⟩

namespace Instance

/-- Wherever two accepted routes have a parameter, they give it one name. -/
def NamesAgree (inst : Instance) : Prop :=
  ∀ route ∈ inst.accepted, ∀ other ∈ inst.accepted,
    ∀ position name name',
      Pattern.nameBelow (patternOf route.registration.key) position =
          some name →
        Pattern.nameBelow (patternOf other.registration.key) position =
            some name' →
          name = name'

/-- The root tree that `pw_dump_trie` reports. -/
def dumpedRoot (inst : Instance) : Option Document :=
  inst.state.dumpTrie.field (ascii "root")

variable {inst : Instance}

theorem dumpedRoot_eq (inst : Instance) :
    inst.dumpedRoot = some (dumpNode inst.state.registry.trie.root) := rfl

/-- The trie of a consistent state is that of its routes. -/
theorem Consistent.trie_eq (consistent : inst.Consistent) :
    inst.state.registry.trie =
      Trie.ofCalls (inst.accepted.map Route.trieCall) := by
  rw [consistent.registry, registryOf, Trie.ofCalls, List.foldl_map,
    List.foldl_map]
  generalize inst.accepted = routes
  induction routes using List.reverseRecOn with
  | nil => rfl
  | append_singleton routes route induction =>
      rw [List.foldl_append, List.foldl_append, ← induction]
      rfl

theorem Consistent.trieCalls_free (consistent : inst.Consistent) :
    ∀ call ∈ inst.accepted.map Route.trieCall, (0 : UInt8) ∉ call.path := by
  intro call member
  rcases List.mem_map.mp member with ⟨route, accepted, rfl⟩
  rcases (consistent.checked route accepted).noNul with ⟨method, pattern⟩
  have method : (0 : UInt8) ∉ route.method := method
  have pattern : (0 : UInt8) ∉ route.pattern := pattern
  simp [Route.trieCall, method, pattern, ascii]

theorem shapes_trieCalls (inst : Instance) :
    (inst.accepted.map Route.trieCall).map TrieCall.shape =
      inst.accepted.map Route.shape := by
  rw [List.map_map]
  rfl

theorem paths_trieCalls (inst : Instance) :
    (inst.accepted.map Route.trieCall).map TrieCall.path =
      (inst.accepted.map Route.endpoint).map fun endpoint =>
        endpoint.1 ++ ascii ":" ++ endpoint.2 := by
  rw [List.map_map, List.map_map]
  rfl

theorem NamesAgree.trieCalls (agree : inst.NamesAgree) :
    Trie.NamesAgree (inst.accepted.map Route.trieCall) := by
  intro call member call' member' position name name' given given'
  rcases List.mem_map.mp member with ⟨route, accepted, rfl⟩
  rcases List.mem_map.mp member' with ⟨route', accepted', rfl⟩
  exact
    agree route accepted route' accepted' position name name' given given'

/--
Two runs that have accepted the same routes in some orders dump the same
root exactly if each route's node is given no child after the route, in both
orders or in neither.
-/
theorem dump_agrees_iff
    (calls calls' : List Call)
    (same :
      ((run calls).accepted.map Route.endpoint).Perm
        ((run calls').accepted.map Route.endpoint))
    (agree : (run calls).NamesAgree) :
    (run calls).dumpedRoot = (run calls').dumpedRoot ↔
      ∀ route ∈ (run calls).accepted,
        (EndsLast ((run calls).accepted.map Route.shape) route.shape ↔
          EndsLast ((run calls').accepted.map Route.shape) route.shape) := by
  have consistent := consistent_run calls
  have consistent' := consistent_run calls'
  have free := consistent.trieCalls_free
  have free' := consistent'.trieCalls_free
  have paths :
      (((run calls).accepted.map Route.trieCall).map TrieCall.path).Perm
        (((run calls').accepted.map Route.trieCall).map TrieCall.path) := by
    rw [paths_trieCalls, paths_trieCalls]
    exact same.map _
  have marks := Trie.marks_eq_iff free free' paths agree.trieCalls
  rw [shapes_trieCalls, shapes_trieCalls, List.forall_mem_map] at marks
  rw [dumpedRoot_eq, dumpedRoot_eq, Option.some.injEq, consistent.trie_eq,
    consistent'.trie_eq, ← marks]
  have formed := Trie.wellFormed_ofCalls free
  have formed' := Trie.wellFormed_ofCalls free'
  exact
    ⟨marks_of_dumpNode_eq formed formed', dumpNode_eq_of_marks formed formed'⟩

/-- If all parameters have one name, the names agree. -/
theorem namesAgree_of_only
    (only : StdString)
    (named : ∀ route ∈ inst.accepted,
      ∀ segment ∈ patternOf route.registration.key,
        segment.slot.isLiteral = true ∨ segment = .parameter only) :
    inst.NamesAgree := by
  have name_eq {route : Route} (accepted : route ∈ inst.accepted)
      {position : Shape StdString} {name : StdString}
      (given :
        Pattern.nameBelow (patternOf route.registration.key) position =
          some name) : name = only := by
    rcases named route accepted _ (Pattern.mem_of_nameBelow given) with
      literal | parameter
    · cases literal
    · exact Segment.parameter.inj parameter
  intro route accepted other accepted' position name name' given given'
  rw [name_eq accepted given, name_eq accepted' given']

/-- Two routes of which one goes on behind the other, and a third. -/
def usersRoutes : List Call :=
  [.registerRoute (CPointer.ofAscii "GET") (CPointer.ofAscii "/users/:id"),
    .registerRoute (CPointer.ofAscii "GET")
      (CPointer.ofAscii "/users/:id/posts"),
    .registerRoute (CPointer.ofAscii "POST") (CPointer.ofAscii "/users")]

/-- The same routes in another order, one of them twice. -/
def usersRoutesReordered : List Call :=
  [.registerRoute (CPointer.ofAscii "POST") (CPointer.ofAscii "/users"),
    .registerRoute (CPointer.ofAscii "GET") (CPointer.ofAscii "/users/:id"),
    .registerRoute (CPointer.ofAscii "GET") (CPointer.ofAscii "/users/:id"),
    .registerRoute (CPointer.ofAscii "GET")
      (CPointer.ofAscii "/users/:id/posts")]

theorem dump_agrees_iff_users :
    (run usersRoutes).dumpedRoot = (run usersRoutesReordered).dumpedRoot ↔
      ∀ route ∈ (run usersRoutes).accepted,
        (EndsLast ((run usersRoutes).accepted.map Route.shape) route.shape ↔
          EndsLast ((run usersRoutesReordered).accepted.map Route.shape)
            route.shape) :=
  dump_agrees_iff usersRoutes usersRoutesReordered (by decide +kernel)
    (namesAgree_of_only (ascii "id") (by decide +kernel))

/-- Two orders of a route and its extension. -/
def nestedRoutes : List Call :=
  [.registerRoute (CPointer.ofAscii "GET") (CPointer.ofAscii "/a"),
    .registerRoute (CPointer.ofAscii "GET") (CPointer.ofAscii "/a/b")]

def nestedRoutesReversed : List Call :=
  [.registerRoute (CPointer.ofAscii "GET") (CPointer.ofAscii "/a/b"),
    .registerRoute (CPointer.ofAscii "GET") (CPointer.ofAscii "/a")]

/-- The node of `/a` is dumped as a leaf if `/a` is registered last. -/
theorem dump_depends_on_order :
    ¬ ∀ calls calls' : List Call,
        ((run calls).accepted.map Route.endpoint).Perm
            ((run calls').accepted.map Route.endpoint) →
          (run calls).Distinct → (run calls).NamesAgree →
            (run calls).dumpedRoot = (run calls').dumpedRoot := by
  intro claim
  have same :
      ((run nestedRoutes).accepted.map Route.endpoint).Perm
        ((run nestedRoutesReversed).accepted.map Route.endpoint) := by
    decide +kernel
  have distinct : (run nestedRoutes).Distinct := by
    unfold Distinct SameShape
    decide +kernel
  have agree : (run nestedRoutes).NamesAgree :=
    namesAgree_of_only [] (by decide +kernel)
  have roots := claim _ _ same distinct agree
  rw [dumpedRoot_eq, dumpedRoot_eq, Option.some.injEq] at roots
  have formed (calls : List Call) :
      (run calls).state.registry.trie.root.WellFormed := by
    rw [(consistent_run calls).trie_eq]
    exact Trie.wellFormed_ofCalls (consistent_run calls).trieCalls_free
  have marks :=
    marks_of_dumpNode_eq (formed _) (formed _) roots
      [.literal (ascii "GET:"), .literal (ascii "a")]
  exact absurd marks (by decide +kernel)

end Instance

end Wasm

end PlusWeb
