import PlusWeb.TrieInvariant
import PlusWeb.Library.Runs

/-!
# What the nodes show, and in which order the routes came

A node shows its value, its name if it is a parameter, `isLeaf` and whether
it has a handler.  All of this but `isLeaf` depends only on the routes
inserted.  `isLeaf` is set where a route ends and cleared where a child is
added: it tells whether the node has been given no child since a route last
ended there.
-/

namespace PlusWeb

open WildcardTable

/-! ## Routes that end last -/

/--
A route ends at `ending`, and every route inserted after it that goes on
from there goes through a child that a route before it has made.
-/
def EndsLast (shapes : List (Shape StdString)) (ending : Shape StdString) :
    Prop :=
  ∃ before after, shapes = before ++ ending :: after ∧
    ∀ later ∈ after, ∀ slot, ending ++ [slot] <+: later →
      ∃ earlier ∈ before, ending ++ [slot] <+: earlier

theorem EndsLast.mem
    {shapes : List (Shape StdString)} {ending : Shape StdString}
    (last : EndsLast shapes ending) : ending ∈ shapes := by
  rcases last with ⟨before, after, rfl, -⟩
  simp

theorem not_endsLast_nil (ending : Shape StdString) : ¬ EndsLast [] ending :=
  fun last => List.not_mem_nil last.mem

/-- One more route: it ends there, or makes no new child there. -/
theorem endsLast_append_singleton
    (shapes : List (Shape StdString)) (route ending : Shape StdString) :
    EndsLast (shapes ++ [route]) ending ↔
      route = ending ∨
        EndsLast shapes ending ∧
          ∀ slot, ending ++ [slot] <+: route →
            ∃ earlier ∈ shapes, ending ++ [slot] <+: earlier := by
  constructor
  · rintro ⟨before, after, cut, settled⟩
    rcases Runs.append_singleton_eq_iff.mp cut with
      ⟨-, own, -⟩ | ⟨front, rfl, rfl⟩
    · exact Or.inl own
    · right
      constructor
      · exact
          ⟨before, front, rfl, fun later member =>
            settled later (List.mem_append_left _ member)⟩
      · intro slot through
        rcases settled route (by simp) slot through with
          ⟨earlier, member, made⟩
        exact ⟨earlier, List.mem_append_left _ member, made⟩
  · rintro (rfl | ⟨⟨before, after, rfl, settled⟩, made⟩)
    · exact ⟨shapes, [], rfl, by simp⟩
    · refine ⟨before, after ++ [route], by simp, ?_⟩
      intro later member slot through
      rcases List.mem_append.mp member with old | fresh
      · exact settled later old slot through
      · obtain rfl := List.mem_singleton.mp fresh
        rcases made slot through with ⟨earlier, inside, own⟩
        -- the route through this child came before, or after another one
        rcases List.mem_append.mp inside with front | rest
        · exact ⟨earlier, front, own⟩
        · rcases List.mem_cons.mp rest with rfl | back
          · have lengths := own.length_le
            simp at lengths
          · exact settled earlier back slot own

namespace Node

variable {β : Type}

/-! ## The leaves -/

theorem insertChild_isLeaf
    {segment : StdString} (nonempty : segment ≠ [])
    (node : Node β) (edit : Node β → Node β) :
    (node.insertChild segment edit).isLeaf =
      (node.isLeaf && (node.child (segmentOf segment).slot).isSome) := by
  by_cases parameter : segment.head? = some colon
  · have own : (segmentOf segment).slot = .wild := by
      simp [segmentOf, parameter, Segment.slot]
    rw [insertChild, if_neg nonempty, if_pos parameter, own]
    cases existing : node.paramChild <;> simp [child, existing]
  · have own : (segmentOf segment).slot = .literal segment := by
      simp [segmentOf, parameter, Segment.slot]
    rw [insertChild, if_neg nonempty, if_neg parameter, own]
    cases existing : node.children.lookup segment <;> simp [child, existing]

/--
An insertion sets `isLeaf` at its end and clears it where it adds a
child.
-/
theorem isLeaf_insertSegments_iff
    {segments : List StdString} (nonempty : ∀ segment ∈ segments, segment ≠ [])
    {func : Option β} {node target : Node β} {shape : Shape StdString}
    (walked : (insertSegments segments func node).walk shape = some target) :
    target.isLeaf = true ↔
      shape = shapeOf segments ∨
        (∃ old, node.walk shape = some old ∧ old.isLeaf = true) ∧
          ∀ slot, shape ++ [slot] <+: shapeOf segments →
            (node.walk (shape ++ [slot])).isSome := by
  induction segments generalizing node shape with
  | nil =>
      cases shape with
      | nil =>
          obtain rfl := Option.some.inj walked
          simp [insertSegments, shapeOf]
      | cons slot shape =>
          rw [walk_insertSegments_nil] at walked
          simp [walked, shapeOf]
  | cons segment rest induction =>
      rcases List.forall_mem_cons.mp nonempty with ⟨first, later⟩
      cases shape with
      | nil =>
          obtain rfl := Option.some.inj walked
          rw [insertSegments, insertChild_isLeaf first, shapeOf_cons]
          simp
      | cons slot shape =>
          rw [walk_insertSegments_cons first] at walked
          rw [shapeOf_cons]
          by_cases own : slot = (segmentOf segment).slot
          · rw [if_pos own] at walked
            rw [induction later walked, slotFor, ← own]
            simp only [List.cons_append, List.cons_prefix_cons, true_and,
              List.cons.injEq, walk_cons]
            cases node.child slot with
            | some below => rfl
            | none =>
                -- a new node is no leaf
                have fresh :
                    ¬ ∃ old, (ofValue segment : Node β).walk shape = some old ∧
                      old.isLeaf = true := by
                  rintro ⟨old, reached, leaf⟩
                  rw [walk_ofValue] at reached
                  split at reached
                  · obtain rfl := Option.some.inj reached
                    cases leaf
                  · cases reached
                simp [fresh]
          · rw [if_neg own] at walked
            simp [walked, own]

/-! ## Marks -/

/-- What a node shows of itself. -/
@[ext]
structure Mark where
  value : StdString
  parameterName : Option StdString
  isLeaf : Bool
  hasHandler : Bool
deriving DecidableEq

/-- The mark of a node; only a parameter shows its name. -/
def mark (node : Node β) : Mark where
  value := node.value
  parameterName :=
    if node.isParameter then some node.parameterName else none
  isLeaf := node.isLeaf
  hasHandler := node.handler.isSome

/--
The value and the name of the node behind the slot `last` of a way that
begins with `front`.
-/
theorem WellFormed.label
    {node target : Node β} (formed : node.WellFormed)
    {front : Shape StdString} {slot : Slot StdString}
    (walked : node.walk (front ++ [slot]) = some target) :
    match slot with
    | .literal segment =>
        target.value = segment ∧ target.mark.parameterName = none
    | .wild =>
        ∃ name, node.table.name front = some name ∧
          target.value = colon :: name ∧
          target.mark.parameterName = some name := by
  rw [walk_append, Option.bind_eq_some_iff] at walked
  rcases walked with ⟨parent, reached, below⟩
  rw [walk_cons, Option.bind_eq_some_iff] at below
  rcases below with ⟨child, own, ⟨⟩⟩
  have linked := (formed.walk reached).linked
  cases slot with
  | literal segment =>
      rcases
        linked.literal (segment, target) (linked.child_literal_iff.mp own) with
        ⟨value, kind, -⟩
      have literal : target.isParameter = false := kind
      exact ⟨value, by simp [mark, literal]⟩
  | wild =>
      have slot : parent.paramChild = some target := own
      rcases linked.parameter target slot with ⟨parameter, value⟩
      refine ⟨target.parameterName, ?_, value, by simp [mark, parameter]⟩
      simp [table, reached, slot]

end Node

namespace Trie

variable {β : Type} {calls calls' : List (TrieCall β)}

/-- There is a child behind a slot if a route goes through it. -/
theorem walk_child_isSome_iff
    (free : ∀ call ∈ calls, (0 : UInt8) ∉ call.path)
    (shape : Shape StdString) (slot : Slot StdString) :
    ((ofCalls calls).root.walk (shape ++ [slot])).isSome ↔
      ∃ earlier ∈ calls.map TrieCall.shape, shape ++ [slot] <+: earlier := by
  rw [walk_ofCalls_isSome_iff free]
  simp

/--
A node is a leaf if a route ends there and no child was made later; the
root is one before the first route.
-/
theorem isLeaf_ofCalls_iff
    (free : ∀ call ∈ calls, (0 : UInt8) ∉ call.path)
    (shape : Shape StdString) :
    (∃ node, (ofCalls calls).root.walk shape = some node ∧
        node.isLeaf = true) ↔
      EndsLast (calls.map TrieCall.shape) shape ∨
        shape = [] ∧ calls = [] := by
  induction calls using List.reverseRecOn with
  | nil =>
      cases shape with
      | nil => simp [ofCalls, new, Node.default]
      | cons slot shape =>
          cases slot <;>
            simp [ofCalls, new, Node.default, Node.child, not_endsLast_nil]
  | append_singleton calls call induction =>
      rcases List.forall_mem_append.mp free with ⟨before, own⟩
      have proper := fun segment member =>
        (call.segments_proper segment member).1
      have made := walk_child_isSome_iff before shape
      have ends :
          (∃ node, (ofCalls (calls ++ [call])).root.walk shape = some node ∧
              node.isLeaf = true) ↔
            shape = call.shape ∨
              (∃ old, (ofCalls calls).root.walk shape = some old ∧
                  old.isLeaf = true) ∧
                ∀ slot, shape ++ [slot] <+: call.shape →
                  ((ofCalls calls).root.walk (shape ++ [slot])).isSome := by
        rw [ofCalls_append_singleton calls (own call (by simp))]
        constructor
        · rintro ⟨node, walked, leaf⟩
          exact (Node.isLeaf_insertSegments_iff proper walked).mp leaf
        · intro settled
          have reached :
              ((Node.insertSegments call.segments (some call.handler)
                (ofCalls calls).root).walk shape).isSome := by
            rw [Node.walk_insertSegments_isSome_iff proper]
            rcases settled with rfl | ⟨⟨old, walked, -⟩, -⟩
            · exact Or.inr (List.prefix_refl _)
            · exact Or.inl (by rw [walked]; rfl)
          rcases Option.isSome_iff_exists.mp reached with ⟨node, walked⟩
          exact
            ⟨node, walked,
              (Node.isLeaf_insertSegments_iff proper walked).mpr settled⟩
      rw [ends, induction before, List.map_append, List.map_singleton,
        endsLast_append_singleton]
      simp only [made, List.append_eq_nil_iff, List.cons_ne_nil, and_false,
        or_false]
      constructor
      · rintro (rfl | ⟨last | ⟨rfl, rfl⟩, settled⟩)
        · exact Or.inl rfl
        · exact Or.inr ⟨last, settled⟩
        · -- the first route ends at the root
          cases ended : call.shape with
          | nil => exact Or.inl rfl
          | cons slot rest =>
              rcases settled slot (by rw [ended]; simp) with
                ⟨earlier, member, -⟩
              cases member
      · rintro (rfl | ⟨last, settled⟩)
        · exact Or.inl rfl
        · exact Or.inr ⟨Or.inl last, settled⟩

theorem isLeaf_of_walk
    (free : ∀ call ∈ calls, (0 : UInt8) ∉ call.path)
    {shape : Shape StdString} {node : Node β}
    (walked : (ofCalls calls).root.walk shape = some node) :
    node.isLeaf = true ↔
      EndsLast (calls.map TrieCall.shape) shape ∨
        shape = [] ∧ calls = [] := by
  rw [← isLeaf_ofCalls_iff free shape, walked]
  simp

/-- The root stays the node it was made as. -/
theorem root_label (calls : List (TrieCall β)) :
    (Node.default : Node β).SameLabel (ofCalls calls).root := by
  induction calls using List.reverseRecOn with
  | nil => exact ⟨rfl, rfl, rfl⟩
  | append_singleton calls call induction =>
      rw [ofCalls, List.foldl_append]
      have own :=
        Node.insertSegments_label (Utils.split call.path (ascii "/"))
          (some call.handler) (ofCalls calls).root
      exact
        ⟨own.value.trans induction.value,
          own.isParameter.trans induction.isParameter,
          own.parameterName.trans induction.parameterName⟩

/-- Wherever two of the paths have a parameter, they give it one name. -/
def NamesAgree (calls : List (TrieCall β)) : Prop :=
  ∀ call ∈ calls, ∀ call' ∈ calls, ∀ position name name',
    Pattern.nameBelow (patternOf call.segments) position = some name →
      Pattern.nameBelow (patternOf call'.segments) position = some name' →
        name = name'

/-! ## Two orders -/

section TwoOrders

variable (free : ∀ call ∈ calls, (0 : UInt8) ∉ call.path)
  (free' : ∀ call ∈ calls', (0 : UInt8) ∉ call.path)
  (same : (calls.map TrieCall.path).Perm (calls'.map TrieCall.path))

theorem shape_perm
    (same : (calls.map TrieCall.path).Perm (calls'.map TrieCall.path)) :
    (calls.map TrieCall.shape).Perm (calls'.map TrieCall.shape) := by
  have shapes (calls : List (TrieCall β)) :
      calls.map TrieCall.shape =
        (calls.map TrieCall.path).map fun path =>
          shapeOf (Utils.pieces slash path) := by
    rw [List.map_map]
    rfl
  rw [shapes, shapes]
  exact same.map _

theorem exists_same_path
    (same : (calls.map TrieCall.path).Perm (calls'.map TrieCall.path))
    {call : TrieCall β} (member : call ∈ calls) :
    ∃ call' ∈ calls', call'.path = call.path :=
  List.mem_map.mp (same.subset (List.mem_map_of_mem member))

/-- The names of the trie are those the paths give. -/
theorem name_ofCalls_eq_some_iff
    (free : ∀ call ∈ calls, (0 : UInt8) ∉ call.path)
    (agree : NamesAgree calls) (position : Shape StdString)
    (name : StdString) :
    (ofCalls calls).root.table.name position = some name ↔
      ∃ call ∈ calls,
        Pattern.nameBelow (patternOf call.segments) position = some name := by
  rw [table_ofCalls free, Table.ofLog_eq]
  change Table.firstName _ position = _ ↔ _
  rw [Table.firstName_eq_some_iff]
  · simp only [List.mem_map]
    constructor
    · rintro ⟨_, ⟨call, member, rfl⟩, given⟩
      exact ⟨call, member, given⟩
    · rintro ⟨call, member, given⟩
      exact ⟨_, ⟨call, member, rfl⟩, given⟩
  · simp only [List.forall_mem_map]
    intro call member call' member' name name'
    exact agree call member call' member' position name name'

include free free' same

/-- The names do not depend on the order. -/
theorem name_of_perm (agree : NamesAgree calls) (position : Shape StdString) :
    (ofCalls calls).root.table.name position =
      (ofCalls calls').root.table.name position := by
  have agree' : NamesAgree calls' := by
    intro call member call' member' position name name' given given'
    rcases exists_same_path same.symm member with ⟨other, inside, path⟩
    rcases exists_same_path same.symm member' with ⟨other', inside', path'⟩
    rw [TrieCall.segments, ← path] at given
    rw [TrieCall.segments, ← path'] at given'
    exact agree other inside other' inside' position name name' given given'
  ext name
  rw [name_ofCalls_eq_some_iff free agree,
    name_ofCalls_eq_some_iff free' agree']
  constructor
  · rintro ⟨call, member, given⟩
    rcases exists_same_path same member with ⟨call', member', path⟩
    exact ⟨call', member', by rwa [TrieCall.segments, path]⟩
  · rintro ⟨call, member, given⟩
    rcases exists_same_path same.symm member with ⟨call', member', path⟩
    exact ⟨call', member', by rwa [TrieCall.segments, path]⟩

/-- The nodes at one shape differ in `isLeaf` at most. -/
theorem mark_of_perm
    (agree : NamesAgree calls) {shape : Shape StdString} {node node' : Node β}
    (walked : (ofCalls calls).root.walk shape = some node)
    (walked' : (ofCalls calls').root.walk shape = some node') :
    node.mark = { node'.mark with isLeaf := node.isLeaf } := by
  have handled :
      node.handler.isSome = true ↔ node'.handler.isSome = true := by
    have value := value_ofCalls_isSome_iff free shape
    have value' := value_ofCalls_isSome_iff free' shape
    simp only [Node.table, walked, walked', Option.bind_some] at value value'
    rw [value, value', ← List.mem_map, ← List.mem_map]
    exact (shape_perm same).mem_iff
  have handlers : node.handler.isSome = node'.handler.isSome :=
    Bool.eq_iff_iff.mpr handled
  have labels :
      node.value = node'.value ∧
        node.mark.parameterName = node'.mark.parameterName := by
    rcases List.eq_nil_or_concat shape with rfl | ⟨front, slot, rfl⟩
    · obtain rfl := Option.some.inj walked
      obtain rfl := Option.some.inj walked'
      have label := root_label calls
      have label' := root_label calls'
      simp [Node.mark, label.value, label'.value, label.isParameter,
        label'.isParameter, Node.default]
    · rw [List.concat_eq_append] at walked walked'
      have own := (wellFormed_ofCalls free).label walked
      have own' := (wellFormed_ofCalls free').label walked'
      cases slot with
      | literal segment =>
          exact ⟨own.1.trans own'.1.symm, own.2.trans own'.2.symm⟩
      | wild =>
          rcases own with ⟨name, given, value, shown⟩
          rcases own' with ⟨name', given', value', shown'⟩
          rw [name_of_perm free free' same agree, given'] at given
          obtain rfl := Option.some.inj given
          exact ⟨value.trans value'.symm, shown.trans shown'.symm⟩
  exact Node.Mark.ext labels.1 labels.2 rfl handlers

/--
Two orders of the same paths lead to the same marks at all nodes exactly
if each node where a route ends is a leaf in both or in none.
-/
theorem marks_eq_iff (agree : NamesAgree calls) :
    (∀ shape, ((ofCalls calls).root.walk shape).map Node.mark =
        ((ofCalls calls').root.walk shape).map Node.mark) ↔
      ∀ shape ∈ calls.map TrieCall.shape,
        (EndsLast (calls.map TrieCall.shape) shape ↔
          EndsLast (calls'.map TrieCall.shape) shape) := by
  have shapes := shape_perm same
  have exists_iff (shape : Shape StdString) :
      ((ofCalls calls).root.walk shape).isSome ↔
        ((ofCalls calls').root.walk shape).isSome := by
    rw [walk_ofCalls_isSome_iff free, walk_ofCalls_isSome_iff free']
    have through (calls : List (TrieCall β)) :
        (∃ call ∈ calls, shape <+: call.shape) ↔
          ∃ other ∈ calls.map TrieCall.shape, shape <+: other := by
      simp
    simp only [through, shapes.mem_iff]
  have empty_iff : calls = [] ↔ calls' = [] := by
    have lengths := same.length_eq
    rw [List.length_map, List.length_map] at lengths
    rw [← List.length_eq_zero_iff, lengths, List.length_eq_zero_iff]
  constructor
  · intro marks shape member
    have reached : ((ofCalls calls).root.walk shape).isSome := by
      rcases List.mem_map.mp member with ⟨call, inside, rfl⟩
      rw [walk_ofCalls_isSome_iff free]
      exact Or.inr ⟨call, inside, List.prefix_refl _⟩
    rcases Option.isSome_iff_exists.mp reached with ⟨node, walked⟩
    rcases Option.isSome_iff_exists.mp ((exists_iff shape).mp reached) with
      ⟨node', walked'⟩
    have leaves := congrArg Node.Mark.isLeaf
      (Option.some.inj (by simpa [walked, walked'] using marks shape))
    have some_calls : calls ≠ [] := by
      rintro rfl
      cases member
    have leaf := isLeaf_of_walk free walked
    have leaf' := isLeaf_of_walk free' walked'
    simp only [some_calls, mt empty_iff.mpr some_calls, and_false, or_false]
      at leaf leaf'
    rw [← leaf, ← leaf']
    exact Bool.eq_iff_iff.mp leaves
  · intro alike shape
    cases walked : (ofCalls calls).root.walk shape with
    | none =>
        have missing : (ofCalls calls').root.walk shape = none := by
          rw [← Option.not_isSome_iff_eq_none, ← exists_iff, walked]
          simp
        rw [missing]
    | some node =>
        rcases
          Option.isSome_iff_exists.mp
            ((exists_iff shape).mp (by rw [walked]; rfl)) with
          ⟨node', walked'⟩
        have ends :
            EndsLast (calls.map TrieCall.shape) shape ↔
              EndsLast (calls'.map TrieCall.shape) shape := by
          by_cases member : shape ∈ calls.map TrieCall.shape
          · exact alike shape member
          · exact
              iff_of_false (fun last => member last.mem)
                (fun last => member (shapes.mem_iff.mpr last.mem))
        have leaves : node.isLeaf = node'.isLeaf := by
          rw [Bool.eq_iff_iff, isLeaf_of_walk free walked,
            isLeaf_of_walk free' walked', ends, empty_iff]
        have marks := mark_of_perm free free' same agree walked walked'
        rw [leaves] at marks
        rw [walked']
        exact congrArg some marks

end TwoOrders

end Trie

end PlusWeb
