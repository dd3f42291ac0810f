import PlusWeb.Trie

/-!
# What a search leaves in `params`

`findFrom` writes a parameter before it descends and takes it back when the
branch fails.  A failed search leaves the map as it was.  A successful one
has written, at each name on the way to the hit, the segment that the deepest
parameter of this name matched, and nothing else.
-/

namespace PlusWeb.Node

open WildcardTable

variable {β : Type}

/-- The parameter at `depth` on the way along `shape` is called `name`. -/
def NamedAt
    (node : Node β) (shape : Shape StdString) (depth : Nat)
    (name : StdString) : Prop :=
  shape[depth]? = some .wild ∧
    ∃ child, node.walk (shape.take (depth + 1)) = some child ∧
      child.parameterName = name

/--
`bound` is `params` with the names on the way along `shape` written, each
with the segment of its deepest occurrence.
-/
structure BindsAlong
    (node : Node β) (shape : Shape StdString) (segments : List StdString)
    (params bound : StdMap) : Prop where
  deepest : ∀ depth name, node.NamedAt shape depth name →
    (∀ deeper, depth < deeper → ¬ node.NamedAt shape deeper name) →
    bound[name]? = segments[depth]?
  elsewhere : ∀ name, (∀ depth, ¬ node.NamedAt shape depth name) →
    bound[name]? = params[name]?

section Descent

variable {node child : Node β} {slot : Slot StdString}
  {shape : Shape StdString} {segments : List StdString}
  {params bound : StdMap} {name : StdString}

theorem namedAt_succ_iff
    (reached : node.child slot = some child) (depth : Nat) :
    node.NamedAt (slot :: shape) (depth + 1) name ↔
      child.NamedAt shape depth name := by
  simp [NamedAt, reached]

theorem namedAt_literal_zero (segment : StdString) :
    ¬ node.NamedAt (.literal segment :: shape) 0 name := by
  rintro ⟨own, -⟩
  cases own

theorem namedAt_wild_zero_iff (reached : node.child .wild = some child) :
    node.NamedAt (.wild :: shape) 0 name ↔ child.parameterName = name := by
  simp [NamedAt, reached]

/-- A name below the first slot is bound as the child binds it. -/
theorem BindsAlong.deepest_succ
    (below : child.BindsAlong shape segments params bound)
    (reached : node.child slot = some child) (segment : StdString)
    {depth : Nat} (named : node.NamedAt (slot :: shape) (depth + 1) name)
    (last : ∀ deeper, depth + 1 < deeper →
      ¬ node.NamedAt (slot :: shape) deeper name) :
    bound[name]? = (segment :: segments)[depth + 1]? := by
  rw [List.getElem?_cons_succ]
  refine
    below.deepest depth name ((namedAt_succ_iff reached depth).mp named) ?_
  intro deeper behind again
  exact
    last (deeper + 1) (Nat.succ_lt_succ behind)
      ((namedAt_succ_iff reached deeper).mpr again)

/-- A name that is not below the first slot is not bound by the child. -/
theorem BindsAlong.elsewhere_succ
    (below : child.BindsAlong shape segments params bound)
    (reached : node.child slot = some child)
    (absent : ∀ depth, ¬ node.NamedAt (slot :: shape) (depth + 1) name) :
    bound[name]? = params[name]? := by
  refine below.elsewhere name fun depth named => ?_
  exact absent depth ((namedAt_succ_iff reached depth).mpr named)

end Descent

/--
The bindings of the table along a shape are written as `BindsAlong`
says.
-/
theorem bindsAlong_bindings
    {node target : Node β} {shape : Shape StdString}
    {segments : List StdString} (walked : node.walk shape = some target)
    (matching : Matches shape segments) (params : StdMap) :
    node.BindsAlong shape segments params
      (bindAll params (node.table.bindings shape segments)) := by
  induction shape generalizing node segments params with
  | nil =>
      constructor
      · rintro depth name ⟨own, -⟩
        cases own
      · intro name _
        rw [Table.bindings_nil]
        rfl
  | cons slot shape induction =>
      cases matching with
      | @cons _ segment _ segments accepts below =>
      rw [walk_cons, Option.bind_eq_some_iff] at walked
      rcases walked with ⟨child, reached, walked⟩
      cases slot with
      | literal expected =>
          have binds := induction walked below params
          rw [Table.bindings_literal, table_under_some reached]
          constructor
          · intro depth name named last
            cases depth with
            | zero => exact absurd named (namedAt_literal_zero expected)
            | succ depth =>
                exact binds.deepest_succ reached segment named last
          · intro name absent
            exact
              binds.elsewhere_succ reached fun depth => absent (depth + 1)
      | wild =>
          have named : node.table.name [] = some child.parameterName := by
            have slot : node.paramChild = some child := reached
            simp [slot]
          have binds :=
            induction walked below (params.insert child.parameterName segment)
          rw [Table.bindings_wild named, table_under_some reached]
          constructor
          · intro depth name named last
            cases depth with
            | zero =>
                -- the outermost binding stands if the name is not reused
                obtain rfl := (namedAt_wild_zero_iff reached).mp named
                rw [List.getElem?_cons_zero]
                refine
                  (binds.elsewhere_succ reached fun deeper => ?_).trans ?_
                · exact last (deeper + 1) (Nat.succ_pos deeper)
                · rw [StdMap.getElem?_insert, if_pos rfl]
            | succ depth =>
                exact binds.deepest_succ reached segment named last
          · intro name absent
            have other : name ≠ child.parameterName := fun same =>
              absent 0 ((namedAt_wild_zero_iff reached).mpr same.symm)
            refine (binds.elsewhere_succ reached fun depth => ?_).trans ?_
            · exact absent (depth + 1)
            · rw [StdMap.getElem?_insert, if_neg other]

/--
A miss leaves `params` alone.  A hit carries a handler, the segments from
`index` on match the way to it, and exactly the names on this way have been
written.
-/
theorem findFrom_undoes_bindings
    (node : Node β) (segments : List StdString) (index : Nat)
    (params : StdMap) :
    (∀ bound, node.findFrom (segments.drop index) params = (none, bound) →
      bound = params) ∧
      ∀ hit bound,
        node.findFrom (segments.drop index) params = (some hit, bound) →
        hit.handler.isSome ∧
          ∃ shape, node.walk shape = some hit ∧
            Matches shape (segments.drop index) ∧
            node.BindsAlong shape (segments.drop index) params bound := by
  rw [findFrom_eq]
  cases found : node.table.lookup (segments.drop index) with
  | none =>
      constructor
      · intro bound missed
        exact (Prod.mk.inj missed).2.symm
      · intro hit bound reached
        cases (Prod.mk.inj reached).1
  | some entry =>
      rcases walk_of_lookup found with ⟨target, walked, held⟩
      have matching := (Table.lookup_sound found).1
      constructor
      · intro bound missed
        cases walked.symm.trans (Prod.mk.inj missed).1
      · intro hit bound reached
        rcases Prod.mk.inj reached with ⟨own, rfl⟩
        obtain rfl := Option.some.inj (walked.symm.trans own)
        refine ⟨by rw [held]; rfl, entry.1, walked, matching, ?_⟩
        exact bindsAlong_bindings walked matching params

end PlusWeb.Node
