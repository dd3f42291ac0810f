import PlusWeb.Library.Heap

/-!
# Trees of objects on a heap

Objects hold labelled pointers to other objects.  They form a tree below a
root if every pointer on the way leads to an object and no object is reached
in two ways, and they are owned by the root if no object is left over.

Two operations keep this: writing an object that points where the old one
did, and hanging a new object below an old one.  Both let the tree grow, which
is all that a loop on its way down has to know.  Destroying the root, each
object after what it points to, deletes every object once.

The objects and the labels are of arbitrary types.
-/

namespace PlusWeb.PointerTree

variable {α ε : Type*} [DecidableEq ε] (links : α → List (ε × Nat))

/-- The pointer that a path leads to. -/
def walk (heap : Heap α) : Nat → List ε → Option Nat
  | pointer, [] => some pointer
  | pointer, label :: path =>
      (heap.object pointer).bind fun object =>
        ((links object).lookup label).bind fun next => walk heap next path

/-- Every path leads to an object, and different paths to different ones. -/
structure Rooted (heap : Heap α) (root : Nat) : Prop where
  there : ∀ path pointer, walk links heap root path = some pointer →
    ∃ object, heap.object pointer = some object
  alone : ∀ path path' pointer, walk links heap root path = some pointer →
    walk links heap root path' = some pointer → path = path'
  keyed : ∀ path pointer object,
    walk links heap root path = some pointer →
      heap.object pointer = some object →
        ((links object).map Prod.fst).Nodup

/-- All objects of the heap form one tree. -/
structure Owns (heap : Heap α) (root : Nat) : Prop
    extends Rooted links heap root where
  sound : heap.Sound
  covers : ∀ pointer object, heap.object pointer = some object →
    ∃ path, walk links heap root path = some pointer

/-! ## Paths -/

section Paths

variable {links}

@[simp]
theorem walk_nil (heap : Heap α) (pointer : Nat) :
    walk links heap pointer [] = some pointer := rfl

theorem walk_cons
    (heap : Heap α) {pointer : Nat} {object : α}
    (held : heap.object pointer = some object) (label : ε) (path : List ε) :
    walk links heap pointer (label :: path) =
      ((links object).lookup label).bind fun next =>
        walk links heap next path := by
  rw [walk, held, Option.bind_some]

theorem walk_append
    (heap : Heap α) (pointer : Nat) (path more : List ε) :
    walk links heap pointer (path ++ more) =
      (walk links heap pointer path).bind fun middle =>
        walk links heap middle more := by
  induction path generalizing pointer with
  | nil => rfl
  | cons label path induction =>
      rw [List.cons_append, walk, walk]
      cases heap.object pointer with
      | none => rfl
      | some object =>
          rw [Option.bind_some, Option.bind_some]
          cases (links object).lookup label with
          | none => rfl
          | some next => exact induction next

/-- What is not on the way does not matter. -/
theorem walk_congr
    {heap heap' : Heap α} {start : Nat}
    (same : ∀ path pointer, walk links heap start path = some pointer →
      heap'.object pointer = heap.object pointer)
    (path : List ε) :
    walk links heap' start path = walk links heap start path := by
  induction path generalizing start with
  | nil => rfl
  | cons label path induction =>
      rw [walk, walk, same [] start rfl]
      cases held : heap.object start with
      | none => rfl
      | some object =>
          rw [Option.bind_some, Option.bind_some]
          cases found : (links object).lookup label with
          | none => rfl
          | some next =>
              apply induction
              intro more pointer reached
              apply same (label :: more)
              rw [walk_cons heap held, found, Option.bind_some]
              exact reached

omit [DecidableEq ε] in
/-- Under a label that is there once is what is kept with it. -/
theorem lookup_eq_some_iff_mem [BEq ε] [LawfulBEq ε]
    {entries : List (ε × Nat)} (keys : (entries.map Prod.fst).Nodup)
    {label : ε} {next : Nat} :
    entries.lookup label = some next ↔ (label, next) ∈ entries := by
  induction entries with
  | nil => simp
  | cons entry entries induction =>
      rcases entry with ⟨key, value⟩
      rw [List.map_cons, List.nodup_cons] at keys
      rw [List.lookup_cons, List.mem_cons, Prod.mk.injEq]
      by_cases same : label = key
      · subst same
        have once : (label, next) ∉ entries := fun later =>
          keys.1 (List.mem_map.mpr ⟨_, later, rfl⟩)
        simp [once, eq_comm]
      · rw [beq_false_of_ne same]
        simp [same, induction keys.2]

/-- A pointer that is kept under its label is on a path. -/
theorem walk_of_mem
    {heap : Heap α} {pointer next : Nat} {object : α} {label : ε}
    (held : heap.object pointer = some object)
    (keys : ((links object).map Prod.fst).Nodup)
    (member : (label, next) ∈ links object) (path : List ε) :
    walk links heap pointer (label :: path) =
      walk links heap next path := by
  rw [walk_cons heap held, (lookup_eq_some_iff_mem keys).mpr member,
    Option.bind_some]

/-- What is not below the root does not matter. -/
theorem Rooted.congr
    {heap heap' : Heap α} {root : Nat} (rooted : Rooted links heap root)
    (same : ∀ path pointer, walk links heap root path = some pointer →
      heap'.object pointer = heap.object pointer) :
    Rooted links heap' root := by
  have walks := walk_congr same
  constructor
  · intro path pointer found
    rw [walks] at found
    rw [same path pointer found]
    exact rooted.there path pointer found
  · intro path path' pointer found found'
    rw [walks] at found found'
    exact rooted.alone path path' pointer found found'
  · intro path pointer object found held
    rw [walks] at found
    rw [same path pointer found] at held
    exact rooted.keyed path pointer object found held

/-- The tree below a node. -/
theorem Rooted.below
    {heap : Heap α} {root pointer : Nat} {path : List ε}
    (rooted : Rooted links heap root)
    (reached : walk links heap root path = some pointer) :
    Rooted links heap pointer := by
  have extend (more : List ε) :
      walk links heap root (path ++ more) = walk links heap pointer more := by
    rw [walk_append, reached, Option.bind_some]
  constructor
  · intro more other found
    exact rooted.there (path ++ more) other (by rw [extend, found])
  · intro more more' other found found'
    exact
      List.append_cancel_left
        (rooted.alone _ _ other (by rw [extend, found])
          (by rw [extend, found']))
  · intro more other object found
    exact rooted.keyed (path ++ more) other object (by rw [extend, found])

/-- The order of the pointers in an object does not matter. -/
theorem Rooted.walk_perm
    {links' : α → List (ε × Nat)}
    (same : ∀ object, (links' object).Perm (links object))
    {heap : Heap α} {start : Nat} (rooted : Rooted links heap start)
    (path : List ε) :
    walk links' heap start path = walk links heap start path := by
  induction path generalizing start with
  | nil => rfl
  | cons label path induction =>
      rw [walk, walk]
      cases held : heap.object start with
      | none => rfl
      | some object =>
          have keys := rooted.keyed [] start object rfl held
          have keys' : ((links' object).map Prod.fst).Nodup :=
            ((same object).map Prod.fst).nodup_iff.mpr keys
          have leads :
              (links' object).lookup label = (links object).lookup label := by
            ext next
            rw [lookup_eq_some_iff_mem keys, lookup_eq_some_iff_mem keys',
              (same object).mem_iff]
          rw [Option.bind_some, Option.bind_some, leads]
          cases found : (links object).lookup label with
          | none => rfl
          | some next =>
              have step : walk links heap start [label] = some next := by
                rw [walk_cons heap held, found, Option.bind_some, walk_nil]
              exact induction (rooted.below step)

theorem Owns.perm
    {links' : α → List (ε × Nat)}
    (same : ∀ object, (links' object).Perm (links object))
    {heap : Heap α} {root : Nat} (owns : Owns links heap root) :
    Owns links' heap root := by
  have walks := owns.walk_perm same
  refine
    { there := ?_
      alone := ?_
      keyed := ?_
      sound := owns.sound
      covers := ?_ }
  · intro path pointer found
    rw [walks] at found
    exact owns.there path pointer found
  · intro path path' pointer found found'
    rw [walks] at found found'
    exact owns.alone path path' pointer found found'
  · intro path pointer object found held
    rw [walks] at found
    exact
      ((same object).map Prod.fst).nodup_iff.mpr
        (owns.keyed path pointer object found held)
  · intro pointer object held
    simp only [walks]
    exact owns.covers pointer object held

end Paths

/-! ## Writing -/

section Writing

variable {links}

/-- An object that points where the old one did leaves all paths alone. -/
theorem walk_store
    {heap : Heap α} {pointer : Nat} {before object : α}
    (held : heap.object pointer = some before)
    (same : links object = links before) (start : Nat) (path : List ε) :
    walk links (heap.store pointer object) start path =
      walk links heap start path := by
  induction path generalizing start with
  | nil => rfl
  | cons label path induction =>
      rw [walk, walk, Heap.store_object]
      split_ifs with own
      · rw [own, held, Option.bind_some, Option.bind_some, same]
        simp only [induction]
      · simp only [induction]

theorem Owns.store
    {heap : Heap α} {root pointer : Nat} {before object : α}
    (owns : Owns links heap root) (held : heap.object pointer = some before)
    (same : links object = links before) :
    Owns links (heap.store pointer object) root := by
  have walks (start : Nat) (path : List ε) :
      walk links (heap.store pointer object) start path =
        walk links heap start path :=
    walk_store held same start path
  refine
    { there := ?_
      alone := ?_
      keyed := ?_
      sound := owns.sound.store held object
      covers := ?_ }
  · intro path other found
    rw [walks] at found
    rw [Heap.store_object]
    split_ifs
    · exact ⟨object, rfl⟩
    · exact owns.there path other found
  · intro path path' other found found'
    rw [walks] at found found'
    exact owns.alone path path' other found found'
  · intro path other object' found held'
    rw [walks] at found
    rw [Heap.store_object] at held'
    split_ifs at held' with own
    · subst own
      rw [← Option.some.inj held', same]
      exact owns.keyed path other before found held
    · exact owns.keyed path other object' found held'
  · intro other object' held'
    rw [Heap.store_object] at held'
    simp only [walks]
    split_ifs at held' with own
    · exact owns.covers other before (own ▸ held)
    · exact owns.covers other object' held'

/-- Hang a new object below an old one. -/
def hang (pointer : Nat) (object fresh : α) (heap : Heap α) : Heap α :=
  (heap.new fresh).store pointer object

/-- The old object with one more pointer, to the new object. -/
structure Hangs
    (links : α → List (ε × Nat)) (heap : Heap α) (pointer : Nat)
    (before object fresh : α) (label : ε) : Prop where
  held : heap.object pointer = some before
  free : (links before).lookup label = none
  adds : ∀ other, (links object).lookup other =
    if other = label then some heap.next else (links before).lookup other
  keys : ((links object).map Prod.fst).Nodup
  leaf : links fresh = []

theorem hang_object
    (pointer : Nat) (object fresh : α) (heap : Heap α) (other : Nat) :
    (hang pointer object fresh heap).object other =
      if other = pointer then some object
      else if other = heap.next then some fresh else heap.object other := by
  rw [hang, Heap.store_object, Heap.new_object]

section Hanging

variable {heap : Heap α} {root pointer : Nat} {before object fresh : α}
  {label : ε} {way : List ε}

/-- One path more leads to an object, and that to the new one. -/
theorem walk_hang
    (owns : Owns links heap root)
    (hangs : Hangs links heap pointer before object fresh label)
    (reached : walk links heap root way = some pointer) (path : List ε) :
    walk links (hang pointer object fresh heap) root path =
      if path = way ++ [label] then some heap.next
      else walk links heap root path := by
  have ended : walk links heap root (way ++ [label]) = none := by
    rw [walk_append, reached, Option.bind_some, walk_cons heap hangs.held,
      hangs.free, Option.bind_none]
  have apart : pointer ≠ heap.next :=
    (owns.sound.lt_next hangs.held).ne
  -- from any node on the way down
  have from_ (path past : List ε) (start : Nat)
      (found : walk links heap root past = some start) :
      walk links (hang pointer object fresh heap) start path =
        if past ++ path = way ++ [label] then some heap.next
        else walk links heap start path := by
    induction path generalizing past start with
    | nil =>
        have other : past ++ [] ≠ way ++ [label] := by
          rw [List.append_nil]
          rintro rfl
          rw [found] at ended
          cases ended
        rw [if_neg other, walk_nil, walk_nil]
    | cons first path induction =>
        obtain ⟨own, held⟩ := owns.there past start found
        have step (next : Nat) (leads : (links own).lookup first = some next) :
            walk links heap root (past ++ [first]) = some next := by
          rw [walk_append, found, Option.bind_some, walk_cons heap held,
            leads, Option.bind_some, walk_nil]
        have regroup : past ++ first :: path = (past ++ [first]) ++ path := by
          simp
        by_cases here : start = pointer
        · subst here
          obtain rfl := owns.alone past way start found reached
          obtain rfl := Option.some.inj (held.symm.trans hangs.held)
          have held' :
              (hang start object fresh heap).object start = some object := by
            rw [hang_object, if_pos rfl]
          rw [walk_cons _ held', hangs.adds, walk_cons heap held]
          by_cases same : first = label
          · subst same
            rw [if_pos rfl, Option.bind_some, hangs.free, Option.bind_none]
            cases path with
            | nil => simp
            | cons second path =>
                have heldNew :
                    (hang start object fresh heap).object heap.next =
                      some fresh := by
                  rw [hang_object, if_neg apart.symm, if_pos rfl]
                rw [walk_cons _ heldNew, hangs.leaf]
                simp
          · rw [if_neg same]
            have different : past ++ first :: path ≠ past ++ [label] := by
              simp [same]
            rw [if_neg different]
            cases leads : (links own).lookup first with
            | none => rfl
            | some next =>
                rw [Option.bind_some, Option.bind_some,
                  induction (past ++ [first]) next (step next leads),
                  ← regroup, if_neg different]
        · have old : start ≠ heap.next :=
            (owns.sound.lt_next held).ne
          have held' :
              (hang pointer object fresh heap).object start = some own := by
            rw [hang_object, if_neg here, if_neg old, held]
          rw [walk_cons _ held', walk_cons heap held]
          cases leads : (links own).lookup first with
          | none =>
              have different : past ++ first :: path ≠ way ++ [label] := by
                intro same
                rcases List.eq_nil_or_concat path with
                  rfl | ⟨middle, last, rfl⟩
                · rw [(List.append_inj' same rfl).1, reached] at found
                  exact here (Option.some.inj found).symm
                · have longer :
                      (past ++ first :: middle) ++ [last] =
                        way ++ [label] := by
                    simpa using same
                  rw [← (List.append_inj' longer rfl).1, walk_append, found,
                    Option.bind_some, walk_cons heap held, leads] at reached
                  cases reached
              rw [if_neg different]
              rfl
          | some next =>
              rw [Option.bind_some, Option.bind_some,
                induction (past ++ [first]) next (step next leads), regroup]
  exact from_ path [] root rfl

theorem Owns.hang
    (owns : Owns links heap root)
    (hangs : Hangs links heap pointer before object fresh label)
    (reached : walk links heap root way = some pointer) :
    Owns links (hang pointer object fresh heap) root := by
  have walks := walk_hang owns hangs reached
  have ended : walk links heap root (way ++ [label]) = none := by
    rw [walk_append, reached, Option.bind_some, walk_cons heap hangs.held,
      hangs.free, Option.bind_none]
  have old {path : List ε} {other : Nat}
      (found : walk links heap root path = some other) :
      other ≠ heap.next := by
    obtain ⟨own, held⟩ := owns.there path other found
    exact (owns.sound.lt_next held).ne
  have apart : pointer ≠ heap.next := old reached
  have sound : (PointerTree.hang pointer object fresh heap).Sound := by
    have held : (heap.new fresh).object pointer = some before := by
      rw [Heap.new_object, if_neg apart]
      exact hangs.held
    exact (owns.sound.new fresh).store held object
  refine
    { there := ?_
      alone := ?_
      keyed := ?_
      sound := sound
      covers := ?_ }
  · intro path other found
    rw [walks] at found
    rw [hang_object]
    split_ifs with own new
    · exact ⟨object, rfl⟩
    · exact ⟨fresh, rfl⟩
    · split_ifs at found with last
      · exact absurd (Option.some.inj found).symm new
      · exact owns.there path other found
  · intro path path' other found found'
    rw [walks] at found found'
    split_ifs at found found' with last last' last'
    · rw [last, last']
    · exact absurd (Option.some.inj found).symm (old found')
    · exact absurd (Option.some.inj found').symm (old found)
    · exact owns.alone path path' other found found'
  · intro path other own found held
    rw [walks] at found
    rw [hang_object] at held
    split_ifs at held with here new
    · rw [← Option.some.inj held]
      exact hangs.keys
    · rw [← Option.some.inj held, hangs.leaf]
      exact List.nodup_nil
    · split_ifs at found with last
      · exact absurd (Option.some.inj found).symm new
      · exact owns.keyed path other own found held
  · intro other own held
    rw [hang_object] at held
    split_ifs at held with here new
    · refine ⟨way, ?_⟩
      rw [walks, if_neg (by simp), here]
      exact reached
    · refine ⟨way ++ [label], ?_⟩
      rw [walks, if_pos rfl, new]
    · obtain ⟨path, found⟩ := owns.covers other own held
      refine ⟨path, ?_⟩
      have different : path ≠ way ++ [label] := by
        rintro rfl
        rw [found] at ended
        cases ended
      rw [walks, if_neg different]
      exact found

end Hanging

end Writing

/-! ## Growing -/

/--
What operations below the end of a way keep: the tree, with the paths it
had, and the objects elsewhere.
-/
structure Grows
    (links : α → List (ε × Nat)) (root : Nat) (way : List ε)
    (heap heap' : Heap α) : Prop where
  owns : Owns links heap' root
  paths : ∀ path pointer, walk links heap root path = some pointer →
    walk links heap' root path = some pointer
  next : heap.next ≤ heap'.next
  frame : ∀ pointer < heap.next,
    (∀ more, walk links heap root (way ++ more) ≠ some pointer) →
      heap'.object pointer = heap.object pointer

section Growing

variable {links} {heap heap' heap'' : Heap α} {root pointer : Nat}
  {way more : List ε}

theorem Grows.refl (owns : Owns links heap root) :
    Grows links root way heap heap where
  owns := owns
  paths _ _ found := found
  next := le_rfl
  frame _ _ _ := rfl

/-- An object that was there is where it was. -/
theorem Grows.backward
    (grows : Grows links root way heap heap') {other : Nat} {object : α}
    (owns : Owns links heap root) (held : heap.object other = some object)
    {path : List ε} (found : walk links heap' root path = some other) :
    walk links heap root path = some other := by
  obtain ⟨early, reached⟩ := owns.covers other object held
  rw [grows.owns.alone path early other found
    (grows.paths early other reached), reached]

/-- What happens further down comes after. -/
theorem Grows.trans
    (owns : Owns links heap root) (grows : Grows links root way heap heap')
    (grows' : Grows links root (way ++ more) heap' heap'') :
    Grows links root way heap heap'' where
  owns := grows'.owns
  paths path pointer found :=
    grows'.paths path pointer (grows.paths path pointer found)
  next := grows.next.trans grows'.next
  frame pointer below apart := by
    have before := grows.frame pointer below apart
    rw [← before]
    apply grows'.frame pointer (below.trans_le grows.next)
    intro path found
    obtain ⟨object, held⟩ := grows.owns.there _ pointer found
    apply apart (more ++ path)
    rw [← List.append_assoc]
    exact grows.backward owns (before.symm.trans held) found

theorem grows_store
    {before object : α} (owns : Owns links heap root)
    (reached : walk links heap root way = some pointer)
    (held : heap.object pointer = some before)
    (same : links object = links before) :
    Grows links root way heap (heap.store pointer object) where
  owns := owns.store held same
  paths path other found := by rw [walk_store held same, found]
  next := le_rfl
  frame other _ apart := by
    rw [Heap.store_object, if_neg]
    rintro rfl
    apply apart []
    rw [List.append_nil, reached]

theorem grows_hang
    {before object fresh : α} {label : ε} (owns : Owns links heap root)
    (reached : walk links heap root way = some pointer)
    (hangs : Hangs links heap pointer before object fresh label) :
    Grows links root way heap (hang pointer object fresh heap) := by
  have ended : walk links heap root (way ++ [label]) = none := by
    rw [walk_append, reached, Option.bind_some, walk_cons heap hangs.held,
      hangs.free, Option.bind_none]
  refine ⟨owns.hang hangs reached, ?_, Nat.le_succ _, ?_⟩
  · intro path other found
    rw [walk_hang owns hangs reached, if_neg, found]
    rintro rfl
    rw [ended] at found
    cases found
  · intro other below apart
    rw [hang_object, if_neg, if_neg below.ne]
    rintro rfl
    apply apart []
    rw [List.append_nil, reached]

end Growing

/-! ## Destroying -/

/-- `delete` on a node whose destructor deletes what it points to. -/
def destroy (links : α → List (ε × Nat)) :
    Nat → Nat → Heap α → Option (Heap α)
  | 0, _, _ => none
  | fuel + 1, pointer, heap =>
      (heap.object pointer).bind fun object =>
        ((links object).foldlM
          (fun heap link => destroy links fuel link.2 heap) heap).map
            fun heap => heap.delete pointer

/-- Some path leads from one pointer to the other. -/
def Reaches (heap : Heap α) (start pointer : Nat) : Prop :=
  ∃ path, walk links heap start path = some pointer

/-- Some objects have been deleted, each once, and the others left alone. -/
structure Without (heap : Heap α) (dead : Nat → Prop) (after : Heap α) :
    Prop where
  sound : after.Sound
  next : after.next = heap.next
  gone : ∀ pointer, dead pointer → after.object pointer = none
  kept : ∀ pointer, ¬ dead pointer →
    after.object pointer = heap.object pointer

section Destroying

variable {links}

/-- Below different children of a node there is nothing in common. -/
theorem Rooted.disjoint
    {heap : Heap α} {pointer : Nat} {object : α}
    (rooted : Rooted links heap pointer)
    (held : heap.object pointer = some object)
    {first second : ε × Nat} (firstIn : first ∈ links object)
    (secondIn : second ∈ links object) (apart : first.1 ≠ second.1)
    {other : Nat} (reached : Reaches links heap first.2 other) :
    ¬ Reaches links heap second.2 other := by
  have keys := rooted.keyed [] pointer object rfl held
  rcases reached with ⟨path, found⟩
  rintro ⟨path', found'⟩
  rw [← walk_of_mem held keys firstIn] at found
  rw [← walk_of_mem held keys secondIn] at found'
  exact apart (List.cons.inj (rooted.alone _ _ other found found')).1

/--
Destroying the root of a tree deletes its nodes, if the paths are shorter
than the fuel.
-/
theorem destroy_without
    (fuel : Nat) {heap : Heap α} {pointer : Nat} (sound : heap.Sound)
    (rooted : Rooted links heap pointer)
    (short : ∀ path other, walk links heap pointer path = some other →
      path.length < fuel) :
    ∃ after, destroy links fuel pointer heap = some after ∧
      Without heap (Reaches links heap pointer) after := by
  induction fuel generalizing heap pointer with
  | zero => exact absurd (short [] pointer rfl) (Nat.not_lt_zero _)
  | succ fuel induction =>
      obtain ⟨object, held⟩ := rooted.there [] pointer rfl
      have keys := rooted.keyed [] pointer object rfl held
      -- the children that are done, and those that are not
      have children (past rest : List (ε × Nat)) (middle : Heap α)
          (cut : links object = past ++ rest)
          (before :
            Without heap
              (fun other => ∃ link ∈ past, Reaches links heap link.2 other)
              middle) :
          ∃ after,
            rest.foldlM
                (fun heap link => destroy links fuel link.2 heap) middle =
              some after ∧
            Without heap
              (fun other => ∃ link ∈ links object,
                Reaches links heap link.2 other) after := by
        induction rest generalizing past middle with
        | nil =>
            rw [List.append_nil] at cut
            rw [cut]
            exact ⟨middle, rfl, before⟩
        | cons link rest inner =>
            have linkIn : link ∈ links object := by
              rw [cut]
              exact List.mem_append_right _ (List.mem_cons_self ..)
            have untouched (other : Nat)
                (reached : Reaches links heap link.2 other) :
                middle.object other = heap.object other := by
              apply before.kept
              rintro ⟨done, doneIn, found⟩
              have apart : link.1 ≠ done.1 := by
                rw [cut, List.map_append, List.map_cons,
                  List.nodup_append] at keys
                exact
                  (keys.2.2 _ (List.mem_map_of_mem doneIn) _
                    (List.mem_cons_self ..)).symm
              have doneIn' : done ∈ links object := by
                rw [cut]
                exact List.mem_append_left _ doneIn
              exact
                rooted.disjoint held linkIn doneIn' apart reached found
            have same (path : List ε) (other : Nat)
                (found : walk links heap link.2 path = some other) :
                middle.object other = heap.object other :=
              untouched other ⟨path, found⟩
            have down (path : List ε) :
                walk links heap pointer (link.1 :: path) =
                  walk links heap link.2 path :=
              walk_of_mem held keys linkIn path
            have below : Rooted links middle link.2 := by
              have first :
                  walk links heap pointer [link.1] = some link.2 := down []
              exact (rooted.below first).congr same
            obtain ⟨after, destroyed, without⟩ :=
              induction before.sound below fun path other found => by
                rw [walk_congr same, ← down] at found
                exact Nat.lt_of_succ_lt_succ (short _ other found)
            have next :
                Without heap
                  (fun other => ∃ done ∈ past ++ [link],
                    Reaches links heap done.2 other) after := by
              refine
                { sound := without.sound
                  next := without.next.trans before.next
                  gone := ?_
                  kept := ?_ }
              · rintro other ⟨done, doneIn, found⟩
                rcases List.mem_append.mp doneIn with early | own
                · by_cases again : Reaches links middle link.2 other
                  · exact without.gone other again
                  · rw [without.kept other again]
                    exact before.gone other ⟨done, early, found⟩
                · rw [List.mem_singleton.mp own] at found
                  rcases found with ⟨path, found⟩
                  exact
                    without.gone other
                      ⟨path, (walk_congr same path).trans found⟩
              · intro other apart
                have unreached : ¬ Reaches links middle link.2 other := by
                  rintro ⟨path, found⟩
                  rw [walk_congr same] at found
                  exact apart ⟨link, by simp, path, found⟩
                rw [without.kept other unreached]
                apply before.kept
                rintro ⟨done, early, found⟩
                exact apart ⟨done, List.mem_append_left _ early, found⟩
            obtain ⟨last, finished, rest'⟩ :=
              inner (past ++ [link]) after (by simp [cut]) next
            refine ⟨last, ?_, rest'⟩
            rw [List.foldlM_cons, destroyed]
            exact finished
      obtain ⟨after, finished, without⟩ :=
        children [] (links object) heap rfl
          ⟨sound, rfl, fun _ none => by simp at none, fun _ _ => rfl⟩
      have own : after.object pointer = some object := by
        rw [← held]
        apply without.kept
        rintro ⟨link, linkIn, path, found⟩
        rw [← walk_of_mem held keys linkIn] at found
        cases rooted.alone _ [] pointer found rfl
      refine ⟨after.delete pointer, ?_, ?_⟩
      · rw [destroy, held, Option.bind_some, finished]
        rfl
      · refine
          { sound := without.sound.delete own
            next := without.next
            gone := ?_
            kept := ?_ }
        · rintro other ⟨path, found⟩
          rw [Heap.delete_object]
          split_ifs with here
          · rfl
          · apply without.gone
            cases path with
            | nil => exact absurd (Option.some.inj found).symm here
            | cons label path =>
                rw [walk_cons heap held] at found
                rcases Option.bind_eq_some_iff.mp found with
                  ⟨next, leads, found⟩
                obtain ⟨early, late, cut, -⟩ :=
                  List.lookup_eq_some_iff.mp leads
                exact ⟨(label, next), by simp [cut], path, found⟩
        · intro other unreached
          have apart : other ≠ pointer := by
            rintro rfl
            exact unreached ⟨[], rfl⟩
          rw [Heap.delete_object, if_neg apart]
          apply without.kept
          rintro ⟨link, linkIn, path, found⟩
          apply unreached
          exact
            ⟨link.1 :: path,
              (walk_of_mem held keys linkIn path).trans found⟩

/--
The nodes on a path are different, so that it is shorter than there are
pointers.
-/
theorem Rooted.length_lt
    {heap : Heap α} {root pointer : Nat} (rooted : Rooted links heap root)
    (sound : heap.Sound) {path : List ε}
    (reached : walk links heap root path = some pointer) :
    path.length < heap.next := by
  have passes (count : Nat) :
      ∃ middle, walk links heap root (path.take count) = some middle := by
    rw [← List.take_append_drop count path, walk_append] at reached
    rcases Option.bind_eq_some_iff.mp reached with ⟨middle, found, -⟩
    exact ⟨middle, found⟩
  choose middle found using passes
  have below : ∀ count ∈ Finset.range (path.length + 1),
      middle count ∈ Finset.range heap.next := by
    intro count _
    obtain ⟨object, held⟩ := rooted.there _ _ (found count)
    exact Finset.mem_range.mpr (sound.lt_next held)
  have different :
      Set.InjOn middle (Finset.range (path.length + 1)) := by
    intro first firstIn second secondIn same
    have taken : path.take first = path.take second := by
      apply rooted.alone _ _ (middle first) (found first)
      rw [same]
      exact found second
    have lengths := congrArg List.length taken
    simp only [Finset.coe_range, Set.mem_Iio] at firstIn secondIn
    simp only [List.length_take] at lengths
    omega
  have counted := Finset.card_le_card_of_injOn middle below different
  simpa using counted

/-- Destroying the root deletes everything. -/
theorem Owns.destroy
    {heap : Heap α} {root : Nat} (owns : Owns links heap root) :
    ∃ after, PointerTree.destroy links heap.next root heap = some after ∧
      after.Sound ∧ after.next = heap.next ∧
        ∀ pointer, after.object pointer = none := by
  obtain ⟨after, destroyed, without⟩ :=
    destroy_without heap.next owns.sound owns.toRooted
      fun path other found => owns.length_lt owns.sound found
  refine ⟨after, destroyed, without.sound, without.next, fun pointer => ?_⟩
  by_cases reached : Reaches links heap root pointer
  · exact without.gone pointer reached
  · rw [without.kept pointer reached]
    cases held : heap.object pointer with
    | none => rfl
    | some object => exact absurd (owns.covers pointer object held) reached

end Destroying

end PlusWeb.PointerTree
