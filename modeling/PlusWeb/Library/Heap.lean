import Mathlib

/-!
# Objects that are created and deleted

The objects of one type, under pointers in the order of their creation.  A
pointer is never used for a second object.

Deleting takes an object away and is counted, also if there is none.  A heap
is sound if each pointer given out has either an object that was never
deleted or none after one deletion.  Deleting an object keeps a heap sound;
deleting what is not there does not.
-/

namespace PlusWeb

/--
The object behind a pointer, the number of deletions, and the next
pointer.
-/
structure Heap (α : Type*) where
  object : Nat → Option α
  deletions : Nat → Nat
  next : Nat

namespace Heap

variable {α : Type*}

def empty : Heap α where
  object _ := none
  deletions _ := 0
  next := 0

/-- `new`: the object is behind the pointer that was next. -/
def new (object : α) (heap : Heap α) : Heap α :=
  { heap with
    object := Function.update heap.object heap.next (some object)
    next := heap.next + 1 }

/-- Write to the object behind a pointer. -/
def store (pointer : Nat) (object : α) (heap : Heap α) : Heap α :=
  { heap with
    object := Function.update heap.object pointer (some object) }

/-- `delete`. -/
def delete (pointer : Nat) (heap : Heap α) : Heap α :=
  { heap with
    object := Function.update heap.object pointer none
    deletions :=
      Function.update heap.deletions pointer (heap.deletions pointer + 1) }

theorem new_object (object : α) (heap : Heap α) (pointer : Nat) :
    (heap.new object).object pointer =
      if pointer = heap.next then some object else heap.object pointer :=
  Function.update_apply ..

@[simp]
theorem new_deletions (object : α) (heap : Heap α) :
    (heap.new object).deletions = heap.deletions := rfl

@[simp]
theorem new_next (object : α) (heap : Heap α) :
    (heap.new object).next = heap.next + 1 := rfl

theorem store_object
    (pointer : Nat) (object : α) (heap : Heap α) (other : Nat) :
    (heap.store pointer object).object other =
      if other = pointer then some object else heap.object other :=
  Function.update_apply ..

@[simp]
theorem store_deletions (pointer : Nat) (object : α) (heap : Heap α) :
    (heap.store pointer object).deletions = heap.deletions := rfl

@[simp]
theorem store_next (pointer : Nat) (object : α) (heap : Heap α) :
    (heap.store pointer object).next = heap.next := rfl

theorem delete_object (pointer : Nat) (heap : Heap α) (other : Nat) :
    (heap.delete pointer).object other =
      if other = pointer then none else heap.object other :=
  Function.update_apply ..

theorem delete_deletions (pointer : Nat) (heap : Heap α) (other : Nat) :
    (heap.delete pointer).deletions other =
      if other = pointer then heap.deletions pointer + 1
      else heap.deletions other :=
  Function.update_apply ..

@[simp]
theorem delete_next (pointer : Nat) (heap : Heap α) :
    (heap.delete pointer).next = heap.next := rfl

/-- The pointers that have an object. -/
def inUse (heap : Heap α) : Finset Nat :=
  (Finset.range heap.next).filter fun pointer =>
    (heap.object pointer).isSome

/-- The objects, in the order of their creation. -/
def objects (heap : Heap α) : List α :=
  (List.range heap.next).filterMap heap.object

/--
Each pointer given out has an object that was never deleted, or none
after one deletion.
-/
structure Sound (heap : Heap α) : Prop where
  fresh : ∀ pointer, heap.next ≤ pointer →
    heap.object pointer = none ∧ heap.deletions pointer = 0
  live : ∀ pointer object, heap.object pointer = some object →
    heap.deletions pointer = 0
  deleted : ∀ pointer < heap.next, heap.object pointer = none →
    heap.deletions pointer = 1

theorem sound_empty : (empty : Heap α).Sound where
  fresh _ _ := ⟨rfl, rfl⟩
  live _ _ held := by cases held
  deleted _ below := by cases below

namespace Sound

variable {heap : Heap α} (sound : heap.Sound)
include sound

theorem lt_next
    {pointer : Nat} {object : α} (held : heap.object pointer = some object) :
    pointer < heap.next := by
  by_contra beyond
  rw [(sound.fresh pointer (not_lt.mp beyond)).1] at held
  cases held

theorem deletions_le_one (pointer : Nat) : heap.deletions pointer ≤ 1 := by
  cases held : heap.object pointer with
  | some object => exact (sound.live pointer object held).le.trans zero_le_one
  | none =>
      by_cases below : pointer < heap.next
      · exact (sound.deleted pointer below held).le
      · exact (sound.fresh pointer (not_lt.mp below)).2.le.trans zero_le_one

theorem new (object : α) : (heap.new object).Sound where
  fresh pointer beyond := by
    have own : pointer ≠ heap.next := by
      rintro rfl
      exact Nat.not_succ_le_self _ beyond
    rw [new_object, if_neg own]
    exact sound.fresh pointer (Nat.le_of_succ_le beyond)
  live pointer other held := by
    rw [new_object] at held
    rw [new_deletions]
    split_ifs at held with own
    · exact (sound.fresh pointer own.ge).2
    · exact sound.live pointer other held
  deleted pointer below gone := by
    rw [new_object] at gone
    split_ifs at gone with own
    exact
      sound.deleted pointer
        (lt_of_le_of_ne (Nat.le_of_lt_succ below) own) gone

theorem store
    {pointer : Nat} {before : α} (held : heap.object pointer = some before)
    (object : α) : (heap.store pointer object).Sound where
  fresh other beyond := by
    have own : other ≠ pointer := by
      rintro rfl
      exact beyond.not_gt (sound.lt_next held)
    rw [store_object, if_neg own]
    exact sound.fresh other beyond
  live other stored inside := by
    rw [store_object] at inside
    rw [store_deletions]
    split_ifs at inside with own
    · rw [own]
      exact sound.live pointer before held
    · exact sound.live other stored inside
  deleted other below gone := by
    rw [store_object] at gone
    split_ifs at gone
    exact sound.deleted other below gone

/-- Deleting an object keeps the heap sound. -/
theorem delete
    {pointer : Nat} {object : α} (held : heap.object pointer = some object) :
    (heap.delete pointer).Sound where
  fresh other beyond := by
    have own : other ≠ pointer := by
      rintro rfl
      exact beyond.not_gt (sound.lt_next held)
    rw [delete_object, delete_deletions, if_neg own, if_neg own]
    exact sound.fresh other beyond
  live other stored inside := by
    rw [delete_object] at inside
    rw [delete_deletions]
    split_ifs at inside ⊢
    exact sound.live other stored inside
  deleted other below gone := by
    rw [delete_object] at gone
    rw [delete_deletions]
    split_ifs at gone ⊢ with own
    · rw [sound.live pointer object held]
    · exact sound.deleted other below gone

/-- An object that is deleted at once leaves the others alone. -/
theorem delete_new_object (object : α) :
    ((heap.new object).delete heap.next).object = heap.object := by
  ext1 pointer
  rw [delete_object, new_object]
  split_ifs with own
  · rw [own, (sound.fresh heap.next le_rfl).1]
  · rfl

theorem mem_inUse {pointer : Nat} :
    pointer ∈ heap.inUse ↔ ∃ object, heap.object pointer = some object := by
  rw [inUse, Finset.mem_filter, Finset.mem_range, Option.isSome_iff_exists]
  constructor
  · exact And.right
  · rintro ⟨object, held⟩
    exact ⟨sound.lt_next held, object, held⟩

theorem inUse_eq_empty_iff :
    heap.inUse = ∅ ↔ ∀ pointer, heap.object pointer = none := by
  simp only [Finset.eq_empty_iff_forall_notMem, sound.mem_inUse,
    ← Option.ne_none_iff_exists', not_not]

/-- One pointer less is in use after a deletion. -/
theorem card_inUse_delete
    {pointer : Nat} {object : α} (held : heap.object pointer = some object) :
    (heap.delete pointer).inUse.card + 1 = heap.inUse.card := by
  have erased : (heap.delete pointer).inUse = heap.inUse.erase pointer := by
    ext other
    rw [(sound.delete held).mem_inUse, Finset.mem_erase, sound.mem_inUse,
      delete_object]
    split_ifs with own
    · simp [own]
    · simp [own]
  rw [erased]
  exact Finset.card_erase_add_one (sound.mem_inUse.mpr ⟨object, held⟩)

theorem inUse_store
    {pointer : Nat} {before : α} (held : heap.object pointer = some before)
    (object : α) : (heap.store pointer object).inUse = heap.inUse := by
  ext other
  rw [(sound.store held object).mem_inUse, sound.mem_inUse, store_object]
  split_ifs with own
  · simp [own, held]
  · rfl

/-- An object that is deleted at once. -/
theorem objects_new_delete (object : α) :
    ((heap.new object).delete heap.next).objects = heap.objects := by
  rw [objects, delete_next, new_next, List.range_succ,
    List.filterMap_append, sound.delete_new_object]
  simp [objects, (sound.fresh heap.next le_rfl).1]

end Sound

/-- Nothing that was there before comes behind a new object. -/
theorem objects_new (object : α) (heap : Heap α) :
    (heap.new object).objects = heap.objects ++ [object] := by
  have early :
      (List.range heap.next).filterMap (heap.new object).object =
        heap.objects := by
    apply List.filterMap_congr
    intro pointer below
    rw [new_object, if_neg (List.mem_range.mp below).ne]
  rw [objects, new_next, List.range_succ, List.filterMap_append, early]
  simp [new_object]

/-- An object that is written to at once. -/
theorem objects_new_store (before object : α) (heap : Heap α) :
    ((heap.new before).store heap.next object).objects =
      heap.objects ++ [object] := by
  have same :
      (heap.new before).store heap.next object = heap.new object := by
    simp [Heap.new, Heap.store]
  rw [same]
  exact objects_new object heap

/-- What is left after a deletion keeps its order. -/
theorem objects_delete_sublist (pointer : Nat) (heap : Heap α) :
    (heap.delete pointer).objects.Sublist heap.objects := by
  unfold objects
  rw [delete_next]
  induction List.range heap.next with
  | nil => exact List.Sublist.refl _
  | cons other rest induction =>
      rw [List.filterMap_cons, List.filterMap_cons, delete_object]
      split_ifs
      · cases heap.object other with
        | none => exact induction
        | some object => exact induction.cons object
      · cases heap.object other with
        | none => exact induction
        | some object => exact induction.cons_cons object

end Heap

end PlusWeb
