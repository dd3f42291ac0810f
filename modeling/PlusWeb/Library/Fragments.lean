import Mathlib

/-!
# Lists whose items may be cut into fragments

A partial operation `join` says which two adjacent items are fragments of one
item, and which one.  Merging joins adjacent fragments as far as possible.

If joining is associative, merging does not depend on where a list is cut.  A
step function that takes two joinable items to the same result as their join
takes a list and its merge to the same result, in any monad.  Items that are
no fragments keep their places.
-/

namespace PlusWeb.Fragments

variable {α : Type*} {σ : Type*} (join : α → α → Option α)

/--
Joining is associative: a fragment in the middle belongs to both sides or
to none.
-/
structure Associative : Prop where
  left : ∀ {first second both}, join first second = some both →
    ∀ {third}, join second third = none → join both third = none
  both : ∀ {first second both}, join first second = some both →
    ∀ {third rest}, join second third = some rest →
      ∃ all, join first rest = some all ∧ join both third = some all

/-- Put an item in front of a merged list. -/
def glue (item : α) : List α → List α
  | [] => [item]
  | next :: rest =>
      match join item next with
      | some both => both :: rest
      | none => item :: next :: rest

/-- Join adjacent fragments. -/
def merge (items : List α) : List α :=
  items.foldr (glue join) []

@[simp]
theorem merge_nil : merge join ([] : List α) = [] := rfl

theorem merge_cons (item : α) (items : List α) :
    merge join (item :: items) = glue join item (merge join items) := rfl

variable {join}

/-- Two joinable items in front of a list act like their join. -/
theorem glue_glue
    (associative : Associative join) {first second both : α}
    (joined : join first second = some both) (items : List α) :
    glue join first (glue join second items) = glue join both items := by
  cases items with
  | nil => simp [glue, joined]
  | cons third items =>
      cases next : join second third with
      | none => simp [glue, next, joined, associative.left joined next]
      | some rest =>
          rcases associative.both joined next with ⟨all, whole, same⟩
          simp [glue, next, whole, same]

/-- A merged list acts like the list itself in front of another one. -/
theorem foldr_glue_merge
    (associative : Associative join) (items rest : List α) :
    (merge join items).foldr (glue join) rest =
      items.foldr (glue join) rest := by
  induction items with
  | nil => rfl
  | cons item items induction =>
      rw [merge_cons, List.foldr_cons, ← induction]
      cases merge join items with
      | nil => rfl
      | cons next later =>
          cases joined : join item next with
          | none => simp [glue, joined]
          | some both =>
              simp only [glue, joined, List.foldr_cons]
              exact (glue_glue associative joined _).symm

/-- Merging depends only on the merges of the two parts. -/
theorem merge_append
    (associative : Associative join) (front back : List α) :
    merge join (front ++ back) =
      (merge join front).foldr (glue join) (merge join back) := by
  rw [foldr_glue_merge associative, merge, merge, List.foldr_append]

@[simp]
theorem merge_merge
    (associative : Associative join) (items : List α) :
    merge join (merge join items) = merge join items :=
  foldr_glue_merge associative items []

/-- A run over the items does not see where fragments were cut. -/
theorem foldlM_merge
    {m : Type _ → Type _} [Monad m] [LawfulMonad m]
    {step : σ → α → m σ}
    (respects : ∀ {first second both}, join first second = some both →
      ∀ state,
        (step state first >>= fun middle => step middle second) =
          step state both)
    (items : List α) (state : σ) :
    (merge join items).foldlM step state = items.foldlM step state := by
  induction items generalizing state with
  | nil => rfl
  | cons item items induction =>
      have later :
          items.foldlM step = (merge join items).foldlM step :=
        funext fun state => (induction state).symm
      rw [merge_cons, List.foldlM_cons, later]
      cases merge join items with
      | nil => simp [glue]
      | cons next rest =>
          cases joined : join item next with
          | none => simp [glue, joined]
          | some both =>
              simp only [glue, joined, List.foldlM_cons]
              rw [← respects joined, bind_assoc]

/-- An item that is no fragment and no join of fragments. -/
structure Whole (join : α → α → Option α) (item : α) : Prop where
  before : ∀ other, join item other = none
  after : ∀ other, join other item = none
  made : ∀ first second, join first second ≠ some item

/--
A whole item of a merged list stands in the list itself, and what is
merged behind it is what follows it there.
-/
theorem merge_eq_append_cons
    {item : α} (whole : Whole join item)
    {items front back : List α}
    (merged : merge join items = front ++ item :: back) :
    ∃ front' back',
      items = front' ++ item :: back' ∧ merge join back' = back := by
  induction items generalizing front with
  | nil => simp at merged
  | cons first items induction =>
      rw [merge_cons] at merged
      cases rest : merge join items with
      | nil =>
          rw [rest] at merged
          simp only [glue] at merged
          obtain ⟨rfl, equal⟩ := List.singleton_eq_append_iff.mp merged
            |>.resolve_right (by simp)
          rcases List.cons.inj equal with ⟨rfl, rfl⟩
          exact ⟨[], items, rfl, rest⟩
      | cons next later =>
          rw [rest] at merged
          cases joined : join first next with
          | none =>
              simp only [glue, joined] at merged
              cases front with
              | nil =>
                  rcases List.cons.inj merged with ⟨rfl, rfl⟩
                  exact ⟨[], items, rfl, rest⟩
              | cons head front =>
                  rcases List.cons.inj merged with ⟨rfl, tail⟩
                  obtain ⟨front', back', rfl, same⟩ :=
                    induction (rest.trans tail)
                  exact ⟨first :: front', back', rfl, same⟩
          | some both =>
              simp only [glue, joined] at merged
              cases front with
              | nil =>
                  rcases List.cons.inj merged with ⟨rfl, rfl⟩
                  exact absurd joined (whole.made first next)
              | cons head front =>
                  rcases List.cons.inj merged with ⟨rfl, tail⟩
                  obtain ⟨front', back', rfl, same⟩ :=
                    @induction (next :: front)
                      (rest.trans (congrArg (next :: ·) tail))
                  exact ⟨first :: front', back', rfl, same⟩

/-- A whole item of a list stays in the merged list. -/
theorem mem_merge
    {item : α} (whole : Whole join item) {items : List α}
    (member : item ∈ items) :
    item ∈ merge join items := by
  have keeps {first : α} {merged : List α}
      (member : item = first ∨ item ∈ merged) :
      item ∈ glue join first merged := by
    cases merged with
    | nil => simpa [glue] using member
    | cons next rest =>
        cases joined : join first next with
        | none => simpa [glue, joined] using member
        | some both =>
            simp only [glue, joined]
            rcases member with rfl | member
            · simp [whole.before] at joined
            · rcases List.mem_cons.mp member with rfl | later
              · simp [whole.after] at joined
              · exact List.mem_cons_of_mem _ later
  induction items with
  | nil => simp at member
  | cons first items induction =>
      rw [merge_cons]
      exact keeps ((List.mem_cons.mp member).imp_right induction)

end PlusWeb.Fragments
