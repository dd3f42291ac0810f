import Mathlib

/-!
# Leftmost occurrences in lists

Searching a list for the leftmost occurrence of another list, over an
arbitrary alphabet.  The search is characterised by its position: the needle
starts there and starts nowhere earlier.  For a needle of one letter the
result is the cut of the list at that letter.

Nothing here mentions a particular string format.
-/

namespace PlusWeb.ListSearch

variable {α : Type*} [DecidableEq α]

/-- Offset of the leftmost occurrence of `needle`. -/
def indexOf (needle : List α) : List α → Option Nat
  | [] => if needle = [] then some 0 else none
  | head :: tail =>
      if needle <+: head :: tail then some 0
      else (indexOf needle tail).map (· + 1)

/-- The occurrence found is an occurrence, and nothing occurs before it. -/
theorem indexOf_eq_some_iff
    {needle text : List α} {offset : Nat} :
    indexOf needle text = some offset ↔
      offset ≤ text.length ∧
        needle <+: text.drop offset ∧
        ∀ earlier < offset, ¬ needle <+: text.drop earlier := by
  induction text generalizing offset with
  | nil =>
      simp only [indexOf, List.length_nil, Nat.le_zero, List.drop_nil,
        List.prefix_nil]
      constructor
      · intro found
        split at found
        case isTrue empty =>
          cases found
          exact ⟨rfl, empty, by simp⟩
        case isFalse => cases found
      · rintro ⟨rfl, rfl, -⟩
        rfl
  | cons head tail induction =>
      simp only [indexOf]
      by_cases here : needle <+: head :: tail
      · simp only [here, ↓reduceIte, Option.some.injEq]
        constructor
        · rintro rfl
          exact ⟨Nat.zero_le _, by simpa using here, by simp⟩
        · rintro ⟨-, -, minimal⟩
          by_contra positive
          exact minimal 0 (by omega) (by simpa using here)
      · simp only [here, ↓reduceIte, Option.map_eq_some_iff]
        constructor
        · rintro ⟨offset', found, rfl⟩
          rcases induction.mp found with ⟨bound, occurs, minimal⟩
          refine ⟨by simpa using bound, by simpa using occurs, ?_⟩
          intro earlier before
          cases earlier with
          | zero => simpa using here
          | succ earlier => simpa using minimal earlier (by omega)
        · rintro ⟨bound, occurs, minimal⟩
          cases offset with
          | zero => exact (here (by simpa using occurs)).elim
          | succ offset =>
              refine ⟨offset, induction.mpr ⟨?_, ?_, ?_⟩, rfl⟩
              · simpa using bound
              · simpa using occurs
              · intro earlier before
                simpa using minimal (earlier + 1) (by omega)

theorem indexOf_eq_none_iff
    {needle text : List α} :
    indexOf needle text = none ↔ ¬ needle <:+: text := by
  induction text with
  | nil => simp [indexOf]
  | cons head tail induction =>
      simp only [indexOf]
      by_cases here : needle <+: head :: tail
      · simp [here, here.isInfix]
      · simp [here, induction, List.infix_cons_iff]

/-- What the leftmost occurrence leaves on its left contains no occurrence. -/
theorem indexOf_append
    {needle : List α} {offset : Nat} {text : List α}
    (found : indexOf needle text = some offset) :
    text =
      text.take offset ++ needle ++
        text.drop (offset + needle.length) := by
  rcases indexOf_eq_some_iff.mp found with ⟨-, occurs, -⟩
  rcases occurs with ⟨rest, equal⟩
  have dropped : text.drop (offset + needle.length) = rest := by
    rw [← List.drop_drop, ← equal, List.drop_left]
  rw [dropped, List.append_assoc, equal, List.take_append_drop]

theorem indexOf_bound
    {needle : List α} {offset : Nat} {text : List α}
    (found : indexOf needle text = some offset) :
    offset + needle.length ≤ text.length := by
  have length := congrArg List.length (indexOf_append found)
  rcases indexOf_eq_some_iff.mp found with ⟨bound, -, -⟩
  simp only [List.length_append, List.length_take, List.length_drop]
    at length
  omega

/-- A needle is found behind a text without its first letter. -/
theorem indexOf_append_of_notMem
    {letter : α} {needle front : List α} (absent : letter ∉ front)
    (back : List α) :
    indexOf (letter :: needle) (front ++ (letter :: needle ++ back)) =
      some front.length := by
  induction front with
  | nil =>
      have here : letter :: needle <+: letter :: (needle ++ back) :=
        ⟨back, rfl⟩
      simp [indexOf, here]
  | cons head front induction =>
      rw [List.mem_cons, not_or] at absent
      have apart :
          ¬ letter :: needle <+:
            head :: (front ++ (letter :: needle ++ back)) := by
        rintro ⟨rest, same⟩
        exact absent.1 (List.cons.inj same).1
      rw [List.cons_append, indexOf, if_neg apart, induction absent.2]
      rfl

omit [DecidableEq α] in
/-- A needle does not reach across a letter it lacks. -/
theorem infix_append_cons_iff
    {needle before after : List α} {letter : α} (absent : letter ∉ needle) :
    needle <:+: before ++ letter :: after ↔
      needle <:+: before ∨ needle <:+: after := by
  constructor
  · rintro ⟨front, back, equal⟩
    rw [List.append_assoc, List.append_eq_append_iff] at equal
    rcases equal with ⟨rest, rfl, split⟩ | ⟨rest, rfl, split⟩
    · -- the needle begins in `before`
      rw [List.append_eq_append_iff] at split
      rcases split with ⟨tail, rfl, -⟩ | ⟨tail, rfl, cut⟩
      · exact Or.inl ⟨front, tail, by simp⟩
      · cases tail with
        | nil => exact Or.inl ⟨front, [], by simp⟩
        | cons first tail =>
            rcases List.cons.inj cut with ⟨rfl, -⟩
            exact (absent (by simp)).elim
    · -- the needle begins at the letter or behind it
      cases rest with
      | nil =>
          cases needle with
          | nil => exact Or.inl List.nil_infix
          | cons first needle =>
              rcases List.cons.inj split with ⟨rfl, -⟩
              exact (absent (by simp)).elim
      | cons first rest =>
          rcases List.cons.inj split with ⟨-, rfl⟩
          exact Or.inr ⟨rest, back, by simp⟩
  · rintro (inside | inside)
    · exact inside.trans (List.prefix_append _ _).isInfix
    · exact
        inside.trans
          ((List.suffix_cons _ _).trans (List.suffix_append _ _)).isInfix

/-! ## One letter -/

/-- The search for one letter, cut by cut. -/
theorem indexOf_singleton_eq_some_iff
    {letter : α} {text : List α} {offset : Nat} :
    indexOf [letter] text = some offset ↔
      ∃ before after,
        text = before ++ letter :: after ∧
          letter ∉ before ∧ before.length = offset := by
  induction text generalizing offset with
  | nil => simp [indexOf]
  | cons head tail induction =>
      simp only [indexOf]
      by_cases same : head = letter
      · subst same
        simp only [List.cons_prefix_cons, List.nil_prefix, and_self,
          ↓reduceIte, Option.some.injEq]
        constructor
        · rintro rfl
          exact ⟨[], tail, by simp⟩
        · rintro ⟨before, after, equal, absent, rfl⟩
          cases before with
          | nil => rfl
          | cons first before =>
              simp only [List.cons_append, List.cons.injEq] at equal
              exact (absent (by simp [equal.1])).elim
      · have different : ¬ [letter] <+: head :: tail := by
          simp [Ne.symm same]
        simp only [different, ↓reduceIte, Option.map_eq_some_iff]
        constructor
        · rintro ⟨offset', found, rfl⟩
          rcases induction.mp found with ⟨before, after, rfl, absent, rfl⟩
          exact
            ⟨head :: before, after, rfl,
              by simp [Ne.symm same, absent], rfl⟩
        · rintro ⟨before, after, equal, absent, rfl⟩
          cases before with
          | nil =>
              simp only [List.nil_append, List.cons.injEq] at equal
              exact (same equal.1).elim
          | cons first before =>
              simp only [List.cons_append, List.cons.injEq] at equal
              rcases equal with ⟨rfl, rfl⟩
              refine ⟨before.length, induction.mpr ?_, rfl⟩
              exact
                ⟨before, after, rfl,
                  fun member => absent (List.mem_cons_of_mem _ member),
                  rfl⟩

theorem indexOf_singleton_eq_none_iff
    {letter : α} {text : List α} :
    indexOf [letter] text = none ↔ letter ∉ text := by
  rw [indexOf_eq_none_iff, List.singleton_infix_iff]

/-- What precedes the first `letter`; everything if there is none. -/
def before (letter : α) (text : List α) : List α :=
  text.takeWhile (· ≠ letter)

/-- What follows the first `letter`; nothing if there is none. -/
def after (letter : α) (text : List α) : List α :=
  (text.dropWhile (· ≠ letter)).drop 1

section Cut

variable {letter : α} {front back text : List α}

theorem before_append_cons (absent : letter ∉ front) :
    before letter (front ++ letter :: back) = front := by
  rw [before, List.takeWhile_append_of_pos, List.takeWhile_cons_of_neg]
  · simp
  · simp
  · intro entry member
    simpa using fun same : entry = letter => absent (same ▸ member)

theorem after_append_cons (absent : letter ∉ front) :
    after letter (front ++ letter :: back) = back := by
  rw [after, List.dropWhile_append_of_pos, List.dropWhile_cons_of_neg]
  · simp
  · simp
  · intro entry member
    simpa using fun same : entry = letter => absent (same ▸ member)

theorem before_append (absent : letter ∉ front) :
    before letter (front ++ back) = front ++ before letter back := by
  refine List.takeWhile_append_of_pos ?_
  intro entry member
  simpa using fun same : entry = letter => absent (same ▸ member)

theorem after_append (absent : letter ∉ front) :
    after letter (front ++ back) = after letter back := by
  rw [after, after, List.dropWhile_append_of_pos]
  intro entry member
  simpa using fun same : entry = letter => absent (same ▸ member)

theorem before_of_notMem (absent : letter ∉ text) :
    before letter text = text := by
  refine List.takeWhile_eq_self_iff.mpr ?_
  intro entry member
  simpa using fun same : entry = letter => absent (same ▸ member)

theorem after_of_notMem (absent : letter ∉ text) :
    after letter text = [] := by
  have exhausted : text.dropWhile (· ≠ letter) = [] := by
    refine List.dropWhile_eq_nil_iff.mpr ?_
    intro entry member
    simpa using fun same : entry = letter => absent (same ▸ member)
  rw [after, exhausted, List.drop_nil]

/-- The two parts of a text that contains the letter. -/
theorem eq_before_cons_after (member : letter ∈ text) :
    text = before letter text ++ letter :: after letter text := by
  rcases List.eq_append_cons_of_mem member with ⟨front, back, rfl, absent⟩
  rw [before_append_cons absent, after_append_cons absent]

theorem notMem_before : letter ∉ before letter text := by
  intro member
  simpa using List.mem_takeWhile_imp member

end Cut

/-- A successful search for one letter cuts where `before` and `after` do. -/
theorem cut_of_indexOf_singleton
    {letter : α} {text : List α} {offset : Nat}
    (found : indexOf [letter] text = some offset) :
    letter ∈ text ∧
      text.take offset = before letter text ∧
      text.drop (offset + 1) = after letter text := by
  obtain ⟨front, back, rfl, absent, rfl⟩ :=
    indexOf_singleton_eq_some_iff.mp found
  refine ⟨by simp, ?_, ?_⟩
  · rw [before_append_cons absent, List.take_left]
  · rw [after_append_cons absent, ← List.drop_drop, List.drop_left]
    rfl

/-! ## Association lists -/

/-- Overwriting the entries of one key leaves every other key alone. -/
theorem lookup_overwrite
    {κ β : Type*} [BEq κ] [LawfulBEq κ] [DecidableEq κ]
    (entries : List (κ × β)) (key : κ) (value : β) (probe : κ) :
    (entries.map fun entry =>
        if entry.1 = key then (key, value) else entry).lookup probe =
      if probe = key then (entries.lookup key).map fun _ => value
      else entries.lookup probe := by
  induction entries with
  | nil => simp
  | cons entry rest induction =>
      rcases entry with ⟨head, old⟩
      rw [List.map_cons]
      by_cases own : head = key
      · subst own
        by_cases hit : probe = head
        · simp [hit]
        · have misses : (probe == head) = false := by simpa using hit
          rw [if_pos rfl, List.lookup_cons, misses]
          simpa [List.lookup_cons, misses, hit] using induction
      · have differs : (key == head) = false := by
          simpa using Ne.symm own
        by_cases hit : probe = head
        · simp [hit, own]
        · have misses : (probe == head) = false := by simpa using hit
          rw [if_neg own, List.lookup_cons, misses]
          simpa [List.lookup_cons, misses, differs] using induction

theorem lookup_append_singleton
    {κ β : Type*} [BEq κ] [LawfulBEq κ] [DecidableEq κ]
    (entries : List (κ × β)) (key : κ) (value : β) (probe : κ) :
    (entries ++ [(key, value)]).lookup probe =
      (entries.lookup probe).or
        (if probe = key then some value else none) := by
  induction entries with
  | nil =>
      by_cases hit : probe = key
      · simp [hit]
      · have misses : (probe == key) = false := by simpa using hit
        simp [List.lookup_cons, hit, misses]
  | cons entry rest induction =>
      rcases entry with ⟨head, old⟩
      cases hit : probe == head <;>
        simp [List.lookup_cons, hit, induction]

end PlusWeb.ListSearch
