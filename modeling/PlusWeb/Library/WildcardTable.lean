import Mathlib

/-!
# Tables keyed by patterns with named wildcards

A pattern is a list of segments, each a literal or a named wildcard.  Its
shape forgets the names.  A table assigns values to shapes and, to every
position below which a wildcard was inserted, the name of that wildcard.

The library fixes the meaning of such a table: which shapes match a key,
which of two matching shapes is preferred (the one that is literal at the
first position where they differ), what an insertion changes, and what a
literal-first backtracking search returns.  The main result is that the
search returns exactly the preferred matching shape.

The alphabet of segments, the names and the values are arbitrary types.
-/

namespace PlusWeb.WildcardTable

/-! ## Shapes -/

/-- One position of a shape. -/
inductive Slot (α : Type*) where
  | literal (segment : α)
  | wild
deriving DecidableEq, Repr

/-- A pattern up to the names of its wildcards. -/
abbrev Shape (α : Type*) := List (Slot α)

variable {α ν β : Type*}

/-- Whether the position is a literal. -/
def Slot.isLiteral : Slot α → Bool
  | .literal _ => true
  | .wild => false

@[simp]
theorem Slot.isLiteral_literal (segment : α) :
    (Slot.literal segment).isLiteral = true := rfl

@[simp]
theorem Slot.isLiteral_wild : (Slot.wild : Slot α).isLiteral = false := rfl

/-- The segments a position accepts. -/
def Slot.Accepts : Slot α → α → Prop
  | .literal expected, segment => expected = segment
  | .wild, _ => True

instance [DecidableEq α] (slot : Slot α) (segment : α) :
    Decidable (slot.Accepts segment) :=
  match slot with
  | .literal expected => inferInstanceAs (Decidable (expected = segment))
  | .wild => .isTrue trivial

@[simp]
theorem Slot.accepts_literal (expected segment : α) :
    (Slot.literal expected).Accepts segment ↔ expected = segment :=
  Iff.rfl

@[simp]
theorem Slot.accepts_wild (segment : α) :
    (Slot.wild : Slot α).Accepts segment ↔ True :=
  Iff.rfl

/-- Segment by segment, with equal lengths. -/
def Matches (shape : Shape α) (key : List α) : Prop :=
  List.Forall₂ Slot.Accepts shape key

@[simp]
theorem matches_nil_iff {key : List α} :
    Matches ([] : Shape α) key ↔ key = [] := by
  simp [Matches]

@[simp]
theorem matches_cons_cons_iff
    {slot : Slot α} {shape : Shape α} {segment : α} {key : List α} :
    Matches (slot :: shape) (segment :: key) ↔
      slot.Accepts segment ∧ Matches shape key := by
  simp [Matches]

/-- A literal is preferred to a wildcard. -/
def Slot.Prefers : Slot α → Slot α → Prop
  | .literal _, .wild => True
  | _, _ => False

/-- The preference between shapes: decided at the first difference. -/
def Prefers : Shape α → Shape α → Prop :=
  List.Lex Slot.Prefers

theorem Slot.prefers_irrefl (slot : Slot α) : ¬ slot.Prefers slot := by
  cases slot <;> simp [Slot.Prefers]

theorem prefers_irrefl (shape : Shape α) : ¬ Prefers shape shape :=
  List.lex_irrefl Slot.prefers_irrefl shape

theorem prefers_cons_iff
    {slot : Slot α} {left right : Shape α} :
    Prefers (slot :: left) (slot :: right) ↔ Prefers left right := by
  simp [Prefers, List.cons_lex_cons_iff, Slot.prefers_irrefl]

/-- Two shapes matching one key are equal or comparable. -/
theorem eq_or_prefers_of_matches
    {left right : Shape α} {key : List α}
    (leftMatches : Matches left key)
    (rightMatches : Matches right key) :
    left = right ∨ Prefers left right ∨ Prefers right left := by
  induction key generalizing left right with
  | nil =>
      cases leftMatches
      cases rightMatches
      exact Or.inl rfl
  | cons segment key induction =>
      cases leftMatches with
      | @cons leftSlot _ leftRest _ leftHead leftTail =>
      cases rightMatches with
      | @cons rightSlot _ rightRest _ rightHead rightTail =>
      have sameHead (slot : Slot α) :
          slot :: leftRest = slot :: rightRest ∨
            Prefers (slot :: leftRest) (slot :: rightRest) ∨
            Prefers (slot :: rightRest) (slot :: leftRest) := by
        rw [prefers_cons_iff, prefers_cons_iff, List.cons.injEq]
        simpa using induction leftTail rightTail
      cases leftSlot with
      | literal leftLiteral =>
          cases rightSlot with
          | literal rightLiteral =>
              obtain rfl : leftLiteral = rightLiteral :=
                leftHead.trans rightHead.symm
              exact sameHead _
          | wild => exact Or.inr (Or.inl (List.Lex.rel trivial))
      | wild =>
          cases rightSlot with
          | literal rightLiteral =>
              exact Or.inr (Or.inr (List.Lex.rel trivial))
          | wild => exact sameHead _

/-- No two shapes are preferred to each other. -/
theorem Prefers.asymm
    {left right : Shape α}
    (preferred : Prefers left right) :
    ¬ Prefers right left := by
  refine List.lex_asymm ?_ preferred
  intro first second
  cases first <;> cases second <;> simp [Slot.Prefers]

theorem Prefers.trans
    {first second third : Shape α}
    (early : Prefers first second) (late : Prefers second third) :
    Prefers first third := by
  refine List.lex_trans ?_ early late
  intro left middle right
  cases left <;> cases middle <;> cases right <;> simp [Slot.Prefers]

/-! ## Patterns -/

/-- One segment of a pattern. -/
inductive Segment (α ν : Type*) where
  | literal (segment : α)
  | parameter (name : ν)
deriving DecidableEq, Repr

/-- Forget the name. -/
def Segment.slot : Segment α ν → Slot α
  | .literal segment => .literal segment
  | .parameter _ => .wild

abbrev Pattern (α ν : Type*) := List (Segment α ν)

/-- A pattern up to its names. -/
def Pattern.shape (pattern : Pattern α ν) : Shape α :=
  pattern.map Segment.slot

@[simp]
theorem Pattern.shape_nil : Pattern.shape ([] : Pattern α ν) = [] := rfl

@[simp]
theorem Pattern.shape_cons
    (segment : Segment α ν) (rest : Pattern α ν) :
    Pattern.shape (segment :: rest) =
      segment.slot :: Pattern.shape rest := rfl

/--
The name a pattern gives to the wildcard right below `position`, if its
shape begins with `position` followed by a wildcard.
-/
def Pattern.nameBelow [DecidableEq α] :
    Pattern α ν → Shape α → Option ν
  | .parameter name :: _, [] => some name
  | segment :: rest, slot :: position =>
      if segment.slot = slot then Pattern.nameBelow rest position else none
  | _, _ => none

@[simp]
theorem Pattern.nameBelow_nil [DecidableEq α] (position : Shape α) :
    Pattern.nameBelow ([] : Pattern α ν) position = none := by
  cases position <;> rfl

theorem Pattern.nameBelow_cons_cons [DecidableEq α]
    (segment : Segment α ν) (rest : Pattern α ν)
    (slot : Slot α) (position : Shape α) :
    Pattern.nameBelow (segment :: rest) (slot :: position) =
      if segment.slot = slot then Pattern.nameBelow rest position
      else none := by
  cases segment <;> rfl

theorem Pattern.nameBelow_isSome_iff [DecidableEq α]
    (pattern : Pattern α ν) (position : Shape α) :
    (pattern.nameBelow position).isSome ↔
      position ++ [.wild] <+: pattern.shape := by
  induction pattern generalizing position with
  | nil => simp
  | cons segment rest induction =>
      cases position with
      | nil => cases segment <;> simp [Pattern.nameBelow, Segment.slot]
      | cons slot position =>
          rw [Pattern.nameBelow_cons_cons, Pattern.shape_cons,
            List.cons_append, List.cons_prefix_cons]
          by_cases same : segment.slot = slot
          · simp [same, induction]
          · simp [same, Ne.symm same]

/-- A name below a position is that of a wildcard of the pattern. -/
theorem Pattern.mem_of_nameBelow [DecidableEq α]
    {pattern : Pattern α ν} {position : Shape α} {name : ν}
    (given : pattern.nameBelow position = some name) :
    Segment.parameter name ∈ pattern := by
  induction pattern generalizing position with
  | nil => simp at given
  | cons segment rest induction =>
      cases position with
      | nil =>
          cases segment with
          | literal letters => cases given
          | parameter other =>
              obtain rfl := Option.some.inj given
              exact List.mem_cons_self ..
      | cons slot position =>
          rw [Pattern.nameBelow_cons_cons] at given
          split at given
          · exact List.mem_cons_of_mem _ (induction given)
          · cases given

/-! ## Tables -/

/-- Values at shapes, and the name of the wildcard below each position. -/
@[ext]
structure Table (α ν β : Type*) where
  value : Shape α → Option β
  name : Shape α → Option ν

namespace Table

/-- The table without entries. -/
def empty : Table α ν β where
  value _ := none
  name _ := none

/-- What lies below one slot. -/
def under (table : Table α ν β) (slot : Slot α) : Table α ν β where
  value shape := table.value (slot :: shape)
  name position := table.name (slot :: position)

@[simp]
theorem value_under (table : Table α ν β) (slot : Slot α) (shape : Shape α) :
    (table.under slot).value shape = table.value (slot :: shape) := rfl

@[simp]
theorem name_under (table : Table α ν β) (slot : Slot α) (shape : Shape α) :
    (table.under slot).name shape = table.name (slot :: shape) := rfl

section Insertion

variable [DecidableEq α]

/--
Overwrite the value at the pattern's shape; name only the wildcards that
have no name yet.
-/
def insert
    (table : Table α ν β)
    (pattern : Pattern α ν)
    (entry : Option β) : Table α ν β where
  value shape := if shape = pattern.shape then entry else table.value shape
  name position := (table.name position).or (pattern.nameBelow position)

/-- The table after a sequence of insertions. -/
def ofLog (log : List (Pattern α ν × β)) : Table α ν β :=
  log.foldl (fun table entry => table.insert entry.1 (some entry.2)) empty

/-- The value inserted last for a shape. -/
def latest (log : List (Pattern α ν × β)) (shape : Shape α) : Option β :=
  (log.reverse.find? fun entry => shape = entry.1.shape).map Prod.snd

/-- The name inserted first below a position. -/
def firstName
    (log : List (Pattern α ν × β)) (position : Shape α) : Option ν :=
  log.findSome? fun entry => entry.1.nameBelow position

theorem foldl_insert
    (log : List (Pattern α ν × β)) (table : Table α ν β) :
    log.foldl (fun table entry => table.insert entry.1 (some entry.2)) table =
      { value := fun shape => (latest log shape).or (table.value shape)
        name := fun position =>
          (table.name position).or (firstName log position) } := by
  induction log generalizing table with
  | nil => simp [latest, firstName]
  | cons entry rest induction =>
      rw [List.foldl_cons, induction]
      ext1
      · funext shape
        simp only [insert, latest, List.reverse_cons, List.find?_append]
        by_cases same : shape = entry.1.shape <;>
          cases List.find? (fun entry => shape = entry.1.shape)
            rest.reverse <;>
          simp [same]
      · funext position
        simp only [insert, firstName, List.findSome?_cons]
        cases table.name position <;>
          cases entry.1.nameBelow position <;> simp

/-- The last value wins, the first name stays. -/
theorem ofLog_eq (log : List (Pattern α ν × β)) :
    ofLog log = { value := latest log, name := firstName log } := by
  rw [ofLog, foldl_insert]
  simp [empty]

/--
A value is the last one inserted exactly when its entry is followed by no
entry of the same shape.
-/
theorem latest_eq_some_iff
    {log : List (Pattern α ν × β)} {shape : Shape α} {entry : β} :
    latest log shape = some entry ↔
      ∃ before pattern after,
        log = before ++ (pattern, entry) :: after ∧
          pattern.shape = shape ∧
          ∀ later ∈ after, later.1.shape ≠ shape := by
  rw [latest, Option.map_eq_some_iff]
  constructor
  · rintro ⟨⟨pattern, found⟩, located, rfl⟩
    obtain ⟨same, reversedBefore, reversedAfter, cut, none⟩ :=
      List.find?_eq_some_iff_append.mp located
    refine
      ⟨reversedAfter.reverse, pattern, reversedBefore.reverse,
        ?_, by simpa using (of_decide_eq_true same).symm, ?_⟩
    · simpa using congrArg List.reverse cut
    · intro later member
      have other := none later (List.mem_reverse.mp member)
      exact fun equal => by simp [equal] at other
  · rintro ⟨before, pattern, after, rfl, rfl, none⟩
    refine ⟨(pattern, entry), ?_, rfl⟩
    rw [List.find?_eq_some_iff_append]
    refine
      ⟨by simp, after.reverse, before.reverse, by simp, ?_⟩
    intro later member
    have other := none later (List.mem_reverse.mp member)
    simpa using fun equal : pattern.shape = later.1.shape =>
      other equal.symm

theorem latest_eq_none_iff
    {log : List (Pattern α ν × β)} {shape : Shape α} :
    latest log shape = none ↔ ∀ entry ∈ log, entry.1.shape ≠ shape := by
  rw [latest, Option.map_eq_none_iff, List.find?_eq_none]
  constructor
  · intro absent entry member equal
    simpa [equal] using absent entry (List.mem_reverse.mpr member)
  · intro absent entry member
    simpa using fun equal : shape = entry.1.shape =>
      absent entry (List.mem_reverse.mp member) equal.symm

/--
Where the patterns agree on the name below a position, it is the name any
of them gives.
-/
theorem firstName_eq_some_iff
    {log : List (Pattern α ν × β)} {position : Shape α}
    (agree : ∀ entry ∈ log, ∀ entry' ∈ log, ∀ name name',
      entry.1.nameBelow position = some name →
        entry'.1.nameBelow position = some name' → name = name')
    (name : ν) :
    firstName log position = some name ↔
      ∃ entry ∈ log, entry.1.nameBelow position = some name := by
  constructor
  · exact List.exists_of_findSome?_eq_some
  · rintro ⟨entry, member, given⟩
    cases first : firstName log position with
    | none =>
        have missing := List.findSome?_eq_none_iff.mp first entry member
        simp [given] at missing
    | some other =>
        obtain ⟨entry', member', given'⟩ :=
          List.exists_of_findSome?_eq_some first
        rw [agree entry' member' entry member other name given' given]

/-! ## Insertions that may erase -/

/--
The table after a sequence of insertions; an entry without a value
erases.
-/
def insertLog
    (table : Table α ν β)
    (log : List (Pattern α ν × Option β)) : Table α ν β :=
  log.foldl (fun table entry => table.insert entry.1 entry.2) table

@[simp]
theorem insertLog_nil (table : Table α ν β) :
    table.insertLog [] = table := rfl

theorem insertLog_cons
    (table : Table α ν β) (entry : Pattern α ν × Option β)
    (log : List (Pattern α ν × Option β)) :
    table.insertLog (entry :: log) =
      (table.insert entry.1 entry.2).insertLog log := rfl

/-- A value comes from an entry of its shape, or was there before. -/
theorem value_insertLog
    {table : Table α ν β} {log : List (Pattern α ν × Option β)}
    {shape : Shape α} {entry : β}
    (held : (table.insertLog log).value shape = some entry) :
    (∃ pattern, (pattern, some entry) ∈ log ∧ pattern.shape = shape) ∨
      table.value shape = some entry := by
  induction log generalizing table with
  | nil => exact Or.inr held
  | cons first log induction =>
      rcases induction held with ⟨pattern, later, same⟩ | here
      · exact Or.inl ⟨pattern, List.mem_cons_of_mem _ later, same⟩
      · simp only [insert] at here
        split at here
        · next same =>
          refine Or.inl ⟨first.1, ?_, same.symm⟩
          rw [← here]
          exact List.mem_cons_self ..
        · exact Or.inr here

/-- Where all entries of a shape agree, their value is held. -/
theorem value_insertLog_of_agree
    {table : Table α ν β} {log : List (Pattern α ν × Option β)}
    {shape : Shape α} {entry : β}
    (agree : ∀ other ∈ log, other.1.shape = shape → other.2 = some entry)
    (present : (∃ other ∈ log, other.1.shape = shape) ∨
      table.value shape = some entry) :
    (table.insertLog log).value shape = some entry := by
  induction log generalizing table with
  | nil => exact present.resolve_left (by simp)
  | cons first log induction =>
      rw [insertLog_cons]
      apply induction fun other member =>
        agree other (List.mem_cons_of_mem _ member)
      by_cases own : first.1.shape = shape
      · right
        simp [insert, own, agree first (List.mem_cons_self ..) own]
      · rcases present with ⟨other, member, same⟩ | held
        · rcases List.mem_cons.mp member with rfl | later
          · exact absurd same own
          · exact Or.inl ⟨other, later, same⟩
        · right
          simpa [insert, Ne.symm own] using held

/-- The first name stays, whatever the values are. -/
theorem name_insertLog
    (table : Table α ν β) (log : List (Pattern α ν × Option β))
    (position : Shape α) :
    (table.insertLog log).name position =
      (table.name position).or (firstName log position) := by
  induction log generalizing table with
  | nil => simp [firstName]
  | cons entry log induction =>
      rw [insertLog_cons, induction]
      simp only [insert, firstName, List.findSome?_cons]
      cases table.name position <;>
        cases entry.1.nameBelow position <;> simp

/-- What the entries of a log say about the table below one slot. -/
def logUnder
    (slot : Slot α) (log : List (Pattern α ν × Option β)) :
    List (Pattern α ν × Option β) :=
  log.filterMap fun entry =>
    match entry.1 with
    | [] => none
    | segment :: rest =>
        if segment.slot = slot then some (rest, entry.2) else none

@[simp]
theorem logUnder_nil (slot : Slot α) :
    logUnder slot ([] : List (Pattern α ν × Option β)) = [] := rfl

theorem logUnder_cons_nil
    (slot : Slot α) (entry : Option β)
    (log : List (Pattern α ν × Option β)) :
    logUnder slot (([], entry) :: log) = logUnder slot log := rfl

theorem logUnder_cons_cons
    (slot : Slot α) (segment : Segment α ν) (rest : Pattern α ν)
    (entry : Option β) (log : List (Pattern α ν × Option β)) :
    logUnder slot ((segment :: rest, entry) :: log) =
      if segment.slot = slot then (rest, entry) :: logUnder slot log
      else logUnder slot log := by
  by_cases same : segment.slot = slot <;> simp [logUnder, same]

theorem under_insert_nil
    (table : Table α ν β) (slot : Slot α) (entry : Option β) :
    (table.insert [] entry).under slot = table.under slot := by
  ext1 <;> funext shape <;> simp [insert]

theorem under_insert_cons
    (table : Table α ν β) (slot : Slot α)
    (segment : Segment α ν) (rest : Pattern α ν) (entry : Option β) :
    (table.insert (segment :: rest) entry).under slot =
      if segment.slot = slot then (table.under slot).insert rest entry
      else table.under slot := by
  by_cases same : segment.slot = slot
  · ext1 <;> funext shape <;>
      simp [insert, same, Pattern.nameBelow_cons_cons]
  · ext1 <;> funext shape <;>
      simp [insert, same, Ne.symm same, Pattern.nameBelow_cons_cons]

/-- The table below a slot is built from the entries that lead there. -/
theorem under_insertLog
    (table : Table α ν β) (slot : Slot α)
    (log : List (Pattern α ν × Option β)) :
    (table.insertLog log).under slot =
      (table.under slot).insertLog (logUnder slot log) := by
  induction log generalizing table with
  | nil => rfl
  | cons entry log induction =>
      rcases entry with ⟨pattern, value⟩
      rw [insertLog_cons, induction]
      cases pattern with
      | nil => rw [under_insert_nil, logUnder_cons_nil]
      | cons segment rest =>
          rw [under_insert_cons, logUnder_cons_cons]
          split_ifs <;> rfl

omit [DecidableEq α] in
@[simp]
theorem under_empty (slot : Slot α) :
    (empty : Table α ν β).under slot = empty := rfl

end Insertion

/-! ## The literal-first search -/

/-- Try the literal below, then the wildcard. -/
def lookup (table : Table α ν β) : List α → Option (Shape α × β)
  | [] => (table.value []).map fun entry => ([], entry)
  | segment :: key =>
      (((table.under (.literal segment)).lookup key).map fun hit =>
          (.literal segment :: hit.1, hit.2)).or
        (((table.under .wild).lookup key).map fun hit =>
          (.wild :: hit.1, hit.2))

/-- The shape found matches and holds the value found. -/
theorem lookup_sound
    {table : Table α ν β} {key : List α}
    {shape : Shape α} {entry : β}
    (found : table.lookup key = some (shape, entry)) :
    Matches shape key ∧ table.value shape = some entry := by
  induction key generalizing table shape with
  | nil =>
      simp only [lookup, Option.map_eq_some_iff, Prod.mk.injEq] at found
      rcases found with ⟨_, held, rfl, rfl⟩
      exact ⟨by simp, held⟩
  | cons segment key induction =>
      simp only [lookup, Option.or_eq_some_iff, Option.map_eq_some_iff,
        Prod.mk.injEq] at found
      rcases found with literal | ⟨-, wild⟩
      · rcases literal with ⟨hit, below, rfl, rfl⟩
        rcases induction below with ⟨matching, held⟩
        exact ⟨by simpa using matching, held⟩
      · rcases wild with ⟨hit, below, rfl, rfl⟩
        rcases induction below with ⟨matching, held⟩
        exact ⟨by simpa using matching, held⟩

/-- A miss leaves no matching shape with a value. -/
theorem lookup_eq_none_iff
    {table : Table α ν β} {key : List α} :
    table.lookup key = none ↔
      ∀ shape, Matches shape key → table.value shape = none := by
  induction key generalizing table with
  | nil =>
      simp only [lookup, Option.map_eq_none_iff]
      constructor
      · intro missing shape matching
        cases matching
        exact missing
      · intro missing
        exact missing [] (by simp)
  | cons segment key induction =>
      simp only [lookup, Option.or_eq_none_iff, Option.map_eq_none_iff,
        induction]
      constructor
      · rintro ⟨literal, wild⟩ shape matching
        cases matching with
        | @cons slot _ rest _ accepts below =>
            cases slot with
            | literal expected =>
                obtain rfl : expected = segment := accepts
                exact literal rest below
            | wild => exact wild rest below
      · intro missing
        exact
          ⟨fun shape below =>
              missing (.literal segment :: shape) (by simpa using below),
            fun shape below =>
              missing (.wild :: shape) (by simpa using below)⟩

@[simp]
theorem lookup_empty (key : List α) :
    (empty : Table α ν β).lookup key = none :=
  lookup_eq_none_iff.mpr fun _ _ => rfl

/--
The shape found is preferred to every other matching shape with a
value.
-/
theorem lookup_prefers
    {table : Table α ν β} {key : List α}
    {shape other : Shape α} {entry : β}
    (found : table.lookup key = some (shape, entry))
    (matching : Matches other key)
    (held : (table.value other).isSome)
    (different : other ≠ shape) :
    Prefers shape other := by
  induction key generalizing table shape other with
  | nil =>
      cases matching
      cases (lookup_sound found).1
      exact (different rfl).elim
  | cons segment key induction =>
      simp only [lookup, Option.or_eq_some_iff, Option.map_eq_some_iff,
        Prod.mk.injEq, Option.map_eq_none_iff] at found
      cases matching with
      | @cons slot _ rest _ accepts below =>
      rcases found with literal | ⟨missing, wild⟩
      · rcases literal with ⟨hit, found, rfl, rfl⟩
        cases slot with
        | literal expected =>
            obtain rfl : expected = segment := accepts
            rw [prefers_cons_iff]
            exact induction found below held (by simpa using different)
        | wild => exact List.Lex.rel trivial
      · rcases wild with ⟨hit, found, rfl, rfl⟩
        cases slot with
        | literal expected =>
            obtain rfl : expected = segment := accepts
            rw [lookup_eq_none_iff] at missing
            have absent := missing rest below
            rw [value_under] at absent
            simp [absent] at held
        | wild =>
            rw [prefers_cons_iff]
            exact induction found below held (by simpa using different)

/-- The search returns the preferred matching shape and nothing else. -/
theorem lookup_eq_some_iff
    {table : Table α ν β} {key : List α}
    {shape : Shape α} {entry : β} :
    table.lookup key = some (shape, entry) ↔
      Matches shape key ∧
        table.value shape = some entry ∧
        ∀ other, Matches other key → (table.value other).isSome →
          other ≠ shape → Prefers shape other := by
  constructor
  · intro found
    rcases lookup_sound found with ⟨matching, held⟩
    exact
      ⟨matching, held,
        fun other otherMatches otherHeld different =>
          lookup_prefers found otherMatches otherHeld different⟩
  · rintro ⟨matching, held, preferred⟩
    cases found : table.lookup key with
    | none =>
        rw [lookup_eq_none_iff] at found
        simp [found shape matching] at held
    | some hit =>
        rcases hit with ⟨hitShape, hitEntry⟩
        rcases lookup_sound found with ⟨hitMatches, hitHeld⟩
        by_cases same : hitShape = shape
        · subst same
          rw [held] at hitHeld
          cases hitHeld
          rfl
        · have forward :=
            preferred hitShape hitMatches (by simp [hitHeld]) same
          have backward :=
            lookup_prefers found matching (by simp [held]) (Ne.symm same)
          exact (forward.asymm backward).elim

/-- Where nothing lies below the wildcard, only the literal is followed. -/
theorem lookup_of_literal_only
    {table : Table α ν β} (noWild : table.under .wild = empty)
    (segment : α) (key : List α) :
    table.lookup (segment :: key) =
      ((table.under (.literal segment)).lookup key).map fun hit =>
        (.literal segment :: hit.1, hit.2) := by
  rw [lookup, noWild, lookup_empty, Option.map_none, Option.or_none]

/-! ## What an insertion changes -/

section Insertion

variable [DecidableEq α] {table : Table α ν β} {pattern : Pattern α ν}
  {entry : β} {key : List α}

/-- A key that the pattern does not match is looked up as before. -/
theorem lookup_insert_of_not_matches
    (apart : ¬ Matches pattern.shape key) :
    (table.insert pattern (some entry)).lookup key = table.lookup key := by
  have kept {shape : Shape α} (matching : Matches shape key) :
      (table.insert pattern (some entry)).value shape =
        table.value shape := by
    refine if_neg ?_
    rintro rfl
    exact apart matching
  cases found : table.lookup key with
  | none =>
      rw [lookup_eq_none_iff] at found ⊢
      intro shape matching
      rw [kept matching, found shape matching]
  | some hit =>
      rcases hit with ⟨shape, value⟩
      rw [lookup_eq_some_iff] at found ⊢
      obtain ⟨matching, held, preferred⟩ := found
      refine ⟨matching, by rw [kept matching, held], ?_⟩
      intro other matching' held' different
      rw [kept matching'] at held'
      exact preferred other matching' held' different

/--
A key that the pattern matches is looked up as before if something
preferred to the pattern matches it.
-/
theorem lookup_insert_of_prefers
    {other : Shape α} (matching : Matches other key)
    (held : (table.value other).isSome)
    (preferred : Prefers other pattern.shape) :
    (table.insert pattern (some entry)).lookup key = table.lookup key := by
  have kept {shape : Shape α} (apart : shape ≠ pattern.shape) :
      (table.insert pattern (some entry)).value shape =
        table.value shape := if_neg apart
  cases found : table.lookup key with
  | none =>
      rw [lookup_eq_none_iff.mp found other matching] at held
      cases held
  | some hit =>
      rcases hit with ⟨shape, value⟩
      have own : shape ≠ pattern.shape := by
        rintro rfl
        have other_ne : other ≠ pattern.shape := by
          rintro rfl
          exact prefers_irrefl _ preferred
        exact
          preferred.asymm (lookup_prefers found matching held other_ne)
      rw [lookup_eq_some_iff] at found ⊢
      obtain ⟨matched, value_eq, best⟩ := found
      refine ⟨matched, by rw [kept own, value_eq], ?_⟩
      intro third matching' held' different
      by_cases same : third = pattern.shape
      · -- the pattern is behind what is preferred to it
        subst same
        by_cases chosen : other = shape
        · rwa [chosen] at preferred
        · exact
            (best other matching held chosen).trans preferred
      · rw [kept same] at held'
        exact best third matching' held' different

/-- A key that the pattern matches, and nothing that is preferred to it. -/
theorem lookup_insert_of_matches
    (matching : Matches pattern.shape key)
    (best : ∀ other, Matches other key → (table.value other).isSome →
      other ≠ pattern.shape → Prefers pattern.shape other) :
    (table.insert pattern (some entry)).lookup key =
      some (pattern.shape, entry) := by
  rw [lookup_eq_some_iff]
  refine ⟨matching, if_pos rfl, ?_⟩
  intro other matching' held different
  have kept :
      (table.insert pattern (some entry)).value other =
        table.value other := if_neg different
  rw [kept] at held
  exact best other matching' held different

end Insertion

/-! ## Bindings -/

/--
The wildcards met along a shape, from the root down, each with its name
and the segment it matched.
-/
def bindings (table : Table α ν β) : Shape α → List α → List (ν × α)
  | slot :: shape, segment :: key =>
      let below := (table.under slot).bindings shape key
      match slot with
      | .literal _ => below
      | .wild =>
          match table.name [] with
          | some name => (name, segment) :: below
          | none => below
  | _, _ => []

@[simp]
theorem bindings_nil (table : Table α ν β) (key : List α) :
    table.bindings [] key = [] := by
  cases key <;> rfl

theorem bindings_literal
    (table : Table α ν β) (expected segment : α)
    (shape : Shape α) (key : List α) :
    table.bindings (.literal expected :: shape) (segment :: key) =
      (table.under (.literal expected)).bindings shape key := rfl

theorem bindings_wild
    {table : Table α ν β} {name : ν}
    (named : table.name [] = some name)
    (segment : α) (shape : Shape α) (key : List α) :
    table.bindings (.wild :: shape) (segment :: key) =
      (name, segment) :: (table.under .wild).bindings shape key := by
  simp [bindings, named]

/-- Bindings depend on the names alone. -/
theorem bindings_congr
    {β' : Type*} {table : Table α ν β} {table' : Table α ν β'}
    (same : table.name = table'.name) (shape : Shape α) (key : List α) :
    table.bindings shape key = table'.bindings shape key := by
  induction shape generalizing table table' key with
  | nil => simp
  | cons slot shape induction =>
      cases key with
      | nil => rfl
      | cons segment key =>
          have below :
              (table.under slot).bindings shape key =
                (table'.under slot).bindings shape key := by
            apply induction
            funext position
            exact congrFun same (slot :: position)
          cases slot with
          | literal expected => exact below
          | wild =>
              simp only [bindings, same, below]

/-- Bindings depend on the names at the wildcards of the shape. -/
theorem bindings_congr_of_prefix
    {table table' : Table α ν β} {shape : Shape α}
    (same : ∀ position, position ++ [.wild] <+: shape →
      table.name position = table'.name position) (key : List α) :
    table.bindings shape key = table'.bindings shape key := by
  induction shape generalizing table table' key with
  | nil => simp
  | cons slot shape induction =>
      cases key with
      | nil => rfl
      | cons segment key =>
          have below :
              (table.under slot).bindings shape key =
                (table'.under slot).bindings shape key := by
            apply induction
            intro position inside
            apply same (slot :: position)
            exact List.cons_prefix_cons.mpr ⟨rfl, inside⟩
          cases slot with
          | literal expected => exact below
          | wild =>
              have own : table.name [] = table'.name [] :=
                same [] (by simp)
              simp only [bindings, own, below]

/-- Only wildcards bind. -/
theorem length_bindings_le
    (table : Table α ν β) (shape : Shape α) (key : List α) :
    (table.bindings shape key).length ≤
      (shape.filter fun slot => !slot.isLiteral).length := by
  induction shape generalizing table key with
  | nil => simp
  | cons slot shape induction =>
      cases key with
      | nil => simp [bindings]
      | cons segment key =>
          cases slot with
          | literal expected =>
              simpa [bindings_literal] using
                induction (table.under (.literal expected)) key
          | wild =>
              have below := induction (table.under .wild) key
              cases named : table.name [] with
              | none =>
                  simpa [bindings, named] using Nat.le_succ_of_le below
              | some name =>
                  simpa [bindings_wild named] using below

/-- A wildcard at the end binds last. -/
theorem bindings_append_wild
    {table : Table α ν β} {shape : Shape α} {key : List α} {name : ν}
    (lengths : shape.length = key.length)
    (named : table.name shape = some name) (segment : α) :
    table.bindings (shape ++ [.wild]) (key ++ [segment]) =
      table.bindings shape key ++ [(name, segment)] := by
  induction shape generalizing table key with
  | nil =>
      obtain rfl := List.eq_nil_of_length_eq_zero lengths.symm
      rw [List.nil_append, List.nil_append, bindings_wild named]
      simp
  | cons slot shape induction =>
      cases key with
      | nil => cases lengths
      | cons first key =>
          have below :=
            @induction (table.under slot) key (Nat.succ.inj lengths) named
          rw [List.cons_append, List.cons_append]
          cases slot with
          | literal expected => exact below
          | wild =>
              cases outer : table.name [] with
              | none => simpa [bindings, outer] using below
              | some given =>
                  rw [bindings_wild outer, bindings_wild outer, below,
                    List.cons_append]

/-- Each binding takes a segment of the key. -/
theorem mem_key_of_mem_bindings
    {table : Table α ν β} {shape : Shape α} {key : List α}
    {name : ν} {segment : α}
    (member : (name, segment) ∈ table.bindings shape key) :
    segment ∈ key := by
  induction shape generalizing table key with
  | nil => simp at member
  | cons slot shape induction =>
      cases key with
      | nil => simp [bindings] at member
      | cons first key =>
          cases slot with
          | literal expected =>
              exact List.mem_cons_of_mem _ (induction member)
          | wild =>
              cases named : table.name [] with
              | none =>
                  simp only [bindings, named] at member
                  exact List.mem_cons_of_mem _ (induction member)
              | some given =>
                  rw [bindings_wild named] at member
                  rcases List.mem_cons.mp member with own | later
                  · rw [(Prod.mk.inj own).2]
                    exact List.mem_cons_self ..
                  · exact List.mem_cons_of_mem _ (induction later)

/-- Each binding has a name of the table. -/
theorem name_of_mem_bindings
    {table : Table α ν β} {shape : Shape α} {key : List α}
    {name : ν} {segment : α}
    (member : (name, segment) ∈ table.bindings shape key) :
    ∃ position, table.name position = some name := by
  induction shape generalizing table key with
  | nil => simp at member
  | cons slot shape induction =>
      cases key with
      | nil => simp [bindings] at member
      | cons first key =>
          have below
              (inside :
                (name, segment) ∈ (table.under slot).bindings shape key) :
              ∃ position, table.name position = some name := by
            rcases induction inside with ⟨position, named⟩
            exact ⟨slot :: position, named⟩
          cases slot with
          | literal expected => exact below member
          | wild =>
              cases named : table.name [] with
              | none =>
                  simp only [bindings, named] at member
                  exact below member
              | some given =>
                  rw [bindings_wild named] at member
                  rcases List.mem_cons.mp member with own | later
                  · rw [(Prod.mk.inj own).1]
                    exact ⟨[], named⟩
                  · exact below later

/-! ## Grafting -/

section Grafting

variable [DecidableEq α]

/-- Put literals in front of every entry. -/
def graft
    (front : List α) (log : List (Pattern α ν × Option β)) :
    List (Pattern α ν × Option β) :=
  log.map fun entry => (front.map .literal ++ entry.1, entry.2)

omit [DecidableEq α] in
@[simp]
theorem graft_nil (log : List (Pattern α ν × Option β)) :
    graft [] log = log := by
  simp [graft]

theorem logUnder_graft
    (segment : α) (front : List α)
    (log : List (Pattern α ν × Option β)) :
    logUnder (.literal segment) (graft (segment :: front) log) =
        graft front log ∧
      logUnder .wild (graft (segment :: front) log) = [] := by
  induction log with
  | nil => exact ⟨rfl, rfl⟩
  | cons entry log induction =>
      have cut :
          graft (segment :: front) (entry :: log) =
            (.literal segment :: (front.map .literal ++ entry.1), entry.2) ::
              graft (segment :: front) log := rfl
      rw [cut, logUnder_cons_cons, logUnder_cons_cons, induction.1,
        induction.2]
      exact ⟨if_pos rfl, if_neg (by simp [Segment.slot])⟩

/-- Below the literals a grafted table is the table that was grafted. -/
theorem lookup_graft
    (front : List α) (log : List (Pattern α ν × Option β))
    (key : List α) :
    (empty.insertLog (graft front log)).lookup (front ++ key) =
      ((empty.insertLog log).lookup key).map fun hit =>
        (front.map .literal ++ hit.1, hit.2) := by
  induction front with
  | nil => simp
  | cons segment front induction =>
      rcases logUnder_graft segment front log with ⟨literal, wild⟩
      rw [List.cons_append, lookup_of_literal_only, under_insertLog, literal,
        under_empty, induction, Option.map_map]
      · rfl
      · rw [under_insertLog, wild]
        rfl

theorem bindings_graft
    (front : List α) (log : List (Pattern α ν × Option β))
    (shape : Shape α) (key : List α) :
    (empty.insertLog (graft front log)).bindings
        (front.map .literal ++ shape) (front ++ key) =
      (empty.insertLog log).bindings shape key := by
  induction front with
  | nil => simp
  | cons segment front induction =>
      rw [List.map_cons, List.cons_append, List.cons_append,
        bindings_literal, under_insertLog,
        (logUnder_graft segment front log).1]
      exact induction

end Grafting

end Table

end PlusWeb.WildcardTable
