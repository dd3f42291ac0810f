import Mathlib

/-!
# Blocks of lines ended by a blank line

A block writes each of its lines followed by a two-letter line end, and then
one more line end.  Reading takes lines up to the first empty one.

Reading gives back exactly the lines that were written if and only if no
line contains the line end: what is read never contains it, and a line
without it cannot be cut, whatever its last letter is.

The alphabet and the two letters of the line end are arbitrary.
-/

namespace PlusWeb.LineBlock

variable {α : Type*} [DecidableEq α] (cr lf : α)

/-- A line without the line end. -/
def Free (line : List α) : Prop := ¬ [cr, lf] <:+: line

instance : DecidablePred (Free cr lf) := fun _ =>
  inferInstanceAs (Decidable (¬ _))

/-- Write the lines of a block. -/
def write (lines : List (List α)) : List α :=
  lines.flatMap (· ++ [cr, lf]) ++ [cr, lf]

/--
Read the lines of a block, and what follows it; `line` is what was read
of the current line.
-/
def read (line : List α) : List α → Option (List (List α) × List α)
  | first :: second :: rest =>
      if first = cr ∧ second = lf then
        if line = [] then some ([], rest)
        else (read [] rest).map fun (lines, rest) => (line :: lines, rest)
      else read (line ++ [first]) (second :: rest)
  | _ => none

variable {cr lf}

omit [DecidableEq α] in
theorem free_nil : Free cr lf [] := by
  simp [Free]

omit [DecidableEq α] in
theorem free_of_notMem {line : List α} (absent : cr ∉ line) :
    Free cr lf line := by
  intro inside
  exact absent (inside.subset (by simp))

omit [DecidableEq α] in
theorem free_concat
    {line : List α} {letter : α} (free : Free cr lf line)
    (apart : ∀ front, line = front ++ [cr] → letter ≠ lf) :
    Free cr lf (line ++ [letter]) := by
  intro inside
  rcases List.infix_concat_iff.mp inside with ⟨front, equal⟩ | old
  · have split : front ++ [cr] = line ∧ lf = letter := by
      have regroup : front ++ [cr, lf] = (front ++ [cr]) ++ [lf] := by simp
      rw [regroup] at equal
      simpa using List.append_inj' equal rfl
    exact apart front split.1.symm split.2.symm
  · exact free old

omit [DecidableEq α] in
/-- A letter that is not part of the line end separates. -/
theorem free_append_cons
    {left right : List α} {letter : α}
    (notCr : letter ≠ cr) (notLf : letter ≠ lf) :
    Free cr lf (left ++ letter :: right) ↔
      Free cr lf left ∧ Free cr lf right := by
  induction left with
  | nil =>
      simp [Free, List.infix_cons_iff, Ne.symm notCr]
  | cons first left induction =>
      unfold Free at *
      rw [List.cons_append, List.infix_cons_iff, List.infix_cons_iff,
        not_or, not_or, induction]
      cases left with
      | nil => simp [notLf.symm]
      | cons second left => simp [and_assoc]

/-- A free line is read up to the line end behind it. -/
theorem read_line
    (distinct : cr ≠ lf) {line : List α} (free : Free cr lf line)
    (before rest : List α) :
    read cr lf before (line ++ cr :: lf :: rest) =
      if before ++ line = [] then some ([], rest)
      else (read cr lf [] rest).map fun (lines, rest) =>
        ((before ++ line) :: lines, rest) := by
  induction line generalizing before with
  | nil => simp [read]
  | cons first line induction =>
      have tail : Free cr lf line := by
        intro inside
        exact free (List.infix_cons_iff.mpr (Or.inr inside))
      have step := induction tail (before ++ [first])
      cases line with
      | nil =>
          rw [List.nil_append] at step
          rw [List.cons_append, List.nil_append, read, step]
          simp [distinct]
      | cons second line =>
          have apart : ¬ (first = cr ∧ second = lf) := by
            rintro ⟨rfl, rfl⟩
            exact free ⟨[], line, rfl⟩
          rw [List.cons_append] at step
          rw [List.cons_append, List.cons_append, read, if_neg apart, step]
          simp

/-- Free lines are read back. -/
theorem read_write
    (distinct : cr ≠ lf) {lines : List (List α)}
    (nonempty : ∀ line ∈ lines, line ≠ [])
    (free : ∀ line ∈ lines, Free cr lf line) (rest : List α) :
    read cr lf [] (write cr lf lines ++ rest) = some (lines, rest) := by
  induction lines with
  | nil => simp [write, read]
  | cons line lines induction =>
      have step :=
        induction (fun later member => nonempty later (by simp [member]))
          (fun later member => free later (by simp [member]))
      have regroup :
          write cr lf (line :: lines) ++ rest =
            line ++ cr :: lf :: (write cr lf lines ++ rest) := by
        simp [write]
      rw [regroup, read_line distinct (free line (by simp)), step]
      simp [nonempty line (by simp)]

/-- What is read is free. -/
theorem free_of_read
    {before text rest : List α} {lines : List (List α)}
    (free : Free cr lf before)
    (apart : ∀ front, before = front ++ [cr] → text.head? ≠ some lf)
    (found : read cr lf before text = some (lines, rest)) :
    ∀ line ∈ lines, Free cr lf line := by
  induction before, text using read.induct cr lf generalizing lines with
  | case1 first second tail ends =>
      rw [read, if_pos ends] at found
      obtain ⟨rfl, -⟩ : [] = lines ∧ tail = rest := by simpa using found
      simp
  | case2 before first second tail ends nonempty induction =>
      simp only [read, ends, and_self, ↓reduceIte, nonempty,
        Option.map_eq_some_iff, Prod.exists, Prod.mk.injEq] at found
      rcases found with ⟨later, remainder, below, rfl, rfl⟩
      intro line member
      rcases List.mem_cons.mp member with rfl | member
      · exact free
      · exact induction free_nil (by simp) below line member
  | case3 before first second tail goesOn induction =>
      rw [read, if_neg goesOn] at found
      refine induction (free_concat free ?_) ?_ found
      · intro front equal same
        exact apart front equal (by simp [same])
      · intro front equal same
        have last : first = cr := by
          simpa using (List.append_inj' equal rfl).2
        exact goesOn ⟨last, by simpa using same⟩
  | case4 before text short =>
      rw [read] at found
      · simp at found
      · exact short

/-- What is read is the text. -/
theorem text_of_read
    {before text rest : List α} {lines : List (List α)}
    (found : read cr lf before text = some (lines, rest)) :
    before ++ text = write cr lf lines ++ rest := by
  induction before, text using read.induct cr lf generalizing lines with
  | case1 first second tail ends =>
      rw [read, if_pos ends] at found
      obtain ⟨rfl, rfl⟩ : [] = lines ∧ tail = rest := by simpa using found
      rcases ends with ⟨rfl, rfl⟩
      rfl
  | case2 before first second tail ends nonempty induction =>
      rcases ends with ⟨rfl, rfl⟩
      simp only [read, and_self, ↓reduceIte, nonempty,
        Option.map_eq_some_iff, Prod.exists, Prod.mk.injEq] at found
      rcases found with ⟨later, remainder, below, rfl, rfl⟩
      have tailRead := induction below
      rw [List.nil_append] at tailRead
      rw [tailRead]
      simp [write]
  | case3 before first second tail goesOn induction =>
      rw [read, if_neg goesOn] at found
      rw [← induction found]
      simp
  | case4 before text short =>
      rw [read] at found
      · simp at found
      · exact short

/-- A block is read from the same letters, whatever follows. -/
theorem read_append
    {before text rest : List α} {lines : List (List α)}
    (found : read cr lf before text = some (lines, rest)) (more : List α) :
    read cr lf before (text ++ more) = some (lines, rest ++ more) := by
  induction before, text using read.induct cr lf generalizing lines with
  | case1 first second tail ends =>
      rw [read, if_pos ends] at found
      obtain ⟨rfl, rfl⟩ : [] = lines ∧ tail = rest := by simpa using found
      simp [read, ends]
  | case2 before first second tail ends nonempty induction =>
      simp only [read, ends, and_self, ↓reduceIte, nonempty,
        Option.map_eq_some_iff, Prod.exists, Prod.mk.injEq] at found
      rcases found with ⟨later, remainder, below, rfl, rfl⟩
      have extended := induction below
      simp [read, ends, nonempty, extended]
  | case3 before first second tail goesOn induction =>
      rw [read, if_neg goesOn] at found
      rw [List.cons_append, List.cons_append, read, if_neg goesOn]
      exact induction found
  | case4 before text short =>
      rw [read] at found
      · simp at found
      · exact short

/-- Reading gives the lines of a block back exactly if they are free. -/
theorem read_write_iff
    (distinct : cr ≠ lf) {lines : List (List α)}
    (nonempty : ∀ line ∈ lines, line ≠ []) (rest : List α) :
    read cr lf [] (write cr lf lines ++ rest) = some (lines, rest) ↔
      ∀ line ∈ lines, Free cr lf line := by
  constructor
  · exact free_of_read free_nil (by simp)
  · intro free
    exact read_write distinct nonempty free rest

end PlusWeb.LineBlock
