import PlusWeb.Utils

/-!
# The reads of `url_decode`

The loop of `url_decode` over an iterator that checks nothing.  Behind the
last byte stands the terminator, and behind that memory holds anything.  The
loop never reads there and ends, with the result of `urlDecode`.
-/

namespace PlusWeb.Utils

/--
What the iterator reads: a byte of the text, the terminator, or what
memory holds beyond it.
-/
def byteAt (text : StdString) (beyond : Nat → UInt8) (index : Nat) : UInt8 :=
  if inside : index < text.length then text[index]
  else if index = text.length then 0
  else beyond index

/-- The variables of the loop, and the indices read so far. -/
structure DecodeLoop where
  cursor : Nat
  escaped : StdString
  reads : List Nat

namespace DecodeLoop

/-- Before the first round. -/
def start : DecodeLoop := ⟨0, [], []⟩

/-- The body of the loop and the increment. -/
def round (text : StdString) (beyond : Nat → UInt8) (loop : DecodeLoop) :
    DecodeLoop :=
  let i := loop.cursor
  let c := byteAt text beyond i
  if c = 37 then
    let first := byteAt text beyond (i + 1)
    -- `&&` reads the second character only if the first is not NUL.
    if first ≠ 0 then
      let second := byteAt text beyond (i + 2)
      if second ≠ 0 then
        let h := fromHex first <<< 4 ||| fromHex second
        ⟨i + 3, loop.escaped ++ [h],
          loop.reads ++ [i, i + 1, i + 2, i + 1, i + 2]⟩
      else ⟨i + 1, loop.escaped, loop.reads ++ [i, i + 1, i + 2]⟩
    else ⟨i + 1, loop.escaped, loop.reads ++ [i, i + 1]⟩
  else if c = 43 then ⟨i + 1, loop.escaped ++ [32], loop.reads ++ [i]⟩
  else ⟨i + 1, loop.escaped ++ [c], loop.reads ++ [i]⟩

/-- A round, unless the cursor is at the end. -/
def step (text : StdString) (beyond : Nat → UInt8) (loop : DecodeLoop) :
    DecodeLoop :=
  if loop.cursor ≠ text.length then loop.round text beyond else loop

/-- At most `rounds` rounds. -/
def run (text : StdString) (beyond : Nat → UInt8) (rounds : Nat) :
    DecodeLoop :=
  (step text beyond)^[rounds] start

/--
The cursor and the reads stay in the text, and what is written decodes
what the cursor has passed.
-/
structure InBounds (text : StdString) (loop : DecodeLoop) : Prop where
  cursor : loop.cursor ≤ text.length
  reads : ∀ index ∈ loop.reads, index ≤ text.length
  decoded :
    loop.escaped ++ urlDecode (text.drop loop.cursor) = urlDecode text
  short : loop.escaped.length ≤ loop.cursor

theorem inBounds_start (text : StdString) : start.InBounds text where
  cursor := Nat.zero_le _
  reads := by simp [start]
  decoded := rfl
  short := le_rfl

end DecodeLoop

/-- An escape is decoded as one byte. -/
theorem urlDecode_escape
    {first second : UInt8} (firstVisible : first ≠ 0) (visible : second ≠ 0)
    (later : StdString) :
    urlDecode (37 :: first :: second :: later) =
      (fromHex first <<< 4 ||| fromHex second) :: urlDecode later := by
  rw [urlDecode.eq_def]
  simp [firstVisible, visible]

/-- Before fewer than two bytes other than NUL, a `%` is dropped. -/
theorem urlDecode_dropped
    {rest : StdString}
    (hidden : ∀ first second later, rest = first :: second :: later →
      first = 0 ∨ second = 0) :
    urlDecode (37 :: rest) = urlDecode rest := by
  rw [urlDecode.eq_def]
  rcases rest with - | ⟨first, - | ⟨second, later⟩⟩
  · rfl
  · rfl
  · have shut : ¬ (first ≠ 0 ∧ second ≠ 0) := by
      rcases hidden first second later rfl with zero | zero <;> simp [zero]
    simp only [↓reduceIte, if_neg shut]

section Reads

variable {text rest : StdString} {byte : UInt8} {index : Nat}
  {beyond : Nat → UInt8}

/-- A read before the end. -/
theorem drop_of_lt (inside : index < text.length) :
    text.drop index = byteAt text beyond index :: text.drop (index + 1) := by
  rw [byteAt, dif_pos inside]
  exact List.drop_eq_getElem_cons inside

/-- What is read up to the end is not NUL only before the end. -/
theorem lt_of_byteAt_ne_zero
    (inside : index ≤ text.length) (visible : byteAt text beyond index ≠ 0) :
    index < text.length := by
  rcases Nat.lt_or_eq_of_le inside with before | last
  · exact before
  · exact absurd (by rw [byteAt, dif_neg (by omega), if_pos last]) visible

theorem byteAt_of_drop (split : text.drop index = byte :: rest) :
    byteAt text beyond index = byte ∧ text.drop (index + 1) = rest := by
  have inside : index < text.length := by
    by_contra outside
    rw [List.drop_eq_nil_of_le (by omega)] at split
    cases split
  rw [@drop_of_lt text index beyond inside] at split
  exact List.cons.inj split

/-! ### What a round decodes -/

theorem urlDecode_drop_escape
    (inside : index + 2 < text.length)
    (percent : byteAt text beyond index = 37)
    (first : byteAt text beyond (index + 1) ≠ 0)
    (second : byteAt text beyond (index + 2) ≠ 0) :
    urlDecode (text.drop index) =
      [fromHex (byteAt text beyond (index + 1)) <<< 4 |||
          fromHex (byteAt text beyond (index + 2))] ++
        urlDecode (text.drop (index + 3)) := by
  rw [@drop_of_lt text index beyond (by omega), percent,
    @drop_of_lt text (index + 1) beyond (by omega),
    @drop_of_lt text (index + 2) beyond inside, urlDecode_escape first second]
  rfl

theorem urlDecode_drop_dropped
    (inside : index < text.length)
    (percent : byteAt text beyond index = 37)
    (hidden : byteAt text beyond (index + 1) = 0 ∨
      byteAt text beyond (index + 2) = 0) :
    urlDecode (text.drop index) = urlDecode (text.drop (index + 1)) := by
  rw [@drop_of_lt text index beyond inside, percent]
  refine urlDecode_dropped fun first second later split => ?_
  rcases @byteAt_of_drop _ _ _ _ beyond split with ⟨firstOwn, behind⟩
  rcases @byteAt_of_drop _ _ _ _ beyond behind with ⟨secondOwn, -⟩
  rwa [firstOwn, secondOwn] at hidden

theorem urlDecode_drop_copied
    (inside : index < text.length)
    (copied : byteAt text beyond index ≠ 37) :
    urlDecode (text.drop index) =
      [if byteAt text beyond index = 43 then 32
        else byteAt text beyond index] ++
        urlDecode (text.drop (index + 1)) := by
  rw [@drop_of_lt text index beyond inside, urlDecode.eq_def]
  simp only [if_neg copied]
  split_ifs <;> rfl

end Reads

namespace DecodeLoop

variable {text : StdString} {loop : DecodeLoop}

/-- The cursor moves on by `count` bytes, for which `written` is written. -/
theorem InBounds.advance
    (holds : loop.InBounds text) {count : Nat} {written : StdString}
    {fresh : List Nat} (moved : loop.cursor + count ≤ text.length)
    (inside : ∀ index ∈ fresh, index ≤ text.length)
    (decoded :
      urlDecode (text.drop loop.cursor) =
        written ++ urlDecode (text.drop (loop.cursor + count)))
    (short : written.length ≤ count) :
    InBounds text
      ⟨loop.cursor + count, loop.escaped ++ written, loop.reads ++ fresh⟩ where
  cursor := moved
  reads := List.forall_mem_append.mpr ⟨holds.reads, inside⟩
  decoded := by rw [List.append_assoc, ← decoded, holds.decoded]
  short := by
    have before := holds.short
    change (loop.escaped ++ written).length ≤ loop.cursor + count
    rw [List.length_append]
    omega

/-- The cursor moves on by one byte, for which nothing is written. -/
theorem InBounds.skip
    (holds : loop.InBounds text) {fresh : List Nat}
    (moved : loop.cursor < text.length)
    (inside : ∀ index ∈ fresh, index ≤ text.length)
    (decoded :
      urlDecode (text.drop loop.cursor) =
        urlDecode (text.drop (loop.cursor + 1))) :
    InBounds text ⟨loop.cursor + 1, loop.escaped, loop.reads ++ fresh⟩ := by
  have advanced :=
    @InBounds.advance _ _ holds 1 [] fresh moved inside decoded
      (Nat.zero_le _)
  rwa [List.append_nil] at advanced

/-- A round moves the cursor on, and stays in the text. -/
theorem InBounds.round
    (holds : loop.InBounds text) (beyond : Nat → UInt8)
    (unfinished : loop.cursor ≠ text.length) :
    (loop.round text beyond).InBounds text ∧
      loop.cursor < (loop.round text beyond).cursor := by
  have inside : loop.cursor < text.length :=
    lt_of_le_of_ne holds.cursor unfinished
  rw [DecodeLoop.round]
  dsimp only
  by_cases percent : byteAt text beyond loop.cursor = 37
  · rw [if_pos percent]
    by_cases first : byteAt text beyond (loop.cursor + 1) = 0
    · rw [if_neg (not_not.mpr first)]
      have dropped := urlDecode_drop_dropped inside percent (Or.inl first)
      refine ⟨holds.skip inside ?_ dropped, Nat.lt_succ_self _⟩
      intro index member
      simp only [List.mem_cons, List.not_mem_nil, or_false] at member
      omega
    -- the first character is read and is not the terminator
    have firstInside := lt_of_byteAt_ne_zero inside first
    rw [if_pos first]
    by_cases second : byteAt text beyond (loop.cursor + 2) = 0
    · rw [if_neg (not_not.mpr second)]
      have dropped := urlDecode_drop_dropped inside percent (Or.inr second)
      refine ⟨holds.skip inside ?_ dropped, Nat.lt_succ_self _⟩
      intro index member
      simp only [List.mem_cons, List.not_mem_nil, or_false] at member
      omega
    · have secondInside := lt_of_byteAt_ne_zero firstInside second
      have escape := urlDecode_drop_escape secondInside percent first second
      rw [if_pos second]
      refine ⟨holds.advance secondInside ?_ escape ?_, by simp⟩
      · intro index member
        simp only [List.mem_cons, List.not_mem_nil, or_false] at member
        omega
      · exact Nat.le_add_left _ _
  · have copied := urlDecode_drop_copied inside percent
    have bound : ∀ index ∈ [loop.cursor], index ≤ text.length := by
      simpa using inside.le
    rw [if_neg percent]
    by_cases plus : byteAt text beyond loop.cursor = 43
    · rw [if_pos plus] at copied ⊢
      exact
        ⟨holds.advance inside bound copied le_rfl, Nat.lt_succ_self _⟩
    · rw [if_neg plus] at copied ⊢
      exact
        ⟨holds.advance inside bound copied le_rfl, Nat.lt_succ_self _⟩

/--
After any number of rounds the loop is in bounds, and it has ended or
moved once for each round.
-/
theorem inBounds_run
    (text : StdString) (beyond : Nat → UInt8) (rounds : Nat) :
    (run text beyond rounds).InBounds text ∧
      ((run text beyond rounds).cursor = text.length ∨
        rounds ≤ (run text beyond rounds).cursor) := by
  induction rounds with
  | zero => exact ⟨inBounds_start text, Or.inr (Nat.zero_le _)⟩
  | succ rounds induction =>
      rcases induction with ⟨holds, progress⟩
      rw [run, Function.iterate_succ_apply', ← run, step]
      by_cases ended : (run text beyond rounds).cursor = text.length
      · rw [if_neg (not_not.mpr ended)]
        exact ⟨holds, Or.inl ended⟩
      · rw [if_pos ended]
        rcases holds.round beyond ended with ⟨next, moved⟩
        have before := progress.resolve_left ended
        exact ⟨next, Or.inr (by omega)⟩

end DecodeLoop

/--
Whatever stands behind the terminator: after any number of rounds the
cursor is in the text or at its end, and nothing behind the terminator has
been read; `text.length` rounds end the loop; what it has written then is
`urlDecode` of the text, and not longer than the text.
-/
theorem urlDecode_reads_in_bounds
    (text : StdString) (beyond : Nat → UInt8) :
    (∀ rounds,
      (DecodeLoop.run text beyond rounds).cursor ≤ text.length ∧
        ∀ index ∈ (DecodeLoop.run text beyond rounds).reads,
          index ≤ text.length) ∧
      (∃ rounds ≤ text.length,
        (DecodeLoop.run text beyond rounds).cursor = text.length ∧
          (DecodeLoop.run text beyond rounds).escaped = urlDecode text) ∧
      (urlDecode text).length ≤ text.length := by
  rcases DecodeLoop.inBounds_run text beyond text.length with ⟨last, progress⟩
  have ended :
      (DecodeLoop.run text beyond text.length).cursor = text.length :=
    progress.elim id fun moved => le_antisymm last.cursor moved
  have written :
      (DecodeLoop.run text beyond text.length).escaped = urlDecode text := by
    have decoded := last.decoded
    rwa [ended, List.drop_length, urlDecode, List.append_nil] at decoded
  refine ⟨fun rounds => ?_, ⟨_, le_rfl, ended, written⟩, ?_⟩
  · have holds := (DecodeLoop.inBounds_run text beyond rounds).1
    exact ⟨holds.cursor, holds.reads⟩
  · rw [← written]
    exact last.short.trans last.cursor

end PlusWeb.Utils
