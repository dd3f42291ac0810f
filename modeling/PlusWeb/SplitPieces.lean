import PlusWeb.Utils
import PlusWeb.Library.Cuts

/-!
# `split` for any delimiter

`substr` throws `std::out_of_range` when it is asked to begin behind the end
of the string.  The loop of `split` is translated once more with that check;
it is shown never to fail, and its result to be the non-empty parts of the
text between the leftmost occurrences of the delimiter.
-/

namespace PlusWeb

open ListSearch

namespace StdString

/-- `text.substr(position)`; `none` when it throws. -/
def substrChecked (text : StdString) (position : Nat) : Option StdString :=
  if position ≤ text.length then some (substr text position) else none

/-- `text.substr(position, count)`; `none` when it throws. -/
def substrCountChecked (text : StdString) (position count : Nat) :
    Option StdString :=
  if position ≤ text.length then some (substrCount text position count)
  else none

/--
What the leftmost occurrence found from `position` leaves on its two
sides.
-/
theorem find_cut
    {text needle : StdString} {position offset : Nat} (nonempty : needle ≠ [])
    (found : find text needle position = some offset) :
    position ≤ offset ∧ offset + needle.length ≤ text.length ∧
      text.drop position =
        substrCount text position (offset - position) ++ needle ++
          text.drop (offset + needle.length) ∧
      ∀ earlier < (substrCount text position (offset - position)).length,
        ¬ needle <+: (text.drop position).drop earlier := by
  rcases (find_eq_some_iff nonempty).mp found with ⟨ordered, located⟩
  have inside := indexOf_bound located
  have positive := List.length_pos_of_ne_nil nonempty
  rw [List.length_drop] at inside
  have bound : offset + needle.length ≤ text.length := by omega
  refine ⟨ordered, bound, ?_, ?_⟩
  · have cut := indexOf_append located
    have behind :
        position + (offset - position + needle.length) =
          offset + needle.length := by
      omega
    rwa [List.drop_drop, behind] at cut
  · intro earlier before
    rcases indexOf_eq_some_iff.mp located with ⟨-, -, leftmost⟩
    refine leftmost earlier (lt_of_lt_of_le before ?_)
    rw [substrCount, List.length_take]
    exact Nat.min_le_left _ _

end StdString

namespace Utils

/--
The loop of `split`, entered with the given `start`, with checked
substrings; `none` when one of them throws.
-/
def splitFromChecked
    (str delimiter : StdString) (nonempty : delimiter ≠ []) (start : Nat) :
    Option (List StdString) :=
  match _found : StdString.find str delimiter start with
  | some stop => do
      let token ← StdString.substrCountChecked str start (stop - start)
      let parts ←
        splitFromChecked str delimiter nonempty (stop + delimiter.length)
      pure (if token ≠ [] then token :: parts else parts)
  | none => do
      let remaining ← StdString.substrChecked str start
      pure (if remaining ≠ [] then [remaining] else [])
termination_by str.length + 1 - start
decreasing_by
  rcases StdString.find_cut nonempty _found with ⟨ordered, bound, -⟩
  have positive := List.length_pos_of_ne_nil nonempty
  omega

theorem delimiter_ne_nil
    {str delimiter : StdString} (longer : ¬ (str = [] ∨ delimiter = [])) :
    delimiter ≠ [] :=
  (not_or.mp longer).2

/-- `Utils::split(buffer, delim)` with checked substrings. -/
def splitChecked (buffer delim : StdString) : Option (List StdString) :=
  let str := StdString.cStr buffer
  let delimiter := StdString.cStr delim
  if trivial : str = [] ∨ delimiter = [] then
    some (if str ≠ [] then [str] else [])
  else
    splitFromChecked str delimiter (delimiter_ne_nil trivial) 0

section Loop

variable {str delimiter : StdString} {nonempty : delimiter ≠ []} {start : Nat}

/-- A round of the loop that finds the delimiter. -/
theorem splitFromChecked_some
    {stop : Nat} (found : StdString.find str delimiter start = some stop)
    (inside : start ≤ str.length) {parts : List StdString}
    (later :
      splitFromChecked str delimiter nonempty (stop + delimiter.length) =
        some parts) :
    splitFromChecked str delimiter nonempty start =
      some
        (if StdString.substrCount str start (stop - start) ≠ [] then
          StdString.substrCount str start (stop - start) :: parts
        else parts) := by
  rw [splitFromChecked]
  split
  · next other found' =>
    obtain rfl := Option.some.inj (found.symm.trans found')
    simp [StdString.substrCountChecked, inside, later]
  · next missing => cases found.symm.trans missing

/-- The end of the loop. -/
theorem splitFromChecked_none
    (missing : StdString.find str delimiter start = none)
    (inside : start ≤ str.length) :
    splitFromChecked str delimiter nonempty start =
      some
        (if StdString.substr str start ≠ [] then
          [StdString.substr str start]
        else []) := by
  rw [splitFromChecked]
  split
  · next found => cases missing.symm.trans found
  · simp [StdString.substrChecked, inside]

/--
From any start in the string the loop returns, and collects the non-empty
parts of what follows.
-/
theorem splitFromChecked_eq
    (nonempty : delimiter ≠ []) (inside : start ≤ str.length) :
    splitFromChecked str delimiter nonempty start =
        some (splitFrom str delimiter nonempty start) ∧
      ∃ parts, CutAt delimiter (str.drop start) parts ∧
        splitFrom str delimiter nonempty start = parts.filter (· ≠ []) := by
  fun_induction splitFrom str delimiter nonempty start with
  | case1 start stop found token rest visible induction =>
      rcases StdString.find_cut nonempty found with
        ⟨ordered, bound, cut, leftmost⟩
      rcases induction bound with ⟨checked, parts, below, same⟩
      refine ⟨?_, token :: parts, .next cut leftmost below, ?_⟩
      · rw [splitFromChecked_some found inside checked, if_pos visible]
      · rw [List.filter_cons_of_pos (by simpa using visible), ← same]
  | case2 start stop found token rest hidden induction =>
      rcases StdString.find_cut nonempty found with
        ⟨ordered, bound, cut, leftmost⟩
      rcases induction bound with ⟨checked, parts, below, same⟩
      refine ⟨?_, token :: parts, .next cut leftmost below, ?_⟩
      · rw [splitFromChecked_some found inside checked, if_neg hidden]
      · rw [List.filter_cons_of_neg (by simpa using hidden), ← same]
  | case3 start missing remaining visible =>
      have absent :=
        indexOf_eq_none_iff.mp ((StdString.find_eq_none_iff nonempty).mp missing)
      refine ⟨?_, [remaining], .last absent, ?_⟩
      · rw [splitFromChecked_none missing inside, if_pos visible]
      · rw [List.filter_cons_of_pos (by simpa using visible), List.filter_nil]
  | case4 start missing remaining hidden =>
      have absent :=
        indexOf_eq_none_iff.mp ((StdString.find_eq_none_iff nonempty).mp missing)
      refine ⟨?_, [remaining], .last absent, ?_⟩
      · rw [splitFromChecked_none missing inside, if_neg hidden]
      · rw [List.filter_cons_of_neg (by simpa using hidden), List.filter_nil]

end Loop

/--
The parts of a string at a delimiter, and how the pieces `split` returns
make up the string.
-/
structure SplitsInto
    (delimiter str : StdString) (pieces : List StdString) : Prop where
  parts : ∃ parts, CutAt delimiter str parts ∧ pieces = parts.filter (· ≠ [])
  free : ∀ piece ∈ pieces, piece ≠ [] ∧ ¬ delimiter <:+: piece
  rebuilt : ∃ lead runs, runs.map Prod.fst = pieces ∧
    (∀ entry ∈ runs.dropLast, 0 < entry.2) ∧
    str = rebuild delimiter lead runs

/--
`split` returns, no `substr` throws, and the result is exactly the
non-empty parts between the leftmost occurrences.
-/
theorem split_splits
    {str delimiter : StdString} (strFree : (0 : UInt8) ∉ str)
    (delimiterFree : (0 : UInt8) ∉ delimiter) (nonempty : delimiter ≠ []) :
    splitChecked str delimiter = some (split str delimiter) ∧
      ∀ pieces, SplitsInto delimiter str pieces ↔
        pieces = split str delimiter := by
  have strText := StdString.cStr_eq_self strFree
  have delimiterText := StdString.cStr_eq_self delimiterFree
  have result :
      splitChecked str delimiter = some (split str delimiter) ∧
        ∃ parts, CutAt delimiter str parts ∧
          split str delimiter = parts.filter (· ≠ []) := by
    unfold splitChecked split
    simp only [strText, delimiterText]
    by_cases empty : str = []
    · have absent : ¬ delimiter <:+: str := by
        rw [empty, List.infix_nil]
        exact nonempty
      refine ⟨by simp [empty], [str], .last absent, by simp [empty]⟩
    · have proper : ¬ (str = [] ∨ delimiter = []) :=
        not_or.mpr ⟨empty, nonempty⟩
      simp only [proper, ↓reduceDIte]
      exact splitFromChecked_eq nonempty (Nat.zero_le _)
  rcases result with ⟨checked, parts, cut, same⟩
  refine ⟨checked, fun pieces => ⟨?_, ?_⟩⟩
  · rintro ⟨⟨parts', cut', rfl⟩, -, -⟩
    rw [same, cut.unique cut']
  · rintro rfl
    refine ⟨⟨parts, cut, same⟩, ?_, ?_⟩
    · intro piece member
      rw [same, List.mem_filter, decide_eq_true_eq] at member
      exact ⟨member.2, cut.free nonempty member.1⟩
    · rw [same]
      exact cut.rebuilt

/-- A delimiter of two bytes, with overlapping candidates. -/
theorem split_splits_overlap :
    (splitChecked (ascii "::a:::b") (ascii "::") =
        some (split (ascii "::a:::b") (ascii "::")) ∧
      ∀ pieces, SplitsInto (ascii "::") (ascii "::a:::b") pieces ↔
        pieces = split (ascii "::a:::b") (ascii "::")) :=
  split_splits (by decide) (by decide) (by decide)

end Utils

end PlusWeb
