import PlusWeb.Library.ListSearch

/-!
# Cutting a list at a needle

A text is cut at the leftmost occurrence of the needle; what follows that
occurrence is cut in the same way, so the occurrences do not overlap.  The
parts between the cuts are determined by the text, they do not contain the
needle, and together with runs of the needle they give the text back.

The alphabet is arbitrary.
-/

namespace PlusWeb.ListSearch

variable {α : Type*} {needle text : List α} {parts : List (List α)}

/-- The parts of a text between successive leftmost occurrences. -/
inductive CutAt (needle : List α) : List α → List (List α) → Prop where
  | last {text : List α} (absent : ¬ needle <:+: text) :
      CutAt needle text [text]
  | next {text front back : List α} {parts : List (List α)}
      (cut : text = front ++ needle ++ back)
      (leftmost : ∀ earlier < front.length, ¬ needle <+: text.drop earlier)
      (below : CutAt needle back parts) :
      CutAt needle text (front :: parts)

namespace CutAt

/-- The text determines its parts. -/
theorem unique
    {other : List (List α)} (cut : CutAt needle text parts)
    (cut' : CutAt needle text other) : other = parts := by
  induction cut generalizing other with
  | last absent =>
      cases cut' with
      | last => rfl
      | @next _ front back _ split =>
          exact absurd ⟨front, back, split.symm⟩ absent
  | @next text front back parts split leftmost below induction =>
      cases cut' with
      | last absent => exact absurd ⟨front, back, split.symm⟩ absent
      | @next _ front' back' _ split' leftmost' below' =>
          have here : needle <+: text.drop front.length :=
            ⟨back, by rw [split, List.append_assoc, List.drop_left]⟩
          have here' : needle <+: text.drop front'.length :=
            ⟨back', by rw [split', List.append_assoc, List.drop_left]⟩
          have lengths : front.length = front'.length := by
            rcases Nat.lt_trichotomy front.length front'.length with
              before | same | behind
            · exact absurd here (leftmost' _ before)
            · exact same
            · exact absurd here' (leftmost _ behind)
          have same : front ++ (needle ++ back) = front' ++ (needle ++ back') := by
            rw [← List.append_assoc, ← List.append_assoc, ← split, ← split']
          rcases List.append_inj same lengths with ⟨rfl, rest⟩
          obtain rfl := List.append_cancel_left rest
          rw [induction below']

/-- No part contains the needle. -/
theorem free
    (nonempty : needle ≠ []) (cut : CutAt needle text parts) {part : List α}
    (member : part ∈ parts) : ¬ needle <:+: part := by
  induction cut with
  | last absent => rwa [List.mem_singleton.mp member]
  | @next text front back parts split leftmost below induction =>
      rcases List.mem_cons.mp member with rfl | later
      · rintro ⟨left, right, equal⟩
        have positive := List.length_pos_of_ne_nil nonempty
        have lengths := congrArg List.length equal
        simp only [List.length_append] at lengths
        refine leftmost left.length (by omega) ?_
        rw [split, ← equal, List.append_assoc, List.append_assoc,
          List.append_assoc, List.drop_left]
        exact List.prefix_append _ _
      · exact induction later

end CutAt

/-! ## Runs of the needle -/

/-- The needle, `count` times in a row. -/
def runOf (needle : List α) (count : Nat) : List α :=
  (List.replicate count needle).flatten

/-- A run of the needle, then each piece with the run behind it. -/
def rebuild (needle : List α) (lead : Nat)
    (pieces : List (List α × Nat)) : List α :=
  runOf needle lead ++ pieces.flatMap fun piece => piece.1 ++ runOf needle piece.2

theorem runOf_succ (needle : List α) (count : Nat) :
    runOf needle (count + 1) = needle ++ runOf needle count := by
  rw [runOf, List.replicate_succ, List.flatten_cons]
  rfl

/--
The text is made of its non-empty parts and of runs of the needle, which
are empty at the ends only.
-/
theorem CutAt.rebuilt [DecidableEq α] (cut : CutAt needle text parts) :
    ∃ lead pieces, pieces.map Prod.fst = parts.filter (· ≠ []) ∧
      (∀ piece ∈ pieces.dropLast, 0 < piece.2) ∧
      text = rebuild needle lead pieces := by
  induction cut with
  | @last text absent =>
      by_cases empty : text = []
      · exact ⟨0, [], by simp [empty], by simp, by simp [empty, rebuild, runOf]⟩
      · exact
          ⟨0, [(text, 0)], by simp [empty], by simp, by simp [rebuild, runOf]⟩
  | @next text front back parts split leftmost below induction =>
      rcases induction with ⟨lead, pieces, same, positive, built⟩
      by_cases empty : front = []
      · refine ⟨lead + 1, pieces, by simp [empty, same], positive, ?_⟩
        rw [split, empty, built, rebuild, rebuild, runOf_succ]
        simp
      · refine ⟨0, (front, lead + 1) :: pieces, by simp [empty, same], ?_, ?_⟩
        · intro piece member
          cases pieces with
          | nil => cases member
          | cons first rest =>
              rw [List.dropLast_cons_cons] at member
              rcases List.mem_cons.mp member with rfl | later
              · exact Nat.succ_pos lead
              · exact positive piece later
        · rw [split, built, rebuild, rebuild, List.flatMap_cons, runOf_succ]
          simp [runOf]

end PlusWeb.ListSearch
