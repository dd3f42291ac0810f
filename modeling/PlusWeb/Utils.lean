import PlusWeb.StdTypes

/-!
# `Utils`: splitting and the percent codec

`split` is translated as the loop of the source, over positions of the
buffer; its result for a delimiter of one byte is then identified with the
non-empty pieces of the library's `List.splitOn`.  The codec works on bytes:
`char` arithmetic is arithmetic modulo 256.
-/

namespace PlusWeb.Utils

open PlusWeb.ListSearch

/-! ## `split` -/

/--
The `while` loop of `split`, entered with the given `start`, and the
statements after it.
-/
def splitFrom
    (str delimiter : StdString)
    (nonempty : delimiter ≠ [])
    (start : Nat) : List StdString :=
  match _found : StdString.find str delimiter start with
  | some stop =>
      let token := StdString.substrCount str start (stop - start)
      let parts :=
        splitFrom str delimiter nonempty (stop + delimiter.length)
      if token ≠ [] then token :: parts else parts
  | none =>
      let remaining := StdString.substr str start
      if remaining ≠ [] then [remaining] else []
termination_by str.length + 1 - start
decreasing_by
  obtain ⟨ordered, located⟩ :=
    (StdString.find_eq_some_iff nonempty).mp _found
  have inside := indexOf_bound located
  have positive := List.length_pos_of_ne_nil nonempty
  rw [List.length_drop] at inside
  omega

/-- `Utils::split(buffer, delim)`. -/
def split (buffer delim : StdString) : List StdString :=
  let str := StdString.cStr buffer
  let delimiter := StdString.cStr delim
  if trivial : str = [] ∨ delimiter = [] then
    if str ≠ [] then [str] else []
  else
    splitFrom str delimiter (not_or.mp trivial).2 0

/-- The non-empty pieces of a text between occurrences of one byte. -/
def pieces (separator : UInt8) (text : StdString) : List StdString :=
  (text.splitOn separator).filter (· ≠ [])

@[simp]
theorem pieces_nil (separator : UInt8) :
    pieces separator [] = [] := by
  simp [pieces]

theorem pieces_of_notMem
    {separator : UInt8} {text : StdString}
    (absent : separator ∉ text) :
    pieces separator text = if text ≠ [] then [text] else [] := by
  rw [pieces, List.splitOn_eq_singleton absent]
  by_cases empty : text = [] <;> simp [empty]

theorem pieces_append_cons
    (separator : UInt8) (before after : StdString) :
    pieces separator (before ++ separator :: after) =
      pieces separator before ++ pieces separator after := by
  simp only [pieces, List.splitOn_append_cons_self, List.filter_append]

/-- A piece is never empty and never contains the separator. -/
theorem mem_pieces
    {separator : UInt8} {text piece : StdString}
    (member : piece ∈ pieces separator text) :
    piece ≠ [] ∧ separator ∉ piece := by
  simp only [pieces, List.mem_filter, decide_eq_true_eq] at member
  refine ⟨member.2, ?_⟩
  have free :
      ∀ (text : StdString), ∀ piece ∈ text.splitOn separator,
        separator ∉ piece := by
    intro text
    induction text with
    | nil => simp
    | cons head tail induction =>
        rw [List.splitOn_cons_eq_if_modifyHead]
        split
        · intro piece member
          rcases List.mem_cons.mp member with rfl | later
          · simp
          · exact induction piece later
        · rename_i different
          cases shape : tail.splitOn separator with
          | nil => exact (List.splitOn_ne_nil _ _ shape).elim
          | cons first rest =>
              rw [shape] at induction
              intro piece member
              rcases List.mem_cons.mp member with rfl | later
              · simp only [List.mem_cons, not_or]
                exact
                  ⟨fun same => different (by simp [same]),
                    induction first (List.mem_cons_self ..)⟩
              · exact induction piece (List.mem_cons_of_mem _ later)
  exact free text piece member.1

/-- A piece is part of the text. -/
theorem mem_of_mem_pieces
    {separator byte : UInt8} {text piece : StdString}
    (member : piece ∈ pieces separator text) (inside : byte ∈ piece) :
    byte ∈ text := by
  induction size : text.length using Nat.strong_induction_on
    generalizing text with
  | _ size shorter =>
      by_cases cuts : separator ∈ text
      · obtain ⟨before, after, rfl, absent⟩ :=
          List.eq_append_cons_of_mem cuts
        simp only [List.length_append, List.length_cons] at size
        rw [pieces_append_cons, List.mem_append] at member
        rcases member with first | later
        · have early := shorter before.length (by omega) first rfl
          exact List.mem_append_left _ early
        · have late := shorter after.length (by omega) later rfl
          exact List.mem_append_right _ (List.mem_cons_of_mem _ late)
      · rw [pieces_of_notMem cuts] at member
        split at member
        · rwa [List.mem_singleton.mp member] at inside
        · cases member

/-- Pieces joined by the separator are split again. -/
theorem pieces_intercalate
    {separator : UInt8} {parts : List StdString}
    (proper : ∀ part ∈ parts, part ≠ [] ∧ separator ∉ part) :
    pieces separator ([separator].intercalate parts) = parts := by
  induction parts with
  | nil => simp
  | cons part parts induction =>
      rcases proper part (List.mem_cons_self ..) with ⟨nonempty, absent⟩
      have single : pieces separator part = [part] := by
        rw [pieces_of_notMem absent, if_pos nonempty]
      cases parts with
      | nil => simpa using single
      | cons next parts =>
          rw [List.intercalate_cons_cons, List.append_assoc,
            List.singleton_append, pieces_append_cons, single,
            induction fun later member =>
              proper later (List.mem_cons_of_mem _ member)]
          rfl

/-- The pieces and one separator each fit into the text and one separator. -/
theorem sum_length_pieces_le (separator : UInt8) (text : StdString) :
    ((pieces separator text).map fun piece => piece.length + 1).sum ≤
      text.length + 1 := by
  induction size : text.length using Nat.strong_induction_on
    generalizing text with
  | _ size shorter =>
      by_cases member : separator ∈ text
      · obtain ⟨before, after, rfl, absent⟩ :=
          List.eq_append_cons_of_mem member
        simp only [List.length_append, List.length_cons] at size
        have later := shorter after.length (by omega) after rfl
        have first :
            ((pieces separator before).map fun piece =>
                piece.length + 1).sum ≤ before.length + 1 := by
          rw [pieces_of_notMem absent]
          split <;> simp
        rw [pieces_append_cons, List.map_append, List.sum_append]
        omega
      · rw [pieces_of_notMem member]
        split <;> simp [size]

/--
From any start, the loop for a delimiter of one byte collects the
non-empty pieces of the rest of the text.
-/
theorem splitFrom_singleton
    (str : StdString) (separator : UInt8) (start : Nat) :
    splitFrom str [separator] (by simp) start =
      pieces separator (str.drop start) := by
  fun_induction splitFrom str [separator] (by simp) start with
  | case1 start stop found token parts nonempty later =>
      rcases StdString.find_singleton_cut found with ⟨cut, absent⟩
      rw [cut, pieces_append_cons, pieces_of_notMem absent]
      change token :: parts =
        (if token ≠ [] then [token] else []) ++ _
      rw [if_pos nonempty]
      exact congrArg (List.cons token) later
  | case2 start stop found token parts empty later =>
      rcases StdString.find_singleton_cut found with ⟨cut, absent⟩
      rw [cut, pieces_append_cons, pieces_of_notMem absent]
      change parts = (if token ≠ [] then [token] else []) ++ _
      rw [if_neg empty]
      exact later
  | case3 start absent remaining nonempty =>
      rw [StdString.find_eq_none_iff (by simp),
        indexOf_singleton_eq_none_iff] at absent
      rw [pieces_of_notMem absent]
      exact (if_pos nonempty).symm
  | case4 start absent remaining empty =>
      rw [StdString.find_eq_none_iff (by simp),
        indexOf_singleton_eq_none_iff] at absent
      rw [pieces_of_notMem absent]
      exact (if_neg empty).symm

/--
Splitting at one byte: the non-empty pieces of the bytes before the first
NUL.
-/
theorem split_singleton
    {separator : UInt8} (visible : separator ≠ 0)
    (buffer : StdString) :
    split buffer [separator] =
      pieces separator (StdString.cStr buffer) := by
  have delimiter : StdString.cStr [separator] = [separator] :=
    StdString.cStr_eq_self (by simpa using visible.symm)
  simp only [split, delimiter]
  split
  case isTrue trivial =>
    have empty : StdString.cStr buffer = [] := by simpa using trivial
    simp [empty]
  case isFalse =>
    rw [splitFrom_singleton, List.drop_zero]

/-! ## The percent codec -/

/-- `Utils::from_hex`, which takes any `char`. -/
def fromHex (ch : UInt8) : UInt8 :=
  let lower := if 65 ≤ ch ∧ ch ≤ 90 then ch + 32 else ch
  if 48 ≤ ch ∧ ch ≤ 57 then ch - 48 else lower - 97 + 10

/--
`Utils::url_decode`.

The two characters after a `%` are tested against NUL only; past the end of
the text the first test meets the terminator.  A `%` that fails the test is
dropped.
-/
def urlDecode : StdString → StdString
  | [] => []
  | c :: rest =>
      if c = 37 then
        match rest with
        | first :: second :: later =>
            if first ≠ 0 ∧ second ≠ 0 then
              (fromHex first <<< 4 ||| fromHex second) :: urlDecode later
            else urlDecode (first :: second :: later)
        | [last] => urlDecode [last]
        | [] => []
      else if c = 43 then 32 :: urlDecode rest
      else c :: urlDecode rest

/-- The bytes `urlEncode` copies. -/
def unreserved (ascii : UInt8) : Bool :=
  (48 ≤ ascii && ascii ≤ 57) || (65 ≤ ascii && ascii ≤ 90) ||
    (97 ≤ ascii && ascii ≤ 122) || ascii == 45 || ascii == 46 ||
    ascii == 95 || ascii == 126

/-- One upper-case hexadecimal digit, as `std::hex` prints it. -/
def hexDigit (nibble : UInt8) : UInt8 :=
  if nibble < 10 then 48 + nibble else 55 + nibble

/-- `Utils::urlEncode`. -/
def urlEncode (input : StdString) : StdString :=
  input.flatMap fun c =>
    if unreserved c then [c]
    else [37, hexDigit (c >>> 4), hexDigit (c &&& 15)]

/-- A text without escapes decodes to itself. -/
theorem urlDecode_eq_self
    {text : StdString}
    (noPercent : (37 : UInt8) ∉ text)
    (noPlus : (43 : UInt8) ∉ text) :
    urlDecode text = text := by
  induction text with
  | nil => rfl
  | cons c rest induction =>
      simp only [List.mem_cons, not_or] at noPercent noPlus
      rw [urlDecode.eq_def]
      simp only [Ne.symm noPercent.1, Ne.symm noPlus.1, ↓reduceIte,
        induction noPercent.2 noPlus.2]

/-- The decoder copies a text without escapes and goes on behind it. -/
theorem urlDecode_plain_append
    {text : StdString}
    (noPercent : (37 : UInt8) ∉ text)
    (noPlus : (43 : UInt8) ∉ text)
    (rest : StdString) :
    urlDecode (text ++ rest) = text ++ urlDecode rest := by
  induction text with
  | nil => rfl
  | cons c text induction =>
      simp only [List.mem_cons, not_or] at noPercent noPlus
      rw [List.cons_append, urlDecode.eq_def]
      simp only [Ne.symm noPercent.1, Ne.symm noPlus.1, ↓reduceIte,
        induction noPercent.2 noPlus.2, List.cons_append]

/-- Behind a text without `%` the decoder begins anew. -/
theorem urlDecode_append
    {text : StdString} (noPercent : (37 : UInt8) ∉ text)
    (rest : StdString) :
    urlDecode (text ++ rest) = urlDecode text ++ urlDecode rest := by
  induction text with
  | nil => rfl
  | cons c text induction =>
      simp only [List.mem_cons, not_or] at noPercent
      rw [List.cons_append, urlDecode.eq_def, urlDecode.eq_def (c :: text)]
      simp only [Ne.symm noPercent.1, ↓reduceIte, induction noPercent.2]
      split_ifs <;> rfl

/-- Behind two bytes that begin no escape the decoder begins anew. -/
theorem urlDecode_append_pair
    (text : StdString) {first second : UInt8}
    (plain : first ≠ 37) (plain' : second ≠ 37) (rest : StdString) :
    urlDecode (text ++ first :: second :: rest) =
      urlDecode (text ++ [first, second]) ++ urlDecode rest := by
  have behind : (37 : UInt8) ∉ [second] := by simpa using plain'.symm
  have both : (37 : UInt8) ∉ [first, second] := by
    simpa using ⟨plain.symm, plain'.symm⟩
  induction text using urlDecode.induct with
  | case1 => exact urlDecode_append both rest
  | case2 high low later digits induction =>
      simp only [List.cons_append]
      rw [urlDecode.eq_def, urlDecode.eq_def (37 :: high :: low :: _)]
      simp only [↓reduceIte, digits, ne_eq, not_false_eq_true, and_self,
        induction, List.cons_append]
  | case3 high low later digits induction =>
      simp only [List.cons_append] at induction ⊢
      rw [urlDecode.eq_def, urlDecode.eq_def (37 :: high :: low :: _)]
      simp only [↓reduceIte, digits, induction]
  | case4 last induction =>
      simp only [List.cons_append, List.nil_append] at induction ⊢
      rw [urlDecode.eq_def, urlDecode.eq_def (37 :: last :: first :: _)]
      simp only [↓reduceIte]
      split_ifs
      · exact congrArg (List.cons _) (urlDecode_append behind rest)
      · exact induction
  | case5 =>
      simp only [List.cons_append, List.nil_append]
      rw [urlDecode.eq_def, urlDecode.eq_def (37 :: first :: second :: _)]
      simp only [↓reduceIte]
      split_ifs
      · rfl
      · exact urlDecode_append both rest
  | case6 later escape induction =>
      simp only [List.cons_append]
      rw [urlDecode.eq_def, urlDecode.eq_def (43 :: _)]
      simp only [escape, ↓reduceIte, induction, List.cons_append]
  | case7 c later noEscape noPlus induction =>
      simp only [List.cons_append]
      rw [urlDecode.eq_def, urlDecode.eq_def (c :: _)]
      simp only [noEscape, noPlus, ↓reduceIte, induction, List.cons_append]

/-- Without `%` nothing but spaces is new. -/
theorem mem_of_mem_urlDecode
    {text : StdString} (noPercent : (37 : UInt8) ∉ text) {byte : UInt8}
    (member : byte ∈ urlDecode text) : byte = 32 ∨ byte ∈ text := by
  induction text with
  | nil => exact Or.inr member
  | cons c text induction =>
      simp only [List.mem_cons, not_or] at noPercent
      rw [urlDecode.eq_def] at member
      simp only [Ne.symm noPercent.1, ↓reduceIte] at member
      split_ifs at member
      · rcases List.mem_cons.mp member with rfl | below
        · exact Or.inl rfl
        · rcases induction noPercent.2 below with blank | inside
          · exact Or.inl blank
          · exact Or.inr (List.mem_cons_of_mem _ inside)
      · rcases List.mem_cons.mp member with rfl | below
        · exact Or.inr (List.mem_cons_self ..)
        · rcases induction noPercent.2 below with blank | inside
          · exact Or.inl blank
          · exact Or.inr (List.mem_cons_of_mem _ inside)

/-- The bytes that are copied begin no escape. -/
theorem unreserved_plain :
    ∀ c : UInt8, unreserved c = true → c ≠ 37 ∧ c ≠ 43 := by
  decide +kernel

/-- The two digits of an escape are not NUL and give the byte back. -/
theorem fromHex_hexDigit :
    ∀ c : UInt8,
      hexDigit (c >>> 4) ≠ 0 ∧ hexDigit (c &&& 15) ≠ 0 ∧
        fromHex (hexDigit (c >>> 4)) <<< 4 |||
          fromHex (hexDigit (c &&& 15)) = c := by
  decide +kernel

/-- Decoding undoes encoding, whatever follows. -/
theorem urlDecode_urlEncode_append (text rest : StdString) :
    urlDecode (urlEncode text ++ rest) = text ++ urlDecode rest := by
  induction text with
  | nil => rfl
  | cons c text induction =>
      have cut :
          urlEncode (c :: text) =
            (if unreserved c then [c]
              else [37, hexDigit (c >>> 4), hexDigit (c &&& 15)]) ++
              urlEncode text := rfl
      rw [cut, List.append_assoc]
      by_cases copied : unreserved c
      · rw [if_pos copied,
          urlDecode_plain_append (by simpa using
            (unreserved_plain c copied).1.symm)
            (by simpa using (unreserved_plain c copied).2.symm),
          induction]
        rfl
      · rcases fromHex_hexDigit c with ⟨high, low, byte⟩
        rw [if_neg copied]
        simp only [List.cons_append, List.nil_append]
        rw [urlDecode.eq_def]
        simp only [↓reduceIte, high, low, ne_eq, not_false_eq_true,
          and_self, byte, induction]

end PlusWeb.Utils
