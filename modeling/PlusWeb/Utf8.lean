import PlusWeb.HttpMessage
import PlusWeb.Utils

/-!
# UTF-8

A byte below 128 is a character of its own, so that a text that is valid
UTF-8 can be cut there, as the program cuts paths at slashes and takes the
colon off a parameter.
-/

namespace PlusWeb

theorem validUtf8_iff (text : StdString) :
    ValidUtf8 text ↔
      ∃ chars : List Char, text = chars.flatMap String.utf8EncodeChar := by
  constructor
  · rintro ⟨chars, encoded⟩
    refine ⟨chars, ?_⟩
    have data := congrArg (fun bytes => bytes.data.toList) encoded
    simpa [List.utf8Encode] using data
  · rintro ⟨chars, rfl⟩
    refine ⟨chars, ?_⟩
    apply ByteArray.ext
    simp [List.utf8Encode]

/-- A byte below 128 is a character of its own. -/
theorem utf8EncodeChar_of_mem
    {char : Char} {byte : UInt8} (member : byte ∈ String.utf8EncodeChar char)
    (small : byte < 128) : String.utf8EncodeChar char = [byte] := by
  revert member
  fun_cases String.utf8EncodeChar char with
  | case1 =>
      intro member
      rw [List.mem_singleton.mp member]
  | case2 =>
      simp only [List.mem_cons, List.not_mem_nil, or_false]
      rintro (rfl | rfl) <;>
        simp only [UInt8.lt_iff_toNat_lt, UInt8.toNat_ofNat',
          UInt8.reduceToNat] at small <;>
        omega
  | case3 =>
      simp only [List.mem_cons, List.not_mem_nil, or_false]
      rintro (rfl | rfl | rfl) <;>
        simp only [UInt8.lt_iff_toNat_lt, UInt8.toNat_ofNat',
          UInt8.reduceToNat] at small <;>
        omega
  | case4 =>
      simp only [List.mem_cons, List.not_mem_nil, or_false]
      rintro (rfl | rfl | rfl | rfl) <;>
        simp only [UInt8.lt_iff_toNat_lt, UInt8.toNat_ofNat',
          UInt8.reduceToNat] at small <;>
        omega

theorem validUtf8_nil : ValidUtf8 [] :=
  (validUtf8_iff []).mpr ⟨[], rfl⟩

theorem ValidUtf8.append
    {front back : StdString} (frontValid : ValidUtf8 front)
    (backValid : ValidUtf8 back) : ValidUtf8 (front ++ back) := by
  rcases (validUtf8_iff front).mp frontValid with ⟨chars, rfl⟩
  rcases (validUtf8_iff back).mp backValid with ⟨chars', rfl⟩
  exact (validUtf8_iff _).mpr ⟨chars ++ chars', List.flatMap_append.symm⟩

theorem validUtf8_char (char : Char) :
    ValidUtf8 (String.utf8EncodeChar char) :=
  (validUtf8_iff _).mpr ⟨[char], (List.flatMap_singleton _ _).symm⟩

/-- A text is cut into valid parts at a byte below 128. -/
theorem validUtf8_cut
    {front back : StdString} {byte : UInt8} (small : byte < 128)
    (valid : ValidUtf8 (front ++ byte :: back)) :
    ValidUtf8 front ∧ ValidUtf8 back := by
  rcases (validUtf8_iff _).mp valid with ⟨chars, encoded⟩
  clear valid
  induction chars generalizing front with
  | nil => simp at encoded
  | cons char chars induction =>
      rw [List.flatMap_cons] at encoded
      rcases List.append_eq_append_iff.mp encoded with
        ⟨inner, whole, rest⟩ | ⟨inner, rfl, rest⟩
      · cases inner with
        | nil =>
            rw [List.append_nil] at whole
            rcases @induction [] rest with ⟨-, backValid⟩
            exact ⟨whole ▸ validUtf8_char char, backValid⟩
        | cons letter inner =>
            rcases List.cons.inj rest with ⟨rfl, rfl⟩
            have alone : front = [] ∧ inner = [] := by
              have single :=
                @utf8EncodeChar_of_mem char byte (by rw [whole]; simp) small
              rw [single] at whole
              have length := congrArg List.length whole
              simp only [List.length_append, List.length_cons,
                List.length_nil] at length
              exact
                ⟨List.length_eq_zero_iff.mp (by omega),
                  List.length_eq_zero_iff.mp (by omega)⟩
            rcases alone with ⟨rfl, rfl⟩
            exact ⟨validUtf8_nil, (validUtf8_iff _).mpr ⟨chars, rfl⟩⟩
      · rcases induction rest.symm with ⟨innerValid, backValid⟩
        exact ⟨(validUtf8_char char).append innerValid, backValid⟩

/-- The pieces between such bytes are valid. -/
theorem validUtf8_of_mem_pieces
    {separator : UInt8} (small : separator < 128) {text : StdString}
    (valid : ValidUtf8 text) :
    ∀ piece ∈ Utils.pieces separator text, ValidUtf8 piece := by
  by_cases inside : separator ∈ text
  · rcases List.eq_append_cons_of_mem inside with ⟨front, back, rfl, absent⟩
    rcases validUtf8_cut small valid with ⟨frontValid, backValid⟩
    intro piece member
    rw [Utils.pieces_append_cons, Utils.pieces_of_notMem absent] at member
    rcases List.mem_append.mp member with first | later
    · split at first
      · exact List.mem_singleton.mp first ▸ frontValid
      · cases first
    · exact validUtf8_of_mem_pieces small backValid piece later
  · intro piece member
    rw [Utils.pieces_of_notMem inside] at member
    split at member
    · exact List.mem_singleton.mp member ▸ valid
    · cases member
termination_by text.length
decreasing_by
  subst_vars
  simp only [List.length_append, List.length_cons]
  omega

/-- A text of bytes below 128 is valid. -/
theorem validUtf8_of_ascii
    {text : StdString} (small : ∀ byte ∈ text, byte < 128) :
    ValidUtf8 text := by
  have letter : ∀ byte : UInt8, byte < 128 → ValidUtf8 [byte] := by
    decide +kernel
  induction text with
  | nil => exact validUtf8_nil
  | cons byte text induction =>
      rw [List.forall_mem_cons] at small
      exact (letter byte small.1).append (induction small.2)

theorem validUtf8_before
    {text : StdString} {byte : UInt8} (small : byte < 128)
    (valid : ValidUtf8 text) : ValidUtf8 (ListSearch.before byte text) := by
  by_cases member : byte ∈ text
  · rw [ListSearch.eq_before_cons_after member] at valid
    exact (validUtf8_cut small valid).1
  · rwa [ListSearch.before_of_notMem member]

theorem validUtf8_after
    {text : StdString} {byte : UInt8} (small : byte < 128)
    (valid : ValidUtf8 text) : ValidUtf8 (ListSearch.after byte text) := by
  by_cases member : byte ∈ text
  · rw [ListSearch.eq_before_cons_after member] at valid
    exact (validUtf8_cut small valid).2
  · rw [ListSearch.after_of_notMem member]
    exact validUtf8_nil

/-- The keys and the values of a map are valid. -/
def StdMap.Utf8 (map : StdMap) : Prop :=
  ∀ pair ∈ map.toList, ValidUtf8 pair.1 ∧ ValidUtf8 pair.2

instance : DecidablePred StdMap.Utf8 := fun map =>
  inferInstanceAs (Decidable (∀ pair ∈ map.toList, _))

end PlusWeb
