import PlusWeb.Library.ListSearch

/-!
# The standard-library types the program is written in

`std::string` is a sequence of bytes and `std::map<std::string, std::string>`
an ordered map from byte strings to byte strings: `std::less` compares bytes
as unsigned values, position by position, which is the order `compare` gives
on lists of `UInt8`.

The operations below are the members of the two classes the program calls.
`find` returns `none` where the member returns `npos`.
-/

namespace PlusWeb

open ListSearch

/-- `std::string`. -/
abbrev StdString := List UInt8

/-- `std::map<std::string, std::string>`. -/
abbrev StdMap := Std.ExtTreeMap StdString StdString

/-- The bytes of a string literal of the source. -/
def ascii (text : String) : StdString :=
  text.toList.map fun letter => UInt8.ofNat letter.toNat

/-- The bytes the program splits at. -/
abbrev slash : UInt8 := 47
abbrev colon : UInt8 := 58
abbrev questionMark : UInt8 := 63
abbrev ampersand : UInt8 := 38
abbrev equalsSign : UInt8 := 61

theorem ascii_slash : ascii "/" = [slash] := by decide

namespace StdString

/-- `text.find(needle, position)`. -/
def find (text needle : StdString) (position : Nat) : Option Nat :=
  if position ≤ text.length then
    (indexOf needle (text.drop position)).map (position + ·)
  else none

/-- `text.substr(position)`. -/
def substr (text : StdString) (position : Nat) : StdString :=
  text.drop position

/-- `text.substr(position, count)`. -/
def substrCount (text : StdString) (position count : Nat) : StdString :=
  (text.drop position).take count

/--
`text.rfind(start, 0) == 0`: the last occurrence that begins at or before
position zero begins at zero.
-/
def startsWith (text start : StdString) : Bool :=
  start.isPrefixOf text

/--
The bytes that survive a trip through `text.c_str()`: those before the
first NUL.
-/
def cStr (text : StdString) : StdString :=
  text.takeWhile (· ≠ 0)

/-- `std::to_string` of an unsigned value. -/
def ofNat (value : Nat) : StdString :=
  if value = 0 then ascii "0"
  else (Nat.digits 10 value).reverse.map fun digit =>
    UInt8.ofNat (48 + digit)

/-- `std::to_string` of an `int`. -/
def ofInt : Int → StdString
  | .ofNat value => ofNat value
  | .negSucc value => ascii "-" ++ ofNat (value + 1)

theorem find_eq_some_iff
    {text needle : StdString} {position offset : Nat}
    (nonempty : needle ≠ []) :
    find text needle position = some offset ↔
      position ≤ offset ∧
        indexOf needle (text.drop position) =
          some (offset - position) := by
  unfold find
  by_cases inside : position ≤ text.length
  · simp only [inside, ↓reduceIte, Option.map_eq_some_iff]
    constructor
    · rintro ⟨relative, found, rfl⟩
      exact ⟨by omega, by simpa using found⟩
    · rintro ⟨ordered, found⟩
      exact ⟨offset - position, found, by omega⟩
  · have empty : text.drop position = [] :=
      List.drop_eq_nil_of_le (by omega)
    simp [inside, empty, indexOf, nonempty]

theorem find_eq_none_iff
    {text needle : StdString} {position : Nat}
    (nonempty : needle ≠ []) :
    find text needle position = none ↔
      indexOf needle (text.drop position) = none := by
  unfold find
  by_cases inside : position ≤ text.length
  · simp [inside]
  · have empty : text.drop position = [] :=
      List.drop_eq_nil_of_le (by omega)
    simp [inside, empty, indexOf, nonempty]

/--
A byte found from `position` cuts the rest of the text: what lies between
does not contain it.
-/
theorem find_singleton_cut
    {text : StdString} {byte : UInt8} {position offset : Nat}
    (found : find text [byte] position = some offset) :
    text.drop position =
        substrCount text position (offset - position) ++
          byte :: text.drop (offset + 1) ∧
      byte ∉ substrCount text position (offset - position) := by
  obtain ⟨ordered, located⟩ := (find_eq_some_iff (by simp)).mp found
  obtain ⟨before, after, cut, absent, length⟩ :=
    indexOf_singleton_eq_some_iff.mp located
  have token : substrCount text position (offset - position) = before := by
    rw [substrCount, cut, ← length, List.take_left]
  have rest : text.drop (offset + 1) = after := by
    have split : offset + 1 = position + (before.length + 1) := by omega
    rw [split, ← List.drop_drop, cut, ← List.drop_drop, List.drop_left]
    rfl
  exact ⟨by rw [token, rest, cut], token ▸ absent⟩

theorem drop_of_find_singleton
    {text : StdString} {byte : UInt8} {position offset : Nat}
    (found : find text [byte] position = some offset) :
    text.drop offset =
      byte :: after byte (text.drop position) := by
  obtain ⟨ordered, located⟩ := (find_eq_some_iff (by simp)).mp found
  rcases cut_of_indexOf_singleton located with ⟨-, -, rest⟩
  obtain ⟨front, back, cut, -, length⟩ :=
    indexOf_singleton_eq_some_iff.mp located
  have shift : offset = position + front.length := by omega
  rw [← rest, shift, ← List.drop_drop, cut, List.drop_left,
    Nat.add_sub_cancel_left, ← List.drop_drop, List.drop_left]
  rfl

/-- Searching from the beginning is the plain leftmost search. -/
@[simp]
theorem find_zero (text needle : StdString) :
    find text needle 0 = indexOf needle text := by
  simp [find]

@[simp]
theorem startsWith_iff (text start : StdString) :
    startsWith text start = true ↔ start <+: text := by
  simp [startsWith]

/-- Without a NUL nothing is lost. -/
theorem cStr_eq_self
    {text : StdString} (free : (0 : UInt8) ∉ text) :
    cStr text = text := by
  refine List.takeWhile_eq_self_iff.mpr ?_
  intro byte member
  simpa using fun zero : byte = 0 => free (zero ▸ member)

theorem cStr_append
    {front : StdString} (free : (0 : UInt8) ∉ front) (back : StdString) :
    cStr (front ++ back) = front ++ cStr back := by
  refine List.takeWhile_append_of_pos ?_
  intro byte member
  simpa using fun zero : byte = 0 => free (zero ▸ member)

/-- No NUL survives. -/
theorem zero_notMem_cStr (text : StdString) :
    (0 : UInt8) ∉ cStr text := by
  intro member
  simpa using List.mem_takeWhile_imp member

/--
Decimal digits are digits: every byte of `to_string` is one of
`0` to `9`, or a minus sign.
-/
theorem mem_ofNat
    {value : Nat} {byte : UInt8} (member : byte ∈ ofNat value) :
    48 ≤ byte ∧ byte ≤ 57 := by
  unfold ofNat at member
  split at member
  · have zero : byte = 48 := by simpa [ascii] using member
    subst zero
    decide
  · simp only [List.mem_map, List.mem_reverse] at member
    rcases member with ⟨digit, digitMember, rfl⟩
    have small : digit < 10 :=
      Nat.digits_lt_base (by norm_num) digitMember
    interval_cases digit <;> decide

/-- The decimal digits give the value back. -/
theorem ofDigits_ofNat (value : Nat) :
    Nat.ofDigits 10
        ((ofNat value).reverse.map fun byte => byte.toNat - 48) =
      value := by
  unfold ofNat
  split
  · next zero =>
    subst zero
    decide
  · rw [← List.map_reverse, List.reverse_reverse, List.map_map]
    have digits :
        (Nat.digits 10 value).map
            ((fun byte : UInt8 => byte.toNat - 48) ∘
              fun digit => UInt8.ofNat (48 + digit)) =
          Nat.digits 10 value := by
      conv_rhs => rw [← List.map_id (Nat.digits 10 value)]
      refine List.map_congr_left ?_
      intro digit member
      have small : digit < 10 :=
        Nat.digits_lt_base (by norm_num) member
      interval_cases digit <;> decide
    rw [digits, Nat.ofDigits_digits]

theorem ofNat_inj {first second : Nat} :
    ofNat first = ofNat second ↔ first = second := by
  constructor
  · intro same
    rw [← ofDigits_ofNat first, same, ofDigits_ofNat]
  · rintro rfl
    rfl

theorem mem_ofInt
    {value : Int} {byte : UInt8} (member : byte ∈ ofInt value) :
    byte = 45 ∨ 48 ≤ byte ∧ byte ≤ 57 := by
  cases value with
  | ofNat value => exact Or.inr (mem_ofNat member)
  | negSucc value =>
      simp only [ofInt, List.mem_append] at member
      rcases member with sign | digits
      · exact Or.inl (by simpa [ascii] using sign)
      · exact Or.inr (mem_ofNat digits)

end StdString

namespace StdMap

theorem getElem?_insert
    (map : StdMap) (key value probe : StdString) :
    (map.insert key value)[probe]? =
      if probe = key then some value else map[probe]? := by
  rw [Std.ExtTreeMap.getElem?_insert]
  by_cases same : probe = key
  · simp [same]
  · simp [same, Ne.symm same]

theorem getElem?_erase (map : StdMap) (key probe : StdString) :
    (map.erase key)[probe]? =
      if probe = key then none else map[probe]? := by
  rw [Std.ExtTreeMap.getElem?_erase]
  by_cases same : probe = key
  · simp [same]
  · simp [same, Ne.symm same]

/-- Writing the old value back undoes an insertion. -/
theorem insert_insert_restore
    {map : StdMap} {key saved : StdString}
    (held : map[key]? = some saved) (value : StdString) :
    (map.insert key value).insert key saved = map := by
  apply Std.ExtTreeMap.ext_getElem?
  intro probe
  by_cases same : probe = key
  · subst same
    simp [held]
  · simp [getElem?_insert, same]

/-- Erasing a fresh key undoes an insertion. -/
theorem erase_insert_restore
    {map : StdMap} {key : StdString}
    (fresh : map[key]? = none) (value : StdString) :
    (map.insert key value).erase key = map := by
  apply Std.ExtTreeMap.ext_getElem?
  intro probe
  by_cases same : probe = key
  · subst same
    simp [fresh]
  · simp [getElem?_erase, getElem?_insert, same]

theorem nodup_toList (map : StdMap) : map.toList.Nodup :=
  Std.ExtTreeMap.distinct_keys_toList.imp fun different same =>
    different (by simp [same])

/-! ### Sums over the entries -/

/-- The sum of a measure over all entries. -/
def sumEntries (measure : StdString × StdString → Nat) (map : StdMap) :
    Nat :=
  (map.toList.map measure).sum

theorem sumEntries_empty (measure : StdString × StdString → Nat) :
    sumEntries measure ∅ = 0 := by
  have empty : (∅ : StdMap).toList = [] :=
    Std.ExtTreeMap.toList_eq_nil_iff.mpr rfl
  rw [sumEntries, empty]
  rfl

theorem sumEntries_eq_sum_toFinset
    (measure : StdString × StdString → Nat) (map : StdMap) :
    sumEntries measure map = ∑ entry ∈ map.toList.toFinset, measure entry :=
  (List.sum_toFinset measure map.nodup_toList).symm

/-- An insertion adds at most the new entry. -/
theorem sumEntries_insert_le
    (measure : StdString × StdString → Nat) (map : StdMap)
    (key value : StdString) :
    sumEntries measure (map.insert key value) ≤
      measure (key, value) + sumEntries measure map := by
  have entries :
      (map.insert key value).toList.toFinset ⊆
        insert (key, value) map.toList.toFinset := by
    rintro ⟨probe, found⟩ member
    rw [List.mem_toFinset, Std.ExtTreeMap.mem_toList_iff_getElem?_eq_some,
      getElem?_insert] at member
    rw [Finset.mem_insert, List.mem_toFinset,
      Std.ExtTreeMap.mem_toList_iff_getElem?_eq_some]
    split at member
    · next same => exact Or.inl (by simpa [same] using member.symm)
    · exact Or.inr member
  rw [sumEntries_eq_sum_toFinset, sumEntries_eq_sum_toFinset]
  calc
    _ ≤ ∑ entry ∈ insert (key, value) map.toList.toFinset, measure entry :=
      Finset.sum_le_sum_of_subset entries
    _ ≤ _ := by
      by_cases inside : (key, value) ∈ map.toList.toFinset
      · rw [Finset.insert_eq_of_mem inside]
        exact Nat.le_add_left _ _
      · exact (Finset.sum_insert inside).le

/-! ### Writing a list of entries -/

/-- Write entries one after another. -/
def insertAll (map : StdMap) (entries : List (StdString × StdString)) :
    StdMap :=
  entries.foldl (fun map entry => map.insert entry.1 entry.2) map

theorem insertAll_cons
    (map : StdMap) (entry : StdString × StdString)
    (entries : List (StdString × StdString)) :
    insertAll map (entry :: entries) =
      insertAll (map.insert entry.1 entry.2) entries := rfl

/-- A key that is not written keeps its value. -/
theorem getElem?_insertAll_of_notMem
    {entries : List (StdString × StdString)} {key : StdString}
    (absent : key ∉ entries.map Prod.fst) (map : StdMap) :
    (insertAll map entries)[key]? = map[key]? := by
  induction entries generalizing map with
  | nil => rfl
  | cons entry entries induction =>
      rw [List.map_cons, List.mem_cons, not_or] at absent
      rw [insertAll_cons, induction absent.2, getElem?_insert,
        if_neg absent.1]

/-- What is written last stays. -/
theorem getElem?_insertAll_append_singleton
    (map : StdMap) (entries : List (StdString × StdString))
    (key value : StdString) :
    (insertAll map (entries ++ [(key, value)]))[key]? = some value := by
  rw [insertAll, List.foldl_append]
  exact (getElem?_insert _ key value key).trans (if_pos rfl)

/-- What the entries write, or else what was there. -/
theorem getElem?_insertAll
    (map : StdMap) (entries : List (StdString × StdString))
    (key : StdString) :
    (insertAll map entries)[key]? =
      ((insertAll ∅ entries)[key]?).or map[key]? := by
  induction entries generalizing map with
  | nil => simp [insertAll]
  | cons entry entries induction =>
      rw [insertAll_cons, insertAll_cons, induction (map.insert _ _),
        induction ((∅ : StdMap).insert _ _), getElem?_insert, getElem?_insert]
      by_cases own : key = entry.1
      · simp [own]
      · simp [own]

/-- A value comes from an entry or was there before. -/
theorem mem_of_getElem?_insertAll
    {map : StdMap} {entries : List (StdString × StdString)}
    {key value : StdString}
    (held : (insertAll map entries)[key]? = some value) :
    (key, value) ∈ entries ∨ map[key]? = some value := by
  induction entries generalizing map with
  | nil => exact Or.inr held
  | cons entry entries induction =>
      rcases induction held with later | here
      · exact Or.inl (List.mem_cons_of_mem _ later)
      · rw [getElem?_insert] at here
        split at here
        · next same =>
          obtain rfl := Option.some.inj here
          exact Or.inl (by simp [same])
        · exact Or.inr here

/-- Entries with distinct keys all keep their values. -/
theorem getElem?_insertAll_of_mem
    {entries : List (StdString × StdString)}
    (distinct : (entries.map Prod.fst).Nodup)
    {key value : StdString} (member : (key, value) ∈ entries)
    (map : StdMap) :
    (insertAll map entries)[key]? = some value := by
  induction entries generalizing map with
  | nil => cases member
  | cons entry entries induction =>
      rw [List.map_cons, List.nodup_cons] at distinct
      rw [insertAll_cons]
      rcases List.mem_cons.mp member with rfl | later
      · rw [getElem?_insertAll_of_notMem distinct.1, getElem?_insert,
          if_pos rfl]
      · exact induction distinct.2 later _

/-- Writing the entries of a map, in any order, gives the map. -/
theorem insertAll_of_perm
    {map : StdMap} {entries : List (StdString × StdString)}
    (same : entries.Perm map.toList) :
    insertAll ∅ entries = map := by
  have distinct : (entries.map Prod.fst).Nodup := by
    rw [(same.map Prod.fst).nodup_iff, Std.ExtTreeMap.map_fst_toList_eq_keys]
    exact Std.ExtTreeMap.nodup_keys
  have holds (key value : StdString) :
      (key, value) ∈ entries ↔ map[key]? = some value := by
    rw [same.mem_iff, Std.ExtTreeMap.mem_toList_iff_getElem?_eq_some]
  apply Std.ExtTreeMap.ext_getElem?
  intro probe
  ext value
  rw [← holds]
  constructor
  · intro held
    exact (mem_of_getElem?_insertAll held).resolve_right (by simp)
  · intro member
    exact getElem?_insertAll_of_mem distinct member ∅

end StdMap

/-! ## Letter case -/

/-- The lower case of an ASCII letter. -/
def lowerCase (byte : UInt8) : UInt8 :=
  if 65 ≤ byte ∧ byte ≤ 90 then byte + 32 else byte

/-- Texts that differ in the case of ASCII letters only. -/
def SameButCase (text text' : StdString) : Prop :=
  text.map lowerCase = text'.map lowerCase

instance (text text' : StdString) : Decidable (SameButCase text text') :=
  inferInstanceAs (Decidable (_ = _))

theorem SameButCase.length_eq
    {text text' : StdString} (same : SameButCase text text') :
    text.length = text'.length := by
  simpa using congrArg List.length same

end PlusWeb
