import PlusWeb.Utils

/-!
# The percent codec

`urlEncode` writes through a string stream whose base, letter case and fill
character stay set after the first escape.  What it writes is read back by
`url_decode` byte for byte.

`url_decode` tests the two bytes after a `%` against NUL only.  A round of
its loop consumes one to three bytes and writes at most one, so a `%` before
two bytes of any kind swallows them and writes a byte that was never sent.
It decodes faithfully exactly if each `%` before two bytes other than NUL is
before two hexadecimal digits.
-/

namespace PlusWeb.Utils

/-! ## The stream of `urlEncode` -/

/--
`std::ostringstream`: the text and the formatting state.  Output resets
the width and keeps the rest.
-/
structure OutStream where
  text : StdString
  hex : Bool
  uppercase : Bool
  fill : UInt8
  width : Nat

namespace OutStream

def new : OutStream where
  text := []
  hex := false
  uppercase := false
  fill := 32
  width := 0

/-- Write a text with the fill character in front, up to the width. -/
def padded (text : StdString) (stream : OutStream) : OutStream :=
  { stream with
    text :=
      stream.text ++
        List.replicate (stream.width - text.length) stream.fill ++ text
    width := 0 }

/-- The digits of a number in the base of the stream. -/
def digits (value : Nat) (stream : OutStream) : StdString :=
  (Nat.toDigits (if stream.hex then 16 else 10) value).map fun digit =>
    let digit := UInt8.ofNat digit.toNat
    if stream.uppercase ∧ 97 ≤ digit then digit - 32 else digit

/-- `stream << char`. -/
def putChar (c : UInt8) (stream : OutStream) : OutStream :=
  stream.padded [c]

/-- `stream << int`, for a number that is not negative. -/
def putInt (value : Nat) (stream : OutStream) : OutStream :=
  stream.padded (stream.digits value)

/-- `std::uppercase << std::hex << std::setw(2) << std::setfill('0')`. -/
def formatEscape (stream : OutStream) : OutStream :=
  { stream with uppercase := true, hex := true, width := 2, fill := 48 }

end OutStream

/-- One round of the loop of `urlEncode`. -/
def encodeRound (encoded : OutStream) (c : UInt8) : OutStream :=
  if unreserved c then encoded.putChar c
  else (encoded.putChar 37).formatEscape.putInt c.toNat

/-- A byte in the format of an escape is two upper-case digits. -/
theorem padded_digits :
    ∀ c : UInt8,
      (OutStream.new.formatEscape.putInt c.toNat).text =
        [hexDigit (c >>> 4), hexDigit (c &&& 15)] := by
  decide +kernel

/--
The formatting state an escape leaves behind does not show in what
follows.
-/
theorem foldl_encodeRound
    (input : StdString) {encoded : OutStream} (narrow : encoded.width = 0) :
    (input.foldl encodeRound encoded).text =
      encoded.text ++ urlEncode input := by
  have char (c : UInt8) {stream : OutStream} (narrow : stream.width = 0) :
      (stream.putChar c).text = stream.text ++ [c] := by
    simp [OutStream.putChar, OutStream.padded, narrow]
  induction input generalizing encoded with
  | nil => simp [urlEncode]
  | cons c input induction =>
      rw [List.foldl_cons]
      by_cases copied : unreserved c = true
      · rw [encodeRound, if_pos copied, induction rfl, char c narrow]
        simp [urlEncode, copied]
      · have escape :
            (encodeRound encoded c).text =
              encoded.text ++ [37, hexDigit (c >>> 4), hexDigit (c &&& 15)] := by
          rw [encodeRound, if_neg copied, ← padded_digits c]
          show
            (encoded.putChar 37).text ++ _ ++ _ = encoded.text ++ 37 :: _
          rw [char 37 narrow, List.append_assoc, List.append_assoc]
          rfl
        have wide : (encodeRound encoded c).width = 0 := by
          rw [encodeRound, if_neg copied]
          rfl
        rw [induction wide, escape]
        simp [urlEncode, copied]

/-- The stream of `urlEncode` ends up with what the model computes. -/
theorem urlEncode_eq_stream (input : StdString) :
    (input.foldl encodeRound OutStream.new).text = urlEncode input :=
  foldl_encodeRound input rfl

/-! ## Encoding -/

/-- The bytes an encoded text consists of. -/
def encodedBytes : StdString :=
  ascii "ABCDEFGHIJKLMNOPQRSTUVWXYZ" ++ ascii "abcdefghijklmnopqrstuvwxyz" ++
    ascii "0123456789-._~%"

/-- The upper-case hexadecimal digits. -/
def upperHexDigits : StdString := ascii "0123456789ABCDEF"

theorem mem_encodedBytes_of_unreserved :
    ∀ c : UInt8, unreserved c = true → c ∈ encodedBytes := by
  decide +kernel

theorem escape_digits :
    ∀ c : UInt8,
      hexDigit (c >>> 4) ∈ upperHexDigits ∧
        hexDigit (c &&& 15) ∈ upperHexDigits := by
  decide +kernel

theorem upperHexDigits_plain :
    ∀ c ∈ upperHexDigits, c ≠ 37 ∧ c ∈ encodedBytes := by
  decide +kernel

theorem mem_encodedBytes {text : StdString} {c : UInt8}
    (member : c ∈ urlEncode text) : c ∈ encodedBytes := by
  rcases List.mem_flatMap.mp member with ⟨byte, -, own⟩
  split_ifs at own with copied
  · rw [List.mem_singleton.mp own]
    exact mem_encodedBytes_of_unreserved byte copied
  · rcases escape_digits byte with ⟨high, low⟩
    rcases List.mem_cons.mp own with rfl | own
    · decide +kernel
    · rcases List.mem_cons.mp own with rfl | own
      · exact (upperHexDigits_plain _ high).2
      · rw [List.mem_singleton.mp own]
        exact (upperHexDigits_plain _ low).2

/-- Each `%` of an encoded text is followed by its digits. -/
theorem digits_of_urlEncode
    {text front back : StdString}
    (split : urlEncode text = front ++ 37 :: back) :
    ∃ high ∈ upperHexDigits, ∃ low ∈ upperHexDigits, ∃ rest,
      back = high :: low :: rest := by
  induction text generalizing front with
  | nil => simp [urlEncode] at split
  | cons c text induction =>
      rw [urlEncode, List.flatMap_cons] at split
      change _ ++ urlEncode text = _ at split
      split_ifs at split with copied
      · cases front with
        | nil =>
            have same := (List.cons.inj split).1
            exact absurd same (unreserved_plain c copied).1
        | cons first front => exact induction (List.cons.inj split).2
      · rcases escape_digits c with ⟨high, low⟩
        have digit {byte : UInt8} (own : byte ∈ upperHexDigits) :
            byte ≠ 37 :=
          (upperHexDigits_plain byte own).1
        cases front with
        | nil =>
            exact
              ⟨_, high, _, low, urlEncode text, (List.cons.inj split).2.symm⟩
        | cons first front =>
            have split := (List.cons.inj split).2
            cases front with
            | nil => exact absurd (List.cons.inj split).1 (digit high)
            | cons second front =>
                have split := (List.cons.inj split).2
                cases front with
                | nil => exact absurd (List.cons.inj split).1 (digit low)
                | cons third front =>
                    exact induction (List.cons.inj split).2

/--
Decoding gives back what was encoded, and an encoded text has nothing but
unreserved bytes and escapes.
-/
theorem percent_round_trip (text : StdString) :
    urlDecode (urlEncode text) = text ∧
      (∀ c ∈ urlEncode text, c ∈ encodedBytes) ∧
      ∀ front back, urlEncode text = front ++ 37 :: back →
        ∃ high ∈ upperHexDigits, ∃ low ∈ upperHexDigits, ∃ rest,
          back = high :: low :: rest := by
  refine
    ⟨?_, fun c => mem_encodedBytes, fun front back => digits_of_urlEncode⟩
  have decoded := urlDecode_urlEncode_append text []
  simpa [urlDecode] using decoded

/-! ## Decoding, round by round -/

/-- What a round of the loop of `url_decode` does with the byte it meets. -/
inductive Round where
  | escape (first second : UInt8)
  | dropped
  | plus
  | copied (c : UInt8)
deriving DecidableEq, Repr

namespace Round

/-- The bytes the cursor passes. -/
def consumed : Round → StdString
  | .escape first second => [37, first, second]
  | .dropped => [37]
  | .plus => [43]
  | .copied c => [c]

/-- The bytes written. -/
def written : Round → StdString
  | .escape first second => [fromHex first <<< 4 ||| fromHex second]
  | .dropped => []
  | .plus => [32]
  | .copied c => [c]

end Round

/-- The rounds of `url_decode`. -/
def rounds : StdString → List Round
  | [] => []
  | c :: rest =>
      if c = 37 then
        match rest with
        | first :: second :: later =>
            if first ≠ 0 ∧ second ≠ 0 then
              .escape first second :: rounds later
            else .dropped :: rounds (first :: second :: later)
        | [last] => .dropped :: rounds [last]
        | [] => [.dropped]
      else if c = 43 then .plus :: rounds rest
      else .copied c :: rounds rest

theorem rounds_consumed (text : StdString) :
    (rounds text).flatMap Round.consumed = text := by
  fun_induction rounds text with
  | case1 => rfl
  | case2 first second later visible induction =>
      simp [Round.consumed, induction]
  | case3 first second later hidden induction =>
      simp [Round.consumed, induction]
  | case4 last induction => simp [Round.consumed, induction]
  | case5 => rfl
  | case6 rest _ induction => simp [Round.consumed, induction]
  | case7 c rest _ _ induction => simp [Round.consumed, induction]

theorem rounds_written (text : StdString) :
    (rounds text).flatMap Round.written = urlDecode text := by
  fun_induction rounds text with
  | case1 => rfl
  | case2 first second later visible induction =>
      rw [urlDecode.eq_def]
      simp [Round.written, induction, visible.1, visible.2]
  | case3 first second later hidden induction =>
      rw [urlDecode.eq_def]
      simp only [↓reduceIte, hidden]
      exact induction
  | case4 last induction =>
      rw [urlDecode.eq_def]
      simp [Round.written, induction]
  | case5 => rfl
  | case6 rest _ induction =>
      rw [urlDecode.eq_def]
      simp [Round.written, induction]
  | case7 c rest percent plus induction =>
      rw [urlDecode.eq_def]
      simp [Round.written, induction, percent, plus]

/-- A hexadecimal digit, in either case. -/
def isHexDigit (c : UInt8) : Bool :=
  (48 ≤ c && c ≤ 57) || (65 ≤ c && c ≤ 70) || (97 ≤ c && c ≤ 102)

/-- The value of a hexadecimal digit. -/
def hexValue (c : UInt8) : UInt8 :=
  if c ≤ 57 then c - 48 else if c ≤ 70 then c - 55 else c - 87

/-- Two hexadecimal digits and the byte they stand for. -/
theorem fromHex_eq_hexValue :
    ∀ c : UInt8, isHexDigit c = true → fromHex c = hexValue c := by
  decide +kernel

/-- A text begins with two hexadecimal digits. -/
def StartsEscape (text : StdString) : Prop :=
  ∃ first second later, text = first :: second :: later ∧
    isHexDigit first = true ∧ isHexDigit second = true

/--
What is asked of a round and the text behind it: an escape is one of two
hexadecimal digits and writes the byte they stand for, and a `%` is dropped
only if none begins.
-/
def Round.Faithful (behind : StdString) : Round → Prop
  | .escape first second => isHexDigit first = true ∧
      isHexDigit second = true ∧
      fromHex first <<< 4 ||| fromHex second =
        hexValue first <<< 4 ||| hexValue second
  | .dropped => ¬ StartsEscape behind
  | .plus => True
  | .copied c => c ≠ 37 ∧ c ≠ 43

/-- What is asked of the decoding of a text. -/
structure DecodesFaithfully (text : StdString) : Prop where
  rounds : ∀ front round back, rounds text = front ++ round :: back →
    round.Faithful (back.flatMap Round.consumed)
  /--
  Each byte written is one of the text, the space of a `+`, or that of
  an escape of two hexadecimal digits.
  -/
  fabricates : ∀ byte ∈ urlDecode text,
    byte ∈ text ∨ byte = 32 ∧ (43 : UInt8) ∈ text ∨
      ∃ first second, isHexDigit first = true ∧ isHexDigit second = true ∧
        [37, first, second] <:+: text ∧
        byte = hexValue first <<< 4 ||| hexValue second
  /-- No `?`, `&` or `/` disappears. -/
  keeps : ∀ delimiter ∈ ascii "?&/",
    text.count delimiter ≤ (urlDecode text).count delimiter

/--
Each `%` before two bytes other than NUL is before two hexadecimal
digits.
-/
def EscapesAreHex (text : StdString) : Prop :=
  ∀ front first second back, text = front ++ 37 :: first :: second :: back →
    first ≠ 0 → second ≠ 0 →
    isHexDigit first = true ∧ isHexDigit second = true

theorem EscapesAreHex.tail
    {c : UInt8} {rest : StdString} (hex : EscapesAreHex (c :: rest)) :
    EscapesAreHex rest :=
  fun front first second back split =>
    hex (c :: front) first second back (by rw [split]; rfl)

/-- A byte that begins no escape does not matter. -/
theorem escapesAreHex_cons_iff
    {c : UInt8} {rest : StdString}
    (skips : ∀ first second back,
      c :: rest = 37 :: first :: second :: back → ¬ (first ≠ 0 ∧ second ≠ 0)) :
    EscapesAreHex (c :: rest) ↔ EscapesAreHex rest := by
  constructor
  · exact EscapesAreHex.tail
  · intro hex front first second back split notNul notNul'
    cases front with
    | nil => exact absurd ⟨notNul, notNul'⟩ (skips first second back split)
    | cons _ front =>
        exact
          hex front first second back (List.cons.inj split).2 notNul notNul'

/-- The digits of an escape begin none. -/
theorem escapesAreHex_escape_iff
    {first second : UInt8} (visible : first ≠ 0 ∧ second ≠ 0)
    (later : StdString) :
    EscapesAreHex (37 :: first :: second :: later) ↔
      (isHexDigit first = true ∧ isHexDigit second = true) ∧
        EscapesAreHex later := by
  have noDigit {c : UInt8} (digit : isHexDigit c = true) : c ≠ 37 := by
    rintro rfl
    cases digit
  constructor
  · intro hex
    exact
      ⟨hex [] first second later rfl visible.1 visible.2,
        hex.tail.tail.tail⟩
  · rintro ⟨⟨firstHex, secondHex⟩, hex⟩
    have behind : EscapesAreHex (first :: second :: later) := by
      rw [escapesAreHex_cons_iff, escapesAreHex_cons_iff]
      · exact hex
      · intro _ _ _ split
        exact absurd (List.cons.inj split).1 (noDigit secondHex)
      · intro _ _ _ split
        exact absurd (List.cons.inj split).1 (noDigit firstHex)
    intro front other other' back split notNul notNul'
    cases front with
    | nil =>
        rcases List.cons.inj (List.cons.inj split).2 with ⟨rfl, digits⟩
        rcases List.cons.inj digits with ⟨rfl, -⟩
        exact ⟨firstHex, secondHex⟩
    | cons _ front =>
        exact
          behind front other other' back (List.cons.inj split).2 notNul
            notNul'

/--
The cursor meets each `%` as long as the escapes before it are
hexadecimal.
-/
theorem escapesAreHex_iff (text : StdString) :
    EscapesAreHex text ↔
      ∀ first second, Round.escape first second ∈ rounds text →
        isHexDigit first = true ∧ isHexDigit second = true := by
  fun_induction rounds text with
  | case1 => simp [EscapesAreHex]
  | case2 first second later visible induction =>
      rw [escapesAreHex_escape_iff visible, induction]
      simp only [List.mem_cons, Round.escape.injEq]
      constructor
      · rintro ⟨own, below⟩ other other' (⟨rfl, rfl⟩ | member)
        · exact own
        · exact below other other' member
      · intro all
        exact
          ⟨all first second (Or.inl ⟨rfl, rfl⟩),
            fun other other' member => all other other' (Or.inr member)⟩
  | case3 first second later hidden induction =>
      rw [escapesAreHex_cons_iff, induction]
      · simp
      · intro other other' back split
        rcases List.cons.inj (List.cons.inj split).2 with ⟨rfl, digits⟩
        rcases List.cons.inj digits with ⟨rfl, -⟩
        exact hidden
  | case4 last induction =>
      rw [escapesAreHex_cons_iff, induction]
      · simp
      · intro other other' back split
        cases (List.cons.inj (List.cons.inj split).2).2
  | case5 =>
      rw [escapesAreHex_cons_iff]
      · simp [EscapesAreHex]
      · intro other other' back split
        cases (List.cons.inj split).2
  | case6 rest percent induction =>
      rw [escapesAreHex_cons_iff, induction]
      · simp
      · intro other other' back split
        exact absurd (List.cons.inj split).1 percent
  | case7 c rest percent plus induction =>
      rw [escapesAreHex_cons_iff, induction]
      · simp
      · intro other other' back split
        exact absurd (List.cons.inj split).1 percent

/-- A `%` is dropped only if fewer than two bytes other than NUL follow. -/
theorem not_startsEscape_of_dropped
    {text : StdString} {front back : List Round}
    (split : rounds text = front ++ .dropped :: back) :
    ¬ StartsEscape (back.flatMap Round.consumed) := by
  have visible {c : UInt8} (digit : isHexDigit c = true) : c ≠ 0 := by
    rintro rfl
    cases digit
  fun_induction rounds text generalizing front with
  | case1 => cases front <;> cases split
  | case2 first second later _ induction =>
      cases front with
      | nil => cases split
      | cons _ front => exact induction (List.cons.inj split).2
  | case3 first second later hidden induction =>
      cases front with
      | nil =>
          rw [← (List.cons.inj split).2, rounds_consumed]
          rintro ⟨one, two, rest, same, oneHex, twoHex⟩
          rcases List.cons.inj same with ⟨rfl, digits⟩
          rcases List.cons.inj digits with ⟨rfl, -⟩
          exact hidden ⟨visible oneHex, visible twoHex⟩
      | cons _ front => exact induction (List.cons.inj split).2
  | case4 last induction =>
      cases front with
      | nil =>
          rw [← (List.cons.inj split).2, rounds_consumed]
          rintro ⟨one, two, rest, same, -, -⟩
          cases (List.cons.inj same).2
      | cons _ front => exact induction (List.cons.inj split).2
  | case5 =>
      cases front with
      | nil =>
          rw [← (List.cons.inj split).2]
          rintro ⟨one, two, rest, same, -, -⟩
          cases same
      | cons _ front => cases front <;> cases (List.cons.inj split).2
  | case6 rest _ induction =>
      cases front with
      | nil => cases split
      | cons _ front => exact induction (List.cons.inj split).2
  | case7 c rest _ _ induction =>
      cases front with
      | nil => cases split
      | cons _ front => exact induction (List.cons.inj split).2

theorem plain_of_copied
    {text : StdString} {c : UInt8} (member : Round.copied c ∈ rounds text) :
    c ≠ 37 ∧ c ≠ 43 := by
  fun_induction rounds text with
  | case1 => cases member
  | case2 _ _ _ _ induction =>
      exact induction ((List.mem_cons.mp member).resolve_left nofun)
  | case3 _ _ _ _ induction =>
      exact induction ((List.mem_cons.mp member).resolve_left nofun)
  | case4 _ induction =>
      exact induction ((List.mem_cons.mp member).resolve_left nofun)
  | case5 => exact absurd (List.mem_singleton.mp member) nofun
  | case6 _ _ induction =>
      exact induction ((List.mem_cons.mp member).resolve_left nofun)
  | case7 _ _ percent plus induction =>
      rcases List.mem_cons.mp member with own | below
      · obtain rfl := Round.copied.inj own
        exact ⟨percent, plus⟩
      · exact induction below

/-- The bytes of a round stand together in the text. -/
theorem consumed_infix
    {text : StdString} {round : Round} (member : round ∈ rounds text) :
    round.consumed <:+: text := by
  rcases List.append_of_mem member with ⟨front, back, split⟩
  rw [← rounds_consumed text, split, List.flatMap_append,
    List.flatMap_cons]
  exact ⟨front.flatMap Round.consumed, back.flatMap Round.consumed, by simp⟩

/--
The decoding of a text is faithful exactly if each `%` before two bytes
other than NUL is before two hexadecimal digits.
-/
theorem decodesFaithfully_iff (text : StdString) :
    DecodesFaithfully text ↔ EscapesAreHex text := by
  rw [escapesAreHex_iff]
  constructor
  · intro faithful first second member
    rcases List.append_of_mem member with ⟨front, back, split⟩
    obtain ⟨firstHex, secondHex, -⟩ :=
      faithful.rounds front (.escape first second) back split
    exact ⟨firstHex, secondHex⟩
  intro hex
  have value {first second : UInt8}
      (member : Round.escape first second ∈ rounds text) :
      fromHex first <<< 4 ||| fromHex second =
        hexValue first <<< 4 ||| hexValue second := by
    rcases hex first second member with ⟨firstHex, secondHex⟩
    rw [fromHex_eq_hexValue first firstHex,
      fromHex_eq_hexValue second secondHex]
  constructor
  · intro front round back split
    have member : round ∈ rounds text := by
      rw [split]
      simp
    cases round with
    | escape first second =>
        rcases hex first second member with ⟨firstHex, secondHex⟩
        exact ⟨firstHex, secondHex, value member⟩
    | dropped => exact not_startsEscape_of_dropped split
    | plus => trivial
    | copied c => exact plain_of_copied member
  · intro byte written
    rw [← rounds_written] at written
    rcases List.mem_flatMap.mp written with ⟨round, member, own⟩
    have inside := consumed_infix member
    cases round with
    | escape first second =>
        rcases hex first second member with ⟨firstHex, secondHex⟩
        obtain rfl := List.mem_singleton.mp own
        exact
          Or.inr
            (Or.inr
              ⟨first, second, firstHex, secondHex, inside, value member⟩)
    | dropped => cases own
    | plus =>
        obtain rfl := List.mem_singleton.mp own
        exact
          Or.inr (Or.inl ⟨rfl, inside.subset (List.mem_singleton.mpr rfl)⟩)
    | copied c =>
        exact Or.inl (inside.subset own)
  · intro delimiter own
    have plain :
        ∀ delimiter ∈ ascii "?&/",
          delimiter ≠ 37 ∧ delimiter ≠ 43 ∧ isHexDigit delimiter = false := by
      decide +kernel
    rcases plain delimiter own with ⟨noPercent, noPlus, noDigit⟩
    have different {c : UInt8} (digit : isHexDigit c = true) :
        c ≠ delimiter := by
      rintro rfl
      rw [noDigit] at digit
      cases digit
    have each : ∀ round ∈ rounds text,
        round.consumed.count delimiter ≤ round.written.count delimiter := by
      intro round member
      cases round with
      | escape first second =>
          rcases hex first second member with ⟨firstHex, secondHex⟩
          simp [Round.consumed, noPercent.symm, different firstHex,
            different secondHex]
      | dropped => simp [Round.consumed, noPercent.symm]
      | plus => simp [Round.consumed, noPlus.symm]
      | copied c => exact le_rfl
    calc
      text.count delimiter =
          ((rounds text).flatMap Round.consumed).count delimiter := by
        rw [rounds_consumed]
      _ ≤ ((rounds text).flatMap Round.written).count delimiter := by
        rw [List.count_flatMap, List.count_flatMap]
        exact List.sum_le_sum each
      _ = (urlDecode text).count delimiter := by rw [rounds_written]

/-- A `%` before a slash swallows it. -/
theorem decodes_slash :
    ¬ ∀ text : StdString, DecodesFaithfully text := by
  intro claim
  have kept := (claim (ascii "/a%/b")).keeps slash (by decide)
  exact absurd kept (by decide +kernel)

end PlusWeb.Utils
