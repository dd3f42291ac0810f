import PlusWeb.HandleRequest
import PlusWeb.Library.LineBlock

/-!
# The head of a response, read back

`setHeader` stores and `serialize` copies bytes unchecked.  A reader of the
head splits it at CRLF and stops at the first empty line.  What it sees is
the status line and one line per entry of the headers map exactly if no
name and no value in the map contains CRLF.
-/

namespace PlusWeb

open LineBlock

variable {J : Type} [Json J]

/-- The text does not contain CRLF. -/
abbrev CrlfFree (text : StdString) : Prop := Free 13 10 text

/-- Read the lines of a head up to the first blank line. -/
def readHead (bytes : StdString) : Option (List StdString × StdString) :=
  LineBlock.read 13 10 [] bytes

namespace HttpResponse

omit [Json J] in
theorem headSection_eq_write (response : HttpResponse J) (memory : Int) :
    response.headSection memory =
      LineBlock.write 13 10 (response.headLines memory) := rfl

omit [Json J] in
/-- A header line is free exactly if its name and its value are. -/
theorem crlfFree_headerLine (name value : StdString) :
    CrlfFree (headerLine (name, value)) ↔
      CrlfFree name ∧ CrlfFree value := by
  have cut : headerLine (name, value) = name ++ 58 :: ([] ++ 32 :: value) := by
    simp [headerLine, ascii]
  rw [CrlfFree, cut, free_append_cons (by decide) (by decide),
    free_append_cons (by decide) (by decide)]
  simp [free_nil]

theorem cr_notMem_getResponseMessage (status : Int) :
    (13 : UInt8) ∉ getResponseMessage status := by
  have table :
      ∀ entry ∈ defaultResponseCodes, (13 : UInt8) ∉ ascii entry.2 := by
    decide +kernel
  unfold getResponseMessage
  cases found : defaultResponseCodes.lookup status with
  | none => decide
  | some message =>
      rcases List.lookup_eq_some_iff.mp found with ⟨front, back, cut, -⟩
      exact table (status, message) (by rw [cut]; simp)

omit [Json J] in
/-- The status line `handleRequest` starts from is one line. -/
theorem crlfFree_statusLine
    {response : HttpResponse J}
    (protocol : response.protocol = ascii "HTTP/1.1") (memory : Int) :
    CrlfFree (response.statusLine memory) := by
  refine free_of_notMem ?_
  have digits : (13 : UInt8) ∉
      StdString.ofInt (response.status.getD memory) := by
    intro member
    rcases StdString.mem_ofInt member with sign | digit
    · simp at sign
    · exact absurd digit.1 (by decide)
  have parts : (13 : UInt8) ∉ ascii "HTTP/1.1" ∧ (13 : UInt8) ∉ ascii " " := by
    decide
  simp [statusLine, protocol, digits, parts,
    cr_notMem_getResponseMessage]

omit [Json J] in
theorem headLines_ne_nil
    (response : HttpResponse J) (memory : Int) :
    ∀ line ∈ response.headLines memory, line ≠ [] := by
  intro line member
  rcases List.mem_cons.mp member with rfl | header
  · simp [statusLine, ascii]
  · rcases List.mem_map.mp header with ⟨entry, -, rfl⟩
    simp [headerLine, ascii]

end HttpResponse

/-- The response after `status` and a sequence of `setHeader` calls. -/
def headersSet
    (status : Int) (pairs : List (StdString × StdString)) :
    HttpResponse J :=
  pairs.foldl (fun response pair => response.setHeader pair.1 pair.2)
    (HttpResponse.fresh.setStatus status)

omit [Json J] in
theorem foldl_setHeader_protocol
    (pairs : List (StdString × StdString)) (response : HttpResponse J) :
    (pairs.foldl
        (fun response pair => response.setHeader pair.1 pair.2)
        response).protocol = response.protocol := by
  induction pairs generalizing response with
  | nil => rfl
  | cons pair pairs induction =>
      rw [List.foldl_cons, induction]
      rfl

/--
The head of a response decodes to the status line and the stored headers,
one line each and nothing else, exactly if no stored name or value contains
CRLF.
-/
theorem readHead_iff
    (status : Int) (pairs : List (StdString × StdString))
    {memory : Int} {splitAbove : Nat} {includeBody : Bool}
    {head body : StdString}
    (serialized :
      (headersSet status pairs : HttpResponse J).serialize memory splitAbove
          includeBody =
        .ok (head, body)) :
    (∃ text, head ++ body =
          (headersSet status pairs : HttpResponse J).headSection memory ++
            text ∧
        readHead (head ++ body) =
          some
            ((headersSet status pairs : HttpResponse J).statusLine memory ::
              (headersSet status pairs : HttpResponse J).headers.toList.map
                HttpResponse.headerLine, text)) ↔
      ∀ entry ∈ (headersSet status pairs : HttpResponse J).headers.toList,
        CrlfFree entry.1 ∧ CrlfFree entry.2 := by
  generalize made : (headersSet status pairs : HttpResponse J) = response
    at serialized ⊢
  have protocol : response.protocol = ascii "HTTP/1.1" := by
    rw [← made, headersSet, foldl_setHeader_protocol]
    rfl
  obtain ⟨text, -, -, cut⟩ := HttpResponse.serialize_sections serialized
  have decoded :=
    read_write_iff (by decide : (13 : UInt8) ≠ 10)
      (response.headLines_ne_nil memory) text
  rw [← HttpResponse.headSection_eq_write, ← cut] at decoded
  have lines :
      (∀ line ∈ response.headLines memory, CrlfFree line) ↔
        ∀ entry ∈ response.headers.toList,
          CrlfFree entry.1 ∧ CrlfFree entry.2 := by
    simp only [HttpResponse.headLines, List.forall_mem_cons,
      List.forall_mem_map, ← HttpResponse.crlfFree_headerLine,
      HttpResponse.crlfFree_statusLine protocol memory, true_and]
  rw [← lines, ← decoded]
  constructor
  · rintro ⟨text', cut', found⟩
    rw [cut, List.append_cancel_left_eq] at cut'
    subst cut'
    exact found
  · exact fun found => ⟨text, cut, found⟩

/-- A plain header comes back as one line. -/
theorem readHead_plain :
    ∃ text,
      readHead
          ((headersSet 200 [(ascii "X-Id", ascii "7")] :
            HttpResponse FlatJson).headSection 0) =
        some ([ascii "HTTP/1.1 200 OK", ascii "X-Id: 7"], text) := by
  have serialized :
      (headersSet 200 [(ascii "X-Id", ascii "7")] :
          HttpResponse FlatJson).serialize 0 0 false =
        .ok
          ((headersSet 200 [(ascii "X-Id", ascii "7")] :
            HttpResponse FlatJson).headSection 0, []) := rfl
  obtain ⟨text, -, found⟩ := (readHead_iff 200 _ serialized).mpr (by
    intro entry member
    have only : entry = (ascii "X-Id", ascii "7") := by
      have all :
          ∀ entry ∈
            (headersSet 200 [(ascii "X-Id", ascii "7")] :
              HttpResponse FlatJson).headers.toList,
            entry = (ascii "X-Id", ascii "7") := by
        decide +kernel
      exact all entry member
    subst only
    exact ⟨free_of_notMem (by decide), free_of_notMem (by decide)⟩)
  have lines :
      (headersSet 200 [(ascii "X-Id", ascii "7")] :
            HttpResponse FlatJson).statusLine 0 ::
          (headersSet 200 [(ascii "X-Id", ascii "7")] :
            HttpResponse FlatJson).headers.toList.map
              HttpResponse.headerLine =
        [ascii "HTTP/1.1 200 OK", ascii "X-Id: 7"] := by
    decide +kernel
  rw [List.append_nil, lines] at found
  exact ⟨text, found⟩

/-- A value with CRLF in it adds a header line of its own. -/
theorem readHead_split :
    readHead
        ((headersSet 200 [(ascii "X-Id", ascii "7\r\nSet-Cookie: a=b")] :
          HttpResponse FlatJson).headSection 0) =
      some
        ([ascii "HTTP/1.1 200 OK", ascii "X-Id: 7",
          ascii "Set-Cookie: a=b"], []) ∧
      (headersSet 200 [(ascii "X-Id", ascii "7\r\nSet-Cookie: a=b")] :
        HttpResponse FlatJson).headers.toList.length = 1 := by
  decide +kernel

end PlusWeb
