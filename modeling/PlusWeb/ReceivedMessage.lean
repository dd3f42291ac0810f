import PlusWeb.TrailerFields
import PlusWeb.WasmTotality

/-!
# Headers and body of a request, compared with the message

The headers of a request are the fields of its message, the last value of
each name, but looking up the content type of a body adds an empty
`Content-Type` to a message that has none.

The raw body is what was received, but a JSON body is printed again from its
parsed value.  It is the same bytes exactly if they are what `dump` prints.
-/

namespace PlusWeb

/-- What is written last under a key is the last entry of that key. -/
theorem StdMap.getElem?_insertAll_eq_lookup
    (entries : List (StdString × StdString)) (key : StdString) :
    (insertAll ∅ entries)[key]? = entries.reverse.lookup key := by
  induction entries using List.reverseRecOn with
  | nil => simp [insertAll]
  | append_singleton entries entry induction =>
      rcases entry with ⟨name, value⟩
      have last :
          insertAll ∅ (entries ++ [(name, value)]) =
            (insertAll ∅ entries).insert name value :=
        List.foldl_append ..
      rw [last, getElem?_insert, induction, List.reverse_append]
      by_cases own : key = name
      · simp [own]
      · have other : (key == name) = false := beq_false_of_ne own
        simp [own, List.lookup_cons, other]

namespace ReportedMessage

/-! ## Headers -/

/-- The value of the last field of a name. -/
def lastValue (message : ReportedMessage) (name : StdString) :
    Option StdString :=
  (message.fields.map ReportedField.entry).reverse.lookup name

theorem headerSection_eq (message : ReportedMessage) (name : StdString) :
    message.headerSection[name]? = message.lastValue name :=
  StdMap.getElem?_insertAll_eq_lookup _ name

theorem lastValue_eq_none_iff
    (message : ReportedMessage) (name : StdString) :
    message.lastValue name = none ↔
      ∀ field ∈ message.fields, field.name.flatten ≠ name := by
  simp only [lastValue, List.lookup_eq_none_iff, List.mem_reverse,
    List.forall_mem_map, ReportedField.entry, bne_iff_ne]
  constructor
  · intro apart field member
    exact (apart field member).symm
  · intro apart field member
    exact (apart field member).symm

/-- There is a content type for the body, if there is one. -/
def TypedBody (message : ReportedMessage) : Prop :=
  message.body.flatten ≠ [] →
    ∃ field ∈ message.fields, field.name.flatten = ascii "Content-Type"

end ReportedMessage

section Headers

variable {J : Type} [Json J] {llhttp : Llhttp}

/--
Without trailers, the handler is given exactly the headers received if
and only if a message with a body has a content type.
-/
theorem headers_as_received_iff
    (llhttp : Llhttp) (maxHeaderBytes : Nat) {chunks : List StdString}
    {messages : List ReportedMessage} {rest : List Callback}
    (reports : llhttp.Reports chunks messages rest)
    {position : Nat} {message : ReportedMessage}
    (placed : messages[position]? = some message)
    (noTrailers : message.trailers = [])
    {given : HttpRequest J × Bool}
    (delivered :
      (deliveries J llhttp maxHeaderBytes chunks)[position]? = some given) :
    (∀ name : StdString, given.1.headers[name]? = message.lastValue name) ↔
      message.TypedBody := by
  rw [deliveries_of_reports reports] at delivered
  have reached := outcome_of_delivery delivered placed
  have headers (name : StdString) :
      given.1.headers[name]? =
        (message.lastValue name).or
          (if name = ascii "Content-Type" ∧ message.body.flatten ≠ [] then
              some []
            else none) := by
    have committed : message.committedTrailers[name]? = none := by
      simp [ReportedMessage.committedTrailers, noTrailers, StdMap.insertAll]
    rw [ReportedMessage.headers_of_outcome reached, committed,
      message.headerSection_eq]
    rfl
  constructor
  · intro same body
    by_contra untyped
    have absent : message.lastValue (ascii "Content-Type") = none := by
      rw [ReportedMessage.lastValue_eq_none_iff]
      intro field member own
      exact untyped ⟨field, member, own⟩
    have added := same (ascii "Content-Type")
    rw [headers, absent, if_pos ⟨rfl, body⟩] at added
    cases added
  · intro typed name
    rw [headers]
    by_cases added : name = ascii "Content-Type" ∧ message.body.flatten ≠ []
    · rcases added with ⟨rfl, body⟩
      rcases typed body with ⟨field, member, own⟩
      have present : message.lastValue (ascii "Content-Type") ≠ none := by
        rw [ne_eq, ReportedMessage.lastValue_eq_none_iff]
        intro apart
        exact apart field member own
      rcases Option.ne_none_iff_exists'.mp present with ⟨value, held⟩
      rw [held]
      rfl
    · rw [if_neg added, Option.or_none]

end Headers

theorem contentLength_named : ascii "Content-Length" ≠ [] := by decide

theorem contentType_named : ascii "Content-Type" ≠ [] := by decide

/-- The head of a note of five bytes, with some fields in front. -/
def noteHead (fields : StdString) : StdString :=
  ascii "POST /note HTTP/1.1\r\n" ++ fields ++
    ascii "Content-Length: 5\r\n\r\n"

/-- What llhttp reports of a note. -/
def note (fields : List ReportedField) (body : StdString) :
    ReportedMessage where
  target := [ascii "/note"]
  fields :=
    fields ++
      [.single (ascii "Content-Length") (ascii "5") contentLength_named]
  body := [body]
  trailers := []
  info := ⟨ascii "POST", 1, 1, true⟩

/-- The field of a content type. -/
def typeField (type : StdString) : ReportedField :=
  .single (ascii "Content-Type") type contentType_named

/-- A plain note, a note without a content type, and a JSON note. -/
def notes : Llhttp :=
  scriptedLlhttp
    [(noteHead (ascii "Content-Type: text/plain\r\n") ++ ascii "hello",
        (note [typeField (ascii "text/plain")] (ascii "hello")).callbacks),
      (noteHead [] ++ ascii "hello", (note [] (ascii "hello")).callbacks),
      (noteHead (ascii "Content-Type: application/json\r\n") ++
          ascii " null",
        (note [typeField (ascii "application/json")]
          (ascii " null")).callbacks)]

theorem notes_reports_plain :
    notes.Reports
      [noteHead (ascii "Content-Type: text/plain\r\n") ++ ascii "hello"]
      [note [typeField (ascii "text/plain")] (ascii "hello")] [] :=
  ⟨by decide +kernel, by simp⟩

theorem notes_reports_untyped :
    notes.Reports [noteHead [] ++ ascii "hello"]
      [note [] (ascii "hello")] [] :=
  ⟨by decide +kernel, by simp⟩

theorem notes_reports_json :
    notes.Reports
      [noteHead (ascii "Content-Type: application/json\r\n") ++
        ascii " null"]
      [note [typeField (ascii "application/json")] (ascii " null")] [] :=
  ⟨by decide +kernel, by simp⟩

theorem headers_as_received_iff_notes :
    ∃ given : HttpRequest FlatJson × Bool,
      (deliveries FlatJson notes kMaxHeaderBytes
          [noteHead (ascii "Content-Type: text/plain\r\n") ++
            ascii "hello"])[0]? = some given ∧
        ∀ name : StdString,
          given.1.headers[name]? =
            (note [typeField (ascii "text/plain")]
              (ascii "hello")).lastValue name := by
  obtain ⟨given, delivered⟩ := Option.isSome_iff_exists.mp
    (show ((deliveries FlatJson notes kMaxHeaderBytes
        [noteHead (ascii "Content-Type: text/plain\r\n") ++
          ascii "hello"])[0]?).isSome by decide +kernel)
  have typed :
      (note [typeField (ascii "text/plain")] (ascii "hello")).TypedBody :=
    fun _ =>
      ⟨typeField (ascii "text/plain"), List.mem_cons_self .., by decide⟩
  exact
    ⟨given, delivered,
      (headers_as_received_iff notes kMaxHeaderBytes notes_reports_plain rfl
        rfl delivered).mpr typed⟩

/-- A body without a content type gets an empty one. -/
theorem header_invented :
    ¬ ∀ (llhttp : Llhttp) (chunks : List StdString)
        (messages : List ReportedMessage) (rest : List Callback)
        (position : Nat) (message : ReportedMessage)
        (given : HttpRequest FlatJson × Bool),
        llhttp.Reports chunks messages rest →
        messages[position]? = some message →
        message.trailers = [] →
        (deliveries FlatJson llhttp kMaxHeaderBytes chunks)[position]? =
          some given →
        ∀ name : StdString,
          given.1.headers[name]? = message.lastValue name := by
  intro claim
  obtain ⟨given, delivered⟩ := Option.isSome_iff_exists.mp
    (show ((deliveries FlatJson notes kMaxHeaderBytes
        [noteHead [] ++ ascii "hello"])[0]?).isSome by decide +kernel)
  have same :=
    claim notes _ _ _ 0 _ given notes_reports_untyped rfl rfl delivered
      (ascii "Content-Type")
  have added :
      ((deliveries FlatJson notes kMaxHeaderBytes
          [noteHead [] ++ ascii "hello"])[0]?.map fun given =>
        given.1.headers[ascii "Content-Type"]?) = some (some []) := by
    decide +kernel
  rw [delivered, Option.map_some, same] at added
  exact absurd added (by decide +kernel)

/-! ## The body -/

namespace ReportedMessage

/-- The content type the body is read by: that of the committed fields. -/
def contentType (message : ReportedMessage) : Option StdString :=
  (StdMap.insertAll ∅ message.committed)[ascii "Content-Type"]?

/-- A JSON body is as `dump` prints its value. -/
def PrintedBody [JsonText] (message : ReportedMessage) : Prop :=
  message.contentType = some (ascii "application/json") →
    message.body.flatten ≠ [] →
    ∀ j, JsonText.parse message.body.flatten = .ok j →
      JsonText.dump j = .ok message.body.flatten

/--
What is asked of the body of a request: the bytes and their number as
received, and of a JSON body the parsed value.
-/
structure KeepsBody [JsonText] (message : ReportedMessage)
    (request : HttpRequest Document) : Prop where
  raw : request.body.rawData = message.body.flatten
  length : (Wasm.requestDocument request).field (ascii "bodyLength") =
    some (.number message.body.flatten.length)
  json : message.contentType = some (ascii "application/json") →
    message.body.flatten ≠ [] →
    JsonText.parse message.body.flatten = .ok request.body.jsonData

end ReportedMessage

/--
What becomes of a body: none is stored, or the dump of its value, or its
bytes.
-/
theorem Impl.body_of_requestBody
    {J : Type} [Json J] {impl : Impl} {headers : StdMap} {body : HttpBody J}
    (read : impl.requestBody = .ok (headers, body)) :
    impl.body = [] ∧ body.rawData = [] ∨
      impl.body ≠ [] ∧
        (impl.headers[ascii "Content-Type"]? =
            some (ascii "application/json") ∧
          Json.parse impl.body = .ok body.jsonData ∧
            Json.dump body.jsonData = .ok body.rawData ∨
        impl.headers[ascii "Content-Type"]? ≠
            some (ascii "application/json") ∧
          body.rawData = impl.body) := by
  have typed (type : Option StdString) :
      type.getD [] = ascii "application/json" ↔
        type = some (ascii "application/json") := by
    cases type with
    | none => exact iff_of_false (by decide) nofun
    | some text => simp
  unfold requestBody at read
  by_cases empty : impl.body = []
  · rw [if_pos empty] at read
    rcases Prod.mk.inj (Except.ok.inj read) with ⟨-, rfl⟩
    exact Or.inl ⟨empty, rfl⟩
  · rw [if_neg empty] at read
    refine Or.inr ⟨empty, ?_⟩
    dsimp only at read
    split at read
    · next json =>
      split at read
      · cases read
      · next j parsed =>
        unfold HttpBody.setJson at read
        dsimp only at read
        cases dumped : Json.dump j with
        | error what => simp [dumped] at read
        | ok text =>
            rw [dumped] at read
            rcases Prod.mk.inj (Except.ok.inj read) with ⟨-, rfl⟩
            exact Or.inl ⟨(typed _).mp json, parsed, dumped⟩
    · next other =>
      rcases Prod.mk.inj (Except.ok.inj read) with ⟨-, rfl⟩
      exact Or.inr ⟨fun json => other ((typed _).mpr json), rfl⟩

/--
The handler is given the body as it was received if and only if a JSON
body is as `dump` prints it.
-/
theorem body_as_received_iff
    [JsonText] (llhttp : Llhttp) (maxHeaderBytes : Nat)
    {chunks : List StdString} {messages : List ReportedMessage}
    {rest : List Callback} (reports : llhttp.Reports chunks messages rest)
    {position : Nat} {message : ReportedMessage}
    (placed : messages[position]? = some message)
    {given : HttpRequest Document × Bool}
    (delivered :
      (deliveries Document llhttp maxHeaderBytes chunks)[position]? =
        some given) :
    message.KeepsBody given.1 ↔ message.PrintedBody := by
  rw [deliveries_of_reports reports] at delivered
  have reached := outcome_of_delivery delivered placed
  have read :=
    Impl.body_of_requestBody
      (Impl.read_of_request (ReportedMessage.request_of_outcome reached))
  have length (same : given.1.body.rawData = message.body.flatten) :
      (Wasm.requestDocument given.1).field (ascii "bodyLength") =
        some (.number message.body.flatten.length) := by
    rw [← same]
    rfl
  -- the content type and the bytes are what the parser has gathered
  change
    message.body.flatten = [] ∧ _ ∨
      message.body.flatten ≠ [] ∧
        (message.contentType = _ ∧ _ ∨ message.contentType ≠ _ ∧ _) at read
  rcases read with
    ⟨empty, none⟩ | ⟨some_, ⟨json, parsed, dumped⟩ | ⟨other, stored⟩⟩
  · have same : given.1.body.rawData = message.body.flatten := by
      rw [none, empty]
    apply iff_of_true
    · exact ⟨same, length same, fun _ some_ => absurd empty some_⟩
    · exact fun _ some_ => absurd empty some_
  · constructor
    · rintro ⟨raw, -, -⟩ - - j parsed'
      obtain rfl := Except.ok.inj (parsed.symm.trans parsed')
      rw [← raw]
      exact dumped
    · intro printed
      have same : given.1.body.rawData = message.body.flatten :=
        Except.ok.inj (dumped.symm.trans (printed json some_ _ parsed))
      exact ⟨same, length same, fun _ _ => parsed⟩
  · apply iff_of_true
    · exact ⟨stored, length stored, fun json => absurd json other⟩
    · exact fun json => absurd json other

/-- It reads `null` with blanks in front, and prints it without. -/
@[reducible] def blankJson : JsonText where
  dump
    | .null => .ok (ascii "null")
    | _ => .error (ascii "unsupported")
  parse text :=
    if text.dropWhile (· = 32) = ascii "null" then .ok .null
    else .error (ascii "parse error")

theorem body_as_received_iff_notes :
    ∃ given : HttpRequest Document × Bool,
      (@deliveries Document (@instJsonDocumentOfJsonText blankJson) notes
          kMaxHeaderBytes
          [noteHead (ascii "Content-Type: text/plain\r\n") ++
            ascii "hello"])[0]? = some given ∧
        @ReportedMessage.KeepsBody blankJson
          (note [typeField (ascii "text/plain")] (ascii "hello")) given.1 := by
  obtain ⟨given, delivered⟩ := Option.isSome_iff_exists.mp
    (show ((@deliveries Document (@instJsonDocumentOfJsonText blankJson) notes
        kMaxHeaderBytes
        [noteHead (ascii "Content-Type: text/plain\r\n") ++
          ascii "hello"])[0]?).isSome by decide +kernel)
  have printed :
      @ReportedMessage.PrintedBody blankJson
        (note [typeField (ascii "text/plain")] (ascii "hello")) := by
    intro json
    exact absurd json (by decide +kernel)
  exact
    ⟨given, delivered,
      (@body_as_received_iff blankJson notes kMaxHeaderBytes _ _ _
        notes_reports_plain 0 _ rfl given delivered).mpr printed⟩

/-- A JSON body with a blank in front is stored without it. -/
theorem body_reprinted :
    ¬ ∀ (llhttp : Llhttp) (chunks : List StdString)
        (messages : List ReportedMessage) (rest : List Callback)
        (position : Nat) (message : ReportedMessage)
        (given : HttpRequest Document × Bool),
        llhttp.Reports chunks messages rest →
        messages[position]? = some message →
        (@deliveries Document (@instJsonDocumentOfJsonText blankJson) llhttp
          kMaxHeaderBytes chunks)[position]? = some given →
        @ReportedMessage.KeepsBody blankJson message given.1 := by
  intro claim
  obtain ⟨given, delivered⟩ := Option.isSome_iff_exists.mp
    (show ((@deliveries Document (@instJsonDocumentOfJsonText blankJson) notes
        kMaxHeaderBytes
        [noteHead (ascii "Content-Type: application/json\r\n") ++
          ascii " null"])[0]?).isSome by decide +kernel)
  have kept :=
    @ReportedMessage.KeepsBody.raw blankJson _ _
      (claim notes _ _ _ 0 _ given notes_reports_json rfl delivered)
  have stored :
      ((@deliveries Document (@instJsonDocumentOfJsonText blankJson) notes
          kMaxHeaderBytes
          [noteHead (ascii "Content-Type: application/json\r\n") ++
            ascii " null"])[0]?.map fun given => given.1.body.rawData) =
        some (ascii "null") := by
    decide +kernel
  rw [delivered, Option.map_some, kept] at stored
  exact absurd stored (by decide +kernel)

end PlusWeb
