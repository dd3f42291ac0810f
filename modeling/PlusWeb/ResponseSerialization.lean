import PlusWeb.ResponseCalls

/-!
# Two outputs of `serialize`, and a `send` that throws

`serialize` clears the two strings it is given, writes the head, and chooses
the one the body goes into by a length it computes beforehand.  Together they
hold what `prepareResponse` puts into one string, whatever the body is and
whatever the strings held.

`setJson` sets the type and the value of a body before `dump` can throw.  A
`send` of a value that cannot be dumped leaves a JSON body whose stored text
is an older one, and which `serialize` cannot write.  Nothing changes exactly
if the body was of this kind already.
-/

namespace PlusWeb

variable {J : Type} [Json J]

namespace HttpResponse

/-- `std::string::clear`. -/
def cleared (_text : StdString) : StdString := []

/-- `serialize`, statement by statement, on the strings it is given. -/
def serializeInto
    (response : HttpResponse J)
    (memory : Int) (splitAbove : Nat) (includeBody : Bool) :
    Action CxxException (StdString × StdString) := fun (head, body) =>
  let status := response.status.getD memory
  let bodyLength := response.body.length
  let split := includeBody && decide (bodyLength > splitAbove)
  let head := cleared head
  let head := head ++ response.protocol
  let head := head ++ ascii " "
  let head := head ++ StdString.ofInt status
  let head := head ++ ascii " "
  let head := head ++ getResponseMessage status
  let head := head ++ crlf
  let head :=
    response.headers.toList.foldl
      (fun head header => head ++ header.1 ++ ascii ": " ++ header.2 ++ crlf)
      head
  let head := head ++ crlf
  let body := cleared body
  let sink (text : StdString) :=
    if split then (head, body ++ text) else (head ++ text, body)
  if includeBody then
    match response.body.type with
    | .text => (.returned, sink response.body.rawData)
    | .json =>
        match Json.dump response.body.jsonData with
        | .ok text => (.returned, sink text)
        | .error what => (.threw (.stdException what), (head, body))
    | .binary => (.returned, sink response.body.binaryData)
    | .empty => (.returned, (head, body))
    | .formData => (.returned, (head, body))
    | .multipart => (.returned, (head, body))
  else (.returned, (head, body))

omit [Json J] in
theorem foldl_headerLine
    (headers : List (StdString × StdString)) (head : StdString) :
    headers.foldl
        (fun head header =>
          head ++ header.1 ++ ascii ": " ++ header.2 ++ crlf)
        head =
      head ++ (headers.map headerLine).flatMap (· ++ crlf) := by
  induction headers generalizing head with
  | nil => simp
  | cons header headers induction =>
      rw [List.foldl_cons, induction, List.map_cons, List.flatMap_cons]
      simp [headerLine]

/--
What the strings held does not matter, and the result is that of
`serialize`.
-/
theorem serializeInto_eq
    (response : HttpResponse J) (memory : Int) (splitAbove : Nat)
    (includeBody : Bool) (outputs : StdString × StdString) :
    response.serializeInto memory splitAbove includeBody outputs =
      match response.serialize memory splitAbove includeBody with
      | .ok outputs => (.returned, outputs)
      | .error what =>
          (.threw (.stdException what), (response.headSection memory, [])) := by
  have head :
      cleared outputs.1 ++ response.protocol ++ ascii " " ++
              StdString.ofInt (response.status.getD memory) ++ ascii " " ++
            getResponseMessage (response.status.getD memory) ++ crlf ++
          (response.headers.toList.map headerLine).flatMap (· ++ crlf) ++
        crlf = response.headSection memory := by
    simp [headSection, headLines, statusLine, cleared]
  rcases outputs with ⟨first, second⟩
  simp only [serializeInto, foldl_headerLine]
  rw [head]
  cases includeBody with
  | false => rfl
  | true =>
      simp only [serialize, bodySection, ↓reduceIte, Bool.true_and, cleared]
      cases response.body.type with
      | text =>
          by_cases long : response.body.length > splitAbove
          · simp [long]
          · simp [long]
      | json =>
          cases Json.dump response.body.jsonData with
          | error what => rfl
          | ok text =>
              by_cases long : response.body.length > splitAbove
              · simp [long]
              · simp [long]
      | binary =>
          by_cases long : response.body.length > splitAbove
          · simp [long]
          · simp [long]
      | empty => simp
      | formData => simp
      | multipart => simp

/-- Both ways of serializing throw, or they write the same bytes. -/
theorem serialize_eq_prepareResponse
    (response : HttpResponse J) (memory : Int) (splitAbove : Nat)
    (sized : response.body.length < 2 ^ 64) :
    ((response.serialize memory splitAbove true).map fun outputs =>
        outputs.1 ++ outputs.2) = response.prepareResponse memory := by
  have whole : ¬ response.body.length > 2 ^ 64 - 1 := by omega
  simp only [prepareResponse, serialize, ↓reduceIte, whole]
  cases response.bodySection with
  | error what => rfl
  | ok text =>
      dsimp only
      split_ifs
      · rfl
      · simp [Except.map]

/-- What is asked of the outputs of `serialize` for one response. -/
structure SplitAgrees
    (response : HttpResponse J) (memory : Int) (splitAbove : Nat)
    (outputs : StdString × StdString) (whole : StdString) : Prop where
  /--
  With the body: both outputs together are the whole response, and there
  is a second one only above the threshold.
  -/
  withBody : ∃ head body,
    response.serializeInto memory splitAbove true outputs =
        (.returned, (head, body)) ∧
      head ++ body = whole ∧
      (body ≠ [] → response.body.length > splitAbove)
  /-- Without: the lines of the head up to the blank line. -/
  withoutBody : ∃ text,
    response.serializeInto memory splitAbove false outputs =
        (.returned, ((response.headLines memory).flatMap (· ++ crlf) ++ crlf, [])) ∧
      whole =
        (response.headLines memory).flatMap (· ++ crlf) ++ crlf ++ text

end HttpResponse

/--
After any calls that succeed, `serialize` with any threshold and any
strings writes what `prepareResponse` does.
-/
theorem serialize_split_agrees
    {calls : List (ResponseCall J)} (dumps : ∀ call ∈ calls, call.Dumps)
    (nullDumps : ∃ text, Json.dump (Json.null : J) = .ok text)
    (memory : Int) (splitAbove : Nat) (outputs : StdString × StdString) :
    ∃ draft, ResponseCall.runAll calls Draft.new = (.returned, draft) ∧
      (draft.response.body.length < 2 ^ 64 →
        ∃ whole, draft.response.prepareResponse memory = .ok whole ∧
          draft.response.SplitAgrees memory splitAbove outputs whole) := by
  obtain ⟨draft, returned, serializable, -⟩ :=
    ResponseCall.runAll_sound dumps nullDumps
      (⟨HttpBody.serializable_new, fun _ => HttpBody.serializable_new⟩ :
        (Draft.new : Draft J).Serializable)
  refine ⟨draft, returned, fun sized => ?_⟩
  obtain ⟨text, written, -⟩ :=
    HttpBody.bodySection_length serializable.response
  obtain ⟨head, body, serialized, cut⟩ :=
    HttpResponse.serialize_append written memory splitAbove
  have same :=
    draft.response.serialize_eq_prepareResponse memory splitAbove sized
  rw [serialized] at same
  refine ⟨head ++ body, same.symm, ⟨head, body, ?_, rfl, ?_⟩, text, ?_, ?_⟩
  · rw [HttpResponse.serializeInto_eq, serialized]
  · intro some_
    by_contra short
    simp only [HttpResponse.serialize, written, short, ↓reduceIte]
      at serialized
    exact some_ (Prod.mk.inj (Except.ok.inj serialized)).2.symm
  · rw [HttpResponse.serializeInto_eq]
    rfl
  · exact cut

/-- A JSON value and a text over it, into strings that are not empty. -/
theorem serialize_split_agrees_overwriting :
    ∃ draft,
      ResponseCall.runAll overwritingCalls Draft.new = (.returned, draft) ∧
        (draft.response.body.length < 2 ^ 64 →
          ∃ whole, draft.response.prepareResponse 0 = .ok whole ∧
            draft.response.SplitAgrees 0 1 (ascii "old", ascii "old")
              whole) :=
  @serialize_split_agrees FlatJson _ overwritingCalls
    (by
      intro call member
      fin_cases member
      · exact ⟨ascii "\x7b\"a\":\"b\"\x7d", by decide +kernel⟩
      · trivial
      · trivial)
    ⟨ascii "null", rfl⟩ 0 1 (ascii "old", ascii "old")

/-! ## A `send` that throws -/

namespace HttpBody

/-- What is asked of a body after a setter has thrown. -/
structure Unchanged (before after : HttpBody J) : Prop where
  type : after.type = before.type
  raw : after.rawData = before.rawData
  json : after.jsonData = before.jsonData
  length : after.length = before.length

theorem setJson_of_error
    {j : J} {what : StdString} (fails : Json.dump j = .error what)
    (body : HttpBody J) :
    setJson j body =
      (.threw (.stdException what),
        { body with type := .json, jsonData := j }) := by
  simp only [setJson, fails]

omit [Json J] in
theorem unchanged_iff (j : J) (body : HttpBody J) :
    Unchanged body { body with type := .json, jsonData := j } ↔
      body.type = .json ∧ body.jsonData = j := by
  constructor
  · rintro ⟨type, -, json, -⟩
    exact ⟨type.symm, json.symm⟩
  · rintro ⟨type, json⟩
    refine ⟨type.symm, rfl, json.symm, ?_⟩
    simp only [length, type]

end HttpBody

namespace HttpResponse

/-- What is asked of a `send` that throws. -/
structure SendFailsCleanly (j : J) (response : HttpResponse J) : Prop where
  threw : ∃ exception, (response.sendJson j).1 = .threw exception
  body : response.body.Unchanged (response.sendJson j).2.body
  headers : (response.sendJson j).2.headers = response.headers

theorem sendJson_of_error
    {j : J} {what : StdString} (fails : Json.dump j = .error what)
    (response : HttpResponse J) :
    response.sendJson j =
      (.threw (.stdException what),
        { response with
          body :=
            { response.body with type := .json, jsonData := j } }) := by
  simp only [sendJson, HttpBody.setJson_of_error fails]

/-- After it `serialize` throws as well. -/
theorem serialize_of_failed_send
    {j : J} {what : StdString} (fails : Json.dump j = .error what)
    (response : HttpResponse J) (memory : Int) (splitAbove : Nat) :
    (response.sendJson j).2.serialize memory splitAbove true =
      .error what := by
  rw [sendJson_of_error fails]
  simp [serialize, bodySection, fails]

end HttpResponse

/--
A `send` of a value that cannot be dumped throws and leaves the response
as it was if and only if the body was a JSON body of this value already.  So
does `setJson`.
-/
theorem failing_send_iff
    {j : J} {what : StdString} (fails : Json.dump j = .error what)
    (response : HttpResponse J) (body : HttpBody J) :
    (response.SendFailsCleanly j ↔
        response.body.type = .json ∧ response.body.jsonData = j) ∧
      ((∃ exception, (HttpBody.setJson j body).1 = .threw exception) ∧
          body.Unchanged (HttpBody.setJson j body).2 ↔
        body.type = .json ∧ body.jsonData = j) := by
  constructor
  · have sent := HttpResponse.sendJson_of_error fails response
    constructor
    · rintro ⟨-, kept, -⟩
      rw [sent] at kept
      exact (HttpBody.unchanged_iff j response.body).mp kept
    · intro same
      refine ⟨⟨_, congrArg Prod.fst sent⟩, ?_, ?_⟩
      · rw [sent]
        exact (HttpBody.unchanged_iff j response.body).mpr same
      · rw [sent]
  · rw [HttpBody.setJson_of_error fails, ← HttpBody.unchanged_iff j body]
    constructor
    · exact And.right
    · exact fun kept => ⟨⟨_, rfl⟩, kept⟩

/-- A value with a text that is not UTF-8. -/
def brokenJson : FlatJson := .object [(ascii "name", [255])]

theorem brokenJson_fails :
    Json.dump brokenJson = .error (ascii "invalid UTF-8 byte") := by
  decide +kernel

/-- After a first `send` of the value that has failed. -/
theorem failing_send_iff_again :
    ((HttpResponse.new : HttpResponse FlatJson).sendJson
      brokenJson).2.SendFailsCleanly brokenJson :=
  (failing_send_iff brokenJson_fails _ HttpBody.new).1.mpr
    ⟨by decide +kernel, by decide +kernel⟩

/-- A handler that has sent a text is left with a JSON body. -/
theorem failing_send_changes :
    ¬ ∀ (response : HttpResponse FlatJson) (j : FlatJson) (what : StdString),
        Json.dump j = .error what → response.SendFailsCleanly j := by
  intro claim
  have kept :=
    (claim (HttpResponse.new.sendText (ascii "hello")) brokenJson _
      brokenJson_fails).body.type
  exact absurd kept (by decide +kernel)

end PlusWeb
