import PlusWeb.StdTypes
import PlusWeb.Library.Action

/-!
# Bodies, requests and responses

`HttpBody`, `HttpRequest` and `HttpResponse` with the members the program
uses.  JSON values come from a library outside the repository; `Json` lists
the operations the program calls, and says nothing about them.

`$status` is an `int` that the constructor of `HttpResponse` leaves
uninitialised.  It is `none` until a call assigns it: no call reads it before
that, and what `serialize` then finds in memory is a parameter of
`serialize`.
-/

namespace PlusWeb

/--
What a call can throw: a `std::exception` with its `what()`, or a value of
any other type.
-/
inductive CxxException where
  | stdException (what : StdString)
  | other
deriving DecidableEq

/--
The operations of the JSON library.  `dump` and `parse` throw a
`std::exception` with the given text.
-/
class Json (J : Type) where
  null : J
  object : List (StdString × StdString) → J
  dump : J → Except StdString StdString
  parse : StdString → Except StdString J

/-- The bytes are the UTF-8 encoding of a text. -/
def ValidUtf8 (text : StdString) : Prop :=
  (ByteArray.mk text.toArray).IsValidUTF8

instance : DecidablePred ValidUtf8 := fun _ =>
  inferInstanceAs (Decidable (ByteArray.IsValidUTF8 _))

/--
What the JSON library documents about `dump`: an object of strings is
printed unless a key or a value is not valid UTF-8.
-/
structure Json.DumpsUtf8 (J : Type) [Json J] : Prop where
  object_iff : ∀ pairs : List (StdString × StdString),
    (pairs.map Prod.fst).Nodup →
      ((∃ text, Json.dump (Json.object pairs : J) = .ok text) ↔
        ∀ pair ∈ pairs, ValidUtf8 pair.1 ∧ ValidUtf8 pair.2)

/-- `HttpBody::Type`. -/
inductive BodyType where
  | empty
  | text
  | json
  | formData
  | multipart
  | binary
deriving DecidableEq, Repr

/-- `class HttpBody`. -/
structure HttpBody (J : Type) where
  type : BodyType
  rawData : StdString
  jsonData : J
  formData : StdMap
  binaryData : StdString

variable {J : Type} [Json J]

namespace HttpBody

/-- `HttpBody()`. -/
def new : HttpBody J where
  type := .empty
  rawData := []
  jsonData := Json.null
  formData := ∅
  binaryData := []

/--
`HttpBody::setJson`.  The type and the value are written before `dump`
can throw.
-/
def setJson (j : J) : Action CxxException (HttpBody J) := fun body =>
  let body := { body with type := .json, jsonData := j }
  match Json.dump j with
  | .ok text => (.returned, { body with rawData := text })
  | .error what => (.threw (.stdException what), body)

/-- `HttpBody::setText`. -/
def setText (body : HttpBody J) (text : StdString) : HttpBody J :=
  { body with type := .text, rawData := text }

/-- `HttpBody::encodeFormData`. -/
def encodeFormData (form : StdMap) : StdString :=
  form.toList.foldl
    (fun result pair =>
      (if result ≠ [] then result ++ ascii "&" else result) ++
        (pair.1 ++ ascii "=" ++ pair.2))
    []

/-- `HttpBody::setFormData`. -/
def setFormData (body : HttpBody J) (form : StdMap) : HttpBody J :=
  { body with
    type := .formData
    formData := form
    rawData := encodeFormData form }

/-- `HttpBody::setBinary`. -/
def setBinary (body : HttpBody J) (data : StdString) : HttpBody J :=
  { body with type := .binary, binaryData := data }

/-- `HttpBody::length`. -/
def length (body : HttpBody J) : Nat :=
  match body.type with
  | .json => body.rawData.length
  | .text => body.rawData.length
  | .formData => body.rawData.length
  | .multipart => body.rawData.length
  | .binary => body.binaryData.length
  | .empty => 0

/--
What a move leaves behind: the type is copied, the JSON value is null, and
the strings and containers are valid but unspecified.
-/
structure Husk where
  rawData : StdString
  formData : StdMap
  binaryData : StdString

/-- The body that was moved from. -/
def movedFrom (body : HttpBody J) (husk : Husk) : HttpBody J where
  type := body.type
  rawData := husk.rawData
  jsonData := Json.null
  formData := husk.formData
  binaryData := husk.binaryData

end HttpBody

/-- `class HttpRequest`. -/
structure HttpRequest (J : Type) where
  method : StdString
  path : StdString
  protocol : StdString
  headers : StdMap
  body : HttpBody J
  params : StdMap
  query : StdMap

namespace HttpRequest

/-- `HttpRequest()`. -/
def new : HttpRequest J where
  method := []
  path := []
  protocol := []
  headers := ∅
  body := HttpBody.new
  params := ∅
  query := ∅

end HttpRequest

/-- `class HttpResponse`. -/
structure HttpResponse (J : Type) where
  status : Option Int
  protocol : StdString
  headers : StdMap
  body : HttpBody J

namespace HttpResponse

/-- `HttpResponse()`. -/
def new : HttpResponse J where
  status := none
  protocol := []
  headers := ∅
  body := HttpBody.new

/-- `HttpResponse::status(int)`. -/
def setStatus (response : HttpResponse J) (status : Int) :
    HttpResponse J :=
  { response with status := some status }

/-- `HttpResponse::setHeader`. -/
def setHeader (response : HttpResponse J) (key value : StdString) :
    HttpResponse J :=
  { response with headers := response.headers.insert key value }

/-- `HttpResponse::setHeaders`. -/
def setHeaders (response : HttpResponse J) (pairs : StdMap) :
    HttpResponse J :=
  pairs.toList.foldl
    (fun response pair => response.setHeader pair.1 pair.2) response

/--
The `Content-Type` and `Content-Length` writes at the end of the `send`
overloads that build the body themselves.
-/
def sendHeaders (response : HttpResponse J) (contentType : StdString) :
    HttpResponse J :=
  (response.setHeader (ascii "Content-Type") contentType).setHeader
    (ascii "Content-Length") (StdString.ofNat response.body.length)

/-- `HttpResponse::send(const HttpBody&)`. -/
def sendBody (response : HttpResponse J) (body : HttpBody J) :
    HttpResponse J :=
  let response := { response with body := body }
  let contentType := response.setHeader (ascii "Content-Type")
  match body.type with
  | .json => contentType (ascii "application/json")
  | .text => contentType (ascii "text/plain; charset=utf-8")
  | .formData => contentType (ascii "application/x-www-form-urlencoded")
  | .multipart => contentType (ascii "multipart/form-data")
  | .binary => contentType (ascii "application/octet-stream")
  | .empty => response

/--
`HttpResponse::send(HttpBody&&)`, the response only: unlike the copying
overload it gives an empty body a content type.
-/
def sendMovedBody (response : HttpResponse J) (body : HttpBody J) :
    HttpResponse J :=
  let response := { response with body := body }
  let contentType := response.setHeader (ascii "Content-Type")
  match body.type with
  | .json => contentType (ascii "application/json")
  | .text => contentType (ascii "text/plain; charset=utf-8")
  | .formData => contentType (ascii "application/x-www-form-urlencoded")
  | .multipart => contentType (ascii "multipart/form-data")
  | .binary => contentType (ascii "application/octet-stream")
  | .empty => contentType (ascii "text/plain; charset=utf-8")

/-- `HttpResponse::send(const json&)`. -/
def sendJson (j : J) : Action CxxException (HttpResponse J) :=
  fun response =>
    match HttpBody.setJson j response.body with
    | (.returned, body) =>
        (.returned,
          { response with body := body }.sendHeaders
            (ascii "application/json"))
    | (.threw exception, body) =>
        (.threw exception, { response with body := body })

/-- `HttpResponse::send(const std::string&)`. -/
def sendText (response : HttpResponse J) (text : StdString) :
    HttpResponse J :=
  { response with body := response.body.setText text }.sendHeaders
    (ascii "text/html; charset=utf-8")

/-- `HttpResponse::send(const char*)`. -/
def sendCString (response : HttpResponse J) (text : StdString) :
    HttpResponse J :=
  response.sendText (StdString.cStr text)

/-- `HttpResponse::send(const std::map<std::string, std::string>&)`. -/
def sendForm (response : HttpResponse J) (form : StdMap) :
    HttpResponse J :=
  { response with body := response.body.setFormData form }.sendHeaders
    (ascii "application/x-www-form-urlencoded")

/-- `HttpResponse::send(const std::vector<uint8_t>&)`. -/
def sendBinary (response : HttpResponse J) (data : StdString) :
    HttpResponse J :=
  { response with body := response.body.setBinary data }.sendHeaders
    (ascii "application/octet-stream")

omit [Json J] in
@[simp]
theorem setHeader_body
    (response : HttpResponse J) (key value : StdString) :
    (response.setHeader key value).body = response.body := rfl

omit [Json J] in
@[simp]
theorem setHeaders_body (response : HttpResponse J) (pairs : StdMap) :
    (response.setHeaders pairs).body = response.body := by
  unfold setHeaders
  induction pairs.toList generalizing response with
  | nil => rfl
  | cons pair pairs induction =>
      rw [List.foldl_cons, induction, setHeader_body]

omit [Json J] in
@[simp]
theorem sendHeaders_body
    (response : HttpResponse J) (contentType : StdString) :
    (response.sendHeaders contentType).body = response.body := rfl

omit [Json J] in
@[simp]
theorem sendBody_body (response : HttpResponse J) (body : HttpBody J) :
    (response.sendBody body).body = body := by
  unfold sendBody
  cases body.type <;> rfl

omit [Json J] in
@[simp]
theorem sendMovedBody_body
    (response : HttpResponse J) (body : HttpBody J) :
    (response.sendMovedBody body).body = body := by
  unfold sendMovedBody
  cases body.type <;> rfl

/-- `send(const json&)` sets the body like `setJson`. -/
theorem sendJson_eq (j : J) (response : HttpResponse J) :
    (sendJson j response).1 = (HttpBody.setJson j response.body).1 ∧
      (sendJson j response).2.body =
        (HttpBody.setJson j response.body).2 := by
  unfold sendJson
  split <;> rename_i equal <;> simp [equal]

/-- `HttpResponse::defaultResponseCodes`. -/
def defaultResponseCodes : List (Int × String) :=
  [(100, "Continue"), (101, "Switching Protocols"), (102, "Processing"),
    (103, "Early Hints"), (200, "OK"), (201, "Created"),
    (202, "Accepted"), (203, "Non-Authoritative Information"),
    (204, "No Content"), (205, "Reset Content"), (206, "Partial Content"),
    (207, "Multi-Status"), (208, "Already Reported"),
    (218, "This is fine (Apache Web Server)"), (226, "IM Used"),
    (300, "Multiple Choices"), (301, "Moved Permanently"), (302, "Found"),
    (303, "See Other"), (304, "Not Modified"), (306, "Switch Proxy"),
    (307, "Temporary Redirect"), (308, "Resume Incomplete"),
    (400, "Bad Request"), (401, "Unauthorized"),
    (402, "Payment Required"), (403, "Forbidden"), (404, "Not Found"),
    (405, "Method Not Allowed"), (406, "Not Acceptable"),
    (407, "Proxy Authentication Required"), (408, "Request Timeout"),
    (409, "Conflict"), (410, "Gone"), (411, "Length Required"),
    (412, "Precondition Failed"), (413, "Request Entity Too Large"),
    (414, "Request-URI Too Long"), (415, "Unsupported Media Type"),
    (416, "Requested Range Not Satisfiable"), (417, "Expectation Failed"),
    (418, "I'm a teapot"), (419, "Page Expired (Laravel Framework)"),
    (420, "Method Failure (Spring Framework)"),
    (421, "Misdirected Request"), (422, "Unprocessable Entity"),
    (423, "Locked"), (424, "Failed Dependency"),
    (426, "Upgrade Required"), (428, "Precondition Required"),
    (429, "Too Many Requests"), (431, "Request Header Fields Too Large"),
    (440, "Login Time-out"),
    (444, "Connection Closed Without HttpResponse"), (449, "Retry With"),
    (450, "Blocked by Windows Parental Controls"),
    (451, "Unavailable For Legal Reasons"),
    (494, "Request Header Too Large"), (495, "SSL Certificate Error"),
    (496, "SSL Certificate Required"),
    (497, "HTTP Request Sent to HTTPS Port"), (498, "Invalid Token (Esri)"),
    (499, "Client Closed Request"), (500, "Internal Server Error"),
    (501, "Not Implemented"), (502, "Bad Gateway"),
    (503, "Service Unavailable"), (504, "Gateway Timeout"),
    (505, "HTTP Version Not Supported"), (506, "Variant Also Negotiates"),
    (507, "Insufficient Storage"), (508, "Loop Detected"),
    (509, "Bandwidth Limit Exceeded"), (510, "Not Extended"),
    (511, "Network Authentication Required"), (520, "Unknown Error"),
    (521, "Web Server Is Down"), (522, "Connection Timed Out"),
    (523, "Origin Is Unreachable"), (524, "A Timeout Occurred"),
    (525, "SSL Handshake Failed"), (526, "Invalid SSL Certificate"),
    (527, "Railgun Listener to Origin Error"), (530, "Origin DNS Error"),
    (598, "Network Read Timeout Error")]

/-- `HttpResponse::getResponseMessage`. -/
def getResponseMessage (status : Int) : StdString :=
  ascii ((defaultResponseCodes.lookup status).getD "An error occured")

/-- The line end of the head. -/
def crlf : StdString := [13, 10]

/-- The status line `serialize` writes, without its line end. -/
def statusLine (response : HttpResponse J) (memory : Int) : StdString :=
  let status := response.status.getD memory
  response.protocol ++ ascii " " ++ StdString.ofInt status ++ ascii " " ++
    getResponseMessage status

/-- One header line, without its line end. -/
def headerLine (header : StdString × StdString) : StdString :=
  header.1 ++ ascii ": " ++ header.2

/-- The lines of the head, in the order `serialize` writes them. -/
def headLines (response : HttpResponse J) (memory : Int) :
    List StdString :=
  response.statusLine memory :: response.headers.toList.map headerLine

/--
What `serialize` appends to `head` before it looks at the body: each line
with its line end, and the blank line.
-/
def headSection (response : HttpResponse J) (memory : Int) : StdString :=
  (response.headLines memory).flatMap (· ++ crlf) ++ crlf

/-- What `serialize` appends to its sink; `dump` can throw. -/
def bodySection (response : HttpResponse J) : Except StdString StdString :=
  match response.body.type with
  | .text => .ok response.body.rawData
  | .json => Json.dump response.body.jsonData
  | .binary => .ok response.body.binaryData
  | .empty => .ok []
  | .formData => .ok []
  | .multipart => .ok []

/--
`HttpResponse::serialize`: the new contents of `head` and `body`.
`memory` is what an unassigned `$status` happens to hold.
-/
def serialize
    (response : HttpResponse J)
    (memory : Int) (splitAbove : Nat) (includeBody : Bool) :
    Except StdString (StdString × StdString) :=
  let head := response.headSection memory
  if includeBody then
    match response.bodySection with
    | .ok text =>
        if response.body.length > splitAbove then .ok (head, text)
        else .ok (head ++ text, [])
    | .error what => .error what
  else .ok (head, [])

/--
What `serialize` yields: the head section and the text of the body behind it,
in one piece or in two.
-/
theorem serialize_sections
    {response : HttpResponse J} {memory : Int} {splitAbove : Nat}
    {includeBody : Bool} {head body : StdString}
    (serialized :
      response.serialize memory splitAbove includeBody =
        .ok (head, body)) :
    ∃ text,
      (if includeBody then response.bodySection = .ok text else text = []) ∧
        response.headSection memory <+: head ∧
          head ++ body = response.headSection memory ++ text := by
  cases includeBody with
  | false =>
      obtain ⟨rfl, rfl⟩ := Prod.mk.inj (Except.ok.inj serialized)
      exact ⟨[], by simp, List.prefix_rfl, rfl⟩
  | true =>
      cases written : response.bodySection with
      | error what =>
          simp only [serialize, written, if_true] at serialized
          cases serialized
      | ok text =>
          simp only [serialize, written, if_true] at serialized
          split_ifs at serialized
          · obtain ⟨rfl, rfl⟩ := Prod.mk.inj (Except.ok.inj serialized)
            exact ⟨text, by simp, List.prefix_rfl, rfl⟩
          · obtain ⟨rfl, rfl⟩ := Prod.mk.inj (Except.ok.inj serialized)
            exact
              ⟨text, by simp, List.prefix_append _ _, List.append_nil _⟩

/-- `HttpResponse::prepareResponse`. -/
def prepareResponse (response : HttpResponse J) (memory : Int) :
    Except StdString StdString :=
  match response.serialize memory (2 ^ 64 - 1) true with
  | .ok (head, _) => .ok head
  | .error what => .error what

end HttpResponse

/-! ## A JSON library for closed examples -/

/--
The null value and objects of strings, the only values the program builds
itself.
-/
inductive FlatJson where
  | null
  | object (pairs : List (StdString × StdString))
deriving DecidableEq

namespace FlatJson

def quoted (text : StdString) : StdString :=
  ascii "\"" ++ text ++ ascii "\""

/--
Compact output with the keys in order, as the real library prints objects
of strings without quotes, backslashes and control characters.  A string that
is not valid UTF-8 makes it throw.
-/
def dump : FlatJson → Except StdString StdString
  | .null => .ok (ascii "null")
  | .object pairs =>
      let sorted : StdMap :=
        pairs.foldl (fun map pair => map.insert pair.1 pair.2) ∅
      let members :=
        sorted.toList.map fun pair =>
          quoted pair.1 ++ ascii ":" ++ quoted pair.2
      if ∀ pair ∈ pairs, ValidUtf8 pair.1 ∧ ValidUtf8 pair.2 then
        .ok (ascii "\x7b" ++ (ascii ",").intercalate members ++ ascii "\x7d")
      else .error (ascii "invalid UTF-8 byte")

end FlatJson

instance : Json FlatJson where
  null := .null
  object := .object
  dump := FlatJson.dump
  parse text :=
    if text = ascii "null" then .ok .null
    else .error (ascii "parse error")

theorem FlatJson.dumpsUtf8 : Json.DumpsUtf8 FlatJson where
  object_iff pairs _ := by
    show (∃ text, FlatJson.dump (.object pairs) = .ok text) ↔ _
    by_cases valid : ∀ pair ∈ pairs, ValidUtf8 pair.1 ∧ ValidUtf8 pair.2
    · rw [FlatJson.dump, if_pos valid]
      exact iff_of_true ⟨_, rfl⟩ valid
    · rw [FlatJson.dump, if_neg valid]
      exact iff_of_false (by simp) valid

end PlusWeb
