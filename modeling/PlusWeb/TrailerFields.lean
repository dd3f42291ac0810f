import PlusWeb.ReportedMessages

/-!
# Trailer fields in the headers of a request

Trailers go through the callbacks of the header section.  A trailer is
committed to the headers when the next trailer begins, so all but the last
one are, and they overwrite the fields of the header section.

The headers are the same with and without the trailers exactly if the
trailers before the last repeat what is there.
-/

namespace PlusWeb

variable {J : Type} [Json J] {llhttp : Llhttp}

/--
Reading a body leaves the headers, but adds an empty `Content-Type` where
there is none.
-/
theorem Impl.headers_of_requestBody
    {impl : Impl} {headers : StdMap} {body : HttpBody J}
    (read : impl.requestBody = .ok (headers, body)) (name : StdString) :
    headers[name]? =
      (impl.headers[name]?).or
        (if name = ascii "Content-Type" ∧ impl.body ≠ [] then some []
          else none) := by
  unfold Impl.requestBody at read
  by_cases empty : impl.body = []
  · rw [if_pos empty] at read
    rcases Prod.mk.inj (Except.ok.inj read) with ⟨rfl, -⟩
    simp [empty]
  · rw [if_neg empty] at read
    have same :
        headers =
          impl.headers.insert (ascii "Content-Type")
            (impl.headers[ascii "Content-Type"]?.getD []) := by
      dsimp only at read
      split at read
      · split at read
        · cases read
        · split at read
          · exact (Prod.mk.inj (Except.ok.inj read)).1.symm
          · cases read
      · exact (Prod.mk.inj (Except.ok.inj read)).1.symm
    rw [same, StdMap.getElem?_insert]
    by_cases own : name = ascii "Content-Type"
    · subst own
      cases impl.headers[ascii "Content-Type"]? <;> simp [empty]
    · simp [own]

/-- The headers and the body of a request are those read. -/
theorem Impl.read_of_request
    {impl : Impl} {info : MessageInfo} {request : HttpRequest J}
    (built : impl.request info = .ok request) :
    impl.requestBody = .ok (request.headers, request.body) := by
  unfold Impl.request at built
  cases read : (impl.requestBody : Except _ (StdMap × HttpBody J)) with
  | error exception => simp [read, bind, Except.bind] at built
  | ok both =>
      rcases both with ⟨headers, body⟩
      rw [read] at built
      obtain rfl := Except.ok.inj built
      rfl

namespace ReportedMessage

theorem request_of_outcome
    {message : ReportedMessage} {limit : Nat} {request : HttpRequest J}
    (reached : message.outcome J limit = .ok request) :
    message.gathered.request message.info = .ok request := by
  unfold outcome at reached
  split at reached
  · cases reached
  · split at reached
    · next built =>
      rwa [Except.ok.inj reached] at built
    · cases reached

/-- The same message without its trailers. -/
def withoutTrailers (message : ReportedMessage) : ReportedMessage :=
  { message with trailers := [] }

/-- The fields of the header section. -/
def headerSection (message : ReportedMessage) : StdMap :=
  StdMap.insertAll ∅ (message.fields.map ReportedField.entry)

/-- The trailers that are committed: all but the last. -/
def committedTrailers (message : ReportedMessage) : StdMap :=
  StdMap.insertAll ∅ (message.trailers.dropLast.map ReportedField.entry)

/--
Each trailer that is committed repeats what the request has anyway: the
value of the header section, or the empty `Content-Type` that is added to a
request with a body and without one.
-/
def TrailersRepeat (message : ReportedMessage) : Prop :=
  ∀ name value : StdString,
    message.committedTrailers[name]? = some value →
      message.headerSection[name]? = some value ∨
        message.headerSection[name]? = none ∧
          name = ascii "Content-Type" ∧ message.body.flatten ≠ [] ∧
            value = []

/-- The headers of the request of a message. -/
theorem headers_of_outcome
    {message : ReportedMessage} {limit : Nat} {request : HttpRequest J}
    (reached : message.outcome J limit = .ok request) (name : StdString) :
    request.headers[name]? =
      ((message.committedTrailers[name]?).or
          message.headerSection[name]?).or
        (if name = ascii "Content-Type" ∧ message.body.flatten ≠ [] then
            some []
          else none) := by
  have read := Impl.read_of_request (request_of_outcome reached)
  rw [Impl.headers_of_requestBody read]
  have gathered :
      message.gathered.headers =
        StdMap.insertAll message.headerSection
          (message.trailers.dropLast.map ReportedField.entry) := by
    show StdMap.insertAll ∅ message.committed = _
    rw [committed, List.map_append]
    exact List.foldl_append ..
  rw [gathered, StdMap.getElem?_insertAll]
  rfl

/--
A request has the headers of the header section alone if and only if the
committed trailers repeat what is there.
-/
theorem headers_kept_iff
    {message : ReportedMessage} {limit : Nat}
    {request request' : HttpRequest J}
    (reached : message.outcome J limit = .ok request)
    (reached' : message.withoutTrailers.outcome J limit = .ok request') :
    request.headers = request'.headers ↔ message.TrailersRepeat := by
  have own (name : StdString) := headers_of_outcome reached name
  have alone (name : StdString) := headers_of_outcome reached' name
  have none (name : StdString) :
      message.withoutTrailers.committedTrailers[name]? = none := by
    simp [committedTrailers, withoutTrailers, StdMap.insertAll]
  have fields :
      message.withoutTrailers.headerSection = message.headerSection := rfl
  have body : message.withoutTrailers.body = message.body := rfl
  simp only [none, Option.none_or, fields, body] at alone
  -- name by name, what is committed takes precedence
  have pointwise (name : StdString) :
      request.headers[name]? = request'.headers[name]? ↔
        ∀ value : StdString,
          message.committedTrailers[name]? = some value →
            message.headerSection[name]? = some value ∨
              message.headerSection[name]? = .none ∧
                name = ascii "Content-Type" ∧ message.body.flatten ≠ [] ∧
                  value = [] := by
    rw [own, alone]
    cases message.committedTrailers[name]? with
    | none => simp
    | some written =>
        cases message.headerSection[name]? with
        | some kept => simp [eq_comm]
        | none =>
            by_cases added :
                name = ascii "Content-Type" ∧ message.body.flatten ≠ []
            · simp [added]
            · rw [if_neg added]
              refine iff_of_false (by simp) fun repeats => ?_
              rcases repeats written rfl with held | ⟨-, same, some_, -⟩
              · cases held
              · exact added ⟨same, some_⟩
  constructor
  · intro same name value
    exact (pointwise name).mp (by rw [same]) value
  · intro repeats
    apply Std.ExtTreeMap.ext_getElem?
    intro name
    exact (pointwise name).mpr (repeats name)

end ReportedMessage

/--
The handler is given the same headers with and without the trailers if
and only if each trailer but the last repeats what is there.

The message and the same message without its trailers stand anywhere in two
streams, cut in any way.
-/
theorem trailers_kept_iff
    (llhttp : Llhttp) (maxHeaderBytes : Nat)
    {chunks chunks' : List StdString}
    {messages messages' : List ReportedMessage}
    {rest rest' : List Callback}
    (reports : llhttp.Reports chunks messages rest)
    (reports' : llhttp.Reports chunks' messages' rest')
    {position position' : Nat} {message : ReportedMessage}
    (placed : messages[position]? = some message)
    (placed' : messages'[position']? = some message.withoutTrailers)
    {given given' : HttpRequest J × Bool}
    (delivered :
      (deliveries J llhttp maxHeaderBytes chunks)[position]? = some given)
    (delivered' :
      (deliveries J llhttp maxHeaderBytes chunks')[position']? =
        some given') :
    given.1.headers = given'.1.headers ↔ message.TrailersRepeat := by
  rw [deliveries_of_reports reports] at delivered
  rw [deliveries_of_reports reports'] at delivered'
  exact
    ReportedMessage.headers_kept_iff (outcome_of_delivery delivered placed)
      (outcome_of_delivery delivered' placed')

/-! ## Examples -/

/--
An llhttp that reports these callbacks for these bytes, and finds an
error in any others.
-/
def scriptedLlhttp (script : List (StdString × List Callback)) : Llhttp where
  State := Unit
  init := ()
  execute _ bytes :=
    match script.lookup bytes with
    | some callbacks => ⟨callbacks, .ok, [], ()⟩
    | none => ⟨[], .other (ascii "HPE_INVALID_METHOD"), [], ()⟩

/-- A field line reported in one span each. -/
def ReportedField.single
    (name value : StdString) (named : name ≠ []) : ReportedField where
  name := [name]
  value := [value]
  named := by simpa using named
  valued := by simp

/-- An upload in one chunk, before its trailers. -/
def uploadHead : StdString :=
  ascii "POST /upload HTTP/1.1\r\nAuthorization: user\r\n" ++
    ascii "Transfer-Encoding: chunked\r\n\r\n2\r\nhi\r\n0\r\n"

/-- What llhttp reports of an upload. -/
def upload (trailers : List ReportedField) : ReportedMessage where
  target := [ascii "/upload"]
  fields :=
    [.single (ascii "Authorization") (ascii "user") (by decide),
      .single (ascii "Transfer-Encoding") (ascii "chunked") (by decide)]
  body := [ascii "hi"]
  trailers := trailers
  info := ⟨ascii "POST", 1, 1, true⟩

/-- The trailer that tells the digest of the upload. -/
def digestTrailer : ReportedField :=
  .single (ascii "Digest") (ascii "d") (by decide)

/-- A trailer with the name of a header. -/
def authorizationTrailer : ReportedField :=
  .single (ascii "Authorization") (ascii "admin") (by decide)

/-- Uploads without, with one and with two trailers. -/
def uploads : Llhttp :=
  scriptedLlhttp
    [(uploadHead ++ ascii "\r\n", (upload []).callbacks),
      (uploadHead ++ ascii "Digest: d\r\n\r\n",
        (upload [digestTrailer]).callbacks),
      (uploadHead ++ ascii "Authorization: admin\r\nDigest: d\r\n\r\n",
        (upload [authorizationTrailer, digestTrailer]).callbacks)]

theorem uploads_reports_plain :
    uploads.Reports [uploadHead ++ ascii "\r\n"] [upload []] [] :=
  ⟨by decide +kernel, by simp⟩

theorem uploads_reports_digest :
    uploads.Reports [uploadHead ++ ascii "Digest: d\r\n\r\n"]
      [upload [digestTrailer]] [] :=
  ⟨by decide +kernel, by simp⟩

theorem uploads_reports_authorization :
    uploads.Reports
      [uploadHead ++ ascii "Authorization: admin\r\nDigest: d\r\n\r\n"]
      [upload [authorizationTrailer, digestTrailer]] [] :=
  ⟨by decide +kernel, by simp⟩

/-- The request delivered for an upload alone. -/
def uploaded (trailerLines : StdString) : Option (HttpRequest FlatJson × Bool) :=
  (deliveries FlatJson uploads kMaxHeaderBytes
    [uploadHead ++ trailerLines])[0]?

theorem trailers_kept_iff_digest :
    ∃ given given' : HttpRequest FlatJson × Bool,
      uploaded (ascii "Digest: d\r\n\r\n") = some given ∧
        uploaded (ascii "\r\n") = some given' ∧
        given.1.headers = given'.1.headers := by
  obtain ⟨given, delivered⟩ := Option.isSome_iff_exists.mp
    (show (uploaded (ascii "Digest: d\r\n\r\n")).isSome by decide +kernel)
  obtain ⟨given', delivered'⟩ := Option.isSome_iff_exists.mp
    (show (uploaded (ascii "\r\n")).isSome by decide +kernel)
  have nothing : (upload [digestTrailer]).TrailersRepeat := by
    intro name value held
    simp [ReportedMessage.committedTrailers, upload, StdMap.insertAll] at held
  exact
    ⟨given, given', delivered, delivered',
      (trailers_kept_iff uploads kMaxHeaderBytes uploads_reports_digest
        uploads_reports_plain rfl rfl delivered delivered').mpr nothing⟩

/-- The first of two trailers replaces the header of its name. -/
theorem trailer_overwrites :
    ¬ ∀ (llhttp : Llhttp) (chunks chunks' : List StdString)
        (messages messages' : List ReportedMessage)
        (rest rest' : List Callback) (position position' : Nat)
        (message : ReportedMessage)
        (given given' : HttpRequest FlatJson × Bool),
        llhttp.Reports chunks messages rest →
        llhttp.Reports chunks' messages' rest' →
        messages[position]? = some message →
        messages'[position']? = some message.withoutTrailers →
        (deliveries FlatJson llhttp kMaxHeaderBytes chunks)[position]? =
          some given →
        (deliveries FlatJson llhttp kMaxHeaderBytes chunks')[position']? =
          some given' →
        given.1.headers = given'.1.headers := by
  intro claim
  obtain ⟨given, delivered⟩ := Option.isSome_iff_exists.mp
    (show (uploaded (ascii
      "Authorization: admin\r\nDigest: d\r\n\r\n")).isSome by
        decide +kernel)
  obtain ⟨given', delivered'⟩ := Option.isSome_iff_exists.mp
    (show (uploaded (ascii "\r\n")).isSome by decide +kernel)
  have same :=
    claim uploads _ _ _ _ _ _ 0 0 _ given given'
      uploads_reports_authorization uploads_reports_plain rfl rfl delivered
      delivered'
  have seen :
      ((uploaded (ascii
        "Authorization: admin\r\nDigest: d\r\n\r\n")).map fun given =>
          given.1.headers[ascii "Authorization"]?) ≠
        (uploaded (ascii "\r\n")).map fun given =>
          given.1.headers[ascii "Authorization"]? := by
    decide +kernel
  rw [delivered, delivered'] at seen
  exact seen (by simp [same])

end PlusWeb
