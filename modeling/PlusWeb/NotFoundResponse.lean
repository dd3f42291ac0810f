import PlusWeb.ConnTranscript

/-!
# Requests that no route matches

`handleRequest` answers such a request with a JSON document that holds the
decoded path.  Percent-decoding produces any bytes, and the JSON library
throws on bytes that are not UTF-8; the exception leaves the handler and the
parser callback turns it into a failure of the request.  And where llhttp pauses
for an upgrade or finds bytes behind the last request, the parser reports the
read as malformed although the requests in it are answered.
-/

namespace PlusWeb

variable {J A : Type} [Json J]

/-! ## The head -/

omit [Json J] in
/-- Each line of the head stands there with its line end. -/
theorem HttpResponse.infix_headSection
    {response : HttpResponse J} {memory : Int} {line : StdString}
    (member : line ∈ response.headLines memory) :
    line ++ crlf <:+: response.headSection memory := by
  rcases List.append_of_mem member with ⟨front, back, cut⟩
  refine
    ⟨front.flatMap (· ++ crlf), back.flatMap (· ++ crlf) ++ crlf, ?_⟩
  rw [headSection, cut]
  simp

/--
The head is a 404 response that says whether the connection stays
open.
-/
structure NotFoundHead (keepAlive : Bool) (head : StdString) : Prop where
  status : ascii "HTTP/1.1 404 Not Found" ++ HttpResponse.crlf <+: head
  connection :
    ascii "Connection: " ++
        (if keepAlive then ascii "keep-alive" else ascii "close") ++
          HttpResponse.crlf <:+: head

/-- The request is answered 404, and the keep-alive decision is kept. -/
def AnsweredNotFound (keepAlive : Bool) (served : Served A) : Prop :=
  served.shouldClose = !keepAlive ∧
    ∃ head body, served.reply = .ok (head, body) ∧
      NotFoundHead keepAlive head

/-! ## The 404 document -/

/-- The document of the 404 answer. -/
def notFoundDocument (J : Type) [Json J] (req : HttpRequest J) : J :=
  Json.object
    [(ascii "error", ascii "Not Found"), (ascii "path", req.path),
      (ascii "method", req.method)]

/-- The document can be printed exactly if path and method are valid. -/
theorem dump_notFoundDocument_iff
    (dumps : Json.DumpsUtf8 J) (req : HttpRequest J) :
    (∃ text, Json.dump (notFoundDocument J req) = .ok text) ↔
      ValidUtf8 req.path ∧ ValidUtf8 req.method := by
  have names :
      ([(ascii "error", ascii "Not Found"), (ascii "path", req.path),
        (ascii "method", req.method)].map Prod.fst).Nodup := by
    show [ascii "error", ascii "path", ascii "method"].Nodup
    decide
  rw [notFoundDocument, dumps.object_iff _ names]
  have fixed :
      ValidUtf8 (ascii "error") ∧ ValidUtf8 (ascii "Not Found") ∧
        ValidUtf8 (ascii "path") ∧ ValidUtf8 (ascii "method") := by
    decide +kernel
  simp [fixed]

section Serving

variable {setup : Setup} {callbacks : Callbacks J A} {memory : Int}
  {request : HttpRequest J} {keepAlive shouldClose : Bool} {app : A}

/-- Without middleware, a miss runs the 404 answer alone. -/
theorem runChain_of_miss
    (noMiddleware : setup.server.queue = [])
    (missed : (setup.server.getHandler request).1 = none)
    (res : HttpResponse J) :
    setup.runChain callbacks ⟨⟨request, res, app⟩, []⟩ =
      notFound ⟨⟨request, res, app⟩, []⟩ := by
  rw [Setup.runChain, noMiddleware]
  show runRoute _ _ _ = _
  simp only [runRoute, getHandler_of_miss missed]
  rfl

/-- A miss whose document cannot be printed throws. -/
theorem handleRequest_of_invalid
    (noMiddleware : setup.server.queue = [])
    (missed : (setup.server.getHandler request).1 = none)
    {what : StdString}
    (failed : Json.dump (notFoundDocument J request) = .error what) :
    (handleRequest setup callbacks memory request keepAlive shouldClose
        app).reply = .error (.stdException what) := by
  have threw :
      notFound (A := A) ⟨⟨request, HttpResponse.fresh, app⟩, []⟩ =
        (.threw (.stdException what),
          (notFound (A := A)
            ⟨⟨request, HttpResponse.fresh, app⟩, []⟩).2) := by
    rw [notFoundDocument] at failed
    simp only [notFound, HttpResponse.sendJson, HttpBody.setJson, failed]
  rw [handleRequest, runChain_of_miss noMiddleware missed, threw]

/-- The response object of the 404 answer. -/
def notFoundResponse (request : HttpRequest J) (text : StdString) :
    HttpResponse J :=
  let response : HttpResponse J := HttpResponse.fresh.setStatus 404
  let body : HttpBody J :=
    { (HttpBody.new : HttpBody J) with
      type := .json
      jsonData := notFoundDocument J request
      rawData := text }
  { response with body := body }.sendHeaders (ascii "application/json")

/-- The head of the 404 answer. -/
theorem notFoundHead
    (request : HttpRequest J) (text : StdString) (keepAlive : Bool)
    {head : StdString}
    (begins :
      ((notFoundResponse request text).complete keepAlive).headSection
        memory <+: head) :
    NotFoundHead keepAlive head := by
  constructor
  · have line :
        ((notFoundResponse request text).complete keepAlive).statusLine
            memory =
          ascii "HTTP/1.1 404 Not Found" := by
      show ascii "HTTP/1.1" ++ ascii " " ++ StdString.ofInt 404 ++
          ascii " " ++ HttpResponse.getResponseMessage 404 = _
      decide +kernel
    refine List.IsPrefix.trans ?_ begins
    rw [HttpResponse.headSection, HttpResponse.headLines, List.flatMap_cons,
      line, List.append_assoc]
    exact List.prefix_append _ _
  · refine List.IsInfix.trans ?_ begins.isInfix
    have value :
        ascii "Connection: " ++
            (if keepAlive then ascii "keep-alive" else ascii "close") =
          HttpResponse.headerLine
            (ascii "Connection",
              if keepAlive then ascii "keep-alive" else ascii "close") := by
      cases keepAlive <;> decide
    rw [value]
    apply HttpResponse.infix_headSection
    refine List.mem_cons_of_mem _ (List.mem_map_of_mem ?_)
    rw [Std.ExtTreeMap.mem_toList_iff_getElem?_eq_some,
      HttpResponse.complete, HttpResponse.setHeader,
      StdMap.getElem?_insert, if_neg (by decide), HttpResponse.setHeader,
      StdMap.getElem?_insert, if_pos rfl]

/-- A miss whose document can be printed is answered. -/
theorem handleRequest_of_valid
    (noMiddleware : setup.server.queue = [])
    (missed : (setup.server.getHandler request).1 = none)
    {text : StdString}
    (printed : Json.dump (notFoundDocument J request) = .ok text) :
    AnsweredNotFound keepAlive
      (handleRequest setup callbacks memory request keepAlive shouldClose
        app) := by
  have returned :
      notFound (A := A) ⟨⟨request, HttpResponse.fresh, app⟩, []⟩ =
        (.returned, ⟨⟨request, notFoundResponse request text, app⟩, []⟩) := by
    have printed' := printed
    rw [notFoundDocument] at printed'
    simp only [notFound, HttpResponse.sendJson, HttpBody.setJson, printed']
    rfl
  have chain :
      setup.runChain callbacks ⟨⟨request, HttpResponse.fresh, app⟩, []⟩ = _ :=
    runChain_of_miss noMiddleware missed HttpResponse.fresh
  rw [returned] at chain
  have section_ :
      ((notFoundResponse request text).complete keepAlive).bodySection =
        .ok text := printed
  rw [handleRequest, chain]
  refine ⟨rfl, ?_⟩
  simp only [HttpResponse.serialize, section_]
  split_ifs
  · exact ⟨_, _, rfl, notFoundHead request text keepAlive (List.prefix_refl _)⟩
  · exact
      ⟨_, _, rfl, notFoundHead request text keepAlive (List.prefix_append _ _)⟩
  · exact ⟨_, _, rfl, notFoundHead request text keepAlive (List.prefix_refl _)⟩

end Serving

/-! ## The request that arrives -/

omit [Json J] in
theorem applyTarget_method (target : StdString) (req : HttpRequest J) :
    (applyTarget target req).method = req.method := by
  rw [applyTarget, separateQuery]
  cases StdString.find (stripAuthority (Utils.urlDecode target)) (ascii "?")
    0 <;> rfl

theorem request_method
    {impl : Impl} {info : MessageInfo} {request : HttpRequest J}
    (built : impl.request info = .ok request) :
    request.method = info.method := by
  unfold Impl.request at built
  cases body : (impl.requestBody :
      Except CxxException (StdMap × HttpBody J)) with
  | error exception =>
      rw [body] at built
      cases built
  | ok parts =>
      rw [body] at built
      obtain rfl := Except.ok.inj built
      exact applyTarget_method _ _

/-- A request that is delivered has the method that llhttp names. -/
theorem delivered_method
    {llhttp : Llhttp} {parser : HttpParser llhttp} {data : StdString}
    {delivery : HttpRequest J × Bool}
    (member : delivery ∈ parser.delivers J data) :
    ∃ info, .messageComplete info ∈
        (llhttp.execute parser.state data).callbacks ∧
      delivery.1.method = info.method := by
  obtain ⟨front, back, cut⟩ := List.append_of_mem member
  obtain ⟨early, info, late, before, callbacks, -, -, built, -⟩ :=
    Impl.foldlM_record_split
      (Prod.ext rfl cut :
        parser.reads J data =
          ((parser.reads J data).1,
            front ++ (delivery.1, delivery.2) :: back))
  refine ⟨info, ?_, request_method built⟩
  rw [callbacks]
  exact List.mem_append_right _ List.mem_cons_self

/-! ## The read that delivers it -/

/-- llhttp names the method of a message by a valid text. -/
def Callback.Named : Callback → Prop
  | .messageComplete info => ValidUtf8 info.method
  | _ => True

instance : DecidablePred Callback.Named
  | .messageComplete info =>
      inferInstanceAs (Decidable (ValidUtf8 info.method))
  | .url _ => .isTrue trivial
  | .headerField _ => .isTrue trivial
  | .headerValue _ => .isTrue trivial
  | .headersComplete => .isTrue trivial
  | .body _ => .isTrue trivial

namespace Server

variable {server : Server J A} {request : HttpRequest J} {keepAlive : Bool}

/-- The handler call for a miss returns if the path can be printed. -/
theorem onRequest_of_miss
    (dumps : Json.DumpsUtf8 J)
    (noMiddleware : server.setup.server.queue = [])
    (missed : (server.setup.server.getHandler request).1 = none)
    (named : ValidUtf8 request.method) (valid : ValidUtf8 request.path)
    (session : Session J A) :
    (server.onRequest request keepAlive session).1 = .returned := by
  obtain ⟨text, printed⟩ :=
    (dump_notFoundDocument_iff dumps request).mpr ⟨valid, named⟩
  have answered :
      AnsweredNotFound keepAlive
        (server.serve request keepAlive
          (session.note (.delivered request keepAlive))) :=
    handleRequest_of_valid noMiddleware missed printed
  obtain ⟨-, head, body, replied, -⟩ := answered
  rw [onRequest_ok replied]

/-- A miss that is answered has a path that can be printed. -/
theorem printable_of_answers
    {turn : Turn J} (answers : turn.Answers server)
    (noMiddleware : server.setup.server.queue = [])
    (missed : (server.setup.server.getHandler turn.request).1 = none) :
    ∃ text, Json.dump (notFoundDocument J turn.request) = .ok text := by
  rcases answers with ⟨memory, shouldClose, app, replied⟩
  cases printed : Json.dump (notFoundDocument J turn.request) with
  | ok text => exact ⟨text, rfl⟩
  | error what =>
      rw [handleRequest_of_invalid noMiddleware missed printed] at replied
      cases replied

/-- The response to a miss is a 404 with the keep-alive decision. -/
theorem notFoundHead_of_answers
    {turn : Turn J} (answers : turn.Answers server)
    (noMiddleware : server.setup.server.queue = [])
    (missed : (server.setup.server.getHandler turn.request).1 = none) :
    NotFoundHead turn.keepAlive turn.head := by
  obtain ⟨text, printed⟩ :=
    printable_of_answers answers noMiddleware missed
  rcases answers with ⟨memory, shouldClose, app, replied⟩
  obtain ⟨-, head, body, replied', is404⟩ :
      AnsweredNotFound turn.keepAlive
        (handleRequest server.setup server.callbacks memory turn.request
          turn.keepAlive shouldClose app) :=
    handleRequest_of_valid noMiddleware missed printed
  rw [replied] at replied'
  obtain ⟨rfl, -⟩ := Prod.mk.inj (Except.ok.inj replied')
  exact is404

end Server

namespace Conn

variable {llhttp : Llhttp}

/--
A read is answered: each of its requests has its response, which is a 404 if
no route matches the request, nothing else is sent, and the connection is
closed exactly if the last request asks for it or a write fails.
-/
structure AnsweredRead
    (server : Server J A) (conn : Conn llhttp J A) (data : StdString)
    (turns : List (Turn J)) : Prop where
  requests : turns.map Turn.delivery = conn.parser.delivers J data
  answers : ∀ turn ∈ turns, turn.Answers server
  notFound : ∀ turn ∈ turns,
    (server.setup.server.getHandler turn.request).1 = none →
      NotFoundHead turn.keepAlive turn.head
  log : (conn.onRead server data).session.log =
    conn.session.log ++ turns.flatMap Turn.entries
  running : (conn.onRead server data).session.terminated = false
  closing : (conn.onRead server data).session.closing = true ↔
    (∃ turn, turns.getLast? = some turn ∧ turn.keepAlive = false) ∨
      ∃ count < turns.length,
        server.kernel (conn.session.stream.writes + count) = .fails

/--
A read without fault is accepted, if llhttp neither pauses nor finds bytes
behind the last message, and refused with 400 otherwise.
-/
theorem ends_of_not_rejects
    {parser : HttpParser llhttp} {data : StdString}
    (wellFormed : ¬ parser.Rejects J data) :
    ((llhttp.execute parser.state data).errno ≠ .pausedUpgrade ∧
        (llhttp.execute parser.state data).errno ≠ .closedConnection →
      ∃ next, parser.ends J data .returned = .accepted next) ∧
    ((llhttp.execute parser.state data).errno = .pausedUpgrade ∨
        (llhttp.execute parser.state data).errno = .closedConnection →
      ∃ reason, parser.ends J data .returned = .failed 400 reason) := by
  rw [HttpParser.Rejects, not_or] at wellFormed
  obtain ⟨impl, read⟩ : ∃ impl, (parser.reads J data).1 = .ok impl := by
    cases read : (parser.reads J data).1 with
    | ok impl => exact ⟨impl, rfl⟩
    | error stop =>
        cases stop with
        | failed failure headerLimitHit =>
            exact absurd ⟨failure, headerLimitHit, read⟩ wellFormed.1
        | escaped exception =>
            exact absurd read (Impl.foldlM_record_returns _ _ _ _)
  rw [HttpParser.ends, read]
  cases errno : (llhttp.execute parser.state data).errno with
  | ok => simp [HttpParser.ending, errno]
  | pausedUpgrade => simp [HttpParser.ending, errno]
  | closedConnection => simp [HttpParser.ending, errno]
  | other name => exact absurd ⟨name, errno⟩ wellFormed.2

/-- An accepted read whose handler calls return is answered. -/
theorem answeredRead_of_accepted
    {server : Server J A} {conn : Conn llhttp J A} {data : StdString}
    {next : HttpParser llhttp}
    (noMiddleware : server.setup.server.queue = [])
    (live : conn.session.live = true)
    (accepted : conn.parser.ends J data .returned = .accepted next)
    (returned :
      (server.onRequest.each (conn.parser.delivers J data)
        { conn.session with shouldClose := false }).1 = .returned) :
    ∃ turns, conn.AnsweredRead server data turns := by
  obtain ⟨isOpen, running⟩ :
      conn.session.closing = false ∧ conn.session.terminated = false := by
    simpa [Session.live] using live
  rcases called :
      server.onRequest.each (conn.parser.delivers J data)
        { conn.session with shouldClose := false } with
    ⟨outcome, after⟩
  rw [called] at returned
  obtain rfl : outcome = .returned := returned
  obtain ⟨turns, requests, answers, log, last⟩ := server.each_turns called
  have read :
      conn.onRead server data =
        ⟨next, if after.shouldClose then after.closeConn else after⟩ := by
    rw [onRead, HttpParser.execute_ends, called]
    dsimp only
    rw [accepted]
    rfl
  have count : turns.length = (conn.parser.delivers J data).length := by
    rw [← requests, List.length_map]
  have kept : after.terminated = false := by
    have same :=
      RequestHandler.preserves_each
        (fun request keepAlive =>
          server.onRequest_terminated request keepAlive false)
        (conn.parser.delivers J data)
        { conn.session with shouldClose := false } running
    rwa [called] at same
  have written :
      after.closing = false ↔
        ∀ count < (conn.parser.delivers J data).length,
          server.kernel (conn.session.stream.writes + count) ≠ .fails := by
    apply server.each_closing_iff _ called
    exact isOpen
  have asks :
      after.shouldClose = true ↔
        ∃ turn, turns.getLast? = some turn ∧ turn.keepAlive = false := by
    rw [last, ← requests, List.getLast?_map]
    cases turns.getLast? <;> simp [Turn.delivery]
  refine
    ⟨turns,
      { requests := requests
        answers := answers
        notFound := fun turn member missed =>
          Server.notFoundHead_of_answers (answers turn member) noMiddleware
            missed
        log := ?_
        running := ?_
        closing := ?_ }⟩
  · rw [read, ← log]
    split_ifs
    · exact Session.closeConn_log after
    · rfl
  · rw [read]
    split_ifs
    · unfold Session.closeConn
      split_ifs <;> exact kept
    · exact kept
  · rw [read, ← asks, count]
    cases closes : after.shouldClose with
    | true => simp [Session.closeConn_closing]
    | false =>
        rw [if_neg (by simp), ← Bool.not_eq_false, written]
        simp

/--
A read that is refused with 400 is not answered: there is one more
response.
-/
theorem not_answeredRead_of_refused
    {server : Server J A} {conn : Conn llhttp J A} {data reason : StdString}
    {turns : List (Turn J)}
    (refused : conn.parser.ends J data .returned = .failed 400 reason)
    (returned :
      (server.onRequest.each (conn.parser.delivers J data)
        { conn.session with shouldClose := false }).1 = .returned) :
    ¬ conn.AnsweredRead server data turns := by
  intro answered
  rcases called :
      server.onRequest.each (conn.parser.delivers J data)
        { conn.session with shouldClose := false } with
    ⟨outcome, after⟩
  rw [called] at returned
  obtain rfl : outcome = .returned := returned
  obtain ⟨own, requests, -, log, -⟩ := server.each_turns called
  have read :
      conn.onRead server data =
        afterExecute server conn.parser
          ((.failed 400 reason : Executed llhttp), after) := by
    rw [onRead, HttpParser.execute_ends, called]
    dsimp only
    rw [refused]
  have count : turns.length = own.length := by
    simpa using
      congrArg List.length (answered.requests.trans requests.symm)
  cases made : errorResponse J (400 : Nat) with
  | error exception =>
      have running := answered.running
      rw [read] at running
      simp only [afterExecute, made] at running
      cases running
  | ok reply =>
      have sent :
          (conn.onRead server data).session.log =
            conn.session.log ++ own.flatMap Turn.entries ++
              [.sent reply []] := by
        rw [read]
        simp only [afterExecute, made, Session.closeConn_log,
          Session.send_log, log]
      have length := congrArg List.length (answered.log.symm.trans sent)
      simp only [List.length_append, Turn.length_flatMap_entries, count,
        List.length_singleton] at length
      omega

variable {server : Server J A} {conn : Conn llhttp J A} {data : StdString}

/--
The calls of a read return, if the path of each miss can be printed and
the other handlers return.
-/
theorem each_returned_of_valid
    (dumps : Json.DumpsUtf8 J)
    (noMiddleware : server.setup.server.queue = [])
    (named : ∀ callback ∈ (llhttp.execute conn.parser.state data).callbacks,
      callback.Named)
    (others : ∀ delivery ∈ conn.parser.delivers J data,
      (server.setup.server.getHandler delivery.1).1 ≠ none →
        ∀ session,
          (server.onRequest delivery.1 delivery.2 session).1 = .returned)
    (valid : ∀ delivery ∈ conn.parser.delivers J data,
      (server.setup.server.getHandler delivery.1).1 = none →
        ValidUtf8 delivery.1.path)
    (session : Session J A) :
    (server.onRequest.each (conn.parser.delivers J data) session).1 =
      .returned := by
  apply RequestHandler.each_returned
  intro delivery member session
  by_cases missed : (server.setup.server.getHandler delivery.1).1 = none
  · obtain ⟨info, reported, same⟩ := delivered_method member
    refine
      Server.onRequest_of_miss dumps noMiddleware missed ?_
        (valid delivery member missed) session
    rw [same]
    exact named _ reported
  · exact others delivery member missed session

/-- The path of a miss that is answered can be printed. -/
theorem AnsweredRead.valid
    {turns : List (Turn J)} (answered : conn.AnsweredRead server data turns)
    (dumps : Json.DumpsUtf8 J)
    (noMiddleware : server.setup.server.queue = [])
    {delivery : HttpRequest J × Bool}
    (member : delivery ∈ conn.parser.delivers J data)
    (missed : (server.setup.server.getHandler delivery.1).1 = none) :
    ValidUtf8 delivery.1.path := by
  rw [← answered.requests] at member
  obtain ⟨turn, own, rfl⟩ := List.mem_map.mp member
  have printable :=
    Server.printable_of_answers (answered.answers turn own) noMiddleware
      missed
  exact ((dump_notFoundDocument_iff dumps turn.request).mp printable).1

/--
A read of an open connection is answered, with a 404 for each request that no
route matches and with the keep-alive decision honoured, exactly if the paths
of these requests are valid UTF-8 and llhttp neither pauses for an upgrade nor
finds bytes behind the last request of the connection.

The server has no middleware; nothing in the read is malformed or too large;
the handlers of the other requests of the read return; llhttp names a method
by a valid text.
-/
theorem not_found_answered_iff
    (dumps : Json.DumpsUtf8 J)
    (noMiddleware : server.setup.server.queue = [])
    (live : conn.session.live = true)
    (wellFormed : ¬ conn.parser.Rejects J data)
    (named : ∀ callback ∈ (llhttp.execute conn.parser.state data).callbacks,
      callback.Named)
    (others : ∀ delivery ∈ conn.parser.delivers J data,
      (server.setup.server.getHandler delivery.1).1 ≠ none →
        ∀ session,
          (server.onRequest delivery.1 delivery.2 session).1 = .returned) :
    (∃ turns, conn.AnsweredRead server data turns) ↔
      (∀ delivery ∈ conn.parser.delivers J data,
          (server.setup.server.getHandler delivery.1).1 = none →
            ValidUtf8 delivery.1.path) ∧
        (llhttp.execute conn.parser.state data).errno ≠ .pausedUpgrade ∧
          (llhttp.execute conn.parser.state data).errno ≠
            .closedConnection := by
  obtain ⟨accepts, refuses⟩ := ends_of_not_rejects wellFormed
  constructor
  · rintro ⟨turns, answered⟩
    have valid :
        ∀ delivery ∈ conn.parser.delivers J data,
          (server.setup.server.getHandler delivery.1).1 = none →
            ValidUtf8 delivery.1.path :=
      fun delivery member missed =>
        answered.valid dumps noMiddleware member missed
    have returned :=
      each_returned_of_valid dumps noMiddleware named others valid
        { conn.session with shouldClose := false }
    refine ⟨valid, ?_⟩
    by_contra stopped
    rw [← not_or, not_not] at stopped
    rcases refuses stopped with ⟨reason, refused⟩
    exact not_answeredRead_of_refused refused returned answered
  · rintro ⟨valid, goesOn⟩
    rcases accepts goesOn with ⟨next, accepted⟩
    exact
      answeredRead_of_accepted noMiddleware live accepted
        (each_returned_of_valid dumps noMiddleware named others valid _)

end Conn

/-- A server without routes. -/
def emptyServer : Server FlatJson Unit where
  setup := Setup.build []
  callbacks := ⟨fun _ => .done, fun _ => Action.skip⟩
  memory _ := 0
  kernel _ := .takes 0

/-- A connection to it. -/
def emptyConn : Conn bodilessRequests.llhttp FlatJson Unit :=
  Conn.new bodilessRequests.llhttp ()

/-- Nothing is wrong with these reads. -/
theorem not_rejects_of_isOk
    {parser : HttpParser bodilessRequests.llhttp} {data : StdString}
    (accepted : (parser.reads FlatJson data).1.isOk = true)
    (errno : (bodilessRequests.llhttp.execute parser.state data).errno ∈
      [Errno.ok, .pausedUpgrade, .closedConnection]) :
    ¬ parser.Rejects FlatJson data := by
  rintro (⟨failure, headerLimitHit, stopped⟩ | ⟨name, other⟩)
  · rw [stopped] at accepted
    cases accepted
  · simp [other] at errno

theorem not_found_answered_iff_accented :
    ∃ turns,
      emptyConn.AnsweredRead emptyServer
        (ascii "GET /caf%C3%A9 HTTP/1.1\r\n\r\n") turns := by
  refine
    (Conn.not_found_answered_iff FlatJson.dumpsUtf8 rfl rfl
      (not_rejects_of_isOk (by decide +kernel) (by decide +kernel))
      (by decide +kernel) ?_).mpr
        ⟨by decide +kernel, by decide +kernel, by decide +kernel⟩
  have misses :
      ∀ delivery ∈ emptyConn.parser.delivers FlatJson
          (ascii "GET /caf%C3%A9 HTTP/1.1\r\n\r\n"),
        (emptyServer.setup.server.getHandler delivery.1).1 = none := by
    decide +kernel
  intro delivery member matched
  exact absurd (misses delivery member) matched

/-- An encoded byte that is not UTF-8 turns the 404 into a 400. -/
theorem not_found_not_answered :
    ¬ ∀ data : StdString,
        ¬ emptyConn.parser.Rejects FlatJson data →
        (∀ callback ∈ (bodilessRequests.llhttp.execute
          emptyConn.parser.state data).callbacks, callback.Named) →
        (∀ delivery ∈ emptyConn.parser.delivers FlatJson data,
          (emptyServer.setup.server.getHandler delivery.1).1 = none) →
        ∃ turns, emptyConn.AnsweredRead emptyServer data turns := by
  intro claim
  have misses :
      ∀ delivery ∈ emptyConn.parser.delivers FlatJson
          (ascii "GET /%ff HTTP/1.1\r\n\r\n"),
        (emptyServer.setup.server.getHandler delivery.1).1 = none := by
    decide +kernel
  obtain ⟨turns, answered⟩ :=
    claim (ascii "GET /%ff HTTP/1.1\r\n\r\n")
      (not_rejects_of_isOk (by decide +kernel) (by decide +kernel))
      (by decide +kernel) misses
  obtain ⟨delivery, member⟩ :=
    List.exists_mem_of_ne_nil
      (emptyConn.parser.delivers FlatJson
        (ascii "GET /%ff HTTP/1.1\r\n\r\n"))
      (by
        rw [← List.length_pos_iff]
        decide +kernel)
  have invalid :
      ∀ delivery ∈ emptyConn.parser.delivers FlatJson
          (ascii "GET /%ff HTTP/1.1\r\n\r\n"),
        ¬ ValidUtf8 delivery.1.path := by
    decide +kernel
  exact
    invalid delivery member
      (answered.valid FlatJson.dumpsUtf8 rfl member
        (misses delivery member))

end PlusWeb
