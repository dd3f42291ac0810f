import PlusWeb.ConnectionResponses

/-!
# Exceptions of handlers and the parser

A request handler that throws a `std::exception` makes the parser fail: the
read sends nothing for the request but the one error response, and closes.
The clause around the handler catches nothing else, so a value of any other
type leaves `execute` through the frames of llhttp.
-/

namespace PlusWeb

variable {J A : Type} {llhttp : Llhttp}

/--
A request of a read whose handling throws, behind requests that were
answered.
-/
structure HandlerFailure (J A : Type) where
  front : List (HttpRequest J × Bool)
  request : HttpRequest J
  keepAlive : Bool
  back : List (HttpRequest J × Bool)
  answered : Session J A
  exception : CxxException
  failed : Session J A

variable [Json J]

namespace HandlerFailure

/-- The failure occurs when these requests are delivered. -/
structure Occurs
    (failure : HandlerFailure J A) (server : Server J A)
    (deliveries : List (HttpRequest J × Bool)) (session : Session J A) :
    Prop where
  cut :
    deliveries =
      failure.front ++ (failure.request, failure.keepAlive) :: failure.back
  before :
    server.onRequest.each failure.front session =
      (.returned, failure.answered)
  threw :
    server.onRequest failure.request failure.keepAlive failure.answered =
      (.threw failure.exception, failure.failed)

variable {server : Server J A} {deliveries : List (HttpRequest J × Bool)}
  {session : Session J A}

/-- The handler's calls end with the failure. -/
theorem Occurs.each
    {failure : HandlerFailure J A}
    (occurs : failure.Occurs server deliveries session) :
    server.onRequest.each deliveries session =
      (.threw failure.exception, failure.failed) := by
  rcases occurs with ⟨rfl, before, threw⟩
  revert before
  generalize failure.front = front
  induction front generalizing session with
  | nil =>
      intro before
      rcases Prod.mk.inj before with ⟨-, rfl⟩
      simp only [List.nil_append, RequestHandler.each, Action.seq, threw]
  | cons delivery front induction =>
      intro before
      simp only [RequestHandler.each, Action.seq] at before
      simp only [List.cons_append, RequestHandler.each, Action.seq]
      split at before
      case h_1 middle first => exact induction before
      case h_2 exception middle first => cases before

/-- Calls that end with an exception end with a failure. -/
theorem occurs_of_threw
    {exception : CxxException} {after : Session J A}
    (threw :
      server.onRequest.each deliveries session = (.threw exception, after)) :
    ∃ failure : HandlerFailure J A,
      failure.Occurs server deliveries session ∧
        failure.exception = exception := by
  induction deliveries generalizing session with
  | nil => cases threw
  | cons delivery deliveries induction =>
      rcases delivery with ⟨request, keepAlive⟩
      simp only [RequestHandler.each, Action.seq] at threw
      split at threw
      case h_1 middle first =>
        rcases induction threw with ⟨failure, ⟨rfl, before, last⟩, same⟩
        refine
          ⟨{ failure with front := (request, keepAlive) :: failure.front },
            ⟨rfl, ?_, last⟩, same⟩
        simp only [RequestHandler.each, Action.seq, first]
        exact before
      case h_2 thrown middle first =>
        rcases Prod.mk.inj threw with ⟨same, rfl⟩
        obtain rfl := Outcome.threw.inj same
        exact ⟨⟨[], request, keepAlive, deliveries, session, _, _⟩,
          ⟨rfl, rfl, first⟩, rfl⟩

/-- Handling that throws sends nothing. -/
theorem Occurs.unsent
    {failure : HandlerFailure J A}
    (occurs : failure.Occurs server deliveries session) :
    failure.failed.stream = failure.answered.stream ∧
      failure.failed.closing = failure.answered.closing ∧
      failure.failed.log =
        failure.answered.log ++
          [.delivered failure.request failure.keepAlive] := by
  have threw := occurs.threw
  cases replied :
      (server.serve failure.request failure.keepAlive
        (failure.answered.note
          (.delivered failure.request failure.keepAlive))).reply with
  | ok reply =>
      rw [Server.onRequest_ok replied] at threw
      cases threw
  | error exception =>
      rw [Server.onRequest_error replied] at threw
      rcases Prod.mk.inj threw with ⟨-, same⟩
      rw [← same]
      exact ⟨rfl, rfl, rfl⟩

end HandlerFailure

/-! ## The JSON library and the parser -/

/-- A response whose body can be written can be prepared. -/
theorem HttpResponse.prepareResponse_of_body
    (response : HttpResponse J) {text : StdString}
    (written : response.bodySection = .ok text) (memory : Int) :
    ∃ head, response.prepareResponse memory = .ok head := by
  unfold prepareResponse serialize
  simp only [written, ↓reduceIte]
  by_cases long : response.body.length > 2 ^ 64 - 1
  · rw [if_pos long]
    exact ⟨_, rfl⟩
  · rw [if_neg long]
    exact ⟨_, rfl⟩

/-- An error response can be made for each status the parser reports. -/
theorem errorResponse_made
    (dumps : Json.DumpsUtf8 J) {status : Nat}
    (code : status = 400 ∨ status = 431) :
    ∃ reply, errorResponse J status = .ok reply := by
  have valid :
      ValidUtf8 (ascii "error") ∧
        ValidUtf8 (HttpResponse.getResponseMessage status) := by
    rcases code with rfl | rfl <;> decide +kernel
  obtain ⟨text, dumped⟩ :=
    (dumps.object_iff
      [(ascii "error", HttpResponse.getResponseMessage status)]
      (by simp)).mpr (by simpa using valid)
  simp only [errorResponse, HttpResponse.sendJson, HttpBody.setJson, dumped]
  generalize completed : HttpResponse.complete _ false = response
  have written : response.bodySection = .ok text := by
    rw [← completed]
    exact dumped
  rcases response.prepareResponse_of_body written 0 with ⟨head, prepared⟩
  exact ⟨head, by rw [prepared]; rfl⟩

/-! ## One read -/

/-- The session in which the handler runs. -/
def Conn.beforeRead (conn : Conn llhttp J A) : Session J A :=
  { conn.session with shouldClose := false }

/-- The failures that occur in a read. -/
def HandlerFailure.OccursIn
    (failure : HandlerFailure J A) (server : Server J A)
    (conn : Conn llhttp J A) (data : StdString) : Prop :=
  failure.Occurs server (conn.parser.delivers J data) conn.beforeRead

/--
What a read does about a failure: `execute` returns false, nothing was
sent for the request but the error response, which goes behind what the
earlier requests have sent and is the last that is sent, and the connection
is closed.
-/
structure HandlerFailure.Reported
    (failure : HandlerFailure J A) (server : Server J A)
    (conn : Conn llhttp J A) (data reply : StdString) : Prop where
  failed : ∃ reason,
    (conn.parser.execute server.onRequest data conn.beforeRead).1 =
      .failed 400 reason
  made : errorResponse J 400 = .ok reply
  unsent : failure.failed.stream = failure.answered.stream
  stream : (conn.onRead server data).session.stream =
    (failure.answered.send server.kernel reply []).closeConn.stream
  closed : (conn.onRead server data).session.closing = true
  log : ∀ later,
    ((conn.onRead server data).run server later).session.log =
      failure.answered.log ++
        [.delivered failure.request failure.keepAlive, .sent reply []]

/-- Failures of handlers do not cross the parser in a read. -/
def Conn.Contains (server : Server J A) (conn : Conn llhttp J A)
    (data : StdString) : Prop :=
  (∀ exception,
      (conn.parser.execute server.onRequest data conn.beforeRead).1 ≠
        .escaped exception) ∧
    ∀ failure : HandlerFailure J A, failure.OccursIn server conn data →
      ∃ reply, failure.Reported server conn data reply

/-- What the handling of a request throws in a read is a `std::exception`. -/
def Conn.ThrowsStd (server : Server J A) (conn : Conn llhttp J A)
    (data : StdString) : Prop :=
  ∀ failure : HandlerFailure J A, failure.OccursIn server conn data →
    failure.exception ≠ .other

/-- Nothing happens to a connection that is closed. -/
theorem Conn.run_of_closing
    {server : Server J A} {conn : Conn llhttp J A}
    (closed : conn.session.closing = true) (events : List (Event A)) :
    conn.run server events = conn := by
  apply Runs.run_of_fixed
  intro event
  have dead : conn.session.live = false := by simp [Session.live, closed]
  cases event <;> simp [step, dead]

omit [Json J] in
/--
What `send` does to the stream depends on the stream and on whether it is
being closed.
-/
theorem Session.send_stream_congr
    {session session' : Session J A}
    (stream : session.stream = session'.stream)
    (closing : session.closing = session'.closing)
    (kernel : Nat → KernelAnswer) (head body : StdString) :
    (session.send kernel head body).closeConn.stream =
      (session'.send kernel head body).closeConn.stream := by
  cases session with
  | mk ownStream ownClosing _ _ _ _ =>
  cases session' with
  | mk _ _ _ _ _ _ =>
  obtain rfl : ownStream = _ := stream
  obtain rfl : ownClosing = _ := closing
  unfold send
  simp only [note]
  cases ownClosing with
  | true => simp [closeConn]
  | false => cases kernel ownStream.writes <;> simp [closeConn]

/-- A failure that is a `std::exception` is reported. -/
theorem HandlerFailure.reported_of_std
    (dumps : Json.DumpsUtf8 J) {server : Server J A}
    {conn : Conn llhttp J A} {data : StdString}
    {failure : HandlerFailure J A}
    (occurs : failure.OccursIn server conn data)
    (std : failure.exception ≠ .other) :
    ∃ reply, failure.Reported server conn data reply := by
  obtain ⟨reply, made⟩ := errorResponse_made (J := J) dumps (Or.inl rfl)
  have made : errorResponse J 400 = .ok reply := made
  rcases occurs.unsent with ⟨stream, closing, log⟩
  obtain ⟨what, thrown⟩ : ∃ what, failure.exception = .stdException what := by
    cases exception : failure.exception with
    | stdException what => exact ⟨what, rfl⟩
    | other => exact absurd exception std
  have executed :
      conn.parser.execute server.onRequest data conn.beforeRead =
        (.failed 400 (ascii "handler threw: " ++ what), failure.failed) := by
    rw [HttpParser.execute_eq, occurs.each, thrown]
    rfl
  have read :
      conn.onRead server data =
        ⟨conn.parser,
          ({ failure.failed.send server.kernel reply [] with
            shouldClose := true } : Session J A).closeConn⟩ := by
    have called :
        conn.onRead server data =
          Conn.afterExecute server conn.parser
            (conn.parser.execute server.onRequest data conn.beforeRead) :=
      rfl
    have status : ((400 : Nat) : Int) = 400 := rfl
    rw [called, executed, Conn.afterExecute, status, made]
  have closed : (conn.onRead server data).session.closing = true := by
    rw [read]
    exact Session.closeConn_closing _
  refine
    ⟨reply,
      { failed := ⟨_, congrArg Prod.fst executed⟩
        made := made
        unsent := stream
        stream := ?_
        closed := closed
        log := ?_ }⟩
  · rw [← Session.send_stream_congr stream closing, read]
    unfold Session.closeConn
    split_ifs <;> rfl
  · intro later
    rw [Conn.run_of_closing closed, read, Session.closeConn_log]
    show (failure.failed.send server.kernel reply []).log = _
    rw [Session.send_log, log, List.append_assoc]
    rfl

/--
A read contains the failures of handlers if and only if what they throw
is a `std::exception`.
-/
theorem Conn.contains_iff
    (dumps : Json.DumpsUtf8 J) (server : Server J A)
    (conn : Conn llhttp J A) (data : StdString) :
    conn.Contains server data ↔ conn.ThrowsStd server data := by
  constructor
  · rintro ⟨returns, -⟩ failure occurs crosses
    apply returns .other
    rw [HttpParser.execute_eq, occurs.each, crosses]
    rfl
  · intro std
    refine
      ⟨?_, fun failure occurs =>
        HandlerFailure.reported_of_std dumps occurs (std failure occurs)⟩
    intro exception
    rw [HttpParser.execute_eq]
    cases ran :
        server.onRequest.each (conn.parser.delivers J data)
          conn.beforeRead with
    | mk outcome after =>
    cases outcome with
    | returned =>
        have returns :
            (conn.parser.reads J data).1 ≠ .error (.escaped exception) :=
          Impl.foldlM_record_returns _ _ _ _
        cases read : (conn.parser.reads J data).1 with
        | ok impl =>
            simp only [HttpParser.ending]
            split <;> simp
        | error stop =>
            cases stop with
            | failed failure headerLimitHit => simp [HttpParser.ending]
            | escaped thrown =>
                simp only [HttpParser.ending]
                rintro ⟨⟩
                exact returns read
    | threw thrown =>
        rcases HandlerFailure.occurs_of_threw ran with ⟨failure, occurs, rfl⟩
        have isStd := std failure occurs
        cases same : failure.exception with
        | stdException what => simp [Impl.caught, HttpParser.ending]
        | other => exact absurd same isStd

/-! ## Runs -/

/-- The condition for an event that is a read of an open connection. -/
def Conn.OnReads
    (condition : Conn llhttp J A → StdString → Prop)
    (conn : Conn llhttp J A) : Event A → Prop
  | .read data => conn.session.live = true → condition conn data
  | _ => True

/--
Failures of handlers never cross the parser in a run if and only if each
of them is a `std::exception`.
-/
theorem handler_failures_contained_iff
    (dumps : Json.DumpsUtf8 J) (server : Server J A) (app : A)
    (events : List (Conn.Event A)) :
    Runs.Along (Conn.step server) (Conn.OnReads (Conn.Contains server))
        (Conn.new llhttp app : Conn llhttp J A) events ↔
      Runs.Along (Conn.step server) (Conn.OnReads (Conn.ThrowsStd server))
        (Conn.new llhttp app : Conn llhttp J A) events := by
  have same :
      (Conn.OnReads (Conn.Contains server) :
          Conn llhttp J A → Conn.Event A → Prop) =
        Conn.OnReads (Conn.ThrowsStd server) := by
    funext conn event
    cases event with
    | read data => simp only [Conn.OnReads, conn.contains_iff dumps]
    | _ => rfl
  rw [same]

/-! ## A handler that throws -/

/-- A server whose second handler throws this. -/
def throwingServer (exception : CxxException) : Server FlatJson Unit where
  setup :=
    Setup.build
      [.route .server .GET (ascii "/") true,
        .route .server .GET (ascii "/throws") true]
  callbacks :=
    { middleware := fun _ => Script.done
      handler := fun label =>
        if label = 0 then
          Action.modify fun exchange =>
            exchange.setRes (exchange.res.sendText (ascii "hi"))
        else fun exchange => (.threw exception, exchange) }
  memory _ := 200
  kernel _ := .takes 65536

/-- A request that is answered, and one whose handler throws. -/
def throwingReads : List (Conn.Event Unit) :=
  [.read (ascii "GET / HTTP/1.1\r\n\r\nGET /throws HTTP/1.1\r\n\r\n"),
    .hangUp]

section Ends

variable {server : Server J A} {conn : Conn llhttp J A} {data : StdString}

/-- What is thrown in a read is what its calls end with. -/
theorem throwsStd_of_each
    {what : StdString}
    (threw :
      (server.onRequest.each (conn.parser.delivers J data)
        conn.beforeRead).1 = .threw (.stdException what)) :
    conn.ThrowsStd server data := by
  intro failure occurs crosses
  have ends := congrArg Prod.fst occurs.each
  rw [threw, crosses] at ends
  cases ends

theorem not_contains_of_each
    (threw :
      (server.onRequest.each (conn.parser.delivers J data)
        conn.beforeRead).1 = .threw .other) :
    ¬ conn.Contains server data := by
  rintro ⟨returns, -⟩
  apply returns .other
  rw [HttpParser.execute_eq]
  cases ran :
      server.onRequest.each (conn.parser.delivers J data)
        conn.beforeRead with
  | mk outcome after =>
  rw [ran] at threw
  obtain rfl : outcome = .threw .other := threw
  rfl

end Ends

theorem handler_failures_contained_iff_boom :
    Runs.Along (Conn.step (throwingServer (.stdException (ascii "boom"))))
      (Conn.OnReads
        (Conn.Contains (throwingServer (.stdException (ascii "boom")))))
      helloConn throwingReads := by
  refine
    (handler_failures_contained_iff FlatJson.dumpsUtf8
      (throwingServer (.stdException (ascii "boom"))) () throwingReads).mpr
        ⟨fun live => ?_, trivial, trivial⟩
  have threw :
      ((throwingServer (.stdException (ascii "boom"))).onRequest.each
        (helloConn.parser.delivers FlatJson
          (ascii "GET / HTTP/1.1\r\n\r\nGET /throws HTTP/1.1\r\n\r\n"))
        helloConn.beforeRead).1 =
          .threw (.stdException (ascii "boom")) := by
    decide +kernel
  exact throwsStd_of_each threw

/-- A value that is no `std::exception` leaves the parser. -/
theorem handler_failure_escapes :
    ¬ ∀ (server : Server FlatJson Unit) (events : List (Conn.Event Unit)),
        Runs.Along (Conn.step server) (Conn.OnReads (Conn.Contains server))
          helloConn events := by
  intro claim
  rcases claim (throwingServer .other) throwingReads with ⟨contains, -⟩
  have threw :
      ((throwingServer .other).onRequest.each
        (helloConn.parser.delivers FlatJson
          (ascii "GET / HTTP/1.1\r\n\r\nGET /throws HTTP/1.1\r\n\r\n"))
        helloConn.beforeRead).1 = .threw .other := by
    decide +kernel
  exact not_contains_of_each threw (contains rfl)

end PlusWeb
